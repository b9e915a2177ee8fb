import Dudlc.Grammar
import Dudlc.Iteration

/-!
# The numbers that are listed

A list that is accepted without a look-up should name the ids that are acted on.

* `pieceBounds`, `listed`, `numbers`: the numbers of a text, and the ids that they list.
* `ActedOn`: the walk over the list calls the function for what is listed, and the list carries the numbers.
* `lookedUp_none`: lists of numbers, read without a look-up.
* **`actedOn_iff`**: all numbers of the text are in 0..INT_MAX.
-/

namespace Dudlc

open Lib

/-! ## Texts -/

/-- The bounds of a piece: a number, or two numbers with a dash between them. -/
def pieceBounds (p : List UInt8) : ℤ × ℤ :=
  match p.drop (strtoul p).2 with
  | 45 :: r => (written p, written r)
  | _ => (written p, written p)

/-- The bounds of the pieces of a text, but for empty ones. -/
def bounds (t : List UInt8) : List (ℤ × ℤ) := ((t.splitOn 44).filter (· ≠ [])).map pieceBounds

/-- The ids that a text lists. -/
def listed (t : List UInt8) : List ℤ := (bounds t).flatMap fun b => idRange b.1 b.2

/-- The numbers that are written in a text. -/
def numbers (t : List UInt8) : List ℤ := (bounds t).flatMap fun b => [b.1, b.2]

/-- The walk over the list calls any function for the ids that are listed, as long as the connection
stays up, and the list carries every number of the text. -/
def ActedOn (ids : List ℤ) (t : List UInt8) : Prop :=
  (∀ func, idlIterate func ids = forEach func (listed t)) ∧ ∀ z ∈ numbers t, narrow z = z

/-! ## Walks -/

theorem forEach_injective {l m : List ℤ} (h : ∀ func, forEach func l = forEach func m) : l = m := by
  let ask (id : ℤ) : Client ℤ := askSucc (.lit "%d") [.int id]
  let sv : Server := ⟨3, fun _ _ => some [(Cstr.lit "200").bytes]⟩
  have hrun (l : List ℤ) (sent : List Request) : (forEach ask l).run sv.op sent =
      some (0, sent ++ l.map fun id => ⟨.lit "%d", [.int id]⟩) := by
    induction l generalizing sent with
    | nil => simp [forEach]
    | cons id l ih =>
      have hid : (ask id).run sv.op sent = some (0, sent ++ [⟨.lit "%d", [.int id]⟩]) := rfl
      rw [forEach, Prog.run_bind, hid, Option.bind_some]
      dsimp only
      rw [if_neg (by decide), ih]
      simp
  have heq := (hrun l []).symm.trans ((congrArg (fun p => p.run sv.op []) (h ask)).trans (hrun m []))
  rw [Option.some.injEq, Prod.mk.injEq, List.nil_append, List.nil_append] at heq
  refine List.map_injective_iff.2 (fun a b hab => ?_) heq.2
  simpa using hab

/-- The entries of a list: the bounds that are written, and the ids in the list. -/
def EntryOk (e : (ℤ × ℤ) × List ℤ) : Prop :=
  (e.1.1 = e.1.2 ∧ e.2 = [narrow e.1.1]) ∨
    (narrow e.1.1 < narrow e.1.2 ∧ e.2 = idRange (narrow e.1.1) (narrow e.1.2))

theorem idRange_self (z : ℤ) : idRange z z = [z] := by
  rw [idRange_eq]
  simp

theorem entries_listed {log : AddLog} (hlog : ∀ e ∈ log, EntryOk e) {t : List UInt8}
    (ht : bounds t = log.map Prod.fst) (hn : ∀ z ∈ numbers t, narrow z = z) : log.ids = listed t := by
  have hcarried : ∀ e ∈ log, narrow e.1.1 = e.1.1 ∧ narrow e.1.2 = e.1.2 := by
    rw [numbers, ht, List.flatMap_map, List.forall_mem_flatMap] at hn
    exact fun e he => by simpa using hn e he
  rw [listed, ht, List.flatMap_map]
  refine List.flatMap_congr fun e he => ?_
  rcases hlog e he with ⟨heq, hids⟩ | ⟨-, hids⟩
  · rw [hids, ← heq, idRange_self, (hcarried e he).1]
  · rw [hids, (hcarried e he).1, (hcarried e he).2]

/-- **What is acted on** is what is listed exactly if all numbers are in 0..INT_MAX. -/
theorem actedOn_entries {log : AddLog} (hlog : ∀ e ∈ log, EntryOk e) {t : List UInt8}
    (ht : bounds t = log.map Prod.fst) :
    ActedOn log.ids t ↔ ∀ z ∈ numbers t, 0 ≤ z ∧ z ≤ INT_MAX := by
  have hnumbers {P : ℤ → Prop} : (∀ z ∈ numbers t, P z) ↔ ∀ e ∈ log, P e.1.1 ∧ P e.1.2 := by
    rw [numbers, ht, List.flatMap_map, List.forall_mem_flatMap]
    simp only [List.forall_mem_cons, List.not_mem_nil, false_imp_iff, implies_true, and_true]
  have hlisted : listed t = log.flatMap fun e => idRange e.1.1 e.1.2 := by
    rw [listed, ht, List.flatMap_map]
  have hids := entries_listed hlog ht
  constructor
  · rintro ⟨hact, hn⟩
    have htake : log.ids.takeWhile (fun id => decide (0 ≤ id)) = log.ids := by
      refine (forEach_injective fun func => ?_).trans (hids hn).symm
      rw [← idlIterate_eq, hact]
    have hpos := List.takeWhile_eq_self_iff.1 htake
    rw [hnumbers] at hn ⊢
    intro e he
    have hle : e.1.1 ≤ e.1.2 := by
      rcases hlog e he with ⟨heq, -⟩ | ⟨hlt, -⟩
      · exact heq.le
      · rw [(hn e he).1, (hn e he).2] at hlt
        exact hlt.le
    have hmem : e.1.1 ∈ log.ids := by
      rw [hids (hnumbers.2 hn), hlisted]
      exact List.mem_flatMap.2 ⟨e, he, mem_idRange.2 ⟨le_rfl, hle⟩⟩
    have h0 : 0 ≤ e.1.1 := of_decide_eq_true (hpos _ hmem)
    have h1 := (narrow_eq_iff.1 (hn e he).1).2
    have h2 := (narrow_eq_iff.1 (hn e he).2).2
    exact ⟨⟨h0, h1⟩, h0.trans hle, h2⟩
  · intro hfits
    have hn : ∀ z ∈ numbers t, narrow z = z := fun z hz => by
      obtain ⟨h0, hmax⟩ := hfits z hz
      exact narrow_eq (by omega) hmax
    refine ⟨fun func => ?_, hn⟩
    rw [idlIterate_nonneg, hids hn]
    intro id hid
    rw [hids hn, hlisted] at hid
    obtain ⟨e, he, hid⟩ := List.mem_flatMap.1 hid
    exact (hnumbers.1 hfits e he).1.1.trans (mem_idRange.1 hid).1

/-! ## `val_idlist` -/

theorem readPieces_entries (ps : List (List UInt8)) : ∀ e ∈ (readPieces ps).1, EntryOk e := by
  have hitem {p : List UInt8} {ids : List ℤ} {r : List UInt8} (h : (readItem p).take = .inr (ids, r)) :
      EntryOk ((readItem p).bounds, ids) := by
    cases hi : readItem p with
    | none => rw [hi] at h; cases h
    | cut => rw [hi] at h; cases h
    | one z r' =>
      rw [hi] at h
      cases h
      exact Or.inl ⟨rfl, rfl⟩
    | span lo hi' r' =>
      rw [hi] at h
      simp only [Item.take] at h
      split_ifs at h with h1 h2
      obtain ⟨rfl, -⟩ := Prod.mk.inj (Sum.inr.inj h)
      exact Or.inr ⟨not_le.1 h1, rfl⟩
  induction ps using pieces_induction with
  | nil => simp [readPieces]
  | stop p ps e htake => simp [readPieces_inl htake]
  | last p ps ids r htake hr =>
    rw [readPieces_last htake hr, List.forall_mem_singleton]
    exact hitem htake
  | pass p ps ids htake hps ih =>
    rw [readPieces_pass htake hps, List.forall_mem_cons]
    exact ⟨hitem htake, ih⟩

theorem bounds_one {p : List UInt8} (hp : p ≠ []) (hc : 44 ∉ p) : bounds p = [pieceBounds p] := by
  rw [bounds, List.splitOn_eq_singleton hc]
  simp [hp]

theorem bounds_cons {p : List UInt8} (hp : p ≠ []) (hc : 44 ∉ p) (t : List UInt8) :
    bounds (p ++ 44 :: t) = pieceBounds p :: bounds t := by
  rw [bounds, List.splitOn_append_cons_self_of_not_mem hc, List.filter_cons_of_pos (by simpa using hp)]
  rfl

theorem pieceBounds_number {t : List UInt8} (ht : IsNumber t) : pieceBounds t = (written t, written t) := by
  rw [pieceBounds, ht.2, List.drop_length]

/-- **The bounds of an item** are those of the text that it takes. -/
theorem pieceBounds_take {p r : List UInt8} {ids : List ℤ} (h : (readItem p).take = .inr (ids, r)) :
    pieceBounds (p.take (p.length - r.length)) = (readItem p).bounds := by
  rcases piece_cases p with hi | ⟨d, rfl⟩ | ⟨d, t, rfl⟩ | ⟨d, r', hr, rfl, hi⟩
  · rw [hi] at h
    cases h
  · have hr : r = [] := by
      rw [readItem_decimal] at h
      cases h
      rfl
    subst hr
    rw [List.length_nil, Nat.sub_zero, List.take_length, pieceBounds_number d.isNumber, readItem_decimal,
      written_decimal]
    rfl
  · have hitem := readItem_span d t
    split_ifs at hitem with hz
    · rw [hitem] at h
      cases h
    have hr : r = t.drop (strtoul t).2 := by
      rw [hitem] at h
      simp only [Item.take] at h
      split_ifs at h
      exact (Prod.mk.inj (Sum.inr.inj h)).2.symm
    have hlen : (d.digits ++ 45 :: t).length - r.length = d.digits.length + (1 + (strtoul t).2) := by
      have := strtoul_le t
      rw [hr, List.length_append, List.length_cons, List.length_drop]
      omega
    have htake : (d.digits ++ 45 :: t).take (d.digits.length + (1 + (strtoul t).2)) =
        d.digits ++ 45 :: t.take (strtoul t).2 := by
      rw [List.take_length_add_append, Nat.add_comm 1, List.take_succ_cons]
    have hd := d.read (r := 45 :: t.take (strtoul t).2) (by simp [isdigit])
    rw [hitem, hlen, htake, pieceBounds, hd.2, List.drop_left, hd.1]
    exact congrArg (d.val, ·) (written_take hz)
  · rw [hi] at h ⊢
    obtain ⟨-, rfl⟩ := Prod.mk.inj (Sum.inr.inj h)
    rw [List.length_append, Nat.add_sub_cancel, List.take_left, pieceBounds_number d.isNumber,
      written_decimal]
    rfl

/-- **The bounds of the text** that a list takes are those of its items. -/
theorem bounds_pieces (ps : List (List UInt8)) (hps : ∀ p ∈ ps, 44 ∉ p) {n : ℕ}
    (h : (readPieces ps).2 = .at n) :
    bounds (([44].intercalate ps).take n) = (readPieces ps).1.map Prod.fst := by
  induction ps using pieces_induction generalizing n with
  | nil => simp [readPieces, bounds, List.splitOn_nil]
  | stop p ps e htake =>
    rw [readPieces_inl htake] at h ⊢
    obtain rfl := inl_at (htake.trans (congrArg _ h))
    rfl
  | last p ps ids r htake hr =>
    have hlt := take_lt htake
    rw [readPieces_last htake hr] at h ⊢
    obtain rfl := ListEnd.at.inj h
    rw [intercalate_cons, List.take_append_of_le_length (Nat.sub_le ..), bounds_one, pieceBounds_take htake]
    · rfl
    · intro hnil
      rcases List.take_eq_nil_iff.1 hnil with h0 | h0
      · omega
      · exact ne_nil_of_take htake h0
    · exact fun hc => hps p List.mem_cons_self (List.mem_of_mem_take hc)
  | pass p ps ids htake hne ih =>
    rw [List.forall_mem_cons] at hps
    rw [readPieces_pass htake hne] at h ⊢
    obtain ⟨k, hk, rfl⟩ : ∃ k, (readPieces ps).2 = .at k ∧ n = p.length + 1 + k := by
      revert h
      rcases (readPieces ps).2 with k | _ | _
      · exact fun h => ⟨k, rfl, (ListEnd.at.inj h).symm⟩
      · exact fun h => by cases h
      · exact fun h => by cases h
    rw [intercalate_cons, tailOf, if_neg hne, Nat.add_assoc, List.take_length_add_append, Nat.add_comm 1,
      List.take_succ_cons, bounds_cons (ne_nil_of_take htake) hps.1, ih hps.2 hk]
    have hb := pieceBounds_take htake
    rw [List.length_nil, Nat.sub_zero, List.take_length] at hb
    rw [hb]
    rfl

/-! ## Numbers with commas -/

theorem loop_numbers {σ β : Type} {body : σ → Client (σ ⊕ β)} (text : σ → List UInt8) (lst : σ → List ℤ)
    {b : β} {rest : List UInt8} {ids : List ℤ}
    (hmore : ∀ p p', body p = pure (.inl p') → ∃ t, IsNumber t ∧ text p = t ++ 44 :: text p' ∧
      lst p' = lst p ++ [narrow (written t)])
    (hdone : ∀ p, body p = pure (.inr b) → ∃ t, IsNumber t ∧ text p = t ++ rest ∧
      ids = lst p ++ [narrow (written t)]) {n : ℕ} {p : σ} (h : Prog.loop body n p = pure b) :
    ∃ ts, ts ≠ [] ∧ (∀ t ∈ ts, IsNumber t) ∧ text p = [44].intercalate ts ++ rest ∧
      ids = lst p ++ ts.map fun t => narrow (written t) := by
  induction n generalizing p with
  | zero => cases h
  | succ n ih =>
    obtain ⟨p' | b', hbody, hrest⟩ := Prog.bind_eq_pure h
    · obtain ⟨t, ht, htext, hlst⟩ := hmore p p' hbody
      obtain ⟨ts, hne, hts, htext', hids⟩ := ih hrest
      refine ⟨t :: ts, List.cons_ne_nil _ _, List.forall_mem_cons.2 ⟨ht, hts⟩, ?_, ?_⟩
      · rw [intercalate_cons, tailOf, if_neg hne, htext, htext']
        simp
      · rw [hids, hlst]
        simp
    · obtain rfl := Prog.pure_inj hrest
      obtain ⟨t, ht, htext, hids⟩ := hdone p hbody
      exact ⟨[t], List.cons_ne_nil _ _, by simpa using ht, by simpa using htext, by simpa using hids⟩

theorem number_split {s : Cstr} {i : ℕ} (h : (uintAt s i).2 ≠ 0) :
    ∃ t, IsNumber t ∧ uintAt s i = (narrow (written t), t.length) ∧
      (s.drop i).bytes = t ++ (s.drop (i + t.length)).bytes := by
  rw [uintAt_eq] at h ⊢
  have hlen := List.length_take_of_le (strtoul_le (s.drop i).bytes)
  have hdrop : (s.drop (i + (strtoul (s.drop i).bytes).2)).bytes =
      (s.drop i).bytes.drop (strtoul (s.drop i).bytes).2 := (List.drop_drop ..).symm
  refine ⟨_, isNumber_take h, by rw [written_take h, hlen], ?_⟩
  rw [hlen, hdrop, List.take_append_drop]

/-- A list of numbers is read. -/
def ReadsNumbers (s : Cstr) (ids : List ℤ) (n : ℕ) : Prop :=
  ∃ ts, ts ≠ [] ∧ (∀ t ∈ ts, IsNumber t) ∧ s.bytes.take n = [44].intercalate ts ∧
    ids = ts.map fun t => narrow (written t)

theorem readsNumbers_of_loop {s : Cstr} {ids : List ℤ} {n : ℕ}
    (h : ∃ ts, ts ≠ [] ∧ (∀ t ∈ ts, IsNumber t) ∧
      (s.drop 0).bytes = [44].intercalate ts ++ (s.drop n).bytes ∧
      ids = [] ++ ts.map fun t => narrow (written t)) : ReadsNumbers s ids n := by
  obtain ⟨ts, hne, hts, htext, hids⟩ := h
  refine ⟨ts, hne, hts, ?_, hids⟩
  have hsplit : s.bytes.take n ++ s.bytes.drop n = [44].intercalate ts ++ s.bytes.drop n :=
    (List.take_append_drop n s.bytes).trans htext
  exact List.append_cancel_right hsplit

/-- A converter that makes no call converts a number, if it accepts. -/
def ConvertsNumbers (conv : Cstr → Client (ℤ × ℕ)) : Prop :=
  ∀ s id n, conv s = pure (id, n) → n ≠ 0 → (id, n) = uintAt s 0

theorem convertsNumbers_user : ConvertsNumbers valUser := fun _ _ _ h _ => (Prog.pure_inj h).symm

theorem convertsNumbers_tag : ConvertsNumbers valTag := by
  intro s id n h hn
  unfold valTag valNamed at h
  rcases huint : uintAt s 0 with ⟨z, k⟩
  rw [huint] at h
  dsimp only at h
  split_ifs at h with hk hlen
  · exact (Prog.pure_inj h).symm
  · obtain ⟨-, rfl⟩ := Prod.mk.inj (Prog.pure_inj h)
    exact absurd rfl hn
  · obtain ⟨a, ha, -⟩ := Prog.bind_eq_pure h
    cases ha

theorem addclistBody_number {conv : Cstr → Client (ℤ × ℕ)} (hconv : ConvertsNumbers conv) {s : Cstr}
    {p : ℕ × List ℤ × ℕ} {r : (ℕ × List ℤ × ℕ) ⊕ ℕ × List ℤ × ℕ}
    (h : addclistBody conv s p = pure r) (hr : r ≠ .inr (0, p.2.1, 0)) :
    ∃ t, IsNumber t ∧ (s.drop p.1).bytes = t ++ (s.drop (p.1 + t.length)).bytes ∧
      r = if s.byte (p.1 + t.length) ≠ 44
        then .inr (p.2.2 + 1, p.2.1 ++ [narrow (written t)], p.1 + t.length)
        else .inl (p.1 + t.length + 1, p.2.1 ++ [narrow (written t)], p.2.2 + 1) := by
  obtain ⟨⟨id, k⟩, hid, hrest⟩ := Prog.bind_eq_pure h
  dsimp only at hrest
  by_cases hk : k = 0
  · rw [if_pos hk] at hrest
    exact absurd (Prog.pure_inj hrest).symm hr
  have huint := hconv _ _ _ hid hk
  have hat : uintAt (s.drop p.1) 0 = uintAt s p.1 := by
    rw [uintAt_eq, uintAt_eq]
    rfl
  rw [hat] at huint
  obtain ⟨t, ht, hnum, htext⟩ := number_split (s := s) (i := p.1) (by rw [← huint]; exact hk)
  obtain ⟨rfl, rfl⟩ := Prod.mk.inj (huint.trans hnum)
  rw [if_neg hk] at hrest
  refine ⟨t, ht, htext, ?_⟩
  split_ifs at hrest ⊢
  · exact (Prog.pure_inj hrest).symm
  · exact (Prog.pure_inj hrest).symm

theorem clist_numbers {conv : Cstr → Client (ℤ × ℕ)} (hconv : ConvertsNumbers conv) {s : Cstr} {ids : List ℤ}
    {n : ℕ} (h : valClist conv s = pure (some ids, n)) (hn : n ≠ 0) : ReadsNumbers s ids n := by
  obtain ⟨⟨ret, ids', n'⟩, hadd, heq⟩ := Prog.bind_eq_pure h
  obtain ⟨rfl, rfl⟩ : ids' = ids ∧ n' = n := by simpa using Prog.pure_inj heq
  refine readsNumbers_of_loop (loop_numbers (fun p : ℕ × List ℤ × ℕ => (s.drop p.1).bytes) (fun p => p.2.1)
    (fun p p' hp => ?_) (fun p hp => ?_) hadd)
  · obtain ⟨t, ht, htext, hr⟩ := addclistBody_number hconv hp nofun
    split_ifs at hr with hc
    obtain rfl := Sum.inl.inj hr
    exact ⟨t, ht, by rw [htext, drop_byte (by decide) (not_not.1 hc)], rfl⟩
  · obtain ⟨t, ht, htext, hr⟩ := addclistBody_number hconv hp fun h => hn (by
      have := Sum.inr.inj h
      simpa using (Prod.mk.inj (Prod.mk.inj this).2).2)
    split_ifs at hr with hc
    obtain ⟨-, hids⟩ := Prod.mk.inj (Sum.inr.inj hr)
    obtain ⟨rfl, rfl⟩ := Prod.mk.inj hids
    exact ⟨t, ht, htext, rfl⟩

/-! ## `val_tracklist` -/

theorem curtrack_ne_pure (r : Option DucTrack) : ducCmdCurtrack ≠ pure r := fun h => by cases h

theorem track2id_ne_pure (a b z : ℤ) : ducCmdTrack2id a b ≠ pure z := fun h => by cases h

theorem addalbum_ne_pure (idl : List ℤ) (album first last : ℤ) (r : List ℤ) :
    idlAddalbum idl album first last ≠ pure r := by
  intro h
  unfold idlAddalbum at h
  dsimp only at h
  split_ifs at h
  · obtain ⟨t, ht, -⟩ := Prog.bind_eq_pure h
    exact curtrack_ne_pure t ht
  · obtain ⟨o, ho, hrest⟩ := Prog.bind_eq_pure h
    obtain rfl := Prog.pure_inj ho
    obtain ⟨ts, hts, -⟩ := Prog.bind_eq_pure hrest
    cases hts

theorem tracklistItem_number {s : Cstr} {tok : ℕ} {idl idl' : List ℤ} {tok' : ℕ}
    (h : tracklistItem s tok idl = pure (some (idl', tok'))) :
    ∃ t, IsNumber t ∧ (s.drop tok).bytes = t ++ (s.drop tok').bytes ∧ idl' = idl ++ [narrow (written t)] ∧
      tok' = tok + t.length := by
  unfold tracklistItem at h
  rcases huint : uintAt s tok with ⟨id, n⟩
  rw [huint] at h
  dsimp only at h
  by_cases hno : n = 0 ∧ s.byte tok ≠ 99
  · rw [if_pos hno] at h
    cases Prog.pure_inj h
  rw [if_neg hno] at h
  rcases hskip : (if n = 0 then ((-1 : ℤ), tok + 1) else (id, tok + n)) with ⟨id1, tok₁⟩
  rw [hskip] at h
  dsimp only at h
  by_cases hslash : s.byte tok₁ = 47
  · -- a position: NULL, or a look-up
    exfalso
    rw [if_pos hslash] at h
    split at h
    · split at h
      · cases Prog.pure_inj h
      · obtain ⟨r, hr, -⟩ := Prog.bind_eq_pure h
        exact addalbum_ne_pure _ _ _ _ _ hr
    split at h
    · split at h
      · cases Prog.pure_inj h
      · obtain ⟨r, hr, -⟩ := Prog.bind_eq_pure h
        exact addalbum_ne_pure _ _ _ _ _ hr
    · obtain ⟨r, hr, -⟩ := Prog.bind_eq_pure h
      exact track2id_ne_pure _ _ _ hr
  rw [if_neg hslash] at h
  by_cases hneg : id1 < 0
  · rw [if_pos hneg] at h
    obtain ⟨t, ht, -⟩ := Prog.bind_eq_pure h
    exact absurd ht (curtrack_ne_pure t)
  rw [if_neg hneg] at h
  obtain ⟨rfl, rfl⟩ : idl ++ [id1] = idl' ∧ tok₁ = tok' := by simpa using Prog.pure_inj h
  by_cases hn : n = 0
  · rw [if_pos hn] at hskip
    obtain ⟨rfl, -⟩ := Prod.mk.inj hskip
    exact absurd (by decide) hneg
  rw [if_neg hn] at hskip
  obtain ⟨rfl, rfl⟩ := Prod.mk.inj hskip
  obtain ⟨t, ht, hnum, htext⟩ := number_split (s := s) (i := tok) (by rw [huint]; exact hn)
  obtain ⟨rfl, rfl⟩ := Prod.mk.inj (huint.symm.trans hnum)
  exact ⟨t, ht, htext, rfl, rfl⟩

theorem tracklist_numbers {s : Cstr} {ids : List ℤ} {n : ℕ} (h : valTracklist s = pure (some ids, n)) :
    ReadsNumbers s ids n := by
  refine readsNumbers_of_loop (loop_numbers (fun p : ℕ × List ℤ => (s.drop p.1).bytes) Prod.snd
    (fun p p' hp => ?_) (fun p hp => ?_) h)
  · obtain ⟨_ | ⟨idl, tok⟩, hitem, hrest⟩ := Prog.bind_eq_pure hp
    · cases Prog.pure_inj hrest
    obtain ⟨t, ht, htext, rfl, rfl⟩ := tracklistItem_number hitem
    dsimp only at hrest
    split_ifs at hrest with hc
    · cases Prog.pure_inj hrest
    · cases Prog.pure_inj hrest
      exact ⟨t, ht, by rw [htext, drop_byte (by decide) (not_not.1 hc)], rfl⟩
  · obtain ⟨_ | ⟨idl, tok⟩, hitem, hrest⟩ := Prog.bind_eq_pure hp
    · cases Prog.pure_inj hrest
    obtain ⟨t, ht, htext, rfl, rfl⟩ := tracklistItem_number hitem
    dsimp only at hrest
    split_ifs at hrest with hc
    · cases Prog.pure_inj hrest
      exact ⟨t, ht, htext, rfl⟩
    · cases Prog.pure_inj hrest

/-! ## What is acted on -/

theorem readsNumbers_entries {s : Cstr} {ids : List ℤ} {n : ℕ} (h : ReadsNumbers s ids n) :
    ∃ log : AddLog, (∀ e ∈ log, EntryOk e) ∧ bounds (s.bytes.take n) = log.map Prod.fst ∧ log.ids = ids := by
  obtain ⟨ts, hne, hts, htext, rfl⟩ := h
  refine ⟨ts.map fun t => ((written t, written t), [narrow (written t)]), ?_, ?_, ?_⟩
  · rw [List.forall_mem_map]
    exact fun t _ => Or.inl ⟨rfl, rfl⟩
  · have hsplit : ([44].intercalate ts).splitOn 44 = ts :=
      List.splitOn_intercalate 44 (fun t ht => (hts t ht).not_mem endsNumber_comma) hne
    have hfilter : ts.filter (· ≠ []) = ts := List.filter_eq_self.2 fun t ht => by simpa using (hts t ht).1
    rw [htext, bounds, hsplit, hfilter, List.map_map]
    exact List.map_congr_left fun t ht => pieceBounds_number (hts t ht)
  · rw [AddLog.ids, List.flatMap_map]
    exact List.map_eq_flatMap.symm

theorem idlist_entries {s : Cstr} {ids : List ℤ} {n : ℕ} (h : valIdlist s = pure (some ids, n)) (hn : n ≠ 0) :
    ∃ log : AddLog, (∀ e ∈ log, EntryOk e) ∧ bounds (s.bytes.take n) = log.map Prod.fst ∧ log.ids = ids := by
  unfold valIdlist at h
  rcases hadd : idlAddlist [] s with _ | ⟨ret, idl, k⟩
  · rw [hadd] at h
    cases h
  rw [hadd] at h
  obtain ⟨rfl, rfl⟩ : idl = ids ∧ k = n := by simpa using Prog.pure_inj h
  rw [idlAddlist_pieces] at hadd
  have hentries := readPieces_entries (s.bytes.splitOn 44)
  have hpieces := bounds_pieces (n := k) _ (not_mem_of_mem_splitOn (c := 44) s.bytes)
  rw [List.intercalate_splitOn] at hpieces
  generalize readPieces (s.bytes.splitOn 44) = q at *
  obtain ⟨log, e⟩ := q
  cases e with
  | «at» j =>
    obtain ⟨-, rfl, rfl⟩ : 0 + log.ids.length = ret ∧ log.ids = idl ∧ j = k := by
      simpa [ListEnd.result] using hadd
    exact ⟨log, hentries, hpieces rfl, rfl⟩
  | refused =>
    obtain ⟨-, -, rfl⟩ : 0 = ret ∧ log.ids = idl ∧ 0 = k := by simpa [ListEnd.result] using hadd
    exact absurd rfl hn
  | overflow => cases hadd

/-- **When the listed numbers are acted on.** Let a parser of id lists accept a text without a look-up, up
to the byte `n`. The walk over its list calls every function for the ids that are listed, and the list
carries all numbers, exactly if the numbers are in 0..INT_MAX. -/
theorem actedOn_iff : ∀ parse ∈ [valIdlist, valUserlist, valTracklist, valTaglist], ∀ (s : Cstr) (ids : List ℤ)
    (n : ℕ), parse s = pure (some ids, n) → n ≠ 0 →
      (ActedOn ids (s.bytes.take n) ↔ ∀ z ∈ numbers (s.bytes.take n), 0 ≤ z ∧ z ≤ INT_MAX) := by
  have hacted {s : Cstr} {ids : List ℤ} {n : ℕ} (h : ∃ log : AddLog, (∀ e ∈ log, EntryOk e) ∧
      bounds (s.bytes.take n) = log.map Prod.fst ∧ log.ids = ids) :
      ActedOn ids (s.bytes.take n) ↔ ∀ z ∈ numbers (s.bytes.take n), 0 ≤ z ∧ z ≤ INT_MAX := by
    obtain ⟨log, hlog, hbounds, rfl⟩ := h
    exact actedOn_entries hlog hbounds
  simp only [List.forall_mem_cons]
  exact ⟨fun s ids n h hn => hacted (idlist_entries h hn),
    fun s ids n h hn => hacted (readsNumbers_entries (clist_numbers convertsNumbers_user h hn)),
    fun s ids n h _ => hacted (readsNumbers_entries (tracklist_numbers h)),
    fun s ids n h hn => hacted (readsNumbers_entries (clist_numbers convertsNumbers_tag h hn)), by simp⟩

theorem valIdlist_of {s : Cstr} {ret n : ℕ} {ids : List ℤ} (h : idlAddlist [] s = some (ret, ids, n)) :
    valIdlist s = pure (some ids, n) := by rw [valIdlist, h]

/-- The theorem at `2-4,7`. -/
theorem actedOn_ranges : ActedOn [2, 3, 4, 7] (Cstr.lit "2-4,7").bytes := by
  have hadd : idlAddlist [] (.lit "2-4,7") = some (4, [2, 3, 4, 7], 5) := by decide +kernel
  exact (actedOn_iff valIdlist List.mem_cons_self (.lit "2-4,7") _ 5 (valIdlist_of hadd) (by decide)).2
    (by decide +kernel)

/-- **`1,4294967295,2`** is accepted, and 1 alone is acted on. -/
theorem not_actedOn : valIdlist (.lit "1,4294967295,2") = pure (some [1, -1, 2], 14) ∧
    (∀ func, idlIterate func [1, -1, 2] = forEach func [1]) ∧
    listed (Cstr.lit "1,4294967295,2").bytes = [1, 4294967295, 2] ∧
    ¬ ActedOn [1, -1, 2] ((Cstr.lit "1,4294967295,2").bytes.take 14) := by
  have hadd : idlAddlist [] (.lit "1,4294967295,2") = some (3, [1, -1, 2], 14) := by decide +kernel
  have hlisted : listed (Cstr.lit "1,4294967295,2").bytes = [1, 4294967295, 2] := by decide +kernel
  have hwalk (func : ℤ → Client ℤ) : idlIterate func [1, -1, 2] = forEach func [1] := idlIterate_eq ..
  refine ⟨valIdlist_of hadd, hwalk, hlisted, ?_⟩
  rintro ⟨hact, -⟩
  have htake : (Cstr.lit "1,4294967295,2").bytes.take 14 = (Cstr.lit "1,4294967295,2").bytes := by decide
  rw [htake, hlisted] at hact
  exact absurd (forEach_injective fun func => (hwalk func).symm.trans (hact func)) (by decide)

end Dudlc
