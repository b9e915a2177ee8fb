import Dudlc.Lib.Written
import Dudlc.Values

/-!
# The items of an id list

`idl_addlist` reads a list item by item, up to each comma.

* `Item`, `readItem`: an item as it is written, with numbers of any size.
* `Item.take`, `readPieces`: the ids that the items append, and where the list ends.
* `pieces_induction`: the first piece ends the list, is the last one that is taken, or the list goes on behind it.
* `addlistLog`: `idl_addlist` with a record of what every round appends; `addlistLog_fst`.
* **`addlistLog_pieces`**: the loop takes the pieces between the commas one after the other.
-/

namespace Dudlc

open Lib

/-! ## Items -/

/-- An item at the start of a text: the numbers as they are written, and what follows. -/
inductive Item
  /-- There is no digit. -/
  | none
  /-- A number and a dash, and no number behind it. -/
  | cut
  | one (z : ℤ) (rest : List UInt8)
  | span (lo hi : ℤ) (rest : List UInt8)
  deriving DecidableEq

/-- The item at the start of a text. -/
def readItem (t : List UInt8) : Item :=
  if !isdigit (t.headD 0) then .none
  else match t.drop (strtoul t).2 with
    | 45 :: r =>
      if (strtoul r).2 = 0 then .cut else .span (written t) (written r) (r.drop (strtoul r).2)
    | r => .one (written t) r

/-- The bounds of an item, as they are written. -/
def Item.bounds : Item → ℤ × ℤ
  | .one z _ => (z, z)
  | .span lo hi _ => (lo, hi)
  | _ => (0, 0)

/-- The text goes on behind the item. -/
def Item.append : Item → List UInt8 → Item
  | .one z r, t => .one z (r ++ t)
  | .span lo hi r, t => .span lo hi (r ++ t)
  | i, _ => i

/-- How a list ends. -/
inductive ListEnd
  /-- Before the byte `n`. -/
  | at (n : ℕ)
  | refused
  /-- An id leaves the range of an `int`. -/
  | overflow
  deriving DecidableEq

/-- What `idl_addlist` makes of an item: the list ends, or there are ids, and a rest of the text. -/
def Item.take : Item → ListEnd ⊕ List ℤ × List UInt8
  | .none => .inl (.at 0)
  | .cut => .inl .refused
  | .one z r => .inr ([narrow z], r)
  | .span lo hi r =>
    if narrow hi ≤ narrow lo then .inl .refused
    else if narrow hi = INT_MAX then .inl .overflow
    else .inr (idRange (narrow lo) (narrow hi), r)

theorem idRange_eq (lo hi : ℤ) :
    idRange lo hi = (List.range (hi - lo + 1).toNat).map fun k : ℕ => lo + k := by
  have hcast : (do let k ← List.range (hi - lo + 1).toNat; pure (k : ℤ)) =
      (List.range (hi - lo + 1).toNat).map fun k : ℕ => (k : ℤ) := List.flatMap_pure_eq_map ..
  rw [idRange, hcast, List.map_map]
  rfl

theorem mem_idRange {lo hi id : ℤ} : id ∈ idRange lo hi ↔ lo ≤ id ∧ id ≤ hi := by
  simp only [idRange_eq, List.mem_map, List.mem_range]
  constructor
  · rintro ⟨k, hk, rfl⟩
    omega
  · rintro ⟨h1, h2⟩
    exact ⟨(id - lo).toNat, by omega, by omega⟩

theorem length_idRange (lo hi : ℤ) : (idRange lo hi).length = (hi - lo + 1).toNat := by
  rw [idRange_eq, List.length_map, List.length_range]

/-- What every round appends, with the bounds of its item. -/
abbrev AddLog := List ((ℤ × ℤ) × List ℤ)

/-- All that is appended. -/
def AddLog.ids (log : AddLog) : List ℤ := log.flatMap Prod.snd

def ListEnd.shift (n : ℕ) : ListEnd → ListEnd
  | .at k => .at (n + k)
  | e => e

/-- What `idl_addlist` makes of the pieces between the commas. -/
def readPieces : List (List UInt8) → AddLog × ListEnd
  | [] => ([], .at 0)
  | p :: ps =>
    match (readItem p).take with
    | .inl e => ([], e)
    | .inr (ids, r) =>
      let entry := ((readItem p).bounds, ids)
      if r ≠ [] ∨ ps = [] then ([entry], .at (p.length - r.length))
      else (entry :: (readPieces ps).1, (readPieces ps).2.shift (p.length + 1))

/-! ## The loop -/

/-- A round of the loop in `idl_addlist`, recorded. -/
def addlistRound (list : Cstr) (p : (ℕ × List ℤ × ℕ) × AddLog) :
    Option (((ℕ × List ℤ × ℕ) × AddLog) ⊕ (ℕ × List ℤ × ℕ) × AddLog) :=
  (addlistBody list p.1).map fun r =>
    match r with
    | .inl q =>
      .inl (q, p.2 ++ [((readItem (list.drop p.1.1).bytes).bounds, q.2.1.drop p.1.2.1.length)])
    | .inr q => .inr (q, p.2)

/-- `idl_addlist`, with the record. -/
def addlistLog (idl : List ℤ) (list : Cstr) : Option ((ℕ × List ℤ × ℕ) × AddLog) :=
  loop (addlistRound list) (list.bytes.length + 1) ((0, idl, 0), [])

variable {s : Cstr} {idl : List ℤ} {log : AddLog}

theorem addlistLog_fst (idl : List ℤ) (s : Cstr) : (addlistLog idl s).map Prod.fst = idlAddlist idl s := by
  have hrel : Option.Rel (fun (a : (ℕ × List ℤ × ℕ) × AddLog) b => a.1 = b) (addlistLog idl s)
      (idlAddlist idl s) := by
    refine loop_rel (R := fun a b => a.1 = b) (fun p q hpq => ?_) _ rfl
    subst hpq
    rw [addlistRound]
    rcases addlistBody s p.1 with _ | q | q
    · exact .none
    · exact .some (.inl rfl)
    · exact .some (.inr rfl)
  generalize addlistLog idl s = a, idlAddlist idl s = b at hrel ⊢
  rcases hrel with h | _
  · exact congrArg some h
  · rfl

theorem byte_eq (s : Cstr) (i : ℕ) : s.byte i = (s.drop i).bytes.headD 0 := by
  rw [Cstr.byte, Cstr.drop, List.headD_eq_head?_getD, List.head?_drop, List.getD_eq_getElem?_getD]

theorem cons_of_headD {l : List UInt8} {c : UInt8} (hc : c ≠ 0) (h : l.headD 0 = c) : ∃ r, l = c :: r := by
  cases l with
  | nil => exact absurd h.symm hc
  | cons b r => exact ⟨r, congrArg (· :: r) h⟩

theorem drop_byte {s : Cstr} {i : ℕ} {c : UInt8} (hc : c ≠ 0) (h : s.byte i = c) :
    (s.drop i).bytes = c :: (s.drop (i + 1)).bytes := by
  rw [byte_eq] at h
  have htail : (s.drop (i + 1)).bytes = (s.drop i).bytes.tail := List.tail_drop.symm
  obtain ⟨r, hr⟩ := cons_of_headD hc h
  rw [htail, hr]
  rfl

theorem uintAt_eq (s : Cstr) (i : ℕ) :
    uintAt s i = (narrow (written (s.drop i).bytes), (strtoul (s.drop i).bytes).2) := by
  rw [uintAt, narrow, ← (strtoul_written _).1]

/-- The index of the rest of a text, behind its comma if it starts with one. -/
def behind (s : Cstr) (r : List UInt8) : ℕ :=
  s.bytes.length - r.length + if r.head? = some 44 then 1 else 0

theorem behind_drop (s : Cstr) {i : ℕ} (hi : i ≤ s.bytes.length) :
    behind s (s.bytes.drop i) = if s.byte i = 44 then i + 1 else i := by
  have hlen : s.bytes.length - (s.bytes.drop i).length = i := by
    rw [List.length_drop]
    omega
  have hhead : (s.bytes.drop i).head? = some 44 ↔ s.byte i = 44 := by
    rw [byte_eq]
    change (s.bytes.drop i).head? = some 44 ↔ (s.bytes.drop i).headD 0 = 44
    cases s.bytes.drop i with
    | nil => simp
    | cons b r => simp
  simp only [behind, hlen, hhead]
  split_ifs <;> rfl

variable {t r : List UInt8}

theorem readItem_none (ht : isdigit (t.headD 0) = false) : readItem t = .none := by
  simp only [readItem, ht]
  rfl

theorem readItem_one (ht : isdigit (t.headD 0) = true) (hr : (t.drop (strtoul t).2).headD 0 ≠ 45) :
    readItem t = .one (written t) (t.drop (strtoul t).2) := by
  simp only [readItem, ht, Bool.not_true, Bool.false_eq_true, if_false]
  split
  · next h => rw [h] at hr; exact absurd rfl hr
  · rfl

theorem readItem_dash (ht : isdigit (t.headD 0) = true) (hr : t.drop (strtoul t).2 = 45 :: r) :
    readItem t = if (strtoul r).2 = 0 then .cut else .span (written t) (written r) (r.drop (strtoul r).2) := by
  simp only [readItem, ht, Bool.not_true, Bool.false_eq_true, if_false, hr]

theorem strtoul_digit (ht : isdigit (t.headD 0) = true) : (strtoul t).2 ≠ 0 := by
  cases t with
  | nil => cases ht
  | cons b t =>
    have hb : isdigit b = true := ht
    rw [ne_eq, strtoul_eq_zero, (scan_digit hb t).2.1, List.takeWhile_cons_of_pos hb]
    exact List.cons_ne_nil _ _

/-- **A round of the loop** takes the item at the index. -/
theorem addlistBody_item (s : Cstr) (tok : ℕ) (idl : List ℤ) (added : ℕ) :
    addlistBody s (tok, idl, added) =
      match (readItem (s.drop tok).bytes).take with
      | .inl (.at k) => some (.inr (added, idl, tok + k))
      | .inl .refused => some (.inr (0, idl, 0))
      | .inl .overflow => none
      | .inr (ids, r) => some (.inl (behind s r, idl ++ ids, added + ids.length)) := by
  rcases hdig : isdigit (s.byte tok) with _ | _
  · have hitem : readItem (s.drop tok).bytes = .none := readItem_none (byte_eq s tok ▸ hdig)
    simp [addlistBody, hdig, hitem, Item.take]
  have ht : isdigit ((s.drop tok).bytes.headD 0) = true := byte_eq s tok ▸ hdig
  have hk := strtoul_digit ht
  have hle := strtoul_le (s.drop tok).bytes
  simp only [addlistBody, hdig, uintAt_eq, Bool.not_true, Bool.false_eq_true, if_false, if_neg hk]
  set k := (strtoul (s.drop tok).bytes).2 with hkdef
  have hrest : (s.drop tok).bytes.drop k = (s.drop (tok + k)).bytes := List.drop_drop ..
  have hlen : tok + k ≤ s.bytes.length := by
    have : (s.drop tok).bytes.length = s.bytes.length - tok := List.length_drop ..
    omega
  by_cases hdash : s.byte (tok + k) = 45
  · have hr : (s.drop tok).bytes.drop k = 45 :: (s.drop (tok + k + 1)).bytes :=
      hrest.trans (drop_byte (by decide) hdash)
    rw [if_pos hdash, readItem_dash ht hr]
    set j := (strtoul (s.drop (tok + k + 1)).bytes).2 with hj
    by_cases hj0 : j = 0
    · simp [hj0, Item.take]
    · have hlen' : tok + k + 1 + j ≤ s.bytes.length := by
        have h1 := strtoul_le (s.drop (tok + k + 1)).bytes
        have h2 : (s.drop (tok + k + 1)).bytes.length = s.bytes.length - (tok + k + 1) := List.length_drop ..
        omega
      have hrest' : (s.drop (tok + k + 1)).bytes.drop j = s.bytes.drop (tok + k + 1 + j) := List.drop_drop ..
      simp only [if_neg hj0, Item.take, hrest']
      split_ifs with h1 h2 h3
      · rfl
      · rfl
      · simp only [behind_drop s hlen', h3, if_true]
        rfl
      · simp only [behind_drop s hlen', h3, if_false]
        rfl
  · have hr : ((s.drop tok).bytes.drop k).headD 0 ≠ 45 := by rwa [hrest, ← byte_eq]
    have hitem := readItem_one ht hr
    rw [← hkdef, hrest] at hitem
    rw [if_neg hdash, hitem]
    change _ = some (Sum.inl (behind s (s.bytes.drop (tok + k)), _, _))
    rw [behind_drop s hlen]
    split_ifs <;> rfl

theorem addlistRound_item (s : Cstr) (tok : ℕ) (idl : List ℤ) (added : ℕ) (log : AddLog) :
    addlistRound s ((tok, idl, added), log) =
      match (readItem (s.drop tok).bytes).take with
      | .inl (.at k) => some (.inr ((added, idl, tok + k), log))
      | .inl .refused => some (.inr ((0, idl, 0), log))
      | .inl .overflow => none
      | .inr (ids, r) => some (.inl ((behind s r, idl ++ ids, added + ids.length),
          log ++ [((readItem (s.drop tok).bytes).bounds, ids)])) := by
  rw [addlistRound, addlistBody_item]
  rcases (readItem (s.drop tok).bytes).take with (_ | _ | _) | ⟨ids, r⟩
  · rfl
  · rfl
  · rfl
  · simp

/-! ## Pieces -/

theorem endsNumber_comma : EndsNumber 44 := ⟨rfl, rfl, by decide, by decide⟩

/-- **An item ends** at a comma. -/
theorem readItem_append (p q : List UInt8) : readItem (p ++ 44 :: q) = (readItem p).append (44 :: q) := by
  rcases hdig : isdigit (p.headD 0) with _ | _
  · have hdig' : isdigit ((p ++ 44 :: q).headD 0) = false := by
      cases p with
      | nil => rfl
      | cons b p => exact hdig
    rw [readItem_none hdig, readItem_none hdig']
    rfl
  have hdig' : isdigit ((p ++ 44 :: q).headD 0) = true := by
    cases p with
    | nil => cases hdig
    | cons b p => exact hdig
  have hread := strtoul_append endsNumber_comma p q
  have hdrop : (p ++ 44 :: q).drop (strtoul (p ++ 44 :: q)).2 = p.drop (strtoul p).2 ++ 44 :: q := by
    rw [hread, List.drop_append_of_le_length (strtoul_le p)]
  by_cases hdash : (p.drop (strtoul p).2).headD 0 = 45
  · obtain ⟨r, hr⟩ := cons_of_headD (by decide) hdash
    rw [readItem_dash hdig hr, readItem_dash (r := r ++ 44 :: q) hdig' (by rw [hdrop, hr]; rfl),
      strtoul_append endsNumber_comma, written_append endsNumber_comma, written_append endsNumber_comma,
      List.drop_append_of_le_length (strtoul_le r)]
    split_ifs <;> rfl
  · have hdash' : ((p ++ 44 :: q).drop (strtoul (p ++ 44 :: q)).2).headD 0 ≠ 45 := by
      rw [hdrop]
      cases h : p.drop (strtoul p).2 with
      | nil =>
        change (44 : UInt8) ≠ 45
        decide
      | cons b r =>
        rw [h] at hdash
        exact hdash
    rw [readItem_one hdig hdash, readItem_one hdig' hdash', hdrop, written_append endsNumber_comma]
    rfl

theorem Item.append_bounds (i : Item) (t : List UInt8) : (i.append t).bounds = i.bounds := by
  cases i <;> rfl

theorem Item.append_take (i : Item) (t : List UInt8) :
    (i.append t).take = i.take.map id (Prod.map id (· ++ t)) := by
  cases i with
  | none => rfl
  | cut => rfl
  | one z r => rfl
  | span lo hi r =>
    simp only [append, take]
    split_ifs <;> rfl

theorem strtoul_headD (ht : (strtoul t).2 ≠ 0) : isdigit ((t.drop (strtoul t).2).headD 0) = false := by
  have hend := strtoul_end ht
  cases h : t.drop (strtoul t).2 with
  | nil => rfl
  | cons b r => exact hend b (by rw [h]; rfl)

theorem take_rest {p r : List UInt8} {ids : List ℤ} (h : (readItem p).take = .inr (ids, r)) :
    r <:+ p ∧ isdigit (r.headD 0) = false := by
  rcases hdig : isdigit (p.headD 0) with _ | _
  · rw [readItem_none hdig] at h
    cases h
  by_cases hdash : (p.drop (strtoul p).2).headD 0 = 45
  · obtain ⟨q, hq⟩ := cons_of_headD (by decide) hdash
    rw [readItem_dash hdig hq] at h
    split_ifs at h with hz
    · cases h
    · simp only [Item.take] at h
      split_ifs at h with h1 h2
      obtain ⟨-, rfl⟩ := Prod.mk.inj (Sum.inr.inj h)
      refine ⟨(List.drop_suffix ..).trans ?_, strtoul_headD hz⟩
      exact (List.suffix_cons 45 q).trans (hq ▸ List.drop_suffix ..)
  · rw [readItem_one hdig hdash] at h
    obtain ⟨-, rfl⟩ := Prod.mk.inj (Sum.inr.inj h)
    exact ⟨List.drop_suffix .., strtoul_headD (strtoul_digit hdig)⟩

theorem take_lt {p r : List UInt8} {ids : List ℤ} (h : (readItem p).take = .inr (ids, r)) :
    r.length < p.length := by
  obtain ⟨hsuffix, hdig⟩ := take_rest h
  refine lt_of_le_of_ne hsuffix.length_le fun heq => ?_
  obtain rfl := hsuffix.eq_of_length heq
  rw [readItem_none hdig] at h
  cases h

/-- What `idl_addlist` leaves: the return value, the list and the index for `*end`. -/
def ListEnd.result (idl : List ℤ) (added : ℕ) (log : AddLog) : ListEnd → Option (ℕ × List ℤ × ℕ)
  | .at n => some (added + log.ids.length, idl ++ log.ids, n)
  | .refused => some (0, idl ++ log.ids, 0)
  | .overflow => none

theorem Item.append_nil (i : Item) : i.append [] = i := by
  cases i <;> simp [append]

variable {p : List UInt8} {ps : List (List UInt8)}

theorem readPieces_inl {e : ListEnd} (h : (readItem p).take = .inl e) :
    readPieces (p :: ps) = ([], e) := by rw [readPieces, h]

theorem readPieces_last {ids : List ℤ} {r : List UInt8} (h : (readItem p).take = .inr (ids, r))
    (hr : r ≠ [] ∨ ps = []) :
    readPieces (p :: ps) = ([((readItem p).bounds, ids)], .at (p.length - r.length)) := by
  rw [readPieces, h]
  exact if_pos hr

theorem readPieces_pass {ids : List ℤ} (h : (readItem p).take = .inr (ids, [])) (hps : ps ≠ []) :
    readPieces (p :: ps) =
      (((readItem p).bounds, ids) :: (readPieces ps).1, (readPieces ps).2.shift (p.length + 1)) := by
  rw [readPieces, h]
  exact if_neg (by simp [hps])

theorem pieces_induction {C : List (List UInt8) → Prop} (nil : C [])
    (stop : ∀ p ps e, (readItem p).take = .inl e → C (p :: ps))
    (last : ∀ p ps ids r, (readItem p).take = .inr (ids, r) → r ≠ [] ∨ ps = [] → C (p :: ps))
    (pass : ∀ p ps ids, (readItem p).take = .inr (ids, []) → ps ≠ [] → C ps → C (p :: ps))
    (ps : List (List UInt8)) : C ps := by
  induction ps with
  | nil => exact nil
  | cons p ps ih =>
    rcases htake : (readItem p).take with e | ⟨ids, r⟩
    · exact stop p ps e htake
    by_cases hr : r ≠ [] ∨ ps = []
    · exact last p ps ids r htake hr
    · obtain ⟨rfl, hps⟩ : r = [] ∧ ps ≠ [] := by simpa using hr
      exact pass p ps ids htake hps ih

/-- The text behind a comma, or none. -/
def tailOf (ps : List (List UInt8)) : List UInt8 := if ps = [] then [] else 44 :: [44].intercalate ps

theorem intercalate_cons (p : List UInt8) (ps : List (List UInt8)) :
    [44].intercalate (p :: ps) = p ++ tailOf ps := by
  cases ps with
  | nil => simp [tailOf]
  | cons q ps => rw [List.intercalate_cons_cons, tailOf, if_neg (List.cons_ne_nil _ _)]; simp

theorem readItem_tail (p : List UInt8) (ps : List (List UInt8)) :
    readItem (p ++ tailOf ps) = (readItem p).append (tailOf ps) := by
  unfold tailOf
  split_ifs
  · rw [List.append_nil, Item.append_nil]
  · exact readItem_append p _

theorem drop_length_append {s : Cstr} {pre t : List UInt8} (h : s.bytes = pre ++ t) :
    (s.drop pre.length).bytes = t := by
  change s.bytes.drop pre.length = t
  rw [h, List.drop_left]

theorem addlistRound_piece {pre : List UInt8} (hs : s.bytes = pre ++ (p ++ tailOf ps)) (idl : List ℤ) (added : ℕ)
    (log : AddLog) : addlistRound s ((pre.length, idl, added), log) =
      match (readItem p).take with
      | .inl (.at k) => some (.inr ((added, idl, pre.length + k), log))
      | .inl .refused => some (.inr ((0, idl, 0), log))
      | .inl .overflow => none
      | .inr (ids, r) => some (.inl ((behind s (r ++ tailOf ps), idl ++ ids, added + ids.length),
          log ++ [((readItem p).bounds, ids)])) := by
  rw [addlistRound_item, drop_length_append hs, readItem_tail, Item.append_bounds, Item.append_take]
  rcases (readItem p).take with (_ | _ | _) | ⟨ids, r⟩
  · rfl
  · rfl
  · rfl
  · rfl

theorem addlistRound_left {p q : (ℕ × List ℤ × ℕ) × AddLog} (h : addlistRound s p = some (.inl q)) :
    s.left q.1.1 < s.left p.1.1 := by
  obtain ⟨r, hr, heq⟩ := Option.map_eq_some_iff.1 h
  rcases r with r | r
  · cases heq
    exact addlistBody_left s _ _ hr
  · cases heq

theorem addlistRound_ends {pre t : List UInt8} (hs : s.bytes = pre ++ t) (ht : isdigit (t.headD 0) = false)
    (idl : List ℤ) (added : ℕ) (log : AddLog) {n : ℕ} (hn : 0 < n) :
    loop (addlistRound s) n ((pre.length, idl, added), log) = some ((added, idl, pre.length), log) := by
  obtain ⟨n, rfl⟩ := Nat.exists_eq_add_of_le' hn
  refine loop_succ_inr ?_
  rw [addlistRound_item, drop_length_append hs, readItem_none ht]
  rfl

/-- **The loop takes the pieces** between the commas one after the other. -/
theorem addlistRound_pieces (s : Cstr) (ps : List (List UInt8)) (hne : ps ≠ []) (hps : ∀ p ∈ ps, 44 ∉ p)
    (pre : List UInt8) (hs : s.bytes = pre ++ [44].intercalate ps) (idl : List ℤ) (added : ℕ) (log : AddLog)
    {n : ℕ} (hn : s.left pre.length < n) :
    loop (addlistRound s) n ((pre.length, idl, added), log) =
      (((readPieces ps).2.shift pre.length).result idl added (readPieces ps).1).map
        (·, log ++ (readPieces ps).1) := by
  induction ps using pieces_induction generalizing pre idl added log n with
  | nil => exact absurd rfl hne
  | stop p ps e htake =>
    obtain ⟨n, rfl⟩ := Nat.exists_eq_add_of_le' (Nat.one_le_of_lt hn)
    have hround := addlistRound_piece (by rw [hs, intercalate_cons]) idl added log
    rw [htake] at hround
    rw [readPieces_inl htake]
    cases e with
    | «at» k =>
      rw [loop_succ_inr hround]
      simp [ListEnd.shift, ListEnd.result, AddLog.ids]
    | refused =>
      rw [loop_succ_inr hround]
      simp [ListEnd.shift, ListEnd.result, AddLog.ids]
    | overflow => rw [loop_succ_none hround]; rfl
  | last p ps ids r htake hr =>
    -- nothing behind the item that a further round takes
    obtain ⟨n, rfl⟩ := Nat.exists_eq_add_of_le' (Nat.one_le_of_lt hn)
    rw [intercalate_cons] at hs
    have hround := addlistRound_piece hs idl added log
    rw [htake] at hround
    have hleft := addlistRound_left hround
    rw [loop_succ_inl hround, readPieces_last htake hr]
    dsimp only at hleft ⊢
    obtain ⟨⟨p', rfl⟩, hdig⟩ := take_rest htake
    have hcomma : 44 ∉ p' ++ r := hps _ List.mem_cons_self
    have hs' : s.bytes = (pre ++ p') ++ (r ++ tailOf ps) := by simp [hs]
    have hrest : isdigit ((r ++ tailOf ps).headD 0) = false ∧ (r ++ tailOf ps).head? ≠ some 44 := by
      cases r with
      | nil =>
        rw [hr.resolve_left fun h => h rfl]
        exact ⟨rfl, nofun⟩
      | cons b r =>
        refine ⟨hdig, fun h => hcomma ?_⟩
        obtain rfl := Option.some.inj h
        simp
    have hbehind : behind s (r ++ tailOf ps) = (pre ++ p').length := by
      rw [behind, if_neg hrest.2, hs']
      simp only [List.length_append]
      omega
    rw [hbehind, addlistRound_ends hs' hrest.1 _ _ _ (by omega)]
    simp [ListEnd.shift, ListEnd.result, AddLog.ids]
  | pass p ps ids htake hps' ih =>
    -- the next item is behind the comma
    obtain ⟨n, rfl⟩ := Nat.exists_eq_add_of_le' (Nat.one_le_of_lt hn)
    rw [intercalate_cons] at hs
    have hround := addlistRound_piece hs idl added log
    rw [htake] at hround
    have hleft := addlistRound_left hround
    rw [loop_succ_inl hround, readPieces_pass htake hps']
    dsimp only at hleft ⊢
    have htail : tailOf ps = 44 :: [44].intercalate ps := if_neg hps'
    have hs' : s.bytes = (pre ++ p ++ [44]) ++ [44].intercalate ps := by simp [hs, htail]
    have hbehind : behind s ([] ++ tailOf ps) = (pre ++ p ++ [44]).length := by
      rw [behind, hs', htail]
      simp only [List.nil_append, List.head?_cons, if_true, List.length_append, List.length_cons]
      omega
    rw [hbehind] at hleft ⊢
    rw [ih hps' (fun q hq => hps q (List.mem_cons_of_mem _ hq)) _ hs' _ _ _ (by omega)]
    rcases (readPieces ps).2 with k | _ | _
    · simp [ListEnd.shift, ListEnd.result, AddLog.ids, Nat.add_assoc]
    · simp [ListEnd.shift, ListEnd.result, AddLog.ids]
    · rfl

theorem not_mem_of_mem_splitOn {c : UInt8} (l : List UInt8) : ∀ p ∈ l.splitOn c, c ∉ p := by
  induction l with
  | nil => simp [List.splitOn_nil]
  | cons b l ih =>
    rw [List.splitOn_cons_eq_if_modifyHead]
    split_ifs with hb
    · simpa using ih
    · obtain ⟨q, qs, hq⟩ := List.exists_cons_of_ne_nil (List.splitOn_ne_nil c l)
      rw [hq] at ih ⊢
      rw [List.modifyHead_cons, List.forall_mem_cons] at *
      refine ⟨?_, ih.2⟩
      rw [List.mem_cons, not_or]
      exact ⟨fun h => hb (by simp [h]), ih.1⟩

/-- **`idl_addlist`** takes the pieces between the commas. -/
theorem addlistLog_pieces (idl : List ℤ) (s : Cstr) :
    addlistLog idl s = ((readPieces (s.bytes.splitOn 44)).2.result idl 0 (readPieces (s.bytes.splitOn 44)).1).map
      (·, (readPieces (s.bytes.splitOn 44)).1) := by
  have hs : s.bytes = [] ++ [44].intercalate (s.bytes.splitOn 44) := (List.intercalate_splitOn 44).symm
  have hshift (e : ListEnd) : e.shift 0 = e := by cases e <;> simp [ListEnd.shift]
  have h := addlistRound_pieces s (s.bytes.splitOn 44) (List.splitOn_ne_nil 44 _)
    (not_mem_of_mem_splitOn s.bytes) [] hs idl 0 [] (Nat.lt_succ_self (s.left 0))
  rw [List.nil_append, List.length_nil, hshift] at h
  exact h

theorem idlAddlist_pieces (idl : List ℤ) (s : Cstr) :
    idlAddlist idl s =
      (readPieces (s.bytes.splitOn 44)).2.result idl 0 (readPieces (s.bytes.splitOn 44)).1 := by
  rw [← addlistLog_fst, addlistLog_pieces, Option.map_map]
  exact congrFun Option.map_id _

end Dudlc
