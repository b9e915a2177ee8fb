import Dudlc.Replies

/-!
# Lists of records

* `wire_prefix`: the part of a stream that arrives before the connection ends.
* `arrivedLines`: the reply lines that arrive whole.
* `ItComplete`: an iterator holds all records of the reply, and there is none for a broken reply.
* **`it_complete_iff`**: when `_duc_it_newv` does so. A reply that breaks off behind a converted line, and
  a line without a record in a longer reply, give a list that looks whole.
-/

namespace Dudlc

open Lib

variable {ρ : Type} {ev : Handlers} {w w' : World} {c : List UInt8} {lines rep got : List (List UInt8)}

/-! ## Streams that break off -/

theorem wire_prefix {lo : ℕ} (hlines : ∀ l ∈ lines, WireLine lo l) {S : List UInt8}
    (h : S <+: wire LF lines) :
    ∃ part, S = wire LF (lines.take (S.count LF)) ++ part ∧ (∀ b ∈ part, isStop b = false) ∧
      part.length ≤ 2046 := by
  induction lines generalizing S with
  | nil =>
    obtain rfl : S = [] := List.prefix_nil.1 h
    exact ⟨[], rfl, nofun, by simp⟩
  | cons l lines ih =>
    have hl := hlines l List.mem_cons_self
    have hnot : ∀ m : List UInt8, (∀ b ∈ m, isStop b = false) → m.count LF = 0 := fun m hm =>
      List.count_eq_zero.2 fun h => by simpa [isStop_LF] using hm LF h
    obtain ⟨v, hv⟩ := h
    rw [wire_cons] at hv
    rcases List.append_eq_append_iff.1 hv with ⟨x, rfl, -⟩ | ⟨x, rfl, hx⟩
    · have hfree : ∀ b ∈ S, isStop b = false := fun b hb => hl.free b (List.mem_append_left _ hb)
      refine ⟨S, by rw [hnot S hfree]; simp, hfree, ?_⟩
      have := hl.max
      rw [List.length_append] at this
      omega
    · cases x with
      | nil => exact ⟨l, by rw [List.append_nil, hnot l hl.free]; simp, hl.free, hl.max⟩
      | cons b x =>
        obtain ⟨rfl, hwire⟩ := List.cons.inj (hx : LF :: wire LF lines = b :: (x ++ v))
        obtain ⟨part, hpart, hrest⟩ := ih (fun k hk => hlines k (List.mem_cons_of_mem l hk))
          ⟨v, hwire.symm⟩
        refine ⟨part, ?_, hrest⟩
        rw [List.count_append, hnot l hl.free, List.count_cons_self, Nat.zero_add,
          List.take_succ_cons, wire_cons, List.append_assoc, List.cons_append, ← hpart]

/-- The reply lines among the lines that arrive whole. -/
def arrivedLines (S : List UInt8) (lines : List (List UInt8)) : List (List UInt8) :=
  replyLines (lines.take (S.count LF))

theorem arrivedLines_prefix (S : List UInt8) (lines : List (List UInt8)) :
    arrivedLines S lines <+: replyLines lines :=
  (List.take_prefix _ _).filter _

/-! ## Complete or refused -/

/-- A line is converted completely: there is a record, and nothing of the text is left. -/
def Converts (conv : Converter ρ) (t : List UInt8) : Prop := (conv t).1.isSome ∧ (conv t).2 = 0

/-- The iterator holds the records of all lines of the reply, of which `got` has arrived; a reply of one
empty line stands for no records. There is none when the reply has not arrived completely, or when a
line of a reply of several lines is not converted completely. -/
structure ItComplete (conv : Converter ρ) (rep got : List (List UInt8)) (it : Option (DucIter ρ)) :
    Prop where
  whole : ∀ i, it = some i → got = rep ∧
    ((walk i).map some = rep.map (fun l => (conv (l.drop 4)).1) ∨
      (rep.map (List.drop 4) = [[]] ∧ walk i = []))
  lost : got ≠ rep → it = none
  rows : 1 < rep.length → (∃ l ∈ rep, ¬ Converts conv (l.drop 4)) → it = none

theorem itComplete_iff (conv : Converter ρ) (hgot : got <+: rep) :
    ItComplete conv rep got
        (if got = [] then none else (itRecords conv (got.map (List.drop 4))).map DucIter.mk) ↔
      got = [] ∨ (∃ l ∈ got, (conv (l.drop 4)).2 ≠ 0) ∨
        (got = rep ∧ ((∀ l ∈ rep, (conv (l.drop 4)).1.isSome) ∨ rep.map (List.drop 4) = [[]])) := by
  have hnone : ItComplete conv rep got none := ⟨nofun, fun _ => rfl, fun _ _ => rfl⟩
  by_cases h0 : got = []
  · rw [if_pos h0]
    exact ⟨fun _ => Or.inl h0, fun _ => hnone⟩
  rw [if_neg h0]
  by_cases hall : ∀ t ∈ got.map (List.drop 4), (conv t).2 = 0
  swap
  · rw [itRecords, if_neg hall]
    push Not at hall
    obtain ⟨t, ht, hconv⟩ := hall
    obtain ⟨l, hl, rfl⟩ := List.mem_map.1 ht
    exact ⟨fun _ => Or.inr (Or.inl ⟨l, hl, hconv⟩), fun _ => hnone⟩
  rw [itRecords, if_pos hall, Option.map_some]
  set it : DucIter ρ := ⟨(got.map (List.drop 4)).map fun t => (conv t).1⟩ with hit
  have hend : ∀ l ∈ got, (conv (l.drop 4)).2 = 0 := fun l hl => hall _ (List.mem_map_of_mem hl)
  have hlist : it.list = got.map fun l => (conv (l.drop 4)).1 := by rw [hit, List.map_map]; rfl
  have hsome : (∀ d ∈ it.list, d.isSome) ↔ ∀ l ∈ got, (conv (l.drop 4)).1.isSome := by
    rw [hlist, List.forall_mem_map]
  constructor
  · intro h
    obtain ⟨rfl, hwalk | ⟨hempty, -⟩⟩ := h.whole it rfl
    · rw [← hlist, walk_map_some, hsome] at hwalk
      exact Or.inr (Or.inr ⟨rfl, Or.inl hwalk⟩)
    · exact Or.inr (Or.inr ⟨rfl, Or.inr hempty⟩)
  · rintro (h | ⟨l, hl, hne⟩ | ⟨rfl, h⟩)
    · exact absurd h h0
    · exact absurd (hend l hl) hne
    have hrows : 1 < got.length → (∃ l ∈ got, ¬ Converts conv (l.drop 4)) → some it = none := by
      rintro hlen ⟨l, hl, hnot⟩
      rcases h with h | h
      · exact absurd ⟨h l hl, hend l hl⟩ hnot
      · have := congrArg List.length h
        rw [List.length_map, List.length_singleton] at this
        omega
    refine ⟨?_, fun h => absurd rfl h, hrows⟩
    rintro i ⟨⟩
    refine ⟨rfl, ?_⟩
    rcases h with h | h
    · exact Or.inl (by rw [walk_map_some.2 (hsome.2 h), hlist])
    · rcases hd : (conv []).1 with _ | r
      · refine Or.inr ⟨h, ?_⟩
        rw [walk_eq, hit, h]
        simp [hd]
      · have hmem : ∀ l ∈ got, (conv (l.drop 4)).1.isSome := by
          intro l hl
          have : l.drop 4 ∈ got.map (List.drop 4) := List.mem_map_of_mem hl
          rw [h, List.mem_singleton] at this
          rw [this, hd]
          rfl
        exact Or.inl (by rw [walk_map_some.2 (hsome.2 hmem), hlist])

/-- **A list is complete or refused**, just when no reply line arrives, or an arrived line leaves a part
of its text unconverted, or the whole reply arrives and every line gives a record or the reply is one
empty line. -/
theorem it_complete_iff (hev : ev.Returns) (hfresh : w.con.Fresh) (hin : w.inreply = false)
    (hsends : w.SendsAll) (conv : Converter ρ) {fmt : Cstr} {ap : List Arg} {t : List UInt8}
    (ht : format fmt.bytes ap = some t) (hlen : t.length < BUFLENLINE - 1)
    (hlines : ∀ l ∈ lines, WireLine 4 l) (hrep : IsReply c rep) (hall : replyLines lines = rep)
    (h5 : c.head? ≠ some 53) (hS : incoming w.recvs <+: wire LF lines) :
    (∃ it w', ducItNewv ev conv w fmt ap = some (it, w') ∧
      ItComplete conv rep (arrivedLines (incoming w.recvs) lines) it) ↔
    arrivedLines (incoming w.recvs) lines = [] ∨
      (∃ l ∈ arrivedLines (incoming w.recvs) lines, (conv (l.drop 4)).2 ≠ 0) ∨
      (arrivedLines (incoming w.recvs) lines = rep ∧
        ((∀ l ∈ rep, (conv (l.drop 4)).1.isSome) ∨ rep.map (List.drop 4) = [[]])) := by
  obtain ⟨part, hsplit, hfree, hplen⟩ := wire_prefix hlines hS
  have hstream : Stream w (lines.take ((incoming w.recvs).count LF)) part :=
    ⟨hfresh.1, ⟨[], [], holds_nil hfresh.2.1 hfresh.2.2, hsplit⟩,
      fun l hl => hlines l (List.mem_of_mem_take hl), hfree, hplen⟩
  have hpre : arrivedLines (incoming w.recvs) lines <+: rep := hall ▸ arrivedLines_prefix _ _
  obtain ⟨w', hrun, -⟩ := itNewv_arrived ev conv ⟨hfresh.1, hin⟩ hsends ht hlen hrep
    (Or.inr ⟨hpre, rfl, hev⟩) (List.append_nil _).symm hstream
  rw [hrep.head] at h5
  simp only [h5, or_false] at hrun
  rw [← itComplete_iff conv hpre, hrun]
  constructor
  · rintro ⟨it, v, heq, h⟩
    obtain ⟨rfl, -⟩ := Prod.mk.inj (Option.some.inj heq)
    exact h
  · exact fun h => ⟨_, w', rfl, h⟩

/-- A converter of numbers as the record parsers are: an empty text is no record. -/
def numConv : Converter ℤ := fun t =>
  if (strtol t).2 = 0 then (none, t.headD 0)
  else (some (toInt (strtol t).1), (t.drop (strtol t).2).headD 0)

/-- A reply of two lines. -/
def twoRows : List (List UInt8) := [(Cstr.lit "210-1").bytes, (Cstr.lit "210 2").bytes]

/-- A reply of three lines with a blank one. -/
def blankRow : List (List UInt8) :=
  [(Cstr.lit "210-1").bytes, (Cstr.lit "210-").bytes, (Cstr.lit "210 2").bytes]

theorem twoRows_reply : IsReply (Cstr.lit "210").bytes twoRows :=
  .more rfl rfl (.last rfl (by decide))

theorem blankRow_reply : IsReply (Cstr.lit "210").bytes blankRow :=
  .more rfl rfl (.more rfl rfl (.last rfl (by decide)))

/-- **A list that looks whole.** The connection ends behind the first line of a reply, and the list of
one record is returned; and of a reply with a blank line the rows behind it are not seen. -/
theorem it_broken :
    IsReply (Cstr.lit "210").bytes twoRows ∧ IsReply (Cstr.lit "210").bytes blankRow ∧
    (∃ it w', ducItNewv .passive numConv (idleWorld [some (wire LF (twoRows.take 1))] [])
        (.lit "taglist") [] = some (it, w') ∧
      ¬ ItComplete numConv twoRows (arrivedLines (wire LF (twoRows.take 1)) twoRows) it) ∧
    ∃ it w', ducItNewv .passive numConv (idleWorld [some (wire LF blankRow)] [])
        (.lit "taglist") [] = some (it, w') ∧
      ¬ ItComplete numConv blankRow (arrivedLines (wire LF blankRow) blankRow) it := by
  refine ⟨twoRows_reply, blankRow_reply, ?_, ?_⟩
  · obtain ⟨⟨it, w'⟩, hrun, hit⟩ := Option.map_eq_some_iff.1 (show
      (ducItNewv .passive numConv (idleWorld [some (wire LF (twoRows.take 1))] []) (.lit "taglist")
        []).map Prod.fst = some (some ⟨[some 1]⟩) by decide +kernel)
    exact ⟨it, w', hrun, fun h => by cases (h.lost (by decide)).symm.trans hit⟩
  · obtain ⟨⟨it, w'⟩, hrun, hit⟩ := Option.map_eq_some_iff.1 (show
      (ducItNewv .passive numConv (idleWorld [some (wire LF blankRow)] []) (.lit "taglist")
        []).map Prod.fst = some (some ⟨[some 1, none, some 2]⟩) by decide +kernel)
    refine ⟨it, w', hrun, fun h => ?_⟩
    have hrow : (Cstr.lit "210-").bytes ∈ blankRow := by decide
    cases (h.rows (by decide) ⟨_, hrow, fun hc => absurd hc.1 (by decide)⟩).symm.trans hit

/-- The theorem at a reply of two lines that arrives in two pieces. -/
theorem it_complete_iff_twoRows : ∃ it w',
    ducItNewv .passive numConv
      (idleWorld [some (Cstr.lit "210-1\n2").bytes, some (Cstr.lit "10 2\n").bytes] [])
      (.lit "taglist") [] = some (it, w') ∧ ItComplete numConv twoRows twoRows it :=
  (it_complete_iff Handlers.returns_passive freshSock_fresh rfl (fun _ h => by cases h) numConv rfl
    (by decide) (show ∀ l ∈ twoRows, WireLine 4 l by decide) twoRows_reply rfl (by decide)
    ⟨[], by decide⟩).2 (Or.inr (Or.inr ⟨by decide, Or.inl (by decide)⟩))

end Dudlc
