import Dudlc.Items

/-!
# The ids of a list

Every id that `idl_addlist` appends should lie between the bounds that are written in the text.

* `reached`: the pieces of a list that the loop comes to.
* `Within`: the loop ends, no `int` overflows, and the ids lie between the bounds of their items.
* **`within_iff`**: this is so exactly if the numbers of the items that are reached fit.
-/

namespace Dudlc

open Lib

variable {p : List UInt8} {ps : List (List UInt8)} {i : Item}

/-- The loop takes the whole piece. -/
def Passes (p : List UInt8) : Prop :=
  match (readItem p).take with
  | .inr (_, []) => True
  | _ => False

instance : DecidablePred Passes := fun p => by
  unfold Passes
  split <;> infer_instance

/-- The pieces that the loop comes to: all up to the first one that it does not take as a whole. -/
def reached : List (List UInt8) → List (List UInt8)
  | [] => []
  | p :: ps => p :: if Passes p then reached ps else []

/-- The numbers of an item fit into an `int`, as far as they are used. -/
def Item.Fits : Item → Prop
  | .one z _ => z ≤ INT_MAX
  | .span lo hi _ => narrow lo < narrow hi → lo ≤ INT_MAX ∧ 0 ≤ hi ∧ narrow hi ≠ INT_MAX
  | _ => True

instance : DecidablePred Item.Fits := fun i => by
  cases i <;> unfold Item.Fits <;> infer_instance

/-- `idl_addlist` ends, no id leaves the range of an `int`, and all that is appended lies between the
bounds that are written for it. -/
def Within (idl : List ℤ) (s : Cstr) : Prop :=
  ∃ ret idl' n log, addlistLog idl s = some ((ret, idl', n), log) ∧ idl' = idl ++ log.ids ∧
    ∀ e ∈ log, ∀ id ∈ e.2, e.1.1 ≤ id ∧ id ≤ e.1.2 ∧ -2 ^ 31 ≤ id ∧ id ≤ INT_MAX

/-! ## One item -/

theorem written_nonneg {t : List UInt8} (ht : isdigit (t.headD 0) = true) : 0 ≤ written t := by
  cases t with
  | nil => cases ht
  | cons b t =>
    have hb : isdigit b = true := ht
    rw [written, (scan_digit hb t).2.2]
    exact Int.natCast_nonneg _

theorem bounds_nonneg (p : List UInt8) : 0 ≤ (readItem p).bounds.1 := by
  rcases hdig : isdigit (p.headD 0) with _ | _
  · rw [readItem_none hdig]
    exact le_rfl
  by_cases hdash : (p.drop (strtoul p).2).headD 0 = 45
  · obtain ⟨r, hr⟩ := cons_of_headD (by decide) hdash
    rw [readItem_dash hdig hr]
    split_ifs
    · exact le_rfl
    · exact written_nonneg hdig
  · rw [readItem_one hdig hdash]
    exact written_nonneg hdig

/-- The ids of an item are all in range, and between its bounds. -/
def Item.Good (i : Item) : Prop :=
  match i.take with
  | .inl e => e ≠ .overflow
  | .inr (ids, _) => ∀ id ∈ ids, i.bounds.1 ≤ id ∧ id ≤ i.bounds.2 ∧ -2 ^ 31 ≤ id ∧ id ≤ INT_MAX

/-- **One item** is good exactly if its numbers fit. -/
theorem Item.good_iff (h : 0 ≤ i.bounds.1) : i.Good ↔ i.Fits := by
  cases i with
  | none => exact iff_of_true nofun trivial
  | cut => exact iff_of_true nofun trivial
  | one z r =>
    have hz : 0 ≤ z := h
    simp only [Good, take, bounds, Fits, List.mem_singleton, forall_eq]
    constructor
    · intro hn
      exact hn.1.trans (narrow_bounds z).2
    · intro hz'
      have := narrow_eq (by omega) hz'
      have := narrow_bounds z
      omega
  | span lo hi r =>
    have hlo : 0 ≤ lo := h
    simp only [Good, take, Fits]
    by_cases hle : narrow hi ≤ narrow lo
    · rw [if_pos hle]
      exact iff_of_true nofun fun hlt => absurd hle (not_le.2 hlt)
    rw [if_neg hle]
    by_cases hmax : narrow hi = INT_MAX
    · rw [if_pos hmax]
      refine iff_of_false (fun h => h rfl) fun h => (h (not_le.1 hle)).2.2 hmax
    rw [if_neg hmax]
    simp only [bounds, mem_idRange]
    constructor
    · intro hall _
      have h1 := hall (narrow lo) ⟨le_rfl, (not_le.1 hle).le⟩
      have h2 := hall (narrow hi) ⟨(not_le.1 hle).le, le_rfl⟩
      have hlomax : lo ≤ INT_MAX := h1.1.trans h1.2.2.2
      exact ⟨hlomax, by omega, hmax⟩
    · rintro hfits id ⟨h1, h2⟩
      obtain ⟨hlomax, hhi, -⟩ := hfits (not_le.1 hle)
      have := narrow_eq (by omega) hlomax
      have := narrow_le hhi
      have := narrow_bounds hi
      omega

/-! ## All items -/

theorem shift_ne_overflow {e : ListEnd} {n : ℕ} : e.shift n ≠ .overflow ↔ e ≠ .overflow := by
  cases e <;> simp [ListEnd.shift]

theorem passes_iff : Passes p ↔ ∃ ids, (readItem p).take = .inr (ids, []) := by
  unfold Passes
  rcases (readItem p).take with e | ⟨ids, _ | ⟨b, r⟩⟩ <;> simp

theorem not_passes {e : ListEnd} (h : (readItem p).take = .inl e) : ¬ Passes p := by simp [passes_iff, h]

theorem reached_inl {e : ListEnd} (h : (readItem p).take = .inl e) : reached (p :: ps) = [p] := by
  rw [reached, if_neg (not_passes h)]

theorem reached_last {ids : List ℤ} {r : List UInt8} (h : (readItem p).take = .inr (ids, r))
    (hr : r ≠ [] ∨ ps = []) : reached (p :: ps) = [p] := by
  rw [reached]
  rcases hr with hr | rfl
  · rw [if_neg (by simp [passes_iff, h, hr])]
  · simp [reached]

theorem reached_on {ids : List ℤ} (h : (readItem p).take = .inr (ids, [])) :
    reached (p :: ps) = p :: reached ps := by rw [reached, if_pos (passes_iff.2 ⟨ids, h⟩)]

theorem good_inl {e : ListEnd} (h : i.take = .inl e) : i.Good ↔ e ≠ .overflow := by rw [Item.Good, h]

theorem good_inr {ids : List ℤ} {r : List UInt8} (h : i.take = .inr (ids, r)) :
    i.Good ↔ ∀ id ∈ ids, i.bounds.1 ≤ id ∧ id ≤ i.bounds.2 ∧ -2 ^ 31 ≤ id ∧ id ≤ INT_MAX := by
  rw [Item.Good, h]

theorem readPieces_good (ps : List (List UInt8)) :
    ((readPieces ps).2 ≠ .overflow ∧ ∀ e ∈ (readPieces ps).1, ∀ id ∈ e.2,
      e.1.1 ≤ id ∧ id ≤ e.1.2 ∧ -2 ^ 31 ≤ id ∧ id ≤ INT_MAX) ↔ ∀ p ∈ reached ps, (readItem p).Good := by
  induction ps using pieces_induction with
  | nil => simp [readPieces, reached]
  | stop p ps e htake =>
    rw [readPieces_inl htake, reached_inl htake, List.forall_mem_singleton, good_inl htake]
    simp
  | last p ps ids r htake hr =>
    rw [readPieces_last htake hr, reached_last htake hr, List.forall_mem_singleton, List.forall_mem_singleton,
      good_inr htake]
    simp
  | pass p ps ids htake hps ih =>
    rw [readPieces_pass htake hps, reached_on htake, List.forall_mem_cons, List.forall_mem_cons, good_inr htake,
      ← ih, shift_ne_overflow]
    exact and_left_comm

/-! ## The pieces that are reached -/

/-- The ids of a piece. -/
def pieceIds (p : List UInt8) : List ℤ :=
  match (readItem p).take with
  | .inr (ids, _) => ids
  | .inl _ => []

theorem pieceIds_inr {ids : List ℤ} {r : List UInt8} (h : (readItem p).take = .inr (ids, r)) :
    pieceIds p = ids := by rw [pieceIds, h]

theorem pieceIds_inl {e : ListEnd} (h : (readItem p).take = .inl e) : pieceIds p = [] := by
  rw [pieceIds, h]

/-- **What is appended** is what stands in the pieces that are reached. -/
theorem readPieces_ids (ps : List (List UInt8)) :
    (readPieces ps).1.ids = (reached ps).flatMap pieceIds := by
  induction ps using pieces_induction with
  | nil => rfl
  | stop p ps e htake =>
    rw [readPieces_inl htake, reached_inl htake, List.flatMap_singleton, pieceIds_inl htake]
    rfl
  | last p ps ids r htake hr =>
    rw [readPieces_last htake hr, reached_last htake hr, List.flatMap_singleton, pieceIds_inr htake]
    simp [AddLog.ids]
  | pass p ps ids htake hps ih =>
    rw [readPieces_pass htake hps, reached_on htake, List.flatMap_cons, pieceIds_inr htake, ← ih]
    simp [AddLog.ids]

theorem reached_pass {qs : List (List UInt8)} (hqs : ∀ q ∈ qs, Passes q) (ps : List (List UInt8)) :
    reached (qs ++ ps) = qs ++ reached ps := by
  induction qs with
  | nil => rfl
  | cons q qs ih =>
    rw [List.forall_mem_cons] at hqs
    rw [List.cons_append, reached, if_pos hqs.1, ih hqs.2, List.cons_append]

theorem refused_cons (p : List UInt8) (ps : List (List UInt8)) :
    (∃ qs p' rest, p :: ps = qs ++ p' :: rest ∧ (∀ q ∈ qs, Passes q) ∧ (readItem p').take = .inl .refused) ↔
      (readItem p).take = .inl .refused ∨ (Passes p ∧ ∃ qs p' rest, ps = qs ++ p' :: rest ∧
        (∀ q ∈ qs, Passes q) ∧ (readItem p').take = .inl .refused) := by
  constructor
  · rintro ⟨_ | ⟨q, qs⟩, p', rest, heq, hqs, hp'⟩
    · obtain ⟨rfl, rfl⟩ := List.cons.inj heq
      exact Or.inl hp'
    · obtain ⟨rfl, rfl⟩ := List.cons.inj heq
      rw [List.forall_mem_cons] at hqs
      exact Or.inr ⟨hqs.1, qs, p', rest, rfl, hqs.2, hp'⟩
  · rintro (h | ⟨hp, qs, p', rest, rfl, hqs, hp'⟩)
    · exact ⟨[], p, ps, rfl, by simp, h⟩
    · exact ⟨p :: qs, p', rest, rfl, List.forall_mem_cons.2 ⟨hp, hqs⟩, hp'⟩

/-- **A list is refused** at a piece behind others that are taken as a whole. -/
theorem readPieces_refused (ps : List (List UInt8)) :
    (readPieces ps).2 = .refused ↔ ∃ qs p rest, ps = qs ++ p :: rest ∧ (∀ q ∈ qs, Passes q) ∧
      (readItem p).take = .inl .refused := by
  induction ps using pieces_induction with
  | nil => simp [readPieces]
  | stop p ps e htake =>
    rw [refused_cons, readPieces_inl htake]
    simp [htake, not_passes htake]
  | last p ps ids r htake hr =>
    rw [refused_cons, readPieces_last htake hr]
    rcases hr with hr | rfl
    · simp [passes_iff, htake, hr]
    · simp [htake]
  | pass p ps ids htake hps ih =>
    rw [refused_cons, ← ih, readPieces_pass htake hps]
    have hpass : Passes p := passes_iff.2 ⟨ids, htake⟩
    rcases (readPieces ps).2 with k | _ | _ <;> simp [ListEnd.shift, hpass, htake]

theorem whole_cons (p : List UInt8) (ps : List (List UInt8)) :
    (∃ qs, (∀ q ∈ qs, Passes q) ∧ (p :: ps = qs ∨ p :: ps = qs ++ [[]])) ↔
      (p = [] ∧ ps = []) ∨ Passes p ∧ ∃ qs, (∀ q ∈ qs, Passes q) ∧ (ps = qs ∨ ps = qs ++ [[]]) := by
  constructor
  · rintro ⟨_ | ⟨q, qs⟩, hqs, heq | heq⟩
    · cases heq
    · exact Or.inl (by simpa using heq)
    · obtain ⟨rfl, rfl⟩ := List.cons.inj heq
      rw [List.forall_mem_cons] at hqs
      exact Or.inr ⟨hqs.1, ps, hqs.2, Or.inl rfl⟩
    · obtain ⟨rfl, rfl⟩ := List.cons.inj heq
      rw [List.forall_mem_cons] at hqs
      exact Or.inr ⟨hqs.1, qs, hqs.2, Or.inr rfl⟩
  · rintro (⟨rfl, rfl⟩ | ⟨hp, qs, hqs, rfl | rfl⟩)
    · exact ⟨[], by simp, Or.inr rfl⟩
    · exact ⟨p :: ps, List.forall_mem_cons.2 ⟨hp, hqs⟩, Or.inl rfl⟩
    · exact ⟨p :: qs, List.forall_mem_cons.2 ⟨hp, hqs⟩, Or.inr rfl⟩

theorem tailOf_eq_nil : tailOf ps = [] ↔ ps = [] := by
  unfold tailOf
  split_ifs with h <;> simp [h]

theorem ne_nil_of_take {ids : List ℤ} {r : List UInt8} (h : (readItem p).take = .inr (ids, r)) : p ≠ [] := by
  rintro rfl
  cases h

theorem inl_at {k : ℕ} (h : (readItem p).take = .inl (.at k)) : k = 0 := by
  cases hi : readItem p with
  | none => rw [hi] at h; cases h; rfl
  | cut => rw [hi] at h; cases h
  | one z r => rw [hi] at h; cases h
  | span lo hi r =>
    rw [hi] at h
    simp only [Item.take] at h
    split_ifs at h <;> cases h

/-- **A list is taken up to its end** when all pieces are taken as a whole, but for an empty last one. -/
theorem readPieces_whole (ps : List (List UInt8)) (hps : ps ≠ []) :
    (readPieces ps).2 = .at ([44].intercalate ps).length ↔
      ∃ qs, (∀ q ∈ qs, Passes q) ∧ (ps = qs ∨ ps = qs ++ [[]]) := by
  induction ps using pieces_induction with
  | nil => exact absurd rfl hps
  | stop p ps e htake =>
    rw [whole_cons, intercalate_cons, readPieces_inl htake]
    simp only [not_passes htake, false_and, or_false]
    constructor
    · rintro rfl
      have h := inl_at htake
      rw [List.length_eq_zero_iff, List.append_eq_nil_iff, tailOf_eq_nil] at h
      exact h
    · rintro ⟨rfl, rfl⟩
      cases htake
      rfl
  | last p ps ids r htake hr =>
    have hne := ne_nil_of_take htake
    have hle := (take_rest htake).1.length_le
    have hpos := List.length_pos_of_ne_nil hne
    rw [whole_cons, intercalate_cons, readPieces_last htake hr]
    simp only [hne, false_and, false_or]
    by_cases hnil : r = []
    · obtain rfl : ps = [] := hr.resolve_left fun h => h hnil
      subst hnil
      exact iff_of_true (by simp [tailOf]) ⟨passes_iff.2 ⟨ids, htake⟩, [], by simp, Or.inl rfl⟩
    · have hstop : ¬ Passes p := by simp [passes_iff, htake, hnil]
      have hlen := List.length_pos_of_ne_nil hnil
      simp only [ListEnd.at.injEq, hstop, false_and, iff_false, List.length_append]
      omega
  | pass p ps ids htake hps' ih =>
    have hne := ne_nil_of_take htake
    have hpass : Passes p := passes_iff.2 ⟨ids, htake⟩
    rw [whole_cons, intercalate_cons, readPieces_pass htake hps', ← ih hps', tailOf, if_neg hps']
    simp only [hne, false_and, false_or]
    rcases (readPieces ps).2 with k | _ | _
    · simp only [ListEnd.shift, ListEnd.at.injEq, List.length_append, List.length_cons, hpass, true_and]
      omega
    · simp [ListEnd.shift]
    · simp [ListEnd.shift]

/-- **When the ids are those of the text.** `idl_addlist` ends without an overflow, and appends ids
between the bounds that are written for them, exactly if the numbers of the items that it comes to fit:
a single number is at most INT_MAX; of a range that is taken, the first number is at most INT_MAX, the
second one is not negative, and what is left of it in an `int` is not INT_MAX. -/
theorem within_iff (idl : List ℤ) (s : Cstr) :
    Within idl s ↔ ∀ p ∈ reached (s.bytes.splitOn 44), (readItem p).Fits := by
  have hgood : (∀ p ∈ reached (s.bytes.splitOn 44), (readItem p).Fits) ↔
      ∀ p ∈ reached (s.bytes.splitOn 44), (readItem p).Good :=
    forall₂_congr fun p _ => (Item.good_iff (bounds_nonneg p)).symm
  rw [hgood, ← readPieces_good, Within, addlistLog_pieces]
  generalize readPieces (s.bytes.splitOn 44) = q
  obtain ⟨log, e⟩ := q
  constructor
  · rintro ⟨ret, idl', n, log', heq, -, hall⟩
    obtain ⟨r, hr, hlog⟩ := Option.map_eq_some_iff.1 heq
    obtain ⟨rfl, rfl⟩ := Prod.mk.inj hlog
    refine ⟨fun h => ?_, hall⟩
    subst h
    cases hr
  · rintro ⟨he, hall⟩
    cases e with
    | «at» n => exact ⟨_, _, _, _, rfl, rfl, hall⟩
    | refused => exact ⟨_, _, _, _, rfl, rfl, hall⟩
    | overflow => exact absurd rfl he

/-- `4294967297` is taken as 1, and `0-2147483647` overflows. -/
theorem not_within : ¬ Within [] (.lit "4294967297") ∧ idlAddlist [] (.lit "4294967297") = some (1, [1], 10) ∧
    ¬ Within [] (.lit "0-2147483647") ∧ idlAddlist [] (.lit "0-2147483647") = none := by
  refine ⟨?_, by decide +kernel, ?_, by decide +kernel⟩
  · rintro ⟨ret, idl', n, log, heq, -, hall⟩
    have hlog : addlistLog [] (.lit "4294967297") =
      some ((1, [1], 10), [((4294967297, 4294967297), [1])]) := by decide +kernel
    rw [hlog, Option.some.injEq, Prod.mk.injEq] at heq
    obtain ⟨-, rfl⟩ := heq
    exact absurd (hall _ List.mem_cons_self 1 List.mem_cons_self).1 (by decide)
  · rintro ⟨ret, idl', n, log, heq, -⟩
    have hlog : addlistLog [] (.lit "0-2147483647") = none := by decide +kernel
    rw [hlog] at heq
    cases heq

end Dudlc
