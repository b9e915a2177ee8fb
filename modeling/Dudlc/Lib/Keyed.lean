import Dudlc.Lib.Loop
import Mathlib.Data.List.Nodup

/-!
# Lists of rows with keys

A list whose rows have different keys is edited, and a copy repeats the edits. The copy may begin as
another list.

* `Edit`, `edit`; `editStep`: an edit that keeps the keys different.
* `runs_map`: rows that show a part of other rows.
* **`edits_clear`**, **`edits_eq_iff`**: when the copy ends as the list does.
-/

namespace Lib

variable {ρ τ κ : Type} [DecidableEq κ]

/-- An edit of a list of rows with keys. -/
inductive Edit (ρ κ : Type)
  | append (r : ρ)
  | remove (k : κ)
  | clear
  deriving DecidableEq

/-- A row is appended, the first row with a key is removed, or all rows are. -/
def edit (key : ρ → κ) (rs : List ρ) : Edit ρ κ → List ρ
  | .append r => rs ++ [r]
  | .remove k => rs.eraseP fun r => key r = k
  | .clear => []

/-- The key of a new row is new, and a key that is removed is there. -/
def Edit.Fits (key : ρ → κ) (rs : List ρ) : Edit ρ κ → Prop
  | .append r => key r ∉ rs.map key
  | .remove k => k ∈ rs.map key
  | .clear => True

instance Edit.decidableFits (key : ρ → κ) (rs : List ρ) : ∀ e : Edit ρ κ, Decidable (e.Fits key rs)
  | .append r => inferInstanceAs (Decidable (key r ∉ rs.map key))
  | .remove k => inferInstanceAs (Decidable (k ∈ rs.map key))
  | .clear => isTrue trivial

/-- An edit that fits. -/
def editStep (key : ρ → κ) (rs : List ρ) (e : Edit ρ κ) : Option (List ρ) :=
  if e.Fits key rs then some (edit key rs e) else none

/-- The key an edit removes. -/
def Edit.removes : Edit ρ κ → Option κ
  | .remove k => some k
  | _ => none

/-- The rows whose keys no edit removes. -/
def kept (key : ρ → κ) (es : List (Edit ρ κ)) (rs : List ρ) : List ρ :=
  rs.filter fun r => key r ∉ es.filterMap Edit.removes

variable {key : ρ → κ} {rs rs' : List ρ} {e : Edit ρ κ} {es : List (Edit ρ κ)} {k : κ}

theorem editStep_eq (h : editStep key rs e = some rs') : e.Fits key rs ∧ rs' = edit key rs e := by
  rw [editStep] at h
  split_ifs at h with hf
  exact ⟨hf, (Option.some.inj h).symm⟩

theorem map_edit_remove (key : ρ → κ) (rs : List ρ) (k : κ) :
    (edit key rs (.remove k)).map key = (rs.map key).erase k := by
  rw [edit, List.erase_eq_eraseP, List.eraseP_map]
  congr 2
  funext r
  rw [Function.comp_apply, Bool.beq_eq_decide_eq]
  exact decide_eq_decide.2 eq_comm

theorem edit_remove (h : (rs.map key).count k ≤ 1) :
    edit key rs (.remove k) = rs.filter fun r => key r ≠ k := by
  induction rs with
  | nil => rfl
  | cons r rs ih =>
    rw [List.map_cons, List.count_cons] at h
    rw [edit] at ih ⊢
    by_cases hr : key r = k
    · have hnot : k ∉ rs.map key := by
        rw [← List.count_eq_zero]
        rw [if_pos (by simpa using hr)] at h
        omega
      rw [List.eraseP_cons_of_pos (by simpa using hr), List.filter_cons_of_neg (by simpa using hr)]
      refine (List.filter_eq_self.2 fun s hs => ?_).symm
      have hk : key s ≠ k := fun hk => hnot (hk ▸ List.mem_map_of_mem hs)
      simpa using hk
    · rw [List.eraseP_cons_of_neg (by simpa using hr), List.filter_cons_of_pos (by simpa using hr),
        ih (by omega)]

theorem editStep_nodup (hrs : (rs.map key).Nodup) (h : editStep key rs e = some rs') :
    (rs'.map key).Nodup := by
  obtain ⟨hf, rfl⟩ := editStep_eq h
  cases e with
  | append r =>
    rw [edit, List.map_append]
    refine List.nodup_append'.2 ⟨hrs, List.nodup_singleton _, ?_⟩
    exact List.disjoint_singleton.2 hf
  | remove k =>
    rw [map_edit_remove]
    exact hrs.erase k
  | clear => exact List.nodup_nil

theorem edits_nodup (hrs : (rs.map key).Nodup) (h : runs (editStep key) rs es = some rs') :
    (rs'.map key).Nodup :=
  runs_keep (I := fun rs => (rs.map key).Nodup) (fun _ _ _ hs hstep => editStep_nodup hs hstep) hrs h

theorem edits_eq (h : runs (editStep key) rs es = some rs') : rs' = es.foldl (edit key) rs := by
  induction es generalizing rs with
  | nil => exact (Option.some.inj h).symm
  | cons e es ih =>
    rw [runs_cons, Option.bind_eq_some_iff] at h
    obtain ⟨s, hs, h⟩ := h
    rw [List.foldl_cons, ← (editStep_eq hs).2]
    exact ih h

/-! ## Rows that show a part of other rows -/

/-- The edit of the rows that are shown. -/
def Edit.map (f : ρ → τ) : Edit ρ κ → Edit τ κ
  | .append r => .append (f r)
  | .remove k => .remove k
  | .clear => .clear

theorem editStep_map {f : ρ → τ} {key' : τ → κ} (hf : ∀ r, key' (f r) = key r)
    (h : editStep key rs e = some rs') : editStep key' (rs.map f) (e.map f) = some (rs'.map f) := by
  have hkeys : (rs.map f).map key' = rs.map key := by
    rw [List.map_map]
    exact List.map_congr_left fun r _ => hf r
  obtain ⟨hfits, rfl⟩ := editStep_eq h
  cases e with
  | append r =>
    have : (Edit.append r : Edit ρ κ).map f |>.Fits key' (rs.map f) := by
      change key' (f r) ∉ _
      rw [hkeys, hf]
      exact hfits
    rw [editStep, if_pos this]
    simp only [Edit.map, edit, List.map_append, List.map_cons, List.map_nil]
  | remove k =>
    have : (Edit.remove k : Edit ρ κ).map f |>.Fits key' (rs.map f) := by
      change k ∈ _
      rw [hkeys]
      exact hfits
    rw [editStep, if_pos this]
    simp only [Edit.map, edit, List.eraseP_map, Function.comp_def, hf]
  | clear => rfl

theorem runs_map {f : ρ → τ} {key' : τ → κ} (hf : ∀ r, key' (f r) = key r)
    (h : runs (editStep key) rs es = some rs') :
    runs (editStep key') (rs.map f) (es.map (Edit.map f)) = some (rs'.map f) := by
  induction es generalizing rs with
  | nil => exact congrArg (Option.map (List.map f)) h
  | cons e es ih =>
    rw [runs_cons, Option.bind_eq_some_iff] at h
    obtain ⟨s, hs, h⟩ := h
    rw [List.map_cons, runs_cons, editStep_map hf hs]
    exact ih h

theorem kept_map {f : ρ → τ} {key' : τ → κ} (hf : ∀ r, key' (f r) = key r) (rs : List ρ)
    (es : List (Edit ρ κ)) : kept key' (es.map (Edit.map f)) (rs.map f) = (kept key es rs).map f := by
  have hr : (es.map (Edit.map f)).filterMap Edit.removes = es.filterMap Edit.removes := by
    rw [List.filterMap_map]
    refine List.filterMap_congr fun e _ => ?_
    cases e <;> rfl
  simp only [kept, List.filter_map, hr, Function.comp_def, hf]

/-! ## The copy -/

variable {L P P' : List ρ}

/-- **A clear** makes the copy the same. -/
theorem edits_clear (h : Edit.clear ∈ es) (L P : List ρ) :
    es.foldl (edit key) L = es.foldl (edit key) P := by
  induction es generalizing L P with
  | nil => cases h
  | cons e es ih =>
    rcases List.mem_cons.1 h with rfl | h
    · rfl
    · exact ih h _ _

/-- **The copy ends as the list does**, without a clear, just when it has no key more often than the list
to begin with, and they differ only in rows with keys that are removed. -/
theorem edits_eq_iff_count (hP : (P.map key).Nodup) (h : runs (editStep key) P es = some P')
    (hno : Edit.clear ∉ es) : es.foldl (edit key) L = P' ↔
      (∀ k, (L.map key).count k ≤ (P.map key).count k) ∧ kept key es L = kept key es P := by
  induction es generalizing L P with
  | nil =>
    obtain rfl := Option.some.inj h
    simp only [kept, List.filterMap_nil, List.not_mem_nil, not_false_eq_true, decide_true,
      List.filter_true, List.foldl_nil]
    exact ⟨fun h => ⟨fun k => by rw [h], h⟩, And.right⟩
  | cons e es ih =>
    rw [runs_cons, Option.bind_eq_some_iff] at h
    obtain ⟨Q, hQ, h⟩ := h
    have hnodup := editStep_nodup hP hQ
    obtain ⟨hf, rfl⟩ := editStep_eq hQ
    rw [List.foldl_cons, ih hnodup h fun hc => hno (List.mem_cons_of_mem e hc)]
    cases e with
    | append r =>
      simp only [edit, List.map_append, List.count_append, Nat.add_le_add_iff_right, kept,
        List.filter_append, List.append_cancel_right_eq, List.filterMap_cons, Edit.removes]
      exact Iff.rfl
    | remove k =>
      have hone : (P.map key).count k = 1 := List.count_eq_one_of_mem hP hf
      have hcount : (∀ x, ((edit key L (.remove k)).map key).count x ≤
            ((edit key P (.remove k)).map key).count x) ↔
          ∀ x, (L.map key).count x ≤ (P.map key).count x := by
        simp only [map_edit_remove, List.count_erase, beq_iff_eq]
        refine forall_congr' fun x => ?_
        by_cases hx : k = x
        · subst hx
          simp only [if_true]
          omega
        · simp only [hx, if_false, Nat.sub_zero]
      rw [hcount]
      refine and_congr_right fun hle => ?_
      have hkept : ∀ rs : List ρ, (rs.map key).count k ≤ 1 →
          kept key es (edit key rs (.remove k)) = kept key (.remove k :: es) rs := by
        intro rs hrs
        rw [edit_remove hrs, kept, kept, List.filter_filter]
        refine List.filter_congr fun r _ => ?_
        simp only [List.filterMap_cons, Edit.removes, List.mem_cons, not_or, ne_eq, Bool.decide_and]
        rw [Bool.and_comm]
      rw [hkept L (hone ▸ hle k), hkept P hone.le]
    | clear => exact absurd List.mem_cons_self hno

/-- **A copy with different keys** ends as the list does just when the edits clear it, or it has no key
that the list does not have, and they differ only in rows with keys that are removed. -/
theorem edits_eq_iff (hL : (L.map key).Nodup) (hP : (P.map key).Nodup)
    (h : runs (editStep key) P es = some P') : es.foldl (edit key) L = P' ↔
      Edit.clear ∈ es ∨ (∀ k ∈ L.map key, k ∈ P.map key) ∧ kept key es L = kept key es P := by
  by_cases hc : Edit.clear ∈ es
  · rw [edits_eq h]
    exact ⟨fun _ => Or.inl hc, fun _ => edits_clear hc L P⟩
  · rw [edits_eq_iff_count hP h hc, or_iff_right hc]
    refine and_congr_left fun _ => ⟨fun hle k hk => ?_, fun hsub k => ?_⟩
    · exact List.count_pos_iff.1 ((List.count_pos_iff.2 hk).trans_le (hle k))
    · by_cases hk : k ∈ L.map key
      · rw [List.count_eq_one_of_mem hL hk, List.count_eq_one_of_mem hP (hsub k hk)]
      · rw [List.count_eq_zero.2 hk]
        exact Nat.zero_le _

end Lib
