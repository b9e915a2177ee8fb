import Mathlib

/-!
# Assertions about heaps

A heap is a finite map from addresses to the contents of the blocks that are in use. What is said of a part
of a heap is an assertion; `P * Q` says `P` of one part and `Q` of the rest. The assertions are a commutative
quantale: products distribute over all suprema, and suprema are existential statements.

* `Heap`, `Assn`; `Assn.fact`: a statement about no block; `Assn.cell`: one block and its content.
* `Assn.iSup_apply`, `Assn.sup_apply`, `Assn.fact_mul`: what the operations say.
* **`Assn.cell_mul`**: a heap with a block, and the rest without it.
-/

namespace Lib

/-- The blocks that are in use, by their addresses. -/
abbrev Heap (V : Type) := Finmap fun _ : ℕ => V

/-- What is said of a part of a heap. -/
def Assn (V : Type) := Heap V → Prop

namespace Assn

variable {V : Type} {P Q R : Assn V} {h : Heap V}

@[ext] theorem ext (hPQ : ∀ h, P h ↔ Q h) : P = Q := funext fun h => propext (hPQ h)

instance : CompleteLattice (Assn V) := inferInstanceAs (CompleteLattice (Heap V → Prop))

/-- The heap is made of two parts without a common address. -/
instance : Mul (Assn V) where
  mul P Q h := ∃ h₁ h₂ : Heap V, h₁.Disjoint h₂ ∧ h = h₁ ∪ h₂ ∧ P h₁ ∧ Q h₂

/-- The part is empty. -/
instance : One (Assn V) where
  one h := h = ∅

theorem mul_apply : (P * Q) h ↔ ∃ h₁ h₂ : Heap V, h₁.Disjoint h₂ ∧ h = h₁ ∪ h₂ ∧ P h₁ ∧ Q h₂ := Iff.rfl

theorem star_comm (P Q : Assn V) : P * Q = Q * P := by
  have key : ∀ P Q : Assn V, ∀ h, (P * Q) h → (Q * P) h := by
    rintro P Q h ⟨h₁, h₂, hd, rfl, h1, h2⟩
    exact ⟨h₂, h₁, hd.symm, Finmap.union_comm_of_disjoint hd, h2, h1⟩
  exact ext fun h => ⟨key P Q h, key Q P h⟩

theorem one_star (P : Assn V) : 1 * P = P := by
  ext h
  constructor
  · rintro ⟨_, h₂, -, rfl, rfl, h2⟩
    rwa [Finmap.empty_union]
  · exact fun hP => ⟨∅, h, Finmap.disjoint_empty h, Finmap.empty_union.symm, rfl, hP⟩

instance : CommMonoid (Assn V) where
  mul_assoc P Q R := by
    ext h
    constructor
    · rintro ⟨_, h₃, hd, rfl, ⟨h₁, h₂, hd', rfl, h1, h2⟩, h3⟩
      obtain ⟨h13, h23⟩ := (Finmap.disjoint_union_left ..).1 hd
      exact ⟨h₁, h₂ ∪ h₃, (Finmap.disjoint_union_right ..).2 ⟨hd', h13⟩, Finmap.union_assoc, h1, h₂, h₃, h23, rfl,
        h2, h3⟩
    · rintro ⟨h₁, _, hd, rfl, h1, h₂, h₃, hd', rfl, h2, h3⟩
      obtain ⟨h12, h13⟩ := (Finmap.disjoint_union_right ..).1 hd
      exact ⟨h₁ ∪ h₂, h₃, (Finmap.disjoint_union_left ..).2 ⟨h13, hd'⟩, Finmap.union_assoc.symm,
        ⟨h₁, h₂, h12, rfl, h1, h2⟩, h3⟩
  one_mul := one_star
  mul_one P := (star_comm P 1).trans (one_star P)
  mul_comm := star_comm

/-! ## Existential statements -/

theorem sSup_apply (S : Set (Assn V)) : sSup S h ↔ ∃ P ∈ S, P h := by
  constructor
  · have hle : sSup S ≤ (fun h => ∃ P ∈ S, P h : Assn V) := sSup_le fun P hP h hPh => ⟨P, hP, hPh⟩
    exact hle h
  · rintro ⟨P, hP, hPh⟩
    exact le_sSup hP h hPh

theorem iSup_apply {ι : Sort*} (P : ι → Assn V) : (⨆ i, P i) h ↔ ∃ i, P i h := by
  rw [iSup, sSup_apply]
  exact Set.exists_range_iff

instance : IsQuantale (Assn V) where
  mul_sSup_distrib P S := by
    ext h
    simp only [iSup_apply, mul_apply, sSup_apply]
    constructor
    · rintro ⟨h₁, h₂, hd, rfl, h1, Q, hQ, h2⟩
      exact ⟨Q, hQ, h₁, h₂, hd, rfl, h1, h2⟩
    · rintro ⟨Q, hQ, h₁, h₂, hd, rfl, h1, h2⟩
      exact ⟨h₁, h₂, hd, rfl, h1, Q, hQ, h2⟩
  sSup_mul_distrib S P := by
    ext h
    simp only [iSup_apply, mul_apply, sSup_apply]
    constructor
    · rintro ⟨h₁, h₂, hd, rfl, ⟨Q, hQ, h1⟩, h2⟩
      exact ⟨Q, hQ, h₁, h₂, hd, rfl, h1, h2⟩
    · rintro ⟨Q, hQ, h₁, h₂, hd, rfl, h1, h2⟩
      exact ⟨h₁, h₂, hd, rfl, ⟨Q, hQ, h1⟩, h2⟩

theorem iSup_mul_apply {ι : Sort*} (P : ι → Assn V) : ((⨆ i, P i) * Q) h ↔ ∃ i, (P i * Q) h := by
  simp only [mul_apply, iSup_apply]
  constructor
  · rintro ⟨h₁, h₂, hd, rfl, ⟨i, h1⟩, h2⟩
    exact ⟨i, h₁, h₂, hd, rfl, h1, h2⟩
  · rintro ⟨i, h₁, h₂, hd, rfl, h1, h2⟩
    exact ⟨h₁, h₂, hd, rfl, ⟨i, h1⟩, h2⟩

/-! ## Statements about no block -/

/-- The statement holds, and the part is empty. -/
def fact (p : Prop) : Assn V := fun h => p ∧ h = ∅

variable {p q : Prop}

theorem fact_mul : (fact p * Q : Assn V) h ↔ p ∧ Q h := by
  constructor
  · rintro ⟨_, h₂, -, rfl, ⟨hp, rfl⟩, h2⟩
    exact ⟨hp, by rwa [Finmap.empty_union]⟩
  · exact fun ⟨hp, hQ⟩ => ⟨∅, h, Finmap.disjoint_empty h, Finmap.empty_union.symm, ⟨hp, rfl⟩, hQ⟩

@[simp] theorem fact_true (hp : p) : (fact p : Assn V) = 1 := by
  ext h
  exact and_iff_right hp

theorem fact_le_one : (fact p : Assn V) ≤ 1 := fun _ h => h.2

theorem fact_le (hpQ : p → 1 ≤ Q) : fact p ≤ Q := fun h hp => hpQ hp.1 h hp.2

/-- The part is this heap. -/
def exactly (h₀ : Heap V) : Assn V := fun h => h = h₀

/-! ## Blocks -/

/-- A block with its content. The address 0 is NULL. -/
def cell (a : ℕ) (v : V) : Assn V := fun h => a ≠ 0 ∧ h = Finmap.singleton a v

variable {a : ℕ} {v w : V}

/-- **A heap with a block**, and the rest without it. -/
theorem cell_mul : (cell a v * Q : Assn V) h ↔ a ≠ 0 ∧ h.lookup a = some v ∧ Q (h.erase a) := by
  constructor
  · rintro ⟨_, h₂, hd, rfl, ⟨ha, rfl⟩, h2⟩
    have hnot : a ∉ h₂ := hd a ((Finmap.mem_singleton ..).2 rfl)
    refine ⟨ha, ?_, ?_⟩
    · rw [Finmap.lookup_union_left ((Finmap.mem_singleton ..).2 rfl), Finmap.lookup_singleton_eq]
    · have herase : (Finmap.singleton a v ∪ h₂).erase a = h₂ := by
        refine Finmap.ext_lookup fun b => ?_
        by_cases hb : b = a
        · rw [hb, Finmap.lookup_erase, Finmap.lookup_eq_none.2 hnot]
        · rw [Finmap.lookup_erase_ne hb, Finmap.lookup_union_right (by simpa using hb)]
      rwa [herase]
  · rintro ⟨ha, hv, hQ⟩
    refine ⟨Finmap.singleton a v, h.erase a, ?_, ?_, ⟨ha, rfl⟩, hQ⟩
    · intro b hb
      rw [(Finmap.mem_singleton ..).1 hb]
      exact Finmap.notMem_erase_self
    · rw [← Finmap.union_comm_of_disjoint, Finmap.erase_union_singleton _ _ _ hv]
      intro b hb hb'
      rw [(Finmap.mem_singleton ..).1 hb'] at hb
      exact Finmap.notMem_erase_self hb

theorem cell_mem (h' : (cell a v * Q : Assn V) h) : a ∈ h := Finmap.mem_of_lookup_eq_some (cell_mul.1 h').2.1

theorem cell_mul_insert (ha : a ≠ 0) (hnot : a ∉ h) (hQ : Q h) : (cell a v * Q : Assn V) (h.insert a v) := by
  refine cell_mul.2 ⟨ha, Finmap.lookup_insert h, ?_⟩
  have herase : (h.insert a v).erase a = h := by
    refine Finmap.ext_lookup fun b => ?_
    by_cases hb : b = a
    · rw [hb, Finmap.lookup_erase, Finmap.lookup_eq_none.2 hnot]
    · rw [Finmap.lookup_erase_ne hb, Finmap.lookup_insert_of_ne _ hb]
  rwa [herase]

theorem cell_mul_update (h' : (cell a v * Q : Assn V) h) : (cell a w * Q : Assn V) (h.insert a w) := by
  obtain ⟨ha, -, hQ⟩ := cell_mul.1 h'
  refine cell_mul.2 ⟨ha, Finmap.lookup_insert h, ?_⟩
  have herase : (h.insert a w).erase a = h.erase a := by
    refine Finmap.ext_lookup fun b => ?_
    by_cases hb : b = a
    · rw [hb, Finmap.lookup_erase, Finmap.lookup_erase]
    · rw [Finmap.lookup_erase_ne hb, Finmap.lookup_erase_ne hb, Finmap.lookup_insert_of_ne _ hb]
  rwa [herase]

@[simp] theorem cell_zero : cell 0 v = ⊥ := by
  ext h
  exact iff_of_false (fun h => h.1 rfl) id

end Assn

end Lib
