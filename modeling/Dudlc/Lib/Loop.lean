import Mathlib.Tactic

/-!
# Bounded loops and guarded runs

A loop body maps a state to `none` (a fault), to `.inl s` (another round) or to `.inr b` (leave the
loop with `b`). `loop body n` plays at most `n` rounds. A *variant* is a natural number that every
further round makes smaller; with more rounds than the variant the bound is not felt.

* `loop_exit`: how a loop is left under an invariant and a variant.
* `loop_total`: a body that never faults under an invariant and lowers a variant leaves the loop.
* `loop_partial`: what one round preserves holds of every result of the loop.
* `loop_fuel`: above the variant the number of rounds does not matter.
* `rel_bind`, `loop_rel`: computations that go through related states.
* `Below`, `below_bind`, `loop_below`: computations that fault less often.
* `runs`, `Along`: runs of a partial step function, and conditions met before every step of a run;
  `runs_keep`, `Along.runs_inv`, `Along.iff_runs`.
-/

namespace Lib

/-! ## Loops -/

section Loop

variable {σ β : Type*}

/-- At most `n` rounds of a loop. -/
def loop (body : σ → Option (σ ⊕ β)) : ℕ → σ → Option β
  | 0, _ => none
  | n + 1, s =>
    match body s with
    | none => none
    | some (.inl s') => loop body n s'
    | some (.inr b) => some b

variable {body : σ → Option (σ ⊕ β)}

theorem loop_succ_inl {n : ℕ} {s s' : σ} (h : body s = some (.inl s')) :
    loop body (n + 1) s = loop body n s' := by
  simp [loop, h]

theorem loop_succ_inr {n : ℕ} {s : σ} {b : β} (h : body s = some (.inr b)) :
    loop body (n + 1) s = some b := by
  simp [loop, h]

theorem loop_succ_none {n : ℕ} {s : σ} (h : body s = none) : loop body (n + 1) s = none := by
  simp [loop, h]

/-- **Exits.** Under the invariant `I` every round keeps `I` and lowers the variant `V`, or leaves the
loop, in a way that satisfies `R`. -/
theorem loop_exit (I : σ → Prop) (V : σ → ℕ) (R : Option β → Prop)
    (hbody : ∀ s, I s → (∃ s', body s = some (.inl s') ∧ I s' ∧ V s' < V s) ∨
      ∃ x : Option β, body s = x.map .inr ∧ R x) :
    ∀ n s, I s → V s < n → R (loop body n s) := by
  intro n
  induction n with
  | zero => intro s _ hV; omega
  | succ n ih =>
    intro s hI hV
    rcases hbody s hI with ⟨s', hs, hI', hV'⟩ | ⟨_ | b, hx, hR⟩
    · rw [loop_succ_inl hs]
      exact ih s' hI' (by omega)
    · rw [loop_succ_none hx]
      exact hR
    · rw [loop_succ_inr hx]
      exact hR

/-- **Total correctness.** Under the invariant `I` every round succeeds, keeps `I` and lowers the
variant `V`, or leaves the loop with a result in `Q`. -/
theorem loop_total (I : σ → Prop) (V : σ → ℕ) (Q : β → Prop)
    (hbody : ∀ s, I s → (∃ s', body s = some (.inl s') ∧ I s' ∧ V s' < V s) ∨
      ∃ b, body s = some (.inr b) ∧ Q b) :
    ∀ n s, I s → V s < n → ∃ b, loop body n s = some b ∧ Q b :=
  loop_exit I V (fun x => ∃ b, x = some b ∧ Q b) fun s hI =>
    (hbody s hI).imp id fun ⟨b, hb, hQ⟩ => ⟨some b, hb, b, rfl, hQ⟩

/-- **Partial correctness.** -/
theorem loop_partial (I : σ → Prop) (Q : β → Prop)
    (hmore : ∀ s s', I s → body s = some (.inl s') → I s')
    (hdone : ∀ s b, I s → body s = some (.inr b) → Q b) :
    ∀ n s b, I s → loop body n s = some b → Q b := by
  intro n
  induction n with
  | zero => intro s b _ h; simp [loop] at h
  | succ n ih =>
    intro s b hI h
    rcases hs : body s with _ | s' | b'
    · simp [loop, hs] at h
    · rw [loop_succ_inl hs] at h
      exact ih s' b (hmore s s' hI hs) h
    · rw [loop_succ_inr hs, Option.some.injEq] at h
      exact h ▸ hdone s b' hI hs

/-- **Above the variant the number of rounds does not matter.** -/
theorem loop_fuel (V : σ → ℕ) (hV : ∀ s s', body s = some (.inl s') → V s' < V s) :
    ∀ m n s, V s < m → V s < n → loop body m s = loop body n s := by
  intro m
  induction m with
  | zero => intro n s hm; omega
  | succ m ih =>
    intro n s hm hn
    obtain ⟨n, rfl⟩ : ∃ k, n = k + 1 := ⟨n - 1, by omega⟩
    rcases hs : body s with _ | s' | b
    · rw [loop_succ_none hs, loop_succ_none hs]
    · have := hV s s' hs
      rw [loop_succ_inl hs, loop_succ_inl hs]
      exact ih n s' (by omega) (by omega)
    · rw [loop_succ_inr hs, loop_succ_inr hs]

end Loop

/-! ## Related computations -/

section Rel

variable {σ τ α β γ δ : Type*} {R : σ → τ → Prop}

theorem rel_bind {P : α → β → Prop} {Q : γ → δ → Prop} {x : Option α} {y : Option β}
    {f : α → Option γ} {g : β → Option δ} (h : Option.Rel P x y)
    (hfg : ∀ a b, P a b → Option.Rel Q (f a) (g b)) : Option.Rel Q (x.bind f) (y.bind g) := by
  cases h with
  | some h => exact hfg _ _ h
  | none => exact .none

/-- **Related rounds make related loops.** -/
theorem loop_rel {Q : β → γ → Prop} {body : σ → Option (σ ⊕ β)} {body' : τ → Option (τ ⊕ γ)}
    (hbody : ∀ s t, R s t → Option.Rel (Sum.LiftRel R Q) (body s) (body' t)) (n : ℕ) {s : σ} {t : τ}
    (h : R s t) : Option.Rel Q (loop body n s) (loop body' n t) := by
  induction n generalizing s t with
  | zero => exact .none
  | succ n ih =>
    have hb := hbody s t h
    rcases hs : body s with _ | s' | b <;> rcases ht : body' t with _ | t' | c <;> rw [hs, ht] at hb <;>
      rcases hb with ⟨⟨h⟩ | ⟨h⟩⟩ | _
    · rw [loop_succ_none hs, loop_succ_none ht]
      exact .none
    · rw [loop_succ_inl hs, loop_succ_inl ht]
      exact ih h
    · rw [loop_succ_inr hs, loop_succ_inr ht]
      exact .some h

end Rel

/-! ## Computations that fault less often -/

section Below

variable {σ ι α β : Type*} {x y : Option α}

/-- The result `x`, if there is one, is also `y`. -/
def Below (x y : Option α) : Prop := ∀ a, x = some a → y = some a

theorem below_refl (x : Option α) : Below x x := fun _ h => h

theorem below_none (y : Option α) : Below none y := fun _ h => by cases h

theorem Below.trans {z : Option α} (h : Below x y) (h' : Below y z) : Below x z :=
  fun a ha => h' a (h a ha)

theorem below_bind {f g : α → Option β} (h : Below x y) (hfg : ∀ a, Below (f a) (g a)) :
    Below (x.bind f) (y.bind g) := by
  intro b hb
  obtain ⟨a, ha, hb⟩ := Option.bind_eq_some_iff.1 hb
  rw [h a ha]
  exact hfg a b hb

theorem below_map (f : α → β) (h : Below x y) : Below (x.map f) (y.map f) := by
  intro b hb
  obtain ⟨a, ha, rfl⟩ := Option.map_eq_some_iff.1 hb
  rw [h a ha, Option.map_some]

theorem below_ite {p : Prop} [Decidable p] {x' y' : Option α} (h : Below x y) (h' : Below x' y') :
    Below (if p then x else x') (if p then y else y') := by
  split_ifs
  · exact h
  · exact h'

/-- **Rounds that fault less often** make loops that do. -/
theorem loop_below {body body' : σ → Option (σ ⊕ β)} (h : ∀ s, Below (body s) (body' s)) (n : ℕ) (s : σ) :
    Below (loop body n s) (loop body' n s) := by
  induction n generalizing s with
  | zero => exact below_none _
  | succ n ih =>
    rcases hs : body s with _ | s' | b
    · rw [loop_succ_none hs]
      exact below_none _
    · rw [loop_succ_inl hs, loop_succ_inl (h s _ hs)]
      exact ih s'
    · rw [loop_succ_inr hs, loop_succ_inr (h s _ hs)]
      exact below_refl _

end Below

/-! ## Runs -/

section Runs

variable {σ ι : Type*}

/-- The state after a list of inputs, if no step faults. -/
def runs (step : σ → ι → Option σ) : σ → List ι → Option σ
  | s, [] => some s
  | s, i :: is => (step s i).bind fun s' => runs step s' is

/-- Before every step of the run, `P` holds of the state and the input. -/
def Along (step : σ → ι → Option σ) (P : σ → ι → Prop) : σ → List ι → Prop
  | _, [] => True
  | s, i :: is => P s i ∧ ∀ s', step s i = some s' → Along step P s' is

variable {step : σ → ι → Option σ}

instance Along.decidable {P : σ → ι → Prop} [∀ s, DecidablePred (P s)] :
    ∀ s is, Decidable (Along step P s is)
  | _, [] => isTrue trivial
  | s, i :: is =>
    match h : step s i with
    | none => decidable_of_iff (P s i) ⟨fun hp => ⟨hp, fun s' hs => by cases h ▸ hs⟩, And.left⟩
    | some s' =>
      have := Along.decidable (P := P) s' is
      decidable_of_iff (P s i ∧ Along step P s' is)
        ⟨fun hp => ⟨hp.1, fun t ht => Option.some.inj (h ▸ ht) ▸ hp.2⟩,
          fun hp => ⟨hp.1, hp.2 s' h⟩⟩

@[simp] theorem runs_nil (s : σ) : runs step s [] = some s := rfl

theorem runs_cons (s : σ) (i : ι) (is : List ι) :
    runs step s (i :: is) = (step s i).bind fun s' => runs step s' is := rfl

theorem runs_below {step' : σ → ι → Option σ} (h : ∀ s i, Below (step s i) (step' s i)) (s : σ)
    (is : List ι) : Below (runs step s is) (runs step' s is) := by
  induction is generalizing s with
  | nil => exact below_refl _
  | cons i is ih => exact below_bind (h s i) ih

theorem runs_append (s : σ) (is js : List ι) :
    runs step s (is ++ js) = (runs step s is).bind fun s' => runs step s' js := by
  induction is generalizing s with
  | nil => rfl
  | cons i is ih =>
    rw [List.cons_append, runs_cons, runs_cons]
    cases step s i with
    | none => rfl
    | some s' => exact ih s'

theorem Along.initial {P : σ → ι → Prop} {s : σ} {is js : List ι}
    (h : Along step P s (is ++ js)) : Along step P s is := by
  induction is generalizing s with
  | nil => trivial
  | cons i is ih => exact ⟨h.1, fun s' hs => ih (h.2 s' hs)⟩

theorem Along.mono {P Q : σ → ι → Prop} {s : σ} {is : List ι}
    (hPQ : ∀ s i, P s i → Q s i) (h : Along step P s is) : Along step Q s is := by
  induction is generalizing s with
  | nil => trivial
  | cons i is ih => exact ⟨hPQ s i h.1, fun s' hs => ih (h.2 s' hs)⟩

theorem Along.and {P Q : σ → ι → Prop} {s : σ} {is : List ι} (hP : Along step P s is)
    (hQ : Along step Q s is) : Along step (fun s i => P s i ∧ Q s i) s is := by
  induction is generalizing s with
  | nil => trivial
  | cons i is ih => exact ⟨⟨hP.1, hQ.1⟩, fun s' hs => ih (hP.2 s' hs) (hQ.2 s' hs)⟩

theorem Along.last {P : σ → ι → Prop} {s t : σ} {is : List ι} {i : ι}
    (h : Along step P s (is ++ [i])) (ht : runs step s is = some t) : P t i := by
  induction is generalizing s with
  | nil => exact Option.some.inj ht ▸ h.1
  | cons j is ih =>
    rw [runs_cons, Option.bind_eq_some_iff] at ht
    obtain ⟨s', hs, ht⟩ := ht
    exact ih (h.2 s' hs) ht

theorem Along.forall_mem {P : σ → ι → Prop} {Q : ι → Prop} (hPQ : ∀ s i, P s i → Q i) {s t : σ}
    {is : List ι} (h : Along step P s is) (ht : runs step s is = some t) : ∀ i ∈ is, Q i := by
  induction is generalizing s with
  | nil => nofun
  | cons j is ih =>
    rw [runs_cons, Option.bind_eq_some_iff] at ht
    obtain ⟨s', hs, ht⟩ := ht
    intro i hi
    rcases List.mem_cons.1 hi with rfl | hi
    · exact hPQ s i h.1
    · exact ih (h.2 s' hs) ht i hi

/-- **Invariants of guarded runs.** A step whose guard holds succeeds and keeps the invariant; then
so does every run whose steps all meet the guard. -/
theorem Along.runs_inv {P : σ → ι → Prop} {I : σ → Prop}
    (hstep : ∀ s i, I s → P s i → ∃ s', step s i = some s' ∧ I s') {s : σ} {is : List ι}
    (hI : I s) (h : Along step P s is) : ∃ s', runs step s is = some s' ∧ I s' := by
  induction is generalizing s with
  | nil => exact ⟨s, rfl, hI⟩
  | cons i is ih =>
    obtain ⟨s', hs, hI'⟩ := hstep s i hI h.1
    obtain ⟨t, ht, hIt⟩ := ih hI' (h.2 s' hs)
    exact ⟨t, by rw [runs_cons, hs]; exact ht, hIt⟩

theorem Along.runs_keep {P : σ → ι → Prop} {I : σ → Prop}
    (hstep : ∀ s i s', I s → P s i → step s i = some s' → I s') {s t : σ} {is : List ι}
    (hI : I s) (h : Along step P s is) (ht : runs step s is = some t) : I t := by
  induction is generalizing s with
  | nil => exact Option.some.inj ht ▸ hI
  | cons i is ih =>
    rw [runs_cons, Option.bind_eq_some_iff] at ht
    obtain ⟨s', hs, ht⟩ := ht
    exact ih (hstep s i s' hI h.1 hs) (h.2 s' hs) ht

theorem Along.of_forall {P : σ → ι → Prop} (h : ∀ s i, P s i) (s : σ) (is : List ι) :
    Along step P s is := by
  induction is generalizing s with
  | nil => trivial
  | cons i is ih => exact ⟨h s i, fun s' _ => ih s'⟩

theorem runs_keep {I : σ → Prop} (hstep : ∀ s i s', I s → step s i = some s' → I s') {s t : σ}
    {is : List ι} (hI : I s) (ht : runs step s is = some t) : I t :=
  Along.runs_keep (P := fun _ _ => True) (fun s i s' hs _ => hstep s i s' hs) hI
    (Along.of_forall (fun _ _ => trivial) s is) ht

/-- **A run follows a fold.** What every step keeps between the state and another one that goes through the same
inputs, a run keeps. -/
theorem runs_foldl {τ : Type*} {R : σ → τ → Prop} {f : τ → ι → τ}
    (hstep : ∀ s t i s', R s t → step s i = some s' → R s' (f t i)) {s s' : σ} {t : τ} {is : List ι}
    (hR : R s t) (hrun : runs step s is = some s') : R s' (is.foldl f t) := by
  induction is generalizing s t with
  | nil => exact Option.some.inj hrun ▸ hR
  | cons i is ih =>
    rw [runs_cons, Option.bind_eq_some_iff] at hrun
    obtain ⟨u, hu, hrun⟩ := hrun
    exact ih (hstep s t i u hR hu) hrun

/-- **The guard is exact** when, among the steps that `G` allows, a step from a good state is good
again just when `P` holds: an allowed run stays good at every prefix just when `P` holds all along. -/
theorem Along.iff_runs {G P : σ → ι → Prop} {I : σ → Prop}
    (hstep : ∀ s i, I s → G s i → (P s i ↔ ∃ s', step s i = some s' ∧ I s')) {s : σ} {is : List ι}
    (hI : I s) (hG : Along step G s is) :
    Along step P s is ↔ ∀ js, js <+: is → ∃ s', runs step s js = some s' ∧ I s' := by
  constructor
  · rintro h js ⟨ks, rfl⟩
    exact Along.runs_inv (fun s i hI hP => (hstep s i hI hP.1).1 hP.2) hI (hG.initial.and h.initial)
  · intro h
    induction is generalizing s with
    | nil => trivial
    | cons i is ih =>
      obtain ⟨s', hs, hI'⟩ := h [i] ⟨is, rfl⟩
      obtain ⟨t, ht, rfl⟩ : ∃ t, step s i = some t ∧ t = s' := by
        simpa [runs_cons, Option.bind_eq_some_iff] using hs
      refine ⟨(hstep s i hI hG.1).2 ⟨t, ht, hI'⟩, fun u hu => ?_⟩
      obtain rfl := Option.some.inj (ht.symm.trans hu)
      refine ih hI' (hG.2 t ht) fun js hjs => ?_
      obtain ⟨v, hv, hIv⟩ := h (i :: js) (List.cons_prefix_cons.2 ⟨rfl, hjs⟩)
      rw [runs_cons, hu] at hv
      exact ⟨v, hv, hIv⟩

end Runs

end Lib
