import Mathlib.Tactic

/-!
# Generators

A function that is called again and again, and returns the elements of a list one after the other. It keeps
its place in a state of its own.

* `stateAt`, `resultAt`: the state before a call, and what the call returns.
* `Yields`: what is still to come, for each state; `Yields.resultAt_eq`: the calls return it, and nothing
  behind it.
* `followedBy`: a generator behind another one; `Yields.followedBy`.
-/

namespace Lib

variable {σ τ α : Type*}

/-- The state before call `k`. -/
def stateAt (step : σ → Option α × σ) (s : σ) : ℕ → σ
  | 0 => s
  | k + 1 => (step (stateAt step s k)).2

/-- What call `k` returns. -/
def resultAt (step : σ → Option α × σ) (s : σ) (k : ℕ) : Option α := (step (stateAt step s k)).1

/-- In the states with the property `I`, a call returns the first element that is still to come, and leaves
the others. -/
structure Yields (step : σ → Option α × σ) (I : σ → Prop) (left : σ → List α) : Prop where
  head : ∀ s, I s → (step s).1 = (left s).head?
  tail : ∀ s, I s → left (step s).2 = (left s).tail
  keeps : ∀ s, I s → I (step s).2

/-- A generator behind another one, which is called again after its end. -/
def followedBy (f : σ → Option α × σ) (g : τ → Option α × τ) (p : σ × τ) : Option α × σ × τ :=
  match f p.1 with
  | (some a, s) => (some a, s, p.2)
  | (none, s) => let (r, t) := g p.2; (r, s, t)

variable {step f : σ → Option α × σ} {g : τ → Option α × τ} {I : σ → Prop} {J : τ → Prop} {left : σ → List α}
  {left' : τ → List α} {s : σ}

theorem Yields.stateAt (h : Yields step I left) (hs : I s) (k : ℕ) :
    I (stateAt step s k) ∧ left (Lib.stateAt step s k) = (left s).drop k := by
  induction k with
  | zero => exact ⟨hs, rfl⟩
  | succ k ih => exact ⟨h.keeps _ ih.1, by rw [Lib.stateAt, h.tail _ ih.1, ih.2, List.tail_drop]⟩

/-- **The calls return the list**, and NULL from its end on. -/
theorem Yields.resultAt_eq (h : Yields step I left) (hs : I s) (k : ℕ) : resultAt step s k = (left s)[k]? := by
  obtain ⟨hk, hleft⟩ := h.stateAt hs k
  rw [resultAt, h.head _ hk, hleft, List.head?_drop]

theorem Yields.followedBy (hf : Yields f I left) (hg : Yields g J left') :
    Yields (followedBy f g) (fun p => I p.1 ∧ J p.2) fun p => left p.1 ++ left' p.2 := by
  have hcases : ∀ p : σ × τ, I p.1 →
      (∃ a l, left p.1 = a :: l ∧ Lib.followedBy f g p = (some a, (f p.1).2, p.2)) ∨
      (left p.1 = [] ∧ Lib.followedBy f g p = ((g p.2).1, (f p.1).2, (g p.2).2)) := by
    rintro ⟨s, t⟩ hI
    have hhead := hf.head s hI
    rcases hl : left s with _ | ⟨a, l⟩
    · rw [hl] at hhead
      refine Or.inr ⟨rfl, ?_⟩
      rcases hs : f s with ⟨_ | a, s'⟩
      · simp [Lib.followedBy, hs]
      · rw [hs] at hhead
        cases hhead
    · rw [hl] at hhead
      refine Or.inl ⟨a, l, rfl, ?_⟩
      rcases hs : f s with ⟨_ | b, s'⟩
      · rw [hs] at hhead
        cases hhead
      · rw [hs] at hhead
        cases hhead
        simp [Lib.followedBy, hs]
  refine ⟨fun p hp => ?_, fun p hp => ?_, fun p hp => ?_⟩
  · rcases hcases p hp.1 with ⟨a, l, hl, hstep⟩ | ⟨hl, hstep⟩
    · rw [hstep, hl]
      rfl
    · rw [hstep, hl]
      exact hg.head p.2 hp.2
  · have htail := hf.tail p.1 hp.1
    rcases hcases p hp.1 with ⟨a, l, hl, hstep⟩ | ⟨hl, hstep⟩
    · rw [hl] at htail
      rw [hstep, hl, htail]
      rfl
    · rw [hl] at htail
      rw [hstep, hl, htail]
      exact hg.tail p.2 hp.2
  · rcases hcases p hp.1 with ⟨a, l, hl, hstep⟩ | ⟨hl, hstep⟩
    · rw [hstep]
      exact ⟨hf.keeps p.1 hp.1, hp.2⟩
    · rw [hstep]
      exact ⟨hf.keeps p.1 hp.1, hg.keeps p.2 hp.2⟩

end Lib
