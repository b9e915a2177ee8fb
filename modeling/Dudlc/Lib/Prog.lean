import Mathlib.Tactic

/-!
# Programs that make calls

A program is a tree: it returns, it faults, or it makes a call and goes on with the answer. An
interpreter says what the calls do to a state.

* `Prog`, its monad, `Prog.call`; `Prog.ofOption`.
* `Prog.run`: running a program with an interpreter; `run_bind`.
* `Prog.Served`: the calls of a run are answered; `served_bind`.
* `Prog.Meets`: what holds of every call of a run; `meets_bind`.
* `Prog.Always`: what holds of every result, whatever the answers; `Always.bind`, `Always.run`.
* `Prog.loop`; `Always.loop`, `loop_fuel`.
* **`run_simulates`**: interpreters that simulate each other give the same results.
-/

namespace Lib

/-- A program with the calls `E`: `E β` are the calls with answers in `β`. -/
inductive Prog (E : Type → Type 1) (α : Type) : Type 1
  | ret (a : α)
  | fault
  | call {β : Type} (e : E β) (k : β → Prog E α)

namespace Prog

variable {E : Type → Type 1} {α β γ σ τ : Type}

/-- One program after the other. -/
def bind : Prog E α → (α → Prog E β) → Prog E β
  | ret a, f => f a
  | fault, _ => fault
  | call e k, f => call e fun b => (k b).bind f

instance : Monad (Prog E) where
  pure := ret
  bind := bind

/-- A call alone. -/
def ask (e : E β) : Prog E β := call e ret

/-- A step without a call, which may fault. -/
def ofOption : Option α → Prog E α
  | some a => ret a
  | none => fault

/-- Running a program: `h` says what a call does. -/
def run (h : ∀ {β : Type}, E β → σ → Option (β × σ)) : Prog E α → σ → Option (α × σ)
  | ret a, s => some (a, s)
  | fault, _ => none
  | call e k, s => (h e s).bind fun p => (k p.1).run h p.2

variable {h : ∀ {β : Type}, E β → σ → Option (β × σ)}

@[simp] theorem run_pure (a : α) (s : σ) : run h (pure a) s = some (a, s) := rfl

@[simp] theorem run_fault (s : σ) : run h (fault : Prog E α) s = none := rfl

@[simp] theorem run_ofOption (o : Option α) (s : σ) :
    run h (ofOption o : Prog E α) s = o.map fun a => (a, s) := by
  cases o <;> rfl

@[simp] theorem run_ask (e : E β) (s : σ) : run h (ask e) s = h e s := by
  simp only [ask, run]
  cases h e s <;> rfl

@[simp] theorem run_bind (p : Prog E α) (f : α → Prog E β) (s : σ) :
    run h (p >>= f) s = (run h p s).bind fun r => run h (f r.1) r.2 := by
  change run h (p.bind f) s = _
  induction p generalizing s with
  | ret a => rfl
  | fault => rfl
  | call e k ih =>
    simp only [bind, run]
    cases h e s with
    | none => rfl
    | some r => exact ih r.1 r.2

@[simp] theorem run_ite {c : Prop} [Decidable c] (p q : Prog E α) (s : σ) :
    run h (if c then p else q) s = if c then run h p s else run h q s := by
  split_ifs <;> rfl

/-! ## Answers -/

/-- Every call of the run is answered. The run may still end with a fault. -/
def Served (h : ∀ {β : Type}, E β → σ → Option (β × σ)) : Prog E α → σ → Prop
  | ret _, _ => True
  | fault, _ => True
  | call e k, s => ∃ r, h e s = some r ∧ (k r.1).Served h r.2

@[simp] theorem served_pure (a : α) (s : σ) : Served h (pure a) s := trivial

@[simp] theorem served_ask (e : E β) (s : σ) : Served h (ask e) s ↔ ∃ r, h e s = some r :=
  ⟨fun ⟨r, hr, _⟩ => ⟨r, hr⟩, fun ⟨r, hr⟩ => ⟨r, hr, trivial⟩⟩

@[simp] theorem served_bind (p : Prog E α) (f : α → Prog E β) (s : σ) :
    Served h (p >>= f) s ↔ Served h p s ∧ ∀ r, run h p s = some r → Served h (f r.1) r.2 := by
  change Served h (p.bind f) s ↔ _
  induction p generalizing s with
  | ret a => simp [bind, Served, run]
  | fault => simp [bind, Served, run]
  | call e k ih =>
    simp only [bind, Served, run, ih]
    constructor
    · rintro ⟨r, hr, hk, hf⟩
      exact ⟨⟨r, hr, hk⟩, fun t ht => hf t (by simpa [hr] using ht)⟩
    · rintro ⟨⟨r, hr, hk⟩, hf⟩
      exact ⟨r, hr, hk, fun t ht => hf t (by simpa [hr] using ht)⟩

theorem served_of_run {p : Prog E α} {s : σ} {r : α × σ} (hr : run h p s = some r) : p.Served h s := by
  induction p generalizing s with
  | ret a => trivial
  | fault => cases hr
  | call e k ih =>
    obtain ⟨t, ht, hk⟩ := Option.bind_eq_some_iff.1 hr
    exact ⟨t, ht, ih t.1 hk⟩

/-- Every call of the run meets `P`. -/
def Meets (h : ∀ {β : Type}, E β → σ → Option (β × σ)) (P : ∀ {β : Type}, E β → σ → Prop) :
    Prog E α → σ → Prop
  | ret _, _ => True
  | fault, _ => True
  | call e k, s => P e s ∧ ∀ r, h e s = some r → (k r.1).Meets h P r.2

variable {P : ∀ {β : Type}, E β → σ → Prop}

@[simp] theorem meets_pure (a : α) (s : σ) : Meets h P (pure a) s := trivial

@[simp] theorem meets_ask (e : E β) (s : σ) : Meets h P (ask e) s ↔ P e s :=
  and_iff_left fun _ _ => trivial

@[simp] theorem meets_bind (p : Prog E α) (f : α → Prog E β) (s : σ) :
    Meets h P (p >>= f) s ↔ Meets h P p s ∧ ∀ r, run h p s = some r → Meets h P (f r.1) r.2 := by
  change Meets h P (p.bind f) s ↔ _
  induction p generalizing s with
  | ret a => simp [bind, Meets, run]
  | fault => simp [bind, Meets, run]
  | call e k ih =>
    simp only [bind, Meets, run, ih]
    constructor
    · rintro ⟨he, hall⟩
      refine ⟨⟨he, fun r hr => (hall r hr).1⟩, fun t ht => ?_⟩
      obtain ⟨r, hr, ht⟩ := Option.bind_eq_some_iff.1 ht
      exact (hall r hr).2 t ht
    · rintro ⟨⟨he, hk⟩, hf⟩
      exact ⟨he, fun r hr => ⟨hk r hr, fun t ht => hf t (by simpa [hr] using ht)⟩⟩

/-! ## Results -/

/-- Every result of the program satisfies `Q`, whatever the answers. -/
def Always (Q : α → Prop) : Prog E α → Prop
  | ret a => Q a
  | fault => True
  | call _ k => ∀ b, (k b).Always Q

theorem Always.mono {Q R : α → Prop} (hQR : ∀ a, Q a → R a) {p : Prog E α} (hp : p.Always Q) :
    p.Always R := by
  induction p with
  | ret a => exact hQR a hp
  | fault => trivial
  | call e k ih => exact fun b => ih b (hp b)

theorem always_true (p : Prog E α) : p.Always fun _ => True := by
  induction p with
  | ret a => trivial
  | fault => trivial
  | call e k ih => exact ih

theorem always_forall {ι : Sort*} {Q : ι → α → Prop} {p : Prog E α} (h : ∀ i, p.Always (Q i)) :
    p.Always fun a => ∀ i, Q i a := by
  induction p with
  | ret a => exact h
  | fault => trivial
  | call e k ih => exact fun b => ih b fun i => h i b

theorem Always.bind {Q : α → Prop} {R : β → Prop} {p : Prog E α} {f : α → Prog E β}
    (hp : p.Always Q) (hf : ∀ a, Q a → (f a).Always R) : (p >>= f).Always R := by
  change (p.bind f).Always R
  induction p with
  | ret a => exact hf a hp
  | fault => trivial
  | call e k ih => exact fun b => ih b (hp b)

theorem Always.run {Q : α → Prop} {p : Prog E α} (hp : p.Always Q) {a : α} {s s' : σ}
    (hr : p.run h s = some (a, s')) : Q a := by
  induction p generalizing s with
  | ret b =>
    obtain ⟨rfl, -⟩ := Prod.mk.inj (Option.some.inj hr)
    exact hp
  | fault => cases hr
  | call e k ih =>
    obtain ⟨r, -, hr⟩ := Option.bind_eq_some_iff.1 hr
    exact ih r.1 (hp r.1) hr

/-! ## Loops -/

/-- A loop in a program. A loop that runs out of fuel faults. -/
def loop (body : σ → Prog E (σ ⊕ β)) : ℕ → σ → Prog E β
  | 0, _ => fault
  | n + 1, s => do
    match ← body s with
    | .inl s' => loop body n s'
    | .inr b => pure b

theorem Always.loop {body : σ → Prog E (σ ⊕ β)} {I : σ → Prop} {Q : β → Prop}
    (hbody : ∀ s, I s → (body s).Always fun r => r.elim I Q) (n : ℕ) {s : σ} (hs : I s) :
    (Prog.loop body n s).Always Q := by
  induction n generalizing s with
  | zero => trivial
  | succ n ih =>
    refine Always.bind (hbody s hs) fun r hr => ?_
    cases r with
    | inl s' => exact ih hr
    | inr b => exact hr

theorem loop_pure {body : σ → Prog E (σ ⊕ β)} (hbody : ∀ s, ∃ r, body s = pure r) (n : ℕ) (s : σ) {t t' : τ} {b : β}
    {g : ∀ {β : Type}, E β → τ → Option (β × τ)} (hr : (loop body n s).run g t = some (b, t')) :
    loop body n s = pure b := by
  induction n generalizing s with
  | zero => cases hr
  | succ n ih =>
    obtain ⟨r, hr'⟩ := hbody s
    rw [loop, hr'] at hr ⊢
    cases r with
    | inl s' => exact ih s' hr
    | inr b' => exact congrArg ret (Prod.mk.inj (Option.some.inj hr)).1

theorem bind_congr {p : Prog E α} {f g : α → Prog E β} {Q : α → Prop} (hp : p.Always Q)
    (hfg : ∀ a, Q a → f a = g a) : (p >>= f) = p >>= g := by
  change p.bind f = p.bind g
  induction p with
  | ret a => exact hfg a hp
  | fault => rfl
  | call e k ih => exact congrArg (call e) (funext fun b => ih b (hp b))

theorem bind_assoc (p : Prog E α) (f : α → Prog E β) (g : β → Prog E γ) :
    p >>= f >>= g = p >>= fun a => f a >>= g := by
  change (p.bind f).bind g = p.bind fun a => (f a).bind g
  induction p with
  | ret a => rfl
  | fault => rfl
  | call e k ih => exact congrArg (call e) (funext fun b => ih b)

theorem bind_pure (p : Prog E α) : p >>= pure = p := by
  change p.bind ret = p
  induction p with
  | ret a => rfl
  | fault => rfl
  | call e k ih => exact congrArg (call e) (funext fun b => ih b)

theorem bind_eq_pure {p : Prog E α} {f : α → Prog E β} {b : β} (h : p >>= f = pure b) :
    ∃ a, p = pure a ∧ f a = pure b := by
  cases p with
  | ret a => exact ⟨a, rfl, h⟩
  | fault => cases h
  | call e k => cases h

theorem pure_inj {a b : α} (h : (pure a : Prog E α) = pure b) : a = b := by
  cases h
  rfl

theorem map_bind (f : β → γ) (p : Prog E α) (g : α → Prog E β) :
    f <$> (p >>= g) = p >>= fun a => f <$> g a := bind_assoc ..

theorem run_map (f : α → β) (p : Prog E α) (s : σ) :
    run h (f <$> p) s = (run h p s).map fun r => (f r.1, r.2) := by
  change run h (p >>= fun a => pure (f a)) s = _
  rw [run_bind]
  cases run h p s <;> rfl

theorem served_map (f : α → β) (p : Prog E α) (s : σ) : Served h (f <$> p) s ↔ Served h p s := by
  change Served h (p >>= fun a => pure (f a)) s ↔ _
  rw [served_bind]
  exact and_iff_left fun _ _ => trivial

theorem map_bind_fst {I : τ → Prop} {p : Prog E (α × τ)} {q : Prog E α} (hpq : Prod.fst <$> p = q)
    (hI : p.Always fun r => I r.2) {f : α × τ → Prog E (β × τ)} {g : α → Prog E β}
    (hfg : ∀ r, I r.2 → Prod.fst <$> f r = g r.1) : Prod.fst <$> (p >>= f) = q >>= g := by
  subst hpq
  change (p.bind f).bind (ret ∘ Prod.fst) = (p.bind (ret ∘ Prod.fst)).bind g
  induction p with
  | ret a => exact hfg a hI
  | fault => rfl
  | call e k ih => exact congrArg (call e) (funext fun b => ih b (hI b))

/-- **A loop ends** when a variant decreases: more fuel changes nothing. -/
theorem loop_fuel {body : σ → Prog E (σ ⊕ β)} (V : σ → ℕ)
    (hV : ∀ s, (body s).Always fun r => ∀ s', r = .inl s' → V s' < V s) (n m : ℕ) (s : σ)
    (hn : V s < n) (hm : V s < m) : loop body n s = loop body m s := by
  induction n generalizing s m with
  | zero => omega
  | succ n ih =>
    obtain ⟨m, rfl⟩ := Nat.exists_eq_add_of_le' (Nat.one_le_of_lt hm)
    refine bind_congr (hV s) fun r hr => ?_
    cases r with
    | inl s' =>
      have := hr s' rfl
      exact ih m s' (by omega) (by omega)
    | inr b => rfl

/-! ## Simulation -/

/-- **Interpreters that simulate each other** give the same result: when every call has the same answer
from related states and leads to related states, so does every program. -/
theorem run_simulates {g : ∀ {β : Type}, E β → τ → Option (β × τ)} (R : σ → τ → Prop)
    (hcall : ∀ {β : Type} (e : E β) s t b s', R s t → h e s = some (b, s') →
      ∃ t', g e t = some (b, t') ∧ R s' t') {p : Prog E α} {a : α} {s s' : σ} {t : τ} (hR : R s t)
    (hr : p.run h s = some (a, s')) : ∃ t', p.run g t = some (a, t') ∧ R s' t' := by
  induction p generalizing s t with
  | ret b =>
    obtain ⟨rfl, rfl⟩ := Prod.mk.inj (Option.some.inj hr)
    exact ⟨t, rfl, hR⟩
  | fault => cases hr
  | call e k ih =>
    obtain ⟨⟨b, s₁⟩, hb, hr⟩ := Option.bind_eq_some_iff.1 hr
    obtain ⟨t₁, ht, hR₁⟩ := hcall e s t b s₁ hR hb
    obtain ⟨t', ht', hR'⟩ := ih b hR₁ hr
    exact ⟨t', by simp only [run, ht, Option.bind_some, ht'], hR'⟩

end Prog

end Lib
