import Dudlc.Lib.Separation

/-!
# Programs with dynamic memory

A program allocates, reads, writes and releases blocks. The addresses that `malloc` returns are given in
advance and arbitrary, and it may return NULL at any time. An access to an address where no block is in use,
and the release of one, makes the memory unsound for good.

* `Arena`, `HeapM`; `malloc`, `free`, `load`, `store`, `crash`.
* `Triple`: what a program makes of its part of the memory, whatever the rest is, and whether `malloc` has
  returned NULL on the way; `Triple.bind`, `Triple.frame` and the other rules.
* `segment`, `chain`: linked lists; `segment_snoc`, `segment_cons`.
-/

namespace Lib

/-- The memory of a program. -/
structure Arena (V : Type) where
  heap : Heap V
  /-- What the next calls of `malloc` return: an address, where 0 is NULL. -/
  answers : List ℕ
  /-- Some `malloc` has returned NULL. -/
  refused : Bool
  /-- All accesses so far were to blocks in use. -/
  sound : Bool

/-- A program. It has no result where something else than its memory goes wrong. -/
def HeapM (V α : Type) : Type := Arena V → Option (α × Arena V)

namespace HeapM

variable {V α β : Type}

instance : Monad (HeapM V) where
  pure a s := some (a, s)
  bind c f s := (c s).bind fun p => f p.1 p.2

theorem pure_apply (a : α) (s : Arena V) : (pure a : HeapM V α) s = some (a, s) := rfl

theorem bind_apply (c : HeapM V α) (f : α → HeapM V β) (s : Arena V) :
    (c >>= f) s = (c s).bind fun p => f p.1 p.2 := rfl

/-- An access to no block. -/
def crash (a : α) : HeapM V α := fun s => some (a, { s with sound := false })

/-- `malloc`, with the content that the block is given next. An address that is in use is not returned. -/
def malloc (v : V) : HeapM V ℕ := fun s =>
  match s.answers with
  | [] => some (0, { s with refused := true })
  | a :: as =>
    if a = 0 ∨ a ∈ s.heap then some (0, { s with answers := as, refused := true })
    else some (a, { s with answers := as, heap := s.heap.insert a v })

theorem malloc_returns (v : V) (s : Arena V) : ∃ a s', malloc v s = some (a, s') := by
  unfold malloc
  cases s.answers with
  | nil => exact ⟨_, _, rfl⟩
  | cons a as =>
    dsimp only
    split_ifs
    · exact ⟨_, _, rfl⟩
    · exact ⟨_, _, rfl⟩

/-- `free` -/
def free (a : ℕ) : HeapM V Unit := fun s =>
  if a = 0 then some ((), s)
  else if a ∈ s.heap then some ((), { s with heap := s.heap.erase a })
  else crash () s

theorem free_returns (a : ℕ) (s : Arena V) : (free a s).isSome := by
  unfold free
  split_ifs <;> rfl

/-- Reading a block. -/
def load (a : ℕ) : HeapM V (Option V) := fun s =>
  match s.heap.lookup a with
  | some v => some (some v, s)
  | none => crash none s

/-- Writing a block. -/
def store (a : ℕ) (v : V) : HeapM V Unit := fun s =>
  if a ∈ s.heap then some ((), { s with heap := s.heap.insert a v }) else crash () s

theorem load_returns (a : ℕ) (s : Arena V) : (load a s).isSome := by
  unfold load
  cases s.heap.lookup a <;> rfl

theorem store_returns (a : ℕ) (v : V) (s : Arena V) : (store a v s).isSome := by
  unfold store
  split_ifs <;> rfl

theorem bind_returns {c : HeapM V α} {f : α → HeapM V β} {s : Arena V} (hc : (c s).isSome)
    (hf : ∀ a s', (f a s').isSome) : ((c >>= f) s).isSome := by
  obtain ⟨⟨a, s'⟩, ha⟩ := Option.isSome_iff_exists.1 hc
  rw [bind_apply, ha]
  exact hf a s'

end HeapM

open HeapM Assn

variable {V α β : Type} {P P' F : Assn V} {Q Q' : α → Bool → Assn V} {R : β → Bool → Assn V} {c : HeapM V α}
  {f : α → HeapM V β} {a : α} {p : ℕ} {v w : V}

/-- **What a program does**: from `P` it makes `Q`, for its result and for whether `malloc` has returned NULL,
and leaves the rest of the memory alone. It touches only blocks in use. -/
def Triple (P : Assn V) (c : HeapM V α) (Q : α → Bool → Assn V) : Prop :=
  ∀ F s a s', s.sound = true → (P * F) s.heap → c s = some (a, s') →
    s'.sound = true ∧ ∃ b, s'.refused = (s.refused || b) ∧ (Q a b * F) s'.heap

/-- No `malloc` returns NULL. -/
def quiet (Q : α → Assn V) : α → Bool → Assn V := fun a b => fact (b = false) * Q a

theorem Triple.run (hc : Triple 1 c Q) {s s' : Arena V} (hs : s.sound = true) (h : c s = some (a, s')) :
    s'.sound = true ∧ ∃ b, s'.refused = (s.refused || b) ∧ (Q a b * exactly s.heap) s'.heap :=
  hc (exactly s.heap) s a s' hs (by rw [one_mul]; rfl) h

theorem Triple.mono (hc : Triple P c Q) (hP : P' ≤ P) (hQ : ∀ a b, Q a b ≤ Q' a b) : Triple P' c Q' := by
  intro F s a s' hs hp h
  obtain ⟨hs', b, hb, hq⟩ := hc F s a s' hs (mul_le_mul_left hP F _ hp) h
  exact ⟨hs', b, hb, mul_le_mul_left (hQ a b) F _ hq⟩

theorem Triple.pre (hc : Triple P c Q) (hP : P' ≤ P) : Triple P' c Q := hc.mono hP fun _ _ => le_rfl

theorem Triple.post (hc : Triple P c Q) (hQ : ∀ a b, Q a b ≤ Q' a b) : Triple P c Q' := hc.mono le_rfl hQ

/-- **The frame rule.** -/
theorem Triple.frame (hc : Triple P c Q) (F : Assn V) : Triple (P * F) c fun a b => Q a b * F := by
  intro G s a s' hs hp h
  rw [mul_assoc] at hp
  obtain ⟨hs', b, hb, hq⟩ := hc (F * G) s a s' hs hp h
  exact ⟨hs', b, hb, by rwa [mul_assoc]⟩

theorem Triple.pure (h : P ≤ Q a false) : Triple P (pure a) Q := by
  intro F s x s' hs hp hx
  obtain ⟨rfl, rfl⟩ := Prod.mk.inj (Option.some.inj hx)
  exact ⟨hs, false, (Bool.or_false _).symm, mul_le_mul_left h F _ hp⟩

theorem Triple.bind (hc : Triple P c Q)
    (hf : ∀ a b, Triple (Q a b) (f a) fun x b' => R x (b || b')) : Triple P (c >>= f) R := by
  intro F s x s' hs hp h
  obtain ⟨⟨a, t⟩, ht, hx⟩ := Option.bind_eq_some_iff.1 h
  obtain ⟨hst, b, hb, hq⟩ := hc F s a t hs hp ht
  obtain ⟨hs', b', hb', hr⟩ := hf a b F t x s' hst hq hx
  exact ⟨hs', b || b', by rw [hb', hb, Bool.or_assoc], hr⟩

theorem Triple.iSup {ι : Sort*} {P : ι → Assn V} (h : ∀ i, Triple (P i) c Q) : Triple (⨆ i, P i) c Q := by
  intro F s a s' hs hp hc
  obtain ⟨i, hi⟩ := (iSup_mul_apply P).1 hp
  exact h i F s a s' hs hi hc

theorem Triple.sup (h : Triple P c Q) (h' : Triple P' c Q) : Triple (P ⊔ P') c Q := by
  intro F s a s' hs hp hc
  rw [Quantale.sup_mul_distrib] at hp
  rcases hp with hp | hp
  · exact h F s a s' hs hp hc
  · exact h' F s a s' hs hp hc

theorem Triple.fact {q : Prop} (h : q → Triple P c Q) : Triple (fact q * P) c Q := by
  intro F s a s' hs hp hc
  rw [mul_assoc] at hp
  obtain ⟨hq, hp⟩ := fact_mul.1 hp
  exact h hq F s a s' hs hp hc

theorem Triple.bot : Triple ⊥ c Q := by
  intro F s a s' _ hp
  rw [Quantale.bot_mul] at hp
  exact hp.elim

theorem Triple.step {Q : α → Assn V} (hc : Triple P c (quiet Q)) (hf : ∀ a, Triple (Q a * F) (f a) R) :
    Triple (P * F) (c >>= f) R := by
  refine (hc.frame F).bind fun a b => ?_
  rw [quiet, mul_assoc]
  refine Triple.fact fun hb => ?_
  subst hb
  simpa using hf a

theorem Triple.seq {Q : α → Assn V} (hc : Triple P c (quiet Q)) (hf : ∀ a, Triple (Q a) (f a) R) :
    Triple P (c >>= f) R := by
  have h : Triple (P * 1) (c >>= f) R := hc.step fun a => by rw [mul_one]; exact hf a
  rwa [mul_one] at h

theorem Triple.bind_returns (hc : Triple P c Q) {s : Arena V} (hs : s.sound = true) (hp : (P * F) s.heap)
    (hret : (c s).isSome) (hf : ∀ a b t, t.sound = true → (Q a b * F) t.heap → (f a t).isSome) :
    ((c >>= f) s).isSome := by
  obtain ⟨⟨a, t⟩, ha⟩ := Option.isSome_iff_exists.1 hret
  obtain ⟨ht, b, -, hq⟩ := hc F s a t hs hp ha
  rw [bind_apply, ha]
  exact hf a b t ht hq

/-! ## Memory -/

theorem triple_malloc (v : V) :
    Triple 1 (malloc v) fun p b => if b = true then Assn.fact (p = 0) else cell p v := by
  intro F s p s' hs hp h
  rw [one_mul] at hp
  have hnull : ∀ as, Arena.mk s.heap as true s.sound = s' ∧ p = 0 →
      s'.sound = true ∧ ∃ b, s'.refused = (s.refused || b) ∧
        ((if b = true then Assn.fact (p = 0) else cell p v : Assn V) * F) s'.heap := by
    rintro as ⟨rfl, rfl⟩
    exact ⟨hs, true, (Bool.or_true _).symm, by rw [if_pos rfl]; exact fact_mul.2 ⟨rfl, hp⟩⟩
  unfold malloc at h
  cases has : s.answers with
  | nil =>
    simp only [has] at h
    obtain ⟨rfl, rfl⟩ := Prod.mk.inj (Option.some.inj h)
    exact hnull [] ⟨by rw [← has], rfl⟩
  | cons a as =>
    simp only [has] at h
    split_ifs at h with ha
    · obtain ⟨rfl, rfl⟩ := Prod.mk.inj (Option.some.inj h)
      exact hnull as ⟨rfl, rfl⟩
    · obtain ⟨rfl, rfl⟩ := Prod.mk.inj (Option.some.inj h)
      rw [not_or] at ha
      exact ⟨hs, false, (Bool.or_false _).symm, cell_mul_insert ha.1 ha.2 hp⟩

theorem triple_free (p : ℕ) (v : V) : Triple (cell p v) (free p) (quiet fun _ => 1) := by
  intro F s a s' hs hp h
  obtain ⟨hp0, -, hF⟩ := cell_mul.1 hp
  rw [free, if_neg hp0, if_pos (cell_mem hp)] at h
  obtain ⟨-, rfl⟩ := Prod.mk.inj (Option.some.inj h)
  refine ⟨hs, false, (Bool.or_false _).symm, ?_⟩
  rw [quiet, mul_one]
  exact fact_mul.2 ⟨rfl, hF⟩

theorem triple_free_null : Triple 1 (free 0 : HeapM V Unit) (quiet fun _ => 1) := by
  refine Triple.pure ?_
  rw [quiet, fact_true rfl, mul_one]

theorem triple_load (p : ℕ) (v : V) :
    Triple (cell p v) (load p) (quiet fun r => Assn.fact (r = some v) * cell p v) := by
  intro F s a s' hs hp h
  obtain ⟨-, hv, -⟩ := cell_mul.1 hp
  simp only [load, hv] at h
  obtain ⟨rfl, rfl⟩ := Prod.mk.inj (Option.some.inj h)
  refine ⟨hs, false, (Bool.or_false _).symm, ?_⟩
  rw [quiet, fact_true rfl, fact_true rfl, one_mul, one_mul]
  exact hp

theorem triple_store (p : ℕ) (v w : V) : Triple (cell p v) (store p w) (quiet fun _ => cell p w) := by
  intro F s a s' hs hp h
  rw [store, if_pos (cell_mem hp)] at h
  obtain ⟨-, rfl⟩ := Prod.mk.inj (Option.some.inj h)
  refine ⟨hs, false, (Bool.or_false _).symm, ?_⟩
  rw [quiet, fact_true rfl, one_mul]
  exact cell_mul_update hp

theorem Triple.cell_ne (h : p ≠ 0 → Triple (cell p v * F) c Q) : Triple (cell p v * F) c Q := by
  by_cases hp : p = 0
  · rw [hp, cell_zero, Quantale.bot_mul]
    exact Triple.bot
  · exact h hp

theorem Triple.load {f : Option V → HeapM V β} (h : Triple (cell p v * F) (f (some v)) R) :
    Triple (cell p v * F) (HeapM.load p >>= f) R := by
  refine (triple_load p v).step fun r => ?_
  rw [mul_assoc]
  refine Triple.fact fun hr => ?_
  rwa [hr]

/-- **An allocation**, which returns NULL or a new block. -/
theorem Triple.alloc {f : ℕ → HeapM V β} (hnull : Triple F (f 0) fun x _ => R x true)
    (hblock : ∀ p, p ≠ 0 → Triple (cell p v * F) (f p) R) : Triple F (malloc v >>= f) R := by
  have hmalloc := (triple_malloc v).frame F
  rw [one_mul] at hmalloc
  refine hmalloc.bind fun p b => ?_
  cases b with
  | true =>
    rw [if_pos rfl]
    refine Triple.fact fun hp => ?_
    simpa [hp] using hnull
  | false =>
    rw [if_neg Bool.false_ne_true]
    refine Triple.cell_ne fun hp => ?_
    simpa using hblock p hp

/-! ## Loops -/

section Loops

variable {body : α → HeapM V (α ⊕ β)}

/-- At most `n` rounds of a loop. -/
def HeapM.loop (body : α → HeapM V (α ⊕ β)) : ℕ → α → HeapM V β
  | 0, _ => fun _ => none
  | n + 1, a => do
    match ← body a with
    | .inl a' => HeapM.loop body n a'
    | .inr b => return b

/-- A program whose loops have a bound: one more than there are blocks in use at its start. -/
def HeapM.bounded (c : ℕ → HeapM V α) : HeapM V α := fun s => c (s.heap.keys.card + 1) s

theorem HeapM.bounded_apply (c : ℕ → HeapM V α) (s : Arena V) : HeapM.bounded c s = c (s.heap.keys.card + 1) s := rfl

theorem Triple.bounded {c : ℕ → HeapM V α} (h : ∀ n, Triple P (c n) Q) : Triple P (HeapM.bounded c) Q :=
  fun F s a s' hs hp hc => h _ F s a s' hs hp hc

/-- **The rule of a loop.** `I` is kept by a round, or the loop is left with `J`. -/
theorem Triple.loop {I : α → Bool → Assn V} {J : β → Bool → Assn V}
    (h : ∀ a b, Triple (I a b) (body a) fun x b' => Sum.elim (I · (b || b')) (J · (b || b')) x) (n : ℕ) (a : α)
    (b : Bool) : Triple (I a b) (HeapM.loop body n a) fun y b' => J y (b || b') := by
  induction n generalizing a b with
  | zero => exact fun F s y s' _ _ hx => by cases hx
  | succ n ih =>
    refine (h a b).bind fun x b' => ?_
    cases x with
    | inl a' => exact (ih a' (b || b')).post fun y b'' => by rw [Bool.or_assoc]
    | inr y => exact Triple.pure (by rw [Bool.or_false]; exact le_rfl)

theorem HeapM.loop_returns {I : ℕ → α → Assn V} (hret : ∀ a s, (body a s).isSome)
    (h : ∀ n a, Triple (I n a) (body a) fun x _ => Sum.elim (fun a' => ⨆ m, Assn.fact (m < n) * I m a') (fun _ => ⊤) x)
    {n k : ℕ} (hk : n < k) {a : α} {s : Arena V} (hs : s.sound = true) (hI : (I n a * F) s.heap) :
    (HeapM.loop body k a s).isSome := by
  induction k generalizing n a s with
  | zero => omega
  | succ k ih =>
    obtain ⟨⟨x, s'⟩, hx⟩ := Option.isSome_iff_exists.1 (hret a s)
    rw [HeapM.loop, bind_apply, hx, Option.bind_some]
    cases x with
    | inr y => rfl
    | inl a' =>
      obtain ⟨hs', b, -, hI'⟩ := h n a F s (.inl a') s' hs hI hx
      obtain ⟨m, hm⟩ := (iSup_mul_apply _).1 hI'
      rw [mul_assoc] at hm
      obtain ⟨hlt, hm⟩ := fact_mul.1 hm
      exact ih (by omega) hs' hm

end Loops

/-! ## Linked lists -/

section Lists

variable {ρ : Type}

/-- The nodes of a linked list from `p` up to `q`. A node has a pointer to its element, which `own` says the
list owns, and one to the next node. -/
def segment (node : ℕ → ℕ → V) (own : ℕ → ρ → Assn V) : ℕ → ℕ → List ρ → Assn V
  | p, q, [] => Assn.fact (p = q)
  | p, q, x :: xs => ⨆ d, ⨆ next, cell p (node d next) * (own d x * segment node own next q xs)

/-- A linked list that ends with NULL. -/
def chain (node : ℕ → ℕ → V) (own : ℕ → ρ → Assn V) (p : ℕ) (xs : List ρ) : Assn V := segment node own p 0 xs

variable {node : ℕ → ℕ → V} {own : ℕ → ρ → Assn V} {q r d : ℕ} {x : ρ} {xs : List ρ}

theorem segment_nil : segment node own p p [] = 1 := fact_true rfl

theorem segment_cons : cell p (node d q) * (own d x * segment node own q r xs) ≤ segment node own p r (x :: xs) :=
  le_iSup_of_le d (le_iSup_of_le q le_rfl)

/-- **A node behind the last one.** -/
theorem segment_snoc : segment node own p q xs * (cell q (node d r) * own d x) ≤ segment node own p r (xs ++ [x]) := by
  induction xs generalizing p with
  | nil =>
    intro h hh
    obtain ⟨rfl, hh⟩ := fact_mul.1 hh
    have hlast : cell p (node d r) * (own d x * segment node own r r []) ≤ segment node own p r [x] := segment_cons
    rw [segment_nil, mul_one] at hlast
    exact hlast h hh
  | cons y ys ih =>
    rw [List.cons_append, segment]
    simp only [Quantale.iSup_mul_distrib]
    refine iSup_le fun e => iSup_le fun next => ?_
    rw [mul_assoc, mul_assoc]
    exact (mul_le_mul_right (mul_le_mul_right ih _) _).trans segment_cons

theorem length_le_card {h : Heap V} (hh : (segment node own p q xs * F) h) : xs.length ≤ h.keys.card := by
  induction xs generalizing p h F with
  | nil => exact Nat.zero_le _
  | cons x xs ih =>
    rw [segment] at hh
    obtain ⟨d, hh⟩ := (iSup_mul_apply _).1 hh
    obtain ⟨next, hh⟩ := (iSup_mul_apply _).1 hh
    have hmem : p ∈ h.keys := by
      rw [mul_assoc] at hh
      exact Finmap.mem_keys.2 (cell_mem hh)
    have hcomm : cell p (node d next) * (own d x * segment node own next q xs) * F =
        cell p (node d next) * (segment node own next q xs * (own d x * F)) := by ac_rfl
    rw [hcomm] at hh
    have hle := ih (cell_mul.1 hh).2.2
    have hcard : (h.erase p).keys.card = h.keys.card - 1 := by
      rw [Finmap.keys_erase, Finset.card_erase_of_mem hmem]
    have hpos := Finset.card_pos.2 ⟨p, hmem⟩
    rw [List.length_cons]
    omega

theorem segment_zero : segment node own 0 q xs * (cell q v * F) ≤ ⊥ := by
  cases xs with
  | nil =>
    intro h hh
    obtain ⟨rfl, hh'⟩ := fact_mul.1 hh
    rw [cell_zero, Quantale.bot_mul] at hh'
    exact hh'
  | cons x xs => simp [segment]

theorem Triple.chain_cons
    (h : ∀ d q, Triple (cell p (node d q) * (own d x * chain node own q xs) * F) c Q) :
    Triple (chain node own p (x :: xs) * F) c Q := by
  rw [chain, segment]
  simp only [Quantale.iSup_mul_distrib]
  exact Triple.iSup fun d => Triple.iSup fun q => h d q

end Lists

end Lib
