import Dudlc.Closed
import Dudlc.Events
import Dudlc.TagLine

/-!
# What a client has to release

A client asks for records and lists, takes records out of the lists, and releases both, in any order.

* `Owner`, `ownerStep`: a client with its memory, and what it holds.
* `Accounted`, `ownerStep_accounted`: the account of all blocks in use.
* **`client_memory`**: every run is sound, and nothing is lost.
* `loadNumber`, `loadText`, `loadSub`: the fields of a record.
* `eachRow`, `overRows`: loops over the records of a reply; `listRows`, `iTracktaglistHeap`, **`listing_memory`**.
-/

namespace Dudlc

open Lib Lib.HeapM Lib.Assn

variable {k : RowType} {i d : ℕ} {it : DucIter k.Record}

/-! ## What a client holds -/

/-- What a client has to release. -/
inductive Held
  | row (k : RowType) (p : ℕ)
  | iter (k : RowType) (i : ℕ)
  /-- An iterator whose current record the client has taken. -/
  | taken (k : RowType) (i : ℕ)
  deriving DecidableEq

/-- A client with its memory and what it holds. -/
structure Owner where
  world : World
  arena : Arena Cell
  held : List Held

/-- What a client does. It uses what it holds at place `n`. With `take` it keeps the record that it is shown. -/
inductive OwnerOp
  | open
  | close
  | poll
  /-- A broadcast that a command or `duc_poll` dispatches. -/
  | bcast (n : ℕ) (m : Block UInt8 n) (line : ℕ)
  /-- A command without a record in its result. -/
  | ask (fmt : Cstr) (ap : List Arg)
  | get (k : RowType) (fmt : Cstr) (ap : List Arg)
  | list (k : RowType) (cmd : Cstr) (ap : List Arg)
  | cur (n : ℕ) (take : Bool)
  | next (n : ℕ) (take : Bool)
  | done (n : ℕ)
  | free (n : ℕ)

/-- What the client holds of an iterator that shows it the record at `p`. -/
def taking (k : RowType) (i : ℕ) (take : Bool) (p : ℕ) : List Held :=
  if take = true ∧ p ≠ 0 then [.row k p, .taken k i] else [.iter k i]

/-- One step of a client. It goes on to the next record when it has taken the current one, and does not end a list
of which it has taken the current record. -/
def ownerStep (ev : Handlers) (s : Owner) : OwnerOp → Option Owner
  | .open => (ducOpen ev s.world).map fun r => { s with world := r.2 }
  | .close => (ducClose ev s.world).map fun w => { s with world := w }
  | .poll => (ducPoll ev s.world).map fun w => { s with world := w }
  | .bcast n m line => (ducBcastHeap n m line s.arena).map fun r => { s with arena := r.2 }
  | .ask fmt ap => (ducCmd ev s.world fmt ap).map fun r => { s with world := r.2 }
  | .get k fmt ap =>
    (ducCmdConvHeap ev k s.world fmt ap s.arena).map fun r =>
      ⟨r.1.2, r.2, if r.1.1 = 0 then s.held else .row k r.1.1 :: s.held⟩
  | .list k cmd ap =>
    (ducItNewvHeap ev k s.world cmd ap s.arena).map fun r =>
      ⟨r.1.2, r.2, if r.1.1 = 0 then s.held else .iter k r.1.1 :: s.held⟩
  | .cur n take =>
    match s.held[n]? with
    | some (.iter k i) =>
      (ducItCurHeap i s.arena).map fun r => { s with arena := r.2, held := taking k i take r.1 ++ s.held.eraseIdx n }
    | _ => none
  | .next n take =>
    match s.held[n]? with
    | some (.taken k i) =>
      (ducItNextHeap i s.arena).map fun r => { s with arena := r.2, held := taking k i take r.1 ++ s.held.eraseIdx n }
    | _ => none
  | .done n =>
    match s.held[n]? with
    | some (.iter _ i) => (ducItDoneHeap i s.arena).map fun r => { s with arena := r.2, held := s.held.eraseIdx n }
    | _ => none
  | .free n =>
    match s.held[n]? with
    | some (.row k p) => (k.free p s.arena).map fun r => { s with arena := r.2, held := s.held.eraseIdx n }
    | _ => none

/-- The steps that release one thing. -/
def Held.release : Held → List OwnerOp
  | .row _ _ => [.free 0]
  | .iter _ _ => [.done 0]
  | .taken _ _ => [.next 0 false, .done 0]

/-- The blocks of one thing. -/
def Held.At : Held → Assn Cell
  | .row k p => ⨆ a, k.At a p
  | .iter k i => ⨆ it, iterAt k i it
  | .taken k i => ⨆ d, ⨆ it, takenAt k i d it

/-- The blocks of all that a client holds. -/
def heldAt (held : List Held) : Assn Cell := (held.map Held.At).prod

theorem heldAt_cons (x : Held) (held : List Held) : heldAt (x :: held) = x.At * heldAt held := by
  simp [heldAt]

theorem heldAt_append (xs ys : List Held) : heldAt (xs ++ ys) = heldAt xs * heldAt ys := by
  simp [heldAt]

theorem heldAt_erase {held : List Held} {n : ℕ} {x : Held} (h : held[n]? = some x) :
    heldAt held = x.At * heldAt (held.eraseIdx n) := by
  obtain ⟨hn, rfl⟩ := List.getElem?_eq_some_iff.1 h
  rw [← heldAt_cons]
  exact (((List.getElem_cons_eraseIdx_perm hn).map Held.At).prod_eq).symm

/-- What a client holds is in use, beside the blocks from before, and nothing else is. -/
structure Accounted (h₀ : Heap Cell) (s : Owner) : Prop where
  sound : s.arena.sound = true
  blocks : (heldAt s.held * exactly h₀ : Assn Cell) s.arena.heap

theorem accounted_of_triple {α : Type} {c : HeapM Cell α} {P : Assn Cell} {R : α → Bool → Assn Cell}
    {h₀ : Heap Cell} {w : World} {σ τ : Arena Cell} {a : α} {held held' rest : List Held} (hc : Triple P c R)
    (ho : Accounted h₀ ⟨w, σ, held⟩) (hP : heldAt held ≤ P * heldAt rest) (hR : ∀ b, R a b ≤ heldAt held')
    (h : c σ = some (a, τ)) (w' : World) :
    Accounted h₀ ⟨w', τ, held' ++ rest⟩ := by
  have hpre := mul_le_mul_left hP (exactly h₀) _ ho.blocks
  rw [mul_assoc] at hpre
  obtain ⟨hτ, b, -, hpost⟩ := hc _ σ a τ ho.sound hpre h
  refine ⟨hτ, ?_⟩
  rw [heldAt_append, mul_assoc]
  exact mul_le_mul_left (hR b) _ _ hpost

theorem curPost_le (k : RowType) (i : ℕ) (it : DucIter k.Record) (take : Bool) (p : ℕ) (b : Bool) :
    quiet (curPost k i it) p b ≤ heldAt (taking k i take p) := by
  refine (mul_le_of_le_one_left' fact_le_one).trans ?_
  have hstay : ∀ it' : DucIter k.Record, iterAt k i it' ≤ heldAt [.iter k i] := fun it' => by
    rw [heldAt_cons, heldAt, List.map_nil, List.prod_nil, mul_one]
    exact le_iSup_of_le it' le_rfl
  obtain ⟨_ | ⟨x, rest⟩⟩ := it
  · refine fun h hh => ?_
    obtain ⟨hp, hh'⟩ := fact_mul.1 hh
    rw [taking, if_neg fun hne => hne.2 hp]
    exact hstay _ _ hh'
  · rw [taking]
    dsimp only [curPost]
    split_ifs with htake
    · cases x with
      | none =>
        refine fun h hh => absurd (fact_mul.1 hh).1 htake.2
      | some a =>
        rw [heldAt_cons, heldAt_cons, heldAt, List.map_nil, List.prod_nil, mul_one]
        exact mul_le_mul' (le_iSup_of_le a le_rfl) (le_iSup_of_le p (le_iSup_of_le ⟨rest⟩ le_rfl))
    · exact (rowAt_takenAt x).trans (hstay _)

section Steps

variable {ev : Handlers} {h₀ : Heap Cell} {s s' : Owner} {op : OwnerOp} {ops : List OwnerOp}

theorem heldAt_single (x : Held) : heldAt [x] = x.At := by simp [heldAt]

/-- A new thing, or NULL. -/
def newHeld (p : ℕ) (x : Held) : List Held := if p = 0 then [] else [x]

theorem newHeld_append (p : ℕ) (x : Held) (held : List Held) :
    newHeld p x ++ held = if p = 0 then held else x :: held := by
  unfold newHeld
  split_ifs <;> rfl

theorem rowAt_held (k : RowType) (p : ℕ) (x : Option k.Record) : rowAt k p x ≤ heldAt (newHeld p (.row k p)) := by
  unfold newHeld
  cases x with
  | none => exact fact_le fun hp => by simp [hp, heldAt]
  | some a =>
    split_ifs with hp
    · rw [rowAt, hp, k.allocates.ne_null]
      exact bot_le
    · rw [heldAt_single]
      exact le_iSup_of_le a le_rfl

theorem iterAt_held (k : RowType) (i : ℕ) (it : DucIter k.Record) : iterAt k i it ≤ heldAt (newHeld i (.iter k i)) := by
  unfold newHeld
  split_ifs with hi
  · simp [iterAt, hi]
  · rw [heldAt_single]
    exact le_iSup_of_le it le_rfl

theorem newvPost_held {k : RowType} {w : World} {cmd : Cstr} {ap : List Arg} (x : ℕ × World) (b : Bool) :
    newvPost ev k w cmd ap x b ≤ heldAt (newHeld x.1 (.iter k x.1)) := by
  refine sup_le (fact_le fun hp => by simp [newHeld, hp, heldAt]) (iSup_le fun it => ?_)
  exact (mul_le_of_le_one_left' fact_le_one).trans (iterAt_held k x.1 it)

theorem quiet_le_nil {α : Type} (a : α) (b : Bool) : quiet (fun _ : α => (1 : Assn Cell)) a b ≤ heldAt [] :=
  mul_le_of_le_one_left' fact_le_one

/-- **A step keeps the account.** -/
theorem ownerStep_accounted (ho : Accounted h₀ s) (h : ownerStep ev s op = some s') : Accounted h₀ s' := by
  obtain ⟨w, σ, held⟩ := s
  have hall : heldAt held ≤ 1 * heldAt held := by rw [one_mul]
  cases op with
  | «open» | close | poll | ask fmt ap =>
    obtain ⟨r, -, rfl⟩ := Option.map_eq_some_iff.1 h
    exact ⟨ho.sound, ho.blocks⟩
  | bcast n m line =>
    obtain ⟨⟨_, τ⟩, hr, rfl⟩ := Option.map_eq_some_iff.1 h
    have hnil : (1 : Assn Cell) ≤ heldAt [] := by simp [heldAt]
    exact accounted_of_triple restores_bcast ho hall (fun _ => hnil) hr w
  | get k fmt ap =>
    obtain ⟨⟨⟨p, w'⟩, τ⟩, hr, rfl⟩ := Option.map_eq_some_iff.1 h
    dsimp only
    rw [← newHeld_append]
    exact accounted_of_triple (triple_conv ev k w fmt ap) ho hall (fun b => iSup_le fun a =>
      (mul_le_of_le_one_left' fact_le_one).trans (rowAt_held k p a)) hr w'
  | list k cmd ap =>
    obtain ⟨⟨⟨i, w'⟩, τ⟩, hr, rfl⟩ := Option.map_eq_some_iff.1 h
    dsimp only
    rw [← newHeld_append]
    exact accounted_of_triple (triple_newv ev k w cmd ap) ho hall (fun b => newvPost_held (i, w') b) hr w'
  | cur n take =>
    simp only [ownerStep] at h
    split at h
    · next k i hn =>
      obtain ⟨⟨p, τ⟩, hr, rfl⟩ := Option.map_eq_some_iff.1 h
      have hc : Triple (Held.At (.iter k i)) (ducItCurHeap i) fun p _ => heldAt (taking k i take p) :=
        Triple.iSup fun it => triple_cur.post fun p b => curPost_le k i it take p b
      exact accounted_of_triple hc ho (heldAt_erase hn).le (fun _ => le_rfl) hr w
    · cases h
  | next n take =>
    simp only [ownerStep] at h
    split at h
    · next k i hn =>
      obtain ⟨⟨p, τ⟩, hr, rfl⟩ := Option.map_eq_some_iff.1 h
      have hc : Triple (Held.At (.taken k i)) (ducItNextHeap i) fun p _ => heldAt (taking k i take p) :=
        Triple.iSup fun d => Triple.iSup fun it => triple_next.post fun p b => curPost_le k i it take p b
      exact accounted_of_triple hc ho (heldAt_erase hn).le (fun _ => le_rfl) hr w
    · cases h
  | done n =>
    simp only [ownerStep] at h
    split at h
    · next k i hn =>
      obtain ⟨⟨_, τ⟩, hr, rfl⟩ := Option.map_eq_some_iff.1 h
      have hc : Triple (Held.At (.iter k i)) (ducItDoneHeap i) (quiet fun _ => 1) := Triple.iSup fun it => triple_done
      exact accounted_of_triple hc ho (heldAt_erase hn).le (quiet_le_nil ()) hr w
    · cases h
  | free n =>
    simp only [ownerStep] at h
    split at h
    · next k p hn =>
      obtain ⟨⟨_, τ⟩, hr, rfl⟩ := Option.map_eq_some_iff.1 h
      have hc : Triple (Held.At (.row k p)) (k.free p) (quiet fun _ => 1) :=
        Triple.iSup fun a => k.allocates.frees a p
      exact accounted_of_triple hc ho (heldAt_erase hn).le (quiet_le_nil ()) hr w
    · cases h

theorem cur_returns (i : ℕ) (σ : Arena Cell) : (ducItCurHeap i σ).isSome := by
  unfold ducItCurHeap
  split_ifs
  · rfl
  refine bind_returns (load_returns i σ) fun v σ => ?_
  rcases v with _ | _ | _ | _ | ⟨list, _⟩ <;> try rfl
  dsimp only
  split_ifs
  · rfl
  refine bind_returns (load_returns list σ) fun v σ => ?_
  rcases v with _ | _ | _ | _ | _ <;> rfl

theorem next_returns (i : ℕ) (σ : Arena Cell) : (ducItNextHeap i σ).isSome := by
  unfold ducItNextHeap
  split_ifs
  · rfl
  refine bind_returns (load_returns i σ) fun v σ => ?_
  rcases v with _ | _ | _ | _ | ⟨list, _⟩ <;> try rfl
  dsimp only
  split_ifs
  · rfl
  refine bind_returns (load_returns list σ) fun v σ => ?_
  rcases v with _ | _ | _ | ⟨_, next⟩ | _ <;> try rfl
  refine bind_returns (store_returns i _ σ) fun _ σ => bind_returns (free_returns list σ) fun _ σ => cur_returns i σ

theorem release_first (ev : Handlers) {x : Held} {rest : List Held} (ho : Accounted h₀ s) (hs : s.held = x :: rest) :
    ∃ s', runs (ownerStep ev) s x.release = some s' ∧ s'.held = rest ∧ Accounted h₀ s' := by
  have hdone : ∀ {t : Owner} {k i}, Accounted h₀ t → t.held = .iter k i :: rest →
      ∃ s', runs (ownerStep ev) t [.done 0] = some s' ∧ s'.held = rest ∧ Accounted h₀ s' := by
    intro t k i ht hheld
    have hblocks := ht.blocks
    rw [hheld, heldAt_cons, mul_assoc, Held.At] at hblocks
    obtain ⟨it, hit⟩ := (iSup_mul_apply _).1 hblocks
    obtain ⟨⟨_, τ⟩, hτ⟩ := Option.isSome_iff_exists.1 (done_returns ht.sound hit)
    have hstep : ownerStep ev t (.done 0) = some ⟨t.world, τ, rest⟩ := by simp [ownerStep, hheld, hτ]
    exact ⟨_, by rw [runs_cons, hstep]; rfl, rfl, ownerStep_accounted ht hstep⟩
  cases x with
  | row k p =>
    obtain ⟨⟨_, τ⟩, hτ⟩ := Option.isSome_iff_exists.1 (k.allocates.ends p s.arena)
    have hstep : ownerStep ev s (.free 0) = some ⟨s.world, τ, rest⟩ := by simp [ownerStep, hs, hτ]
    exact ⟨_, by rw [Held.release, runs_cons, hstep]; rfl, rfl, ownerStep_accounted ho hstep⟩
  | iter k i => exact hdone ho hs
  | taken k i =>
    obtain ⟨⟨p, τ⟩, hτ⟩ := Option.isSome_iff_exists.1 (next_returns i s.arena)
    have hstep : ownerStep ev s (.next 0 false) = some ⟨s.world, τ, .iter k i :: rest⟩ := by
      simp [ownerStep, hs, hτ, taking]
    obtain ⟨s', hrun, hheld, ho'⟩ := hdone (ownerStep_accounted ho hstep) rfl
    exact ⟨s', by rw [Held.release, runs_cons, hstep]; exact hrun, hheld, ho'⟩

/-- **Everything can be released.** -/
theorem release_all (ev : Handlers) (ho : Accounted h₀ s) :
    ∃ s', runs (ownerStep ev) s (s.held.flatMap Held.release) = some s' ∧ s'.held = [] ∧ Accounted h₀ s' := by
  generalize hheld : s.held = held
  induction held generalizing s with
  | nil => exact ⟨s, rfl, hheld, ho⟩
  | cons x rest ih =>
    obtain ⟨t, ht, hrest, hot⟩ := release_first ev ho hheld
    obtain ⟨s', hs', hnil, hos'⟩ := ih hot hrest
    refine ⟨s', ?_, hnil, hos'⟩
    rw [List.flatMap_cons, runs_append, ht]
    exact hs'

/-- **The memory of a client.** Whatever the server sends, whatever `malloc` returns and in whatever order a client
asks, walks and releases: every access and every release is of a block in use, and the blocks in use are those from
before and those of what the client holds. When it releases what it holds, the memory is as before. -/
theorem client_memory (ev : Handlers) (w : World) {σ : Arena Cell} (hσ : σ.sound = true)
    (h : runs (ownerStep ev) ⟨w, σ, []⟩ ops = some s) :
    s.arena.sound = true ∧ (heldAt s.held * exactly σ.heap : Assn Cell) s.arena.heap ∧
      ∃ s', runs (ownerStep ev) s (s.held.flatMap Held.release) = some s' ∧ s'.held = [] ∧ s'.arena.sound = true ∧
        s'.arena.heap = σ.heap := by
  have hstart : Accounted σ.heap ⟨w, σ, []⟩ := ⟨hσ, by rw [heldAt, List.map_nil, List.prod_nil, one_mul]; rfl⟩
  have ho := runs_keep (I := Accounted σ.heap) (fun _ _ _ hI hs => ownerStep_accounted hI hs) hstart h
  obtain ⟨s', hs', hnil, ho'⟩ := release_all ev ho
  have hblocks := ho'.blocks
  rw [hnil, heldAt, List.map_nil, List.prod_nil, one_mul] at hblocks
  exact ⟨ho.sound, ho.blocks, s', hs', hnil, ho'.sound, hblocks⟩

/-- An empty memory in which `malloc` returns NULL after 20 calls. -/
def smallArena : Arena Cell := ⟨∅, List.range' 1 20, false, true⟩

/-- A server with two artists. -/
def artistServer : Dial :=
  .made 3 [some (Cstr.lit "220 dudld 1 2\n").bytes, some (Cstr.lit "250-1\tone\n250 2\ttwo\n").bytes] []

/-- The theorem where a client takes both artists and has released the first one. -/
theorem client_memory_artists : ∃ s, runs (ownerStep .passive) ⟨newWorld [artistServer], smallArena, []⟩
      [.list .artist (.lit "artistlist") [], .cur 0 true, .free 0, .next 0 true] = some s ∧
    s.held = [.row .artist 6, .taken .artist 1] ∧ s.arena.sound = true ∧
    ∃ s', runs (ownerStep .passive) s (s.held.flatMap Held.release) = some s' ∧ s'.arena.heap = ∅ := by
  have hrun : ((runs (ownerStep .passive) ⟨newWorld [artistServer], smallArena, []⟩
      [.list .artist (.lit "artistlist") [], .cur 0 true, .free 0, .next 0 true]).map Owner.held) =
      some [.row .artist 6, .taken .artist 1] := by
    decide +kernel
  obtain ⟨s, hs, hheld⟩ := Option.map_eq_some_iff.1 hrun
  obtain ⟨hsound, -, s', hs', -, -, hheap⟩ := client_memory .passive (newWorld [artistServer]) rfl hs
  exact ⟨s, hs, hheld, hsound, s', hs', hheap⟩

end Steps

/-! ## Fields of records -/

/-- A field of the struct at `p`. -/
def loadSlot (p n : ℕ) : HeapM Cell Slot := do
  match ← load p with
  | some (.struct vs) =>
    match vs[n]? with
    | some v => return v
    | none => crash (.num 0)
  | _ => crash (.num 0)

def slotNumber : Slot → HeapM Cell ℤ
  | .num z => pure z
  | .ptr _ => crash 0

def slotText : Slot → HeapM Cell (List UInt8)
  | .ptr p => do
    match ← load p with
    | some (.string t) => return t
    | _ => crash []
  | .num _ => crash []

/-- `tr->albumnr` and its kind. -/
def loadNumber (p n : ℕ) : HeapM Cell ℤ := do slotNumber (← loadSlot p n)

/-- `ta->name` and its kind. -/
def loadText (p n : ℕ) : HeapM Cell (List UInt8) := do slotText (← loadSlot p n)

def slotSub (m : ℕ) : Slot → HeapM Cell ℤ
  | .ptr p => loadNumber p m
  | .num _ => crash 0

/-- `tr->album->id` and its kind. -/
def loadSub (p n m : ℕ) : HeapM Cell ℤ := do slotSub m (← loadSlot p n)

theorem parts_at {Ps : List Part} {n : ℕ} (hn : n < Ps.length) (vs : List Slot) :
    parts Ps vs = ⊥ ∨ ∃ v Q, vs[n]? = some v ∧ parts Ps vs = Ps[n] v * Q := by
  induction Ps generalizing vs n with
  | nil => exact absurd hn (Nat.not_lt_zero n)
  | cons P Ps ih =>
    cases vs with
    | nil => exact Or.inl rfl
    | cons v vs =>
      cases n with
      | zero => exact Or.inr ⟨v, parts Ps vs, rfl, rfl⟩
      | succ n =>
        rcases ih (Nat.lt_of_succ_lt_succ hn) vs with h | ⟨u, Q, hu, h⟩
        · exact Or.inl (by rw [parts, h, Quantale.mul_bot])
        · exact Or.inr ⟨u, P v * Q, hu, by rw [parts, h, mul_left_comm]; rfl⟩

theorem triple_loadSlot {p n : ℕ} {v : Slot} {vs : List Slot} {F : Assn Cell} (hv : vs[n]? = some v) :
    Triple (cell p (.struct vs) * F) (loadSlot p n) (quiet fun u => fact (u = v) * (cell p (.struct vs) * F)) := by
  refine Triple.load ?_
  dsimp only
  rw [hv]
  refine Triple.pure ?_
  rw [quiet, fact_true rfl, fact_true rfl, one_mul, one_mul]

theorem triple_field {γ : Type} {p n : ℕ} {c : γ} {Ps : List Part} (hn : n < Ps.length) {g : Slot → HeapM Cell γ}
    (hg : ∀ v, Triple (Ps[n] v) (g v) (quiet fun a => fact (a = c) * Ps[n] v)) :
    Triple (structAt Ps p) (loadSlot p n >>= g) (quiet fun a => fact (a = c) * structAt Ps p) := by
  refine Triple.iSup fun vs => ?_
  rcases parts_at hn vs with h | ⟨v, Q, hv, h⟩
  · rw [h, Quantale.mul_bot]
    exact Triple.bot
  refine (triple_loadSlot hv).seq fun u => Triple.fact fun hu => ?_
  have hcomm : cell p (.struct vs) * parts Ps vs = Ps[n] v * (cell p (.struct vs) * Q) := by rw [h, mul_left_comm]
  rw [hu, hcomm]
  refine ((hg v).frame _).post fun a b => ?_
  calc quiet (fun a => fact (a = c) * Ps[n] v) a b * (cell p (.struct vs) * Q)
      = fact (b = false) * (fact (a = c) * (Ps[n] v * (cell p (.struct vs) * Q))) := by
        rw [quiet]
        ac_rfl
    _ ≤ quiet (fun a => fact (a = c) * structAt Ps p) a b := by
      have hput : cell p (.struct vs) * parts Ps vs ≤ structAt Ps p := le_iSup_of_le vs le_rfl
      rw [← hcomm]
      exact mul_le_mul_right (mul_le_mul_right hput _) _

theorem triple_number (z : ℤ) (v : Slot) :
    Triple (numberAt z v) (slotNumber v) (quiet fun a => fact (a = z) * numberAt z v) := by
  rw [numberAt, ← mul_one (fact (v = .num z))]
  refine Triple.fact fun hv => ?_
  rw [hv]
  refine Triple.pure ?_
  rw [quiet, fact_true rfl, fact_true rfl, fact_true rfl, one_mul, one_mul, one_mul]

theorem triple_text (t : List UInt8) (v : Slot) :
    Triple (textAt t v) (slotText v) (quiet fun a => fact (a = t) * textAt t v) := by
  refine Triple.iSup fun p => Triple.fact fun hv => ?_
  rw [hv, ← mul_one (cell p _)]
  refine Triple.load (Triple.pure ?_)
  rw [quiet, fact_true rfl, fact_true rfl, one_mul, one_mul, mul_one]
  refine le_iSup_of_le p ?_
  rw [fact_true rfl, one_mul]

theorem triple_loadNumber {Ps : List Part} {p n : ℕ} {z : ℤ} (hn : n < Ps.length) (hz : Ps[n] = numberAt z) :
    Triple (structAt Ps p) (loadNumber p n) (quiet fun a => fact (a = z) * structAt Ps p) :=
  triple_field hn (by rw [hz]; exact triple_number z)

theorem triple_loadText {Ps : List Part} {p n : ℕ} {t : List UInt8} (hn : n < Ps.length) (ht : Ps[n] = textAt t) :
    Triple (structAt Ps p) (loadText p n) (quiet fun a => fact (a = t) * structAt Ps p) :=
  triple_field hn (by rw [ht]; exact triple_text t)

theorem triple_loadSub {Ps Qs : List Part} {p n m : ℕ} {z : ℤ} (hn : n < Ps.length) (hs : Ps[n] = subAt (structAt Qs))
    (hm : m < Qs.length) (hz : Qs[m] = numberAt z) :
    Triple (structAt Ps p) (loadSub p n m) (quiet fun a => fact (a = z) * structAt Ps p) := by
  refine triple_field hn fun v => ?_
  rw [hs]
  refine Triple.iSup fun q => Triple.fact fun hv => ?_
  rw [hv]
  have hput : structAt Qs q ≤ subAt (structAt Qs) (.ptr q) := by
    refine le_iSup_of_le q ?_
    rw [fact_true rfl, one_mul]
  exact (triple_loadNumber hm hz).post fun a b => mul_le_mul_right (mul_le_mul_right hput _) _

/-! ## Commands that list records -/

/-- A round of a loop over an iterator that shows a record. -/
def eachRowBody {β : Type} (i : ℕ) (use : β → ℕ → HeapM Cell β) (x : β × ℕ) : HeapM Cell (β × ℕ ⊕ β) :=
  if x.2 = 0 then pure (.inr x.1)
  else do
    let b ← use x.1 x.2
    return .inl (b, ← ducItNextHeap i)

/-- `for( x = duc_it_cur(it); x; x = duc_it_next(it))` -/
def eachRow {β : Type} (i : ℕ) (use : β → ℕ → HeapM Cell β) (b : β) : HeapM Cell β :=
  HeapM.bounded fun n => do
    let p ← ducItCurHeap i
    HeapM.loop (eachRowBody i use) n (b, p)

/-- A command over the records of a reply. -/
def overRows {β : Type} (ev : Handlers) (k : RowType) (use : β → ℕ → HeapM Cell β) (b : β) (w : World) (cmd : Cstr)
    (ap : List Arg) : HeapM Cell (Option β × World) := do
  let (i, w) ← ducItNewvHeap ev k w cmd ap
  if i = 0 then return (none, w)
  else
    let b ← eachRow i use b
    ducItDoneHeap i
    return (some b, w)

/-- `dmsg_dump_artists` and its kind release each record that they have shown. -/
def listRows (ev : Handlers) (k : RowType) (w : World) (cmd : Cstr) (ap : List Arg) : HeapM Cell (ℤ × World) := do
  let (o, w) ← overRows ev k (fun _ => k.free) () w cmd ap
  return (o.elim (-1) fun _ => 0, w)

/-- The loop in `i_tracktaglist`: the buffer and `arg`. The record is not released. -/
def tagRow (x : Block UInt8 4096 × ℕ) (p : ℕ) : HeapM Cell (Block UInt8 4096 × ℕ) := do
  let ta ← loadText p 1
  let buf ← look (if x.2 ≠ 0 then strcat x.1 (.lit ",") else some x.1)
  let buf ← look (strcat buf (.ofBytes ta))
  return (buf, x.2 + 1)

/-- `i_tracktaglist`: the return value and the line that is shown. -/
def iTracktaglistHeap (c : Clib) (ev : Handlers) (w : World) (id : ℤ) :
    HeapM Cell ((ℤ × Option (List UInt8)) × World) := do
  let (tr, w) ← ducCmdConvHeap ev .track w (.lit "trackget %d") [.int id]
  if tr = 0 then return ((-1, none), w)
  else
    let albumid ← loadSub tr 5 0
    let albumnr ← loadNumber tr 1
    let buf ← look (do strcat (.fill 4096 0) (← dfmtTrackid c albumid albumnr))
    let buf ← look (strcat buf (.lit ": "))
    ducTrackFree tr
    let (o, w) ← overRows ev .tag tagRow (buf, 0) w (.lit "tracktaglist %d") [.int id]
    match o with
    | none => return ((-1, none), w)
    | some (buf, _) => return ((0, some (← look (cstr buf 0))), w)

/-- What is done with a record: it is kept, or released. -/
def Uses {β : Type} (k : RowType) (keep : Bool) (use : β → ℕ → HeapM Cell β) : Prop :=
  ∀ b a p, Triple (k.At a p) (use b p) (quiet fun _ => if keep then k.At a p else 1)

theorem uses_free (k : RowType) : Uses k false fun (_ : Unit) => k.free := fun _ => k.allocates.frees

theorem uses_tagRow : Uses .tag true tagRow := by
  intro x ta p
  refine (triple_loadText (t := ta.name) (show 1 < 3 by decide) rfl).seq fun t => Triple.fact fun _ => ?_
  refine triple_look fun buf _ => triple_look fun buf _ => Triple.pure ?_
  rw [quiet, fact_true rfl, one_mul]
  exact le_rfl

/-- Records that nobody holds. -/
def lostAt (k : RowType) (rows : List k.Record) : Assn Cell := (rows.map fun a => ⨆ p, k.At a p).prod

/-- The records of a walk that are still in use. -/
def keptRows {α : Type} (keep : Bool) (rows : List α) : List α := if keep then rows else []

section Rounds

variable {β : Type} {use : β → ℕ → HeapM Cell β} {keep : Bool}

/-- A loop over an iterator of `n` nodes, at the record at `p`, behind the records `shown`. -/
def eachPre (k : RowType) (i : ℕ) (keep : Bool) (rows : List k.Record) (n p : ℕ) : Assn Cell :=
  ⨆ shown, ⨆ it, fact (it.list.length = n ∧ shown ++ walk it = rows) *
    (lostAt k (keptRows keep shown) * curPost k i it p)

/-- The end of the loop. -/
def eachPost (k : RowType) (i : ℕ) (keep : Bool) (rows : List k.Record) : Assn Cell :=
  ⨆ it, fact (walk it = []) * (lostAt k (keptRows keep rows) * iterAt k i it)

theorem walk_cons (a : k.Record) (rest : List (Option k.Record)) : walk ⟨some a :: rest⟩ = a :: walk ⟨rest⟩ := rfl

theorem lostAt_snoc (rows : List k.Record) (a : k.Record) (p : ℕ) :
    lostAt k rows * k.At a p ≤ lostAt k (rows ++ [a]) := by
  rw [lostAt, lostAt, List.map_append, List.prod_append, List.map_singleton, List.prod_singleton]
  exact mul_le_mul_right (le_iSup_of_le p le_rfl) _

theorem triple_shown (huse : Uses k keep use) (rows : List k.Record) (b : β) (a : k.Record) (p : ℕ) :
    Triple (lostAt k (keptRows keep rows) * k.At a p) (use b p)
      (quiet fun _ => lostAt k (keptRows keep (rows ++ [a]))) := by
  rw [mul_comm]
  refine ((huse b a p).frame _).post fun _ _ => ?_
  rw [quiet, quiet, mul_assoc, mul_comm (ite _ _ _)]
  refine mul_le_mul_right ?_ _
  cases keep with
  | true => exact lostAt_snoc rows a p
  | false => exact (mul_one _).le

/-- **A round over an iterator** takes one node. -/
theorem triple_eachRowBody (huse : Uses k keep use) (rows : List k.Record) (n : ℕ) (x : β × ℕ) :
    Triple (eachPre k i keep rows n x.2) (eachRowBody i use x) (quiet <| Sum.elim
      (fun x' => ⨆ m, fact (m < n) * eachPre k i keep rows m x'.2) fun _ => eachPost k i keep rows) := by
  obtain ⟨acc, p⟩ := x
  refine Triple.iSup fun shown => Triple.iSup fun it => Triple.fact fun ⟨hlen, hrows⟩ => ?_
  have hend : ∀ it' : DucIter k.Record, walk it = [] → walk it' = [] →
      lostAt k (keptRows keep shown) * iterAt k i it' ≤ eachPost k i keep rows := by
    intro it' hwalk hwalk'
    refine le_iSup_of_le it' ?_
    rw [fact_true hwalk', one_mul, ← hrows, hwalk, List.append_nil]
  obtain ⟨_ | ⟨_ | a, rest⟩⟩ := it
  · rw [curPost, mul_left_comm]
    refine Triple.fact fun hp => ?_
    rw [eachRowBody, if_pos hp]
    refine Triple.pure ?_
    rw [quiet, fact_true rfl, one_mul]
    exact hend ⟨[]⟩ (by simp [walk_eq]) (by simp [walk_eq])
  · dsimp only [curPost]
    rw [rowAt, mul_left_comm]
    refine Triple.fact fun hp => ?_
    rw [eachRowBody, if_pos hp]
    refine Triple.pure ?_
    rw [quiet, fact_true rfl, one_mul]
    have hback : rowAt k p none * takenAt k i p ⟨rest⟩ ≤ iterAt k i ⟨none :: rest⟩ := rowAt_takenAt none
    rw [rowAt, fact_true hp, one_mul] at hback
    exact (mul_le_mul_right hback _).trans (hend ⟨none :: rest⟩ (by simp [walk_eq]) (by simp [walk_eq]))
  · dsimp only [curPost]
    rw [rowAt, ← mul_assoc, eachRowBody]
    dsimp only
    split_ifs with hp
    · rw [hp, k.allocates.ne_null]
      simp only [Quantale.mul_bot, Quantale.bot_mul]
      exact Triple.bot
    refine (triple_shown huse shown acc a p).step fun _ => ?_
    rw [mul_comm]
    refine triple_next.step fun p' => Triple.pure ?_
    rw [quiet, fact_true rfl, one_mul]
    refine le_iSup_of_le rest.length ?_
    rw [fact_true (by rw [← hlen]; exact Nat.lt_succ_self _), one_mul]
    refine le_iSup_of_le (shown ++ [a]) (le_iSup_of_le ⟨rest⟩ ?_)
    rw [fact_true, one_mul, mul_comm]
    rw [List.append_assoc, List.singleton_append, ← walk_cons]
    exact ⟨rfl, hrows⟩

theorem curPost_eachPre (keep : Bool) (p : ℕ) : curPost k i it p ≤ eachPre k i keep (walk it) it.list.length p := by
  refine le_iSup_of_le [] (le_iSup_of_le it ?_)
  rw [fact_true ⟨rfl, List.nil_append _⟩, one_mul, keptRows]
  cases keep <;> simp [lostAt]

/-- **A loop over an iterator.** -/
theorem triple_eachRow (huse : Uses k keep use) (acc : β) : Triple (iterAt k i it) (eachRow i use acc)
    (quiet fun _ => eachPost k i keep (walk it)) := by
  refine Triple.bounded fun n => triple_cur.seq fun p => ?_
  have hround : ∀ (x : β × ℕ) (b : Bool), Triple (quiet (fun x => ⨆ n, eachPre k i keep (walk it) n x.2) x b)
      (eachRowBody i use x) fun y b' =>
        Sum.elim (fun x => quiet (fun x => ⨆ n, eachPre k i keep (walk it) n x.2) x (b || b'))
          (fun a => quiet (fun _ : β => eachPost k i keep (walk it)) a (b || b')) y := by
    intro x b
    refine Triple.fact fun hb => Triple.iSup fun n => ?_
    subst hb
    refine (triple_eachRowBody huse (walk it) n x).post fun y b => ?_
    cases y with
    | inl x' => exact mul_le_mul_right (iSup_mono fun m => mul_le_of_le_one_left' fact_le_one) _
    | inr _ => exact le_rfl
  refine (Triple.loop hround n (acc, p) false).pre ?_
  rw [quiet, fact_true rfl, one_mul]
  exact le_iSup_of_le _ (curPost_eachPre keep p)

theorem eachRowBody_returns (hret : ∀ b p σ, (use b p σ).isSome) (x : β × ℕ) (σ : Arena Cell) :
    (eachRowBody i use x σ).isSome := by
  rw [eachRowBody]
  split_ifs
  · rfl
  exact bind_returns (hret _ _ σ) fun _ σ => bind_returns (next_returns i σ) fun _ _ => rfl

theorem eachRow_returns {σ : Arena Cell} {F : Assn Cell} (huse : Uses k keep use)
    (hret : ∀ b p σ, (use b p σ).isSome) (acc : β) (hσ : σ.sound = true)
    (hh : (iterAt k i it * F : Assn Cell) σ.heap) : (eachRow i use acc σ).isSome := by
  have hcard : it.list.length < σ.heap.keys.card + 1 := by
    obtain ⟨list, hh⟩ := (iSup_mul_apply _).1 hh
    rw [mul_comm (cell _ _), mul_assoc] at hh
    exact Nat.lt_succ_of_le (length_le_card hh)
  obtain ⟨⟨p, τ⟩, hp⟩ := Option.isSome_iff_exists.1 (cur_returns i σ)
  obtain ⟨hτ, b, -, hcur⟩ := triple_cur F σ p τ hσ hh hp
  rw [eachRow, HeapM.bounded_apply, bind_apply, hp, Option.bind_some]
  rw [quiet, mul_assoc] at hcur
  refine HeapM.loop_returns (I := fun n (x : β × ℕ) => eachPre k i keep (walk it) n x.2) (eachRowBody_returns hret)
    (fun n x => ?_) hcard hτ (mul_le_mul_left (curPost_eachPre keep p) F _ (fact_mul.1 hcur).2)
  refine (triple_eachRowBody huse (walk it) n x).post fun y b => (mul_le_of_le_one_left' fact_le_one).trans ?_
  cases y with
  | inl _ => exact le_rfl
  | inr _ => exact le_top

/-- What is lost of a list, when the list is one of the reply. -/
def overPost (ev : Handlers) (k : RowType) (keep : Bool) (w : World) (cmd : Cstr) (ap : List Arg) (x : Option β × World)
    (b : Bool) : Assn Cell :=
  fact (x.1 = none) ⊔ ⨆ it, fact (x.1.isSome ∧ (b = false → Fetches ev k w cmd ap it x.2)) *
    lostAt k (keptRows keep (walk it))

theorem triple_overRows (ev : Handlers) (huse : Uses k keep use) (acc : β) (w : World) (cmd : Cstr) (ap : List Arg) :
    Triple 1 (overRows ev k use acc w cmd ap) (overPost ev k keep w cmd ap) := by
  refine (triple_newv ev k w cmd ap).bind fun ⟨i, w'⟩ b => Triple.sup ?_ ?_
  · rw [← mul_one (fact _)]
    refine Triple.fact fun hi => ?_
    dsimp only at hi ⊢
    rw [if_pos hi]
    exact Triple.pure (le_sup_of_le_left (by rw [fact_true rfl]))
  refine Triple.iSup fun it => Triple.fact fun hlists => ?_
  dsimp only
  by_cases hi : i = 0
  · simp only [hi, iterAt, cell_zero, Quantale.bot_mul, iSup_bot]
    exact Triple.bot
  rw [if_neg hi]
  refine (triple_eachRow huse acc).seq fun _ => Triple.iSup fun it' => Triple.fact fun _ => ?_
  rw [mul_comm]
  refine triple_done.step fun _ => Triple.pure (le_sup_of_le_right (le_iSup_of_le it ?_))
  rw [one_mul, fact_true ⟨rfl, by simpa using hlists⟩, one_mul]

theorem overRows_returns (ev : Handlers) (huse : Uses k keep use) (hret : ∀ b p σ, (use b p σ).isSome) (acc : β)
    (w : World) (cmd : Cstr) (ap : List Arg) {σ : Arena Cell} (hσ : σ.sound = true)
    (h : (ducItNewvHeap ev k w cmd ap σ).isSome) : (overRows ev k use acc w cmd ap σ).isSome := by
  obtain ⟨⟨⟨i, w'⟩, τ⟩, hnew⟩ := Option.isSome_iff_exists.1 h
  obtain ⟨hτ, b, -, hpost⟩ := (triple_newv ev k w cmd ap).run hσ hnew
  rw [overRows, bind_apply, hnew, Option.bind_some]
  dsimp only
  split_ifs with hi
  · rfl
  rw [newvPost, Quantale.sup_mul_distrib] at hpost
  rcases hpost with hpost | hpost
  · exact absurd (fact_mul.1 hpost).1 hi
  obtain ⟨it, hit⟩ := (iSup_mul_apply _).1 hpost
  rw [mul_assoc] at hit
  have hiter := (fact_mul.1 hit).2
  obtain ⟨⟨_, τ'⟩, heach⟩ := Option.isSome_iff_exists.1 (eachRow_returns huse hret acc hτ hiter)
  obtain ⟨hτ', b', -, hrest⟩ := triple_eachRow huse acc _ τ _ τ' hτ hiter heach
  rw [quiet, mul_assoc] at hrest
  obtain ⟨it', hit'⟩ := (iSup_mul_apply _).1 (fact_mul.1 hrest).2
  rw [mul_assoc, mul_comm (lostAt _ _), mul_assoc] at hit'
  rw [bind_apply, heach, Option.bind_some]
  exact bind_returns (done_returns hτ' (fact_mul.1 hit').2) fun _ _ => rfl

end Rounds

theorem triple_tracktaglist (c : Clib) (ev : Handlers) (w : World) (id : ℤ) :
    Triple 1 (iTracktaglistHeap c ev w id) fun x b => fact (x.1.1 = -1) ⊔ ⨆ it, ⨆ w', fact (x.1.1 = 0 ∧
        ducCmd ev w (.lit "trackget %d") [.int id] = some (0, w') ∧
        (b = false → Fetches ev .tag w' (.lit "tracktaglist %d") [.int id] it x.2)) * lostAt .tag (walk it) := by
  refine (triple_conv ev .track w _ _).bind fun x b => Triple.iSup fun a => Triple.fact fun hcmd => ?_
  obtain ⟨t, w'⟩ := x
  dsimp only at hcmd ⊢
  by_cases ht : t = 0
  · rw [if_pos ht]
    refine Triple.pure (le_sup_of_le_left ?_)
    rw [fact_true rfl]
    cases a with
    | none => exact fact_le_one
    | some a =>
      rw [ht, rowAt, RowType.allocates .track |>.ne_null]
      exact bot_le
  rw [if_neg ht]
  cases a with
  | none =>
    rw [rowAt, ← mul_one (fact (t = 0))]
    exact Triple.fact fun h => absurd h ht
  | some a =>
    have halbum : Triple (DucTrack.At a t) (loadSub t 5 0) (quiet fun z => fact (z = a.album.id) * DucTrack.At a t) :=
      triple_loadSub (show 5 < 6 by decide) rfl (show 0 < 4 by decide) rfl
    refine halbum.seq fun albumid => Triple.fact fun _ => ?_
    refine (triple_loadNumber (z := a.albumnr) (show 1 < 6 by decide) rfl).seq fun albumnr => Triple.fact fun _ => ?_
    refine triple_look fun buf _ => triple_look fun buf _ => ?_
    refine (RowType.allocates .track |>.frees a t).seq fun _ => ?_
    refine (triple_overRows ev uses_tagRow (buf, 0) w' _ _).bind fun x b' => Triple.sup ?_ ?_
    · rw [← mul_one (fact _)]
      refine Triple.fact fun ho => ?_
      obtain ⟨o, w''⟩ := x
      dsimp only at ho ⊢
      rw [ho]
      exact Triple.pure (le_sup_of_le_left (by rw [fact_true rfl]))
    refine Triple.iSup fun it => Triple.fact fun hx => ?_
    obtain ⟨o, w''⟩ := x
    obtain ⟨ho, hlists⟩ := hx
    obtain ⟨⟨buf, n⟩, rfl⟩ := Option.isSome_iff_exists.1 ho
    refine triple_look fun t _ => Triple.pure (le_sup_of_le_right (le_iSup_of_le it (le_iSup_of_le w' (le_of_eq ?_))))
    rw [fact_true, one_mul]
    · rfl
    · exact ⟨rfl, hcmd ht, fun hb => hlists (by simpa using (Bool.or_eq_false_iff.1 hb).2)⟩

/-- **The memory of a list command.** With `dmsg_dump_artists` and its kind, which return when the lines of the
reply come, it is as before, whatever `malloc` returns. `i_tracktaglist` leaves the tags that it has read, and
nothing else. -/
theorem listing_memory (c : Clib) (ev : Handlers) (w : World) {σ : Arena Cell} (hσ : σ.sound = true) :
    (∀ (k : RowType) (cmd : Cstr) (ap : List Arg), Listable ev k w cmd ap →
      ∃ x τ, listRows ev k w cmd ap σ = some (x, τ) ∧ τ.sound = true ∧ τ.heap = σ.heap) ∧
    ∀ (id : ℤ) x τ, iTracktaglistHeap c ev w id σ = some (x, τ) → τ.sound = true ∧
      ((x.1.1 = -1 ∧ τ.heap = σ.heap) ∨
        x.1.1 = 0 ∧ ∃ it w', ducCmd ev w (.lit "trackget %d") [.int id] = some (0, w') ∧
          (τ.refused = false → Fetches ev .tag w' (.lit "tracktaglist %d") [.int id] it x.2) ∧
          (lostAt .tag (walk it) * exactly σ.heap : Assn Cell) τ.heap) := by
  constructor
  · intro k cmd ap hlines
    have hret : ∀ (_ : Unit) p σ, (k.free p σ).isSome := fun _ => k.allocates.ends
    obtain ⟨⟨⟨o, w'⟩, τ⟩, h⟩ := Option.isSome_iff_exists.1
      (overRows_returns ev (uses_free k) hret () w cmd ap hσ (newv_returns hσ hlines))
    obtain ⟨hτ, b, -, hpost⟩ := (triple_overRows ev (uses_free k) () w cmd ap).run hσ h
    have hone : overPost ev k false w cmd ap (o, w') b ≤ 1 := by
      refine sup_le fact_le_one (iSup_le fun it => ?_)
      refine (mul_le_of_le_one_left' fact_le_one).trans (le_of_eq ?_)
      simp [lostAt, keptRows]
    have hheap := mul_le_mul_left hone (exactly σ.heap) _ hpost
    rw [one_mul] at hheap
    exact ⟨_, τ, by rw [listRows, bind_apply, h]; rfl, hτ, hheap⟩
  · intro id x τ h
    obtain ⟨hτ, b, hb, hpost⟩ := (triple_tracktaglist c ev w id).run hσ h
    refine ⟨hτ, ?_⟩
    rw [Quantale.sup_mul_distrib] at hpost
    rcases hpost with hpost | hpost
    · exact Or.inl ((fact_mul (Q := exactly σ.heap)).1 hpost)
    · obtain ⟨it, hit⟩ := (iSup_mul_apply _).1 hpost
      obtain ⟨w', hw'⟩ := (iSup_mul_apply _).1 hit
      rw [mul_assoc] at hw'
      obtain ⟨⟨hx, hcmd, hlists⟩, hlost⟩ := fact_mul.1 hw'
      exact Or.inr ⟨hx, it, w', hcmd, fun hr => hlists (Bool.or_eq_false_iff.1 (hb.symm.trans hr)).2, hlost⟩

/-- A server that tells a track and its two tags. -/
def taggedServer : Dial :=
  .made 3 [some (Cstr.lit "220 dudld 1 2\n").bytes,
    some (Cstr.lit "250 5\t1\ttitle\t300\t7\tartist\t9\talbum\t1999\t7\tartist\n").bytes,
    some (Cstr.lit "252-1\tpop\t\n252 2\trock\t\n").bytes] []

/-- **The tags are lost**: two of three blocks each. A list of artists leaves nothing. -/
theorem listing_memory_tags :
    (∃ x τ, listRows .passive .artist (newWorld [artistServer]) (.lit "artistlist") [] smallArena = some (x, τ) ∧
      τ.heap = ∅) ∧
    ∃ x τ, iTracktaglistHeap .glibc .passive (newWorld [taggedServer]) 5 smallArena = some (x, τ) ∧
      x.1 = (0, some (Cstr.lit "9/1: pop,rock").bytes) ∧ τ.heap.keys.card = 6 ∧ τ.sound = true ∧
      ∃ it : DucIter DucTag, (lostAt .tag (walk it) * exactly ∅ : Assn Cell) τ.heap := by
  constructor
  · have hlines : Listable .passive .artist (newWorld [artistServer]) (.lit "artistlist") [] :=
      listable_of_test (n := 3) (by decide +kernel)
    obtain ⟨x, τ, hx, -, hheap⟩ :=
      (listing_memory .glibc .passive (newWorld [artistServer]) (σ := smallArena) rfl).1 _ _ _ hlines
    exact ⟨x, τ, hx, hheap⟩
  have hrun : (iTracktaglistHeap .glibc .passive (newWorld [taggedServer]) 5 smallArena).map
      (fun r => (r.1.1, r.2.heap.keys.card)) = some ((0, some (Cstr.lit "9/1: pop,rock").bytes), 6) := by
    decide +kernel
  obtain ⟨⟨x, τ⟩, hx, heq⟩ := Option.map_eq_some_iff.1 hrun
  obtain ⟨hx0, hcard⟩ := Prod.mk.inj heq
  dsimp only at hx0 hcard
  have hend := (listing_memory .glibc .passive (newWorld [taggedServer]) (σ := smallArena) rfl).2 5 x τ hx
  refine ⟨x, τ, hx, hx0, hcard, hend.1, ?_⟩
  rcases hend.2 with ⟨hneg, -⟩ | ⟨-, it, -, -, -, hlost⟩
  · rw [hx0] at hneg
    cases hneg
  · exact ⟨it, hlost⟩

end Dudlc
