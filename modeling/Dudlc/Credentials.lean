import Dudlc.Allocation

/-!
# A session and its credentials in dynamic memory

`duc_new` allocates a session and its socket. `duc_setauth` keeps copies of a name and a password, and releases those
of the call before. `duc_free` releases the session, but not the copies.

* `ducSockOpenHeap`, `ducNewHeap`, `ducSetauthHeap`, `ducFreeHeap`.
* `sessionAt`: the blocks of a session; `triple_new`, `triple_setauth`, `triple_free_session`.
* `sessionHeap`: the life of a session; **`session_memory`**: what it leaves.
-/

namespace Dudlc

open Lib Lib.HeapM Lib.Assn

/-! ## The functions -/

/-- `duc_sock_open` -/
def ducSockOpenHeap (host : List UInt8) (port : ℤ) : HeapM Cell ℕ := do
  let s ← malloc (.struct [])
  if s = 0 then return 0
  else
    let h ← malloc (.string host)
    if h = 0 then
      free s
      return 0
    else
      store s (.struct [.ptr h, .num port])
      return s

/-- `duc_sock_close`, of a socket that is not connected. -/
def ducSockCloseHeap (s : ℕ) : HeapM Cell Unit :=
  if s = 0 then pure ()
  else do
    match ← load s with
    | some (.struct [.ptr h, .num _]) =>
      free h
      free s
    | _ => crash ()

/-- The fields of a session that point to other blocks: `con`, `user` and `pass`. -/
def sessionCell (con user pass : ℕ) : Cell := .struct [.ptr con, .ptr user, .ptr pass]

/-- `duc_new` -/
def ducNewHeap (host : List UInt8) (port : ℤ) : HeapM Cell ℕ := do
  let p ← malloc (.struct [])
  if p = 0 then return 0
  else
    let con ← ducSockOpenHeap host port
    if con = 0 then
      free p
      return 0
    else
      store p (sessionCell con 0 0)
      return p

/-- `duc_setauth` -/
def ducSetauthHeap (c : ℕ) (user pass : List UInt8) : HeapM Cell ℤ := do
  match ← load c with
  | some (.struct [.ptr con, .ptr u, .ptr p]) =>
    free u
    store c (sessionCell con 0 p)
    free p
    store c (sessionCell con 0 0)
    let u ← malloc (.string user)
    store c (sessionCell con u 0)
    if u = 0 then return -1
    else
      let p ← malloc (.string pass)
      store c (sessionCell con u p)
      if p = 0 then
        free u
        store c (sessionCell con 0 0)
        return -1
      else return 0
  | _ => crash (-1)

/-- `duc_free` -/
def ducFreeHeap (c : ℕ) : HeapM Cell Unit :=
  if c = 0 then pure ()
  else do
    match ← load c with
    | some (.struct [.ptr con, .ptr _, .ptr _]) =>
      ducSockCloseHeap con
      free c
    | _ => crash ()

/-! ## The blocks -/

/-- A name and a password. -/
abbrev Login := List UInt8 × List UInt8

/-- A copy of a text, or NULL. -/
def copyAt (u : ℕ) : Option (List UInt8) → Assn Cell
  | none => fact (u = 0)
  | some t => cell u (.string t)

/-- The copies of the credentials, if there are any. -/
def authAt (u p : ℕ) (auth : Option Login) : Assn Cell := copyAt u (auth.map Prod.fst) * copyAt p (auth.map Prod.snd)

/-- A socket that is not connected. -/
def sockAt (s : ℕ) : Assn Cell := ⨆ host, ⨆ port, ⨆ h, cell h (.string host) * cell s (.struct [.ptr h, .num port])

/-- A session. -/
def sessionAt (c : ℕ) (auth : Option Login) : Assn Cell :=
  ⨆ con, ⨆ u, ⨆ p, cell c (sessionCell con u p) * (sockAt con * authAt u p auth)

/-- The copies that a session leaves. -/
def leftAt (auth : Option Login) : Assn Cell := ⨆ u, ⨆ p, authAt u p auth

variable {c s : ℕ} {host : List UInt8} {port : ℤ} {auth : Option Login} {l : Login}

/-! ## What the functions do -/

/-- What `duc_sock_open` and `duc_new` return: NULL, with nothing allocated, or something new. -/
def newPost (own : ℕ → Assn Cell) (x : ℕ) (b : Bool) : Assn Cell :=
  fact (x = 0 ∧ b = true) ⊔ fact (x ≠ 0 ∧ b = false) * own x

theorem newPost_null {own : ℕ → Assn Cell} : 1 ≤ newPost own 0 true :=
  le_sup_of_le_left (fact_true ⟨rfl, rfl⟩).ge

theorem newPost_block {own : ℕ → Assn Cell} {P : Assn Cell} {x : ℕ} (hx : x ≠ 0) (h : P ≤ own x) :
    P ≤ newPost own x false := by
  refine le_sup_of_le_right ?_
  rwa [fact_true ⟨hx, rfl⟩, one_mul]

theorem triple_sockOpen : Triple 1 (ducSockOpenHeap host port) (newPost sockAt) := by
  refine Triple.alloc (Triple.pure newPost_null) fun s hs => ?_
  rw [if_neg hs]
  refine Triple.alloc ?_ fun h hh => ?_
  · rw [if_pos rfl]
    refine (triple_free s _).step fun _ => Triple.pure ?_
    rw [one_mul]
    exact newPost_null
  · rw [if_neg hh, mul_left_comm]
    refine (triple_store s _ _).step fun _ => Triple.pure (newPost_block hs ?_)
    rw [mul_one, mul_comm]
    exact le_iSup_of_le host (le_iSup_of_le port (le_iSup_of_le h le_rfl))

theorem triple_of_new {α : Type} {own : ℕ → Assn Cell} {F : Assn Cell} {c : HeapM Cell α} {R : α → Bool → Assn Cell}
    {x : ℕ} {b : Bool} (hnull : x = 0 → b = true → Triple F c R)
    (hblock : x ≠ 0 → b = false → Triple (own x * F) c R) : Triple (newPost own x b * F) c R := by
  rw [newPost, Quantale.sup_mul_distrib]
  refine Triple.sup (Triple.fact fun h => hnull h.1 h.2) ?_
  rw [mul_assoc]
  exact Triple.fact fun h => hblock h.1 h.2

theorem session_none {con : ℕ} : cell c (sessionCell con 0 0) * sockAt con ≤ sessionAt c none := by
  refine le_iSup_of_le con (le_iSup_of_le 0 (le_iSup_of_le 0 ?_))
  simp [authAt, copyAt, fact_true]

/-- **`duc_new`** -/
theorem triple_new : Triple 1 (ducNewHeap host port) (newPost fun c => sessionAt c none) := by
  refine Triple.alloc (Triple.pure newPost_null) fun c hc => ?_
  rw [if_neg hc, mul_comm]
  refine (triple_sockOpen.frame (cell c _)).bind fun con b => triple_of_new ?_ ?_
  · rintro rfl rfl
    rw [if_pos rfl]
    refine (triple_free c _).seq fun _ => Triple.pure newPost_null
  · rintro hcon rfl
    rw [if_neg hcon, mul_comm]
    exact (triple_store c _ _).step fun _ => Triple.pure (newPost_block hc session_none)

theorem triple_free_text (u : ℕ) (t : Option (List UInt8)) : Triple (copyAt u t) (free u) (quiet fun _ => 1) := by
  cases t with
  | none =>
    rw [copyAt, ← mul_one (fact _)]
    refine Triple.fact fun hu => ?_
    rw [hu]
    exact triple_free_null
  | some t => exact triple_free u _

/-- **`duc_setauth`** -/
theorem triple_setauth : Triple (sessionAt c auth) (ducSetauthHeap c l.1 l.2) fun r b =>
    fact (r = -1 ∧ b = true) * sessionAt c none ⊔ fact (r = 0 ∧ b = false) * sessionAt c (some l) := by
  refine Triple.iSup fun con => Triple.iSup fun u => Triple.iSup fun p => Triple.load ?_
  simp only [sessionCell, authAt]
  -- the old credentials
  rw [mul_left_comm (sockAt con), mul_left_comm]
  refine (triple_free_text u _).step fun _ => ?_
  rw [one_mul]
  refine (triple_store c _ _).step fun _ => ?_
  rw [mul_comm (sockAt con), mul_left_comm]
  refine (triple_free_text p _).step fun _ => ?_
  rw [one_mul]
  refine (triple_store c _ (sessionCell con 0 0)).step fun _ => ?_
  -- the new ones
  refine Triple.alloc ?_ fun u' hu' => ?_
  · refine (triple_store c _ (sessionCell con 0 0)).step fun _ => ?_
    rw [if_pos rfl]
    refine Triple.pure (le_sup_of_le_left ?_)
    rw [fact_true ⟨rfl, rfl⟩, one_mul]
    exact session_none
  rw [mul_left_comm]
  refine (triple_store c _ (sessionCell con u' 0)).step fun _ => ?_
  rw [if_neg hu']
  refine Triple.alloc ?_ fun p' hp' => ?_
  · refine (triple_store c _ (sessionCell con u' 0)).step fun _ => ?_
    rw [if_pos rfl, mul_left_comm]
    refine (triple_free u' _).step fun _ => ?_
    rw [one_mul]
    refine (triple_store c _ (sessionCell con 0 0)).step fun _ => Triple.pure (le_sup_of_le_left ?_)
    rw [fact_true ⟨rfl, rfl⟩, one_mul]
    exact session_none
  · rw [mul_left_comm]
    refine (triple_store c _ (sessionCell con u' p')).step fun _ => ?_
    rw [if_neg hp']
    refine Triple.pure (le_sup_of_le_right ?_)
    rw [fact_true ⟨rfl, rfl⟩, one_mul]
    refine le_iSup_of_le con (le_iSup_of_le u' (le_iSup_of_le p' (le_of_eq ?_)))
    simp only [sessionCell, authAt, copyAt, Option.map_some]
    ac_rfl

/-- **`duc_free`** leaves the credentials. -/
theorem triple_free_session : Triple (sessionAt c auth) (ducFreeHeap c) (quiet fun _ => leftAt auth) := by
  refine Triple.iSup fun con => Triple.iSup fun u => Triple.iSup fun p => Triple.cell_ne fun hc => ?_
  rw [ducFreeHeap, if_neg hc]
  refine Triple.load ?_
  simp only [sessionCell]
  rw [mul_left_comm]
  refine Triple.step (Q := fun _ => 1) ?_ fun _ => ?_
  · refine Triple.iSup fun host => Triple.iSup fun port => Triple.iSup fun h => ?_
    rw [mul_comm]
    refine Triple.cell_ne fun hs => ?_
    rw [ducSockCloseHeap, if_neg hs]
    refine Triple.load ?_
    dsimp only
    rw [mul_comm]
    refine (triple_free h _).step fun _ => ?_
    rw [one_mul]
    exact triple_free con _
  · rw [one_mul]
    refine ((triple_free c _).frame _).post fun _ b => ?_
    rw [quiet, quiet, mul_assoc, one_mul]
    refine mul_le_mul_right ?_ _
    exact le_iSup_of_le u (le_iSup_of_le p le_rfl)

/-! ## The life of a session -/

/-- Calls of `duc_setauth`. -/
def setauths (c : ℕ) : List Login → HeapM Cell (List ℤ)
  | [] => return []
  | l :: ls => do
    let r ← ducSetauthHeap c l.1 l.2
    return r :: (← setauths c ls)

/-- A session is made, gets credentials, and is released. -/
def sessionHeap (host : List UInt8) (port : ℤ) (ls : List Login) : HeapM Cell (Option (List ℤ)) := do
  let c ← ducNewHeap host port
  if c = 0 then return none
  else
    let rs ← setauths c ls
    ducFreeHeap c
    return some rs

/-- The credentials after calls of `duc_setauth` with these results. -/
def holding (auth : Option Login) : List Login → List ℤ → Option Login
  | [], _ => auth
  | _ :: _, [] => auth
  | l :: ls, r :: rs => holding (if r = 0 then some l else none) ls rs

theorem triple_setauths (ls : List Login) : Triple (sessionAt c auth) (setauths c ls) fun rs b =>
    fact (rs.length = ls.length ∧ (∀ r ∈ rs, r = 0 ∨ r = -1) ∧ (b = false → ∀ r ∈ rs, r = 0)) *
      sessionAt c (holding auth ls rs) := by
  induction ls generalizing auth with
  | nil => exact Triple.pure (by rw [fact_true (by simp), one_mul, holding])
  | cons l ls ih =>
    have hnext : ∀ r b, (r = 0 ∨ r = -1) → (b = false → r = 0) →
        Triple (sessionAt c (if r = 0 then some l else none)) (setauths c ls >>= fun rs => pure (r :: rs)) fun rs b' =>
          fact (rs.length = (l :: ls).length ∧ (∀ r ∈ rs, r = 0 ∨ r = -1) ∧ ((b || b') = false → ∀ r ∈ rs, r = 0)) *
            sessionAt c (holding auth (l :: ls) rs) := by
      intro r b hr hb
      refine ih.bind fun rs b' => Triple.fact fun hrs => Triple.pure ?_
      obtain ⟨hlen, hall, hzero⟩ := hrs
      rw [fact_true, one_mul, holding]
      refine ⟨by simp [hlen], by simpa using ⟨hr, hall⟩, fun hbb => ?_⟩
      simp only [Bool.or_false, Bool.or_eq_false_iff] at hbb
      simpa using ⟨hb hbb.1, hzero hbb.2⟩
    refine triple_setauth.bind fun r b => Triple.sup (Triple.fact ?_) (Triple.fact ?_)
    · rintro ⟨rfl, rfl⟩
      have hfailed := hnext (-1) true (Or.inr rfl) fun h => by cases h
      rwa [if_neg (by decide)] at hfailed
    · rintro ⟨rfl, rfl⟩
      have hdone := hnext 0 false (Or.inl rfl) fun _ => rfl
      rwa [if_pos rfl] at hdone

theorem triple_session (ls : List Login) : Triple 1 (sessionHeap host port ls) fun x b =>
    fact (x = none ∧ b = true) ⊔
      ⨆ rs, fact (x = some rs ∧ rs.length = ls.length ∧ (b = false → ∀ r ∈ rs, r = 0)) *
        leftAt (holding none ls rs) := by
  refine triple_new.bind fun c b => ?_
  rw [← mul_one (newPost _ c b)]
  refine triple_of_new ?_ ?_
  · rintro rfl rfl
    rw [if_pos rfl]
    exact Triple.pure (le_sup_of_le_left (fact_true ⟨rfl, rfl⟩).ge)
  · rintro hc rfl
    rw [if_neg hc, mul_one]
    refine (triple_setauths ls).bind fun rs b => Triple.fact fun hrs => triple_free_session.seq fun _ => ?_
    refine Triple.pure (le_sup_of_le_right (le_iSup_of_le rs ?_))
    rw [fact_true ⟨rfl, hrs.1, fun hb => hrs.2.2 (by simpa using hb)⟩, one_mul]

/-! ## Sessions return -/

theorem sockOpen_returns (σ : Arena Cell) : (ducSockOpenHeap host port σ).isSome := by
  obtain ⟨s, σ', hs⟩ := malloc_returns (.struct []) σ
  refine bind_returns (by rw [hs]; rfl) fun s σ => ?_
  split_ifs
  · rfl
  obtain ⟨h, σ', hh⟩ := malloc_returns (.string host) σ
  refine bind_returns (by rw [hh]; rfl) fun h σ => ?_
  split_ifs
  · exact bind_returns (free_returns s σ) fun _ _ => rfl
  · exact bind_returns (store_returns s _ σ) fun _ _ => rfl

theorem sockClose_returns (s : ℕ) (σ : Arena Cell) : (ducSockCloseHeap s σ).isSome := by
  rw [ducSockCloseHeap]
  split_ifs
  · rfl
  refine bind_returns (load_returns s σ) fun v σ => ?_
  split
  · exact bind_returns (free_returns _ σ) fun _ σ => free_returns s σ
  · rfl

theorem new_returns (σ : Arena Cell) : (ducNewHeap host port σ).isSome := by
  obtain ⟨c, σ', hc⟩ := malloc_returns (.struct []) σ
  refine bind_returns (by rw [hc]; rfl) fun c σ => ?_
  split_ifs
  · rfl
  refine bind_returns (sockOpen_returns σ) fun con σ => ?_
  split_ifs
  · exact bind_returns (free_returns c σ) fun _ _ => rfl
  · exact bind_returns (store_returns c _ σ) fun _ _ => rfl

theorem setauth_returns (c : ℕ) (user pass : List UInt8) (σ : Arena Cell) : (ducSetauthHeap c user pass σ).isSome := by
  refine bind_returns (load_returns c σ) fun v σ => ?_
  split
  · refine bind_returns (free_returns _ σ) fun _ σ => bind_returns (store_returns c _ σ) fun _ σ =>
      bind_returns (free_returns _ σ) fun _ σ => bind_returns (store_returns c _ σ) fun _ σ => ?_
    obtain ⟨u, σ', hu⟩ := malloc_returns (.string user) σ
    refine bind_returns (by rw [hu]; rfl) fun u σ => bind_returns (store_returns c _ σ) fun _ σ => ?_
    split_ifs
    · rfl
    obtain ⟨p, σ', hp⟩ := malloc_returns (.string pass) σ
    refine bind_returns (by rw [hp]; rfl) fun p σ => bind_returns (store_returns c _ σ) fun _ σ => ?_
    split_ifs
    · exact bind_returns (free_returns u σ) fun _ σ => bind_returns (store_returns c _ σ) fun _ _ => rfl
    · rfl
  · rfl

theorem setauths_returns (c : ℕ) (ls : List Login) (σ : Arena Cell) : (setauths c ls σ).isSome := by
  induction ls generalizing σ with
  | nil => rfl
  | cons l ls ih =>
    exact bind_returns (setauth_returns c l.1 l.2 σ) fun r σ => bind_returns (ih σ) fun rs _ => rfl

theorem free_session_returns (c : ℕ) (σ : Arena Cell) : (ducFreeHeap c σ).isSome := by
  rw [ducFreeHeap]
  split_ifs
  · rfl
  refine bind_returns (load_returns c σ) fun v σ => ?_
  split
  · exact bind_returns (sockClose_returns _ σ) fun _ σ => free_returns c σ
  · rfl

theorem session_returns (host : List UInt8) (port : ℤ) (ls : List Login) (σ : Arena Cell) :
    (sessionHeap host port ls σ).isSome := by
  refine bind_returns (new_returns σ) fun c σ => ?_
  split_ifs
  · rfl
  · exact bind_returns (setauths_returns c ls σ) fun rs σ => bind_returns (free_session_returns c σ) fun _ _ => rfl

theorem left_iff {h h₀ : Heap Cell} (hh : (leftAt auth * exactly h₀ : Assn Cell) h) : h = h₀ ↔ auth = none := by
  obtain ⟨u, hu⟩ := (iSup_mul_apply _).1 hh
  obtain ⟨p, hp⟩ := (iSup_mul_apply _).1 hu
  cases auth with
  | none =>
    rw [authAt, mul_assoc] at hp
    exact iff_of_true ((fact_mul.1 (fact_mul.1 hp).2).2) rfl
  | some l =>
    rw [authAt, mul_assoc] at hp
    obtain ⟨-, hlook, hrest⟩ := cell_mul.1 hp
    obtain ⟨-, -, heq⟩ := cell_mul.1 hrest
    refine iff_of_false (fun h' => ?_) (fun h' => by cases h')
    have hmem : u ∈ h₀ := h' ▸ Finmap.mem_of_lookup_eq_some hlook
    rw [← show _ = h₀ from heq] at hmem
    exact Finmap.notMem_erase_self (Finmap.mem_erase.1 hmem).2

/-- **What a session leaves.** Whatever `malloc` returns, no block is used that is not in use. When the session is
not made, nothing is left. When it is released, the copies of the credentials of its last `duc_setauth` are left, if
this has not failed, and nothing else. -/
theorem session_memory (host : List UInt8) (port : ℤ) (ls : List Login) {σ : Arena Cell} (hσ : σ.sound = true) :
    ∃ x τ, sessionHeap host port ls σ = some (x, τ) ∧ τ.sound = true ∧
      (x = none → τ.refused = true ∧ τ.heap = σ.heap) ∧
      ∀ rs, x = some rs → rs.length = ls.length ∧ (τ.refused = false → ∀ r ∈ rs, r = 0) ∧
        (leftAt (holding none ls rs) * exactly σ.heap : Assn Cell) τ.heap ∧
        (τ.heap = σ.heap ↔ holding none ls rs = none) := by
  obtain ⟨⟨x, τ⟩, hx⟩ := Option.isSome_iff_exists.1 (session_returns host port ls σ)
  obtain ⟨hτ, b, hb, hpost⟩ := (triple_session ls).run hσ hx
  refine ⟨x, τ, hx, hτ, ?_⟩
  rw [Quantale.sup_mul_distrib] at hpost
  rcases hpost with hpost | hpost
  · obtain ⟨⟨rfl, rfl⟩, hheap⟩ := fact_mul.1 hpost
    exact ⟨fun _ => ⟨by rw [hb, Bool.or_true], hheap⟩, fun rs hrs => by cases hrs⟩
  · obtain ⟨rs, hrs⟩ := (iSup_mul_apply _).1 hpost
    rw [mul_assoc] at hrs
    obtain ⟨⟨rfl, hlen, hzero⟩, hleft⟩ := fact_mul.1 hrs
    refine ⟨fun h => (by cases h), fun rs' h => ?_⟩
    obtain rfl := Option.some.inj h
    exact ⟨hlen, fun hr => hzero (Bool.or_eq_false_iff.1 (hb.symm.trans hr)).2, hleft, left_iff hleft⟩

/-- The theorem for a session with two logins, the second of which fails. -/
theorem session_memory_refused : ∃ x τ,
    sessionHeap (Cstr.lit "localhost").bytes 4445 [((Cstr.lit "a").bytes, (Cstr.lit "b").bytes), ([], [])]
      ⟨∅, [1, 2, 3, 4, 5, 6], false, true⟩ = some (x, τ) ∧ x = some [0, -1] ∧ τ.heap = ∅ := by
  have hrun : (sessionHeap (Cstr.lit "localhost").bytes 4445 [((Cstr.lit "a").bytes, (Cstr.lit "b").bytes), ([], [])]
      ⟨∅, [1, 2, 3, 4, 5, 6], false, true⟩).map Prod.fst = some (some [0, -1]) := by
    decide +kernel
  obtain ⟨x, τ, hx, -, -, hleft⟩ := session_memory (Cstr.lit "localhost").bytes 4445
    [((Cstr.lit "a").bytes, (Cstr.lit "b").bytes), ([], [])] (σ := ⟨∅, [1, 2, 3, 4, 5, 6], false, true⟩) rfl
  rw [hx, Option.map_some, Option.some.injEq] at hrun
  exact ⟨x, τ, hx, hrun, (hleft _ hrun).2.2.2.2 (by decide)⟩

end Dudlc
