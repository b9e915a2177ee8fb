import Dudlc.Relay

/-!
# The state a disconnect handler is called in

* `Hands`: with any other handler a computation is the same, or calls the handler in the state that is
  held.
* `open_held`: `duc_open` succeeds alike with any handlers.
* `poll_hands`, `callStep_hands`: the calls on an open connection hand over.
* **`runs_hands`**: so does a run of calls that closes the connection with its last call.
-/

namespace Dudlc

open Lib

variable {ρ : Type} {ev : Handlers} {w u v : World} {r fd : ℤ}

/-- The result `y` is that of the computation with handlers that hold, `x`, on the descriptor `fd`; or
`x` closes the connection, with a `bad` result, and `y` hands its state to the handler. -/
def Hands {β : Type} (ev : Handlers) (fd : ℤ) (state : β → World) (bad : β → Prop) (x y : Option β) : Prop :=
  (y = x ∧ ∀ b, x = some b → (state b).con.fd = fd ∧ (state b).con.Tidy) ∨
    ∃ b, bad b ∧ x = some b ∧ (state b).con.fd = -1 ∧ ∃ f, y = (ev.disconnect (state b)).bind f

section Hands

variable {β : Type} {state : β → World} {bad : (World → β) → Prop} {x y : Option β}

theorem Relays.hands (h : Relays ev fd state bad x y) (hk : ∀ k, bad k → ∀ v, state (k v) = v) :
    Hands ev fd state (fun _ => True) x y := by
  rcases h with h | ⟨k, u, hbad, htu, hx, rfl⟩
  · exact Or.inl h
  · refine Or.inr ⟨k u.closed, trivial, hx, ?_, fun v => some (k v), ?_⟩
    · rw [hk k hbad]
      exact disconnect_fd htu
    · rw [hk k hbad, Option.map_eq_bind]
      rfl

theorem Hands.held {bad : β → Prop} {b : β} (h : Hands ev fd state bad x y) (hx : x = some b)
    (hopen : (state b).con.fd ≠ -1) : y = some b := by
  rcases h with ⟨rfl, -⟩ | ⟨b', -, hx', hfd, -⟩
  · exact hx
  · obtain rfl := Option.some.inj (hx'.symm.trans hx)
    exact absurd hfd hopen

end Hands

/-! ## Connecting and polling -/

/-- **`duc_open`** succeeds alike with any handlers. -/
theorem open_held (ht : w.con.Tidy) (h : ducOpen ev.hold w = some (0, v)) : ducOpen ev w = some (0, v) := by
  rcases ducOpen_cases h with ⟨hfd, -, rfl⟩ | ⟨q, w₁, hfd, hc, ⟨-, h0, -⟩ | ⟨ok, w₂, rfl, hello, hor⟩⟩
  · exact if_pos hfd
  · cases h0
  rcases hor with ⟨rfl, -, hconnect⟩ | ⟨-, h0, -⟩
  · have hok : helloBody ev stayOpen w₁ = some (true, w₂) := by
      rcases hello_relays ev (connect_open hfd hc) (connect_tidy hfd ht hc) with
        ⟨heq, -⟩ | ⟨_, u, rfl, -, hx, -⟩
      · exact heq.trans hello
      · cases hx.symm.trans hello
    have hconnect : ev.connect { w₂ with log := w₂.log ++ [.connect] } = some v := hconnect
    simp [ducOpen, openBody, hfd, hc, hok, hconnect]
  · cases h0

theorem pollLoop_closed (ht : w.con.Tidy) (hfd : w.con.fd = -1) : pollLoop ev w = some w := by
  obtain ⟨hi, hl⟩ := ht.empty hfd
  have hg : ducSockGetline w.con = some (none, w.con) := by simp [ducSockGetline, freeline, hl, hi]
  exact loop_succ_inr (by simp [pollBody, hg])

theorem ducPoll_open (hfd : w.con.fd ≠ -1) : ducPoll ev w =
    w.recv.bind fun p => if p.1 = 0 then pollLoop ev p.2 else (ducClose ev p.2).bind (pollLoop ev) := by
  have hopen : ducOpen ev w = some (0, w) := if_pos hfd
  simp only [ducPoll, hopen, Option.bind_eq_bind, Option.bind_some, ne_eq, ite_not, if_true]

theorem poll_hands (hopen : w.con.fd ≠ -1) (ht : w.con.Tidy) :
    Hands ev w.con.fd id (fun _ => True) (ducPoll ev.hold w) (ducPoll ev w) := by
  rw [ducPoll_open hopen, ducPoll_open hopen]
  rcases hr : w.recv with _ | ⟨r, u⟩
  · exact Or.inl ⟨rfl, fun _ h => by cases h⟩
  obtain ⟨hor, -, -, htidy, -⟩ := recv_cases hr
  have htu := htidy ht
  simp only [Option.bind_some]
  split_ifs with h0
  · rcases hor with ⟨-, hfd⟩ | h1
    · exact hfd ▸ (pollLoop_relays ev htu).hands fun _ => congrFun
    · omega
  · refine Or.inr ⟨u.closed, trivial, ?_, disconnect_fd htu, pollLoop ev, rfl⟩
    exact pollLoop_closed (disconnect_tidy htu) (disconnect_fd htu)

/-! ## Runs -/

/-- A command or `duc_poll`. -/
def Call.Reads : Call ρ → Prop
  | .cmd _ | .poll => True
  | _ => False

/-- The calls of a run read from one connection. -/
def OnStream (w : World) (c : Call ρ) : Prop := c.Reads ∧ w.con.fd ≠ -1

theorem callStep_hands (ev : Handlers) {c : Call ρ} (hc : c.Reads) (hopen : w.con.fd ≠ -1) (ht : w.con.Tidy) :
    Hands ev w.con.fd id (fun _ => True) (callStep ev.hold w c) (callStep ev w c) := by
  cases c with
  | cmd c =>
    have ho : ∀ ev, ducOpen ev w = some (0, w) := fun _ => if_pos hopen
    exact (callStep_relays ev c (vsend_relays (ho _) (ho _) ht)).hands fun _ => congrFun
  | poll => exact poll_hands hopen ht
  | «open» => exact hc.elim
  | close => exact hc.elim
  | setauth user pass => exact hc.elim

/-- **Runs on one connection.** When the last call closes the connection, any handler is called in the
state in which handlers that hold leave the session. -/
theorem runs_hands {calls : List (Call ρ)} (hopen : w.con.fd ≠ -1) (ht : w.con.Tidy)
    (hon : Along (callStep ev.hold) OnStream w calls) (hrun : runs (callStep ev.hold) w calls = some v)
    (hfd : v.con.fd = -1) : ∃ f, runs (callStep ev) w calls = (ev.disconnect v).bind f := by
  induction calls generalizing w with
  | nil => exact absurd hfd (Option.some.inj hrun ▸ hopen)
  | cons c calls ih =>
    rw [runs_cons, Option.bind_eq_some_iff] at hrun
    obtain ⟨u, hstep, hrun⟩ := hrun
    rcases callStep_hands ev hon.1.1 hopen ht with ⟨heq, hx⟩ | ⟨u', -, hx, hfd', f, hf⟩
    · obtain ⟨hu, htu⟩ := hx u hstep
      obtain ⟨f, hf⟩ := ih (fun h => hopen (hu.symm.trans h)) htu (hon.2 u hstep) hrun
      exact ⟨f, by rw [runs_cons, heq, hstep]; exact hf⟩
    · obtain rfl := Option.some.inj (hstep.symm.trans hx)
      cases calls with
      | nil =>
        obtain rfl := Option.some.inj hrun
        exact ⟨fun s => (f s).bind some, by rw [runs_cons, hf, Option.bind_assoc]; rfl⟩
      | cons d ds => exact absurd hfd' (hon.2 u hstep).1.2

end Dudlc
