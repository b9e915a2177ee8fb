import Dudlc.Nested
import Dudlc.Twin

/-!
# Closed sessions

* `NoReply`, `World.Tidy`: a closed session carries no reply state.
* `callStep_tidy`: every call keeps this, unless `duc_open` refuses the server on an open socket.
* `callChecked`, `Reactions.checked`: calls, and handlers, that fault where `duc_open` does so.
* **`closed_clean`**: runs of calls keep this when no call, in a handler or not, does so, and after them the
  outcome of `duc_open` depends on the credentials and the next connection alone.
-/

namespace Dudlc

open Lib

variable {ρ : Type} {ev ev' : Handlers} {w w' v : World} {r : ℤ} {fmt : Cstr} {ap : List Arg}

/-- No reply is due, and nothing is left of one. -/
def NoReply (w : World) : Prop := w.inreply = false ∧ w.code = [] ∧ w.line = none

/-- The socket is in order, and a closed session carries no reply state. -/
structure World.Tidy (w : World) : Prop where
  con : w.con.Tidy
  closed : w.con.fd = -1 → NoReply w

/-- Handlers that leave the session in order. -/
structure Handlers.KeepTidy (ev : Handlers) : Prop where
  connect : ∀ w w', w.Tidy → ev.connect w = some w' → w'.Tidy
  disconnect : ∀ w w', w.Tidy → ev.disconnect w = some w' → w'.Tidy

theorem tidy_open (h : w.con.Tidy) (hfd : w.con.fd ≠ -1) : w.Tidy := ⟨h, fun h' => absurd h' hfd⟩

/-! ## One call -/

theorem close_tidy (hev : ev.KeepTidy) (hv : v.con.Tidy) (h : ducClose ev v = some w') : w'.Tidy :=
  hev.disconnect _ _ ⟨disconnect_tidy hv, fun _ => ⟨rfl, rfl, rfl⟩⟩ h

theorem rnext_tidy (hev : ev.KeepTidy) (hw : w.Tidy) (h : ducRnext ev w = some (r, w')) : w'.Tidy := by
  by_cases hin : w.inreply = true
  · have hfd : w.con.fd ≠ -1 := fun hfd => by
      rw [(hw.closed hfd).1] at hin
      cases hin
    obtain ⟨v, hv, ⟨-, rfl, hfd'⟩ | ⟨-, hc⟩⟩ := ducRnext_onward h
    · exact tidy_open (hv.tidy hw.con) (hfd'.symm ▸ hfd)
    · exact close_tidy hev (hv.tidy hw.con) hc
  · obtain ⟨-, rfl⟩ : (-2, w) = (r, w') := by simpa [ducRnext, hin] using h
    exact hw

theorem vsendSend_tidy (hev : ev.KeepTidy) (hw : w.Tidy) {cmd : List UInt8}
    (h : vsendSend ev w cmd = some (r, w')) : w'.Tidy := by
  obtain ⟨q, w₁, hs, hor⟩ := vsendSend_cases h
  have hfd : q = 0 → w.con.fd ≠ -1 := by
    rintro rfl hfd
    rw [World.send, if_pos (show w.unreplied.con.fd = -1 from hfd)] at hs
    cases hs
  obtain ⟨_, _, rfl⟩ := send_eq hs
  rcases hor with ⟨hq, -, rfl⟩ | ⟨-, -, hc⟩
  · exact tidy_open hw.con (hfd hq)
  · exact close_tidy hev (by exact hw.con) hc

theorem Handlers.KeepTidy.keeps (hev : ev.KeepTidy) : ev.Keeps fun w v => w.Tidy → v.Tidy where
  refl _ := id
  trans h h' hw := h' (h hw)
  rnext h hw := rnext_tidy hev hw h
  send h hw := vsendSend_tidy hev hw h
  version _ _ _ hw := ⟨hw.con, hw.closed⟩

/-- `duc_open` comes to refuse the server, for its hello message or its answer to the login, while the
socket is still open. -/
def Refuses (ev : Handlers) (w : World) : Prop :=
  w.con.fd = -1 ∧ ∃ w₁ w₂, ducSockConnect w = (0, w₁) ∧ helloBody ev stayOpen w₁ = some (false, w₂) ∧
    w₂.con.fd ≠ -1

/-- The test for it. -/
def refuses (ev : Handlers) (w : World) : Bool :=
  match ducSockConnect w with
  | (0, w₁) =>
    match helloBody ev stayOpen w₁ with
    | some (false, w₂) => decide (w.con.fd = -1 ∧ w₂.con.fd ≠ -1)
    | _ => false
  | _ => false

theorem refuses_iff : refuses ev w = true ↔ Refuses ev w := by
  unfold refuses Refuses
  rcases hc : ducSockConnect w with ⟨q, w₁⟩
  by_cases hq : q = 0
  · subst hq
    rcases hello : helloBody ev stayOpen w₁ with _ | ⟨_ | _, w₂⟩ <;> simp [hello]
  · simp [hq]

instance : Decidable (Refuses ev w) := decidable_of_iff _ refuses_iff

theorem open_tidy (hev : ev.KeepTidy) (hw : w.Tidy) (hno : ¬ Refuses ev w)
    (h : ducOpen ev w = some (r, w')) : w'.Tidy := by
  rcases ducOpen_cases h with ⟨-, -, rfl⟩ | ⟨q, w₁, hfd, hc, hor⟩
  · exact hw
  have htidy : w₁.con.Tidy := connect_tidy hfd hw.con hc
  rcases connect_cases hfd hc with ⟨rfl, ds, hw₁⟩ | ⟨rfl, -⟩
  · rcases hor with ⟨-, -, rfl⟩ | ⟨-, -, h0, -⟩
    · rcases hw₁ with rfl | rfl
      · exact ⟨htidy, hw.closed⟩
      · exact ⟨htidy, fun _ => hw.closed hfd⟩
    · cases h0
  have hopen : w₁.con.fd ≠ -1 := connect_open hfd hc
  rcases hor with ⟨h0, -⟩ | ⟨ok, w₂, -, hello, hor⟩
  · exact absurd rfl h0
  have hw₂ : w₂.Tidy := hev.keeps.hello hello (tidy_open (w := { w₁ with inreply := true }) htidy hopen)
  rcases hor with ⟨-, -, hconnect⟩ | ⟨rfl, -, rfl⟩
  · exact hev.connect _ _ (show World.Tidy { w₂ with log := w₂.log ++ [.connect] } from ⟨hw₂.con, hw₂.closed⟩)
      hconnect
  · have hclosed : w₂.con.fd = -1 := by
      by_contra h'
      exact hno ⟨hfd, w₁, w₂, hc, hello, h'⟩
    have hd : ducSockDisconnect w₂.con = w₂.con := by
      rw [ducSockDisconnect, if_pos (by omega)]
    rw [hd]
    exact hw₂

theorem pollLoop_tidy (hev : ev.KeepTidy) (hw : w.Tidy) (h : pollLoop ev w = some w') : w'.Tidy := by
  have hset : ∀ {u : World} {l con}, u.Tidy → ducSockGetline u.con = some (l, con) →
      World.Tidy { u with con := con } := fun hu hg =>
    ⟨getline_tidy hg hu.con, fun hfd => hu.closed ((getline_fd hg).1.symm.trans hfd)⟩
  refine pollLoop_rule hw ?_ ?_ ?_ ?_ h
  · intro u i t con hu hg _ _ _
    exact hset hu hg
  · intro u i t con hu hg _ _ _
    exact ⟨(hset hu hg).con, (hset hu hg).closed⟩
  · intro u con hu hg
    exact hset hu hg
  · intro u i t con v hu hg _ _ hc
    exact close_tidy hev (hset hu hg).con hc

/-- Calls that open the connection when it is closed. -/
def Call.Opens (w : World) : Call ρ → Prop
  | .open => True
  | .poll => True
  | .cmd _ => w.inreply = false
  | .close => False
  | .setauth _ _ => False

theorem poll_tidy (hev : ev.KeepTidy) (hw : w.Tidy) (hno : ¬ Refuses ev w)
    (h : ducPoll ev w = some w') : w'.Tidy := by
  obtain ⟨r, w₁, ho, hor⟩ := ducPoll_cases h
  have hw₁ := open_tidy hev hw hno ho
  rcases hor with ⟨-, rfl⟩ | ⟨q, w₂, -, hr, hor⟩
  · exact hw₁
  obtain ⟨hkept, ⟨-, -, h1, h2, h3⟩, -, htidy, -⟩ := recv_cases hr
  rcases hor with ⟨-, w₃, hc, hloop⟩ | ⟨hq, hloop⟩
  · exact pollLoop_tidy hev (close_tidy hev (htidy hw₁.con) hc) hloop
  · refine pollLoop_tidy hev ⟨htidy hw₁.con, fun hclosed => ?_⟩ hloop
    rcases hkept with ⟨-, hfd⟩ | hq'
    · obtain ⟨k1, k2, k3⟩ := hw₁.closed (hfd.symm.trans hclosed)
      exact ⟨h1.trans k1, h2.trans k2, h3.trans k3⟩
    · omega

/-- **Every call keeps the session in order**, unless `duc_open` refuses the server. -/
theorem callStep_tidy (hev : ev.KeepTidy) (hw : w.Tidy) {c : Call ρ}
    (hno : ¬ (c.Opens w ∧ Refuses ev w)) (h : callStep ev w c = some w') : w'.Tidy := by
  cases c with
  | «open» =>
    obtain ⟨⟨r, v⟩, ho, rfl⟩ := Option.map_eq_some_iff.1 h
    exact open_tidy hev hw (fun hr => hno ⟨trivial, hr⟩) ho
  | close => exact close_tidy hev hw.con h
  | poll => exact poll_tidy hev hw (fun hr => hno ⟨trivial, hr⟩) h
  | setauth user pass => exact Option.some.inj h ▸ ⟨hw.con, hw.closed⟩
  | cmd c =>
    have hopen : ∀ q v, w.inreply = false → ducOpen ev w = some (q, v) → v.Tidy :=
      fun q v hin ho => open_tidy hev hw (fun hr => hno ⟨hin, hr⟩) ho
    obtain ⟨⟨res, v⟩, hc, rfl⟩ := Option.map_eq_some_iff.1 h
    exact hev.keeps.runCmd (fun q v hin ho _ => hopen q v hin ho) hc hw

/-! ## Runs -/

instance (c : Call ρ) : Decidable (c.Opens w) := by
  cases c <;> unfold Call.Opens <;> infer_instance

/-- A call. It faults when `duc_open` refuses the server on an open socket. -/
def callChecked (ev : Handlers) (w : World) (c : Call ρ) : Option World :=
  if c.Opens w ∧ Refuses ev w then none else callStep ev w c

/-- The handlers of `Reactions.handlers` with such calls. -/
def Reactions.checked (p : Reactions ρ) : ℕ → Handlers
  | 0 => .stuck
  | n + 1 => p.through (callChecked (p.checked n))

theorem callChecked_below (hev : ev.Within ev') (w : World) (c : Call ρ) :
    Below (callChecked ev w c) (callStep ev' w c) := by
  intro v hv
  unfold callChecked at hv
  split_ifs at hv
  exact callStep_within hev w c v hv

theorem Reactions.checked_within (p : Reactions ρ) (n : ℕ) : (p.checked n).Within (p.handlers n) := by
  induction n with
  | zero => exact Handlers.within_stuck _
  | succ n ih => exact p.through_within (callChecked_below ih)

theorem callChecked_tidy (hev : ev.KeepTidy) {c : Call ρ} (hw : w.Tidy) (h : callChecked ev w c = some w') :
    w'.Tidy := by
  unfold callChecked at h
  split_ifs at h with hno
  exact callStep_tidy hev hw hno h

theorem Script.run_tidy (hev : ev.KeepTidy) {s : Script ρ} (hw : w.Tidy)
    (h : s.run (callChecked ev) w = some w') : w'.Tidy := by
  induction s generalizing w with
  | done => exact Option.some.inj h ▸ hw
  | call c next ih =>
    obtain ⟨v, hv, h⟩ := Option.bind_eq_some_iff.1 h
    exact ih v (callChecked_tidy hev hw hv) h

/-- **Handlers whose calls do not refuse a server** leave the session in order. -/
theorem Reactions.keepTidy (p : Reactions ρ) (n : ℕ) : (p.checked n).KeepTidy := by
  induction n with
  | zero => exact ⟨(fun _ _ _ h => by cases h), (fun _ _ _ h => by cases h)⟩
  | succ n ih => exact ⟨fun _ _ hw h => Script.run_tidy ih hw h, fun _ _ hw h => Script.run_tidy ih hw h⟩

/-- The handlers, made to return. -/
def Handlers.ended (ev : Handlers) : Handlers :=
  ⟨fun w => some ((ev.connect w).getD w), fun w => some ((ev.disconnect w).getD w)⟩

theorem Handlers.within_ended (ev : Handlers) : ev.Within ev.ended :=
  ⟨fun w v h => by simp [Handlers.ended, h], fun w v h => by simp [Handlers.ended, h]⟩

/-- The next `duc_open` of both sessions has the same outcome, whatever the handlers do. -/
structure SameOutcome (w v : World) : Prop where
  ended : ∀ ev : Handlers, ev.Returns → (∀ u, ∃ u', ev.connect u = some u') →
    (ducOpen ev w).map Prod.fst = (ducOpen ev v).map Prod.fst
  alike : ∀ (ev : Handlers) (q q' : ℤ) (u u' : World), ducOpen ev w = some (q, u) →
    ducOpen ev v = some (q', u') → q = q'

theorem SameAttempt.outcome (h : SameAttempt w v) : SameOutcome w v where
  ended ev hev hcon := open_twin hev hcon h
  alike ev q q' u u' hu hu' := by
    have hret : ev.ended.Returns := fun w => ⟨_, rfl⟩
    have hsame := open_twin hret (fun w => ⟨_, rfl⟩) h
    rw [open_within ev.within_ended w _ hu, open_within ev.within_ended v _ hu'] at hsame
    exact Option.some.inj hsame

/-- **A closed session carries no reply state.** Take handlers that make calls `p` of their own, nested less
than `n` deep, and a run in which no call, of the client or in a handler, refuses a server on an open socket.
When it ends with the socket closed, no reply state is left, and whether the next `duc_open` succeeds depends
on the credentials and the next connection alone. -/
theorem closed_clean (p : Reactions ρ) (n : ℕ) (hw : w.Tidy) {calls : List (Call ρ)}
    (h : (runs (callChecked (p.checked n)) w calls).isSome)
    (hr : runs (callStep (p.handlers n)) w calls = some w') (hclosed : w'.con.fd = -1) :
    NoReply w' ∧ ∀ v : World, v.Tidy → v.con.fd = -1 → v.user = w'.user → v.pass = w'.pass →
      v.dials.head? = w'.dials.head? → SameOutcome v w' := by
  obtain ⟨u, hu⟩ := Option.isSome_iff_exists.1 h
  have hstep := runs_below (callChecked_below (ρ := ρ) (p.checked_within n)) w calls u hu
  obtain rfl : u = w' := Option.some.inj (hstep.symm.trans hr)
  have hu' : u.Tidy := runs_keep (fun _ _ _ hw hc => callChecked_tidy (p.keepTidy n) hw hc) hw hu
  obtain ⟨hin, hcode, hline⟩ := hu'.closed hclosed
  refine ⟨⟨hin, hcode, hline⟩, fun v hv hfd huser hpass hdial => ?_⟩
  obtain ⟨vin, vcode, vline⟩ := hv.closed hfd
  exact SameAttempt.outcome ⟨⟨hfd, hclosed⟩, ⟨hv.con.empty hfd, hu'.con.empty hclosed⟩, huser, hpass,
    vin.trans hin.symm, vcode.trans hcode.symm, vline.trans hline.symm, hdial⟩

/-- A new session, with what its connection attempts will lead to. -/
def newWorld (dials : List Dial) : World where
  user := none
  pass := none
  con := ⟨-1, Block.fill _ 0, 0, 0⟩
  vmajor := 0
  vminor := 0
  inreply := false
  code := []
  line := none
  recvs := []
  sends := []
  dials := dials
  sent := []
  rooms := []
  log := []

theorem newWorld_tidy (dials : List Dial) : (newWorld dials).Tidy :=
  ⟨⟨Or.inl rfl, fun _ => ⟨rfl, rfl⟩⟩, fun _ => ⟨rfl, rfl, rfl⟩⟩

/-- A connection to a server that greets with `hello` and stays. -/
def greeting (hello : String) : Dial := .made 3 [some (Cstr.lit hello).bytes] []

/-- **The code of a refused server is left over.** The first server is busy; the second one is not
accepted after it, though a new session accepts it. -/
theorem closed_leftover :
    (∃ w', runs (callStep .passive) (newWorld [greeting "530 busy\n", greeting "220 dudld 1 2\n"])
        [(.open : Call Unit)] = some w' ∧ w'.con.fd = -1 ∧ ¬ NoReply w' ∧
      (ducOpen .passive w').map Prod.fst = some (-1)) ∧
    (ducOpen .passive (newWorld [greeting "220 dudld 1 2\n"])).map Prod.fst = some 0 := by
  have hrun : ((runs (callStep .passive)
      (newWorld [greeting "530 busy\n", greeting "220 dudld 1 2\n"]) [(.open : Call Unit)]).map
      fun w => (w.con.fd, w.code, (ducOpen .passive w).map Prod.fst)) =
      some (-1, (Cstr.lit "530").bytes, some (-1)) := by decide +kernel
  obtain ⟨w', hw', heq⟩ := Option.map_eq_some_iff.1 hrun
  simp only [Prod.mk.injEq] at heq
  refine ⟨⟨w', hw', heq.1, fun h => ?_, heq.2.2⟩, by decide +kernel⟩
  exact absurd (heq.2.1.symm.trans h.2.1) (by decide)

/-- Reconnecting when the connection is closed, as `cb_disc` of `cli/events.c` does. -/
def reconnecting : Reactions Unit := ⟨fun _ => .done, fun _ => .call .open fun _ => .done⟩

/-- A session that is opened and polled twice. The server closes the connection each time; the first time the
handler comes to a new one. -/
theorem closed_clean_reconnecting : ∃ w', runs (callStep (reconnecting.handlers 2))
    (newWorld [greeting "220 dudld 1 2\n", greeting "220 dudld 1 2\n"]) [(.open : Call Unit), .poll, .poll] = some w' ∧
    w'.log = [.connect, .disconnect, .connect, .disconnect] ∧ NoReply w' := by
  have hsome : ((runs (callStep (reconnecting.handlers 2))
      (newWorld [greeting "220 dudld 1 2\n", greeting "220 dudld 1 2\n"]) [(.open : Call Unit), .poll, .poll]).map
      fun w => (w.con.fd, w.log)) = some (-1, [.connect, .disconnect, .connect, .disconnect]) := by
    decide +kernel
  obtain ⟨w', hw', heq⟩ := Option.map_eq_some_iff.1 hsome
  obtain ⟨hfd, hlog⟩ := Prod.mk.inj heq
  exact ⟨w', hw', hlog, (closed_clean reconnecting 2 (newWorld_tidy _) (by decide +kernel) hw' hfd).1⟩

end Dudlc
