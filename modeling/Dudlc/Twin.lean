import Dudlc.Send
import Dudlc.Stream

/-!
# Sessions that differ in the past only

Two sessions are twins when they agree on what is unread and on what the next calls of the network will
do; the rest of the receive buffer, the events, the bytes sent and the attempts to come may differ.

* `DucSock.Twin`, `Twin`; `getline_twin`, `recv_twin`: the socket cannot tell twins apart.
* `rnext_twin`, `rlast_twin`, `hello_twin`: nor can the reading of replies and the login.
* **`open_twin`**: whether `duc_open` succeeds depends on the credentials and on the next connection
  alone.
-/

namespace Dudlc

open Lib

variable {ev : Handlers} {w v : World} {s t : DucSock}

/-! ## The socket -/

/-- The same bytes are unread, behind as many consumed ones. -/
def DucSock.Twin (s t : DucSock) : Prop := s.fd = t.fd ∧ ∃ taken u, Holds s taken u ∧ Holds t taken u

theorem getline_twin (h : s.Twin t) :
    Option.Rel (fun p q => p.1 = q.1 ∧ p.2.Twin q.2 ∧ ∀ i ∈ p.1, ∃ l, cstr p.2.buf i = some l ∧
        cstr q.2.buf i = some l ∧ (4 ≤ l.length → cstr p.2.buf (i + 4) = cstr q.2.buf (i + 4)))
      (ducSockGetline s) (ducSockGetline t) := by
  obtain ⟨hfd, taken, u, hs, ht⟩ := h
  rcases split_first isStop u with hu | ⟨l, c, r, rfl, hl, hc⟩
  · rcases lt_or_ge u.length (BUFLENRCV - 1) with hlt | hge
    · obtain ⟨s', hgs, hs', hfds, -⟩ := getline_of_none hs hu hlt
      obtain ⟨t', hgt, ht', hfdt, -⟩ := getline_of_none ht hu hlt
      rw [hgs, hgt]
      exact .some ⟨rfl, ⟨hfds.trans (hfd.trans hfdt.symm), [], u, hs', ht'⟩, by simp⟩
    · have hfull : u.length = BUFLENRCV - 1 := by
        have := hs.length_lt
        omega
      rw [getline_of_full hs hu hfull, getline_of_full ht hu hfull]
      exact .none
  · obtain ⟨s', hgs, hs', hfds⟩ := getline_of_some hs hl hc
    obtain ⟨t', hgt, ht', hfdt⟩ := getline_of_some ht hl hc
    have hfree := not_mem_of_not_isStop hl
    rw [hgs, hgt]
    refine .some ⟨rfl, ⟨hfds.trans (hfd.trans hfdt.symm), _, _, hs', ht'⟩, ?_⟩
    rintro i ⟨⟩
    exact ⟨l, cstr_line hs' hfree 0 (Nat.zero_le _), cstr_line ht' hfree 0 (Nat.zero_le _), fun h4 =>
      (cstr_line hs' hfree 4 h4).trans (cstr_line ht' hfree 4 h4).symm⟩

/-- The sessions agree on what is unread and on what is to come. -/
structure Twin (w v : World) : Prop where
  con : w.con.Twin v.con
  user : w.user = v.user
  pass : w.pass = v.pass
  inreply : w.inreply = v.inreply
  code : w.code = v.code
  line : w.line = v.line
  recvs : w.recvs = v.recvs
  sends : w.sends = v.sends

theorem Twin.fd (h : Twin w v) : w.con.fd = v.con.fd := h.con.1

theorem Twin.ilen (h : Twin w v) : w.con.ilen = v.con.ilen := by
  obtain ⟨-, taken, u, hw, hv⟩ := h.con
  rw [hw.ilen_eq, hv.ilen_eq]

theorem Twin.pending (h : Twin w v) : pending w = pending v := by
  obtain ⟨-, taken, u, hw, hv⟩ := h.con
  rw [Dudlc.pending, Dudlc.pending, h.recvs, h.ilen, hw.llen_eq, hv.llen_eq]

theorem Twin.setCon (h : Twin w v) (hst : s.Twin t) : Twin { w with con := s } { v with con := t } :=
  ⟨hst, h.user, h.pass, h.inreply, h.code, h.line, h.recvs, h.sends⟩

theorem read_congr {n m : Net} (h : n.recvs = m.recvs) (room : ℕ) :
    (n.read room).1 = (m.read room).1 ∧ (n.read room).2.recvs = (m.read room).2.recvs := by
  simp only [Net.read, h]
  rcases m.recvs with _ | ⟨_ | bs, rs⟩
  · exact ⟨rfl, rfl⟩
  · exact ⟨rfl, rfl⟩
  · simp only
    split_ifs <;> exact ⟨rfl, rfl⟩

theorem read_fits (n : Net) (room : ℕ) {bs : List UInt8} (h : (n.read room).1 = some bs) :
    bs.length ≤ room := by
  simp only [Net.read] at h
  rcases hr : n.recvs with _ | ⟨_ | cs, rs⟩ <;> simp only [hr] at h
  · obtain rfl := Option.some.inj h
    exact Nat.zero_le _
  · cases h
  · split_ifs at h with hfit
    · obtain rfl := Option.some.inj h
      exact hfit
    · obtain rfl := Option.some.inj h
      exact List.length_take_le _ _

theorem recv_twin (h : Twin w v) :
    Option.Rel (fun p q => p.1 = q.1 ∧ (p.1 = 0 → Twin p.2 q.2)) w.recv v.recv := by
  by_cases hfd : w.con.fd = -1
  · have hfd' : v.con.fd = -1 := h.fd.symm.trans hfd
    rw [World.recv, if_pos hfd, World.recv, if_pos hfd']
    exact .some ⟨rfl, by simp⟩
  have hfd' : v.con.fd ≠ -1 := fun h' => hfd (h.fd.trans h')
  have hroom : v.con.room = w.con.room := by rw [DucSock.room, DucSock.room, h.ilen]
  obtain ⟨hgot, hrecvs⟩ := read_congr (n := w.toNet) (m := v.toNet) h.recvs w.con.room
  rw [recv_eq hfd, recv_eq hfd', hroom, ← hgot, ← hrecvs]
  rcases hg : (w.toNet.read w.con.room).1 with _ | _ | ⟨b, bs⟩
  · simp only [ducSockRecv, if_neg hfd, if_neg hfd', Option.map_some]
    exact .some ⟨rfl, by simp⟩
  · simp only [ducSockRecv, if_neg hfd, if_neg hfd', Option.map_some]
    exact .some ⟨rfl, by simp⟩
  · obtain ⟨hfds, taken, u, hw, hv⟩ := h.con
    have hfit := read_fits _ _ hg
    obtain ⟨s', hs', hhs, hfs⟩ := recv_holds hw hfd (List.cons_ne_nil b bs) hfit
    obtain ⟨t', ht', hht, hft⟩ := recv_holds hv hfd' (List.cons_ne_nil b bs) (hroom ▸ hfit)
    rw [hs', ht']
    exact .some ⟨rfl, fun _ => ⟨⟨hfs.trans (hfds.trans hft.symm), taken, _, hhs, hht⟩, h.user, h.pass,
      h.inreply, h.code, h.line, rfl, h.sends⟩⟩

/-! ## Replies -/

/-- Handlers that return always or never when the connection is closed. -/
def Handlers.Steady (ev : Handlers) : Prop :=
  ∀ w v, Option.Rel (fun _ _ => True) (ev.disconnect w) (ev.disconnect v)

theorem Handlers.Returns.steady (hev : ev.Returns) : ev.Steady := by
  intro w v
  obtain ⟨w', hw'⟩ := hev w
  obtain ⟨v', hv'⟩ := hev v
  rw [hw', hv']
  exact .some trivial

theorem close_twin {β γ : Type*} {P : β → γ → Prop} (hev : ev.Steady) {f : World → β} {g : World → γ}
    (hfg : ∀ a b, P (f a) (g b)) (w v : World) :
    Option.Rel P ((ducClose ev w).bind fun w => some (f w)) ((ducClose ev v).bind fun w => some (g w)) :=
  rel_bind (hev _ _) fun a b _ => .some (hfg a b)

/-- The lines that the loop in `_duc_rnext` finds. -/
def SameLine (p q : Option (ℕ × List UInt8) × World) : Prop :=
  p.1 = q.1 ∧ ∀ i l, p.1 = some (i, l) →
    Twin p.2 q.2 ∧ cstr p.2.con.buf (i + 4) = cstr q.2.con.buf (i + 4)

theorem rnextBody_twin (hev : ev.Steady) (h : Twin w v) :
    Option.Rel (Sum.LiftRel Twin SameLine) (rnextBody ev w) (rnextBody ev v) := by
  refine rel_bind (getline_twin h.con) ?_
  rintro ⟨l, s⟩ ⟨l', t⟩ ⟨rfl, hst, htext⟩
  have hset := h.setCon hst
  cases l with
  | some i =>
    obtain ⟨l, hs, ht, h4⟩ := htext i rfl
    simp only [hs, ht, Option.bind_eq_bind, Option.bind_some, Option.pure_def]
    split_ifs with hlen hb
    · exact close_twin hev (fun a b => .inr ⟨rfl, by simp⟩) _ _
    · refine .some (.inr ⟨rfl, ?_⟩)
      rintro j k ⟨⟩
      exact ⟨hset, h4 (not_lt.1 hlen)⟩
    · exact .some (.inl ⟨hst, h.user, h.pass, h.inreply, h.code, h.line, h.recvs, h.sends⟩)
  | none =>
    refine rel_bind (recv_twin hset) ?_
    rintro ⟨r, w₁⟩ ⟨r', v₁⟩ ⟨rfl, htwin⟩
    simp only [Option.bind_eq_bind, Option.pure_def]
    split_ifs with hr
    · exact close_twin hev (fun a b => .inr ⟨rfl, by simp⟩) _ _
    · exact .some (.inl (htwin (not_not.1 hr)))

theorem rnextLoop_twin (hev : ev.Steady) (h : Twin w v) :
    Option.Rel SameLine (rnextLoop ev w) (rnextLoop ev v) := by
  rw [rnextLoop, rnextLoop, h.pending]
  exact loop_rel (fun _ _ => rnextBody_twin hev) _ h

theorem rnext_twin (hev : ev.Steady) (h : Twin w v) :
    Option.Rel (fun p q => p.1 = q.1 ∧ (p.1 ≠ -1 → Twin p.2 q.2) ∧ (p.1 = 0 → p.2.rline = q.2.rline))
      (ducRnext ev w) (ducRnext ev v) := by
  rw [ducRnext, ducRnext, h.inreply]
  split_ifs with hin
  · exact .some ⟨rfl, fun _ => h, by simp⟩
  refine rel_bind (rnextLoop_twin hev h) ?_
  rintro ⟨l, w₁⟩ ⟨l', v₁⟩ ⟨rfl, hline⟩
  cases l with
  | none => exact .some ⟨rfl, fun h => absurd rfl h, by simp⟩
  | some p =>
    obtain ⟨h₁, htext⟩ : Twin w₁ v₁ ∧ _ := hline p.1 p.2 rfl
    simp only [h₁.code, Option.bind_eq_bind, Option.pure_def]
    split_ifs with hcode hsame
    · exact close_twin hev (fun a b => ⟨rfl, fun h => absurd rfl h, by simp⟩) _ _
    · exact .some ⟨rfl, fun _ => ⟨h₁.con, h₁.user, h₁.pass, rfl, rfl, rfl, h₁.recvs, h₁.sends⟩,
        fun _ => htext⟩
    · exact .some ⟨rfl, fun _ => ⟨h₁.con, h₁.user, h₁.pass, rfl, rfl, rfl, h₁.recvs, h₁.sends⟩,
        fun _ => htext⟩

theorem rlastBody_twin (hev : ev.Steady) (h : Twin w v) (hl : w.inreply = true ∨ w.rline = v.rline) :
    Option.Rel (Sum.LiftRel (fun w v => Twin w v ∧ (w.inreply = true ∨ w.rline = v.rline))
        (fun p q => p.1 = q.1 ∧ (p.1 ≠ -1 → Twin p.2 q.2 ∧ p.2.rline = q.2.rline)))
      (rlastBody ev w) (rlastBody ev v) := by
  by_cases hin : w.inreply = true
  · unfold rlastBody
    rcases hw : ducRnext ev w with _ | ⟨r, w₁⟩
    · have hr := rnext_twin hev h
      rw [hw] at hr
      rcases hv : ducRnext ev v with _ | _
      · exact .none
      · rw [hv] at hr
        cases hr
    · have hr := rnext_twin hev h
      rw [hw] at hr
      rcases hv : ducRnext ev v with _ | ⟨r', v₁⟩ <;> rw [hv] at hr
      · cases hr
      obtain ⟨⟨rfl, htwin, hline⟩⟩ := hr
      simp only [Option.bind_eq_bind, Option.bind_some, Option.pure_def]
      rcases ducRnext_cases hw with ⟨h, -⟩ | ⟨-, -, rfl⟩ | ⟨_, _, _, -, -, ⟨-, -, rfl, -⟩ | ⟨-, rfl, -⟩⟩
      · rw [hin] at h
        cases h
      · exact .some (.inr ⟨rfl, fun h => absurd rfl h⟩)
      · exact .some (.inr ⟨rfl, fun h => absurd rfl h⟩)
      · exact .some (.inl ⟨htwin (show (0 : ℤ) ≠ -1 by decide), Or.inr (hline rfl)⟩)
  · have hin' : w.inreply = false := by simpa using hin
    have hin'' : v.inreply = false := h.inreply.symm.trans hin'
    simp only [rlastBody, ducRnext, hin', hin'', Bool.not_false, if_true, Option.bind_eq_bind,
      Option.bind_some, Option.pure_def]
    exact .some (.inr ⟨rfl, fun _ => ⟨h, hl.resolve_left hin⟩⟩)

theorem rlast_twin (hev : ev.Steady) (h : Twin w v) (hin : w.inreply = true) :
    Option.Rel (fun p q => p.1 = q.1 ∧ (p.1 = 0 → Twin p.2 q.2 ∧ p.2.rline = q.2.rline))
      (ducRlast ev w) (ducRlast ev v) := by
  rw [ducRlast, ducRlast, h.pending]
  refine rel_bind (loop_rel (fun w v hwv => rlastBody_twin hev hwv.1 hwv.2) _ ⟨h, Or.inl hin⟩) ?_
  rintro ⟨r, w₁⟩ ⟨r', v₁⟩ ⟨rfl, htwin⟩
  simp only [Option.pure_def]
  split_ifs with hr
  · exact .some ⟨rfl, by simp⟩
  · exact .some ⟨rfl, fun _ => htwin hr⟩

/-! ## Logging in -/

/-- Results that agree, and worlds that are twins after a success. -/
def SameResult (p q : ℤ × World) : Prop := p.1 = q.1 ∧ (p.1 = 0 → Twin p.2 q.2)

theorem send_twin (hev : ev.Steady) (h : Twin w v) (cmd : List UInt8) :
    Option.Rel (fun p q => SameResult p q ∧ (p.1 = 0 → p.2.inreply = true))
      (vsendSend ev w cmd) (vsendSend ev v cmd) := by
  have hfd : v.unreplied.con.fd = w.unreplied.con.fd := h.fd.symm
  have hs : v.unreplied.sends = w.unreplied.sends := h.sends.symm
  unfold vsendSend World.send
  rw [hfd, hs]
  by_cases hclosed : w.unreplied.con.fd = -1
  · rw [if_pos hclosed, if_pos hclosed]
    exact close_twin hev (fun a b => ⟨⟨rfl, by simp⟩, by simp⟩) _ _
  rw [if_neg hclosed, if_neg hclosed]
  rcases w.unreplied.sends with _ | ⟨_ | n, ss⟩
  · exact .some ⟨⟨rfl, fun _ => ⟨h.con, h.user, h.pass, rfl, rfl, rfl, h.recvs, rfl⟩⟩, fun _ => rfl⟩
  · exact close_twin hev (fun a b => ⟨⟨rfl, by simp⟩, by simp⟩) _ _
  · exact .some ⟨⟨rfl, fun _ => ⟨h.con, h.user, h.pass, rfl, rfl, rfl, h.recvs, rfl⟩⟩, fun _ => rfl⟩

theorem cmd_twin (hev : ev.Steady) (h : Twin w v) (fmt : Cstr) (ap : List Arg) :
    Option.Rel SameResult (cmdBody ev stayOpen (-1) succDone w fmt ap)
      (cmdBody ev stayOpen (-1) succDone v fmt ap) := by
  have hsend : Option.Rel (fun p q => SameResult p q ∧ (p.1 = 0 → p.2.inreply = true))
      (vsendBody ev stayOpen w fmt ap) (vsendBody ev stayOpen v fmt ap) := by
    unfold vsendBody stayOpen
    rw [← h.inreply, ← h.fd]
    split_ifs with hin hfd
    · exact .some ⟨⟨rfl, by simp⟩, by simp⟩
    · simp only [Option.bind_eq_bind, Option.bind_some, ne_eq, not_true_eq_false, if_false]
      rcases vsendBuf fmt ap with _ | _ | cmd
      · exact .none
      · exact .some ⟨⟨rfl, by simp⟩, by simp⟩
      · exact send_twin hev h cmd
    · exact .none
  refine rel_bind hsend ?_
  rintro ⟨r, w₁⟩ ⟨r', v₁⟩ ⟨⟨rfl, htwin⟩, hin⟩
  simp only [Option.bind_eq_bind, Option.pure_def]
  split_ifs with hr
  · exact .some ⟨rfl, by simp⟩
  obtain rfl : r = 0 := not_not.1 hr
  refine rel_bind (rlast_twin hev (htwin rfl) (hin rfl)) ?_
  rintro ⟨q, w₂⟩ ⟨q', v₂⟩ ⟨rfl, htwin₂⟩
  simp only
  split_ifs with hq
  · exact .some ⟨rfl, by simp⟩
  obtain ⟨h₂, -⟩ : Twin w₂ v₂ ∧ _ := htwin₂ (not_not.1 hq)
  have hdone : succDone w₂ = succDone v₂ := by rw [succDone, succDone, World.rcode, World.rcode, h₂.code]
  rw [hdone]
  cases succDone v₂ with
  | none => exact .none
  | some a => exact .some ⟨rfl, fun _ => h₂⟩

theorem auth_twin (hev : ev.Steady) (h : Twin w v) :
    Option.Rel SameResult (authBody ev stayOpen w) (authBody ev stayOpen v) := by
  unfold authBody
  rw [← h.user, ← h.pass]
  rcases w.user, w.pass with ⟨_ | user, _ | pass⟩
  · exact .some ⟨rfl, by simp⟩
  · exact .some ⟨rfl, by simp⟩
  · exact .some ⟨rfl, by simp⟩
  refine rel_bind (cmd_twin hev h _ _) ?_
  rintro ⟨r, w₁⟩ ⟨r', v₁⟩ ⟨rfl, htwin⟩
  simp only [Option.bind_eq_bind, Option.pure_def]
  split_ifs with hr
  · exact .some ⟨rfl, by simp⟩
  refine rel_bind (cmd_twin hev (htwin (not_not.1 hr)) _ _) ?_
  rintro ⟨q, w₂⟩ ⟨q', v₂⟩ ⟨rfl, htwin₂⟩
  simp only
  split_ifs with hq
  · exact .some ⟨rfl, by simp⟩
  · exact .some ⟨rfl, fun _ => htwin₂ (not_not.1 hq)⟩

/-- **The hello message and the login** are taken or refused alike. -/
theorem hello_twin (hev : ev.Steady) (h : Twin w v) :
    Option.Rel (fun p q : Bool × World => p.1 = q.1) (helloBody ev stayOpen w)
      (helloBody ev stayOpen v) := by
  unfold helloBody
  refine rel_bind (rlast_twin hev (w := { w with inreply := true }) (v := { v with inreply := true })
    ⟨h.con, h.user, h.pass, rfl, h.code, h.line, h.recvs, h.sends⟩ rfl) ?_
  rintro ⟨r, w₁⟩ ⟨r', v₁⟩ ⟨rfl, htwin⟩
  simp only [Option.bind_eq_bind, Option.pure_def]
  by_cases hr : r = 0
  swap
  · rw [if_pos hr, if_pos hr]
    exact .some rfl
  obtain ⟨h₁, hline⟩ : Twin w₁ v₁ ∧ w₁.rline = v₁.rline := htwin hr
  have hcode : w₁.rcode = v₁.rcode := by rw [World.rcode, World.rcode, h₁.code]
  simp only [hr, ne_eq, not_true_eq_false, if_false, hcode, hline, h₁.user]
  rcases v₁.rline with _ | s
  · simp only [Option.bind_none]
    split_ifs
    · exact .none
    · exact .some rfl
  simp only [Option.bind_some]
  have hauth : ∀ major minor, Option.Rel SameResult
      (authBody ev stayOpen { w₁ with vmajor := major, vminor := minor, user := v₁.user })
      (authBody ev stayOpen { v₁ with vmajor := major, vminor := minor }) := fun major minor =>
    auth_twin hev ⟨h₁.con, rfl, h₁.pass, h₁.inreply, h₁.code, h₁.line, h₁.recvs, h₁.sends⟩
  split_ifs
  · refine rel_bind (hauth _ _) ?_
    rintro ⟨q, w₂⟩ ⟨q', v₂⟩ ⟨rfl, -⟩
    exact .some rfl
  all_goals exact .some rfl

/-- Closed sessions with the same credentials and the same next connection. -/
structure SameAttempt (w v : World) : Prop where
  closed : w.con.fd = -1 ∧ v.con.fd = -1
  empty : (w.con.ilen = 0 ∧ w.con.llen = 0) ∧ v.con.ilen = 0 ∧ v.con.llen = 0
  user : w.user = v.user
  pass : w.pass = v.pass
  inreply : w.inreply = v.inreply
  code : w.code = v.code
  line : w.line = v.line
  dial : w.dials.head? = v.dials.head?

theorem connect_twin (h : SameAttempt w v) :
    (∃ w₁ v₁, ducSockConnect w = (0, w₁) ∧ ducSockConnect v = (0, v₁) ∧ Twin w₁ v₁) ∨
      ∃ w₁ v₁, ducSockConnect w = (-1, w₁) ∧ ducSockConnect v = (-1, v₁) := by
  obtain ⟨hw, hv⟩ := h.closed
  by_cases hmade : ∃ fd rs ss, w.dials.head? = some (.made fd rs ss)
  · obtain ⟨fd, rs, ss, hd⟩ := hmade
    have hconn : ∀ u : World, u.con.fd = -1 → u.dials.head? = some (.made fd rs ss) →
        ducSockConnect u = (0, { u with
          dials := u.dials.tail, recvs := rs, sends := ss, con := { u.con with fd := fd } }) := by
      intro u hu hud
      obtain ⟨ds, hds⟩ : ∃ ds, u.dials = .made fd rs ss :: ds := List.head?_eq_some_iff.1 hud
      rw [ducSockConnect, if_neg (not_not.2 hu), hds]
      rfl
    obtain ⟨⟨hi, hl⟩, hi', hl'⟩ := h.empty
    exact Or.inl ⟨_, _, hconn w hw hd, hconn v hv (h.dial ▸ hd), ⟨rfl, [], [], holds_nil hi hl,
      holds_nil hi' hl'⟩, h.user, h.pass, h.inreply, h.code, h.line, rfl, rfl⟩
  · push Not at hmade
    have hfail : ∀ u : World, u.con.fd = -1 → (∀ fd rs ss, u.dials.head? ≠ some (.made fd rs ss)) →
        ∃ u', ducSockConnect u = (-1, u') := by
      intro u hu hno
      rcases hc : ducSockConnect u with ⟨r, u'⟩
      rcases connect_cases hu hc with ⟨rfl, -⟩ | ⟨-, fd, rs, ss, ds, hd, -⟩
      · exact ⟨u', rfl⟩
      · exact absurd (by rw [hd]; rfl) (hno fd rs ss)
    obtain ⟨w', hw'⟩ := hfail w hw hmade
    obtain ⟨v', hv'⟩ := hfail v hv (h.dial ▸ hmade)
    exact Or.inr ⟨w', v', hw', hv'⟩

/-- **Whether `duc_open` succeeds** depends on the credentials and the next connection alone. -/
theorem open_twin (hev : ev.Returns) (hcon : ∀ u, ∃ u', ev.connect u = some u') (h : SameAttempt w v) :
    (ducOpen ev w).map Prod.fst = (ducOpen ev v).map Prod.fst := by
  obtain ⟨hw, hv⟩ := h.closed
  rw [ducOpen, ducOpen, openBody, openBody, if_neg (not_not.2 hw), if_neg (not_not.2 hv)]
  rcases connect_twin h with ⟨w₁, v₁, hw₁, hv₁, htwin⟩ | ⟨w₁, v₁, hw₁, hv₁⟩
  · rw [hw₁, hv₁]
    simp only [ne_eq, not_true_eq_false, if_false]
    have hello := hello_twin hev.steady htwin
    have hend : ∀ (ok : Bool) (u u' : World),
        ((if ok = true then (ev.connect { u with log := u.log ++ [.connect] }).bind fun u => some (0, u)
          else some (-1, { u with con := ducSockDisconnect u.con })).map Prod.fst : Option ℤ) =
        (if ok = true then (ev.connect { u' with log := u'.log ++ [.connect] }).bind fun u => some (0, u)
          else some (-1, { u' with con := ducSockDisconnect u'.con })).map Prod.fst := by
      intro ok u u'
      obtain ⟨a, ha⟩ := hcon { u with log := u.log ++ [.connect] }
      obtain ⟨b, hb⟩ := hcon { u' with log := u'.log ++ [.connect] }
      rw [ha, hb]
      cases ok <;> rfl
    revert hello
    generalize helloBody ev stayOpen _ = x
    generalize helloBody ev stayOpen _ = y
    rintro (⟨hxy⟩ | _)
    · rename_i p q
      simp only [Option.bind_eq_bind, Option.bind_some, Option.pure_def, hxy]
      exact hend _ _ _
    · rfl
  · rw [hw₁, hv₁]
    rfl

end Dudlc
