import Dudlc.Iterate

/-!
# What a call does to the session

* `Onward`: reading leaves credentials, connection attempts and sends alone, raises broadcasts only,
  and never calls `recv` without room.
* `ducRnext_onward`, `ducRlast_onward`: reading replies goes onward on the same connection, or goes
  onward and then closes the connection.
* `vsendBody_cases`, `cmdBody_cases`: the parts of a command; `authBody_cases`, `helloBody_cases`: those of
  connecting.
* **`ducOpen_eq`**: `duc_open` satisfies its recursion through `_duc_vsend`.
* `Call`, `callStep`: the calls of a client.
* `Handlers.Keeps`: relations that every command stays within, from its parts.
-/

namespace Dudlc

open Lib

variable {ρ : Type} {ev : Handlers} {w w' v : World} {r : ℤ}

/-! ## Reading -/

/-- The descriptor of an open socket is no negative number, and a closed socket has an empty buffer. -/
structure DucSock.Tidy (s : DucSock) : Prop where
  fd : s.fd = -1 ∨ 0 ≤ s.fd
  empty : s.fd = -1 → s.ilen = 0 ∧ s.llen = 0

/-- The world in which `duc_close` calls the handler. -/
def World.closed (w : World) : World :=
  { w with line := none, inreply := false, code := [], con := ducSockDisconnect w.con,
           log := w.log ++ [.disconnect] }

/-- A handler that does not use the session when the connection is closed. -/
def Handlers.Quiet (ev : Handlers) : Prop := ∀ w, ev.disconnect w = some w

theorem Handlers.quiet_passive : Handlers.passive.Quiet := fun _ => rfl

theorem close_quiet (hev : ev.Quiet) (w : World) : ducClose ev w = some w.closed := hev _

theorem close_passive (w : World) : ducClose .passive w = some w.closed := rfl

/-- Reading goes on, from `w` to `v`. -/
structure Onward (w v : World) : Prop where
  user : v.user = w.user
  pass : v.pass = w.pass
  dials : v.dials = w.dials
  sends : v.sends = w.sends
  sent : v.sent = w.sent
  tidy : w.con.Tidy → v.con.Tidy
  log : ∃ bs : List (List UInt8), v.log = w.log ++ bs.map Event.bcast
  rooms : ∃ rs, v.rooms = w.rooms ++ rs ∧ ∀ r ∈ rs, 1 ≤ r

theorem Onward.refl (w : World) : Onward w w :=
  ⟨rfl, rfl, rfl, rfl, rfl, id, ⟨[], by simp⟩, [], by simp, List.forall_mem_nil _⟩

theorem Onward.trans {u : World} (h : Onward w v) (h' : Onward v u) : Onward w u := by
  obtain ⟨bs, hbs⟩ := h.log
  obtain ⟨cs, hcs⟩ := h'.log
  obtain ⟨rs, hrs, hpos⟩ := h.rooms
  obtain ⟨ss, hss, hpos'⟩ := h'.rooms
  refine ⟨h'.user.trans h.user, h'.pass.trans h.pass, h'.dials.trans h.dials,
    h'.sends.trans h.sends, h'.sent.trans h.sent, h'.tidy ∘ h.tidy, ⟨bs ++ cs, ?_⟩, rs ++ ss, ?_,
    fun r hr => ?_⟩
  · rw [hcs, hbs, List.map_append, List.append_assoc]
  · rw [hss, hrs, List.append_assoc]
  · rcases List.mem_append.1 hr with hr | hr
    · exact hpos r hr
    · exact hpos' r hr

theorem Onward.set (w : World) (inreply : Bool) (code : List UInt8) (line : Option ℕ) :
    Onward w { w with inreply, code, line } :=
  ⟨rfl, rfl, rfl, rfl, rfl, id, ⟨[], by simp⟩, [], by simp, List.forall_mem_nil _⟩

theorem onward_bcast (w : World) (l : List UInt8) : Onward w (ducBcast w l) :=
  ⟨rfl, rfl, rfl, rfl, rfl, id, ⟨[l], rfl⟩, [], by simp [ducBcast], List.forall_mem_nil _⟩

theorem freeline_fd {s s' : DucSock} (h : freeline s = some s') : s'.fd = s.fd := by
  unfold freeline at h
  split_ifs at h
  · exact congrArg DucSock.fd (Option.some.inj h).symm
  · simp only [Option.bind_eq_bind, Option.bind_eq_some_iff, Option.pure_def, Option.some.injEq] at h
    obtain ⟨_, -, _, -, rfl⟩ := h
    rfl

theorem getline_fd {s s' : DucSock} {l : Option ℕ} (h : ducSockGetline s = some (l, s')) :
    s'.fd = s.fd ∧ (l = none → 1 ≤ s'.room) := by
  simp only [ducSockGetline, Option.bind_eq_bind, Option.bind_eq_some_iff, Option.pure_def] at h
  obtain ⟨t, ht, h⟩ := h
  rw [← freeline_fd ht]
  split_ifs at h with h₀
  · obtain ⟨rfl, rfl⟩ := Prod.mk.inj (Option.some.inj h)
    exact ⟨rfl, fun _ => by rw [DucSock.room, h₀]; decide⟩
  · rw [Option.bind_eq_some_iff] at h
    obtain ⟨n, -, h⟩ := h
    split_ifs at h with hn
    · obtain ⟨rfl, rfl⟩ := Prod.mk.inj (Option.some.inj h)
      refine ⟨rfl, fun _ => ?_⟩
      simp only [DucSock.room]
      omega
    · simp only [Option.bind_eq_some_iff] at h
      obtain ⟨_, -, k, -, h⟩ := h
      obtain ⟨rfl, rfl⟩ := Prod.mk.inj (Option.some.inj h)
      exact ⟨rfl, fun h => absurd h (by decide)⟩

theorem getline_tidy {s s' : DucSock} {l : Option ℕ} (h : ducSockGetline s = some (l, s'))
    (hs : s.Tidy) : s'.Tidy := by
  have hfd := (getline_fd h).1
  refine ⟨hfd ▸ hs.fd, fun hclosed => ?_⟩
  obtain ⟨hi, hl⟩ := hs.empty (hfd.symm.trans hclosed)
  have hfree : freeline s = some s := if_pos hl
  simp only [ducSockGetline, hfree, hi, Option.bind_eq_bind, Option.bind_some, if_true,
    Option.pure_def, Option.some.injEq, Prod.mk.injEq] at h
  exact h.2 ▸ ⟨hi, hl⟩

theorem onward_getline {l : Option ℕ} {con : DucSock} (h : ducSockGetline w.con = some (l, con)) :
    Onward w { w with con := con } :=
  ⟨rfl, rfl, rfl, rfl, rfl, getline_tidy h, ⟨[], by simp⟩, [], by simp, List.forall_mem_nil _⟩

theorem disconnect_tidy {s : DucSock} (hs : s.Tidy) : (ducSockDisconnect s).Tidy := by
  unfold ducSockDisconnect
  split_ifs with h
  · exact hs
  · exact ⟨Or.inl rfl, fun _ => ⟨rfl, rfl⟩⟩

theorem disconnect_fd {s : DucSock} (h : s.Tidy) : (ducSockDisconnect s).fd = -1 := by
  unfold ducSockDisconnect
  split_ifs with hfd
  · have := h.fd
    omega
  · rfl

theorem recv_tidy {s s' : DucSock} {got : Recv} (h : ducSockRecv s got = some (r, s')) (hs : s.Tidy) :
    s'.Tidy := by
  unfold ducSockRecv at h
  split_ifs at h with hfd
  · exact (Prod.mk.inj (Option.some.inj h)).2 ▸ hs
  · rcases got with _ | _ | ⟨b, bs⟩
    · exact (Prod.mk.inj (Option.some.inj h)).2 ▸ hs
    · exact (Prod.mk.inj (Option.some.inj h)).2 ▸ disconnect_tidy hs
    · simp only [Option.bind_eq_bind, Option.bind_eq_some_iff, Option.pure_def] at h
      obtain ⟨_, -, _, -, h⟩ := h
      obtain ⟨-, rfl⟩ := Prod.mk.inj (Option.some.inj h)
      exact ⟨hs.fd, fun h => absurd h hfd⟩

theorem recv_cases (h : w.recv = some (r, v)) : (r = 0 ∧ v.con.fd = w.con.fd ∨ r = -1) ∧
    (v.user = w.user ∧ v.pass = w.pass ∧ v.inreply = w.inreply ∧ v.code = w.code ∧ v.line = w.line) ∧
    (v.dials = w.dials ∧ v.sends = w.sends ∧ v.sent = w.sent ∧ v.log = w.log) ∧
    (w.con.Tidy → v.con.Tidy) ∧ ∃ rs, v.rooms = w.rooms ++ rs ∧ (rs = [] ∨ rs = [w.con.room]) := by
  unfold World.recv at h
  split_ifs at h with hfd
  · obtain ⟨rfl, rfl⟩ := Prod.mk.inj (Option.some.inj h)
    exact ⟨Or.inr rfl, by simp, by simp, id, [], by simp⟩
  · have hread : ∀ got n, w.toNet.read w.con.room = (got, n) → n.dials = w.dials ∧
        n.sends = w.sends ∧ n.sent = w.sent ∧ n.rooms = w.rooms ++ [w.con.room] := by
      intro got n hn
      unfold Net.read at hn
      rcases hw : w.recvs with _ | ⟨_ | bs, rs⟩ <;> simp only [hw] at hn
      · obtain ⟨-, rfl⟩ := Prod.mk.inj hn; simp
      · obtain ⟨-, rfl⟩ := Prod.mk.inj hn; simp
      · split_ifs at hn
        all_goals obtain ⟨-, rfl⟩ := Prod.mk.inj hn; simp
    rcases hn : w.toNet.read w.con.room with ⟨got, n⟩
    obtain ⟨h1, h2, h3, h4⟩ := hread got n hn
    simp only [hn, Option.map_eq_some_iff] at h
    obtain ⟨⟨r', con⟩, hrecv, h⟩ := h
    obtain ⟨rfl, rfl⟩ := Prod.mk.inj h
    refine ⟨?_, ⟨rfl, rfl, rfl, rfl, rfl⟩, ⟨h1, h2, h3, rfl⟩, recv_tidy hrecv, _, h4, Or.inr rfl⟩
    unfold ducSockRecv at hrecv
    rw [if_neg hfd] at hrecv
    rcases got with _ | _ | ⟨b, bs⟩
    · exact Or.inr (Prod.mk.inj (Option.some.inj hrecv)).1.symm
    · exact Or.inr (Prod.mk.inj (Option.some.inj hrecv)).1.symm
    · simp only [Option.bind_eq_bind, Option.bind_eq_some_iff, Option.pure_def] at hrecv
      obtain ⟨_, -, _, -, hrecv⟩ := hrecv
      obtain ⟨rfl, rfl⟩ := Prod.mk.inj (Option.some.inj hrecv)
      exact Or.inl ⟨rfl, rfl⟩

theorem recv_onward (h : w.recv = some (r, v)) (hroom : 1 ≤ w.con.room) : Onward w v := by
  obtain ⟨-, ⟨h1, h2, -⟩, ⟨h3, h4, h5, h6⟩, htidy, rs, hrs, hor⟩ := recv_cases h
  refine ⟨h1, h2, h3, h4, h5, htidy, ⟨[], by simp [h6]⟩, rs, hrs, ?_⟩
  rintro r hr
  rcases hor with rfl | rfl
  · cases hr
  · exact List.mem_singleton.1 hr ▸ hroom

theorem rnextLoop_onward {l : Option (ℕ × List UInt8)} (h : rnextLoop ev w = some (l, w')) :
    ∃ v, Onward w v ∧ ((l.isSome ∧ v = w' ∧ v.con.fd = w.con.fd ∧ v.inreply = w.inreply ∧
      v.code = w.code ∧ v.line = w.line) ∨ (l = none ∧ ducClose ev v = some w')) := by
  refine loop_partial (fun u => Onward w u ∧ u.con.fd = w.con.fd ∧ u.inreply = w.inreply ∧
      u.code = w.code ∧ u.line = w.line)
    (fun b : Option (ℕ × List UInt8) × World => ∃ v, Onward w v ∧
      ((b.1.isSome ∧ v = b.2 ∧ v.con.fd = w.con.fd ∧ v.inreply = w.inreply ∧
        v.code = w.code ∧ v.line = w.line) ∨ (b.1 = none ∧ ducClose ev v = some b.2)))
    ?_ ?_ _ w _ ⟨Onward.refl w, rfl, rfl, rfl, rfl⟩ h
  · rintro u u' ⟨hu, h1, h2, h3, h4⟩ hb
    rcases rnextBody_cases hb with ⟨i, t, con, hg, -, h⟩ | ⟨con, r, w₁, hg, hr, h⟩
    · rcases h with ⟨-, _, -, h⟩ | ⟨-, -, h⟩ | ⟨-, -, h⟩ <;> cases h
      refine ⟨hu.trans ((onward_getline hg).trans
        (onward_bcast _ t)), ?_, h2, h3, h4⟩
      exact (getline_fd hg).1.trans h1
    · rcases h with ⟨-, _, -, h⟩ | ⟨rfl, h⟩ <;> cases h
      obtain ⟨hfd | hbad, ⟨-, -, k2, k3, k4⟩, -⟩ := recv_cases hr
      · refine ⟨hu.trans ((onward_getline hg).trans
          (recv_onward hr ((getline_fd hg).2 rfl))), ?_, k2.trans h2, k3.trans h3, k4.trans h4⟩
        exact hfd.2.trans ((getline_fd hg).1.trans h1)
      · cases hbad
  · rintro u b ⟨hu, h1, h2, h3, h4⟩ hb
    rcases rnextBody_cases hb with ⟨i, t, con, hg, -, h⟩ | ⟨con, r, w₁, hg, hr, h⟩
    · have hset := hu.trans (onward_getline hg)
      rcases h with ⟨-, w', hc, h⟩ | ⟨-, -, h⟩ | ⟨-, -, h⟩ <;> cases h
      · exact ⟨_, hset, Or.inr ⟨rfl, hc⟩⟩
      · exact ⟨_, hset, Or.inl ⟨rfl, rfl, (getline_fd hg).1.trans h1, h2, h3, h4⟩⟩
    · rcases h with ⟨-, w', hc, h⟩ | ⟨-, h⟩ <;> cases h
      exact ⟨_, hu.trans ((onward_getline hg).trans
        (recv_onward hr ((getline_fd hg).2 rfl))), Or.inr ⟨rfl, hc⟩⟩

/-- **`_duc_rnext`** stays on the connection, or closes it and returns -1. -/
theorem ducRnext_onward (h : ducRnext ev w = some (r, w')) : ∃ v, Onward w v ∧
    ((r ≠ -1 ∧ v = w' ∧ v.con.fd = w.con.fd) ∨ (r = -1 ∧ ducClose ev v = some w')) := by
  rcases ducRnext_cases h with ⟨-, rfl, rfl⟩ | ⟨-, hloop, rfl⟩ | ⟨i, l, w₁, -, hloop, h⟩
  · exact ⟨_, Onward.refl _, Or.inl ⟨by decide, rfl, rfl⟩⟩
  · obtain ⟨v, hv, ⟨hsome, -⟩ | ⟨-, hc⟩⟩ := rnextLoop_onward hloop
    · cases hsome
    · exact ⟨v, hv, Or.inr ⟨rfl, hc⟩⟩
  · obtain ⟨v, hv, ⟨-, rfl, hfd, -⟩ | ⟨hnone, -⟩⟩ := rnextLoop_onward hloop
    · rcases h with ⟨-, -, rfl, hc⟩ | ⟨-, rfl, rfl⟩
      · exact ⟨_, hv.trans (Onward.set v v.inreply v.code _),
          Or.inr ⟨rfl, hc⟩⟩
      · exact ⟨_, hv.trans (Onward.set v _ _ _),
          Or.inl ⟨by decide, rfl, hfd⟩⟩
    · cases hnone

/-- **`_duc_rlast`** stays on the connection and returns 0, or closes it and returns -1. -/
theorem ducRlast_onward (h : ducRlast ev w = some (r, w')) : ∃ v, Onward w v ∧
    ((r = 0 ∧ v = w' ∧ v.con.fd = w.con.fd) ∨ (r = -1 ∧ ducClose ev v = some w')) := by
  refine ducRlast_rule (I := fun u => Onward w u ∧ u.con.fd = w.con.fd)
    (Q := fun r u => ∃ v, Onward w v ∧
      ((r = 0 ∧ v = u ∧ v.con.fd = w.con.fd) ∨ (r = -1 ∧ ducClose ev v = some u)))
    ⟨Onward.refl w, rfl⟩ ?_ ?_ ?_ h
  · rintro u u' ⟨hu, hfd⟩ hr
    obtain ⟨v, hv, ⟨-, rfl, hfd'⟩ | ⟨h1, -⟩⟩ := ducRnext_onward hr
    · exact ⟨hu.trans hv, hfd'.trans hfd⟩
    · cases h1
  · rintro u ⟨hu, hfd⟩ -
    exact ⟨u, hu, Or.inl ⟨rfl, rfl, hfd⟩⟩
  · rintro u u' ⟨hu, -⟩ hr
    obtain ⟨v, hv, ⟨h1, -⟩ | ⟨-, hc⟩⟩ := ducRnext_onward hr
    · exact absurd rfl h1
    · exact ⟨v, hu.trans hv, Or.inr ⟨rfl, hc⟩⟩

theorem close_closes (hev : ev.Quiet) (ht : w.con.Tidy) (h : ducClose ev w = some v) : v.con.fd = -1 := by
  rw [close_quiet hev] at h
  exact Option.some.inj h ▸ disconnect_fd ht

theorem rnext_closes (hev : ev.Quiet) (ht : w.con.Tidy) (h : ducRnext ev w = some (-1, v)) :
    v.con.fd = -1 := by
  obtain ⟨u, hu, ⟨h1, -⟩ | ⟨-, hc⟩⟩ := ducRnext_onward h
  · exact absurd rfl h1
  · exact close_closes hev (hu.tidy ht) hc

theorem rlast_closes (hev : ev.Quiet) (ht : w.con.Tidy) (h : ducRlast ev w = some (-1, v)) :
    v.con.fd = -1 := by
  obtain ⟨u, hu, ⟨h1, -⟩ | ⟨-, hc⟩⟩ := ducRlast_onward h
  · cases h1
  · exact close_closes hev (hu.tidy ht) hc

/-! ## Commands -/

variable {open_ : World → Option (ℤ × World)} {fmt : Cstr} {ap : List Arg}

/-- **`_duc_vsend`**: a reply is due, the connection fails, the text is too long, or it is sent. -/
theorem vsendBody_cases (h : vsendBody ev open_ w fmt ap = some (r, w')) :
    (w.inreply = true ∧ r = -1 ∧ w' = w) ∨
    (w.inreply = false ∧ ∃ q, open_ w = some (q, w') ∧ q ≠ 0 ∧ r = -1) ∨
    ∃ w₁ cmd, w.inreply = false ∧ open_ w = some (0, w₁) ∧ vsendBuf fmt ap = some cmd ∧
      ((cmd = none ∧ r = -1 ∧ w' = w₁) ∨
        ∃ t, cmd = some t ∧ vsendSend ev w₁ t = some (r, w')) := by
  unfold vsendBody at h
  split_ifs at h with hin
  · obtain ⟨rfl, rfl⟩ := Prod.mk.inj (Option.some.inj h)
    exact Or.inl ⟨hin, rfl, rfl⟩
  have hin : w.inreply = false := by simpa using hin
  simp only [Option.bind_eq_bind, Option.bind_eq_some_iff, Option.pure_def] at h
  obtain ⟨⟨q, w₁⟩, hopen, h⟩ := h
  split_ifs at h with hq
  · obtain ⟨rfl, rfl⟩ := Prod.mk.inj (Option.some.inj h)
    exact Or.inr (Or.inl ⟨hin, q, hopen, hq, rfl⟩)
  obtain rfl : q = 0 := not_not.1 hq
  rw [Option.bind_eq_some_iff] at h
  obtain ⟨cmd, hcmd, h⟩ := h
  refine Or.inr (Or.inr ⟨w₁, cmd, hin, hopen, hcmd, ?_⟩)
  cases cmd with
  | none =>
    obtain ⟨rfl, rfl⟩ := Prod.mk.inj (Option.some.inj h)
    exact Or.inl ⟨rfl, rfl, rfl⟩
  | some t => exact Or.inr ⟨t, rfl, h⟩

theorem vsendSend_cases {cmd : List UInt8} (h : vsendSend ev w cmd = some (r, w')) :
    ∃ q w₁, w.unreplied.send cmd = (q, w₁) ∧
      ((q = 0 ∧ r = 0 ∧ w' = { w₁ with inreply := true }) ∨
        (q ≠ 0 ∧ r = -1 ∧ ducClose ev w₁ = some w')) := by
  unfold vsendSend at h
  rcases hs : w.unreplied.send cmd with ⟨q, w₁⟩
  rw [hs] at h
  refine ⟨q, w₁, rfl, ?_⟩
  split at h
  · next heq =>
    obtain ⟨rfl, rfl⟩ := Prod.mk.inj heq
    obtain ⟨rfl, rfl⟩ := Prod.mk.inj (Option.some.inj h)
    exact Or.inl ⟨rfl, rfl, rfl⟩
  · next hq heq =>
    obtain ⟨rfl, rfl⟩ := Prod.mk.inj heq
    simp only [Option.bind_eq_bind, Option.bind_eq_some_iff, Option.pure_def] at h
    obtain ⟨w₂, hc, h⟩ := h
    obtain ⟨rfl, rfl⟩ := Prod.mk.inj (Option.some.inj h)
    exact Or.inr ⟨fun h0 => hq h0, rfl, hc⟩

theorem send_eq {cmd : List UInt8} (h : World.send w cmd = (r, v)) :
    ∃ sends sent, v = { w with sends, sent } := by
  unfold World.send at h
  split_ifs at h with hfd
  · exact ⟨w.sends, w.sent, (Prod.mk.inj h).2.symm⟩
  · rcases hs : w.sends with _ | ⟨_ | n, ss⟩ <;> simp only [hs] at h
    · exact ⟨_, _, (Prod.mk.inj h).2.symm⟩
    · exact ⟨_, _, (Prod.mk.inj h).2.symm⟩
    · exact ⟨_, _, (Prod.mk.inj h).2.symm⟩

/-- **The command helpers** fail to send, fail to read the reply, or use it. -/
theorem cmdBody_cases {α : Type} {fail a : α} {done : World → Option α}
    (h : cmdBody ev open_ fail done w fmt ap = some (a, w')) :
    (∃ q, vsendBody ev open_ w fmt ap = some (q, w') ∧ q ≠ 0 ∧ a = fail) ∨
    ∃ w₁, vsendBody ev open_ w fmt ap = some (0, w₁) ∧
      ((∃ q, ducRlast ev w₁ = some (q, w') ∧ q ≠ 0 ∧ a = fail) ∨
        (ducRlast ev w₁ = some (0, w') ∧ done w' = some a)) := by
  simp only [cmdBody, Option.bind_eq_bind, Option.bind_eq_some_iff, Option.pure_def] at h
  obtain ⟨⟨q, w₁⟩, hv, h⟩ := h
  split_ifs at h with hq
  · obtain ⟨rfl, rfl⟩ := Prod.mk.inj (Option.some.inj h)
    exact Or.inl ⟨q, hv, hq, rfl⟩
  obtain rfl : q = 0 := not_not.1 hq
  rw [Option.bind_eq_some_iff] at h
  obtain ⟨⟨p, w₂⟩, hl, h⟩ := h
  refine Or.inr ⟨w₁, hv, ?_⟩
  split_ifs at h with hp
  · obtain ⟨rfl, rfl⟩ := Prod.mk.inj (Option.some.inj h)
    exact Or.inl ⟨p, hl, hp, rfl⟩
  · obtain rfl : p = 0 := not_not.1 hp
    rw [Option.bind_eq_some_iff] at h
    obtain ⟨b, hb, h⟩ := h
    obtain ⟨rfl, rfl⟩ := Prod.mk.inj (Option.some.inj h)
    exact Or.inr ⟨hl, hb⟩

/-- **`duc_cmd_auth`**: there are no credentials, or the user is sent, and then the password. -/
theorem authBody_cases (h : authBody ev open_ w = some (r, w')) :
    (r = -1 ∧ w' = w) ∨
    ∃ user pass q w₁, w.user = some user ∧ w.pass = some pass ∧
      cmdBody ev open_ (-1) succDone w (.lit "user %s") [.str user] = some (q, w₁) ∧
      ((q ≠ 0 ∧ r = -1 ∧ w' = w₁) ∨
        ∃ q', q = 0 ∧ cmdBody ev open_ (-1) succDone w₁ (.lit "pass %s") [.str pass] = some (q', w') ∧
          ((q' ≠ 0 ∧ r = -1) ∨ (q' = 0 ∧ r = 0))) := by
  unfold authBody at h
  rcases hu : w.user with _ | user <;> rcases hp : w.pass with _ | pass <;> simp only [hu, hp] at h
  · exact Or.inl ⟨(Prod.mk.inj (Option.some.inj h)).1.symm, (Prod.mk.inj (Option.some.inj h)).2.symm⟩
  · exact Or.inl ⟨(Prod.mk.inj (Option.some.inj h)).1.symm, (Prod.mk.inj (Option.some.inj h)).2.symm⟩
  · exact Or.inl ⟨(Prod.mk.inj (Option.some.inj h)).1.symm, (Prod.mk.inj (Option.some.inj h)).2.symm⟩
  simp only [Option.bind_eq_bind, Option.bind_eq_some_iff, Option.pure_def] at h
  obtain ⟨⟨q, w₁⟩, hc, h⟩ := h
  refine Or.inr ⟨user, pass, q, w₁, rfl, rfl, hc, ?_⟩
  split_ifs at h with hq
  · obtain ⟨rfl, rfl⟩ := Prod.mk.inj (Option.some.inj h)
    exact Or.inl ⟨hq, rfl, rfl⟩
  rw [Option.bind_eq_some_iff] at h
  obtain ⟨⟨q', w₂⟩, hc', h⟩ := h
  refine Or.inr ⟨q', not_not.1 hq, ?_⟩
  split_ifs at h with hq' <;> obtain ⟨rfl, rfl⟩ := Prod.mk.inj (Option.some.inj h)
  · exact ⟨hc', Or.inl ⟨hq', rfl⟩⟩
  · exact ⟨hc', Or.inr ⟨not_not.1 hq', rfl⟩⟩

/-- **The hello message**: it does not come or is not that of a server, the server has another version, or
there is no user, or the user is logged in. -/
theorem helloBody_cases {ok : Bool} (h : helloBody ev open_ w = some (ok, w')) :
    ∃ q w₁, ducRlast ev { w with inreply := true } = some (q, w₁) ∧
      ((q ≠ 0 ∧ ok = false ∧ w' = w₁) ∨ (q = 0 ∧ ok = false ∧ w' = w₁) ∨
        ∃ major minor, q = 0 ∧
          ((major ≠ 1 ∧ ok = false ∧ w' = { w₁ with vmajor := major, vminor := minor }) ∨
            (major = 1 ∧ w₁.user = none ∧ ok = true ∧ w' = { w₁ with vmajor := major, vminor := minor }) ∨
            ∃ r, major = 1 ∧ authBody ev open_ { w₁ with vmajor := major, vminor := minor } = some (r, w') ∧
              (ok = true ↔ r = 0))) := by
  simp only [helloBody, Option.bind_eq_bind, Option.bind_eq_some_iff, Option.pure_def] at h
  obtain ⟨⟨q, w₁⟩, hl, h⟩ := h
  refine ⟨q, w₁, hl, ?_⟩
  by_cases hq : q ≠ 0
  · rw [if_pos hq] at h
    obtain ⟨rfl, rfl⟩ := Prod.mk.inj (Option.some.inj h)
    exact Or.inl ⟨hq, rfl, rfl⟩
  rw [if_neg hq] at h
  by_cases hcode : w₁.rcode ≠ some 50
  · rw [if_pos hcode] at h
    obtain ⟨rfl, rfl⟩ := Prod.mk.inj (Option.some.inj h)
    exact Or.inr (Or.inl ⟨not_not.1 hq, rfl, rfl⟩)
  rw [if_neg hcode, Option.bind_eq_some_iff] at h
  obtain ⟨s, -, h⟩ := h
  by_cases htext : s.take 5 ≠ (Cstr.lit "dudld").bytes
  · rw [if_pos htext] at h
    obtain ⟨rfl, rfl⟩ := Prod.mk.inj (Option.some.inj h)
    exact Or.inr (Or.inl ⟨not_not.1 hq, rfl, rfl⟩)
  rw [if_neg htext] at h
  refine Or.inr (Or.inr ⟨(helloVersion (s.drop 5)).1, (helloVersion (s.drop 5)).2, not_not.1 hq, ?_⟩)
  by_cases hversion : (helloVersion (s.drop 5)).1 ≠ 1
  · rw [if_pos hversion] at h
    obtain ⟨rfl, rfl⟩ := Prod.mk.inj (Option.some.inj h)
    exact Or.inl ⟨hversion, rfl, rfl⟩
  rw [if_neg hversion] at h
  split_ifs at h with huser
  · rw [Option.bind_eq_some_iff] at h
    obtain ⟨⟨r, w₂⟩, ha, h⟩ := h
    obtain ⟨rfl, rfl⟩ := Prod.mk.inj (Option.some.inj h)
    exact Or.inr (Or.inr ⟨r, not_not.1 hversion, ha, decide_eq_true_iff⟩)
  · obtain ⟨rfl, rfl⟩ := Prod.mk.inj (Option.some.inj h)
    exact Or.inr (Or.inl ⟨not_not.1 hversion, Option.not_isSome_iff_eq_none.1 huser, rfl, rfl⟩)

theorem cmdBody_stayOpen (h : cmdBody ev stayOpen (-1) succDone w fmt ap = some (0, w')) :
    w.con.fd ≠ -1 ∧ w'.con.fd = w.con.fd := by
  rcases cmdBody_cases h with ⟨-, -, -, h⟩ | ⟨w₁, hv, ⟨-, -, -, h⟩ | ⟨hl, -⟩⟩
  · cases h
  · cases h
  obtain ⟨v, -, ⟨-, rfl, hfd⟩ | ⟨h, -⟩⟩ := ducRlast_onward hl
  · rcases vsendBody_cases hv with ⟨-, h, -⟩ | ⟨-, _, -, -, h⟩ | ⟨w₂, cmd, -, ho, -, h⟩
    · cases h
    · cases h
    · rcases h with ⟨-, h, -⟩ | ⟨t, -, hsend⟩
      · cases h
      · obtain ⟨q, w₃, hs, ⟨-, -, rfl⟩ | ⟨-, h, -⟩⟩ := vsendSend_cases hsend
        · obtain ⟨_, _, rfl⟩ := send_eq hs
          unfold stayOpen at ho
          split_ifs at ho with hne
          obtain ⟨-, rfl⟩ := Prod.mk.inj (Option.some.inj ho)
          exact ⟨hne, hfd⟩
        · cases h
  · cases h

/-! ## The recursion of `duc_open` -/

/-- **Connecting** from a closed socket fails, or makes the next connection. -/
theorem connect_cases (hfd : w.con.fd = -1) (h : ducSockConnect w = (r, v)) :
    (r = -1 ∧ ∃ ds, v = { w with dials := ds } ∨
      v = { w with dials := ds, con := { w.con with ilen := 0, llen := 0 } }) ∨
    (r = 0 ∧ ∃ (fd : ℕ) (rs : _) (ss : _) (ds : _), w.dials = .made fd rs ss :: ds ∧
      v = { w with dials := ds, recvs := rs, sends := ss, con := { w.con with fd := fd } }) := by
  unfold ducSockConnect at h
  rw [if_neg (not_not.2 hfd)] at h
  rcases hd : w.dials with _ | ⟨_ | _ | ⟨fd, rs, ss⟩, ds⟩ <;> simp only [hd] at h <;>
    obtain ⟨rfl, rfl⟩ := Prod.mk.inj h
  · exact Or.inl ⟨rfl, [], Or.inl (by rw [← hd])⟩
  · exact Or.inl ⟨rfl, ds, Or.inl rfl⟩
  · exact Or.inl ⟨rfl, ds, Or.inr rfl⟩
  · exact Or.inr ⟨rfl, fd, rs, ss, ds, rfl, rfl⟩

theorem connect_open (hfd : w.con.fd = -1) (h : ducSockConnect w = (0, v)) : v.con.fd ≠ -1 := by
  rcases connect_cases hfd h with ⟨h, -⟩ | ⟨-, fd, _, _, _, -, rfl⟩
  · cases h
  · change (fd : ℤ) ≠ -1
    omega

theorem connect_tidy (hfd : w.con.fd = -1) (hw : w.con.Tidy) (h : ducSockConnect w = (r, v)) : v.con.Tidy := by
  rcases connect_cases hfd h with ⟨-, ds, rfl | rfl⟩ | ⟨-, fd, _, _, _, -, rfl⟩
  · exact hw
  · exact ⟨Or.inl hfd, fun _ => ⟨rfl, rfl⟩⟩
  · refine ⟨Or.inr (Int.natCast_nonneg fd), fun h => ?_⟩
    simp only at h
    omega

section Congr

variable {f g : World → Option (ℤ × World)}

theorem cmdBody_congr {α : Type} {fail : α} {done : World → Option α} (h : f w = g w) :
    cmdBody ev f fail done w fmt ap = cmdBody ev g fail done w fmt ap := by
  simp only [cmdBody, vsendBody, h]

theorem authBody_stayOpen (hg : ∀ v : World, v.con.fd ≠ -1 → g v = stayOpen v)
    (hw : w.con.fd ≠ -1) : authBody ev g w = authBody ev stayOpen w := by
  unfold authBody
  rcases w.user, w.pass with ⟨_ | user, _ | pass⟩ <;> try rfl
  simp only [cmdBody_congr (hg w hw)]
  rcases hc : cmdBody ev stayOpen (-1) succDone w (.lit "user %s") [.str user] with _ | ⟨r, w₁⟩
  · rfl
  · by_cases hr : r = 0
    · subst hr
      have hw₁ : w₁.con.fd ≠ -1 := by
        rw [(cmdBody_stayOpen hc).2]
        exact hw
      simp only [Option.bind_eq_bind, Option.bind_some, cmdBody_congr (hg w₁ hw₁)]
    · simp only [Option.bind_eq_bind, Option.bind_some, ne_eq, hr, not_false_eq_true, if_true]

theorem openBody_stayOpen (hg : ∀ v : World, v.con.fd ≠ -1 → g v = stayOpen v) :
    openBody ev g w = openBody ev stayOpen w := by
  unfold openBody
  split_ifs with hfd
  · rfl
  rcases hc : ducSockConnect w with ⟨r, w₁⟩
  by_cases hr : r = 0
  · subst hr
    have hw₁ : w₁.con.fd ≠ -1 := connect_open (not_not.1 hfd) hc
    have hello : helloBody ev g w₁ = helloBody ev stayOpen w₁ := by
      unfold helloBody
      rcases hl : ducRlast ev { w₁ with inreply := true } with _ | ⟨q, w₂⟩
      · rfl
      · by_cases hq : q = 0
        · subst hq
          obtain ⟨v, -, ⟨-, rfl, hfd₂⟩ | ⟨h, -⟩⟩ := ducRlast_onward hl
          · have hw₂ : v.con.fd ≠ -1 := fun h => hw₁ (hfd₂.symm.trans h)
            have hauth : ∀ maj min, authBody ev g { v with vmajor := maj, vminor := min } = _ :=
              fun maj min => authBody_stayOpen (w := { v with vmajor := maj, vminor := min }) hg hw₂
            simp only [Option.bind_eq_bind, Option.bind_some, hauth]
          · cases h
        · simp only [Option.bind_eq_bind, Option.bind_some, ne_eq, hq, not_false_eq_true, if_true]
    simp only [hello]
  · simp only [ne_eq, hr, not_false_eq_true, if_true]

end Congr

/-- **`duc_open` calls itself** through `_duc_vsend` when it logs in; the inner call finds the
connection open. -/
theorem ducOpen_eq : ducOpen ev w = openBody ev (ducOpen ev) w :=
  (openBody_stayOpen fun v hv => by
    rw [ducOpen, openBody, stayOpen, if_pos hv, if_pos hv]).symm

/-! ## Calls -/

/-- The calls of a client. -/
inductive Call (ρ : Type)
  | open
  | close
  | poll
  | setauth (user pass : Cstr)
  | cmd (c : Cmd ρ)

/-- A client calls the library. -/
def callStep (ev : Handlers) (w : World) : Call ρ → Option World
  | .open => (ducOpen ev w).map Prod.snd
  | .close => ducClose ev w
  | .poll => ducPoll ev w
  | .setauth user pass => some { w with user := some user, pass := some pass }
  | .cmd c => (runCmd ev w c).map Prod.snd

/-! ## What every call keeps -/

/-- A relation between the worlds before and after: it composes, and reading a line, sending a command
and noting the server's version stay within it. -/
structure Handlers.Keeps (ev : Handlers) (R : World → World → Prop) : Prop where
  refl : ∀ w, R w w
  trans : ∀ {u v w}, R u v → R v w → R u w
  rnext : ∀ {w r w'}, ducRnext ev w = some (r, w') → R w w'
  send : ∀ {w cmd r w'}, vsendSend ev w cmd = some (r, w') → R w w'
  version : ∀ (w : World) (major minor : ℤ), R w { w with vmajor := major, vminor := minor }

namespace Handlers.Keeps

variable {R : World → World → Prop} (hR : ev.Keeps R)

include hR

theorem rlast (h : ducRlast ev w = some (r, w')) : R w w' :=
  ducRlast_rule (Q := fun _ => R w) (hR.refl w) (fun _ _ hu hr => hR.trans hu (hR.rnext hr)) (fun _ hu _ => hu)
    (fun _ _ hu hr => hR.trans hu (hR.rnext hr)) h

theorem vsend (hopen : ∀ q v, w.inreply = false → open_ w = some (q, v) → R w v)
    (h : vsendBody ev open_ w fmt ap = some (r, w')) : R w w' := by
  rcases vsendBody_cases h with ⟨-, -, rfl⟩ | ⟨hin, q, ho, -⟩ | ⟨w₁, cmd, hin, ho, -, h⟩
  · exact hR.refl _
  · exact hopen q w' hin ho
  · rcases h with ⟨-, -, rfl⟩ | ⟨t, -, hs⟩
    · exact hopen 0 w' hin ho
    · exact hR.trans (hopen 0 w₁ hin ho) (hR.send hs)

theorem cmdBody (hopen : ∀ q v, w.inreply = false → open_ w = some (q, v) → R w v) {α : Type}
    {fail a : α} {done : World → Option α} (h : cmdBody ev open_ fail done w fmt ap = some (a, w')) :
    R w w' := by
  rcases cmdBody_cases h with ⟨q, hv, -⟩ | ⟨w₁, hv, hl⟩
  · exact hR.vsend hopen hv
  · rcases hl with ⟨q, hl, -⟩ | ⟨hl, -⟩ <;> exact hR.trans (hR.vsend hopen hv) (hR.rlast hl)

theorem auth (h : authBody ev stayOpen w = some (r, w')) : R w w' := by
  have hstay : ∀ (u : World) (q : ℤ) v, u.inreply = false → stayOpen u = some (q, v) → R u v := by
    intro u q v _ hv
    unfold stayOpen at hv
    split_ifs at hv
    exact (Prod.mk.inj (Option.some.inj hv)).2 ▸ hR.refl u
  rcases authBody_cases h with ⟨-, rfl⟩ | ⟨user, pass, q, w₁, -, -, hu, ⟨-, -, rfl⟩ | ⟨q', -, hp, -⟩⟩
  · exact hR.refl _
  · exact hR.cmdBody (hstay w) hu
  · exact hR.trans (hR.cmdBody (hstay w) hu) (hR.cmdBody (hstay w₁) hp)

theorem hello {ok : Bool} (h : helloBody ev stayOpen w = some (ok, w')) :
    R { w with inreply := true } w' := by
  obtain ⟨q, w₁, hl, hor⟩ := helloBody_cases h
  have hw₁ := hR.rlast hl
  rcases hor with ⟨-, -, rfl⟩ | ⟨-, -, rfl⟩ | ⟨major, minor, -, hor⟩
  · exact hw₁
  · exact hw₁
  have hw₂ := hR.trans hw₁ (hR.version w₁ major minor)
  rcases hor with ⟨-, -, rfl⟩ | ⟨-, -, -, rfl⟩ | ⟨r, -, ha, -⟩
  · exact hw₂
  · exact hw₂
  · exact hR.trans hw₂ (hR.auth ha)

theorem collect {conv : Converter ρ} {rows : List (Option ρ)} {it : Option (DucIter ρ)}
    (h : itCollect ev conv (w, rows) = some (it, w')) : R w w' :=
  itCollect_rule (hR.refl w) (fun _ _ hu hr => hR.trans hu (hR.rnext hr))
    (fun _ _ _ hu hr _ => hR.trans hu (hR.rnext hr)) (fun _ _ _ hu hl => hR.trans hu (hR.rlast hl)) h

theorem itNewv (hopen : ∀ q v, w.inreply = false → ducOpen ev w = some (q, v) → R w v)
    {conv : Converter ρ} {it : Option (DucIter ρ)} (h : ducItNewv ev conv w fmt ap = some (it, w')) :
    R w w' := by
  rcases ducItNewv_cases h with ⟨q, hv, -⟩ | ⟨w₁, r, w₂, hv, hr, hor⟩
  · exact hR.vsend hopen hv
  have hw₂ := hR.trans (hR.vsend hopen hv) (hR.rnext hr)
  rcases hor with ⟨-, -, rfl⟩ | ⟨-, -, -, q, hl⟩ | ⟨-, hcoll⟩
  · exact hw₂
  · exact hR.trans hw₂ (hR.rlast hl)
  · exact hR.trans hw₂ (hR.collect hcoll)

/-- **Every command** keeps the relation when `duc_open` does. -/
theorem runCmd {c : Cmd ρ} {res : Result ρ}
    (hopen : ∀ q v, w.inreply = false → ducOpen ev w = some (q, v) → R w v)
    (h : runCmd ev w c = some (res, w')) : R w w' := by
  obtain ⟨helper, fmt, args⟩ := c
  cases helper with
  | it f =>
    obtain ⟨⟨it, v⟩, hi, heq⟩ := Option.map_eq_some_iff.1 h
    exact (Prod.mk.inj heq).2 ▸ hR.itNewv hopen hi
  | _ =>
    obtain ⟨⟨a, v⟩, hb, heq⟩ := Option.map_eq_some_iff.1 h
    exact (Prod.mk.inj heq).2 ▸ hR.cmdBody hopen hb

end Handlers.Keeps

end Dudlc
