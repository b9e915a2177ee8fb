import Dudlc.Closed

/-!
# Room to receive

* `World.Roomy`: `recv` was never called without room.
* `PollsFull`: `duc_poll` comes to receive into a full buffer.
* `callStep_roomy`: this is the one way a call loses `Roomy`.
* **`recv_room_iff`**: in a run of calls every `recv` has room just when no `duc_poll` of it finds the
  buffer full.
-/

namespace Dudlc

open Lib

variable {ρ : Type} {ev : Handlers} {w w' v : World} {r : ℤ}

/-- Every `recv` so far was asked for at least one byte. -/
def World.Roomy (w : World) : Prop := ∀ n ∈ w.rooms, 1 ≤ n

/-- Handlers that leave `Roomy` as it is. -/
structure Handlers.KeepRoomy (ev : Handlers) : Prop where
  connect : ∀ w w', ev.connect w = some w' → (w'.Roomy ↔ w.Roomy)
  disconnect : ∀ w w', ev.disconnect w = some w' → (w'.Roomy ↔ w.Roomy)

theorem Handlers.keepRoomy_passive : Handlers.passive.KeepRoomy :=
  ⟨fun _ _ h => Option.some.inj h ▸ Iff.rfl, fun _ _ h => Option.some.inj h ▸ Iff.rfl⟩

theorem roomy_append {rs : List ℕ} (h : v.rooms = w.rooms ++ rs) :
    v.Roomy ↔ w.Roomy ∧ ∀ n ∈ rs, 1 ≤ n := by
  simp only [World.Roomy, h, List.mem_append, or_imp, forall_and]

theorem Onward.roomy (h : Onward w v) : v.Roomy ↔ w.Roomy := by
  obtain ⟨rs, hrs, hpos⟩ := h.rooms
  rw [roomy_append hrs]
  exact and_iff_left hpos

theorem close_roomy (hev : ev.KeepRoomy) (h : ducClose ev v = some w') : w'.Roomy ↔ v.Roomy := by
  unfold ducClose at h
  exact (hev.disconnect _ _ h).trans Iff.rfl

/-! ## One call -/

theorem Handlers.KeepRoomy.keeps (hev : ev.KeepRoomy) : ev.Keeps fun w v => v.Roomy ↔ w.Roomy where
  refl _ := Iff.rfl
  trans h h' := h'.trans h
  rnext h := by
    obtain ⟨v, hv, ⟨-, rfl, -⟩ | ⟨-, hc⟩⟩ := ducRnext_onward h
    · exact hv.roomy
    · exact (close_roomy hev hc).trans hv.roomy
  send h := by
    obtain ⟨q, w₁, hs, hor⟩ := vsendSend_cases h
    obtain ⟨_, _, rfl⟩ := send_eq hs
    rcases hor with ⟨-, -, rfl⟩ | ⟨-, -, hc⟩
    · exact Iff.rfl
    · exact (close_roomy hev hc).trans Iff.rfl
  version _ _ _ := Iff.rfl

theorem open_roomy (hev : ev.KeepRoomy) (h : ducOpen ev w = some (r, w')) : w'.Roomy ↔ w.Roomy := by
  rcases ducOpen_cases h with ⟨-, -, rfl⟩ | ⟨q, w₁, hfd, hc, hor⟩
  · exact Iff.rfl
  have hw₁ : w₁.Roomy ↔ w.Roomy := by
    rcases connect_cases hfd hc with ⟨-, ds, rfl | rfl⟩ | ⟨-, fd, rs, ss, ds, -, rfl⟩ <;> exact Iff.rfl
  rcases hor with ⟨-, -, rfl⟩ | ⟨ok, w₂, -, hello, hor⟩
  · exact hw₁
  have hw₂ : w₂.Roomy ↔ w.Roomy := (hev.keeps.hello hello).trans hw₁
  rcases hor with ⟨-, -, hconnect⟩ | ⟨-, -, rfl⟩
  · exact (hev.connect _ _ hconnect).trans hw₂
  · exact hw₂

theorem pollLoop_roomy (hev : ev.KeepRoomy) (h : pollLoop ev w = some w') : w'.Roomy ↔ w.Roomy := by
  refine pollLoop_rule (I := fun u => u.Roomy ↔ w.Roomy) (Q := fun u => u.Roomy ↔ w.Roomy) Iff.rfl
    ?_ ?_ ?_ ?_ h
  · exact fun _ _ _ _ hu _ _ _ _ => hu
  · exact fun _ _ _ _ hu _ _ _ _ => hu
  · exact fun _ _ hu _ => hu
  · exact fun _ _ _ _ _ hu _ _ _ hc => (close_roomy hev hc).trans hu

/-- `duc_poll` comes to receive, on an open connection whose buffer is full. -/
def PollsFull (ev : Handlers) (w : World) : Prop :=
  ∃ w₁, ducOpen ev w = some (0, w₁) ∧ w₁.con.fd ≠ -1 ∧ w₁.con.room = 0

theorem recv_rooms (h : w.recv = some (r, v)) (hfd : w.con.fd ≠ -1) :
    v.rooms = w.rooms ++ [w.con.room] := by
  unfold World.recv at h
  rw [if_neg hfd] at h
  obtain ⟨p, -, h⟩ := Option.map_eq_some_iff.1 h
  obtain ⟨-, rfl⟩ := Prod.mk.inj h
  show (w.toNet.read w.con.room).2.rooms = _
  unfold Net.read
  rcases w.recvs with _ | ⟨_ | bs, rs⟩
  · rfl
  · rfl
  · dsimp only
    split_ifs <;> rfl

theorem poll_roomy (hev : ev.KeepRoomy) (h : ducPoll ev w = some w') :
    w'.Roomy ↔ w.Roomy ∧ ¬ PollsFull ev w := by
  obtain ⟨r, w₁, ho, hor⟩ := ducPoll_cases h
  have hfull : PollsFull ev w ↔ r = 0 ∧ w₁.con.fd ≠ -1 ∧ w₁.con.room = 0 := by
    rw [PollsFull, ho]
    simp [and_assoc]
  rw [hfull, ← open_roomy hev ho]
  rcases hor with ⟨hr, rfl⟩ | ⟨q, w₂, rfl, hrecv, hor⟩
  · exact (and_iff_left fun hf => hr hf.1).symm
  have hrest : w'.Roomy ↔ w₂.Roomy := by
    rcases hor with ⟨-, w₃, hc, hloop⟩ | ⟨-, hloop⟩
    · exact (pollLoop_roomy hev hloop).trans (close_roomy hev hc)
    · exact pollLoop_roomy hev hloop
  rw [hrest]
  by_cases hfd : w₁.con.fd = -1
  · rw [World.recv, if_pos hfd] at hrecv
    obtain ⟨-, rfl⟩ := Prod.mk.inj (Option.some.inj hrecv)
    exact (and_iff_left fun hf => hf.2.1 hfd).symm
  · rw [roomy_append (recv_rooms hrecv hfd)]
    simp only [List.mem_singleton, forall_eq, hfd, true_and, ne_eq, not_false_eq_true,
      Nat.one_le_iff_ne_zero]

/-- The call is a `duc_poll` that finds the buffer full. -/
def Call.PollsFull (ev : Handlers) (w : World) : Call ρ → Prop
  | .poll => Dudlc.PollsFull ev w
  | _ => False

/-- **A call** asks `recv` for no byte just when it is a `duc_poll` on a full buffer. -/
theorem callStep_roomy (hev : ev.KeepRoomy) {c : Call ρ} (h : callStep ev w c = some w') :
    w'.Roomy ↔ w.Roomy ∧ ¬ c.PollsFull ev w := by
  cases c with
  | «open» =>
    obtain ⟨⟨r, v⟩, ho, rfl⟩ := Option.map_eq_some_iff.1 h
    simpa [Call.PollsFull] using open_roomy hev ho
  | close => simpa [Call.PollsFull] using close_roomy hev h
  | poll => exact poll_roomy hev h
  | setauth user pass =>
    obtain rfl := Option.some.inj h
    simp [Call.PollsFull, World.Roomy]
  | cmd c =>
    obtain ⟨⟨res, v⟩, hc, rfl⟩ := Option.map_eq_some_iff.1 h
    simpa [Call.PollsFull] using hev.keeps.runCmd (fun q v _ ho => open_roomy hev ho) hc

/-! ## Runs -/

theorem runs_roomy (hev : ev.KeepRoomy) {calls : List (Call ρ)}
    (h : runs (callStep ev) w calls = some w') :
    w'.Roomy ↔ w.Roomy ∧ Along (callStep ev) (fun w c => ¬ c.PollsFull ev w) w calls := by
  induction calls generalizing w with
  | nil => exact Option.some.inj h ▸ (and_iff_left trivial).symm
  | cons c calls ih =>
    rw [runs_cons, Option.bind_eq_some_iff] at h
    obtain ⟨w₁, hc, h⟩ := h
    have hrest : (∀ s', callStep ev w c = some s' →
        Along (callStep ev) (fun w c => ¬ c.PollsFull ev w) s' calls) ↔ Along _ _ w₁ calls :=
      ⟨fun hs => hs w₁ hc, fun hs s' hs' => Option.some.inj (hc.symm.trans hs') ▸ hs⟩
    rw [ih h, callStep_roomy hev hc, and_assoc]
    exact and_congr_right fun _ => and_congr_right fun _ => hrest.symm

/-- **Every `recv` of a run has room**, so that nothing received means the end of the stream, just when
no `duc_poll` of the run comes to receive into a full buffer. -/
theorem recv_room_iff (hev : ev.KeepRoomy) (dials : List Dial) {calls : List (Call ρ)}
    (h : runs (callStep ev) (newWorld dials) calls = some w') :
    (∀ n ∈ w'.rooms, 1 ≤ n) ↔
      Along (callStep ev) (fun w c => ¬ c.PollsFull ev w) (newWorld dials) calls :=
  (runs_roomy hev h).trans (and_iff_right nofun)

/-- A broadcast line of `n` bytes. -/
def news (n : ℕ) : List UInt8 := (Cstr.lit "630").bytes ++ List.replicate (n - 4) 97 ++ [LF]

/-- A server that answers one command, behind it sends broadcasts that fill the buffer, and later
one more. -/
def busyServer : Dial :=
  .made 3 [some (Cstr.lit "220 dudld 1 2\n").bytes,
    some ((Cstr.lit "250 ok\n").bytes ++ news 2040), some (news 8)] []

/-- **A full buffer is taken for the end of the stream.** `duc_poll` asks `recv` for no byte and closes
the connection, with a broadcast still to be received. -/
theorem poll_closes : ∃ w', runs (callStep .passive) (newWorld [busyServer])
      [(.cmd ⟨.succ, .lit "pause", []⟩ : Call Unit), .poll] = some w' ∧ 0 ∈ w'.rooms ∧
    w'.con.fd = -1 ∧ w'.recvs = [some (news 8)] := by
  have hrun : ((runs (callStep .passive) (newWorld [busyServer])
      [(.cmd ⟨.succ, .lit "pause", []⟩ : Call Unit), .poll]).map
      fun w => (decide (0 ∈ w.rooms), w.con.fd, w.recvs)) = some (true, -1, [some (news 8)]) := by
    decide +kernel
  obtain ⟨w', hw', heq⟩ := Option.map_eq_some_iff.1 hrun
  simp only [Prod.mk.injEq, decide_eq_true_eq] at heq
  exact ⟨w', hw', heq⟩

/-- The theorem at a session that polls with room left. -/
theorem recv_room_busy : ∃ w', runs (callStep .passive) (newWorld [busyServer])
      [(.open : Call Unit), .poll] = some w' ∧ ∀ n ∈ w'.rooms, 1 ≤ n := by
  have hopen : ((callStep .passive (newWorld [busyServer]) (.open : Call Unit)).map
      fun w => (w.con.fd, w.con.room)) = some (3, 2033) := by decide +kernel
  have hsome : (runs (callStep .passive) (newWorld [busyServer])
      [(.open : Call Unit), .poll]).isSome := by decide +kernel
  obtain ⟨w', hw'⟩ := Option.isSome_iff_exists.1 hsome
  refine ⟨w', hw', (recv_room_iff Handlers.keepRoomy_passive _ hw').2
    ⟨id, fun w₁ hw₁ => ⟨?_, fun _ _ => trivial⟩⟩⟩
  rw [hw₁, Option.map_some, Option.some.injEq, Prod.mk.injEq] at hopen
  rintro ⟨v, hv, -, hroom⟩
  rw [ducOpen_open (by rw [hopen.1]; decide)] at hv
  obtain ⟨-, rfl⟩ := Prod.mk.inj (Option.some.inj hv)
  rw [hopen.2] at hroom
  cases hroom

end Dudlc
