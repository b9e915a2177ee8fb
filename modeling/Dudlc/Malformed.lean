import Dudlc.Feed

/-!
# Malformed replies

* `ShortRuns`: no line is too long for the receive buffer; nothing else is assumed of the stream.
* `rnextBody_total`, `rnext_total`, `rlast_total`: the reading loops return on every such stream.
* `Coded`, `runs_coded`: the code of a session is empty or has three bytes.
* **`rlast_clean`**: `_duc_rlast` returns 0 with a reply, or -1 with a clean closed session.
-/

namespace Dudlc

open Lib

variable {ρ : Type} {w w' v : World} {r : ℤ}

/-- No run of more than 2046 bytes without a CR, LF or NUL. -/
def ShortRuns (S : List UInt8) : Prop :=
  ∀ t, t <:+: S → (∀ b ∈ t, isStop b = false) → t.length ≤ 2046

/-- The bytes still to be read. -/
def World.stream (w : World) : List UInt8 := w.con.unread ++ incoming w.recvs

theorem ShortRuns.part {S T : List UInt8} (h : ShortRuns S) (hT : T <:+: S) : ShortRuns T :=
  fun t ht => h t (ht.trans hT)

/-! ## The loops return -/

theorem rnextBody_total (hs : w.con.Sound) (hrun : ShortRuns w.stream) :
    (∃ v, rnextBody .passive w = some (.inl v) ∧ ShortRuns v.stream) ∨
      ∃ b, rnextBody .passive w = some (.inr b) ∧ (b.1.isSome → ShortRuns b.2.stream) := by
  obtain ⟨taken, hu⟩ := hs.holds
  have hlen : (∀ b ∈ w.con.unread, isStop b = false) → w.con.unread.length < BUFLENRCV - 1 := by
    intro hfree
    exact Nat.lt_succ_of_le (hrun w.con.unread (List.infix_append' [] _ _) hfree)
  rcases getline_nextLine hu hlen with ⟨-, con, hg, hcon, hfd⟩ | ⟨l, q, e, hnext, hfree, con, hg, hcon, -⟩
  · have hfail : ∀ w₁, World.recv { w with con := con } = some (-1, w₁) →
        ∃ b, rnextBody .passive w = some (.inr b) ∧ (b.1.isSome → ShortRuns b.2.stream) := by
      intro w₁ hr
      refine ⟨(none, w₁.closed), ?_, fun h => by cases h⟩
      simp only [rnextBody, hg, hr, Option.bind_eq_bind, Option.bind_some]
      rfl
    by_cases hopen : con.fd = -1
    · exact Or.inr (hfail { w with con := con } (if_pos hopen))
    have hroom : 1 ≤ con.room := (getline_fd hg).2 rfl
    cases hp : nextPacket con.room w.recvs with
    | none => exact Or.inr (hfail _ (recv_end (w := { w with con := con }) hopen (incoming_end hp)))
    | some p =>
      left
      obtain ⟨con', hr, hcon', -⟩ := recv_packet (w := { w with con := con }) hcon hopen hroom hp
      refine ⟨{ w with con := con', recvs := p.2, rooms := w.rooms ++ [con.room] },
        by simp [rnextBody, hg, hr], ?_⟩
      obtain ⟨-, -, hin⟩ := incoming_packet hroom hp
      simpa [World.stream, hcon'.unread_eq, hin] using hrun
  · have ht := cstr_line hcon hfree 0 (Nat.zero_le _)
    rw [List.drop_zero] at ht
    have hrest : ShortRuns (q ++ incoming w.recvs) := by
      refine hrun.part ?_
      obtain ⟨x, hx⟩ := nextLine_suffix hnext
      exact ⟨x, [], by rw [List.append_nil, ← List.append_assoc, hx]; rfl⟩
    by_cases hshort : l.length < 4
    · right
      refine ⟨(none, World.closed { w with con := con }), ?_, fun h => by cases h⟩
      simp only [rnextBody, hg, ht, if_pos hshort, Option.bind_eq_bind, Option.bind_some]
      rfl
    by_cases hb : isBcast l = true
    · left
      refine ⟨ducBcast { w with con := con } l, by simp [rnextBody, hg, ht, hshort, hb], ?_⟩
      simpa [World.stream, ducBcast, hcon.unread_eq] using hrest
    · right
      refine ⟨(some (0, l), { w with con := con }), by simp [rnextBody, hg, ht, hshort, hb], fun _ => ?_⟩
      simpa [World.stream, hcon.unread_eq] using hrest

theorem rnext_total (hs : w.con.Sound) (hrun : ShortRuns w.stream) :
    ∃ r v, ducRnext .passive w = some (r, v) ∧ (r = 0 → v.con.Sound ∧ ShortRuns v.stream) := by
  have hloop : ∃ b, rnextLoop .passive w = some b ∧ (b.1.isSome → ShortRuns b.2.stream) := by
    refine loop_total (fun v => v.con.Sound ∧ ShortRuns v.stream) pending
      (fun b : Option (ℕ × List UInt8) × World => b.1.isSome → ShortRuns b.2.stream)
      ?_ _ w ⟨hs, hrun⟩ (Nat.lt_succ_self _)
    rintro u ⟨hu, hur⟩
    rcases rnextBody_total hu hur with ⟨v, hb, hv⟩ | ⟨b, hb, hv⟩
    · exact Or.inl ⟨v, hb, ⟨(rnextBody_more hu hb).1, hv⟩, rnextBody_pending hb⟩
    · exact Or.inr ⟨b, hb, hv⟩
  by_cases hin : w.inreply = true
  · obtain ⟨⟨l, u⟩, hl, hu⟩ := hloop
    have hret : ∃ r v, ducRnext .passive w = some (r, v) ∧ (r = 0 → v.stream = u.stream ∧ l.isSome) := by
      cases l with
      | none => exact ⟨-1, u, by simp [ducRnext, hin, hl], fun h => by cases h⟩
      | some p =>
        by_cases hc : u.code = []
        · exact ⟨0, { u with line := some (p.1 + 4), code := p.2.take 3, inreply := p.2[3]? = some 45 },
            by simp [ducRnext, hin, hl, hc], fun _ => ⟨rfl, rfl⟩⟩
        by_cases hd : u.code.take 3 = p.2.take 3
        · exact ⟨0, { u with line := some (p.1 + 4), inreply := p.2[3]? = some 45 },
            by simp [ducRnext, hin, hl, hc, hd], fun _ => ⟨rfl, rfl⟩⟩
        · exact ⟨-1, World.closed { u with line := some (p.1 + 4) },
            by simp [ducRnext, hin, hl, hc, hd, close_passive], fun h => by cases h⟩
    obtain ⟨r, v, hr, hv⟩ := hret
    refine ⟨r, v, hr, ?_⟩
    rintro rfl
    obtain ⟨heq, hsome⟩ := hv rfl
    exact ⟨(rnext_feed hs hr).2.1, heq ▸ hu hsome⟩
  · exact ⟨-2, w, by simp [ducRnext, hin], fun h => by cases h⟩

theorem rlast_total (hs : w.con.Sound) (hrun : ShortRuns w.stream) :
    ∃ r v, ducRlast .passive w = some (r, v) := by
  have hloop : ∃ b, loop (rlastBody .passive) (pending w + 1) w = some b ∧ True := by
    refine loop_total (fun v => v.con.Sound ∧ ShortRuns v.stream) pending (fun _ => True)
      ?_ _ w ⟨hs, hrun⟩ (Nat.lt_succ_self _)
    rintro u ⟨hu, hur⟩
    obtain ⟨r, v, hr, hv⟩ := rnext_total hu hur
    by_cases h0 : r = 0
    · subst h0
      exact Or.inl ⟨v, by simp [rlastBody, hr], hv rfl, rnext_pending hr⟩
    · exact Or.inr ⟨(r, v), by simp [rlastBody, hr, h0], trivial⟩
  obtain ⟨⟨q, v⟩, hl, -⟩ := hloop
  by_cases hq : q = -1
  · exact ⟨-1, v, by simp [ducRlast, hl, hq]⟩
  · exact ⟨0, v, by simp [ducRlast, hl, hq]⟩

/-! ## The code of a session -/

/-- The code is empty or has three bytes. -/
def Coded (w : World) : Prop := w.code = [] ∨ w.code.length = 3

theorem close_coded (h : ducClose .passive w = some v) : Coded v :=
  Or.inl (by rw [close_passive] at h; rw [← Option.some.inj h]; rfl)

theorem rnext_reply {ev : Handlers} (hs : w.con.Sound) (hc : Coded w)
    (h : ducRnext ev w = some (0, v)) : v.code.length = 3 ∧ v.rline.isSome := by
  obtain ⟨-, -, l, hlen, -, -, hline, -, hcode⟩ := rnext_feed hs h
  refine ⟨?_, by rw [hline]; rfl⟩
  rw [hcode]
  split_ifs with hnil
  · rw [List.length_take]
    omega
  · exact hc.resolve_left hnil

theorem coded_keeps : Handlers.passive.Keeps fun w v => w.con.Sound ∧ Coded w → v.con.Sound ∧ Coded v where
  refl _ := id
  trans h h' hw := h' (h hw)
  rnext {w r v} h hw := by
    refine ⟨rnext_sound Handlers.keepSound_passive hw.1 h, ?_⟩
    rcases ducRnext_cases h with ⟨-, -, rfl⟩ | ⟨-, hloop, -⟩ | ⟨_, _, _, -, -, ⟨-, -, -, hc⟩ | ⟨-, rfl, -⟩⟩
    · exact hw.2
    · obtain ⟨u, -, ⟨hsome, -⟩ | ⟨-, hc⟩⟩ := rnextLoop_onward hloop
      · cases hsome
      · exact close_coded hc
    · exact close_coded hc
    · exact Or.inr (rnext_reply hw.1 hw.2 h).1
  send {w cmd r v} h hw := by
    refine ⟨vsendSend_sound Handlers.keepSound_passive hw.1 h, ?_⟩
    obtain ⟨q, w₁, hs, ⟨-, -, rfl⟩ | ⟨-, -, hc⟩⟩ := vsendSend_cases h
    · obtain ⟨_, _, rfl⟩ := send_eq hs
      exact Or.inl rfl
    · exact close_coded hc
  version _ _ _ hw := hw

theorem open_coded (hs : w.con.Sound) (hc : Coded w) (h : ducOpen .passive w = some (r, v)) : Coded v := by
  rcases ducOpen_cases h with ⟨-, -, rfl⟩ | ⟨q, w₁, hfd, hcon, hor⟩
  · exact hc
  have hs₁ := connect_sound hs hfd hcon
  have hc₁ : Coded w₁ := by
    rcases connect_cases hfd hcon with ⟨-, ds, rfl | rfl⟩ | ⟨-, _, _, _, _, -, rfl⟩ <;> exact hc
  rcases hor with ⟨-, -, rfl⟩ | ⟨ok, w₂, -, hello, hor⟩
  · exact hc₁
  have hw₂ := coded_keeps.hello hello ⟨hs₁, hc₁⟩
  rcases hor with ⟨-, -, hconnect⟩ | ⟨-, -, rfl⟩
  · exact Option.some.inj hconnect ▸ hw₂.2
  · exact hw₂.2

theorem pollLoop_coded (hc : Coded w) (h : pollLoop .passive w = some v) : Coded v := by
  refine pollLoop_rule (I := Coded) (Q := Coded) hc ?_ ?_ ?_ ?_ h
  · exact fun _ _ _ _ hu _ _ _ _ => hu
  · exact fun _ _ _ _ hu _ _ _ _ => hu
  · exact fun _ _ hu _ => hu
  · exact fun _ _ _ _ _ _ _ _ _ hclose => close_coded hclose

theorem poll_coded (hs : w.con.Sound) (hc : Coded w) (h : ducPoll .passive w = some v) : Coded v := by
  obtain ⟨q, w₁, ho, hor⟩ := ducPoll_cases h
  have hw₁ := open_coded hs hc ho
  rcases hor with ⟨-, rfl⟩ | ⟨r, w₂, -, hr, hor⟩
  · exact hw₁
  obtain ⟨-, ⟨-, -, -, hcode, -⟩, -⟩ := recv_cases hr
  rcases hor with ⟨-, w₃, hclose, hloop⟩ | ⟨-, hloop⟩
  · exact pollLoop_coded (close_coded hclose) hloop
  · refine pollLoop_coded ?_ hloop
    unfold Coded
    rwa [hcode]

/-- **The code is empty or has three bytes** after every run of calls. -/
theorem runs_coded (dials : List Dial) {calls : List (Call ρ)}
    (h : runs (callStep .passive) (newWorld dials) calls = some w) : Coded w := by
  have hstep : ∀ (u : World) (c : Call ρ) v, u.con.Sound ∧ Coded u →
      callStep .passive u c = some v → v.con.Sound ∧ Coded v := by
    rintro u c v ⟨hs, hc⟩ hcall
    refine ⟨callStep_sound Handlers.keepSound_passive hs hcall, ?_⟩
    cases c with
    | «open» =>
      obtain ⟨⟨r, v⟩, ho, rfl⟩ := Option.map_eq_some_iff.1 hcall
      exact open_coded hs hc ho
    | close => exact close_coded hcall
    | poll => exact poll_coded hs hc hcall
    | setauth user pass => exact Option.some.inj hcall ▸ hc
    | cmd c =>
      obtain ⟨⟨res, v⟩, hrun, rfl⟩ := Option.map_eq_some_iff.1 hcall
      exact (coded_keeps.runCmd (fun q v _ ho hw =>
        ⟨open_sound Handlers.keepSound_passive hw.1 ho, open_coded hw.1 hw.2 ho⟩) hrun ⟨hs, hc⟩).2
  exact (runs_keep hstep ⟨sound_empty (newWorld_tidy dials).con rfl rfl, Or.inl rfl⟩ h).2

/-! ## Where `_duc_rlast` ends -/

theorem rlast_closed (hs : w.con.Sound) (hin : w.inreply = true) (hfd : w.con.fd = -1) :
    ∃ v, ducRlast .passive w = some (-1, v) :=
  ⟨w.closed, rlast_lost (x := some w.closed) (rnext_closed Handlers.quiet_passive hs.tidy hin hfd)⟩

theorem rlast_reply {ev : Handlers} (hs : w.con.Sound) (hc : Coded w) (hin : w.inreply = true)
    (h : ducRlast ev w = some (0, v)) : v.inreply = false ∧ v.code.length = 3 ∧ v.rline.isSome := by
  refine ducRlast_rule (I := fun u => u.con.Sound ∧ Coded u ∧
      (u.inreply = false → u.code.length = 3 ∧ u.rline.isSome))
    (Q := fun r u => r = 0 → u.inreply = false ∧ u.code.length = 3 ∧ u.rline.isSome)
    ⟨hs, hc, fun h => by rw [hin] at h; cases h⟩ ?_ ?_ ?_ h rfl
  · rintro u u' ⟨hu, huc, -⟩ hr
    have hnew := rnext_reply hu huc hr
    exact ⟨(rnext_feed hu hr).2.1, Or.inr hnew.1, fun _ => hnew⟩
  · rintro u ⟨-, -, hread⟩ hnot -
    exact ⟨hnot, hread hnot⟩
  · intro _ _ _ _ h
    cases h

/-- A reply has been read, on the open connection. Its code and its line can be dereferenced. -/
structure Answered (v : World) : Prop where
  fd : v.con.fd ≠ -1
  inreply : v.inreply = false
  code : v.code.length = 3
  line : v.line ≠ none
  rcode : v.rcode.isSome
  rline : v.rline.isSome

/-- The session is closed, and nothing of a reply is left. -/
structure Lost (v : World) : Prop where
  fd : v.con.fd = -1
  inreply : v.inreply = false
  code : v.code = []
  line : v.line = none

/-- **Malformed replies end in one of two clean states.** While a reply is due, let the unread and the
incoming bytes be anything without an overlong line, in whatever packets, up to the end of the stream or
an error. Then `_duc_rlast` returns: 0 with a reply, or -1 with a closed session. -/
theorem rlast_clean (hs : w.con.Sound) (hc : Coded w) (hin : w.inreply = true)
    (hrun : ShortRuns w.stream) :
    ∃ r v, ducRlast .passive w = some (r, v) ∧ (r = 0 ∧ Answered v ∨ r = -1 ∧ Lost v) := by
  obtain ⟨r, v, h⟩ := rlast_total hs hrun
  refine ⟨r, v, h, ?_⟩
  obtain ⟨u, hu, ⟨rfl, rfl, hfd⟩ | ⟨rfl, hclose⟩⟩ := ducRlast_onward h
  · left
    obtain ⟨hnot, hcode, hline⟩ := rlast_reply hs hc hin h
    have hopen : w.con.fd ≠ -1 := by
      intro hclosed
      obtain ⟨v, hv⟩ := rlast_closed hs hin hclosed
      rw [hv] at h
      cases h
    obtain ⟨t, ht⟩ := Option.isSome_iff_exists.1 hline
    obtain ⟨i, hi⟩ := World.line_of_rline ht
    obtain ⟨b, bs, hb⟩ := List.exists_cons_of_ne_nil (List.ne_nil_of_length_pos
      (show 0 < u.code.length by omega))
    refine ⟨rfl, hfd ▸ hopen, hnot, hcode, by rw [hi]; exact Option.some_ne_none i, ?_, hline⟩
    rw [World.rcode, hb]
    rfl
  · right
    rw [close_passive] at hclose
    obtain rfl := Option.some.inj hclose
    exact ⟨rfl, disconnect_fd (hu.tidy hs.tidy), rfl, rfl, rfl⟩

/-- The theorem at a broadcast with a NUL, a blank line and a reply that is cut off. -/
theorem rlast_clean_garbage : ∃ r v,
    ducRlast .passive { idleWorld [some [54, 51, 48, 32, 0], some [LF, 50, 53]] [] with inreply := true } =
      some (r, v) ∧ (r = 0 ∧ Answered v ∨ r = -1 ∧ Lost v) :=
  rlast_clean (sound_empty ⟨Or.inr (by decide), fun h => absurd h (by decide)⟩ rfl rfl) (Or.inl rfl) rfl
    fun _ ht _ => ht.length_le.trans (by decide)

end Dudlc
