import Dudlc.Calls

/-!
# One command, one line

* `vsendBuf_eq`, `vsendBuf_long`, `vsendBuf_edge`: what `_duc_vsend` builds in its buffer. A text of
  exactly 2047 bytes passes the test for the length and is terminated behind the buffer.
* **`vsend_line_iff`**: when `_duc_vsend` puts exactly one line on the wire.
-/

namespace Dudlc

open Lib

variable {ev : Handlers} {w w' : World} {fmt : Cstr} {ap : List Arg} {t : List UInt8}

theorem format_free (h : format fmt.bytes ap = some t) : 0 ∉ t :=
  not_mem_format (by decide) (by decide) (by decide) fmt.free (fun s _ => s.free) h

theorem vsnprintf_eq (ht : (t.length : ℤ) ≤ INT_MAX) :
    ∃ buf, vsnprintf (.fill _ 0) (BUFLENLINE - 1) t = some ((t.length : ℤ), buf) ∧
      buf.cells = t.take 2046 ++ List.replicate (2048 - min 2046 t.length) 0 := by
  have hlen : (t.take 2046 ++ [0]).length = min 2046 t.length + 1 := by simp
  have hcells : (Block.fill BUFLENLINE (0 : UInt8)).cells = [] ++
      (List.replicate (min 2046 t.length + 1) 0 ++
        List.replicate (2048 - (min 2046 t.length + 1)) 0) := by
    rw [List.nil_append, List.replicate_append_replicate, Nat.add_sub_cancel' (by omega)]
    rfl
  obtain ⟨buf, hblit, hbuf⟩ := Block.blit_append hcells
    (b := t.take 2046 ++ [0]) (by rw [List.length_replicate, hlen])
  have hblit : (Block.fill BUFLENLINE 0).blit 0 (t.take (BUFLENLINE - 1 - 1) ++ [0]) = some buf := hblit
  refine ⟨buf, ?_, ?_⟩
  · rw [vsnprintf, if_neg (not_lt.2 ht), hblit]
    rfl
  · rw [hbuf, List.nil_append, List.append_assoc, List.singleton_append, ← List.replicate_succ]
    exact congrArg (fun k => t.take 2046 ++ List.replicate k 0) (by omega)

/-- **A short text** is sent with one line feed behind it. -/
theorem vsendBuf_eq (h : format fmt.bytes ap = some t) (ht : t.length < BUFLENLINE - 1) :
    vsendBuf fmt ap = some (some (t ++ [LF])) := by
  have ht : t.length ≤ 2046 := Nat.le_of_lt_succ ht
  obtain ⟨buf, hv, hbuf⟩ := vsnprintf_eq (t := t) (by rw [INT_MAX]; omega)
  rw [List.take_of_length_le ht, Nat.min_eq_right ht,
    show 2048 - t.length = (2046 - t.length + 1) + 1 by omega, List.replicate_succ] at hbuf
  obtain ⟨buf₁, hset, hbuf₁⟩ := Block.set_append (y := LF) hbuf
  rw [List.replicate_succ, ← List.singleton_append, ← List.append_assoc] at hbuf₁
  obtain ⟨buf₂, hset', hbuf₂⟩ := Block.set_append (y := 0) hbuf₁
  have hstr : cstr buf₂ 0 = some (t ++ [LF]) := cstr_append (a := []) hbuf₂ fun h0 => by
    rcases List.mem_append.1 h0 with h0 | h0
    · exact format_free h h0
    · cases List.mem_singleton.1 h0
  rw [List.length_append, List.length_singleton] at hset'
  have hin : ¬ ((t.length : ℤ) < 0 ∨ ((2048 : ℕ) : ℤ) - 1 < t.length) := by omega
  simp only [vsendBuf, h, hv, hset, hset', hstr, if_neg hin, Int.toNat_natCast, Option.bind_eq_bind,
    Option.bind_some, Option.pure_def]

/-- **A long text** is refused. -/
theorem vsendBuf_long (h : format fmt.bytes ap = some t) (ht : BUFLENLINE - 1 < t.length) :
    vsendBuf fmt ap = some none := by
  have ht : 2047 < t.length := ht
  by_cases hmax : (t.length : ℤ) ≤ INT_MAX
  · obtain ⟨buf, hv, -⟩ := vsnprintf_eq hmax
    have hin : (t.length : ℤ) < 0 ∨ ((2048 : ℕ) : ℤ) - 1 < t.length := by omega
    simp only [vsendBuf, h, hv, if_pos hin, Option.bind_eq_bind, Option.bind_some, Option.pure_def]
  · have hv : vsnprintf (.fill _ 0) (BUFLENLINE - 1) t = some (-1, .fill _ 0) := if_pos (not_le.1 hmax)
    simp only [vsendBuf, h, hv, Option.bind_eq_bind, Option.bind_some, Option.pure_def]
    rfl

/-- **At the edge** the terminator is written behind the buffer. -/
theorem vsendBuf_edge (h : format fmt.bytes ap = some t) (ht : t.length = BUFLENLINE - 1) :
    vsendBuf fmt ap = none := by
  have ht : t.length = 2047 := ht
  obtain ⟨buf, hv, -⟩ := vsnprintf_eq (t := t) (by rw [INT_MAX]; omega)
  have hin : ¬ ((t.length : ℤ) < 0 ∨ ((2048 : ℕ) : ℤ) - 1 < t.length) := by omega
  have hset : ∀ b : Block UInt8 BUFLENLINE, b.set (t.length + 1) 0 = none := fun b =>
    Block.set_none (by rw [ht])
  simp only [vsendBuf, h, hv, if_neg hin, Int.toNat_natCast, Option.bind_eq_bind, Option.bind_some,
    hset, Option.bind_none]
  exact Option.bind_fun_none _

/-! ## Sending -/

/-- The session is connected and no reply is due. -/
structure World.Idle (w : World) : Prop where
  fd : w.con.fd ≠ -1
  inreply : w.inreply = false

/-- The disconnect handler returns. -/
def Handlers.Returns (ev : Handlers) : Prop := ∀ w, ∃ w', ev.disconnect w = some w'

theorem Handlers.returns_passive : Handlers.passive.Returns := fun w => ⟨w, rfl⟩

/-- The disconnect handler returns, and leaves no reply due. -/
def Handlers.Settles (ev : Handlers) : Prop :=
  ∀ w : World, w.inreply = false → ∃ w', ev.disconnect w = some w' ∧ w'.inreply = false

theorem Handlers.settles_passive : Handlers.passive.Settles := fun w h => ⟨w, rfl, h⟩

theorem close_settles (hev : ev.Settles) (v : World) :
    ∃ v', ducClose ev v = some v' ∧ v'.inreply = false :=
  hev { v with
    line := none, inreply := false, code := [], con := ducSockDisconnect v.con,
    log := v.log ++ [.disconnect] } rfl

theorem ducOpen_open (h : w.con.fd ≠ -1) : ducOpen ev w = some (0, w) := if_pos h

/-- The bytes that the next `send` takes of `cmd`, `none` for an error. -/
def World.takes (w : World) (cmd : List UInt8) : Option (List UInt8) :=
  match w.sends with
  | [] => some cmd
  | none :: _ => none
  | some n :: _ => some (cmd.take n)

theorem ducVsend_idle (hw : w.Idle) :
    ducVsend ev w fmt ap = (vsendBuf fmt ap).bind fun cmd =>
      match cmd with
      | none => some (-1, w)
      | some cmd => vsendSend ev w cmd := by
  rw [ducVsend, vsendBody, hw.inreply, ducOpen_open hw.fd]
  rfl

theorem vsendSend_some {cmd took : List UInt8} (hfd : w.con.fd ≠ -1) (h : w.takes cmd = some took) :
    vsendSend ev w cmd = some (0, { w with
      code := [], line := none, inreply := true, sends := w.sends.tail, sent := w.sent ++ [took] }) := by
  have hfd' : ¬ w.unreplied.con.fd = -1 := hfd
  have hs' : w.unreplied.sends = w.sends := rfl
  unfold World.takes at h
  unfold vsendSend World.send
  rw [if_neg hfd', hs']
  rcases hs : w.sends with _ | ⟨_ | n, ss⟩ <;> simp only [hs] at h
  · obtain rfl := Option.some.inj h; rfl
  · cases h
  · obtain rfl := Option.some.inj h; rfl

theorem vsendSend_none {cmd : List UInt8} (hev : ev.Settles) (hfd : w.con.fd ≠ -1)
    (h : w.takes cmd = none) : ∃ w', vsendSend ev w cmd = some (-1, w') ∧ w'.inreply = false := by
  have hfd' : ¬ w.unreplied.con.fd = -1 := hfd
  have hs' : w.unreplied.sends = w.sends := rfl
  unfold World.takes at h
  unfold vsendSend World.send
  rw [if_neg hfd', hs']
  rcases hs : w.sends with _ | ⟨_ | n, ss⟩ <;> simp only [hs] at h
  · cases h
  · obtain ⟨v, hv, hin⟩ := close_settles hev { w.unreplied with sends := ss }
    exact ⟨v, by simp only [hv, Option.bind_eq_bind, Option.bind_some, Option.pure_def], hin⟩
  · cases h

/-- `_duc_vsend` puts `t` on the wire as one line and returns 0, or returns -1 with no reply due; it
stays inside its buffer. -/
def OneLine (ev : Handlers) (w : World) (fmt : Cstr) (ap : List Arg) (t : List UInt8) : Prop :=
  ∃ r w', ducVsend ev w fmt ap = some (r, w') ∧
    (r = 0 → w'.sent = w.sent ++ [t ++ [LF]] ∧ LF ∉ t) ∧ (r ≠ 0 → r = -1 ∧ w'.inreply = false)

/-- **One command, one line**, just when the text is not one byte too long for the terminator, and a
text that is sent holds no line feed and is taken whole. -/
theorem vsend_line_iff (hev : ev.Settles) (hw : w.Idle) (h : format fmt.bytes ap = some t) :
    OneLine ev w fmt ap t ↔ t.length ≠ BUFLENLINE - 1 ∧
      (t.length < BUFLENLINE - 1 → ∀ took, w.takes (t ++ [LF]) = some took →
        took = t ++ [LF] ∧ LF ∉ t) := by
  unfold OneLine
  rw [ducVsend_idle hw]
  rcases lt_trichotomy t.length (BUFLENLINE - 1) with hlt | heq | hgt
  · rw [vsendBuf_eq h hlt, Option.bind_some]
    simp only [ne_eq, hlt.ne, not_false_eq_true, hlt, true_and, forall_const]
    rcases htake : w.takes (t ++ [LF]) with _ | took
    · obtain ⟨w', hsend, hin⟩ := vsendSend_none hev hw.fd htake
      exact ⟨fun _ _ h => (Option.some_ne_none _ h.symm).elim,
        fun _ => ⟨-1, w', hsend, fun h => absurd h (by decide), fun _ => ⟨rfl, hin⟩⟩⟩
    · rw [vsendSend_some hw.fd htake]
      constructor
      · rintro ⟨r, w', hr, h0, -⟩ took' hsome
        obtain ⟨rfl, rfl⟩ := Prod.mk.inj (Option.some.inj hr)
        obtain rfl := Option.some.inj hsome
        obtain ⟨hsent, hfree⟩ := h0 rfl
        exact ⟨by simpa using hsent, hfree⟩
      · intro hall
        obtain ⟨rfl, hfree⟩ := hall took rfl
        exact ⟨0, _, rfl, fun _ => ⟨rfl, hfree⟩, fun h => absurd rfl h⟩
  · rw [vsendBuf_edge h heq]
    simp [heq]
  · rw [vsendBuf_long h hgt, Option.bind_some]
    have hne : t.length ≠ BUFLENLINE - 1 := hgt.ne'
    exact ⟨fun _ => ⟨hne, fun hlt => absurd hgt (Nat.lt_asymm hlt)⟩,
      fun _ => ⟨-1, w, rfl, fun h => absurd h (by decide), fun _ => ⟨rfl, hw.inreply⟩⟩⟩

/-- A session on a new connection to a server that sends `recvs`. -/
def idleWorld (recvs : List Recv) (sends : List (Option ℕ)) : World where
  user := none
  pass := none
  con := freshSock
  vmajor := 1
  vminor := 2
  inreply := false
  code := []
  line := none
  recvs := recvs
  sends := sends
  dials := []
  sent := []
  rooms := []
  log := []

theorem idleWorld_idle (recvs : List Recv) (sends : List (Option ℕ)) :
    (idleWorld recvs sends).Idle := ⟨freshSock_fresh.1, rfl⟩

theorem OneLine.sent (h : OneLine ev w fmt ap t) (sent : List (List UInt8))
    (hr : (ducVsend ev w fmt ap).map (fun p => (p.1, p.2.sent)) = some (0, sent)) :
    sent = w.sent ++ [t ++ [LF]] ∧ LF ∉ t := by
  obtain ⟨r, w', hv, h0, -⟩ := h
  rw [hv] at hr
  obtain ⟨rfl, rfl⟩ := Prod.mk.inj (Option.some.inj hr)
  exact h0 rfl

/-- A name of `n` letters. -/
def longName (n : ℕ) : Cstr :=
  ⟨List.replicate n 97, fun h => absurd (List.eq_of_mem_replicate h) (by decide)⟩

/-- **Three commands that are not one line**: a text of 2047 bytes, a `send` that takes three bytes,
and a name with a line feed. -/
theorem vsend_line_fails : (idleWorld [] []).Idle ∧ (idleWorld [] [some 3]).Idle ∧
    (∃ t, format (Cstr.lit "user2id %s").bytes [.str (longName 2039)] = some t ∧
      ¬ OneLine .passive (idleWorld [] []) (.lit "user2id %s") [.str (longName 2039)] t) ∧
    (∃ t, format (Cstr.lit "play").bytes [] = some t ∧
      ¬ OneLine .passive (idleWorld [] [some 3]) (.lit "play") [] t) ∧
    ∃ t, format (Cstr.lit "tracksetname %d %s").bytes [.int 1, .str (.lit "a\nb")] = some t ∧
      ¬ OneLine .passive (idleWorld [] []) (.lit "tracksetname %d %s") [.int 1, .str (.lit "a\nb")]
        t := by
  refine ⟨idleWorld_idle _ _, idleWorld_idle _ _, ⟨_, rfl, ?_⟩, ⟨_, rfl, fun h => ?_⟩,
    (Cstr.lit "tracksetname 1 a\nb").bytes, by decide +kernel, fun h => ?_⟩
  · rintro ⟨r, w', hv, -⟩
    have hnone : ducVsend .passive (idleWorld [] []) (.lit "user2id %s") [.str (longName 2039)] =
      none := by decide +kernel
    rw [hnone] at hv
    cases hv
  · have := h.sent [(Cstr.lit "pla").bytes] (by decide +kernel)
    exact absurd this.1 (by decide)
  · have := h.sent [(Cstr.lit "tracksetname 1 a\nb\n").bytes] (by decide +kernel)
    exact this.2 (by decide)

/-- The theorem at a command of one word. -/
theorem vsend_line_play :
    OneLine .passive (idleWorld [] []) (.lit "play") [] (Cstr.lit "play").bytes :=
  (vsend_line_iff Handlers.settles_passive (idleWorld_idle [] []) rfl).2
    ⟨by decide, fun _ took h => ⟨(Option.some.inj h).symm, by decide⟩⟩

end Dudlc
