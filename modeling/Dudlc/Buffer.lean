import Dudlc.Sock

/-!
# Runs of the receive buffer

A socket is used by `duc_sock_recv` and `duc_sock_getline` in any order. A run records the bytes
received and what the `duc_sock_getline` calls returned.

* `SockOp`, `SockRun`, `sockStep`, `Delivers`.
* `sockStep_ok`: one step keeps the representation invariant just when it is not a
  `duc_sock_getline` call on a full buffer without a line end.
* **`buffer_inv_iff`**: the same for whole runs.
-/

namespace Dudlc

open Lib

/-- A use of the socket. -/
inductive SockOp
  | recv (bs : List UInt8)
  | getline
  deriving DecidableEq

/-- The socket, the bytes received so far, and the results of the `duc_sock_getline` calls. -/
structure SockRun where
  s : DucSock
  rcvd : List UInt8
  got : List (Option (List UInt8))
  deriving DecidableEq

/-- A run that starts now. -/
def SockRun.start (s : DucSock) : SockRun := ⟨s, [], []⟩

/-- The text of a line pointer. -/
def lineText (s : DucSock) : Option ℕ → Option (Option (List UInt8))
  | none => some none
  | some i => (cstr s.buf i).map some

/-- One use of the socket. -/
def sockStep (r : SockRun) : SockOp → Option SockRun
  | .recv bs => do
    let (_, s) ← ducSockRecv r.s (some bs)
    return { r with s := s, rcvd := r.rcvd ++ bs }
  | .getline => do
    let (l, s) ← ducSockGetline r.s
    let t ← lineText s l
    return { r with s := s, got := r.got ++ [t] }

/-- `recv` delivers at least one byte and no more than it was asked for. -/
def Delivers (r : SockRun) : SockOp → Prop
  | .recv bs => bs ≠ [] ∧ bs.length ≤ r.s.room
  | .getline => True

instance (r : SockRun) : DecidablePred (Delivers r)
  | .recv bs => inferInstanceAs (Decidable (bs ≠ [] ∧ bs.length ≤ r.s.room))
  | .getline => .isTrue trivial

/-- `0 ≤ llen ≤ ilen ≤ BUFLENRCV - 1`, and the received bytes are terminated. -/
structure SockRun.Inv (r : SockRun) : Prop where
  llen_le : r.s.llen ≤ r.s.ilen
  ilen_le : r.s.ilen ≤ BUFLENRCV - 1
  terminated : r.rcvd ≠ [] → r.s.buf.cells[r.s.ilen]? = some 0

/-- The buffer is filled to its last byte, nothing of it is consumed, and no byte ends a line. -/
def DucSock.Full (s : DucSock) : Prop :=
  s.llen = 0 ∧ s.ilen = BUFLENRCV - 1 ∧ ∀ b ∈ s.buf.cells.take s.ilen, isStop b = false

instance : DecidablePred DucSock.Full := fun s =>
  decidable_of_iff (s.llen = 0 ∧ s.ilen = BUFLENRCV - 1 ∧
    ((s.buf.cells.take s.ilen).all fun b => !isStop b) = true) (by simp [DucSock.Full])

/-- The representation of a run in progress. -/
def SockRun.Ok (r : SockRun) : Prop :=
  r.s.fd ≠ -1 ∧ (r.rcvd ≠ [] → r.s.buf.cells[r.s.ilen]? = some 0) ∧ ∃ taken u, Holds r.s taken u

theorem SockRun.Ok.inv {r : SockRun} (h : r.Ok) : r.Inv := by
  obtain ⟨-, hnul, taken, u, hu⟩ := h
  have := hu.ilen_lt
  exact ⟨hu.llen_le, by omega, hnul⟩

theorem SockRun.ok_start {s : DucSock} (h : s.Fresh) : (SockRun.start s).Ok :=
  ⟨h.1, fun hn => absurd rfl hn, [], [], holds_nil h.2.1 h.2.2⟩

theorem full_iff {s : DucSock} {taken u : List UInt8} (h : Holds s taken u) :
    s.Full ↔ u.length = BUFLENRCV - 1 ∧ ∀ b ∈ u, isStop b = false := by
  obtain ⟨x, junk, hc, -⟩ := h.cells_eq
  have htake : s.buf.cells.take s.ilen = taken ++ u := by
    rw [hc, h.ilen_eq, ← List.append_assoc, ← List.length_append, List.take_left]
  have hlt := h.length_lt
  constructor
  · rintro ⟨hl, hi, hstop⟩
    rw [h.llen_eq] at hl
    rw [h.ilen_eq] at hi
    rw [htake] at hstop
    exact ⟨by omega, fun b hb => hstop b (List.mem_append_right _ hb)⟩
  · rintro ⟨hlen, hstop⟩
    obtain rfl : taken = [] := List.eq_nil_of_length_eq_zero (by omega)
    refine ⟨h.llen_eq, by rw [h.ilen_eq, List.length_nil]; omega, ?_⟩
    rw [htake]
    exact hstop

/-- **One step** keeps the representation, unless it asks a full buffer for a line. -/
theorem sockStep_ok {r : SockRun} (h : r.Ok) {op : SockOp} (hop : Delivers r op)
    (hfull : op = .getline → ¬ r.s.Full) : ∃ r', sockStep r op = some r' ∧ r'.Ok := by
  obtain ⟨hfd, hnul, taken, u, hu⟩ := h
  cases op with
  | recv bs =>
    obtain ⟨s', hr, hs', hfd'⟩ := recv_holds hu hfd hop.1 hop.2
    refine ⟨{ r with s := s', rcvd := r.rcvd ++ bs }, by simp [sockStep, hr],
      hfd' ▸ hfd, fun _ => hs'.terminated ?_, taken, u ++ bs, hs'⟩
    have := List.length_pos_of_ne_nil hop.1
    rw [hs'.ilen_eq, List.length_append]
    omega
  | getline =>
    rcases split_first isStop u with hstop | ⟨l, c, q, rfl, hl, hc⟩
    · have hlt := hu.length_lt
      have hlen : u.length < BUFLENRCV - 1 := by
        by_contra hge
        exact hfull rfl ((full_iff hu).2 ⟨by omega, hstop⟩)
      obtain ⟨s', hg, hs', hfd', hnul'⟩ := getline_of_none hu hstop hlen
      exact ⟨{ r with s := s', got := r.got ++ [none] }, by simp [sockStep, hg, lineText],
        hfd' ▸ hfd, fun hr => hnul' (hnul hr), [], u, hs'⟩
    · obtain ⟨s', hg, hs', hfd'⟩ := getline_of_some hu hl hc
      have htext : cstr s'.buf 0 = some l :=
        cstr_line hs' (not_mem_of_not_isStop hl) 0 (Nat.zero_le _)
      refine ⟨{ r with s := s', got := r.got ++ [some l] },
        by simp [sockStep, hg, lineText, htext], hfd' ▸ hfd, fun _ => hs'.terminated ?_, _, _, hs'⟩
      rw [hs'.ilen_eq, List.length_append, List.length_cons]
      omega

theorem sockStep_full {r : SockRun} (h : r.Ok) (hf : r.s.Full) : sockStep r .getline = none := by
  obtain ⟨-, -, taken, u, hu⟩ := h
  obtain ⟨hlen, hstop⟩ := (full_iff hu).1 hf
  rw [sockStep, getline_of_full hu hstop hlen]
  rfl

theorem sockStep_keeps {r r' : SockRun} (h : r.Ok) {op : SockOp} (hop : Delivers r op)
    (hr : sockStep r op = some r') : r'.Ok := by
  by_cases hfull : op = .getline → ¬ r.s.Full
  · obtain ⟨t, ht, hok⟩ := sockStep_ok h hop hfull
    exact Option.some.inj (ht.symm.trans hr) ▸ hok
  · push Not at hfull
    obtain ⟨rfl, hf⟩ := hfull
    rw [sockStep_full h hf] at hr
    cases hr

/-- **The representation invariant.** On a freshly connected socket it holds in every state of a run,
and no access leaves the buffer, just when no `duc_sock_getline` call meets a full buffer without a
line end. -/
theorem buffer_inv_iff {s : DucSock} (hs : s.Fresh) (ops : List SockOp)
    (hops : Along sockStep Delivers (.start s) ops) :
    (∀ js, js <+: ops → ∃ r, runs sockStep (.start s) js = some r ∧ r.Inv) ↔
      Along sockStep (fun r op => op = .getline → ¬ r.s.Full) (.start s) ops := by
  have hstep : ∀ r op, SockRun.Ok r → Delivers r op →
      ((op = .getline → ¬ r.s.Full) ↔ ∃ r', sockStep r op = some r' ∧ r'.Ok) := by
    refine fun r op h hop => ⟨sockStep_ok h hop, ?_⟩
    rintro ⟨r', hr', -⟩ rfl hf
    rw [sockStep_full h hf] at hr'
    cases hr'
  rw [Along.iff_runs hstep (SockRun.ok_start hs) hops]
  refine forall₂_congr fun js hjs => ⟨?_, ?_⟩
  · rintro ⟨r, hr, -⟩
    obtain ⟨ks, rfl⟩ := hjs
    exact ⟨r, hr, Along.runs_keep (fun _ _ _ h hop => sockStep_keeps h hop)
      (SockRun.ok_start hs) hops.initial hr⟩
  · rintro ⟨r, hr, h⟩
    exact ⟨r, hr, h.inv⟩

/-- A run that fills the buffer with bytes that end no line, and then asks for a line. -/
def fillRun : List SockOp := [.recv (List.replicate 2047 97), .getline]

/-- **The full buffer.** `duc_sock_getline` scans for line ends behind the buffer. -/
theorem buffer_fillRun : freshSock.Fresh ∧ Along sockStep Delivers (.start freshSock) fillRun ∧
    runs sockStep (.start freshSock) fillRun = none :=
  ⟨freshSock_fresh, by decide +kernel, by decide +kernel⟩

/-- The theorem at a run of two bytes and one line. -/
theorem buffer_inv_iff_line :
    freshSock.Fresh ∧ ∀ js, js <+: [SockOp.recv [97, LF], .getline] →
      ∃ r, runs sockStep (.start freshSock) js = some r ∧ r.Inv :=
  ⟨freshSock_fresh, (buffer_inv_iff freshSock_fresh [SockOp.recv [97, LF], .getline]
    (by decide +kernel)).2 (by decide +kernel)⟩

end Dudlc
