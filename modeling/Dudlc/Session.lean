import Dudlc.Sock
import Dudlc.Lib.Numbers

/-!
# Sessions

The session of `session.c` and `proto.c` on a network that answers every call from a script: what
`recv`, `send` and the connection attempts do is given in advance and arbitrary. Every function maps
a world to its result and the next world; `none` is an access outside the memory or a NULL pointer
dereferenced.

* `Net`, `Session`, `World`, `Handlers`: the network, `dudlc`, the two together with the events raised,
  and the handlers of the connection events.
* `ducSockConnect`, `World.recv`, `World.send`: the calls of `sock.c` on the network.
* `ducClose`, `ducRnext`, `ducRlast`, `ducVsend`, `ducOpen`, `ducPoll`.
* `ducCmd`, `ducCmdSucc`, `ducCmdString`, `ducCmdInt`, `ducCmdConv`.
* `ducRnext_cases`, `ducOpen_cases`, `ducPoll_cases`: what a call can do.
* `pending`: the variant of the reading loops; `rnextLoop_fuel`, `rlast_fuel`, `pollLoop_fuel`.
* `ducRlast_rule`, `pollLoop_rule`: what a round of a loop has to keep.
-/

namespace Dudlc

open Lib

/-- What `recv` returns: `none` for an error, no bytes at the end of the stream. -/
abbrev Recv := Option (List UInt8)

/-- What a connection attempt leads to. -/
inductive Dial
  /-- The protocol, the host or the socket is not available. -/
  | noSocket
  /-- `connect` fails. -/
  | refused
  /-- The connection is made, with what its `recv` and `send` calls will do. -/
  | made (fd : ℕ) (recvs : List Recv) (sends : List (Option ℕ))
  deriving DecidableEq

/-- The network. When a list is used up, `recv` is at the end of the stream, `send` takes everything,
and connecting fails. -/
structure Net where
  /-- What the next `recv` calls on the connection have to return. -/
  recvs : List Recv
  /-- How many bytes the next `send` calls take, `none` for an error. -/
  sends : List (Option ℕ)
  /-- What the next connection attempts lead to. -/
  dials : List Dial
  /-- The bytes taken by each `send` so far. -/
  sent : List (List UInt8)
  /-- The sizes `recv` was asked for so far. -/
  rooms : List ℕ
  deriving DecidableEq

/-- `dudlc`. `code` is the C string in `code[4]`; `line` is an index into the receive buffer. -/
structure Session where
  user : Option Cstr
  pass : Option Cstr
  con : DucSock
  vmajor : ℤ
  vminor : ℤ
  inreply : Bool
  code : List UInt8
  line : Option ℕ
  deriving DecidableEq

/-- The events the library raises. -/
inductive Event
  | connect
  | disconnect
  | bcast (line : List UInt8)
  deriving DecidableEq

/-- A session, its network, and the events raised so far. -/
structure World extends Session, Net where
  log : List Event
  deriving DecidableEq

/-- The handlers of the connection events in `duc_events`; they may use the session. -/
structure Handlers where
  connect : World → Option World
  disconnect : World → Option World

/-- Handlers that do not touch the session. -/
def Handlers.passive : Handlers := ⟨some, some⟩

/-! ## The socket on the network -/

/-- `duc_sock_connect` -/
def ducSockConnect (w : World) : ℤ × World :=
  if w.con.fd ≠ -1 then (0, w)
  else match w.dials with
    | [] => (-1, w)
    | .noSocket :: ds => (-1, { w with dials := ds })
    | .refused :: ds => (-1, { w with dials := ds, con := { w.con with ilen := 0, llen := 0 } })
    | .made fd rs ss :: ds =>
      (0, { w with dials := ds, recvs := rs, sends := ss, con := { w.con with fd := fd } })

/-- `recv` for at most `room` bytes. What does not fit is left for the next call. -/
def Net.read (n : Net) (room : ℕ) : Recv × Net :=
  let n := { n with rooms := n.rooms ++ [room] }
  match n.recvs with
  | [] => (some [], n)
  | none :: rs => (none, { n with recvs := rs })
  | some bs :: rs =>
    if bs.length ≤ room then (some bs, { n with recvs := rs })
    else (some (bs.take room), { n with recvs := some (bs.drop room) :: rs })

/-- `duc_sock_recv` -/
def World.recv (w : World) : Option (ℤ × World) :=
  if w.con.fd = -1 then some (-1, w)
  else
    let got := w.toNet.read w.con.room
    (ducSockRecv w.con got.1).map fun p => (p.1, { w with toNet := got.2, con := p.2 })

/-- `duc_sock_send`, for the string `cmd`. -/
def World.send (w : World) (cmd : List UInt8) : ℤ × World :=
  if w.con.fd = -1 then (-1, w)
  else match w.sends with
    | [] => (0, { w with sent := w.sent ++ [cmd] })
    | none :: ss => (-1, { w with sends := ss })
    | some n :: ss => (0, { w with sends := ss, sent := w.sent ++ [cmd.take n] })

/-! ## Replies -/

variable (ev : Handlers)

/-- `duc_close` -/
def ducClose (w : World) : Option World :=
  ev.disconnect { w with
    line := none, inreply := false, code := [], con := ducSockDisconnect w.con,
    log := w.log ++ [.disconnect] }

/-- `_duc_bcast` -/
def ducBcast (w : World) (l : List UInt8) : World := { w with log := w.log ++ [.bcast l] }

/-- The first byte `6` of a broadcast line. -/
def isBcast (l : List UInt8) : Bool := l.head? = some 54

/-- One round of the loop in `_duc_rnext`. It ends without a line when the connection is closed. -/
def rnextBody (w : World) : Option (World ⊕ Option (ℕ × List UInt8) × World) := do
  let (l, con) ← ducSockGetline w.con
  let w := { w with con := con }
  match l with
  | some i =>
    let l ← cstr con.buf i
    if l.length < 4 then
      let w ← ducClose ev w
      return .inr (none, w)
    else if !isBcast l then return .inr (some (i, l), w)
    else return .inl (ducBcast w l)
  | none =>
    let (r, w) ← w.recv
    if r ≠ 0 then
      let w ← ducClose ev w
      return .inr (none, w)
    else return .inl w

/-- A bound for the lines and packets that are still to be read. -/
def pending (w : World) : ℕ :=
  2 * (w.con.ilen - w.con.llen) + (w.recvs.map fun r => 3 * (r.getD []).length + 1).sum

/-- The loop in `_duc_rnext`. -/
def rnextLoop (w : World) : Option (Option (ℕ × List UInt8) × World) :=
  loop (rnextBody ev) (pending w + 1) w

/-- `_duc_rnext` -/
def ducRnext (w : World) : Option (ℤ × World) :=
  if !w.inreply then some (-2, w)
  else do
    match ← rnextLoop ev w with
    | (none, w) => return (-1, w)
    | (some (i, l), w) =>
      let w := { w with line := some (i + 4) }
      if w.code ≠ [] then
        if w.code.take 3 ≠ l.take 3 then
          let w ← ducClose ev w
          return (-1, w)
        else return (0, { w with inreply := l[3]? = some 45 })
      else return (0, { w with code := l.take 3, inreply := l[3]? = some 45 })

/-- One round of the loop in `_duc_rlast`. -/
def rlastBody (w : World) : Option (World ⊕ ℤ × World) := do
  let (r, w) ← ducRnext ev w
  if r = 0 then return .inl w else return .inr (r, w)

/-- `_duc_rlast` -/
def ducRlast (w : World) : Option (ℤ × World) := do
  let (r, w) ← loop (rlastBody ev) (pending w + 1) w
  if r = -1 then return (-1, w) else return (0, w)

/-- The text of the line `_duc_rline` returns. -/
def World.rline (w : World) : Option (List UInt8) := do cstr w.con.buf (← w.line)

/-! ## Commands -/

/-- `BUFLENLINE` -/
abbrev BUFLENLINE : ℕ := 2048

/-- `vsnprintf(buf, size, …)` for the text `t`. -/
def vsnprintf (buf : Block UInt8 BUFLENLINE) (size : ℕ) (t : List UInt8) :
    Option (ℤ × Block UInt8 BUFLENLINE) :=
  if INT_MAX < t.length then some (-1, buf)
  else (buf.blit 0 (t.take (size - 1) ++ [0])).map fun buf => ((t.length : ℤ), buf)

/-- The string that `_duc_vsend` builds in `buf`, unless the text is too long. -/
def vsendBuf (fmt : Cstr) (ap : List Arg) : Option (Option (List UInt8)) := do
  let (len, buf) ← vsnprintf (.fill _ 0) (BUFLENLINE - 1) (← format fmt.bytes ap)
  if len < 0 ∨ (BUFLENLINE : ℤ) - 1 < len then return none
  else
    let buf ← buf.set len.toNat LF
    let buf ← buf.set (len.toNat + 1) 0
    return some (← cstr buf 0)

/-- The session without the last reply. -/
def World.unreplied (w : World) : World := { w with code := [], line := none }

/-- The end of `_duc_vsend`: the string is sent. -/
def vsendSend (w : World) (cmd : List UInt8) : Option (ℤ × World) :=
  match w.unreplied.send cmd with
  | (0, w) => some (0, { w with inreply := true })
  | (_, w) => do
    let w ← ducClose ev w
    return (-1, w)

/-- `_duc_vsend`, with the `duc_open` it calls. -/
def vsendBody (open_ : World → Option (ℤ × World)) (w : World) (fmt : Cstr) (ap : List Arg) :
    Option (ℤ × World) :=
  if w.inreply then some (-1, w)
  else do
    let (r, w) ← open_ w
    if r ≠ 0 then return (-1, w)
    else
      match ← vsendBuf fmt ap with
      | none => return (-1, w)
      | some cmd => vsendSend ev w cmd

/-- The part the command helpers share: send the command and read its whole reply. They return `fail`
without a complete reply, and otherwise what `done` makes of it. -/
def cmdBody {α : Type} (open_ : World → Option (ℤ × World)) (fail : α) (done : World → Option α)
    (w : World) (fmt : Cstr) (ap : List Arg) : Option (α × World) := do
  let (r, w) ← vsendBody ev open_ w fmt ap
  if r ≠ 0 then return (fail, w)
  let (r, w) ← ducRlast ev w
  if r ≠ 0 then return (fail, w)
  return (← done w, w)

/-- The byte `_duc_rcode` points to. -/
def World.rcode (w : World) : Option UInt8 := w.code.head?

/-- The result of `_duc_cmd_succ`. -/
def succDone (w : World) : Option ℤ := do
  let c ← w.rcode
  if c = 50 ∨ c = 51 then return 0 else return -1

/-! ## Connecting -/

/-- `duc_cmd_auth`, with the `duc_open` that its commands call. -/
def authBody (open_ : World → Option (ℤ × World)) (w : World) : Option (ℤ × World) := do
  match w.user, w.pass with
  | some user, some pass =>
    let (r, w) ← cmdBody ev open_ (-1) succDone w (.lit "user %s") [.str user]
    if r ≠ 0 then return (-1, w)
    let (r, w) ← cmdBody ev open_ (-1) succDone w (.lit "pass %s") [.str pass]
    if r ≠ 0 then return (-1, w)
    return (0, w)
  | _, _ => return (-1, w)

/-- The protocol version in a hello message, behind `dudld`. -/
def helloVersion (s : List UInt8) : ℤ × ℤ :=
  let major := strtol s
  if major.2 = 0 then (0, 0)
  else
    let minor := strtol (s.drop major.2)
    (toInt major.1, if minor.2 = 0 then 0 else toInt minor.1)

/-- `duc_open` on a new connection, up to the event: whether hello and login are accepted. -/
def helloBody (open_ : World → Option (ℤ × World)) (w : World) : Option (Bool × World) := do
  let (r, w) ← ducRlast ev { w with inreply := true }
  if r ≠ 0 then return (false, w)
  if w.rcode ≠ some 50 then return (false, w)
  let s ← w.rline
  if s.take 5 ≠ (Cstr.lit "dudld").bytes then return (false, w)
  let v := helloVersion (s.drop 5)
  let w := { w with vmajor := v.1, vminor := v.2 }
  if w.vmajor ≠ 1 then return (false, w)
  if w.user.isSome then
    let (r, w) ← authBody ev open_ w
    return (r = 0, w)
  return (true, w)

/-- `duc_open`, with the `duc_open` it calls to log in. -/
def openBody (open_ : World → Option (ℤ × World)) (w : World) : Option (ℤ × World) :=
  if w.con.fd ≠ -1 then some (0, w)
  else do
    let (r, w) := ducSockConnect w
    if r ≠ 0 then return (-1, w)
    let (ok, w) ← helloBody ev open_ w
    if ok then
      let w ← ev.connect { w with log := w.log ++ [.connect] }
      return (0, w)
    else return (-1, { w with con := ducSockDisconnect w.con })

/-- `duc_open` where it is called on an open connection. -/
def stayOpen (w : World) : Option (ℤ × World) := if w.con.fd ≠ -1 then some (0, w) else none

/-- `duc_open` -/
def ducOpen (w : World) : Option (ℤ × World) := openBody ev stayOpen w

/-! ## The calls of a client -/

/-- One round of the loop in `duc_poll`. -/
def pollBody (w : World) : Option (World ⊕ World) := do
  let (l, con) ← ducSockGetline w.con
  let w := { w with con := con }
  match l with
  | none => return .inr w
  | some i =>
    let l ← cstr con.buf i
    if l.length < 4 then
      let w ← ducClose ev w
      return .inr w
    -- other lines are only reported on stderr
    else if !isBcast l then return .inl w
    else return .inl (ducBcast w l)

/-- The loop in `duc_poll`. -/
def pollLoop (w : World) : Option World := loop (pollBody ev) (w.con.ilen - w.con.llen + 1) w

/-- `duc_poll` -/
def ducPoll (w : World) : Option World := do
  let (r, w) ← ducOpen ev w
  if r ≠ 0 then return w
  let (r, w) ← w.recv
  if r ≠ 0 then
    let w ← ducClose ev w
    pollLoop ev w
  else pollLoop ev w

/-- `_duc_vsend` -/
def ducVsend : World → Cstr → List Arg → Option (ℤ × World) := vsendBody ev (ducOpen ev)

/-- `_duc_cmd` -/
def ducCmd : World → Cstr → List Arg → Option (ℤ × World) :=
  cmdBody ev (ducOpen ev) (-1) fun _ => some 0

/-- `_duc_cmd_succ` -/
def ducCmdSucc : World → Cstr → List Arg → Option (ℤ × World) :=
  cmdBody ev (ducOpen ev) (-1) succDone

/-- The result of `_duc_cmd_string`. -/
def stringDone (w : World) : Option (Option (List UInt8)) := do
  if (← w.rcode) = 50 then return some (← w.rline) else return none

/-- `_duc_cmd_string` -/
def ducCmdString : World → Cstr → List Arg → Option (Option (List UInt8) × World) :=
  cmdBody ev (ducOpen ev) none stringDone

/-- The result of `_duc_cmd_int`. -/
def intDone (w : World) : Option ℤ := do
  if (← w.rcode) = 50 then return atoi (← w.rline) else return -1

/-- `_duc_cmd_int` -/
def ducCmdInt : World → Cstr → List Arg → Option (ℤ × World) :=
  cmdBody ev (ducOpen ev) (-1) intDone

/-- `_duc_converter`: the record made of a line, and the byte at `*end`. -/
abbrev Converter (ρ : Type) := List UInt8 → Option ρ × UInt8

/-- The result of `_duc_cmd_conv`. -/
def convDone {ρ : Type} (conv : Converter ρ) (w : World) : Option (Option ρ) := do
  if (← w.rcode) = 50 then return (conv (← w.rline)).1 else return none

/-- `_duc_cmd_conv` -/
def ducCmdConv {ρ : Type} (conv : Converter ρ) :
    World → Cstr → List Arg → Option (Option ρ × World) :=
  cmdBody ev (ducOpen ev) none (convDone conv)

/-! ## The loops end -/

section Fuel

variable {ev} {w w' : World}

theorem freeline_unread {s s' : DucSock} (h : freeline s = some s') :
    s'.ilen - s'.llen ≤ s.ilen - s.llen ∧ s'.llen = 0 := by
  unfold freeline at h
  split_ifs at h with h₁ h₂
  · obtain rfl := Option.some.inj h
    exact ⟨le_rfl, h₁⟩
  · simp only [Option.bind_eq_bind, Option.bind_eq_some_iff, Option.pure_def, Option.some.injEq] at h
    obtain ⟨_, -, _, -, rfl⟩ := h
    exact ⟨by simp, rfl⟩

theorem getline_unread {s s' : DucSock} {l : Option ℕ} (h : ducSockGetline s = some (l, s')) :
    s'.ilen - s'.llen + (if l.isSome then 1 else 0) ≤ s.ilen - s.llen := by
  simp only [ducSockGetline, Option.bind_eq_bind, Option.bind_eq_some_iff, Option.pure_def] at h
  obtain ⟨t, ht, h⟩ := h
  obtain ⟨hle, hl⟩ := freeline_unread ht
  split_ifs at h with h₀
  · obtain ⟨rfl, rfl⟩ := Prod.mk.inj (Option.some.inj h)
    simpa using hle
  · rw [Option.bind_eq_some_iff] at h
    obtain ⟨n, -, h⟩ := h
    split_ifs at h
    · obtain ⟨rfl, rfl⟩ := Prod.mk.inj (Option.some.inj h)
      rw [hl] at hle
      simpa using hle
    · simp only [Option.bind_eq_some_iff] at h
      obtain ⟨_, -, k, -, h⟩ := h
      obtain ⟨rfl, rfl⟩ := Prod.mk.inj (Option.some.inj h)
      simp only [Option.isSome_some, if_true]
      omega

theorem recv_pending {r : ℤ} (h : w.recv = some (r, w')) (hr : r = 0) : pending w' < pending w := by
  subst hr
  unfold World.recv at h
  split_ifs at h with hfd
  · cases h
  · simp only [Option.map_eq_some_iff] at h
    obtain ⟨⟨r, con⟩, hrecv, h⟩ := h
    obtain ⟨rfl, rfl⟩ := Prod.mk.inj h
    unfold ducSockRecv at hrecv
    rw [if_neg hfd] at hrecv
    rcases hn : w.toNet.read w.con.room with ⟨_ | _ | ⟨b, bs⟩, n⟩ <;> rw [hn] at hrecv
    · cases hrecv
    · cases hrecv
    · simp only [Option.bind_eq_bind, Option.bind_eq_some_iff, Option.pure_def] at hrecv
      obtain ⟨_, -, _, -, hrecv⟩ := hrecv
      obtain ⟨-, rfl⟩ := Prod.mk.inj (Option.some.inj hrecv)
      unfold Net.read at hn
      unfold pending
      rcases hw : w.recvs with _ | ⟨_ | cs, rs⟩ <;> simp only [hw] at hn
      · cases hn
      · cases hn
      · split_ifs at hn with hfit
        · obtain ⟨hcs, rfl⟩ := Prod.mk.inj hn
          obtain rfl := Option.some.inj hcs
          simp only [List.map_cons, List.sum_cons, Option.getD_some, List.length_cons]
          omega
        · obtain ⟨hcs, rfl⟩ := Prod.mk.inj hn
          have hlen := congrArg List.length (Option.some.inj hcs)
          simp only [List.map_cons, List.sum_cons, Option.getD_some, List.length_cons,
            List.length_take, List.length_drop] at hlen ⊢
          omega

/-- **A round of the loop in `_duc_rnext`**: a line that is too short, a reply line or a broadcast, or
no line and then a `recv` that fails or not. -/
theorem rnextBody_cases {x : World ⊕ Option (ℕ × List UInt8) × World}
    (h : rnextBody ev w = some x) :
    (∃ i t con, ducSockGetline w.con = some (some i, con) ∧ cstr con.buf i = some t ∧
      ((t.length < 4 ∧ ∃ w', ducClose ev { w with con := con } = some w' ∧ x = .inr (none, w')) ∨
        (4 ≤ t.length ∧ isBcast t = false ∧ x = .inr (some (i, t), { w with con := con })) ∨
        (4 ≤ t.length ∧ isBcast t = true ∧ x = .inl (ducBcast { w with con := con } t)))) ∨
    ∃ con r w₁, ducSockGetline w.con = some (none, con) ∧
      World.recv { w with con := con } = some (r, w₁) ∧
      ((r ≠ 0 ∧ ∃ w', ducClose ev w₁ = some w' ∧ x = .inr (none, w')) ∨ (r = 0 ∧ x = .inl w₁)) := by
  simp only [rnextBody, Option.bind_eq_bind, Option.bind_eq_some_iff, Option.pure_def] at h
  obtain ⟨⟨l, con⟩, hg, h⟩ := h
  cases l with
  | some i =>
    simp only [Option.bind_eq_some_iff] at h
    obtain ⟨t, ht, h⟩ := h
    refine Or.inl ⟨i, t, con, hg, ht, ?_⟩
    split_ifs at h with hlen hb
    · rw [Option.bind_eq_some_iff] at h
      obtain ⟨w', hw', h⟩ := h
      exact Or.inl ⟨hlen, w', hw', (Option.some.inj h).symm⟩
    · exact Or.inr (Or.inl ⟨by omega, by simpa using hb, (Option.some.inj h).symm⟩)
    · exact Or.inr (Or.inr ⟨by omega, by simpa using hb, (Option.some.inj h).symm⟩)
  | none =>
    simp only [Option.bind_eq_some_iff] at h
    obtain ⟨⟨r, w₁⟩, hr, h⟩ := h
    refine Or.inr ⟨con, r, w₁, hg, hr, ?_⟩
    split_ifs at h with hr0
    · rw [Option.bind_eq_some_iff] at h
      obtain ⟨w', hw', h⟩ := h
      exact Or.inl ⟨hr0, w', hw', (Option.some.inj h).symm⟩
    · exact Or.inr ⟨not_not.1 hr0, (Option.some.inj h).symm⟩

/-- **`_duc_rnext`**: no reply is due, the connection is closed, the code of the line differs from the
code of the reply, or the line is taken. -/
theorem ducRnext_cases {r : ℤ} (h : ducRnext ev w = some (r, w')) :
    (w.inreply = false ∧ r = -2 ∧ w' = w) ∨
    (w.inreply = true ∧ rnextLoop ev w = some (none, w') ∧ r = -1) ∨
    ∃ i l w₁, w.inreply = true ∧ rnextLoop ev w = some (some (i, l), w₁) ∧
      ((w₁.code ≠ [] ∧ w₁.code.take 3 ≠ l.take 3 ∧ r = -1 ∧
          ducClose ev { w₁ with line := some (i + 4) } = some w') ∨
        ((w₁.code ≠ [] → w₁.code.take 3 = l.take 3) ∧ r = 0 ∧
          w' = { w₁ with
            line := some (i + 4), inreply := l[3]? = some 45,
            code := if w₁.code = [] then l.take 3 else w₁.code })) := by
  unfold ducRnext at h
  split_ifs at h with hin
  · obtain ⟨rfl, rfl⟩ := Prod.mk.inj (Option.some.inj h)
    exact Or.inl ⟨by simpa using hin, rfl, rfl⟩
  have hin : w.inreply = true := by simpa using hin
  rw [Option.bind_eq_bind, Option.bind_eq_some_iff] at h
  obtain ⟨⟨l, w₁⟩, hloop, h⟩ := h
  cases l with
  | none =>
    obtain ⟨rfl, rfl⟩ := Prod.mk.inj (Option.some.inj h)
    exact Or.inr (Or.inl ⟨hin, hloop, rfl⟩)
  | some p =>
    refine Or.inr (Or.inr ⟨p.1, p.2, w₁, hin, hloop, ?_⟩)
    simp only [Option.bind_eq_bind, Option.pure_def] at h
    split_ifs at h with hc ht
    · rw [Option.bind_eq_some_iff] at h
      obtain ⟨w₂, hw₂, h⟩ := h
      obtain ⟨rfl, rfl⟩ := Prod.mk.inj (Option.some.inj h)
      exact Or.inl ⟨hc, ht, rfl, hw₂⟩
    · obtain ⟨rfl, rfl⟩ := Prod.mk.inj (Option.some.inj h)
      exact Or.inr ⟨fun _ => not_not.1 ht, rfl, by rw [if_neg hc]⟩
    · obtain ⟨rfl, rfl⟩ := Prod.mk.inj (Option.some.inj h)
      exact Or.inr ⟨fun h => absurd h hc, rfl, by rw [if_pos (not_not.1 hc)]⟩

/-- **`duc_open`**: the connection is open, cannot be made, or the server is accepted or refused. -/
theorem ducOpen_cases {r : ℤ} (h : ducOpen ev w = some (r, w')) :
    (w.con.fd ≠ -1 ∧ r = 0 ∧ w' = w) ∨
    ∃ q w₁, w.con.fd = -1 ∧ ducSockConnect w = (q, w₁) ∧
      ((q ≠ 0 ∧ r = -1 ∧ w' = w₁) ∨
        ∃ ok w₂, q = 0 ∧ helloBody ev stayOpen w₁ = some (ok, w₂) ∧
          ((ok = true ∧ r = 0 ∧ ev.connect { w₂ with log := w₂.log ++ [.connect] } = some w') ∨
            (ok = false ∧ r = -1 ∧ w' = { w₂ with con := ducSockDisconnect w₂.con }))) := by
  unfold ducOpen openBody at h
  split_ifs at h with hfd
  · obtain ⟨rfl, rfl⟩ := Prod.mk.inj (Option.some.inj h)
    exact Or.inl ⟨hfd, rfl, rfl⟩
  rcases hc : ducSockConnect w with ⟨q, w₁⟩
  simp only [hc] at h
  refine Or.inr ⟨q, w₁, not_not.1 hfd, rfl, ?_⟩
  split_ifs at h with hq
  · obtain ⟨rfl, rfl⟩ := Prod.mk.inj (Option.some.inj h)
    exact Or.inl ⟨hq, rfl, rfl⟩
  simp only [Option.bind_eq_bind, Option.bind_eq_some_iff, Option.pure_def] at h
  obtain ⟨⟨ok, w₂⟩, hello, h⟩ := h
  refine Or.inr ⟨ok, w₂, not_not.1 hq, hello, ?_⟩
  cases ok with
  | true =>
    simp only [if_true, Option.bind_eq_some_iff] at h
    obtain ⟨w₃, hw₃, h⟩ := h
    obtain ⟨rfl, rfl⟩ := Prod.mk.inj (Option.some.inj h)
    exact Or.inl ⟨rfl, rfl, hw₃⟩
  | false =>
    simp only [Bool.false_eq_true, if_false] at h
    obtain ⟨rfl, rfl⟩ := Prod.mk.inj (Option.some.inj h)
    exact Or.inr ⟨rfl, rfl, rfl⟩

/-- **A round of the loop in `duc_poll`**: no line, a line that is too short, a broadcast or another line. -/
theorem pollBody_cases {x : World ⊕ World} (h : pollBody ev w = some x) :
    (∃ con, ducSockGetline w.con = some (none, con) ∧ x = .inr { w with con := con }) ∨
    ∃ i t con, ducSockGetline w.con = some (some i, con) ∧ cstr con.buf i = some t ∧
      ((t.length < 4 ∧ ∃ w', ducClose ev { w with con := con } = some w' ∧ x = .inr w') ∨
        (4 ≤ t.length ∧ isBcast t = false ∧ x = .inl { w with con := con }) ∨
        (4 ≤ t.length ∧ isBcast t = true ∧ x = .inl (ducBcast { w with con := con } t))) := by
  simp only [pollBody, Option.bind_eq_bind, Option.bind_eq_some_iff, Option.pure_def] at h
  obtain ⟨⟨l, con⟩, hg, h⟩ := h
  cases l with
  | none => exact Or.inl ⟨con, hg, (Option.some.inj h).symm⟩
  | some i =>
    simp only [Option.bind_eq_some_iff] at h
    obtain ⟨t, ht, h⟩ := h
    refine Or.inr ⟨i, t, con, hg, ht, ?_⟩
    split_ifs at h with hlen hb
    · rw [Option.bind_eq_some_iff] at h
      obtain ⟨w', hw', h⟩ := h
      exact Or.inl ⟨hlen, w', hw', (Option.some.inj h).symm⟩
    · exact Or.inr (Or.inl ⟨by omega, by simpa using hb, (Option.some.inj h).symm⟩)
    · exact Or.inr (Or.inr ⟨by omega, by simpa using hb, (Option.some.inj h).symm⟩)

/-- **`duc_poll`**: it cannot connect, or receives, and then reads lines. -/
theorem ducPoll_cases (h : ducPoll ev w = some w') :
    ∃ r w₁, ducOpen ev w = some (r, w₁) ∧
      ((r ≠ 0 ∧ w' = w₁) ∨
        ∃ q w₂, r = 0 ∧ w₁.recv = some (q, w₂) ∧
          ((q ≠ 0 ∧ ∃ w₃, ducClose ev w₂ = some w₃ ∧ pollLoop ev w₃ = some w') ∨
            (q = 0 ∧ pollLoop ev w₂ = some w'))) := by
  simp only [ducPoll, Option.bind_eq_bind, Option.bind_eq_some_iff, Option.pure_def] at h
  obtain ⟨⟨r, w₁⟩, ho, h⟩ := h
  refine ⟨r, w₁, ho, ?_⟩
  split_ifs at h with hr
  · exact Or.inl ⟨hr, (Option.some.inj h).symm⟩
  rw [Option.bind_eq_some_iff] at h
  obtain ⟨⟨q, w₂⟩, hrecv, h⟩ := h
  refine Or.inr ⟨q, w₂, not_not.1 hr, hrecv, ?_⟩
  split_ifs at h with hq
  · rw [Option.bind_eq_some_iff] at h
    obtain ⟨w₃, hc, h⟩ := h
    exact Or.inl ⟨hq, w₃, hc, h⟩
  · exact Or.inr ⟨not_not.1 hq, h⟩

theorem rnextBody_pending (h : rnextBody ev w = some (.inl w')) : pending w' < pending w := by
  rcases rnextBody_cases h with ⟨i, t, con, hg, -, h⟩ | ⟨con, r, w₁, hg, hr, h⟩
  · have hle := getline_unread hg
    rcases h with ⟨-, _, -, h⟩ | ⟨-, -, h⟩ | ⟨-, -, h⟩ <;> cases h
    simp only [Option.isSome_some, if_true] at hle
    simp only [pending, ducBcast]
    omega
  · have hle := getline_unread hg
    rcases h with ⟨-, _, -, h⟩ | ⟨hr0, h⟩ <;> cases h
    refine (recv_pending hr hr0).trans_le ?_
    simp only [Option.isSome_none, Bool.false_eq_true, if_false] at hle
    simp only [pending]
    omega

/-- **The loop in `_duc_rnext` ends**: more rounds than `pending` change nothing. -/
theorem rnextLoop_fuel {n : ℕ} (hn : pending w < n) : loop (rnextBody ev) n w = rnextLoop ev w :=
  loop_fuel pending (fun _ _ => rnextBody_pending) n _ w hn (Nat.lt_succ_self _)

theorem rnextLoop_pending {l : ℕ × List UInt8} (h : rnextLoop ev w = some (some l, w')) :
    pending w' < pending w := by
  have := loop_partial (fun v => pending v ≤ pending w)
    (fun b : Option (ℕ × List UInt8) × World => b.1.isSome → pending b.2 < pending w)
    (fun v v' hv hb => (rnextBody_pending hb).le.trans hv) (fun v b hv hb hsome => ?_) _ w _ le_rfl h
  · exact this rfl
  · rcases rnextBody_cases hb with ⟨i, t, con, hg, -, h⟩ | ⟨con, r, w₁, hg, hr, h⟩
    · have hle := getline_unread hg
      rcases h with ⟨-, _, -, h⟩ | ⟨-, -, h⟩ | ⟨-, -, h⟩ <;> cases h
      · cases hsome
      · simp only [Option.isSome_some, if_true] at hle
        refine lt_of_lt_of_le ?_ hv
        simp only [pending]
        omega
    · rcases h with ⟨-, _, -, h⟩ | ⟨-, h⟩ <;> cases h
      cases hsome

theorem rnext_pending (h : ducRnext ev w = some (0, w')) : pending w' < pending w := by
  rcases ducRnext_cases h with ⟨-, h, -⟩ | ⟨-, -, h⟩ | ⟨i, l, w₁, -, hloop, ⟨-, -, h, -⟩ | ⟨-, -, rfl⟩⟩
  · cases h
  · cases h
  · cases h
  · exact (rnextLoop_pending hloop : pending w₁ < pending w)

/-- **The loop in `_duc_rlast` ends.** -/
theorem rlast_fuel {n : ℕ} (hn : pending w < n) :
    loop (rlastBody ev) n w = loop (rlastBody ev) (pending w + 1) w := by
  refine loop_fuel pending (fun v v' h => ?_) n _ w hn (Nat.lt_succ_self _)
  simp only [rlastBody, Option.bind_eq_bind, Option.bind_eq_some_iff, Option.pure_def] at h
  obtain ⟨⟨r, v₁⟩, hr, h⟩ := h
  split_ifs at h with hr0
  · subst hr0
    cases h
    exact rnext_pending hr
  · cases h

theorem rlast_done (h : w.inreply = false) : ducRlast ev w = some (0, w) := by
  have hr : rlastBody ev w = some (.inr (-2, w)) := by simp [rlastBody, ducRnext, h]
  simp [ducRlast, loop_succ_inr hr]

theorem rlast_step (h : ducRnext ev w = some (0, w')) : ducRlast ev w = ducRlast ev w' := by
  have hr : rlastBody ev w = some (.inl w') := by simp [rlastBody, h]
  rw [ducRlast, loop_succ_inl hr, rlast_fuel (rnext_pending h), ducRlast]

theorem rlast_lost {x : Option World} (h : ducRnext ev w = x.map fun v => (-1, v)) :
    ducRlast ev w = x.map fun v => (-1, v) := by
  cases x with
  | none =>
    have hr : rlastBody ev w = none := by simp [rlastBody, h]
    simp [ducRlast, loop_succ_none hr]
  | some v =>
    have hr : rlastBody ev w = some (.inr (-1, v)) := by simp [rlastBody, h]
    simp [ducRlast, loop_succ_inr hr]

/-- **The loop in `duc_poll` ends.** -/
theorem pollLoop_fuel {n : ℕ} (hn : w.con.ilen - w.con.llen < n) :
    loop (pollBody ev) n w = pollLoop ev w := by
  refine loop_fuel (fun v : World => v.con.ilen - v.con.llen) (fun v v' h => ?_) n _ w hn
    (Nat.lt_succ_self _)
  rcases pollBody_cases h with ⟨con, hg, h⟩ | ⟨i, t, con, hg, -, h⟩
  · cases h
  have hle := getline_unread hg
  simp only [Option.isSome_some, if_true] at hle
  rcases h with ⟨-, _, -, h⟩ | ⟨-, -, h⟩ | ⟨-, -, h⟩ <;> cases h
  · exact hle
  · exact hle

/-! ## Rules for the loops -/

/-- **The rule of `_duc_rlast`.** `I` is kept while reply lines are read; at the end no reply is due, or
`_duc_rnext` fails. -/
theorem ducRlast_rule {I : World → Prop} {Q : ℤ → World → Prop} {r : ℤ} (hw : I w)
    (hstep : ∀ u v, I u → ducRnext ev u = some (0, v) → I v) (hdone : ∀ u, I u → u.inreply = false → Q 0 u)
    (hlost : ∀ u v, I u → ducRnext ev u = some (-1, v) → Q (-1) v) (h : ducRlast ev w = some (r, w')) :
    Q r w' := by
  simp only [ducRlast, Option.bind_eq_bind, Option.bind_eq_some_iff, Option.pure_def] at h
  obtain ⟨⟨q, u⟩, hloop, h⟩ := h
  have hround : ∀ u q v, I u → ducRnext ev u = some (q, v) →
      (q = 0 ∧ I v) ∨ (q = -2 ∧ Q 0 v) ∨ (q = -1 ∧ Q (-1) v) := by
    intro u q v hu hr
    rcases ducRnext_cases hr with ⟨hin, rfl, rfl⟩ | ⟨-, -, rfl⟩ | ⟨_, _, _, -, -, ⟨-, -, rfl, -⟩ | ⟨-, rfl, -⟩⟩
    · exact Or.inr (Or.inl ⟨rfl, hdone v hu hin⟩)
    · exact Or.inr (Or.inr ⟨rfl, hlost u v hu hr⟩)
    · exact Or.inr (Or.inr ⟨rfl, hlost u v hu hr⟩)
    · exact Or.inl ⟨rfl, hstep u v hu hr⟩
  have hend : (q = -2 ∧ Q 0 u) ∨ (q = -1 ∧ Q (-1) u) := by
    refine loop_partial I (fun b : ℤ × World => (b.1 = -2 ∧ Q 0 b.2) ∨ (b.1 = -1 ∧ Q (-1) b.2))
      ?_ ?_ _ w _ hw hloop
    all_goals
      intro u b hu hb
      simp only [rlastBody, Option.bind_eq_bind, Option.bind_eq_some_iff, Option.pure_def] at hb
      obtain ⟨⟨q, v⟩, hr, hb⟩ := hb
      split_ifs at hb with hq <;> cases hb
    · obtain rfl : q = 0 := hq
      exact hstep u v hu hr
    · exact (hround u q v hu hr).resolve_left fun h => hq h.1
  rcases hend with ⟨rfl, hQ⟩ | ⟨rfl, hQ⟩ <;> obtain ⟨rfl, rfl⟩ := Prod.mk.inj (Option.some.inj h)
  · exact hQ
  · exact hQ

/-- **The rule of the loop in `duc_poll`.** `I` is kept while lines are read; at the end there is no line,
or one that is too short. -/
theorem pollLoop_rule {I Q : World → Prop} (hw : I w)
    (hother : ∀ u i t con, I u → ducSockGetline u.con = some (some i, con) → cstr con.buf i = some t →
      4 ≤ t.length → isBcast t = false → I { u with con := con })
    (hnews : ∀ u i t con, I u → ducSockGetline u.con = some (some i, con) → cstr con.buf i = some t →
      4 ≤ t.length → isBcast t = true → I (ducBcast { u with con := con } t))
    (hnone : ∀ u con, I u → ducSockGetline u.con = some (none, con) → Q { u with con := con })
    (hshort : ∀ u i t con v, I u → ducSockGetline u.con = some (some i, con) → cstr con.buf i = some t →
      t.length < 4 → ducClose ev { u with con := con } = some v → Q v)
    (h : pollLoop ev w = some w') : Q w' := by
  refine loop_partial I Q ?_ ?_ _ w _ hw h
  · intro u u' hu hb
    rcases pollBody_cases hb with ⟨con, -, h⟩ | ⟨i, t, con, hg, ht, h⟩
    · cases h
    · rcases h with ⟨-, _, -, h⟩ | ⟨hlen, hother', h⟩ | ⟨hlen, hnews', h⟩ <;> cases h
      · exact hother u i t con hu hg ht hlen hother'
      · exact hnews u i t con hu hg ht hlen hnews'
  · intro u u' hu hb
    rcases pollBody_cases hb with ⟨con, hg, h⟩ | ⟨i, t, con, hg, ht, h⟩
    · cases h
      exact hnone u con hu hg
    · rcases h with ⟨hlen, v, hc, h⟩ | ⟨-, -, h⟩ | ⟨-, -, h⟩ <;> cases h
      exact hshort u i t con u' hu hg ht hlen hc

end Fuel

end Dudlc
