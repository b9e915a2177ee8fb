import Dudlc.Lib.Prog
import Dudlc.Replies

/-!
# Programs of a client

What a client does with the library, as a program whose calls are the command helpers, `duc_fd` and
`duc_open`. A server that answers requests is an interpreter of such programs, and so is a session.

* `Op`, `Client`; `Request`.
* `Server`, `Server.op`: a server that answers and keeps the connection.
* `World.op`: the session of `proto.c`.
* **`run_session`**: a session on which the replies of a server arrive runs a program as the server does,
  and sends its requests, each as one line.
-/

namespace Dudlc

open Lib

/-- The calls of a client. -/
inductive Op : Type → Type 1
  /-- A command helper. -/
  | cmd {ρ : Type} (c : Cmd ρ) : Op (Result ρ)
  /-- `duc_fd` -/
  | fd : Op ℤ
  /-- `duc_open` -/
  | open : Op ℤ
  /-- `_duc_send`, and `_duc_rnext` up to the end of the reply. -/
  | raw (line : Cstr) : Op ℤ

/-- A part of a client. -/
abbrev Client := Prog Op

/-- A request: the format and the arguments given to a command helper. -/
structure Request where
  fmt : Cstr
  args : List Arg
  deriving DecidableEq

/-- The request a command sends. -/
def Cmd.request {ρ : Type} (c : Cmd ρ) : Request := ⟨c.fmt, c.args⟩

/-- The text of a request. -/
def Request.text (q : Request) : Option (List UInt8) := format q.fmt.bytes q.args

/-! ## Servers that answer -/

/-- A server that keeps the connection on the descriptor `fd`. `answer` gives the lines of its reply to a
request, after the requests it has had before; it may leave requests unanswered. -/
structure Server where
  fd : ℕ
  answer : List Request → Request → Option (List (List UInt8))

/-- What a call does: the state is the requests sent so far. -/
def Server.op (sv : Server) : ∀ {β : Type}, Op β → List Request → Option (β × List Request)
  | _, .cmd c, sent =>
    (sv.answer sent c.request).map fun rep => (c.helper.answer rep, sent ++ [c.request])
  | _, .fd, sent => some (sv.fd, sent)
  | _, .open, sent => some (0, sent)
  -- the text of a raw request is no command of the library
  | _, .raw _, _ => none

/-! ## Sessions -/

/-- What a call does to a session. -/
def World.op (ev : Handlers) : ∀ {β : Type}, Op β → World → Option (β × World)
  | _, .cmd c, w => runCmd ev w c
  | _, .fd, w => some (w.con.fd, w)
  | _, .open, w => ducOpen ev w
  | _, .raw line, w => do
    let (_, w) ← ducVsend ev w line []
    ducRlast ev w

/-- The server whose replies are given in advance. It takes requests that fit into a line. -/
def scripted (fd : ℕ) (reps : List (List (List UInt8))) : Server where
  fd := fd
  answer sent q := if ∃ t ∈ q.text, t.length < BUFLENLINE - 1 then reps[sent.length]? else none

/-- The session has sent `sent` since `w₀`, and the replies to come are those behind it. -/
structure Follows (w₀ : World) (part : List UInt8) (reps : List (List (List UInt8)))
    (sent : List Request) (w : World) : Prop where
  between : ∃ ls, Between w ls part (reps.drop sent.length)
  fd : w.con.fd = w₀.con.fd
  sent : ∃ ts, sent.mapM Request.text = some ts ∧ w.sent = w₀.sent ++ ts.map (· ++ [LF])

variable {ev : Handlers} {w₀ w : World} {part : List UInt8} {reps : List (List (List UInt8))}
  {sent : List Request} {fd : ℕ}

theorem op_follows (ev : Handlers) (hfd : w₀.con.fd = fd) {β : Type} (e : Op β) (sent : List Request)
    (w : World) (b : β) (sent' : List Request) (h : Follows w₀ part reps sent w)
    (hop : (scripted fd reps).op e sent = some (b, sent')) :
    ∃ w', World.op ev e w = some (b, w') ∧ Follows w₀ part reps sent' w' := by
  obtain ⟨ls, hb⟩ := h.between
  cases e with
  | fd =>
    obtain ⟨rfl, rfl⟩ := Prod.mk.inj (Option.some.inj hop)
    exact ⟨w, by rw [World.op, h.fd, hfd]; rfl, h⟩
  | «open» =>
    obtain ⟨rfl, rfl⟩ := Prod.mk.inj (Option.some.inj hop)
    exact ⟨w, ducOpen_open hb.idle.fd, h⟩
  | raw line => cases hop
  | cmd c =>
    obtain ⟨rep, hrep, heq⟩ := Option.map_eq_some_iff.1 hop
    obtain ⟨rfl, rfl⟩ := Prod.mk.inj heq
    simp only [scripted] at hrep
    split_ifs at hrep with hshort
    obtain ⟨t, ht, hlen⟩ := hshort
    have hdrop : reps.drop sent.length = rep :: reps.drop (sent.length + 1) :=
      (List.drop_eq_getElem?_toList_append ..).trans (by rw [hrep]; rfl)
    rw [hdrop] at hb
    obtain ⟨w', ls', hw', hb', hmoved⟩ := runCmd_between ev ht hlen hb
    obtain ⟨ts, hts, hsent⟩ := h.sent
    refine ⟨w', hw', ⟨ls', by rw [List.length_append]; exact hb'⟩, hmoved.fd.trans h.fd, ts ++ [t], ?_, ?_⟩
    · simp [List.mapM_append, hts, Option.mem_def.1 ht]
    · rw [hmoved.sent]
      simp [World.asked, hsent]

/-- **A session runs a program as the server does.** On an idle connection whose `send` takes whole
lines, let the lines that arrive be those of the replies, in whatever pieces and with broadcasts between
them. Then a program that returns on the server returns the same on the session, and each of its
requests is sent as one line. -/
theorem run_session (ev : Handlers) {ls : List (List UInt8)} (hb : Between w₀ ls part reps)
    (hfd : w₀.con.fd = fd) {α : Type} {p : Client α} {a : α}
    (h : p.run (scripted fd reps).op [] = some (a, sent)) :
    ∃ w', p.run (World.op ev) w₀ = some (a, w') ∧ Follows w₀ part reps sent w' :=
  Prog.run_simulates (Follows w₀ part reps) (fun e s w b s' => op_follows ev hfd e s w b s')
    (show Follows w₀ part reps [] w₀ from ⟨⟨ls, hb⟩, rfl, [], rfl, by simp⟩) h

end Dudlc
