import Dudlc.Completion
import Dudlc.Remote
import Mathlib.Data.List.DropRight

/-!
# The terminal

The text client waits for the user and for the server, and acts on the lines that are entered.

* `Handlers.KeepLogin`, `client_login`: no call but `duc_setauth` changes the credentials.
* `stripLine`, `ttyExecutor`: what is done with a line; `Meaning`, `meaning`: what it says.
* `ttyTurn`: a round of `loop`.
* **`terminal_session`**: what a session of the client comes to.
-/

namespace Dudlc

open Lib

/-! ## Credentials -/

section Login

variable {ev : Handlers} {w v : World} {r : ℤ}

/-- The credentials are the same. -/
def SameLogin (w v : World) : Prop := v.user = w.user ∧ v.pass = w.pass

theorem SameLogin.trans {u : World} (h : SameLogin w u) (h' : SameLogin u v) : SameLogin w v :=
  ⟨h'.1.trans h.1, h'.2.trans h.2⟩

/-- Handlers that do not change the credentials. -/
structure Handlers.KeepLogin (ev : Handlers) : Prop where
  connect : ∀ w v, ev.connect w = some v → SameLogin w v
  disconnect : ∀ w v, ev.disconnect w = some v → SameLogin w v

theorem Handlers.keepLogin_passive : Handlers.passive.KeepLogin :=
  ⟨fun _ _ h => Option.some.inj h ▸ ⟨rfl, rfl⟩, fun _ _ h => Option.some.inj h ▸ ⟨rfl, rfl⟩⟩

theorem close_login (hev : ev.KeepLogin) (h : ducClose ev w = some v) : SameLogin w v :=
  SameLogin.trans (u := w.closed) ⟨rfl, rfl⟩ (hev.disconnect _ _ h)

theorem Handlers.KeepLogin.keeps (hev : ev.KeepLogin) : ev.Keeps SameLogin where
  refl _ := ⟨rfl, rfl⟩
  trans := SameLogin.trans
  rnext h := by
    obtain ⟨v, hv, ⟨-, rfl, -⟩ | ⟨-, hc⟩⟩ := ducRnext_onward h
    · exact ⟨hv.user, hv.pass⟩
    · exact SameLogin.trans ⟨hv.user, hv.pass⟩ (close_login hev hc)
  send {w cmd r v} h := by
    obtain ⟨q, w₁, hs, hor⟩ := vsendSend_cases h
    obtain ⟨ss, sent, rfl⟩ := send_eq hs
    rcases hor with ⟨-, -, rfl⟩ | ⟨-, -, hc⟩
    · exact ⟨rfl, rfl⟩
    · exact SameLogin.trans (u := { w.unreplied with sends := ss, sent }) ⟨rfl, rfl⟩ (close_login hev hc)
  version _ _ _ := ⟨rfl, rfl⟩

theorem connect_login (hfd : w.con.fd = -1) (h : ducSockConnect w = (r, v)) : SameLogin w v :=
  ⟨(connect_carries hfd h).user, (connect_carries hfd h).pass⟩

theorem open_login (hev : ev.KeepLogin) (h : ducOpen ev w = some (r, v)) : SameLogin w v := by
  rcases ducOpen_cases h with ⟨-, -, rfl⟩ | ⟨q, w₁, hfd, hc, hor⟩
  · exact ⟨rfl, rfl⟩
  have hw₁ := connect_login hfd hc
  rcases hor with ⟨-, -, rfl⟩ | ⟨ok, w₂, -, hello, hor⟩
  · exact hw₁
  have hw₂ : SameLogin w w₂ := hw₁.trans (hev.keeps.hello hello)
  rcases hor with ⟨-, -, hconnect⟩ | ⟨-, -, rfl⟩
  · exact hw₂.trans (SameLogin.trans (u := { w₂ with log := w₂.log ++ [.connect] }) ⟨rfl, rfl⟩
      (hev.connect _ _ hconnect))
  · exact hw₂

theorem pollLoop_login (hev : ev.KeepLogin) (h : pollLoop ev w = some v) : SameLogin w v := by
  refine pollLoop_rule (I := SameLogin w) (Q := SameLogin w) ⟨rfl, rfl⟩ ?_ ?_ ?_ ?_ h
  · exact fun u i t con hu _ _ _ _ => hu
  · exact fun u i t con hu _ _ _ _ => hu
  · exact fun u con hu _ => hu
  · exact fun u i t con v hu _ _ _ hc => hu.trans (close_login (w := { u with con := con }) hev hc)

theorem poll_login (hev : ev.KeepLogin) (h : ducPoll ev w = some v) : SameLogin w v := by
  obtain ⟨r, w₁, ho, hor⟩ := ducPoll_cases h
  have hw₁ := open_login hev ho
  rcases hor with ⟨-, rfl⟩ | ⟨q, w₂, -, hr, hor⟩
  · exact hw₁
  obtain ⟨-, ⟨huser, hpass, -⟩, -⟩ := recv_cases hr
  have hw₂ : SameLogin w w₂ := hw₁.trans ⟨huser, hpass⟩
  rcases hor with ⟨-, w₃, hc, hloop⟩ | ⟨-, hloop⟩
  · exact (hw₂.trans (close_login hev hc)).trans (pollLoop_login hev hloop)
  · exact hw₂.trans (pollLoop_login hev hloop)

theorem op_login (hev : ev.KeepLogin) {β : Type} (e : Op β) {b : β} (h : World.op ev e w = some (b, v)) :
    SameLogin w v := by
  have hopen : ∀ (q : ℤ) (u : World), w.inreply = false → ducOpen ev w = some (q, u) → SameLogin w u :=
    fun _ _ _ ho => open_login hev ho
  cases e with
  | cmd c => exact hev.keeps.runCmd hopen h
  | fd =>
    obtain ⟨-, rfl⟩ := Prod.mk.inj (Option.some.inj h)
    exact ⟨rfl, rfl⟩
  | «open» => exact open_login hev h
  | raw line =>
    obtain ⟨⟨q, u⟩, hv, hl⟩ := Option.bind_eq_some_iff.1 h
    exact (hev.keeps.vsend hopen hv).trans (hev.keeps.rlast hl)

/-- **No client changes the credentials.** -/
theorem client_login (hev : ev.KeepLogin) {α : Type} {p : Client α} {a : α}
    (h : p.run (World.op ev) w = some (a, v)) : SameLogin w v := by
  obtain ⟨-, -, -, hsame⟩ := Prog.run_simulates (fun s t : World => s = t ∧ SameLogin w s)
    (fun e s _ b s' hst hb => ⟨s', hst.1 ▸ hb, rfl, hst.2.trans (op_login hev e hb)⟩) ⟨rfl, rfl, rfl⟩ h
  exact hsame

theorem Handlers.KeepLogin.again (hev : ev.KeepLogin) : ev.again.KeepLogin where
  connect := hev.connect
  disconnect w v h := by
    obtain ⟨⟨r, u⟩, ho, rfl⟩ := Option.map_eq_some_iff.1 h
    exact open_login hev ho

theorem keepLogin_cbDisc (n : ℕ) : (cbDisc some n).KeepLogin := by
  induction n with
  | zero => exact Handlers.keepLogin_passive
  | succ n ih => exact ih.again

end Login

/-! ## Lines -/

/-- The loop that cuts off blanks, at the index `c`. What is left is not empty. -/
def stripLoop (input : Cstr) : ℕ → ℕ
  | 0 => 1
  | c + 1 => if isspace (input.byte (c + 1)) then stripLoop input c else c + 2

/-- The line without trailing blanks. -/
def stripLine (input : Cstr) : Cstr := input.take (stripLoop input (input.bytes.length - 1))

/-- `strcasecmp(a, b) == 0` -/
def caseEq (a b : Cstr) : Bool := a.bytes.map tolower == b.bytes.map tolower

/-- The client: its session, `terminate`, the lines in the history, what `cmd_user` has said; and whether `select` has
failed. -/
structure Terminal where
  world : World
  terminate : ℕ
  history : List Cstr
  told : List (List UInt8)
  exited : Bool

/-- `tty_msg` -/
def Terminal.ttyMsg (s : Terminal) (msg : List UInt8) : Terminal := { s with told := s.told ++ [msg] }

/-- What `getpass` gives: a password or an error; and whether `strdup` has memory for the name and the password. -/
structure Auth where
  getpass : Except Cstr Cstr
  strdup : Bool × Bool

/-- `duc_setauth`, with memory for the copies that `dup` says. -/
def ducSetauth (user pass : Cstr) (dup : Bool × Bool) (w : World) : ℤ × World :=
  let w := { w with user := none, pass := none }
  if dup.1 = false then (-1, w)
  else
    let w := { w with user := some user }
    if dup.2 = false then (-1, { w with user := none }) else (0, { w with pass := some pass })

section Executor

variable (ev : Handlers) (addr : ArgVal → ℕ)

/-- `cmd_user` -/
def cmdUser (auth : Auth) (input : Cstr) (s : Terminal) : Option Terminal :=
  if input.bytes = [] then some (s.ttyMsg (Cstr.lit "missing username\n").bytes)
  else
    match auth.getpass with
    | .error e => some (s.ttyMsg ((Cstr.lit "failed: ").bytes ++ e.bytes ++ (Cstr.lit "\n").bytes))
    | .ok pass =>
      let (r, w) := ducSetauth input pass auth.strdup s.world
      let s := { s with world := w }
      if r ≠ 0 then some (s.ttyMsg (Cstr.lit "login failed\n").bytes)
      else (ducClose ev s.world).map fun w => { s with world := w }

/-- `tty_executor` -/
def ttyExecutor (auth : Auth) (input : Option Cstr) (s : Terminal) : Option Terminal :=
  match input with
  | none => some { s with terminate := s.terminate + 1 }
  | some input =>
    if input.bytes = [] then some s
    else
      let input := stripLine input
      let s := { s with history := s.history ++ [input] }
      let len := (input.bytes.takeWhile fun b => b ≠ 9 && b ≠ 32).length
      if caseEq input (.lit "quit") then some { s with terminate := s.terminate + 1 }
      else if caseEq input (.lit "exit") then some { s with terminate := s.terminate + 1 }
      else if len = 4 ∧ ncaseEq input (.lit "user") 4 then cmdUser ev auth (input.drop 4) s
      else ((ducCmdLine addr input).run (World.op ev) s.world).map fun p => { s with world := p.2 }

/-- A round of `loop`: what `select` returns, the signals to terminate, and the line that is complete with the next
key, if one is. -/
structure TtyTurn where
  select : Selects
  sigterm : ℕ
  key : Option (Option Cstr × Auth)

/-- `tty_poll`, when there is input. -/
def ttyPoll (t : TtyTurn) (ready : Bool) (s : Terminal) : Option Terminal :=
  if ready then
    match t.key with
    | none => some s
    | some (input, auth) => ttyExecutor ev addr auth input s
  else some s

/-- Input from the server. -/
def ttyDudl (ready : Bool) (s : Terminal) : Option Terminal :=
  if s.world.con.fd ≠ -1 ∧ ready then (ducPoll ev s.world).map fun w => { s with world := w } else some s

/-- A round of `loop`. There is none behind `exit`, and none when the client is to terminate. -/
def ttyTurn (s : Terminal) (t : TtyTurn) : Option Terminal :=
  if s.terminate ≠ 0 ∨ s.exited then none
  else
    let s := { s with terminate := s.terminate + t.sigterm }
    match t.select with
    | .interrupted => some s
    | .fails => some { s with exited := true }
    | .ready dudl tty => (ttyDudl ev dudl s).bind (ttyPoll ev addr t tty)

end Executor

/-- The client when it enters `loop`. -/
def Terminal.start (w : World) : Terminal := ⟨w, 0, [], [], false⟩

/-! ## What a line says -/

/-- A line without its trailing blanks; of blanks alone, the first one is left. -/
def trimmed (l : List UInt8) : List UInt8 := if l.rdropWhile isspace = [] then l.take 1 else l.rdropWhile isspace

/-- A byte that does not end a word. -/
def isWord (b : UInt8) : Bool := b ≠ 9 && b ≠ 32

/-- What a line says: nothing, to leave, who the user is, or a command. -/
inductive Meaning
  | nothing
  | leave
  | user (name : List UInt8)
  | command
  deriving DecidableEq

/-- What a line says, by its words: `quit` and `exit` stand alone, `user` is the first word. -/
def meaning (input : Option Cstr) : Meaning :=
  match input with
  | none => .leave
  | some input =>
    let l := trimmed input.bytes
    if input.bytes = [] then .nothing
    else if l.map tolower = (Cstr.lit "quit").bytes ∨ l.map tolower = (Cstr.lit "exit").bytes then .leave
    else if (l.takeWhile isWord).map tolower = (Cstr.lit "user").bytes then .user (l.dropWhile isWord)
    else .command

section Lines

variable {input : Cstr} {l : List UInt8} {n : ℕ}

theorem trimmed_concat {b : UInt8} (hl : l ≠ []) :
    trimmed (l ++ [b]) = if isspace b then trimmed l else l ++ [b] := by
  split_ifs with hb
  · have htake : (l ++ [b]).take 1 = l.take 1 := List.take_append_of_le_length (List.length_pos_iff.2 hl)
    rw [trimmed, trimmed, List.rdropWhile_concat_pos _ _ _ hb, htake]
  · rw [trimmed, List.rdropWhile_concat_neg _ _ _ hb, if_neg (by simp)]

theorem trimmed_singleton (b : UInt8) : trimmed [b] = [b] := by
  rw [trimmed, List.rdropWhile_singleton]
  cases isspace b <;> rfl

theorem stripLoop_eq (hn : n < input.bytes.length) :
    input.bytes.take (stripLoop input n) = trimmed (input.bytes.take (n + 1)) := by
  induction n with
  | zero =>
    obtain ⟨b, l, hl⟩ := List.exists_cons_of_length_pos hn
    rw [stripLoop, hl]
    exact (trimmed_singleton b).symm
  | succ n ih =>
    have hbyte : input.byte (n + 1) = input.bytes[n + 1] := by
      rw [Cstr.byte, List.getD_eq_getElem?_getD, List.getElem?_eq_getElem hn]
      rfl
    have hne : input.bytes.take (n + 1) ≠ [] := by
      rw [← List.length_pos_iff, List.length_take]
      omega
    rw [List.take_succ_eq_append_getElem hn, trimmed_concat hne, stripLoop, hbyte]
    split_ifs
    · exact ih (by omega)
    · rw [← List.take_succ_eq_append_getElem hn]

theorem stripLine_eq (h : input.bytes ≠ []) : (stripLine input).bytes = trimmed input.bytes := by
  have hpos := List.length_pos_iff.2 h
  calc (stripLine input).bytes = trimmed (input.bytes.take (input.bytes.length - 1 + 1)) := stripLoop_eq (by omega)
    _ = trimmed input.bytes := by rw [List.take_of_length_le (by omega)]

theorem dropWhile_word (l : List UInt8) : ∀ b ∈ (l.dropWhile isWord).head?, b = 9 ∨ b = 32 := by
  intro b hb
  have hnot := List.head?_dropWhile_not isWord l
  rw [Option.mem_def.1 hb] at hnot
  exact or_iff_not_imp_left.2 (by simpa [isWord] using hnot)

theorem caseEq_lower {c : Cstr} (hc : c.bytes.map tolower = c.bytes) :
    caseEq input c = true ↔ input.bytes.map tolower = c.bytes := by
  rw [caseEq, beq_iff_eq, hc]

theorem first_word : (input.bytes.takeWhile isWord).length = 4 ∧ ncaseEq input (.lit "user") 4 ↔
    (input.bytes.takeWhile isWord).map tolower = (Cstr.lit "user").bytes := by
  have hword : (input.bytes.takeWhile isWord).length = 4 → input.bytes.takeWhile isWord = input.bytes.take 4 :=
    fun h => h ▸ List.prefix_iff_eq_take.1 (List.takeWhile_prefix isWord)
  constructor
  · rintro ⟨hlen, heq⟩
    rw [hword hlen]
    exact beq_iff_eq.1 heq
  · intro h
    have hlen : (input.bytes.takeWhile isWord).length = 4 :=
      (List.length_map ..).symm.trans ((congrArg List.length h).trans (by decide))
    refine ⟨hlen, beq_iff_eq.2 ?_⟩
    rw [← hword hlen, h]
    decide

theorem drop_word (h : (input.bytes.takeWhile isWord).length = n) :
    (input.drop n).bytes = input.bytes.dropWhile isWord := by
  have hsplit := congrArg (List.drop n) (List.takeWhile_append_dropWhile (p := isWord) (l := input.bytes))
  rw [← h, List.drop_left, h] at hsplit
  exact hsplit.symm

theorem meaning_tests (h : input.bytes ≠ []) : meaning (some input) =
    if caseEq (stripLine input) (.lit "quit") then .leave
    else if caseEq (stripLine input) (.lit "exit") then .leave
    else if ((stripLine input).bytes.takeWhile isWord).length = 4 ∧ ncaseEq (stripLine input) (.lit "user") 4 then
      .user ((stripLine input).drop 4).bytes
    else .command := by
  have htrim := stripLine_eq h
  rw [meaning, if_neg h, ← htrim]
  generalize stripLine input = l
  simp only [← caseEq_lower (c := .lit "quit") (by decide), ← caseEq_lower (c := .lit "exit") (by decide), ← first_word]
  by_cases hquit : caseEq l (.lit "quit") = true
  · rw [if_pos (Or.inl hquit), if_pos hquit]
  by_cases hexit : caseEq l (.lit "exit") = true
  · rw [if_pos (Or.inr hexit), if_neg hquit, if_pos hexit]
  rw [if_neg (not_or.2 ⟨hquit, hexit⟩), if_neg hquit, if_neg hexit]
  by_cases hword : (l.bytes.takeWhile isWord).length = 4 ∧ ncaseEq l (.lit "user") 4 = true
  · rw [if_pos hword, if_pos hword, drop_word hword.1]
  · rw [if_neg hword, if_neg hword]

end Lines

/-! ## What is done with it -/

/-- A line that has been entered, with what `getpass` and `strdup` would say. -/
abbrev Entry := Option Cstr × Auth

/-- The line in the history. -/
def Entry.kept (e : Entry) : Option (List UInt8) :=
  e.1.bind fun input => if input.bytes = [] then none else some (trimmed input.bytes)

/-- What `cmd_user` tells the user. -/
def Entry.told (e : Entry) : List (List UInt8) :=
  match meaning e.1, e.2.getpass with
  | .user [], _ => [(Cstr.lit "missing username\n").bytes]
  | .user (_ :: _), .error err => [(Cstr.lit "failed: ").bytes ++ err.bytes ++ (Cstr.lit "\n").bytes]
  | .user (_ :: _), .ok _ => if e.2.strdup = (true, true) then [] else [(Cstr.lit "login failed\n").bytes]
  | _, _ => []

/-- The credentials behind the line: none if a copy cannot be made. The name has its separator in front. -/
def Entry.login (login : Option (List UInt8) × Option (List UInt8)) (e : Entry) :
    Option (List UInt8) × Option (List UInt8) :=
  match meaning e.1, e.2.getpass with
  | .user (b :: name), .ok pass =>
    if e.2.strdup = (true, true) then (some (b :: name), some pass.bytes) else (none, none)
  | _, _ => login

/-- The credentials of a session. -/
def World.login (w : World) : Option (List UInt8) × Option (List UInt8) :=
  (w.user.map Cstr.bytes, w.pass.map Cstr.bytes)

section Effect

variable {ev : Handlers} {addr : ArgVal → ℕ} {s s' : Terminal} {e : Entry}

theorem SameLogin.login {w v : World} (h : SameLogin w v) : v.login = w.login := by
  rw [World.login, World.login, h.1, h.2]

/-- The client, after a line. -/
structure Effect (s : Terminal) (e : Entry) (s' : Terminal) : Prop where
  terminate : s'.terminate = s.terminate + if meaning e.1 = .leave then 1 else 0
  history : s'.history.map Cstr.bytes = s.history.map Cstr.bytes ++ e.kept.toList
  told : s'.told = s.told ++ e.told
  login : s'.world.login = e.login s.world.login
  exited : s'.exited = s.exited

theorem setauth_login (user pass : Cstr) (dup : Bool × Bool) (w : World) : ducSetauth user pass dup w =
    if dup = (true, true) then (0, { w with user := some user, pass := some pass })
    else (-1, { w with user := none, pass := none }) := by
  rcases dup with ⟨_ | _, _ | _⟩ <;> rfl

theorem cmdUser_effect (hev : ev.KeepLogin) {name : Cstr} (hm : meaning e.1 = .user name.bytes)
    (h : cmdUser ev e.2 name s = some s') : s'.terminate = s.terminate ∧ s'.history = s.history ∧
      s'.told = s.told ++ e.told ∧ s'.world.login = e.login s.world.login ∧ s'.exited = s.exited := by
  rw [Entry.told, Entry.login, hm]
  rw [cmdUser.eq_def] at h
  rcases hname : name.bytes with _ | ⟨b, l⟩
  · rw [if_pos hname] at h
    obtain rfl := Option.some.inj h
    exact ⟨rfl, rfl, rfl, rfl, rfl⟩
  · rw [if_neg (by rw [hname]; exact List.cons_ne_nil b l)] at h
    rcases hpass : e.2.getpass with err | pass
    · rw [hpass] at h
      obtain rfl := Option.some.inj h
      exact ⟨rfl, rfl, rfl, rfl, rfl⟩
    · rw [hpass] at h
      dsimp only at h ⊢
      rw [setauth_login] at h
      by_cases hdup : e.2.strdup = (true, true)
      · rw [if_pos hdup] at h ⊢
        obtain ⟨w, hw, rfl⟩ := Option.map_eq_some_iff.1 h
        refine ⟨rfl, rfl, (List.append_nil _).symm, ?_, rfl⟩
        rw [if_pos hdup, (close_login hev hw).login]
        exact congrArg (fun n => (some n, some pass.bytes)) hname
      · rw [if_neg hdup] at h ⊢
        obtain rfl := Option.some.inj h
        exact ⟨rfl, rfl, rfl, (if_neg hdup).symm, rfl⟩

/-- **`tty_executor`** does what the line says. -/
theorem ttyExecutor_effect (hev : ev.KeepLogin) (h : ttyExecutor ev addr e.2 e.1 s = some s') : Effect s e s' := by
  obtain ⟨input, auth⟩ := e
  cases input with
  | none =>
    obtain rfl := Option.some.inj h
    exact ⟨rfl, by simp [Entry.kept], by simp [Entry.told, meaning], by simp [Entry.login, meaning], rfl⟩
  | some input =>
    dsimp only [ttyExecutor] at h
    by_cases hnil : input.bytes = []
    · rw [if_pos hnil] at h
      obtain rfl := Option.some.inj h
      have hm : meaning (some input) = .nothing := if_pos hnil
      exact ⟨by rw [hm]; rfl, by simp [Entry.kept, hnil], by simp [Entry.told, hm], by simp [Entry.login, hm], rfl⟩
    rw [if_neg hnil] at h
    have hkept : Entry.kept (some input, auth) = some (stripLine input).bytes := by
      rw [Entry.kept, Option.bind_some, if_neg hnil, stripLine_eq hnil]
    have hm := meaning_tests hnil
    generalize stripLine input = l at h hm hkept
    have hhist : ((s.history ++ [l]).map Cstr.bytes) =
        s.history.map Cstr.bytes ++ (Entry.kept (some input, auth)).toList := by
      rw [hkept, List.map_append]
      rfl
    by_cases hquit : caseEq l (.lit "quit") = true
    · rw [if_pos hquit] at h hm
      obtain rfl := Option.some.inj h
      exact ⟨by rw [hm]; rfl, hhist, by simp [Entry.told, hm], by simp [Entry.login, hm], rfl⟩
    rw [if_neg hquit] at h hm
    by_cases hexit : caseEq l (.lit "exit") = true
    · rw [if_pos hexit] at h hm
      obtain rfl := Option.some.inj h
      exact ⟨by rw [hm]; rfl, hhist, by simp [Entry.told, hm], by simp [Entry.login, hm], rfl⟩
    rw [if_neg hexit] at h hm
    by_cases hword : (l.bytes.takeWhile isWord).length = 4 ∧ ncaseEq l (.lit "user") 4 = true
    · rw [if_pos hword] at hm
      replace h : cmdUser ev auth (l.drop 4) { s with history := s.history ++ [l] } = some s' :=
        (if_pos hword).symm.trans h
      obtain ⟨hterm, hhist', htold, hlogin, hexited⟩ := cmdUser_effect (e := (some input, auth)) hev hm h
      exact ⟨by rw [hterm, hm]; rfl, by rw [hhist']; exact hhist, htold, hlogin, hexited⟩
    · rw [if_neg hword] at hm
      replace h := (if_neg hword).symm.trans h
      obtain ⟨⟨a, w⟩, hrun, rfl⟩ := Option.map_eq_some_iff.1 h
      refine ⟨by rw [hm]; rfl, hhist, by simp [Entry.told, hm], ?_, rfl⟩
      simpa [Entry.login, hm] using (client_login hev hrun).login

/-! ## Sessions -/

/-- The line that is entered in a round. -/
def TtyTurn.entered (t : TtyTurn) : Option Entry :=
  match t.select with
  | .ready _ true => t.key
  | _ => none

/-- A round in which the client is told to leave. -/
def TtyTurn.Leaves (t : TtyTurn) : Prop := t.sigterm ≠ 0 ∨ ∃ e ∈ t.entered, meaning e.1 = .leave

variable {t : TtyTurn} {turns turns' : List TtyTurn} {w : World}

/-- What the rounds come to: how often the client has been told to leave, its history, what it has said, and the
credentials. -/
structure Worked (s : Terminal) (turns : List TtyTurn) (s' : Terminal) : Prop where
  terminate : s'.terminate = s.terminate + (turns.map TtyTurn.sigterm).sum +
    (turns.filterMap TtyTurn.entered).countP fun e => meaning e.1 = .leave
  history : s'.history.map Cstr.bytes =
    s.history.map Cstr.bytes ++ (turns.filterMap TtyTurn.entered).filterMap Entry.kept
  told : s'.told = s.told ++ (turns.filterMap TtyTurn.entered).flatMap Entry.told
  login : s'.world.login = (turns.filterMap TtyTurn.entered).foldl Entry.login s.world.login

theorem Worked.nil (s : Terminal) : Worked s [] s := ⟨rfl, by simp, by simp, rfl⟩

theorem Worked.append {u : Terminal} (h : Worked s turns u) (h' : Worked u turns' s') :
    Worked s (turns ++ turns') s' where
  terminate := by
    rw [h'.terminate, h.terminate, List.map_append, List.sum_append, List.filterMap_append, List.countP_append]
    omega
  history := by rw [h'.history, h.history, List.filterMap_append, List.filterMap_append, List.append_assoc]
  told := by rw [h'.told, h.told, List.filterMap_append, List.flatMap_append, List.append_assoc]
  login := by rw [h'.login, h.login, List.filterMap_append, List.foldl_append]

theorem worked_idle (ht : t.entered = none) (hlogin : s'.world.login = s.world.login)
    (hterm : s'.terminate = s.terminate + t.sigterm) (hhist : s'.history = s.history) (htold : s'.told = s.told) :
    Worked s [t] s' := by
  have hnone : [t].filterMap TtyTurn.entered = [] := by simp [ht]
  exact ⟨by rw [hnone, hterm]; simp, by rw [hnone, hhist]; simp, by rw [hnone, htold]; simp,
    by rw [hnone, hlogin]; rfl⟩

theorem Effect.worked {u : Terminal} (ht : t.entered = some e) (h : Effect u e s')
    (hlogin : u.world.login = s.world.login) (hterm : u.terminate = s.terminate + t.sigterm)
    (hhist : u.history = s.history) (htold : u.told = s.told) : Worked s [t] s' := by
  have hone : [t].filterMap TtyTurn.entered = [e] := by simp [ht]
  constructor
  · rw [hone, h.terminate, hterm]
    simp [List.countP_cons]
  · rw [hone, h.history, hhist, List.filterMap_cons]
    cases e.kept <;> rfl
  · rw [hone, h.told, htold]
    simp
  · rw [hone, h.login, hlogin]
    rfl

/-- **A round** does what is entered. -/
theorem ttyTurn_worked (hev : ev.KeepLogin) (h : ttyTurn ev addr s t = some s') :
    s.terminate = 0 ∧ Worked s [t] s' := by
  rw [ttyTurn.eq_def] at h
  split_ifs at h with hover
  refine ⟨by simpa using (not_or.1 hover).1, ?_⟩
  rcases hsel : t.select with _ | _ | ⟨dudl, tty⟩
  · rw [hsel] at h
    obtain rfl := Option.some.inj h
    exact worked_idle (by simp [TtyTurn.entered, hsel]) rfl rfl rfl rfl
  · rw [hsel] at h
    obtain rfl := Option.some.inj h
    exact worked_idle (by simp [TtyTurn.entered, hsel]) rfl rfl rfl rfl
  rw [hsel] at h
  obtain ⟨u, hu, h⟩ := Option.bind_eq_some_iff.1 h
  have hpoll : u.world.login = s.world.login ∧ u.terminate = s.terminate + t.sigterm ∧ u.history = s.history ∧
      u.told = s.told := by
    rw [ttyDudl.eq_def] at hu
    split_ifs at hu
    · obtain ⟨w, hw, rfl⟩ := Option.map_eq_some_iff.1 hu
      exact ⟨(poll_login hev hw).login, rfl, rfl, rfl⟩
    · exact Option.some.inj hu ▸ ⟨rfl, rfl, rfl, rfl⟩
  obtain ⟨hlogin, hterm, hhist, htold⟩ := hpoll
  rw [ttyPoll.eq_def] at h
  cases tty with
  | false =>
    obtain rfl := Option.some.inj h
    exact worked_idle (by simp [TtyTurn.entered, hsel]) hlogin hterm hhist htold
  | true =>
    rcases hkey : t.key with _ | e
    · rw [hkey] at h
      obtain rfl := Option.some.inj h
      exact worked_idle (by simp [TtyTurn.entered, hsel, hkey]) hlogin hterm hhist htold
    · rw [hkey] at h
      exact (ttyExecutor_effect hev h).worked (by simp [TtyTurn.entered, hsel, hkey]) hlogin hterm hhist htold

theorem runs_worked (hev : ev.KeepLogin) (hrun : runs (ttyTurn ev addr) s turns = some s') :
    Worked s turns s' ∧ ∀ t ∈ turns.dropLast, ¬ t.Leaves := by
  induction turns generalizing s with
  | nil =>
    obtain rfl := Option.some.inj hrun
    exact ⟨Worked.nil s, by simp⟩
  | cons t turns ih =>
    rw [runs_cons, Option.bind_eq_some_iff] at hrun
    obtain ⟨u, hstep, hrun⟩ := hrun
    obtain ⟨-, hone⟩ := ttyTurn_worked hev hstep
    obtain ⟨hrest, hall⟩ := ih hrun
    refine ⟨hone.append hrest, ?_⟩
    cases turns with
    | nil => simp
    | cons t' turns =>
      rw [List.dropLast_cons_cons, List.forall_mem_cons]
      refine ⟨?_, hall⟩
      -- the next round is one only if `terminate` is still 0
      obtain ⟨u', hstep', -⟩ := Option.bind_eq_some_iff.1 ((runs_cons ..).symm.trans hrun)
      have hzero := (ttyTurn_worked hev hstep').1
      have hsum := hone.terminate
      rintro (hsig | ⟨e, he, hleave⟩)
      · simp at hsum
        omega
      · have hentered : t.entered = some e := he
        simp [hentered, hleave] at hsum
        omega

theorem meaning_user {input : Option Cstr} {b : UInt8} {name : List UInt8} (h : meaning input = .user (b :: name)) :
    b = 9 ∨ b = 32 := by
  rcases input with _ | input
  · cases h
  · rw [meaning] at h
    split_ifs at h
    exact dropWhile_word _ b (by rw [Meaning.user.inj h]; rfl)

theorem login_separated (l : Option (List UInt8) × Option (List UInt8)) (e : Entry) :
    ∀ user ∈ (e.login l).1, l.1 = some user ∨ ∃ b name, user = b :: name ∧ (b = 9 ∨ b = 32) := by
  rw [Entry.login]
  split
  · next b name pass hm _ =>
    split_ifs
    · rintro user h
      obtain rfl := Option.some.inj h
      exact Or.inr ⟨b, name, rfl, meaning_user hm⟩
    · nofun
  · exact fun user h => Or.inl h

theorem logins_separated (l : Option (List UInt8) × Option (List UInt8)) (es : List Entry) :
    ∀ user ∈ (es.foldl Entry.login l).1, l.1 = some user ∨ ∃ b name, user = b :: name ∧ (b = 9 ∨ b = 32) := by
  induction es generalizing l with
  | nil => exact fun user h => Or.inl h
  | cons e es ih =>
    intro user h
    rcases ih (e.login l) user h with h | h
    · exact login_separated l e user h
    · exact Or.inr h

/-- **A session of the text client.** Whatever the server does, the client leaves with the first line that says so,
with the end of the input or with a signal; the lines of its history and what `cmd_user` says are those of the lines
entered; and the session has the credentials that it was started with, or those of the last `user` line with a
password, or none if these could not be copied. A name that is entered still has the blank or the tab in front that
separates it. -/
theorem terminal_session (hev : ev.KeepLogin) (hrun : runs (ttyTurn ev addr) (.start w) turns = some s) :
    Worked (.start w) turns s ∧ (∀ t ∈ turns.dropLast, ¬ t.Leaves) ∧
      ∀ user ∈ s.world.login.1, w.login.1 = some user ∨ ∃ b name, user = b :: name ∧ (b = 9 ∨ b = 32) := by
  obtain ⟨hworked, hall⟩ := runs_worked hev hrun
  refine ⟨hworked, hall, ?_⟩
  rw [hworked.login]
  exact logins_separated _ _

end Effect

/-- A line that is entered, with the password `secret`. -/
def typed (line : String) : TtyTurn :=
  ⟨.ready false true, 0, some (some (.lit line), ⟨.ok (.lit "secret"), (true, true)⟩)⟩

/-- **The theorem where somebody logs in and leaves**: the name has its blank in front. -/
theorem terminal_session_joe : ∃ s, runs (ttyTurn (cbDisc some 1) fun _ => 0) (.start (newWorld []))
      [typed "User joe ", typed "", typed "QUIT"] = some s ∧
    s.terminate = 1 ∧ s.history = [.lit "User joe", .lit "QUIT"] ∧
    s.world.login = (some (Cstr.lit " joe").bytes, some (Cstr.lit "secret").bytes) := by
  have hsome : (runs (ttyTurn (cbDisc some 1) fun _ => 0) (.start (newWorld []))
      [typed "User joe ", typed "", typed "QUIT"]).map (fun s => s.history) =
        some [.lit "User joe", .lit "QUIT"] := by decide +kernel
  obtain ⟨s, hs, hhist⟩ := Option.map_eq_some_iff.1 hsome
  obtain ⟨hworked, -, -⟩ := terminal_session (keepLogin_cbDisc 1) hs
  exact ⟨s, hs, hworked.terminate.trans (by decide +kernel), hhist, hworked.login.trans (by decide +kernel)⟩

end Dudlc
