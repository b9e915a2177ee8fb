import Dudlc.CommandLine
import Dudlc.Reconnect

/-!
# The remote control

`irdudl` waits for codes from lircd and runs the commands that its configuration has for them.

* `Turn`, `remoteTurn`: a round of `loop_lirc`, with what lircd, `select` and the signals do in it.
* `Use`, `Use.step`: what is asked of the daemon, as a machine that reads its acts one by one.
* `Stage`: the machine beside the daemon.
* **`remote_protocol`**: the machine accepts every run.
-/

namespace Dudlc

open Lib

/-! ## The daemon -/

/-- What the daemon does, and the signals that come in between. -/
inductive Act
  /-- `lirc_init`, with its result. -/
  | init (fd : ℤ)
  /-- `lirc_deinit` -/
  | deinit
  /-- SIGHUP -/
  | hup
  /-- `reread_config` is tested. -/
  | test
  /-- `lirc_freeconfig` -/
  | free
  /-- `lirc_readconfig`, and whether it succeeds. -/
  | read (ok : Bool)
  /-- `duc_open`, with its result. -/
  | connect (r : ℤ)
  /-- `select`, and whether it has a timeout. -/
  | wait (timeout : Bool)
  /-- `duc_poll` -/
  | poll
  /-- `lirc_nextcode`, and whether it succeeds. -/
  | next (ok : Bool)
  /-- `lirc_code2char` gives a command. -/
  | char (c : Cstr)
  /-- `duc_cmd` -/
  | cmd (c : Cstr)
  /-- A beep on the console. -/
  | beep
  deriving DecidableEq

/-- The daemon: `l_fd`, whether there is an `l_conf`, `reread_config` and the session, and all that has been done. -/
structure Remote where
  fd : ℤ
  conf : Bool
  reread : ℕ
  dudl : World
  exited : Bool
  trace : List Act

/-- What `select` returns: it is interrupted, it fails, or it tells which descriptors can be read. -/
inductive Selects
  | interrupted
  | fails
  | ready (dudl input : Bool)

/-- What happens in a round. `code` are the commands for a code, of which there are none as long as the code is not
complete, or none when `lirc_nextcode` fails. The signals are counted before the configuration is tested, from there
to where it has been read, and up to `select`. -/
structure Turn where
  init : ℤ
  read : Bool
  select : Selects
  code : Option (List Cstr)
  before : ℕ
  reading : ℕ
  after : ℕ

/-- Something is done. -/
def Remote.did (s : Remote) (a : Act) : Remote := { s with trace := s.trace ++ [a] }

/-- `sig_hup`, for every signal. -/
def sigHup : ℕ → Remote → Remote
  | 0, s => s
  | n + 1, s => sigHup n ({ s with reread := s.reread + 1 }.did .hup)

/-- The connection to lircd is opened again. -/
def lircConnect (t : Turn) (s : Remote) : Remote :=
  if s.fd = -1 then { s with fd := t.init }.did (.init t.init) else s

/-- The configuration is not kept. -/
def freeConfig (s : Remote) : Remote := if s.conf then { s with conf := false }.did .free else s

/-- The configuration is read, and the signals are served. -/
def readConfig (t : Turn) (s : Remote) : Remote :=
  if t.read then { s with conf := true, reread := 0 }.did (.read true) else s.did (.read false)

/-- The configuration is read again. -/
def rereadConfig (t : Turn) (s : Remote) : Remote :=
  if s.conf = false ∨ s.reread ≠ 0 then readConfig t (sigHup t.reading (freeConfig (s.did .test)))
  else sigHup t.reading (s.did .test)

/-- The session is opened again. The daemon has no handlers. -/
def openDudl (s : Remote) : Option Remote :=
  (ducOpen .passive s.dudl).map fun p => { s with dudl := p.2 }.did (.connect p.1)

/-- Whether `select` gets a timeout. -/
def Remote.timeout (s : Remote) : Bool := s.fd = -1 ∨ s.dudl.con.fd = -1

/-- The daemon waits. -/
def Remote.waits (s : Remote) : Remote := s.did (.wait s.timeout)

/-- Input from the server. -/
def pollDudl (ready : Bool) (s : Remote) : Option Remote :=
  if s.dudl.con.fd ≠ -1 ∧ ready then (ducPoll .passive s.dudl).map fun w => { s with dudl := w }.did .poll
  else some s

section Commands

variable (addr : ArgVal → ℕ) (dobeep : Bool)

/-- `beep` -/
def beep (s : Remote) : Remote := if dobeep then s.did .beep else s

/-- The runs of `duc_cmd` in `dudl_cmd`, as acts. -/
def dudlActs (c : Cstr) : List ℤ → Remote → Remote
  | [], s => s
  | _ :: rvs, s => dudlActs c rvs (s.did (.cmd c))

/-- A command of `loop_lirccmd`. -/
def lirccmd (c : Cstr) (s : Remote) : Option Remote := do
  let s := beep dobeep (s.did (.char c))
  let (rvs, w) ← (dudlRuns addr c).run (World.op .passive) s.dudl
  let s := dudlActs c rvs { s with dudl := w }
  return if rvs.getLastD 0 ≠ 0 then s else beep dobeep s

/-- `loop_lirccmd` -/
def loopLirccmd (cs : List Cstr) (s : Remote) : Option Remote :=
  runs (fun s c => lirccmd addr dobeep c s) s cs

/-- Input from lircd. -/
def lircInput (t : Turn) (ready : Bool) (s : Remote) : Option Remote :=
  if s.fd ≠ -1 ∧ ready then
    match t.code with
    | none => some ({ s.did (.next false) with fd := -1 }.did .deinit)
    | some cs =>
      if s.conf then loopLirccmd addr dobeep cs (s.did (.next true)) else some (s.did (.next true))
  else some s

/-- What the daemon does when it has waited. -/
def remoteInput (t : Turn) (s : Remote) : Option Remote :=
  match t.select with
  | .interrupted => some s
  | .fails => some { s with exited := true }
  | .ready dudl lirc => (pollDudl dudl s).bind (lircInput addr dobeep t lirc)

/-- A round of `loop_lirc`. There is none after `exit`. -/
def remoteTurn (s : Remote) (t : Turn) : Option Remote :=
  if s.exited then none
  else do
    let s ← openDudl (rereadConfig t (sigHup t.before (lircConnect t s)))
    remoteInput addr dobeep t (sigHup t.after s).waits

end Commands

/-- The daemon when it enters `loop_lirc`. -/
def Remote.start (w : World) : Remote := ⟨-1, false, 0, w, false, []⟩

/-! ## What is asked of it -/

/-- What the acts so far amount to: lircd is connected; a configuration is loaded; a signal from before the last test
has not been served; a signal has come since; the configuration has been read since the test; the last `duc_open` has
succeeded; and there is a command to run. -/
structure Use where
  connected : Bool
  loaded : Bool
  stale : Bool
  raised : Bool
  tried : Bool
  server : Bool
  todo : Option Cstr
  deriving DecidableEq

/-- Nothing has been done. -/
def Use.start : Use := ⟨false, false, false, false, false, false, none⟩

/-- What is done between a command that is given and its run: it is run, or the console beeps. -/
def Act.inCommand : Act → Bool
  | .cmd _ | .beep => true
  | _ => false

/-- An act, where it is allowed. lircd is connected and left, and the configuration read and freed, in turn. The
daemon waits without a timeout just when it has both connections, and not before it has served the signals from before
the last test or tried to. A command comes from a configuration that is not stale. Signals that come while the
configuration is read are not told from those before. -/
def Use.act (u : Use) : Act → Option Use
  | .init fd => if u.connected then none else some { u with connected := fd ≠ -1 }
  | .deinit => if u.connected then some { u with connected := false } else none
  | .hup => some { u with raised := true }
  | .test => some { u with stale := u.stale || u.raised, raised := false, tried := false }
  | .free => if u.loaded then some { u with loaded := false } else none
  | .read ok =>
    if u.loaded then none
    else if ok then some { u with loaded := true, stale := false, raised := false, tried := true }
    else some { u with tried := true }
  | .connect r => some { u with server := r = 0 }
  | .wait timeout =>
    if (timeout = false ↔ u.connected ∧ u.server) ∧ (u.tried ∨ u.loaded ∧ ¬ u.stale) then some u else none
  | .poll => if u.server then some u else none
  | .next _ => if u.connected then some u else none
  | .char c => if u.connected ∧ u.loaded ∧ ¬ u.stale then some { u with todo := some c } else none
  | .cmd c => if u.todo = some c then some { u with todo := none } else none
  | .beep => some u

/-- A command is run once, before anything else. -/
def Use.step (u : Use) (a : Act) : Option Use := if u.todo = none ∨ a.inCommand then u.act a else none

/-- The command that lircd gives. -/
def Act.given : Act → Option Cstr
  | .char c => some c
  | _ => none

/-- The command that is run. -/
def Act.ran : Act → Option Cstr
  | .cmd c => some c
  | _ => none

theorem step_idle {u : Use} (h : u.todo = none) (a : Act) : u.step a = u.act a := if_pos (Or.inl h)

theorem step_inCommand {a : Act} (h : a.inCommand = true) (u : Use) : u.step a = u.act a := if_pos (Or.inr h)

theorem step_ran {u u' : Use} {a : Act} (h : u.step a = some u') :
    a.ran.toList ++ u'.todo.toList = u.todo.toList ++ a.given.toList := by
  rw [Use.step] at h
  split_ifs at h with hguard
  cases a with
  | char c =>
    rw [Use.act] at h
    split_ifs at h with hc
    rw [← Option.some.inj h, hguard.resolve_right (by decide : ¬ false = true)]
    rfl
  | cmd c =>
    rw [Use.act] at h
    split_ifs at h with hc
    rw [← Option.some.inj h, hc]
    rfl
  | _ =>
    have hsame : u'.todo = u.todo := by
      simp only [Use.act] at h
      grind
    simp [Act.ran, Act.given, hsame]

theorem accepted_ran {acts : List Act} {u u' : Use} (h : runs Use.step u acts = some u') :
    acts.filterMap Act.ran ++ u'.todo.toList = u.todo.toList ++ acts.filterMap Act.given := by
  induction acts generalizing u with
  | nil =>
    obtain rfl := Option.some.inj h
    simp
  | cons a acts ih =>
    obtain ⟨u₁, h₁, h⟩ := Option.bind_eq_some_iff.1 ((runs_cons ..).symm.trans h)
    have hcons : ∀ f : Act → Option Cstr, (a :: acts).filterMap f = (f a).toList ++ acts.filterMap f := by
      intro f
      rw [List.filterMap_cons]
      cases f a <;> rfl
    rw [hcons, hcons, List.append_assoc, ih h, ← List.append_assoc, step_ran h₁, List.append_assoc]

/-! ## The session -/

section Session

variable {ev : Handlers} {w v : World} {r : ℤ}

theorem open_result (ht : w.con.Tidy) (h : ducOpen .passive w = some (r, v)) :
    v.con.Tidy ∧ (r = 0 ↔ v.con.fd ≠ -1) := by
  have hstay : r ≠ 0 → w.con.fd = -1 := by
    rcases ducOpen_cases h with ⟨-, h0, -⟩ | ⟨-, -, hfd, -⟩
    · exact fun hr => absurd h0 hr
    · exact fun _ => hfd
  rcases open_outcome ht h with ⟨-, hr, hd⟩ | ⟨-, ⟨hr, hfd, rfl⟩ | ⟨hr, hm⟩ | ⟨hr, hs⟩⟩
  · exact ⟨hd.tidy, iff_of_false hr fun hfd => hfd hd.fd⟩
  · exact ⟨ht, iff_of_true hr hfd⟩
  · exact ⟨hm.tidy, iff_of_true hr hm.fd⟩
  · exact ⟨hs.tidy, iff_of_false hr fun hfd => hfd (hs.fd.trans (hstay hr))⟩

theorem poll_tidies (ht : w.con.Tidy) (h : ducPoll .passive w = some v) : v.con.Tidy := by
  rcases callStep_outcome (c := (.poll : Call Unit)) ht h with ⟨-, -, hd⟩ | ⟨-, hr⟩
  · exact hd.tidy
  · exact hr.tidy

theorem op_tidy {β : Type} (e : Op β) (ht : w.con.Tidy) {b : β} (h : World.op .passive e w = some (b, v)) :
    v.con.Tidy := by
  have hopen : ∀ (q : ℤ) (u : World), w.inreply = false → ducOpen .passive w = some (q, u) → Carries w u :=
    fun _ _ _ ho => passive_open_carries ho
  cases e with
  | cmd c => exact (carries_keeps.runCmd hopen h).tidy ht
  | fd =>
    obtain ⟨-, rfl⟩ := Prod.mk.inj (Option.some.inj h)
    exact ht
  | «open» => exact (passive_open_carries h).tidy ht
  | raw line =>
    obtain ⟨⟨q, u⟩, hv, hl⟩ := Option.bind_eq_some_iff.1 h
    exact (carries_keeps.rlast hl).tidy ((carries_keeps.vsend hopen hv).tidy ht)

theorem client_tidy {α : Type} {p : Client α} {a : α} (ht : w.con.Tidy)
    (h : p.run (World.op .passive) w = some (a, v)) : v.con.Tidy := by
  obtain ⟨-, -, -, htidy⟩ := Prog.run_simulates (fun s t : World => s = t ∧ s.con.Tidy)
    (fun e s _ b s' hst hb => ⟨s', hst.1 ▸ hb, rfl, op_tidy e hst.2 hb⟩) ⟨rfl, ht⟩ h
  exact htidy

end Session

/-! ## The machine beside the daemon -/

variable {addr : ArgVal → ℕ} {dobeep : Bool} {s s' : Remote} {u u' : Use} {t : Turn} {a : Act} {n : ℕ} {c : Cstr}

/-- **The machine beside the daemon**, between two acts. -/
structure Stage (s : Remote) (u : Use) : Prop where
  run : runs Use.step .start s.trace = some u
  connected : u.connected = true ↔ s.fd ≠ -1
  loaded : u.loaded = s.conf
  due : (u.stale = true ∨ u.raised = true) ↔ s.reread ≠ 0
  tidy : s.dudl.con.Tidy
  idle : u.todo = none

/-- A loaded configuration is not stale. -/
def Use.Fresh (u : Use) : Prop := u.loaded = true → u.stale = false

theorem run_did (h : runs Use.step .start s.trace = some u) (ha : u.step a = some u') :
    runs Use.step .start (s.did a).trace = some u' := by
  rw [Remote.did, runs_append, h, Option.bind_some, runs_cons, ha]
  rfl

theorem Stage.did (h : Stage s u) (ha : u.act a = some u') : runs Use.step .start (s.did a).trace = some u' :=
  run_did h.run ((step_idle h.idle a).trans ha)

theorem stage_start {w : World} (ht : w.con.Tidy) : Stage (.start w) .start where
  run := rfl
  connected := by simp [Use.start, Remote.start]
  loaded := rfl
  due := by simp [Use.start, Remote.start]
  tidy := ht
  idle := rfl

theorem Stage.hup (h : Stage s u) (n : ℕ) :
    Stage (sigHup n s) { u with raised := u.raised || n ≠ 0 } ∧ (sigHup n s).dudl = s.dudl := by
  induction n generalizing s u with
  | zero => exact ⟨by simpa [sigHup] using h, rfl⟩
  | succ n ih =>
    have hone : Stage ({ s with reread := s.reread + 1 }.did .hup) { u with raised := true } :=
      ⟨h.did rfl, h.connected, h.loaded, by simp [Remote.did], h.tidy, h.idle⟩
    obtain ⟨hn, hrest⟩ := ih hone
    exact ⟨by simpa [sigHup] using hn, hrest⟩

theorem Stage.lircConnect (h : Stage s u) : ∃ u', Stage (lircConnect t s) u' := by
  unfold Dudlc.lircConnect
  split_ifs with hfd
  · have hoff : ¬ u.connected = true := fun hc => h.connected.1 hc hfd
    refine ⟨{ u with connected := t.init ≠ -1 }, h.did ?_, ?_, h.loaded, h.due, h.tidy, h.idle⟩
    · exact if_neg hoff
    · simp [Remote.did]
  · exact ⟨u, h⟩

theorem Stage.readConfig (h : Stage s u) (hfree : s.conf = false) :
    ∃ u', Stage (readConfig t s) u' ∧ u'.Fresh ∧ u'.tried = true := by
  have hoff : ¬ u.loaded = true := by simp [h.loaded, hfree]
  unfold Dudlc.readConfig
  split_ifs with hok
  · refine ⟨{ u with loaded := true, stale := false, raised := false, tried := true },
      ⟨h.did ?_, h.connected, rfl, ?_, h.tidy, h.idle⟩, fun _ => rfl, rfl⟩
    · rw [Use.act, if_neg hoff, if_pos rfl]
    · simp [Remote.did]
  · refine ⟨{ u with tried := true }, ⟨h.did ?_, h.connected, h.loaded, h.due, h.tidy, h.idle⟩,
      fun hl => absurd hl hoff, rfl⟩
    rw [Use.act, if_neg hoff, if_neg (by decide)]

theorem Stage.freeConfig (h : Stage s u) : ∃ u', Stage (freeConfig s) u' ∧ (freeConfig s).conf = false := by
  unfold Dudlc.freeConfig
  split_ifs with hc
  · refine ⟨{ u with loaded := false }, ⟨h.did ?_, h.connected, rfl, h.due, h.tidy, h.idle⟩, rfl⟩
    rw [Use.act, if_pos (h.loaded.trans hc)]
  · exact ⟨u, h, Bool.eq_false_iff.2 hc⟩

/-- The signals from before the test are served, or it has been tried. -/
def Use.Served (u : Use) : Prop := u.tried = true ∨ u.loaded = true ∧ ¬ u.stale = true

/-- **The configuration is read again** when a signal asks for it. -/
theorem Stage.rereadConfig (h : Stage s u) : ∃ u', Stage (rereadConfig t s) u' ∧ u'.Fresh ∧ u'.Served := by
  have htest : Stage (s.did .test) { u with stale := u.stale || u.raised, raised := false, tried := false } :=
    ⟨h.did rfl, h.connected, h.loaded, by simpa [Remote.did] using h.due, h.tidy, h.idle⟩
  unfold Dudlc.rereadConfig
  split_ifs with hread
  · obtain ⟨u₁, h₁, hfree⟩ := htest.freeConfig
    obtain ⟨h₂, -⟩ := h₁.hup t.reading
    have hfree₂ : (sigHup t.reading (Dudlc.freeConfig (s.did .test))).conf = false := by
      rw [← h₂.loaded, ← hfree, ← h₁.loaded]
    obtain ⟨u', h', hfresh, htried⟩ := h₂.readConfig (t := t) hfree₂
    exact ⟨u', h', hfresh, Or.inl htried⟩
  · obtain ⟨hconf, hzero⟩ := not_or.1 hread
    have hnot : ¬ (u.stale = true ∨ u.raised = true) := fun hd => hzero (h.due.1 hd)
    have hstale : (u.stale || u.raised) = false := by
      rw [Bool.or_eq_false_iff]
      exact ⟨by simpa using fun hs => hnot (Or.inl hs), by simpa using fun hr => hnot (Or.inr hr)⟩
    refine ⟨_, (htest.hup t.reading).1, fun _ => hstale, Or.inr ⟨?_, ?_⟩⟩
    · exact h.loaded.trans (by simpa using hconf)
    · simp [hstale]

/-- Before the daemon waits. -/
structure Use.Ready (u : Use) (s : Remote) : Prop where
  fresh : u.Fresh
  served : u.Served
  server : u.server = true ↔ s.dudl.con.fd ≠ -1

theorem Stage.openDudl (h : Stage s u) (hfresh : u.Fresh) (hserved : u.Served) (hs : openDudl s = some s') :
    ∃ u', Stage s' u' ∧ u'.Ready s' := by
  obtain ⟨⟨r, w⟩, ho, rfl⟩ := Option.map_eq_some_iff.1 hs
  obtain ⟨htidy, hr⟩ := open_result h.tidy ho
  exact ⟨{ u with server := r = 0 }, ⟨h.did rfl, h.connected, h.loaded, h.due, htidy, h.idle⟩, hfresh, hserved,
    by simpa [Remote.did] using hr⟩

/-- **The daemon waits**, and has a timeout when a connection is missing. -/
theorem Stage.waits (h : Stage s u) (hready : u.Ready s) : Stage s.waits u := by
  refine ⟨h.did (if_pos ⟨?_, hready.served⟩), h.connected, h.loaded, h.due, h.tidy, h.idle⟩
  rw [h.connected, hready.server, Remote.timeout, decide_eq_false_iff_not, not_or]

theorem Stage.pollDudl {ready : Bool} (h : Stage s u) (hready : u.Ready s) (hs : pollDudl ready s = some s') :
    Stage s' u := by
  unfold Dudlc.pollDudl at hs
  split_ifs at hs with hfd
  · obtain ⟨w, hw, rfl⟩ := Option.map_eq_some_iff.1 hs
    exact ⟨h.did (if_pos (hready.server.2 hfd.1)), h.connected, h.loaded, h.due, poll_tidies h.tidy hw,
      h.idle⟩
  · exact Option.some.inj hs ▸ h

theorem beep_frame (dobeep : Bool) (s : Remote) : ∃ l, beep dobeep s = { s with trace := l } ∧
    ∀ u, runs Use.step .start s.trace = some u → runs Use.step .start l = some u := by
  unfold beep
  split_ifs
  · exact ⟨_, rfl, fun u h => run_did h (step_inCommand rfl u)⟩
  · exact ⟨_, rfl, fun u h => h⟩

/-- **A command** is run once, whatever becomes of it. -/
theorem Stage.lirccmd (h : Stage s u) (hfresh : u.Fresh) (hfd : s.fd ≠ -1) (hconf : s.conf = true)
    (hs : lirccmd addr dobeep c s = some s') : Stage s' u ∧ s'.fd = s.fd ∧ s'.conf = s.conf := by
  have hloaded : u.loaded = true := h.loaded.trans hconf
  have hchar : runs Use.step .start (s.did (.char c)).trace = some { u with todo := some c } := by
    refine h.did (if_pos ⟨h.connected.2 hfd, hloaded, ?_⟩)
    simp [hfresh hloaded]
  obtain ⟨l, hl, hrun⟩ := beep_frame dobeep (s.did (.char c))
  obtain ⟨⟨rvs, w⟩, hcmd, hs⟩ := Option.bind_eq_some_iff.1 hs
  dsimp only at hs
  rw [hl] at hcmd hs
  have htidy : w.con.Tidy := client_tidy h.tidy hcmd
  rw [dudlRuns_end] at hcmd
  obtain ⟨⟨o, v⟩, -, heq⟩ := Option.map_eq_some_iff.1 hcmd
  obtain ⟨rfl, rfl⟩ := Prod.mk.inj heq
  have hdone : Stage (({ s with dudl := v, trace := l } : Remote).did (.cmd c)) u := by
    refine ⟨run_did (hrun _ hchar) ?_, h.connected, h.loaded, h.due, htidy, h.idle⟩
    rw [step_inCommand rfl, Use.act, if_pos rfl, ← h.idle]
  obtain ⟨l', hl', hrun'⟩ := beep_frame dobeep (({ s with dudl := v, trace := l } : Remote).did (.cmd c))
  have hend : s' = ({ s with dudl := v, trace := l } : Remote).did (.cmd c) ∨
      s' = { ({ s with dudl := v, trace := l } : Remote).did (.cmd c) with trace := l' } := by
    rw [← hl', ← Option.some.inj hs]
    exact (ite_eq_or_eq _ _ _)
  rcases hend with rfl | rfl
  · exact ⟨hdone, rfl, rfl⟩
  · exact ⟨⟨hrun' _ hdone.run, h.connected, h.loaded, h.due, htidy, h.idle⟩, rfl, rfl⟩

theorem Stage.loopLirccmd {cs : List Cstr} (h : Stage s u) (hfresh : u.Fresh) (hfd : s.fd ≠ -1)
    (hconf : s.conf = true) (hs : loopLirccmd addr dobeep cs s = some s') : Stage s' u := by
  induction cs generalizing s with
  | nil => exact Option.some.inj hs ▸ h
  | cons c cs ih =>
    obtain ⟨s₁, h₁, hs⟩ := Option.bind_eq_some_iff.1 hs
    obtain ⟨hstage, hfd₁, hconf₁⟩ := h.lirccmd hfresh hfd hconf h₁
    exact ih hstage (hfd₁ ▸ hfd) (hconf₁.trans hconf) hs

theorem Stage.lircInput {ready : Bool} (h : Stage s u) (hfresh : u.Fresh)
    (hs : lircInput addr dobeep t ready s = some s') : ∃ u', Stage s' u' := by
  unfold Dudlc.lircInput at hs
  by_cases hfd : s.fd ≠ -1 ∧ ready = true
  · rw [if_pos hfd] at hs
    have hnext : ∀ ok, Stage (s.did (.next ok)) u := fun ok =>
      ⟨h.did (if_pos (h.connected.2 hfd.1)), h.connected, h.loaded, h.due, h.tidy, h.idle⟩
    rcases hcode : t.code with _ | cs
    · rw [hcode] at hs
      obtain rfl := Option.some.inj hs
      refine ⟨{ u with connected := false }, (hnext false).did ?_, ?_, h.loaded, h.due, h.tidy, h.idle⟩
      · exact if_pos (h.connected.2 hfd.1)
      · simp [Remote.did]
    · rw [hcode] at hs
      by_cases hconf : s.conf = true
      · exact ⟨u, (hnext true).loopLirccmd hfresh hfd.1 hconf ((if_pos hconf).symm.trans hs)⟩
      · exact ⟨u, Option.some.inj ((if_neg hconf).symm.trans hs) ▸ hnext true⟩
  · rw [if_neg hfd] at hs
    exact ⟨u, Option.some.inj hs ▸ h⟩

theorem Stage.remoteInput (h : Stage s u) (hready : u.Ready s) (hs : remoteInput addr dobeep t s = some s') :
    ∃ u', Stage s' u' := by
  unfold Dudlc.remoteInput at hs
  rcases hsel : t.select with _ | _ | ⟨dudl, lirc⟩
  · rw [hsel] at hs
    exact ⟨u, Option.some.inj hs ▸ h⟩
  · rw [hsel] at hs
    exact ⟨u, Option.some.inj hs ▸ ⟨h.run, h.connected, h.loaded, h.due, h.tidy, h.idle⟩⟩
  · rw [hsel] at hs
    obtain ⟨s₁, h₁, hs⟩ := Option.bind_eq_some_iff.1 hs
    exact (h.pollDudl hready h₁).lircInput hready.fresh hs

/-- **A round** is accepted. -/
theorem Stage.remoteTurn (h : Stage s u) (hs : remoteTurn addr dobeep s t = some s') : ∃ u', Stage s' u' := by
  unfold Dudlc.remoteTurn at hs
  split_ifs at hs with hexit
  obtain ⟨s₁, h₁, hs⟩ := Option.bind_eq_some_iff.1 hs
  obtain ⟨u₁, hconn⟩ := h.lircConnect (t := t)
  obtain ⟨u₂, hread, hfresh, hserved⟩ := (hconn.hup t.before).1.rereadConfig (t := t)
  obtain ⟨u₃, hopen, hready⟩ := hread.openDudl hfresh hserved h₁
  obtain ⟨hhup, hsame⟩ := hopen.hup t.after
  have hready' : Use.Ready { u₃ with raised := u₃.raised || t.after ≠ 0 } (sigHup t.after s₁) :=
    ⟨hready.fresh, hready.served, by rw [hsame]; exact hready.server⟩
  exact (hhup.waits hready').remoteInput ⟨hready'.fresh, hready'.served, hready'.server⟩ hs

/-- **The daemon keeps to the protocol.** Whatever lircd, the server, the signals and `select` do, the machine accepts
all that the daemon has done, and then knows whether lircd is connected, whether a configuration is loaded and whether
a signal is to be served; and the commands that were given have been run, each once. -/
theorem remote_protocol (addr : ArgVal → ℕ) (dobeep : Bool) {w : World} (hw : w.con.Tidy) {turns : List Turn}
    (hrun : runs (remoteTurn addr dobeep) (.start w) turns = some s) :
    ∃ u, runs Use.step .start s.trace = some u ∧ (u.connected = true ↔ s.fd ≠ -1) ∧ u.loaded = s.conf ∧
      ((u.stale = true ∨ u.raised = true) ↔ s.reread ≠ 0) ∧
      s.trace.filterMap Act.ran = s.trace.filterMap Act.given := by
  obtain ⟨u, h⟩ := runs_keep (I := fun s => ∃ u, Stage s u) (fun s t s' ⟨u, hu⟩ hs => hu.remoteTurn hs)
    ⟨_, stage_start hw⟩ hrun
  refine ⟨u, h.run, h.connected, h.loaded, h.due, ?_⟩
  have hran := accepted_ran h.run
  rwa [h.idle, Option.toList_none, List.append_nil] at hran

/-- A server that pauses. -/
def pauseServer : Dial :=
  .made 3 [some (Cstr.lit "220 dudld 1 2\n").bytes, some (Cstr.lit "250 ok\n").bytes] []

/-- A code for `pause`, with a signal while the daemon waits; and then lircd is gone. -/
def pauseTurns : List Turn :=
  [⟨5, true, .ready false true, some [.lit "pause"], 0, 0, 1⟩, ⟨-1, false, .ready false true, none, 0, 0, 0⟩]

/-- What the daemon does then. -/
def pauseActs : List Act :=
  [.init 5, .test, .read true, .connect 0, .hup, .wait false, .next true, .char (.lit "pause"), .cmd (.lit "pause"),
    .test, .free, .read false, .connect 0, .wait false, .next false, .deinit]

/-- **The theorem at two rounds.** -/
theorem remote_protocol_pause : ∃ s u,
    runs (remoteTurn (fun _ => 0) false) (.start (newWorld [pauseServer])) pauseTurns = some s ∧ s.trace = pauseActs ∧
      runs Use.step .start s.trace = some u ∧ u.connected = false ∧ u.loaded = false ∧
        (u.stale = true ∨ u.raised = true) := by
  have htrace : (runs (remoteTurn (fun _ => 0) false) (.start (newWorld [pauseServer])) pauseTurns).map
      (fun s => (s.fd, s.conf, s.reread, s.trace)) = some (-1, false, 1, pauseActs) := by
    decide +kernel
  obtain ⟨s, hs, heq⟩ := Option.map_eq_some_iff.1 htrace
  obtain ⟨hfd, hconf, hreread, hacts⟩ : s.fd = -1 ∧ s.conf = false ∧ s.reread = 1 ∧ s.trace = pauseActs := by
    simpa only [Prod.mk.injEq] using heq
  obtain ⟨u, hu, hconnected, hloaded, hdue, -⟩ := remote_protocol (fun _ => 0) false
    (show (newWorld [pauseServer]).con.Tidy from ⟨Or.inl rfl, fun _ => ⟨rfl, rfl⟩⟩) hs
  refine ⟨s, u, hs, hacts, hu, ?_, hloaded.trans hconf, hdue.2 (by omega)⟩
  exact Bool.eq_false_iff.2 fun h => hconnected.1 h hfd

end Dudlc
