import Dudlc.Table

/-!
# What a command line reports

* `CmdEnd`, `cmdEnd`: how a command line ends, and the run that says so.
* `ducCmdLine_end`: `duc_cmd` returns -1 where no handler runs, and 0 where one does.
* `dudlCmd`: the command of `irdudl`, with its second try; `mainCommand`: that of `dudlc -c`.
* `dudlRuns_end`: there is never a second try; `mainCommand_end`: what `dudlc -c` exits with.
* **`reported_iff`**: when the outcome and a lost connection are reported as the callers expect them.
-/

namespace Dudlc

open Lib

variable {ev : Handlers} {addr : ArgVal → ℕ} {line : Cstr} {w v : World} {o : CmdEnd}

/-- How a command line ends. -/
inductive CmdEnd
  /-- There is no such command. -/
  | unknown
  /-- The arguments are not accepted. -/
  | refused
  /-- The handler returns. -/
  | ran (r : ℤ)
  deriving DecidableEq

/-- The handler has run, and has not failed; or it has not run. -/
def CmdEnd.Good (o : CmdEnd) : Prop := ∀ r, o = .ran r → r = 0

/-- What `duc_cmd` returns. -/
def CmdEnd.result : CmdEnd → ℤ
  | unknown => -1
  | refused => -1
  | ran _ => 0

/-- The run of a command line, and how it ends. -/
def cmdEnd (addr : ArgVal → ℕ) (line : Cstr) : Client CmdEnd := do
  let line := line.drop (line.bytes.takeWhile isspace).length
  match ← valName line with
  | (none, _) => return .unknown
  | (some scmd, n) =>
    match cmdFind scmd with
    | none => return .unknown
    | some cmd =>
      match ← argParse cmd (line.drop n) with
      | none => return .refused
      | some argv => return .ran (← cmd.run addr argv)

section Run

variable {σ : Type} {h : ∀ {β : Type}, Op β → σ → Option (β × σ)} {s : σ}

/-- **The result of `duc_cmd`** tells whether a handler has run, and not what it has returned. -/
theorem ducCmdLine_end (addr : ArgVal → ℕ) (line : Cstr) (s : σ) :
    (ducCmdLine addr line).run h s = ((cmdEnd addr line).run h s).map fun p => (p.1.result, p.2) := by
  unfold ducCmdLine cmdEnd
  dsimp only
  generalize line.drop (line.bytes.takeWhile isspace).length = l
  rw [Prog.run_bind, Prog.run_bind]
  rcases (valName l).run h s with _ | ⟨⟨_ | scmd, n⟩, s₁⟩
  · rfl
  · rfl
  simp only [Option.bind_some]
  rcases cmdFind scmd with _ | cmd
  · rfl
  simp only [cmdArgParse, Prog.run_bind]
  rcases (argParse cmd (l.drop n)).run h s₁ with _ | ⟨_ | argv, s₂⟩
  · rfl
  · rfl
  simp only [Option.bind_some, Prog.run_bind, Prog.run_pure]
  cases (cmd.run addr argv).run h s₂ <;> rfl

/-! ## The callers -/

/-- `EIO`, the error number that `dudl_cmd` tests for. -/
def eio : ℤ := 5

/-- `dudl_cmd` -/
def dudlCmd (addr : ArgVal → ℕ) (line : Cstr) : Client ℤ := do
  let rv ← ducCmdLine addr line
  if rv ≠ -eio then return rv
  else ducCmdLine addr line

/-- The results of the runs of `duc_cmd` in `dudl_cmd`. -/
def dudlRuns (addr : ArgVal → ℕ) (line : Cstr) : Client (List ℤ) := do
  let rv ← ducCmdLine addr line
  if rv ≠ -eio then return [rv]
  else return [rv, ← ducCmdLine addr line]

/-- The exit status of `dudlc -c`. -/
def mainCommand (addr : ArgVal → ℕ) (line : Cstr) : Client ℤ := do
  if (← .ask .open) ≠ 0 then return 1
  else if (← ducCmdLine addr line) ≠ 0 then return 1
  else return 0

theorem CmdEnd.result_cases (o : CmdEnd) : o.result = 0 ∨ o.result = -1 := by
  cases o with
  | unknown => exact Or.inr rfl
  | refused => exact Or.inr rfl
  | ran r => exact Or.inl rfl

theorem CmdEnd.result_ne_eio (o : CmdEnd) : o.result ≠ -eio := by
  rcases o.result_cases with h | h <;> rw [h] <;> decide

theorem CmdEnd.result_eq_zero_iff {o : CmdEnd} : o.result = 0 ↔ ∃ r, o = .ran r := by
  cases o with
  | unknown => exact ⟨fun h => absurd h (by decide), fun ⟨r, h⟩ => by cases h⟩
  | refused => exact ⟨fun h => absurd h (by decide), fun ⟨r, h⟩ => by cases h⟩
  | ran r => exact ⟨fun _ => ⟨r, rfl⟩, fun _ => rfl⟩

theorem dudlCmd_runs (addr : ArgVal → ℕ) (line : Cstr) (s : σ) :
    (dudlCmd addr line).run h s =
      ((dudlRuns addr line).run h s).map fun p => (p.1.getLastD 0, p.2) := by
  unfold dudlCmd dudlRuns
  rw [Prog.run_bind, Prog.run_bind]
  rcases (ducCmdLine addr line).run h s with _ | ⟨rv, s₁⟩
  · rfl
  simp only [Option.bind_some, Prog.run_ite, Prog.run_bind]
  split_ifs with hrv
  · rfl
  · cases (ducCmdLine addr line).run h s₁ <;> rfl

/-- **One run.** `dudl_cmd` never runs a command a second time. -/
theorem dudlRuns_end (addr : ArgVal → ℕ) (line : Cstr) (s : σ) :
    (dudlRuns addr line).run h s = ((cmdEnd addr line).run h s).map fun p => ([p.1.result], p.2) := by
  unfold dudlRuns
  rw [Prog.run_bind, ducCmdLine_end]
  rcases (cmdEnd addr line).run h s with _ | ⟨o, s₁⟩
  · rfl
  · simp only [Option.map_some, Option.bind_some]
    rw [if_pos o.result_ne_eio]
    rfl

/-- **The exit status** is 0 when the session is open and a handler runs, whatever the handler returns. -/
theorem mainCommand_end (addr : ArgVal → ℕ) (line : Cstr) (s : σ) :
    (mainCommand addr line).run h s = (h .open s).bind fun p =>
      if p.1 ≠ 0 then some (1, p.2)
      else ((cmdEnd addr line).run h p.2).map fun q => (if q.1.result = 0 then 0 else 1, q.2) := by
  unfold mainCommand
  rw [Prog.run_bind, Prog.run_ask]
  refine Option.bind_congr fun p _ => ?_
  rw [Prog.run_ite]
  split_ifs with hopen
  · rfl
  rw [Prog.run_bind, ducCmdLine_end]
  rcases (cmdEnd addr line).run h p.2 with _ | ⟨o, s₁⟩
  · rfl
  · simp only [Option.map_some, Option.bind_some]
    rcases o.result_cases with ho | ho <;> rw [ho] <;> rfl

end Run

/-! ## What is reported -/

/-- The connection is lost between `w` and `v`. -/
def Loses (w v : World) : Prop := ∃ es, v.log = w.log ++ es ∧ .disconnect ∈ es

/-- A command line that is run in `w`, and ends with `o` in `v`, is reported: `duc_cmd` returns 0 exactly
for a handler that returns 0, and the result that `dudl_cmd` tests for exactly if the connection is lost;
and `dudl_cmd` then runs it once more, and else not. -/
structure Reported (ev : Handlers) (addr : ArgVal → ℕ) (line : Cstr) (w : World) (o : CmdEnd) (v : World) :
    Prop where
  result : ∃ rv, (ducCmdLine addr line).run (World.op ev) w = some (rv, v) ∧ (rv = 0 ↔ o = .ran 0) ∧
    (rv = -eio ↔ Loses w v)
  lost : Loses w v → ∀ rvs u, (dudlRuns addr line).run (World.op ev) w = some (rvs, u) → rvs.length = 2
  kept : ¬ Loses w v → ∀ rvs u, (dudlRuns addr line).run (World.op ev) w = some (rvs, u) → rvs.length = 1

/-- **When a command is reported**: exactly if its handler, where it runs, does not fail, and the
connection is not lost on the way. -/
theorem reported_iff (h : (cmdEnd addr line).run (World.op ev) w = some (o, v)) :
    Reported ev addr line w o v ↔ o.Good ∧ ¬ Loses w v := by
  have hcmd : (ducCmdLine addr line).run (World.op ev) w = some (o.result, v) := by
    rw [ducCmdLine_end, h]
    rfl
  have honce : (dudlRuns addr line).run (World.op ev) w = some ([o.result], v) := by
    rw [dudlRuns_end, h]
    rfl
  constructor
  · intro hrep
    obtain ⟨rv, hrv, hzero, hlost⟩ := hrep.result
    obtain ⟨rfl, -⟩ := Prod.mk.inj (Option.some.inj (hcmd.symm.trans hrv))
    refine ⟨fun r hr => ?_, fun hl => o.result_ne_eio (hlost.2 hl)⟩
    have hran := hzero.1 (CmdEnd.result_eq_zero_iff.2 ⟨r, hr⟩)
    exact CmdEnd.ran.inj (hr.symm.trans hran)
  · rintro ⟨hgood, hlost⟩
    refine ⟨⟨o.result, hcmd, ?_, ?_⟩, fun hl => absurd hl hlost, fun _ rvs u hrvs => ?_⟩
    · rw [CmdEnd.result_eq_zero_iff]
      constructor
      · rintro ⟨r, hr⟩
        rw [hr, hgood r hr]
      · exact fun ho => ⟨0, ho⟩
    · exact ⟨fun hr => absurd hr o.result_ne_eio, fun hl => absurd hl hlost⟩
    · obtain ⟨rfl, -⟩ := Prod.mk.inj (Option.some.inj (honce.symm.trans hrvs))
      rfl

/-- **Two commands that are not reported**: `pause` when the server refuses it, and when the server closes
the connection. Both handlers fail, `duc_cmd` returns 0, and `dudl_cmd` does not try again. -/
theorem pause_unreported :
    (∃ v, (cmdEnd (fun _ => 0) (.lit "pause")).run (World.op .passive)
        (idleWorld [some (Cstr.lit "550 no\n").bytes] []) = some (.ran (-1), v) ∧
      (ducCmdLine (fun _ => 0) (.lit "pause")).run (World.op .passive)
        (idleWorld [some (Cstr.lit "550 no\n").bytes] []) = some (0, v) ∧
      ¬ Reported .passive (fun _ => 0) (.lit "pause") (idleWorld [some (Cstr.lit "550 no\n").bytes] [])
        (.ran (-1)) v) ∧
    ∃ v, (cmdEnd (fun _ => 0) (.lit "pause")).run (World.op .passive) (idleWorld [some []] []) =
        some (.ran (-1), v) ∧ Loses (idleWorld [some []] []) v ∧
      (dudlRuns (fun _ => 0) (.lit "pause")).run (World.op .passive) (idleWorld [some []] []) =
        some ([0], v) ∧
      ¬ Reported .passive (fun _ => 0) (.lit "pause") (idleWorld [some []] []) (.ran (-1)) v := by
  have hrefused : ((cmdEnd (fun _ => 0) (.lit "pause")).run (World.op .passive)
      (idleWorld [some (Cstr.lit "550 no\n").bytes] [])).map Prod.fst = some (.ran (-1)) := by
    decide +kernel
  have hclosed : ((cmdEnd (fun _ => 0) (.lit "pause")).run (World.op .passive)
      (idleWorld [some []] [])).map (fun p => (p.1, p.2.log)) = some (.ran (-1), [.disconnect]) := by
    decide +kernel
  obtain ⟨⟨_, v⟩, hv, rfl⟩ := Option.map_eq_some_iff.1 hrefused
  obtain ⟨⟨_, u⟩, hu, heq⟩ := Option.map_eq_some_iff.1 hclosed
  obtain ⟨rfl, hlog⟩ := Prod.mk.inj heq
  refine ⟨⟨v, hv, ?_, fun hrep => ?_⟩, u, hu, ⟨[.disconnect], hlog, List.mem_singleton_self _⟩, ?_,
    fun hrep => ?_⟩
  · rw [ducCmdLine_end, hv]
    rfl
  · obtain ⟨rv, hrv, hzero, -⟩ := hrep.result
    rw [ducCmdLine_end, hv] at hrv
    obtain ⟨rfl, -⟩ := Prod.mk.inj (Option.some.inj hrv)
    exact absurd (hzero.1 rfl) (by decide)
  · rw [dudlRuns_end, hu]
    rfl
  · have htwice := hrep.lost ⟨[.disconnect], hlog, List.mem_singleton_self _⟩ [0] u
      (by rw [dudlRuns_end, hu]; rfl)
    exact absurd htwice (by decide)

/-- The theorem at `pause`, when the server does it. -/
theorem pause_reported : ∃ v, Reported .passive (fun _ => 0) (.lit "pause")
    (idleWorld [some (Cstr.lit "250 ok\n").bytes] []) (.ran 0) v := by
  have hdone : ((cmdEnd (fun _ => 0) (.lit "pause")).run (World.op .passive)
      (idleWorld [some (Cstr.lit "250 ok\n").bytes] [])).map (fun p => (p.1, p.2.log)) =
        some (.ran 0, []) := by decide +kernel
  obtain ⟨⟨_, v⟩, hv, heq⟩ := Option.map_eq_some_iff.1 hdone
  obtain ⟨rfl, hlog⟩ := Prod.mk.inj heq
  refine ⟨v, (reported_iff hv).2 ⟨fun r hr => (CmdEnd.ran.inj hr).symm, ?_⟩⟩
  rintro ⟨es, hes, hmem⟩
  have hnil : [] = [] ++ es := hlog.symm.trans hes
  rw [← List.nil_append es, ← hnil] at hmem
  exact absurd hmem List.not_mem_nil

end Dudlc
