import Dudlc.Formatter
import Dudlc.Release

/-!
# The generator for a place on the line

`duc_cgen_find` should find the generator that completes the command line at a place.

* `ducCgenStart`, `ducCgenFind`: the function, with the subtractions of its unsigned position.
* `Argued`: complete arguments in front of the place.
* `CursorRight`: the generator is the one of the argument at the place, and no position wraps around.
* `gencWalk_argued`: where `cmd_find_arg_genc` stops; `gencWalk_first`: it stops at the first argument for a position
  that is too large for an `int`.
* **`cursorRight_iff`**: the places for which the generator is found.
-/

namespace Dudlc

open Lib

/-- The white space in front of a text. -/
def blanks (t : Cstr) : ℕ := (t.bytes.takeWhile isspace).length

/-- The length of the command word. -/
def wordLength (line : Cstr) : ℕ := ((skipSpace line).bytes.takeWhile isalpha).length

/-- The command on the line. -/
def lineCmd (line : Cstr) : Option TCmd := cmdFind ((skipSpace line).take (wordLength line))

/-- The text behind the command word. -/
def behindWord (line : Cstr) : Cstr := (skipSpace line).drop (wordLength line)

/-! ## `duc_cgen_find` -/

/-- What `duc_cgen_find` has found in front of the arguments: the generator, or the text of the arguments and the
position in it. -/
inductive CgenPlace
  | gen (g : Option Genc)
  | args (cmd : TCmd) (line : Cstr) (pos : ℕ)

/-- What `val_name` returns. -/
def nameOf (s : Cstr) : Option Cstr × ℕ :=
  let n := (s.bytes.takeWhile isalpha).length
  if n = 0 then (none, 0) else (some (s.take n), n)

/-- `duc_cgen_find` up to the arguments, with the two numbers of each subtraction. -/
def ducCgenStart (line : Cstr) (pos : ℕ) : CgenPlace × List (ℕ × ℕ) :=
  let start := skipSpace line
  let d := line.bytes.length - start.bytes.length
  let p := uint (pos - d)
  if p = 0 then (.gen (some .lstCmd), [(pos, d)])
  else match nameOf start with
    | (none, _) => (.gen none, [(pos, d)])
    | (some scmd, n) =>
      match cmdFind scmd with
      | none => (.gen none, [(pos, d), (p, n)])
      | some cmd => (.args cmd (start.drop n) (uint (p - n)), [(pos, d), (p, n)])

/-- `duc_cgen_find` -/
def ducCgenFind (line : Cstr) (pos : ℕ) : Client (Option Genc) := do
  match (ducCgenStart line pos).1 with
  | .gen g => return g
  | .args cmd line pos => return (← cmdFindArgGenc (cmd.args.map TCmdArg.full) line pos).1

theorem valName_eq (s : Cstr) : valName s = pure (nameOf s) := by
  rw [valName, nameOf]
  split_ifs <;> rfl

/-! ## The argument at a place -/

section Runs

variable {σ : Type} (h : ∀ {β : Type}, Op β → σ → Option (β × σ))

/-- The first `m` bytes of a text are complete arguments, which are accepted in a run, and white space. The values,
the arguments that come next, and the text behind the last one. -/
inductive Argued : List TCmdArg → Cstr → σ → ℕ → List ArgVal → List TCmdArg → Cstr → σ → Prop
  | blank (args : List TCmdArg) (t : Cstr) (s : σ) (m : ℕ) (white : ∀ b ∈ t.bytes.take m, isspace b = true) :
    Argued args t s m [] args t s
  | arg {arg : TCmdArg} {args args' : List TCmdArg} {t t' : Cstr} {s s' s'' : σ} {m n : ℕ} {v : ArgVal}
      {vs : List ArgVal} (ne : (skipSpace t).bytes ≠ []) (parse : (arg.parse (skipSpace t)).run h s = some ((v, n), s'))
      (moves : n ≠ 0) (ends : (skipSpace t).byte n = 0 ∨ isspace ((skipSpace t).byte n) = true)
      (within : blanks t + n ≤ m)
      (rest : Argued args ((skipSpace t).drop n) s' (m - (blanks t + n)) vs args' t' s'') :
    Argued (arg :: args) t s m (v :: vs) args' t' s''

/-- The generator of the first of these arguments. -/
def firstGenc (args : List TCmdArg) : Option Genc := args.head?.bind fun arg => arg.full.genc

/-- For a place in the line: no position wraps around; up to the start of the command word, the command names are
offered; behind the word and complete arguments, it is the generator of the next argument, which is the one that
`cmd_arg_parse` would read there. -/
structure CursorRight (s : σ) (line : Cstr) (pos : ℕ) : Prop where
  unwrapped : ∀ p ∈ (ducCgenStart line pos).2, p.2 ≤ p.1
  name : pos ≤ blanks line → (ducCgenFind line pos).run h s = some (some .lstCmd, s)
  arg : ∀ cmd vs args' t' s', wordLength line ≠ 0 → lineCmd line = some cmd → blanks line + wordLength line ≤ pos →
    Argued h cmd.args (behindWord line) s (pos - (blanks line + wordLength line)) vs args' t' s' →
    (∃ s'', (ducCgenFind line pos).run h s = some (firstGenc args', s'')) ∧
      (argLoop cmd.args (behindWord line) 0 []).run h s = (argLoop args' t' 0 vs).run h s'

end Runs

variable {σ : Type} {h : ∀ {β : Type}, Op β → σ → Option (β × σ)} {s s' : σ} {args args' : List TCmdArg} {t t' line : Cstr}
  {m pos : ℕ} {vs : List ArgVal}

theorem skipSpace_length (t : Cstr) : (skipSpace t).bytes.length = t.bytes.length - blanks t := by
  rw [skipSpace, Cstr.drop, List.length_drop, blanks]

theorem blanks_le (t : Cstr) : blanks t ≤ t.bytes.length := (List.takeWhile_prefix _).length_le

theorem blanks_ge (hm : m ≤ t.bytes.length) (hwhite : ∀ b ∈ t.bytes.take m, isspace b = true) : m ≤ blanks t := by
  rw [blanks, ← List.take_append_drop m t.bytes, List.takeWhile_append_of_pos hwhite, List.length_append,
    List.length_take_of_le hm]
  omega

theorem Argued.argLoop (harg : Argued h args t s m vs args' t' s') (k : ℕ) (argv : List ArgVal) :
    (argLoop args t k argv).run h s = (argLoop args' t' k (argv ++ vs)).run h s' := by
  induction harg generalizing argv with
  | blank args t s m white => rw [List.append_nil]
  | @arg arg args args' t t' s s' s'' m n v vs ne parse moves ends within rest ih =>
    have hok : ¬ (n = 0 ∨ ((skipSpace t).byte n ≠ 0 ∧ (!isspace ((skipSpace t).byte n)) = true)) := by
      rcases ends with ends | ends <;> simp [moves, ends]
    rw [argLoop_cons, if_neg ne, Prog.run_bind, parse, Option.bind_some, if_neg hok, ih, List.append_assoc]
    rfl

/-- **`cmd_find_arg_genc` stops** at the argument behind the complete ones. -/
theorem gencWalk_argued (harg : Argued h args t s m vs args' t' s') (hm : m ≤ t.bytes.length) {len : ℕ} {pos : ℤ}
    (hpos : pos + t.bytes.length = len + m) (i : ℕ) (argv : List ArgVal) (calls : List ParserCall) :
    ∃ argv' calls', (gencWalk len pos (args.map TCmdArg.full) i t argv calls).run h s =
      some ((args'.head?.map fun arg => arg.full.genc, argv', calls'), s') := by
  induction harg generalizing i argv calls with
  | blank args t s m white =>
    cases args with
    | nil => exact ⟨argv, calls, rfl⟩
    | cons arg args =>
      refine ⟨argv, calls, ?_⟩
      have hge := blanks_ge hm white
      have hle := blanks_le t
      have hlen := skipSpace_length t
      rw [List.map_cons, gencWalk]
      dsimp only
      split_ifs with hend hstop
      · rfl
      · rfl
      · omega
  | @arg arg args args' t t' s s' s'' m n v vs ne parse moves ends within rest ih =>
    have hok : ¬ (n = 0 ∨ ((skipSpace t).byte n ≠ 0 ∧ (!isspace ((skipSpace t).byte n)) = true)) := by
      rcases ends with ends | ends <;> simp [moves, ends]
    have hlen := skipSpace_length t
    have hle := blanks_le t
    have hdrop : ((skipSpace t).drop n).bytes.length = t.bytes.length - blanks t - n := by
      rw [Cstr.drop, List.length_drop, hlen]
    obtain ⟨argv', calls', hrun⟩ := ih (by omega) (by omega) (i + 1) (argv ++ [v]) (calls ++ [⟨i, v, true⟩])
    refine ⟨argv', calls', ?_⟩
    have hparse : (arg.full.parse (skipSpace t)).run h s = some ((v, n), s') := parse
    rw [List.map_cons, gencWalk]
    dsimp only
    rw [if_neg ne, if_neg (by omega), Prog.run_bind, hparse, Option.bind_some]
    dsimp only
    rw [if_neg hok]
    exact hrun

theorem gencWalk_first {len : ℕ} {pos : ℤ} (hlen : t.bytes.length ≤ len) (hpos : pos ≤ 0) (args : List TCmdArg) (s : σ) :
    ∃ argv' calls', (gencWalk len pos (args.map TCmdArg.full) 0 t [] []).run h s =
      some ((args.head?.map fun arg => arg.full.genc, argv', calls'), s) := by
  cases args with
  | nil => exact ⟨[], [], rfl⟩
  | cons arg args =>
    refine ⟨[], [], ?_⟩
    have hskip := skipSpace_length t
    rw [List.map_cons, gencWalk]
    dsimp only
    split_ifs with hend hstop
    · rfl
    · rfl
    · omega

/-! ## The positions -/

theorem behindWord_length (line : Cstr) :
    (behindWord line).bytes.length = line.bytes.length - blanks line - wordLength line := by
  rw [behindWord, Cstr.drop, List.length_drop, skipSpace_length]

theorem nameOf_line (line : Cstr) : nameOf (skipSpace line) =
    if wordLength line = 0 then (none, 0) else (some ((skipSpace line).take (wordLength line)), wordLength line) := rfl

theorem blanks_eq (line : Cstr) : line.bytes.length - (skipSpace line).bytes.length = blanks line := by
  have hle := blanks_le line
  rw [skipSpace_length]
  omega

theorem ducCgenStart_eq (hpos : pos < 2 ^ 32) (hblank : blanks line ≤ pos) : ducCgenStart line pos =
    if pos = blanks line then (.gen (some .lstCmd), [(pos, blanks line)])
    else if wordLength line = 0 then (.gen none, [(pos, blanks line)])
    else (match lineCmd line with
      | none => .gen none
      | some cmd => .args cmd (behindWord line) (uint ((pos - blanks line : ℕ) - (wordLength line : ℤ))),
      [(pos, blanks line), (pos - blanks line, wordLength line)]) := by
  have hp : uint ((pos : ℤ) - (blanks line : ℕ)) = pos - blanks line := uint_sub hpos hblank
  rw [ducCgenStart, blanks_eq, hp, nameOf_line]
  by_cases heq : pos = blanks line
  · rw [if_pos (by omega), if_pos heq]
  rw [if_neg (by omega), if_neg heq]
  by_cases hword : wordLength line = 0
  · rw [if_pos hword, if_pos hword]
  rw [if_neg hword, if_neg hword, lineCmd, behindWord]
  rcases hcmd : cmdFind ((skipSpace line).take (wordLength line)) with _ | cmd <;> simp only [hcmd]

theorem mem_subtractions (line : Cstr) (pos : ℕ) : (pos, blanks line) ∈ (ducCgenStart line pos).2 := by
  rw [ducCgenStart, blanks_eq]
  split_ifs
  · exact List.mem_cons_self
  rcases nameOf (skipSpace line) with ⟨_ | scmd, n⟩
  · exact List.mem_cons_self
  · dsimp only
    cases cmdFind scmd <;> exact List.mem_cons_self

/-- **No position wraps around** just outside the white space in front of the word, and outside the word. -/
theorem unwrapped_iff (hpos : pos < 2 ^ 32) : (∀ p ∈ (ducCgenStart line pos).2, p.2 ≤ p.1) ↔
    blanks line ≤ pos ∧ ¬ (blanks line < pos ∧ pos < blanks line + wordLength line) := by
  rcases Nat.lt_or_ge pos (blanks line) with hlt | hge
  · exact iff_of_false (fun hall => absurd (hall _ (mem_subtractions line pos)) (by simpa using hlt)) (by omega)
  rw [ducCgenStart_eq hpos hge]
  split_ifs with heq hword
  · simp only [List.mem_singleton, forall_eq]
    omega
  · simp only [List.mem_singleton, forall_eq]
    omega
  · simp only [List.mem_cons, List.not_mem_nil, or_false, forall_eq_or_imp, forall_eq]
    omega

/-! ## The generator -/

/-- One complete argument and white space are the first `m` bytes of a text. -/
def TakenBefore (arg : TCmdArg) (t : Cstr) (m : ℕ) : Prop :=
  (skipSpace t).bytes ≠ [] ∧ ∃ v n, arg.parse (skipSpace t) = pure (v, n) ∧ n ≠ 0 ∧
    ((skipSpace t).byte n = 0 ∨ isspace ((skipSpace t).byte n) = true) ∧ blanks t + n ≤ m ∧
    ∀ b ∈ ((skipSpace t).drop n).bytes.take (m - (blanks t + n)), isspace b = true

/-- The place is not in front of the word and not inside it. Where it is 2^31 bytes behind the word or more, and the
command has an argument with a generator, this is not complete in front of the place. -/
structure Placed (line : Cstr) (pos : ℕ) : Prop where
  behind : blanks line ≤ pos
  outside : ¬ (blanks line < pos ∧ pos < blanks line + wordLength line)
  near : 2 ^ 31 ≤ pos - (blanks line + wordLength line) → ∀ cmd, lineCmd line = some cmd → ∀ arg ∈ cmd.args.head?,
    arg.full.genc ≠ none → ¬ TakenBefore arg (behindWord line) (pos - (blanks line + wordLength line))

theorem generator_cmds : cmdsTop.filter (fun cmd => (firstGenc cmd.args).isSome) =
    [⟨.lit "helpcmd", none, cHelpcmd, argsCmd⟩, ⟨.lit "raw", none, cRaw, argsRaw⟩] := rfl

theorem tail_gencs : ∀ cmd ∈ cmdsTop, ∀ arg ∈ cmd.args.tail, arg.full.genc = none := by decide +kernel

theorem generator_parse {cmd : TCmd} (hmem : cmd ∈ cmdsTop) (hgenc : (firstGenc cmd.args).isSome) :
    ∃ arg, cmd.args = [arg] ∧ ∀ t, ∃ r, arg.parse t = pure r := by
  have hcmd : cmd ∈ cmdsTop.filter (fun cmd => (firstGenc cmd.args).isSome) := List.mem_filter.2 ⟨hmem, hgenc⟩
  rw [generator_cmds, List.mem_pair] at hcmd
  rcases hcmd with rfl | rfl
  · refine ⟨argCmd, rfl, fun t => ⟨((nameOf t).1.elim .null .str, (nameOf t).2), ?_⟩⟩
    change (valName t >>= fun r => pure (r.1.elim ArgVal.null .str, r.2)) = _
    rw [valName_eq]
    rfl
  · exact ⟨argRcmd, rfl, fun t => ⟨(.str t, t.bytes.length), rfl⟩⟩

theorem Argued.suffix (harg : Argued h args t s m vs args' t' s') : args' <:+ args := by
  induction harg with
  | blank args t s m white => exact List.suffix_refl args
  | arg ne parse moves ends within rest ih => exact ih.trans (List.suffix_cons _ _)

theorem lineCmd_mem {cmd : TCmd} (hcmd : lineCmd line = some cmd) : cmd ∈ cmdsTop := by
  rw [lineCmd, cmdFind] at hcmd
  exact List.mem_of_find?_eq_some hcmd

theorem wordLength_ne_zero {cmd : TCmd} (hcmd : lineCmd line = some cmd) : wordLength line ≠ 0 := by
  intro hword
  have hnone : cmdFind ((skipSpace line).take 0) = none := rfl
  rw [lineCmd, hword, hnone] at hcmd
  cases hcmd

theorem ducCgenFind_args {cmd : TCmd} (hpos : pos < 2 ^ 32) (hcmd : lineCmd line = some cmd)
    (hle : blanks line + wordLength line ≤ pos) : ducCgenFind line pos =
      cmdFindArgGenc (cmd.args.map TCmdArg.full) (behindWord line) (pos - (blanks line + wordLength line)) >>= fun r =>
        pure r.1 := by
  have hword := wordLength_ne_zero hcmd
  have hp : uint ((pos - blanks line : ℕ) - (wordLength line : ℤ)) = pos - (blanks line + wordLength line) := by
    rw [uint_sub (by omega) (by omega)]
    omega
  rw [ducCgenFind, ducCgenStart_eq hpos (by omega), if_neg (by omega), if_neg hword, hcmd, hp]

theorem join_genc (args : List TCmdArg) : (args.head?.map fun arg => arg.full.genc).join = firstGenc args := by
  cases args <;> rfl

theorem ducCgenFind_near {cmd : TCmd} (hcmd : lineCmd line = some cmd) (hle : blanks line + wordLength line ≤ pos)
    (hline : pos ≤ line.bytes.length) (hnear : pos - (blanks line + wordLength line) < 2 ^ 31) (hpos : pos < 2 ^ 32)
    (harg : Argued h cmd.args (behindWord line) s (pos - (blanks line + wordLength line)) vs args' t' s') :
    (ducCgenFind line pos).run h s = some (firstGenc args', s') := by
  have hlen := behindWord_length line
  have hplace : ((pos - (blanks line + wordLength line) : ℕ) : ℤ) + (behindWord line).bytes.length =
      (behindWord line).bytes.length + (pos - (blanks line + wordLength line) : ℕ) := Int.add_comm _ _
  obtain ⟨argv, calls, hrun⟩ := gencWalk_argued harg (by omega) hplace 0 [] []
  rw [ducCgenFind_args hpos hcmd hle, cmdFindArgGenc, toInt_eq (by omega)]
  simp only [Prog.run_bind, hrun, Option.bind_some, Prog.run_pure, join_genc]

theorem ducCgenFind_far {cmd : TCmd} (hcmd : lineCmd line = some cmd) (hle : blanks line + wordLength line ≤ pos)
    (hfar : 2 ^ 31 ≤ pos - (blanks line + wordLength line)) (hpos : pos < 2 ^ 32) (s : σ) :
    (ducCgenFind line pos).run h s = some (firstGenc cmd.args, s) := by
  have hint : toInt (pos - (blanks line + wordLength line) : ℕ) ≤ 0 := (toInt_neg (by omega) (by omega)).le
  obtain ⟨argv, calls, hrun⟩ := gencWalk_first (h := h) (t := behindWord line) le_rfl hint cmd.args s
  rw [ducCgenFind_args hpos hcmd hle, cmdFindArgGenc]
  simp only [Prog.run_bind, hrun, Option.bind_some, Prog.run_pure, join_genc]

theorem Placed.far_genc {cmd : TCmd} (hplaced : Placed line pos) (hcmd : lineCmd line = some cmd)
    (hfar : 2 ^ 31 ≤ pos - (blanks line + wordLength line))
    (harg : Argued h cmd.args (behindWord line) s (pos - (blanks line + wordLength line)) vs args' t' s') :
    firstGenc cmd.args = firstGenc args' := by
  have hmem := lineCmd_mem hcmd
  have hnear := hplaced.near hfar cmd hcmd
  have hparse := generator_parse hmem
  have htails := tail_gencs cmd hmem
  generalize cmd.args = args at *
  cases harg with
  | blank args t s m white => rfl
  | @arg arg args args' t t' s s' s'' m n v vs ne parse moves ends within rest =>
    have hlast : firstGenc args' = none := by
      rcases hl : args' with _ | ⟨a, l⟩
      · rfl
      · exact htails a (rest.suffix.subset (by rw [hl]; exact List.mem_cons_self))
    rw [hlast]
    -- an argument with a generator is the only one, and not complete
    by_contra hgenc
    obtain ⟨arg', hone, hpure⟩ := hparse (Option.isSome_iff_ne_none.2 hgenc)
    obtain ⟨rfl, rfl⟩ := List.cons.inj hone
    obtain ⟨r, hr⟩ := hpure (skipSpace (behindWord line))
    obtain rfl : r = (v, n) := by
      rw [hr] at parse
      exact (Prod.mk.inj (Option.some.inj parse)).1
    refine hnear arg rfl hgenc ⟨ne, v, n, hr, moves, ends, within, ?_⟩
    cases rest with
    | blank _ _ _ _ white => exact white

/-- **The generator for a place** is found, and no position wraps around, just for these places. -/
theorem cursorRight_iff (s : σ) (line : Cstr) (pos : UInt32) (hline : pos.toNat ≤ line.bytes.length) :
    CursorRight h s line pos.toNat ↔ Placed line pos.toNat := by
  have hpos : pos.toNat < 2 ^ 32 := pos.toNat_lt
  generalize pos.toNat = p at *
  constructor
  · intro hright
    obtain ⟨hbehind, houtside⟩ := (unwrapped_iff hpos).1 hright.unwrapped
    refine ⟨hbehind, houtside, ?_⟩
    rintro hfar cmd hcmd arg harg hgenc ⟨hne, v, n, hparse, hmoves, hends, hwithin, hwhite⟩
    have hle : blanks line + wordLength line ≤ p := by omega
    obtain ⟨tail, htail⟩ : ∃ tail, cmd.args = arg :: tail := by
      cases hargs : cmd.args with
      | nil => rw [hargs] at harg; cases harg
      | cons a tail => rw [hargs] at harg; cases harg; exact ⟨tail, rfl⟩
    have hargued : Argued h cmd.args (behindWord line) s (p - (blanks line + wordLength line)) [v] tail
        ((skipSpace (behindWord line)).drop n) s := by
      rw [htail]
      exact .arg hne (by rw [hparse]; rfl) hmoves hends hwithin (.blank _ _ _ _ hwhite)
    obtain ⟨⟨s'', hrun⟩, -⟩ := hright.arg cmd _ _ _ _ (wordLength_ne_zero hcmd) hcmd hle hargued
    rw [ducCgenFind_far hcmd hle hfar hpos] at hrun
    obtain ⟨hsame, -⟩ := Prod.mk.inj (Option.some.inj hrun)
    have hnone : firstGenc tail = none := by
      cases tail with
      | nil => rfl
      | cons a tail => exact tail_gencs cmd (lineCmd_mem hcmd) a (by rw [htail]; exact List.mem_cons_self)
    rw [hnone, htail] at hsame
    exact hgenc hsame
  · intro hplaced
    refine ⟨(unwrapped_iff hpos).2 ⟨hplaced.behind, hplaced.outside⟩, fun hname => ?_, ?_⟩
    · rw [ducCgenFind, ducCgenStart_eq hpos hplaced.behind, if_pos (by have := hplaced.behind; omega)]
      rfl
    intro cmd vs args' t' s' hword hcmd hle harg
    refine ⟨?_, by rw [harg.argLoop 0 [], List.nil_append]⟩
    rcases Nat.lt_or_ge (p - (blanks line + wordLength line)) (2 ^ 31) with hnear | hfar
    · exact ⟨s', ducCgenFind_near hcmd hle hline hnear hpos harg⟩
    refine ⟨s, ?_⟩
    rw [ducCgenFind_far hcmd hle hfar hpos, hplaced.far_genc hcmd hfar harg]

/-- The theorem at a place behind the word `helpcmd`. -/
theorem cursorRight_iff_helpcmd :
    CursorRight (Server.op ⟨3, fun _ _ => none⟩) [] (.lit "helpcmd pl") (8 : UInt32).toNat :=
  (cursorRight_iff [] (.lit "helpcmd pl") 8 (by decide)).2
    ⟨by decide, by decide, fun hfar => absurd hfar (by decide)⟩

/-- **The position wraps around** on the line `  play`, with the cursor on the first blank and inside the word. On the
blank, a generator of arguments is taken in place of the command names. -/
theorem cursor_wraps : ¬ CursorRight (Server.op ⟨3, fun _ _ => none⟩) [] (.lit "  play") 1 ∧
    ¬ CursorRight (Server.op ⟨3, fun _ _ => none⟩) [] (.lit "  play") 4 ∧
    (ducCgenFind (.lit "  play") 1).run (Server.op ⟨3, fun _ _ => none⟩) [] = some (none, []) := by
  refine ⟨fun hright => absurd hright.unwrapped (by decide +kernel),
    fun hright => absurd hright.unwrapped (by decide +kernel), by decide +kernel⟩

end Dudlc
