import Dudlc.Arguments

/-!
# The release of arguments

Every value that a parser has allocated should be released once, by the free function of its argument.

* `FullArg`, `TCmdArg.full`: arguments with their free functions and completion generators.
* `cmdArgFree`, `cmdArgParseFull`, `cmdFindArgGenc`: what is released, beside a record of the parsers' calls.
* `cmdArgParseFull_fst`: `cmd_arg_parse` with the record is `cmd_arg_parse`.
* **`released_iff`**: when all that is allocated is released.
-/

namespace Dudlc

open Lib

/-! ## Arguments with free functions -/

/-- The completion generators of arguments. -/
inductive Genc
  | lstRcmd
  | lstCmd
  deriving DecidableEq

/-- `t_cmd_arg`: with the completion generator, and whether there is a free function. -/
structure FullArg extends TCmdArg where
  genc : Option Genc
  free : Bool

/-- The arguments of the table: `rcmd` and `cmd` have generators, strings and lists have free functions. -/
def TCmdArg.full (arg : TCmdArg) : FullArg where
  toTCmdArg := arg
  genc := if arg.name = .lit "rcmd" then some .lstRcmd else if arg.name = .lit "cmd" then some .lstCmd else none
  free := [Cstr.lit "rcmd", .lit "name", .lit "cmd", .lit "string", .lit "idlist", .lit "useridlist",
    .lit "trackidlist", .lit "taglist"].contains arg.name

/-- The value is a NULL pointer: so is the `int` 0. -/
def ArgVal.isNull : ArgVal → Bool
  | .null => true
  | .int z => z = 0
  | _ => false

/-- A call of a parser: the index of the argument, the value, and whether the text is accepted. -/
structure ParserCall where
  index : ℕ
  value : ArgVal
  accepted : Bool
  deriving DecidableEq

/-- `cmd_arg_free`: the argument and the value of every call of a free function. -/
def cmdArgFree : List FullArg → ℕ → List ArgVal → List (ℕ × ArgVal)
  | arg :: args, i, v :: argv =>
    if v.isNull then []
    else (if arg.free then [(i, v)] else []) ++ cmdArgFree args (i + 1) argv
  | _, _, _ => []

/-! ## `cmd_arg_parse` -/

/-- The loop in `cmd_arg_parse`: what is left of the line and the number of missing arguments, unless an
argument is refused; the values in `argv`, and the calls. -/
def argWalk : List FullArg → ℕ → Cstr → ℕ → List ArgVal → List ParserCall →
    Client (Option (Cstr × ℕ) × List ArgVal × List ParserCall)
  | [], _, next, missing, argv, calls => return (some (next, missing), argv, calls)
  | arg :: args, i, next, missing, argv, calls => do
    let next := skipSpace next
    if next.bytes = [] then argWalk args (i + 1) next (missing + 1) argv calls
    else
      let (data, n) ← arg.parse next
      if n = 0 ∨ (next.byte n ≠ 0 ∧ !isspace (next.byte n)) then
        return (none, argv, calls ++ [⟨i, data, false⟩])
      else argWalk args (i + 1) (next.drop n) missing (argv ++ [data]) (calls ++ [⟨i, data, true⟩])

/-- `cmd_arg_parse`, with what is released and the calls of the parsers. -/
def cmdArgParseFull (addr : ArgVal → ℕ) (run : Handler) (args : List FullArg) (line : Cstr) :
    Client (ℤ × List (ℕ × ArgVal) × List ParserCall) := do
  match ← argWalk args 0 line 0 [] [] with
  | (none, argv, calls) => return (-1, cmdArgFree args 0 argv, calls)
  | (some (next, missing), argv, calls) =>
    if next.bytes ≠ [] then return (-1, cmdArgFree args 0 argv, calls)
    else if missing ≠ 0 then return (-1, cmdArgFree args 0 argv, calls)
    else
      let _ ← run addr argv
      return (0, cmdArgFree args 0 argv, calls)

/-! ## `cmd_find_arg_genc` -/

/-- The loop in `cmd_find_arg_genc`: the generator of the argument at which it stops, unless there is none or
an argument is refused; the values in `argv`, and the calls. The line has `len` bytes. -/
def gencWalk (len : ℕ) (pos : ℤ) : List FullArg → ℕ → Cstr → List ArgVal → List ParserCall →
    Client (Option (Option Genc) × List ArgVal × List ParserCall)
  | [], _, _, argv, calls => return (none, argv, calls)
  | arg :: args, i, next, argv, calls => do
    let next := skipSpace next
    if next.bytes = [] then return (some arg.genc, argv, calls)
    else if (len : ℤ) - next.bytes.length ≥ pos then return (some arg.genc, argv, calls)
    else
      let (data, n) ← arg.parse next
      if n = 0 ∨ (next.byte n ≠ 0 ∧ !isspace (next.byte n)) then
        return (none, argv, calls ++ [⟨i, data, false⟩])
      else gencWalk len pos args (i + 1) (next.drop n) (argv ++ [data]) (calls ++ [⟨i, data, true⟩])

/-- `cmd_find_arg_genc`, with what is released and the calls of the parsers. -/
def cmdFindArgGenc (args : List FullArg) (line : Cstr) (pos : ℕ) :
    Client (Option Genc × List (ℕ × ArgVal) × List ParserCall) := do
  let (genc, argv, calls) ← gencWalk line.bytes.length (toInt pos) args 0 line [] []
  return (genc.join, cmdArgFree args 0 argv, calls)

/-! ## The record is of the same run -/

theorem argWalk_argLoop (args : List FullArg) (i : ℕ) (next : Cstr) (missing : ℕ) (argv : List ArgVal)
    (calls : List ParserCall) :
    (fun r => r.1.map fun q => (r.2.1, q.1, q.2)) <$> argWalk args i next missing argv calls =
      argLoop (args.map FullArg.toTCmdArg) next missing argv := by
  induction args generalizing i next missing argv calls with
  | nil => rfl
  | cons arg args ih =>
    rw [argWalk, List.map_cons, argLoop_cons]
    dsimp only
    split_ifs with hend
    · exact ih ..
    · rw [Prog.map_bind]
      congr 1
      funext r
      split_ifs
      · rfl
      · exact ih ..

theorem cmdArgParseFull_fst (addr : ArgVal → ℕ) (name : Cstr) (aliasName : Option Cstr) (run : Handler)
    (args : List FullArg) (line : Cstr) :
    Prod.fst <$> cmdArgParseFull addr run args line =
      cmdArgParse addr ⟨name, aliasName, run, args.map FullArg.toTCmdArg⟩ line := by
  have hwalk := argWalk_argLoop args 0 line 0 [] []
  rw [cmdArgParseFull, cmdArgParse, argParse, ← hwalk, Prog.map_bind]
  change _ = (_ >>= fun r => pure _) >>= _ >>= _
  rw [Prog.bind_assoc, Prog.bind_assoc]
  congr 1
  funext r
  obtain ⟨_ | ⟨next, missing⟩, argv, calls⟩ := r
  · rfl
  change _ <$> (if _ then _ else if _ then _ else _) = (if _ then _ else if _ then _ else _) >>= _
  split_ifs
  · rfl
  · rfl
  · rw [Prog.map_bind]
    rfl

/-! ## What is released -/

/-- The value has to be released: it is no NULL pointer, and its argument has a free function. -/
def Owned (args : List FullArg) (e : ParserCall) : Prop :=
  e.value.isNull = false ∧ (args[e.index]?.any FullArg.free) = true

instance (args : List FullArg) (e : ParserCall) : Decidable (Owned args e) :=
  inferInstanceAs (Decidable (_ ∧ _))

/-- All values that have to be released are released, once, by the free functions of their arguments. -/
def Released (args : List FullArg) (calls : List ParserCall) (frees : List (ℕ × ArgVal)) : Prop :=
  frees.Perm ((calls.filter fun e => decide (Owned args e)).map fun e => (e.index, e.value))

instance (args : List FullArg) (calls : List ParserCall) (frees : List (ℕ × ArgVal)) :
    Decidable (Released args calls frees) := inferInstanceAs (Decidable (List.Perm _ _))

/-- The values that have to be released are those of accepted texts, and none is behind a NULL pointer. -/
def Reached (args : List FullArg) (calls : List ParserCall) : Prop :=
  (∀ e ∈ calls, Owned args e → e.accepted = true) ∧
    calls.Pairwise fun x e => Owned args e → x.value.isNull = false

/-- The values in `argv`, and the calls, of a loop over arguments from the index `i` on: the arguments are
accepted one after the other, until the loop stops or an argument is refused. -/
inductive Walks : List FullArg → ℕ → List ArgVal → List ParserCall → Prop
  | stop (args : List FullArg) (i : ℕ) : Walks args i [] []
  | refused (arg : FullArg) (args : List FullArg) (i : ℕ) (v : ArgVal) : Walks (arg :: args) i [] [⟨i, v, false⟩]
  | taken {args : List FullArg} {i : ℕ} {vs : List ArgVal} {cs : List ParserCall} (arg : FullArg) (v : ArgVal)
      (rest : Walks args (i + 1) vs cs) : Walks (arg :: args) i (v :: vs) (⟨i, v, true⟩ :: cs)

variable {all args : List FullArg} {i : ℕ} {vs : List ArgVal} {cs : List ParserCall}

theorem reached_cons (e : ParserCall) (cs : List ParserCall) :
    Reached all (e :: cs) ↔
      (Owned all e → e.accepted = true) ∧ (∀ x ∈ cs, Owned all x → e.value.isNull = false) ∧ Reached all cs := by
  rw [Reached, Reached, List.forall_mem_cons, List.pairwise_cons]
  tauto

/-- **The values in `argv` are released** as far as they are reached. -/
theorem Walks.released (h : Walks args i vs cs) (hargs : all.drop i = args) :
    Released all cs (cmdArgFree args i vs) ↔ Reached all cs := by
  have hget : ∀ {arg : FullArg} {args : List FullArg} {i : ℕ}, all.drop i = arg :: args → all[i]? = some arg := by
    intro arg args i hi
    rw [← Nat.add_zero i, ← List.getElem?_drop, hi]
    rfl
  induction h with
  | stop args i => simp [Released, Reached, cmdArgFree]
  | refused arg args i v =>
    change List.Perm [] _ ↔ _
    rw [Reached, List.forall_mem_singleton]
    by_cases ho : Owned all ⟨i, v, false⟩
    · simp [ho]
    · simp [ho]
  | @taken args i vs cs arg v rest ih =>
    have hrest : all.drop (i + 1) = args := by rw [← List.tail_drop, hargs, List.tail_cons]
    have howned : Owned all ⟨i, v, true⟩ ↔ v.isNull = false ∧ arg.free = true := by
      rw [Owned]
      dsimp only
      rw [hget hargs, Option.any_some]
    rw [reached_cons, cmdArgFree]
    cases hv : v.isNull with
    | true =>
      -- nothing behind the NULL pointer is released
      have hno : ¬ Owned all ⟨i, v, true⟩ := by simp [howned, hv]
      rw [if_pos rfl, Released, List.filter_cons_of_neg (by simpa using hno), List.nil_perm, List.map_eq_nil_iff,
        List.filter_eq_nil_iff]
      simp only [decide_eq_true_eq]
      constructor
      · intro hall
        exact ⟨by simp, fun x hx ho => absurd ho (hall x hx), fun e he ho => absurd ho (hall e he),
          List.pairwise_of_forall_mem_list fun _ _ e he ho => absurd ho (hall e he)⟩
      · rintro ⟨-, hnull, -⟩ x hx ho
        exact absurd (hnull x hx ho) (by simp)
    | false =>
      rw [if_neg (by simp)]
      have hreached : ((Owned all ⟨i, v, true⟩ → true = true) ∧ (∀ x ∈ cs, Owned all x → false = false) ∧
          Reached all cs) ↔ Reached all cs := by simp
      refine Iff.trans ?_ ((ih hrest).trans hreached.symm)
      rw [Released, Released]
      cases hf : arg.free with
      | true =>
        have ho : Owned all ⟨i, v, true⟩ := howned.2 ⟨hv, hf⟩
        rw [if_pos rfl, List.filter_cons_of_pos (by simpa using ho), List.map_cons]
        exact List.perm_cons _
      | false =>
        have ho : ¬ Owned all ⟨i, v, true⟩ := by simp [howned, hf]
        rw [if_neg (by simp), List.filter_cons_of_neg (by simpa using ho)]
        rfl

theorem argWalk_end (args : List FullArg) (i : ℕ) {next : Cstr} (hnext : next.bytes = []) (missing : ℕ)
    (argv : List ArgVal) (calls : List ParserCall) :
    (argWalk args i next missing argv calls).Always fun r => r.2 = (argv, calls) := by
  induction args generalizing i next missing with
  | nil => exact rfl
  | cons arg args ih =>
    have hskip : (skipSpace next).bytes = [] := by simp [skipSpace, hnext, Cstr.drop]
    rw [argWalk]
    dsimp only
    rw [if_pos hskip]
    exact ih (i + 1) hskip (missing + 1)

theorem argWalk_walks (args : List FullArg) (i : ℕ) (next : Cstr) (missing : ℕ) (argv : List ArgVal)
    (calls : List ParserCall) :
    (argWalk args i next missing argv calls).Always fun r =>
      ∃ vs cs, r.2 = (argv ++ vs, calls ++ cs) ∧ Walks args i vs cs := by
  induction args generalizing i next missing argv calls with
  | nil => exact ⟨[], [], by simp, .stop [] i⟩
  | cons arg args ih =>
    rw [argWalk]
    dsimp only
    split_ifs with hend
    · refine (argWalk_end args (i + 1) hend (missing + 1) argv calls).mono fun r hr => ?_
      exact ⟨[], [], by simpa using hr, .stop _ i⟩
    · refine Prog.Always.bind (Prog.always_true _) fun ⟨v, n⟩ _ => ?_
      dsimp only
      split_ifs
      · exact ⟨[], [⟨i, v, false⟩], by simp, .refused arg args i v⟩
      · refine (ih (i + 1) _ missing _ _).mono ?_
        rintro r ⟨vs, cs, hr, hwalks⟩
        exact ⟨v :: vs, ⟨i, v, true⟩ :: cs, by simpa using hr, .taken arg v hwalks⟩

theorem gencWalk_walks (len : ℕ) (pos : ℤ) (args : List FullArg) (i : ℕ) (next : Cstr) (argv : List ArgVal)
    (calls : List ParserCall) :
    (gencWalk len pos args i next argv calls).Always fun r =>
      ∃ vs cs, r.2 = (argv ++ vs, calls ++ cs) ∧ Walks args i vs cs := by
  induction args generalizing i next argv calls with
  | nil => exact ⟨[], [], by simp, .stop [] i⟩
  | cons arg args ih =>
    rw [gencWalk]
    dsimp only
    split_ifs
    · exact ⟨[], [], by simp, .stop _ i⟩
    · exact ⟨[], [], by simp, .stop _ i⟩
    · refine Prog.Always.bind (Prog.always_true _) fun ⟨v, n⟩ _ => ?_
      dsimp only
      split_ifs
      · exact ⟨[], [⟨i, v, false⟩], by simp, .refused arg args i v⟩
      · refine (ih (i + 1) _ _ _).mono ?_
        rintro r ⟨vs, cs, hr, hwalks⟩
        exact ⟨v :: vs, ⟨i, v, true⟩ :: cs, by simpa using hr, .taken arg v hwalks⟩

theorem cmdArgParseFull_walks (addr : ArgVal → ℕ) (run : Handler) (args : List FullArg) (line : Cstr) :
    (cmdArgParseFull addr run args line).Always fun r => ∃ vs, r.2.1 = cmdArgFree args 0 vs ∧ Walks args 0 vs r.2.2 := by
  refine Prog.Always.bind (argWalk_walks args 0 line 0 [] []) ?_
  rintro ⟨_ | ⟨next, missing⟩, argv, calls⟩ ⟨vs, cs, hr, hwalks⟩
  all_goals obtain ⟨rfl, rfl⟩ : argv = vs ∧ calls = cs := by simpa using hr
  · exact ⟨_, rfl, hwalks⟩
  · dsimp only
    split_ifs
    · exact ⟨_, rfl, hwalks⟩
    · exact ⟨_, rfl, hwalks⟩
    · exact Prog.Always.bind (Prog.always_true _) fun _ _ => ⟨_, rfl, hwalks⟩

/-- **When all that is allocated is released**, in `cmd_arg_parse` and in `cmd_find_arg_genc`: no parser
allocates a value and refuses its text, and no value that has to be released is behind a NULL pointer. -/
theorem released_iff (addr : ArgVal → ℕ) (run : Handler) (args : List FullArg) (line : Cstr) (pos : ℕ) :
    ((cmdArgParseFull addr run args line).Always fun r => Released args r.2.2 r.2.1 ↔ Reached args r.2.2) ∧
      (cmdFindArgGenc args line pos).Always fun r => Released args r.2.2 r.2.1 ↔ Reached args r.2.2 := by
  constructor
  · refine (cmdArgParseFull_walks addr run args line).mono ?_
    rintro r ⟨vs, hfree, hwalks⟩
    rw [hfree]
    exact hwalks.released rfl
  · refine Prog.Always.bind (gencWalk_walks _ _ args 0 line [] []) ?_
    rintro ⟨genc, argv, calls⟩ ⟨vs, cs, hr, hwalks⟩
    obtain ⟨rfl, rfl⟩ : argv = vs ∧ calls = cs := by simpa using hr
    exact hwalks.released rfl

/-- **Two lines** whose values are not released: the id 0 in `tracksetname 0 foo` ends the search for values,
and the list of `queueget 5x` is not in `argv`. -/
theorem not_released :
    ((cmdArgParseFull (fun _ => 0) cTracksetname (argsTrackname.map TCmdArg.full) (.lit " 0 foo")).Always fun r =>
      r.2 = ([], [⟨0, .int 0, true⟩, ⟨1, .str (.lit "foo"), true⟩]) ∧
        ¬ Released (argsTrackname.map TCmdArg.full) r.2.2 r.2.1) ∧
    (cmdArgParseFull (fun _ => 0) cQueueget (argsIdlist.map TCmdArg.full) (.lit " 5x")).Always fun r =>
      r.2 = ([], [⟨0, .idl [5], false⟩]) ∧ ¬ Released (argsIdlist.map TCmdArg.full) r.2.2 r.2.1 := by
  have hname : ¬ Released (argsTrackname.map TCmdArg.full) [⟨0, .int 0, true⟩, ⟨1, .str (.lit "foo"), true⟩] [] := by
    decide +kernel
  have hlist : ¬ Released (argsIdlist.map TCmdArg.full) [⟨0, .idl [5], false⟩] [] := by
    decide +kernel
  have htrack : (TCmdArg.full argTrack).parse (skipSpace (.lit " 0 foo")) = pure (.int 0, 1) := by
    have hzero : uintAt (skipSpace (.lit " 0 foo")) 0 = (0, 1) := by decide +kernel
    change apInt valTrack _ = _
    rw [apInt, valTrack, if_neg (by decide), hzero]
    rfl
  have hidl : (TCmdArg.full argIdlist).parse (skipSpace (.lit " 5x")) = pure (.idl [5], 1) := by
    have hfive : idlAddlist [] (skipSpace (.lit " 5x")) = some (1, [5], 1) := by decide +kernel
    change apIdl valIdlist _ = _
    rw [apIdl, valIdlist, hfive]
    rfl
  constructor
  · have hwalk : argWalk (argsTrackname.map TCmdArg.full) 0 (.lit " 0 foo") 0 [] [] =
        pure (some ((Cstr.lit "foo").drop 3, 0), [.int 0, .str (.lit "foo")],
          [⟨0, .int 0, true⟩, ⟨1, .str (.lit "foo"), true⟩]) := by
      change argWalk [TCmdArg.full argTrack, TCmdArg.full argString] 0 (.lit " 0 foo") 0 [] [] = _
      rw [argWalk]
      dsimp only
      rw [if_neg (by decide), htrack]
      rfl
    rw [cmdArgParseFull, hwalk]
    change (cTracksetname _ _ >>= fun _ => _).Always _
    exact Prog.Always.bind (Prog.always_true _) fun _ _ => ⟨rfl, hname⟩
  · have hwalk : argWalk (argsIdlist.map TCmdArg.full) 0 (.lit " 5x") 0 [] [] =
        pure (none, [], [⟨0, .idl [5], false⟩]) := by
      change argWalk [TCmdArg.full argIdlist] 0 (.lit " 5x") 0 [] [] = _
      rw [argWalk]
      dsimp only
      rw [if_neg (by decide), hidl]
      rfl
    rw [cmdArgParseFull, hwalk]
    exact ⟨rfl, hlist⟩

end Dudlc
