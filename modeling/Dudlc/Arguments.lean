import Dudlc.Table

/-!
# Arguments on a line

`cmd_arg_parse` should call the handler for the lines that hold the arguments of the command.

* `Takes`: arguments that are taken from a text, one after the other.
* `WellFormed`: all that are not optional are taken, and white space is left.
* `argParse_iff`: the handler is called when all arguments are taken, and nothing is left.
* **`handler_iff`**: when the handler is called for the well-formed lines.
-/

namespace Dudlc

open Lib

variable {args args' args'' : List TCmdArg} {s r r' : Cstr} {vs argv : List ArgVal} {m : ℕ}

/-- The text behind white space. -/
def skipSpace (s : Cstr) : Cstr := s.drop (s.bytes.takeWhile isspace).length

theorem argLoop_cons (arg : TCmdArg) (args : List TCmdArg) (s : Cstr) (m : ℕ) (argv : List ArgVal) :
    argLoop (arg :: args) s m argv =
      if (skipSpace s).bytes = [] then argLoop args (skipSpace s) (m + 1) argv
      else arg.parse (skipSpace s) >>= fun r =>
        if r.2 = 0 ∨ ((skipSpace s).byte r.2 ≠ 0 ∧ (!isspace ((skipSpace s).byte r.2)) = true) then pure none
        else argLoop args ((skipSpace s).drop r.2) m (argv ++ [r.1]) := rfl

/-- The parsers are functions of the text. -/
def Functions (args : List TCmdArg) : Prop := ∀ arg ∈ args, ∀ s, ∃ v, arg.parse s = pure v

/-- Values of arguments are taken from a text, up to the arguments `args'` and the text `r`: each one behind
white space, by a parser that moves `*end` forward to white space or the end. -/
inductive Takes : List TCmdArg → Cstr → List ArgVal → List TCmdArg → Cstr → Prop
  | none (args : List TCmdArg) (s : Cstr) : Takes args s [] args s
  | arg {arg : TCmdArg} {args args' : List TCmdArg} {s r : Cstr} {v : ArgVal} {n : ℕ} {vs : List ArgVal}
      (ne : (skipSpace s).bytes ≠ []) (parse : arg.parse (skipSpace s) = pure (v, n)) (moves : n ≠ 0)
      (ends : (skipSpace s).byte n = 0 ∨ isspace ((skipSpace s).byte n) = true)
      (rest : Takes args ((skipSpace s).drop n) vs args' r) : Takes (arg :: args) s (v :: vs) args' r

/-- The text has the arguments with these values. The last ones are absent if they are optional, and there
may be white space in front and behind. -/
def WellFormed (args : List TCmdArg) (s : Cstr) (vs : List ArgVal) : Prop :=
  ∃ args' r, Takes args s vs args' r ∧ (∀ b ∈ r.bytes, isspace b = true) ∧ ∀ arg ∈ args', arg.opt = true

theorem Takes.unique (h : Takes args s vs args' r) (h' : Takes args s vs args'' r') :
    args' = args'' ∧ r = r' := by
  induction h with
  | none args s =>
    cases h'
    exact ⟨rfl, rfl⟩
  | arg _ parse _ _ _ ih =>
    cases h' with
    | arg _ parse' _ _ rest' =>
      obtain ⟨-, rfl⟩ := Prod.mk.inj (Prog.pure_inj (parse.symm.trans parse'))
      exact ih rest'

theorem Takes.argLoop (h : Takes args s vs [] r) (m : ℕ) (argv : List ArgVal) :
    argLoop args s m argv = pure (some (argv ++ vs, r, m)) := by
  generalize hargs : ([] : List TCmdArg) = args' at h
  induction h generalizing argv with
  | none args s =>
    subst hargs
    rw [Dudlc.argLoop, List.append_nil]
  | @arg arg args args' s r v n vs ne parse moves ends rest ih =>
    have hok : ¬ (n = 0 ∨ ((skipSpace s).byte n ≠ 0 ∧ (!isspace ((skipSpace s).byte n)) = true)) := by
      rcases ends with ends | ends <;> simp [moves, ends]
    have hstep : Dudlc.argLoop (arg :: args) s m argv =
        Dudlc.argLoop args ((skipSpace s).drop n) m (argv ++ [v]) := by
      rw [argLoop_cons, if_neg ne, parse]
      exact if_neg hok
    rw [hstep, ih (argv ++ [v]) hargs, List.append_assoc]
    rfl

theorem argLoop_takes (hargs : Functions args) {argv' : List ArgVal}
    (h : argLoop args s m argv = pure (some (argv', r, m))) :
    ∃ vs, argv' = argv ++ vs ∧ Takes args s vs [] r := by
  induction args generalizing s argv with
  | nil =>
    obtain ⟨rfl, rfl⟩ : argv = argv' ∧ s = r := by simpa [argLoop] using Prog.pure_inj h
    exact ⟨[], by simp, .none [] s⟩
  | cons arg args ih =>
    rw [argLoop_cons] at h
    split_ifs at h with hend
    · -- the argument is missing
      have hle := argLoop_makes args (skipSpace s) (m + 1) argv
      rw [h] at hle
      have := (hle argv' r m rfl).1
      omega
    · obtain ⟨⟨v, n⟩, hv⟩ := hargs arg List.mem_cons_self (skipSpace s)
      rw [hv] at h
      change (if n = 0 ∨ _ then _ else _) = _ at h
      split_ifs at h with hbad
      · cases Prog.pure_inj h
      obtain ⟨vs, rfl, htakes⟩ := ih (fun a ha => hargs a (List.mem_cons_of_mem _ ha)) h
      refine ⟨v :: vs, by simp, .arg hend hv (fun hn => hbad (Or.inl hn)) ?_ htakes⟩
      by_contra hno
      rw [not_or, Bool.not_eq_true] at hno
      exact hbad (Or.inr ⟨hno.1, congrArg not hno.2⟩)

/-- **The handler is called** when all arguments are taken, and nothing is left. -/
theorem argParse_iff {cmd : TCmd} (hargs : Functions cmd.args) (line : Cstr) (argv : List ArgVal) :
    argParse cmd line = pure (some argv) ↔ ∃ r, Takes cmd.args line argv [] r ∧ r.bytes = [] := by
  constructor
  · intro h
    obtain ⟨_ | ⟨argv', r, m⟩, hloop, hrest⟩ := Prog.bind_eq_pure h
    · cases Prog.pure_inj hrest
    dsimp only at hrest
    split_ifs at hrest with hr hm
    · cases Prog.pure_inj hrest
    · cases Prog.pure_inj hrest
    obtain rfl := Option.some.inj (Prog.pure_inj hrest)
    rw [not_not] at hr hm
    subst hm
    obtain ⟨vs, rfl, htakes⟩ := argLoop_takes hargs hloop
    exact ⟨r, htakes, hr⟩
  · rintro ⟨r, htakes, hr⟩
    rw [argParse, htakes.argLoop 0 []]
    change (if r.bytes ≠ [] then _ else if (0 : ℕ) ≠ 0 then _ else _) = _
    rw [if_neg (not_not.2 hr), if_neg (not_not.2 rfl), List.nil_append]

/-- **When the handler is called for the well-formed lines**: no optional argument of a well-formed line is
absent, and there is no white space behind the last argument. -/
theorem handler_iff (cmd : TCmd) (hargs : Functions cmd.args) (line : Cstr) :
    (∀ argv, argParse cmd line = pure (some argv) ↔ WellFormed cmd.args line argv) ↔
      ∀ vs args' r, Takes cmd.args line vs args' r → (∀ b ∈ r.bytes, isspace b = true) →
        (∀ arg ∈ args', arg.opt = true) → args' = [] ∧ r.bytes = [] := by
  simp only [argParse_iff hargs]
  constructor
  · intro h vs args' r htakes hblank hopt
    obtain ⟨r', htakes', hr'⟩ := (h vs).2 ⟨args', r, htakes, hblank, hopt⟩
    obtain ⟨rfl, rfl⟩ := htakes.unique htakes'
    exact ⟨rfl, hr'⟩
  · intro h argv
    constructor
    · rintro ⟨r, htakes, hr⟩
      exact ⟨[], r, htakes, by simp [hr], by simp⟩
    · rintro ⟨args', r, htakes, hblank, hopt⟩
      obtain ⟨rfl, hr⟩ := h argv args' r htakes hblank hopt
      exact ⟨r, htakes, hr⟩

theorem functions_bool : Functions argsBool := by
  rw [argsBool, Functions, List.forall_mem_singleton]
  exact fun s => ⟨_, rfl⟩

theorem parse_on {t : Cstr} (h : valEnum bools t = (1, 2)) : argBool.parse t = pure (.int 1, 2) := by
  change (pure (ArgVal.int (valEnum bools t).1, (valEnum bools t).2) : Client _) = _
  rw [h]

/-- The theorem at `randomset on`. -/
theorem handler_iff_randomset :
    argParse ⟨.lit "randomset", none, cRandomset, argsBool⟩ (.lit " on") = pure (some [.int 1]) := by
  have hon : argBool.parse (skipSpace (.lit " on")) = pure (.int 1, 2) := parse_on (by decide +kernel)
  have htakes : Takes argsBool (.lit " on") [.int 1] [] ((skipSpace (.lit " on")).drop 2) :=
    .arg (by decide) hon (by decide) (by decide) (.none ..)
  refine ((handler_iff ⟨.lit "randomset", none, cRandomset, argsBool⟩ functions_bool (.lit " on")).2 ?_ _).2
    ⟨[], _, htakes, List.forall_mem_nil _, List.forall_mem_nil _⟩
  intro vs args' r htakes' _ hopt
  cases htakes' with
  | none => exact absurd (hopt argBool List.mem_cons_self) (by decide)
  | arg _ parse _ _ rest =>
    obtain ⟨-, rfl⟩ := Prod.mk.inj (Prog.pure_inj (parse.symm.trans hon))
    cases rest
    exact ⟨rfl, by decide⟩

/-- **Two lines** that are well formed and refused: `history` without its number, which is optional, and
`randomset on` with a blank behind it. -/
theorem handler_refused :
    (WellFormed argsOnum (.lit "") [] ∧
      argParse ⟨.lit "history", none, cHistory, argsOnum⟩ (.lit "") = pure none) ∧
    WellFormed argsBool (.lit " on ") [.int 1] ∧
      argParse ⟨.lit "randomset", none, cRandomset, argsBool⟩ (.lit " on ") = pure none := by
  have hon : Takes argsBool (.lit " on ") [.int 1] [] ((skipSpace (.lit " on ")).drop 2) :=
    .arg (by decide) (parse_on (by decide +kernel)) (by decide) (by decide) (.none ..)
  refine ⟨⟨⟨argsOnum, .lit "", .none .., List.forall_mem_nil _, List.forall_mem_singleton.2 rfl⟩, rfl⟩,
    ⟨[], _, hon, List.forall_mem_singleton.2 rfl, List.forall_mem_nil _⟩, ?_⟩
  rw [argParse, hon.argLoop 0 []]
  rfl

end Dudlc
