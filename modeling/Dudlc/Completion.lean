import Dudlc.Lib.Generator
import Dudlc.Table

/-!
# Completion of commands

`lst_cmd` walks through the table of commands, and stops at the name and at the alias of an entry. The text
client completes from it and from commands of its own.

* `lstCmd`, `ttyCgenTop`: the generators with their static variables.
* `lstLeft`: what `lst_cmd` has still to return; `lstCmd_lists`, `topLoop_lists`.
* `ttyResult`: what the calls of `tty_cgen_top` return.
* **`completion_enumerates`**: the commands that a text is completed to.
-/

namespace Dudlc

open Lib

/-- `strncasecmp(a, b, n) == 0` -/
def ncaseEq (a b : Cstr) (n : ℕ) : Bool := (a.bytes.take n).map tolower == (b.bytes.take n).map tolower

/-! ## The generators -/

/-- The static variables of `lst_cmd`: the entries from `next` on, the length of the text, and whether the name
is next. -/
structure LstCmd where
  next : List TCmd
  len : ℕ
  nname : ℕ

/-- The loop in `lst_cmd`. The terminator of the table has no alias. -/
def lstLoop (text : Cstr) (len : ℕ) : List TCmd → ℕ → Option Cstr × LstCmd
  | [], nname => (none, ⟨[], len, nname⟩)
  | cmd :: next, nname =>
    if nname ≠ 0 then
      if ncaseEq cmd.name text len then (some cmd.name, ⟨cmd :: next, len, 0⟩)
      else lstLoop text len (cmd :: next) 0
    else
      match next.head?.bind TCmd.aliasName with
      | some a =>
        if ncaseEq a text len then (some a, ⟨next, len, nname + 1⟩) else lstLoop text len next (nname + 1)
      | none => lstLoop text len next (nname + 1)
  termination_by next nname => 2 * next.length + min nname 1

/-- `lst_cmd` -/
def lstCmd (text : Cstr) (state : ℕ) (s : LstCmd) : Option Cstr × LstCmd :=
  let s := if state = 0 then ⟨cmdsTop, text.bytes.length, 1⟩ else s
  lstLoop text s.len s.next s.nname

/-- `topcmds` -/
def topcmds : List Cstr := [.lit "quit", .lit "exit", .lit "user"]

/-- The static variables of `tty_cgen_top`. -/
structure TtyTop where
  next : List Cstr
  len : ℕ

/-- The loop in `tty_cgen_top`. -/
def topLoop (text : Cstr) (len : ℕ) : List Cstr → Option Cstr × TtyTop
  | [] => (none, ⟨[], len⟩)
  | w :: next => if ncaseEq text w len then (some w, ⟨next, len⟩) else topLoop text len next

/-- `tty_cgen_top`, with `lst_cmd` as the generator of the library. -/
def ttyCgenTop (text : Cstr) (state : ℕ) (p : LstCmd × TtyTop) : Option Cstr × LstCmd × TtyTop :=
  let t := if state = 0 then ⟨topcmds, text.bytes.length⟩ else p.2
  match lstCmd text state p.1 with
  | (some r, s) => (some r, s, t)
  | (none, s) => let (r, t) := topLoop text t.len t.next; (r, s, t)

/-- The static variables before the call `tty_cgen_top(text, k)` of those with the states 0, 1, .. -/
def ttyState (text : Cstr) (p : LstCmd × TtyTop) : ℕ → LstCmd × TtyTop
  | 0 => p
  | k + 1 => (ttyCgenTop text k (ttyState text p k)).2

/-- What the call `tty_cgen_top(text, k)` returns. -/
def ttyResult (text : Cstr) (p : LstCmd × TtyTop) (k : ℕ) : Option Cstr := (ttyCgenTop text k (ttyState text p k)).1

/-! ## What is still to come -/

/-- The text is the beginning of a word, up to case. -/
def Begins (text w : Cstr) : Prop := text.bytes.map tolower <+: w.bytes.map tolower

instance (text : Cstr) : DecidablePred (Begins text) := fun w =>
  inferInstanceAs (Decidable (text.bytes.map tolower <+: w.bytes.map tolower))

/-- The words of entries: the alias of each stands in front of its name. -/
def entryWords (l : List TCmd) : List Cstr := l.flatMap fun cmd => cmd.aliasName.toList ++ [cmd.name]

/-- The words that `lst_cmd` has still to look at. -/
def lstWords : List TCmd → ℕ → List Cstr
  | [], _ => []
  | cmd :: next, nname => (if nname ≠ 0 then [cmd.name] else []) ++ entryWords next

/-- The words that `lst_cmd` has still to return. -/
def lstLeft (text : Cstr) (s : LstCmd) : List Cstr := (lstWords s.next s.nname).filter (Begins text ·)

variable {text w : Cstr} {s : LstCmd} {t : TtyTop} {p : LstCmd × TtyTop}

theorem ncaseEq_left : ncaseEq w text text.bytes.length = true ↔ Begins text w := by
  rw [ncaseEq, beq_iff_eq, List.take_length, List.map_take, Begins, List.prefix_iff_eq_take, List.length_map, eq_comm]

theorem ncaseEq_right : ncaseEq text w text.bytes.length = true ↔ Begins text w := by
  rw [ncaseEq, beq_iff_eq, List.take_length, List.map_take, Begins, List.prefix_iff_eq_take, List.length_map]

theorem filter_begins (text w : Cstr) (l : List Cstr) : (w :: l).filter (Begins text ·) =
    if Begins text w then w :: l.filter (Begins text ·) else l.filter (Begins text ·) := by
  rw [List.filter_cons]
  simp only [decide_eq_true_eq]

theorem lstWords_name {cmd : TCmd} {next : List TCmd} {nname : ℕ} (h : nname ≠ 0) :
    lstWords (cmd :: next) nname = cmd.name :: lstWords (cmd :: next) 0 := by
  rw [lstWords, lstWords, if_pos h]
  rfl

theorem lstWords_alias (cmd : TCmd) (next : List TCmd) (nname : ℕ) :
    lstWords (cmd :: next) 0 = (next.head?.bind TCmd.aliasName).toList ++ lstWords next (nname + 1) := by
  cases next with
  | nil => rfl
  | cons c next =>
    rw [lstWords, lstWords, if_pos (Nat.succ_ne_zero nname), entryWords, List.flatMap_cons, List.append_assoc]
    rfl

theorem lstLoop_left (text : Cstr) (next : List TCmd) (nname : ℕ) :
    (lstLoop text text.bytes.length next nname).1 = ((lstWords next nname).filter (Begins text ·)).head? ∧
    lstLeft text (lstLoop text text.bytes.length next nname).2 = ((lstWords next nname).filter (Begins text ·)).tail ∧
    (lstLoop text text.bytes.length next nname).2.len = text.bytes.length := by
  fun_induction lstLoop text text.bytes.length next nname with
  | case1 nname => exact ⟨rfl, rfl, rfl⟩
  | case2 cmd next nname hname hfits =>
    rw [lstWords_name hname, filter_begins, if_pos (ncaseEq_left.1 hfits)]
    exact ⟨rfl, rfl, rfl⟩
  | case3 cmd next nname hname hfits ih =>
    rwa [lstWords_name hname, filter_begins, if_neg (mt ncaseEq_left.2 hfits)]
  | case4 cmd next nname hname a halias hfits =>
    rw [not_not.1 hname, lstWords_alias cmd next nname, halias, Option.toList_some, List.singleton_append,
      filter_begins, if_pos (ncaseEq_left.1 hfits)]
    rw [not_not.1 hname]
    exact ⟨rfl, rfl, rfl⟩
  | case5 cmd next nname hname a halias hfits ih =>
    rwa [not_not.1 hname, lstWords_alias cmd next 0, halias, Option.toList_some, List.singleton_append,
      filter_begins, if_neg (mt ncaseEq_left.2 hfits), ← not_not.1 hname]
  | case6 cmd next nname hname halias ih =>
    rwa [not_not.1 hname, lstWords_alias cmd next 0, halias, Option.toList_none, List.nil_append, ← not_not.1 hname]

theorem lstCmd_lists (text : Cstr) :
    Yields (lstCmd text 1) (fun s => s.len = text.bytes.length) (lstLeft text) := by
  have hstep : ∀ s : LstCmd, s.len = text.bytes.length →
      lstCmd text 1 s = lstLoop text text.bytes.length s.next s.nname := fun s hs => by
    rw [lstCmd, if_neg one_ne_zero, hs]
  refine ⟨fun s hs => ?_, fun s hs => ?_, fun s hs => ?_⟩
  · rw [hstep s hs]
    exact (lstLoop_left text s.next s.nname).1
  · rw [hstep s hs]
    exact (lstLoop_left text s.next s.nname).2.1
  · rw [hstep s hs]
    exact (lstLoop_left text s.next s.nname).2.2

theorem topLoop_left (text : Cstr) (next : List Cstr) :
    (topLoop text text.bytes.length next).1 = (next.filter (Begins text ·)).head? ∧
    (topLoop text text.bytes.length next).2.next.filter (Begins text ·) = (next.filter (Begins text ·)).tail ∧
    (topLoop text text.bytes.length next).2.len = text.bytes.length := by
  induction next with
  | nil => exact ⟨rfl, rfl, rfl⟩
  | cons w next ih =>
    rw [topLoop]
    by_cases hfits : ncaseEq text w text.bytes.length = true
    · rw [if_pos hfits, filter_begins, if_pos (ncaseEq_right.1 hfits)]
      exact ⟨rfl, rfl, rfl⟩
    · rwa [if_neg hfits, filter_begins, if_neg (mt ncaseEq_right.2 hfits)]

theorem topLoop_lists (text : Cstr) : Yields (fun t : TtyTop => topLoop text t.len t.next)
    (fun t => t.len = text.bytes.length) fun t => t.next.filter (Begins text ·) where
  head t ht := by rw [ht]; exact (topLoop_left text t.next).1
  tail t ht := by rw [ht]; exact (topLoop_left text t.next).2.1
  keeps t ht := by rw [ht]; exact (topLoop_left text t.next).2.2

/-! ## The calls -/

/-- The static variables when a completion starts. -/
def ttyStart (text : Cstr) : LstCmd × TtyTop := (⟨cmdsTop, text.bytes.length, 1⟩, ⟨topcmds, text.bytes.length⟩)

/-- The words that a text is completed to. -/
def completions (text : Cstr) : List Cstr :=
  (lstWords cmdsTop 1).filter (Begins text ·) ++ topcmds.filter (Begins text ·)

theorem ttyCgenTop_behind (text : Cstr) :
    ttyCgenTop text 1 = followedBy (lstCmd text 1) fun t : TtyTop => topLoop text t.len t.next := by
  funext p
  rw [ttyCgenTop, followedBy, if_neg one_ne_zero]
  rcases lstCmd text 1 p.1 with ⟨_ | r, s⟩ <;> rfl

theorem ttyCgenTop_lists (text : Cstr) : Yields (ttyCgenTop text 1)
    (fun p => p.1.len = text.bytes.length ∧ p.2.len = text.bytes.length)
    fun p => lstLeft text p.1 ++ p.2.next.filter (Begins text ·) :=
  ttyCgenTop_behind text ▸ (lstCmd_lists text).followedBy (topLoop_lists text)

theorem lstCmd_zero (text : Cstr) (s : LstCmd) : lstCmd text 0 s = lstCmd text 1 (ttyStart text).1 := by
  simp only [lstCmd, if_true, one_ne_zero, if_false, ttyStart]

theorem ttyCgenTop_zero (text : Cstr) (p : LstCmd × TtyTop) : ttyCgenTop text 0 p = ttyCgenTop text 1 (ttyStart text) := by
  simp only [ttyCgenTop, lstCmd_zero, if_true, one_ne_zero, if_false]
  rfl

theorem ttyCgenTop_succ (text : Cstr) (k : ℕ) (p : LstCmd × TtyTop) : ttyCgenTop text (k + 1) p = ttyCgenTop text 1 p := by
  rw [ttyCgenTop, ttyCgenTop, lstCmd, lstCmd, if_neg (Nat.succ_ne_zero k), if_neg (Nat.succ_ne_zero k),
    if_neg one_ne_zero, if_neg one_ne_zero]

theorem ttyState_succ (text : Cstr) (p : LstCmd × TtyTop) (k : ℕ) :
    ttyState text p (k + 1) = stateAt (ttyCgenTop text 1) (ttyStart text) (k + 1) := by
  induction k with
  | zero => rw [ttyState, ttyState, ttyCgenTop_zero]; rfl
  | succ k ih => rw [ttyState, ttyCgenTop_succ, ih]; rfl

theorem ttyResult_eq (text : Cstr) (p : LstCmd × TtyTop) (k : ℕ) : ttyResult text p k = (completions text)[k]? := by
  have hlists := (ttyCgenTop_lists text).resultAt_eq (s := ttyStart text) ⟨rfl, rfl⟩ k
  have hleft : completions text = lstLeft text (ttyStart text).1 ++ (ttyStart text).2.next.filter (Begins text ·) := rfl
  rw [hleft, ← hlists, resultAt, ttyResult]
  cases k with
  | zero => rw [ttyCgenTop_zero]; rfl
  | succ k => rw [ttyCgenTop_succ, ttyState_succ]

/-! ## The words -/

/-- The word is the name or the alias of an entry. -/
def TCmd.Called (cmd : TCmd) (w : Cstr) : Prop := cmd.name = w ∨ cmd.aliasName = some w

theorem mem_entryWords {l : List TCmd} : w ∈ entryWords l ↔ ∃ cmd ∈ l, cmd.Called w := by
  simp only [entryWords, List.mem_flatMap, List.mem_append, Option.mem_toList, List.mem_singleton, TCmd.Called,
    eq_comm (a := w), or_comm]

theorem mem_lstWords : w ∈ lstWords cmdsTop 1 ↔ ∃ cmd ∈ cmdsTop, cmd.Called w := by
  have hfirst : lstWords cmdsTop 1 = entryWords cmdsTop := rfl
  rw [hfirst, mem_entryWords]

theorem lstWords_nodup : (lstWords cmdsTop 1).Nodup := by decide +kernel

theorem topcmds_nodup : topcmds.Nodup := by decide

theorem cmdFind_called {cmd : TCmd} (hmem : cmd ∈ cmdsTop) (h : cmd.Called w) :
    ∃ cmd', cmdFind w = some cmd' ∧ cmd'.Called w := by
  have hfind : (cmdFind w).isSome := by
    rw [cmdFind, List.find?_isSome]
    exact ⟨cmd, hmem, by simpa [TCmd.Called] using h⟩
  obtain ⟨cmd', hcmd⟩ := Option.isSome_iff_exists.1 hfind
  exact ⟨cmd', hcmd, by simpa [TCmd.Called] using List.find?_some hcmd⟩

/-- **Completion enumerates the commands** that the text begins, and then those of the client: the calls return
each of them once, and NULL behind them. Every command of the table is found by its word. -/
theorem completion_enumerates (text : Cstr) (p : LstCmd × TtyTop) : ∃ found locals : List Cstr,
    (∀ k, ttyResult text p k = (found ++ locals)[k]?) ∧
    found.Nodup ∧ (∀ w, w ∈ found ↔ (∃ cmd ∈ cmdsTop, cmd.Called w) ∧ Begins text w) ∧
    locals.Nodup ∧ (∀ w, w ∈ locals ↔ w ∈ topcmds ∧ Begins text w) ∧
    ∀ w ∈ found, ∃ cmd, cmdFind w = some cmd ∧ cmd.Called w := by
  have hfound : ∀ w, w ∈ (lstWords cmdsTop 1).filter (Begins text ·) ↔
      (∃ cmd ∈ cmdsTop, cmd.Called w) ∧ Begins text w := fun w => by
    rw [List.mem_filter, mem_lstWords, decide_eq_true_iff]
  refine ⟨_, _, ttyResult_eq text p, lstWords_nodup.filter _, hfound, topcmds_nodup.filter _, fun w => ?_,
    fun w hw => ?_⟩
  · rw [List.mem_filter, decide_eq_true_iff]
  · obtain ⟨⟨cmd, hmem, hcalled⟩, -⟩ := (hfound w).1 hw
    exact cmdFind_called hmem hcalled

end Dudlc
