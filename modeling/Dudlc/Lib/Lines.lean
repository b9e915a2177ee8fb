import Mathlib.Data.List.ReduceOption
import Mathlib.Data.List.TakeWhile
import Mathlib.Data.List.Induction
import Mathlib.Tactic

/-!
# Splitting a stream into lines

A line ends at the first symbol that satisfies `stop`; after it, every further symbol that satisfies
`eol` is skipped. A reader that sees the stream in pieces skips only what has arrived.

* `nextLine`: split the first line off; `nextLine_append`, `nextLine_eq_none`.
* `wire`: lines as they are sent, each followed by one `lf`; `nextLine_wire`.
* `toks`, `cut`: a stream as symbols and line ends, and the lines between these with the unfinished
  rest; `cut_toks_nextLine` reads the lines off one by one, `join_cut` is the way back.
* `feed`: the lines a reader gets from a stream cut into pieces; `feed_concat`.
* **`feed_eq_iff`**: two ways of cutting one stream give the same lines just when every run of line
  ends is cut equally often (`innerCuts`).
-/

namespace Lib

variable {α : Type*}

/-! ## One line -/

section Next

variable (stop eol : α → Bool)

/-- The first line and what is left after the line ends behind it. -/
def nextLine (u : List α) : Option (List α × List α) :=
  match u.dropWhile fun b => !stop b with
  | [] => none
  | _ :: r => some (u.takeWhile fun b => !stop b, r.dropWhile eol)

variable {stop eol}

theorem nextLine_append {l r : List α} {c : α} (hl : ∀ b ∈ l, stop b = false) (hc : stop c = true) :
    nextLine stop eol (l ++ c :: r) = some (l, r.dropWhile eol) := by
  have ht : (l ++ c :: r).takeWhile (fun b => !stop b) = l := by
    rw [List.takeWhile_append_of_pos (by simpa using hl)]
    simp [hc]
  have hd : (l ++ c :: r).dropWhile (fun b => !stop b) = c :: r := by
    rw [List.dropWhile_append_of_pos (by simpa using hl)]
    simp [hc]
  simp only [nextLine, hd, ht]

theorem nextLine_of_none {u : List α} (hu : ∀ b ∈ u, stop b = false) :
    nextLine stop eol u = none := by
  have : u.dropWhile (fun b => !stop b) = [] := by
    rw [List.dropWhile_eq_nil_iff]; simpa using hu
  simp only [nextLine, this]

theorem split_first (stop : α → Bool) (u : List α) : (∀ b ∈ u, stop b = false) ∨
    ∃ l c r, u = l ++ c :: r ∧ (∀ b ∈ l, stop b = false) ∧ stop c = true := by
  rcases h : u.dropWhile (fun b => !stop b) with _ | ⟨c, r⟩
  · left
    rw [List.dropWhile_eq_nil_iff] at h
    simpa using h
  · right
    refine ⟨u.takeWhile fun b => !stop b, c, r, ?_, fun b hb => ?_, ?_⟩
    · rw [← h, List.takeWhile_append_dropWhile]
    · simpa using List.mem_takeWhile_imp hb
    · have := List.head_dropWhile_not (fun b => !stop b) (h ▸ List.cons_ne_nil c r)
      simpa [h] using this

theorem nextLine_eq_none {u : List α} :
    nextLine stop eol u = none ↔ ∀ b ∈ u, stop b = false := by
  refine ⟨fun h => ?_, nextLine_of_none⟩
  rcases split_first stop u with hu | ⟨l, c, r, rfl, hl, hc⟩
  · exact hu
  · rw [nextLine_append hl hc] at h
    cases h

theorem nextLine_suffix {u l r : List α} (h : nextLine stop eol u = some (l, r)) : r <:+ u := by
  rcases split_first stop u with hu | ⟨l', c, r', rfl, hl, hc⟩
  · rw [nextLine_of_none hu] at h
    cases h
  · rw [nextLine_append hl hc, Option.some.injEq, Prod.mk.injEq] at h
    obtain ⟨-, rfl⟩ := h
    exact (List.dropWhile_suffix eol).trans ⟨l' ++ [c], by simp⟩

theorem nextLine_congr {stop' : α → Bool} {u : List α} (h : ∀ b ∈ u, stop b = stop' b) :
    nextLine stop eol u = nextLine stop' eol u := by
  rcases split_first stop u with hu | ⟨l, c, r, rfl, hl, hc⟩
  · rw [nextLine_of_none hu, nextLine_of_none fun b hb => h b hb ▸ hu b hb]
  · rw [nextLine_append hl hc, nextLine_append (fun b hb => h b (by simp [hb]) ▸ hl b hb)
      (h c (by simp) ▸ hc)]

theorem nextLine_length {u l r : List α} (h : nextLine stop eol u = some (l, r)) :
    l.length + r.length < u.length := by
  rcases split_first stop u with hu | ⟨l', c, r', rfl, hl, hc⟩
  · rw [nextLine_of_none hu] at h
    cases h
  · rw [nextLine_append hl hc, Option.some.injEq, Prod.mk.injEq] at h
    obtain ⟨rfl, rfl⟩ := h
    have := List.length_dropWhile_le eol r'
    simp only [List.length_append, List.length_cons]
    omega

end Next

/-! ## Lines on the wire -/

section Wire

variable (lf : α)

/-- Lines as they are sent. -/
def wire (ls : List (List α)) : List α := ls.flatMap fun l => l ++ [lf]

@[simp] theorem wire_nil : wire lf [] = [] := rfl

@[simp] theorem wire_cons (l : List α) (ls : List (List α)) :
    wire lf (l :: ls) = l ++ lf :: wire lf ls := by
  simp [wire]

theorem wire_append (ls ms : List (List α)) : wire lf (ls ++ ms) = wire lf ls ++ wire lf ms := by
  simp [wire]

variable {lf} {stop eol : α → Bool}

/-- A text whose first symbol, if any, is no line end. -/
def Fresh (eol : α → Bool) (u : List α) : Prop := ∀ b ∈ u.head?, eol b = false

theorem Fresh.dropWhile {u : List α} (h : Fresh eol u) : u.dropWhile eol = u := by
  cases u with
  | nil => rfl
  | cons b u => rw [List.dropWhile_cons, if_neg]; simpa using h b rfl

theorem Fresh.takeWhile {u : List α} (h : Fresh eol u) : u.takeWhile eol = [] := by
  cases u with
  | nil => rfl
  | cons b u => rw [List.takeWhile_cons, if_neg]; simpa using h b rfl

theorem Fresh.initial {u v : List α} (h : Fresh eol v) (huv : u <+: v) : Fresh eol u := by
  obtain ⟨w, rfl⟩ := huv
  cases u with
  | nil => simp [Fresh]
  | cons b u => simpa [Fresh] using h

theorem fresh_wire {ls : List (List α)} (hne : ∀ l ∈ ls, l ≠ [])
    (hls : ∀ l ∈ ls, ∀ b ∈ l, eol b = false) : Fresh eol (wire lf ls) := by
  cases ls with
  | nil => simp [Fresh]
  | cons l ls =>
    obtain ⟨b, l, rfl⟩ := List.exists_cons_of_ne_nil (hne l List.mem_cons_self)
    intro c hc
    obtain rfl : b = c := by simpa [wire] using hc
    exact hls _ List.mem_cons_self b List.mem_cons_self

/-- **Reading from a stream of lines.** Of a stream `l, …` a part `u` has arrived: either it holds no
line end yet, or `l` is the next line and what has arrived behind it is left. -/
theorem nextLine_wire {l u v r : List α} (hl : ∀ b ∈ l, stop b = false) (hlf : stop lf = true)
    (hr : Fresh eol r) (h : u ++ v = l ++ lf :: r) :
    ((∀ b ∈ u, stop b = false) ∧ ∃ w, v = w ++ lf :: r ∧ u ++ w = l) ∨
      ∃ u', u = l ++ lf :: u' ∧ u' ++ v = r ∧ nextLine stop eol u = some (l, u') := by
  rw [List.append_eq_append_iff] at h
  rcases h with ⟨w, rfl, rfl⟩ | ⟨w, rfl, hw⟩
  · exact Or.inl ⟨fun b hb => hl b (List.mem_append_left w hb), w, rfl, rfl⟩
  · cases w with
    | nil =>
      left
      rw [List.append_nil]
      exact ⟨hl, [], by simpa using hw.symm, by simp⟩
    | cons c u' =>
      obtain ⟨rfl, rfl⟩ : c = lf ∧ r = u' ++ v := by simpa [eq_comm] using hw
      exact Or.inr ⟨u', rfl, rfl, by
        rw [nextLine_append hl hlf, (hr.initial (List.prefix_append u' v)).dropWhile]⟩

end Wire

/-! ## All lines of a text -/

section Cut

variable (eol : α → Bool)

/-- Symbols and line ends: a run of line ends counts once, and not at all right after a line end. -/
def toks : Bool → List α → List (Option α)
  | _, [] => []
  | p, b :: u => if eol b then (if p then toks true u else none :: toks true u)
      else some b :: toks false u

/-- The lines between line ends, and the unfinished rest. -/
def cut : List (Option α) → List (List α) × List α
  | [] => ([], [])
  | none :: t => ([] :: (cut t).1, (cut t).2)
  | some b :: t =>
    match cut t with
    | ([], r) => ([], b :: r)
    | (l :: ls, r) => ((b :: l) :: ls, r)

/-- Lines and rest as symbols and line ends. -/
def join (p : List (List α) × List α) : List (Option α) :=
  (p.1.flatMap fun l => l.map some ++ [none]) ++ p.2.map some

theorem join_cut (t : List (Option α)) : join (cut t) = t := by
  induction t with
  | nil => rfl
  | cons x t ih =>
    cases x with
    | none => simpa [cut, join] using ih
    | some b =>
      rcases h : cut t with ⟨_ | ⟨l, ls⟩, r⟩ <;> rw [h] at ih <;> simpa [cut, h, join] using ih

theorem cut_map_append (p : List α) (t : List (Option α)) :
    cut (p.map some ++ t) =
      match cut t with
      | ([], r) => ([], p ++ r)
      | (l :: ls, r) => ((p ++ l) :: ls, r) := by
  induction p with
  | nil => rcases h : cut t with ⟨_ | ⟨l, ls⟩, r⟩ <;> simp [h]
  | cons b p ih =>
    rw [List.map_cons, List.cons_append, cut, ih]
    rcases h : cut t with ⟨_ | ⟨l, ls⟩, r⟩ <;> simp

/-- **Reading on.** The rest of one piece is the beginning of the next. -/
theorem cut_append (s t : List (Option α)) :
    cut (s ++ t) = ((cut s).1 ++ (cut ((cut s).2.map some ++ t)).1,
      (cut ((cut s).2.map some ++ t)).2) := by
  induction s with
  | nil => simp [cut]
  | cons x s ih =>
    cases x with
    | none => simp [cut, ih]
    | some b =>
      rw [List.cons_append, cut, ih, cut_map_append]
      rcases hs : cut s with ⟨_ | ⟨l, ls⟩, r⟩
      · simp only [cut, hs, List.nil_append, cut_map_append]
        rcases cut t with ⟨_ | ⟨m, ms⟩, q⟩ <;> simp
      · simp only [cut, hs, List.cons_append, cut_map_append]

variable {eol}

theorem toks_append_free {p : List α} (hp : ∀ b ∈ p, eol b = false) (u : List α) :
    toks eol false (p ++ u) = p.map some ++ toks eol false u := by
  induction p with
  | nil => rfl
  | cons b p ih =>
    simp [toks, hp b List.mem_cons_self, ih fun b hb => hp b (List.mem_cons_of_mem _ hb)]

theorem toks_true_dropWhile (u : List α) : toks eol true u = toks eol false (u.dropWhile eol) := by
  induction u with
  | nil => rfl
  | cons b u ih =>
    by_cases hb : eol b = true
    · simpa [toks, hb] using ih
    · simp [toks, hb]

theorem toks_nextLine {l u r : List α} (h : nextLine eol eol u = some (l, r)) :
    toks eol false u = l.map some ++ none :: toks eol false r := by
  rcases split_first eol u with hu | ⟨l', c, r', rfl, hl, hc⟩
  · rw [nextLine_of_none hu] at h
    cases h
  · rw [nextLine_append hl hc, Option.some.injEq, Prod.mk.injEq] at h
    obtain ⟨rfl, rfl⟩ := h
    rw [toks_append_free hl]
    simp [toks, hc, toks_true_dropWhile]

theorem cut_toks_nextLine {l u r : List α} (h : nextLine eol eol u = some (l, r)) :
    cut (toks eol false u) = (l :: (cut (toks eol false r)).1, (cut (toks eol false r)).2) := by
  rw [toks_nextLine h, cut_map_append]
  simp [cut]

theorem cut_toks_of_none {u : List α} (h : nextLine eol eol u = none) :
    cut (toks eol false u) = ([], u) := by
  have := toks_append_free (nextLine_eq_none.1 h) []
  rw [List.append_nil] at this
  rw [this, cut_map_append]
  simp [toks, cut]

theorem cut_toks_suffix (u : List α) : (cut (toks eol false u)).2 <:+ u := by
  induction hn : u.length using Nat.strong_induction_on generalizing u with
  | _ n ih =>
    rcases h : nextLine eol eol u with _ | ⟨l, r⟩
    · rw [cut_toks_of_none h]
    · rw [cut_toks_nextLine h]
      have hlt := nextLine_length h
      exact (ih r.length (by omega) r rfl).trans (nextLine_suffix h)

theorem cut_toks_rest (p : Bool) (u : List α) : ∀ b ∈ (cut (toks eol p u)).2, eol b = false := by
  induction u generalizing p with
  | nil => simp [toks, cut]
  | cons b u ih =>
    by_cases hb : eol b = true
    · cases p
      · simpa [toks, hb, cut] using ih true
      · simpa [toks, hb] using ih true
    · have ih := ih false
      simp only [toks, hb, if_false, cut, Bool.false_eq_true]
      rcases h : cut (toks eol false u) with ⟨_ | ⟨l, ls⟩, r⟩
      · rw [h] at ih
        intro c hc
        rcases List.mem_cons.1 hc with rfl | hc
        · simpa using hb
        · exact ih c hc
      · rw [h] at ih
        exact ih

end Cut

/-! ## Streams that arrive in pieces -/

section Feed

variable (eol : α → Bool)

/-- The symbols and line ends of a stream cut into pieces: a reader takes every piece anew. -/
def pieceToks (cs : List (List α)) : List (Option α) := cs.flatMap (toks eol false)

/-- The lines a reader gets from a stream cut into pieces, and the unfinished rest. -/
def feed (cs : List (List α)) : List (List α) × List α := cut (pieceToks eol cs)

variable {eol}

theorem feed_rest (cs : List (List α)) : ∀ b ∈ (feed eol cs).2, eol b = false := by
  unfold feed pieceToks
  induction cs using List.reverseRecOn with
  | nil => simp [cut]
  | append_singleton cs c ih =>
    rw [List.flatMap_append, List.flatMap_singleton, cut_append, ← toks_append_free ih]
    exact cut_toks_rest _ _

/-- **One more piece.** The unfinished rest and the new piece are read together. -/
theorem feed_concat (cs : List (List α)) (c : List α) :
    feed eol (cs ++ [c]) =
      ((feed eol cs).1 ++ (cut (toks eol false ((feed eol cs).2 ++ c))).1,
        (cut (toks eol false ((feed eol cs).2 ++ c))).2) := by
  rw [toks_append_free (feed_rest cs)]
  unfold feed pieceToks
  rw [List.flatMap_append, List.flatMap_singleton, cut_append]

theorem feed_suffix (cs : List (List α)) : (feed eol cs).2 <:+ cs.flatten := by
  induction cs using List.reverseRecOn with
  | nil => simp [feed, pieceToks, cut]
  | append_singleton cs c ih =>
    rw [feed_concat, List.flatten_append, List.flatten_singleton]
    obtain ⟨p, hp⟩ := ih
    exact (cut_toks_suffix _).trans ⟨p, by rw [← List.append_assoc, hp]⟩

/-! ### Cuts inside a run of line ends -/

variable (eol)

/-- The number of symbols that are no line ends. -/
def width (u : List α) : ℕ := u.countP fun b => !eol b

/-- The last symbol is a line end. -/
def endsEol (u : List α) : Bool := u.getLast?.any eol

/-- The first symbol is a line end. -/
def startsEol (u : List α) : Bool := u.head?.any eol

/-- How many cuts fall inside the run of line ends that follows the first `k` other symbols. -/
def innerCuts : ℕ → List (List α) → ℕ
  | k, c :: d :: cs =>
    (if endsEol eol c && startsEol eol d && width eol c == k then 1 else 0) +
      if width eol c ≤ k then innerCuts (k - width eol c) (d :: cs) else 0
  | _, _ => 0

/-- How many line ends stand behind exactly `k` symbols. -/
def brks : ℕ → List (Option α) → ℕ
  | _, [] => 0
  | 0, none :: t => brks 0 t + 1
  | 0, some _ :: _ => 0
  | k + 1, none :: t => brks (k + 1) t
  | k + 1, some _ :: t => brks k t

variable {eol}

theorem brks_append (k : ℕ) (s t : List (Option α)) :
    brks k (s ++ t) = brks k s +
      if s.reduceOption.length ≤ k then brks (k - s.reduceOption.length) t else 0 := by
  induction s generalizing k with
  | nil => simp [brks]
  | cons x s ih =>
    cases x with
    | none =>
      cases k with
      | zero => simp only [List.cons_append, brks, ih, List.reduceOption_cons_of_none]; omega
      | succ k => simp only [List.cons_append, brks, ih, List.reduceOption_cons_of_none]
    | some b =>
      cases k with
      | zero => simp [brks]
      | succ k =>
        simp only [List.cons_append, brks, ih, List.reduceOption_cons_of_some, List.length_cons,
          Nat.add_le_add_iff_right, Nat.add_sub_add_right]

/-- **The line ends behind each number of symbols determine where the line ends stand.** -/
theorem eq_of_brks {s t : List (Option α)} (hr : s.reduceOption = t.reduceOption)
    (hb : ∀ k, brks k s = brks k t) : s = t := by
  induction s generalizing t with
  | nil =>
    cases t with
    | nil => rfl
    | cons x t =>
      cases x with
      | none => simpa [brks] using hb 0
      | some b => simp [List.reduceOption_cons_of_some] at hr
  | cons x s ih =>
    cases x with
    | none =>
      have h0 := hb 0
      cases t with
      | nil => simp [brks] at h0
      | cons y t =>
        cases y with
        | some b => simp [brks] at h0
        | none =>
          rw [ih (by simpa using hr) fun k => ?_]
          cases k with
          | zero => simpa [brks] using h0
          | succ k => simpa [brks] using hb (k + 1)
    | some b =>
      cases t with
      | nil => simp [List.reduceOption_cons_of_some] at hr
      | cons y t =>
        cases y with
        | none => simpa [brks] using hb 0
        | some c =>
          rw [List.reduceOption_cons_of_some, List.reduceOption_cons_of_some, List.cons.injEq] at hr
          rw [hr.1, ih hr.2 fun k => by simpa [brks] using hb (k + 1)]

theorem reduceOption_map_some (u : List α) : (u.map some).reduceOption = u := by
  induction u with
  | nil => rfl
  | cons b u ih => rw [List.map_cons, List.reduceOption_cons_of_some, ih]

theorem reduceOption_toks (p : Bool) (u : List α) :
    (toks eol p u).reduceOption = u.filter fun b => !eol b := by
  induction u generalizing p with
  | nil => rfl
  | cons b u ih =>
    by_cases hb : eol b = true
    · cases p <;> simp [toks, hb, ih]
    · simp [toks, hb, ih, List.reduceOption_cons_of_some]

theorem reduceOption_pieceToks (cs : List (List α)) :
    (pieceToks eol cs).reduceOption = cs.flatten.filter fun b => !eol b := by
  induction cs with
  | nil => rfl
  | cons c cs ih =>
    rw [pieceToks, List.flatMap_cons, List.reduceOption_append, reduceOption_toks, ← pieceToks, ih,
      List.flatten_cons, List.filter_append]

theorem length_reduceOption_toks (p : Bool) (u : List α) :
    (toks eol p u).reduceOption.length = width eol u := by
  rw [reduceOption_toks, width, List.countP_eq_length_filter]

theorem toks_append (p : Bool) (c u : List α) (hc : c ≠ []) :
    toks eol p (c ++ u) = toks eol p c ++ toks eol (endsEol eol c) u := by
  induction c generalizing p with
  | nil => exact absurd rfl hc
  | cons b c ih =>
    by_cases hcn : c = []
    · subst hcn
      by_cases hb : eol b = true <;> cases p <;> simp [toks, hb, endsEol]
    · have he : endsEol eol (b :: c) = endsEol eol c := by
        obtain ⟨x, c, rfl⟩ := List.exists_cons_of_ne_nil hcn
        simp [endsEol, List.getLast?_cons_cons]
      by_cases hb : eol b = true <;> cases p <;> simp [toks, hb, ih _ hcn, he]

theorem brks_toks_false (k : ℕ) (p : Bool) (u : List α) :
    brks k (toks eol false u) = brks k (toks eol p u) +
      if p && startsEol eol u && k == 0 then 1 else 0 := by
  cases p with
  | false => simp
  | true =>
    cases u with
    | nil => simp [toks, startsEol]
    | cons b u =>
      by_cases hb : eol b = true
      · cases k <;> simp [toks, hb, startsEol, brks]
      · simp [toks, hb, startsEol]

/-- **A cut adds a line end just when it falls inside a run of line ends.** -/
theorem brks_pieceToks (k : ℕ) (cs : List (List α)) (hne : ∀ c ∈ cs, c ≠ []) :
    brks k (pieceToks eol cs) = brks k (toks eol false cs.flatten) + innerCuts eol k cs := by
  induction cs generalizing k with
  | nil => simp [pieceToks, toks, brks, innerCuts]
  | cons c cs ih =>
    have hc : c ≠ [] := hne c List.mem_cons_self
    have ih := fun k => ih k fun d hd => hne d (List.mem_cons_of_mem c hd)
    rw [pieceToks, List.flatMap_cons, ← pieceToks, List.flatten_cons, toks_append _ _ _ hc,
      brks_append, brks_append, length_reduceOption_toks]
    cases cs with
    | nil => simp [pieceToks, toks, brks, innerCuts]
    | cons d cs =>
      have hd : startsEol eol (d :: cs).flatten = startsEol eol d := by
        obtain ⟨b, d, rfl⟩ := List.exists_cons_of_ne_nil
          (hne d (List.mem_cons_of_mem c List.mem_cons_self))
        rfl
      by_cases hk : width eol c ≤ k
      · rw [if_pos hk, if_pos hk, ih, brks_toks_false _ (endsEol eol c) (d :: cs).flatten, hd, innerCuts, if_pos hk]
        have : (k - width eol c == 0) = (width eol c == k) := by
          rw [Bool.eq_iff_iff, beq_iff_eq, beq_iff_eq]; omega
        rw [this]
        omega
      · have : (width eol c == k) = false := by rw [beq_eq_false_iff_ne]; omega
        rw [if_neg hk, if_neg hk, innerCuts, if_neg hk, this]
        simp

/-- **The lines depend on the cuts only through the cuts inside runs of line ends.** -/
theorem feed_eq_iff {cs ds : List (List α)} (hcs : ∀ c ∈ cs, c ≠ []) (hds : ∀ d ∈ ds, d ≠ [])
    (h : cs.flatten = ds.flatten) :
    (feed eol cs).1 = (feed eol ds).1 ↔ ∀ k, innerCuts eol k cs = innerCuts eol k ds := by
  have hred : (pieceToks eol cs).reduceOption = (pieceToks eol ds).reduceOption := by
    rw [reduceOption_pieceToks, reduceOption_pieceToks, h]
  have hbrks : (∀ k, innerCuts eol k cs = innerCuts eol k ds) ↔
      ∀ k, brks k (pieceToks eol cs) = brks k (pieceToks eol ds) :=
    forall_congr' fun k => by rw [brks_pieceToks k cs hcs, brks_pieceToks k ds hds, h]; omega
  rw [hbrks]
  constructor
  · intro hlines
    have hrest : (feed eol cs).2 = (feed eol ds).2 := by
      rw [← join_cut (pieceToks eol cs), ← join_cut (pieceToks eol ds)] at hred
      simp only [feed] at hlines ⊢
      simpa [join, hlines, List.reduceOption_append, reduceOption_map_some] using hred
    have : pieceToks eol cs = pieceToks eol ds := by
      rw [← join_cut (pieceToks eol cs), ← join_cut (pieceToks eol ds)]
      exact congrArg join (Prod.ext hlines hrest)
    exact fun k => by rw [this]
  · intro hb
    simp only [feed]
    rw [eq_of_brks hred hb]

end Feed

end Lib
