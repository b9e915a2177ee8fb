import Dudlc.Session

/-!
# Iterators

`iterate.c`: `_duc_it_newv` sends a command, converts every line of its reply and keeps the records in
a list; `_duc_it_cur` and `_duc_it_next` walk the list. A NULL record is an element of the list like
every other, and the walk ends at the first one. Allocation succeeds.

* `DucIter`, `ducItNewv`, `ducItCur`, `ducItNext`.
* `collect_stop`, `collect_step`, `collect_end`: the loop of `_duc_it_newv` line by line; `itCollect_rule`.
* `ducItNewv_cases`: the parts of `_duc_it_newv`.
* `walk`: the records a caller sees; `walk_eq`.
* `Cmd`, `runCmd`: the command helpers of `proto.c` and `iterate.c` as one type.
-/

namespace Dudlc

open Lib

variable {ρ : Type}

/-- `_duc_iter`: the data pointers of its list, `none` for NULL. -/
structure DucIter (ρ : Type) where
  list : List (Option ρ)
  deriving DecidableEq

/-- One round of the loop in `_duc_it_newv`, with the records so far. It ends with the list, or without
one at `clean2`. -/
def itBody (ev : Handlers) (conv : Converter ρ) (p : World × List (Option ρ)) :
    Option (World × List (Option ρ) ⊕ Option (List (Option ρ)) × World) := do
  match p.1.line with
  | none => return .inr (none, p.1)
  | some _ =>
    let (data, atEnd) := conv (← p.1.rline)
    if atEnd ≠ 0 then return .inr (none, p.1)
    let (r, w) ← ducRnext ev p.1
    if 0 ≤ r then return .inl (w, p.2 ++ [data]) else return .inr (some (p.2 ++ [data]), w)

/-- The loop in `_duc_it_newv` and what follows it: a list that is given up is followed by the rest of
the reply. -/
def itCollect (ev : Handlers) (conv : Converter ρ) (p : World × List (Option ρ)) :
    Option (Option (DucIter ρ) × World) := do
  match ← loop (itBody ev conv) (pending p.1 + 1) p with
  | (some rows, w) => return (some ⟨rows⟩, w)
  | (none, w) =>
    let (_, w) ← ducRlast ev w
    return (none, w)

/-- `_duc_it_newv` -/
def ducItNewv (ev : Handlers) (conv : Converter ρ) (w : World) (cmd : Cstr) (ap : List Arg) :
    Option (Option (DucIter ρ) × World) := do
  let (r, w) ← ducVsend ev w cmd ap
  if r ≠ 0 then return (none, w)
  else
    let (r, w) ← ducRnext ev w
    if r ≠ 0 then return (none, w)
    else if (← w.rcode) = 53 then
      let (_, w) ← ducRlast ev w
      return (none, w)
    else itCollect ev conv (w, [])

/-- **A round of the loop in `_duc_it_newv`**: there is no line or one that is not converted completely, or
the next line of the reply is read. -/
theorem itBody_cases {ev : Handlers} {conv : Converter ρ} {p : World × List (Option ρ)}
    {x : World × List (Option ρ) ⊕ Option (List (Option ρ)) × World} (h : itBody ev conv p = some x) :
    x = .inr (none, p.1) ∨
    ∃ t r w', p.1.rline = some t ∧ (conv t).2 = 0 ∧ ducRnext ev p.1 = some (r, w') ∧
      ((r = 0 ∧ x = .inl (w', p.2 ++ [(conv t).1])) ∨
        (r < 0 ∧ x = .inr (some (p.2 ++ [(conv t).1]), w'))) := by
  unfold itBody at h
  cases hl : p.1.line with
  | none =>
    simp only [hl] at h
    exact Or.inl (Option.some.inj h).symm
  | some i =>
    simp only [hl, Option.bind_eq_bind, Option.bind_eq_some_iff, Option.pure_def] at h
    obtain ⟨t, ht, h⟩ := h
    split_ifs at h with hend
    · exact Or.inl (Option.some.inj h).symm
    rw [Option.bind_eq_some_iff] at h
    obtain ⟨⟨r, w'⟩, hr, h⟩ := h
    refine Or.inr ⟨t, r, w', ht, not_not.1 hend, hr, ?_⟩
    split_ifs at h with hr0
    · refine Or.inl ⟨?_, (Option.some.inj h).symm⟩
      rcases ducRnext_cases hr with ⟨-, h, -⟩ | ⟨-, -, h⟩ | ⟨_, _, _, -, -, ⟨-, -, h, -⟩ | ⟨-, h, -⟩⟩ <;>
        omega
    · exact Or.inr ⟨not_le.1 hr0, (Option.some.inj h).symm⟩

theorem it_fuel {ev : Handlers} {conv : Converter ρ} {p : World × List (Option ρ)} {n : ℕ}
    (hn : pending p.1 < n) :
    loop (itBody ev conv) n p = loop (itBody ev conv) (pending p.1 + 1) p := by
  refine loop_fuel (fun q => pending q.1) (fun q q' h => ?_) n _ p hn (Nat.lt_succ_self _)
  rcases itBody_cases h with h | ⟨t, r, w', -, -, hr, ⟨rfl, h⟩ | ⟨-, h⟩⟩ <;> cases h
  exact rnext_pending hr

section Collect

variable {ev : Handlers} {conv : Converter ρ} {w w' : World} {rows : List (Option ρ)} {t : List UInt8}

theorem World.line_of_rline (h : w.rline = some t) : ∃ i, w.line = some i := by
  unfold World.rline at h
  cases hl : w.line with
  | none => rw [hl] at h; cases h
  | some i => exact ⟨i, rfl⟩

theorem itBody_eq (ht : w.rline = some t) : itBody ev conv (w, rows) =
    if (conv t).2 ≠ 0 then some (.inr (none, w))
    else (ducRnext ev w).bind fun p =>
      if 0 ≤ p.1 then some (.inl (p.2, rows ++ [(conv t).1]))
      else some (.inr (some (rows ++ [(conv t).1]), p.2)) := by
  obtain ⟨i, hi⟩ := World.line_of_rline ht
  simp only [itBody, hi, ht, Option.bind_eq_bind, Option.bind_some, Option.pure_def]

theorem collect_stop (ht : w.rline = some t) (h : (conv t).2 ≠ 0) :
    itCollect ev conv (w, rows) = (ducRlast ev w).map fun p => (none, p.2) := by
  have hb : itBody ev conv (w, rows) = some (.inr (none, w)) := by rw [itBody_eq ht, if_pos h]
  simp only [itCollect, loop_succ_inr hb, Option.bind_eq_bind, Option.bind_some, Option.pure_def]
  cases ducRlast ev w <;> rfl

theorem collect_step (ht : w.rline = some t) (h : (conv t).2 = 0) (hr : ducRnext ev w = some (0, w')) :
    itCollect ev conv (w, rows) = itCollect ev conv (w', rows ++ [(conv t).1]) := by
  have hb : itBody ev conv (w, rows) = some (.inl (w', rows ++ [(conv t).1])) := by
    rw [itBody_eq ht, if_neg (not_not.2 h), hr]
    rfl
  have hfuel : loop (itBody ev conv) (pending w) (w', rows ++ [(conv t).1]) = _ :=
    it_fuel (p := (w', rows ++ [(conv t).1])) (rnext_pending hr)
  simp only [itCollect, loop_succ_inl hb, hfuel]

theorem collect_end {r : ℤ} (ht : w.rline = some t) (h : (conv t).2 = 0)
    (hr : ducRnext ev w = some (r, w')) (hneg : r < 0) :
    itCollect ev conv (w, rows) = some (some ⟨rows ++ [(conv t).1]⟩, w') := by
  have hb : itBody ev conv (w, rows) = some (.inr (some (rows ++ [(conv t).1]), w')) := by
    rw [itBody_eq ht, if_neg (not_not.2 h), hr, Option.bind_some, if_neg (not_le.2 hneg)]
  simp only [itCollect, loop_succ_inr hb, Option.bind_eq_bind, Option.bind_some, Option.pure_def]

/-- **The rule of the loop in `_duc_it_newv`.** `I` is kept while reply lines are read; then no line is left
or `_duc_rnext` fails, or the rest of the reply is read. -/
theorem itCollect_rule {I Q : World → Prop} {it : Option (DucIter ρ)} (hw : I w)
    (hstep : ∀ u v, I u → ducRnext ev u = some (0, v) → I v)
    (hend : ∀ u r v, I u → ducRnext ev u = some (r, v) → r < 0 → Q v)
    (hrest : ∀ u r v, I u → ducRlast ev u = some (r, v) → Q v)
    (h : itCollect ev conv (w, rows) = some (it, w')) : Q w' := by
  simp only [itCollect, Option.bind_eq_bind, Option.bind_eq_some_iff] at h
  obtain ⟨⟨rs, u⟩, hloop, h⟩ := h
  have hu : (rs = none ∧ I u) ∨ (rs.isSome ∧ Q u) := by
    refine loop_partial (fun p : World × List (Option ρ) => I p.1)
      (fun b : Option (List (Option ρ)) × World => (b.1 = none ∧ I b.2) ∨ (b.1.isSome ∧ Q b.2))
      ?_ ?_ _ (w, rows) _ hw hloop
    · intro p p' hp hb
      rcases itBody_cases hb with h | ⟨t, r, v, -, -, hr, ⟨rfl, h⟩ | ⟨-, h⟩⟩ <;> cases h
      exact hstep p.1 v hp hr
    · intro p b hp hb
      rcases itBody_cases hb with h | ⟨t, r, v, -, -, hr, ⟨rfl, h⟩ | ⟨hneg, h⟩⟩ <;> cases h
      · exact Or.inl ⟨rfl, hp⟩
      · exact Or.inr ⟨rfl, hend p.1 r v hp hr hneg⟩
  rcases hu with ⟨rfl, hI⟩ | ⟨hsome, hQ⟩
  · simp only [Option.bind_eq_some_iff, Option.pure_def] at h
    obtain ⟨⟨q, v⟩, hl, h⟩ := h
    obtain ⟨-, rfl⟩ := Prod.mk.inj (Option.some.inj h)
    exact hrest u q v hI hl
  · obtain ⟨rs, rfl⟩ := Option.isSome_iff_exists.1 hsome
    exact (Prod.mk.inj (Option.some.inj h)).2 ▸ hQ

/-- **`_duc_it_newv`**: the command is not sent, no line of a reply is read, the reply is an error, or its
lines are collected. -/
theorem ducItNewv_cases {fmt : Cstr} {ap : List Arg} {it : Option (DucIter ρ)}
    (h : ducItNewv ev conv w fmt ap = some (it, w')) :
    (∃ q, ducVsend ev w fmt ap = some (q, w') ∧ q ≠ 0 ∧ it = none) ∨
    ∃ w₁ r w₂, ducVsend ev w fmt ap = some (0, w₁) ∧ ducRnext ev w₁ = some (r, w₂) ∧
      ((r ≠ 0 ∧ it = none ∧ w' = w₂) ∨
        (r = 0 ∧ w₂.rcode = some 53 ∧ it = none ∧ ∃ q, ducRlast ev w₂ = some (q, w')) ∨
        (r = 0 ∧ itCollect ev conv (w₂, []) = some (it, w'))) := by
  simp only [ducItNewv, Option.bind_eq_bind, Option.bind_eq_some_iff, Option.pure_def] at h
  obtain ⟨⟨q, w₁⟩, hv, h⟩ := h
  split_ifs at h with hq
  · obtain ⟨rfl, rfl⟩ := Prod.mk.inj (Option.some.inj h)
    exact Or.inl ⟨q, hv, hq, rfl⟩
  obtain rfl : q = 0 := not_not.1 hq
  rw [Option.bind_eq_some_iff] at h
  obtain ⟨⟨r, w₂⟩, hr, h⟩ := h
  refine Or.inr ⟨w₁, r, w₂, hv, hr, ?_⟩
  split_ifs at h with hr0
  · obtain ⟨rfl, rfl⟩ := Prod.mk.inj (Option.some.inj h)
    exact Or.inl ⟨hr0, rfl, rfl⟩
  rw [Option.bind_eq_some_iff] at h
  obtain ⟨c, hc, h⟩ := h
  split_ifs at h with h5
  · rw [Option.bind_eq_some_iff] at h
    obtain ⟨⟨p, w₃⟩, hl, h⟩ := h
    obtain ⟨rfl, rfl⟩ := Prod.mk.inj (Option.some.inj h)
    exact Or.inr (Or.inl ⟨not_not.1 hr0, h5 ▸ hc, rfl, p, hl⟩)
  · exact Or.inr (Or.inr ⟨not_not.1 hr0, h⟩)

end Collect

/-! ## Walking -/

/-- `_duc_it_cur` -/
def ducItCur (it : DucIter ρ) : Option ρ := it.list.head?.join

/-- `_duc_it_next` -/
def ducItNext (it : DucIter ρ) : Option ρ × DucIter ρ := (ducItCur ⟨it.list.tail⟩, ⟨it.list.tail⟩)

/-- The records from the current one on, up to the first NULL, in at most `n` steps. -/
def walkFrom : ℕ → DucIter ρ → List ρ
  | 0, _ => []
  | n + 1, it =>
    match ducItCur it with
    | none => []
    | some d => d :: walkFrom n (ducItNext it).2

/-- `_duc_it_cur` and then `_duc_it_next` until NULL. -/
def walk (it : DucIter ρ) : List ρ := walkFrom (it.list.length + 1) it

theorem walkFrom_eq {n : ℕ} {it : DucIter ρ} (hn : it.list.length < n) :
    walkFrom n it = (it.list.takeWhile Option.isSome).reduceOption := by
  induction n generalizing it with
  | zero => omega
  | succ n ih =>
    rcases it with ⟨_ | ⟨_ | d, ds⟩⟩
    · rfl
    · rfl
    · have : walkFrom n ⟨ds⟩ = _ := ih (Nat.lt_of_succ_lt_succ (show ds.length + 1 < n + 1 from hn))
      simp [walkFrom, ducItCur, ducItNext, this, List.reduceOption_cons_of_some]

/-- **Walking** gives the records before the first NULL. -/
theorem walk_eq (it : DucIter ρ) : walk it = (it.list.takeWhile Option.isSome).reduceOption :=
  walkFrom_eq (Nat.lt_succ_self _)

theorem walk_map_some {it : DucIter ρ} : (walk it).map some = it.list ↔ ∀ d ∈ it.list, d.isSome := by
  have hall : ∀ ds : List (Option ρ), (∀ d ∈ ds, d.isSome) → ds.reduceOption.map some = ds := by
    intro ds hds
    induction ds with
    | nil => rfl
    | cons d ds ih =>
      obtain ⟨r, rfl⟩ := Option.isSome_iff_exists.1 (hds d List.mem_cons_self)
      rw [List.reduceOption_cons_of_some, List.map_cons,
        ih fun e he => hds e (List.mem_cons_of_mem _ he)]
  rw [walk_eq, hall _ fun d hd => List.mem_takeWhile_imp hd]
  exact List.takeWhile_eq_self_iff

/-! ## All commands -/

/-- The command helpers, with their arguments. -/
inductive Helper (ρ : Type)
  | cmd
  | succ
  | string
  | int
  | conv (f : Converter ρ)
  | it (f : Converter ρ)

/-- A command: a helper, the format and its arguments. -/
structure Cmd (ρ : Type) where
  helper : Helper ρ
  fmt : Cstr
  args : List Arg

/-- What a command helper returns. -/
inductive Result (ρ : Type)
  | num (z : ℤ)
  | text (t : Option (List UInt8))
  | row (r : Option ρ)
  | list (it : Option (DucIter ρ))
  deriving DecidableEq

/-- A command helper is called. -/
def runCmd (ev : Handlers) (w : World) (c : Cmd ρ) : Option (Result ρ × World) :=
  match c.helper with
  | .cmd => (ducCmd ev w c.fmt c.args).map (Prod.map .num id)
  | .succ => (ducCmdSucc ev w c.fmt c.args).map (Prod.map .num id)
  | .string => (ducCmdString ev w c.fmt c.args).map (Prod.map .text id)
  | .int => (ducCmdInt ev w c.fmt c.args).map (Prod.map .num id)
  | .conv f => (ducCmdConv ev f w c.fmt c.args).map (Prod.map .row id)
  | .it f => (ducItNewv ev f w c.fmt c.args).map (Prod.map .list id)

end Dudlc
