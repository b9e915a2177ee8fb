import Dudlc.Completion

/-!
# Rows when memory runs out

`duc_cmd_queuealbum` and `get_commands` walk over an iterator, and let an array grow on the way. The rows of
the list are numbered here, so that each release can be written down.

* `each`: the loop over an iterator; `each_rule`.
* `ducItDone`: the records that `_duc_it_done` releases; `numbered`.
* `ducCmdQueuealbum`, `getCommands`, over the answers of `realloc`; `queuealbum_cases`, `commands_cases`.
* `DisposedOnce`: every row is released once, or kept.
* **`rowsReleased_iff`**: no row is released twice, just when every `realloc` that is reached succeeds;
  **`ducCmdQueuealbum_run_iff`**, **`getCommands_run_iff`**: so it is in the runs of the functions.
-/

namespace Dudlc

open Lib

variable {ρ σ : Type}

/-! ## Loops over an iterator -/

/-- `for( d = _duc_it_cur(it); d; d = _duc_it_next(it) )` in at most `n` rounds. A round ends with `.inr` for
`break`, which leaves the current row in the list. -/
def eachFrom (body : ρ → σ → σ ⊕ σ) : ℕ → DucIter ρ → σ → σ × DucIter ρ
  | 0, it, s => (s, it)
  | n + 1, it, s =>
    match ducItCur it with
    | none => (s, it)
    | some d =>
      match body d s with
      | .inl s' => eachFrom body n (ducItNext it).2 s'
      | .inr s' => (s', it)

/-- The loop over an iterator. -/
def each (body : ρ → σ → σ ⊕ σ) (it : DucIter ρ) (s : σ) : σ × DucIter ρ :=
  eachFrom body (it.list.length + 1) it s

/-- `_duc_it_done`: the records given to the function that releases them, where NULL is nothing to release. -/
def ducItDone (it : DucIter ρ) : List ρ := it.list.reduceOption

/-- The rows with their places in the list, from `k` on. -/
def numberFrom : ℕ → List (Option ρ) → List (Option (ℕ × ρ))
  | _, [] => []
  | k, d :: l => d.map (k, ·) :: numberFrom (k + 1) l

/-- The iterator with numbered rows. -/
def numbered (it : DucIter ρ) : DucIter (ℕ × ρ) := ⟨numberFrom 0 it.list⟩

/-- `_duc_it_newv` alone. -/
def askRows (conv : Converter ρ) (fmt : Cstr) (args : List Arg) : Client (Option (DucIter ρ)) := do
  match ← Prog.ask (.cmd ⟨.it conv, fmt, args⟩) with
  | .list it => return it
  | _ => .fault

/-! ## `duc_cmd_queuealbum` -/

/-- The variables of the first loop, and the rows it has released. -/
structure Queuealbum where
  ids : List ℤ
  total : ℕ
  freed : List ℕ
  deriving DecidableEq

/-- A round of the first loop in `duc_cmd_queuealbum`. `grows n` is the answer of `realloc` for `n` elements. -/
def queuealbumBody (grows : ℕ → Bool) (t : ℕ × DucTrack) (s : Queuealbum) : Queuealbum ⊕ Queuealbum :=
  if s.total ≤ s.ids.length then
    if grows (s.total + 10) then .inl ⟨s.ids ++ [t.2.id], s.total + 10, s.freed ++ [t.1]⟩
    else .inr ⟨s.ids, s.total + 10, s.freed ++ [t.1]⟩
  else .inl ⟨s.ids ++ [t.2.id], s.total, s.freed ++ [t.1]⟩

/-- The first loop in `duc_cmd_queuealbum`. -/
def queuealbumRows (grows : ℕ → Bool) (it : DucIter DucTrack) : Queuealbum × DucIter (ℕ × DucTrack) :=
  each (queuealbumBody grows) (numbered it) ⟨[], 0, []⟩

/-- The second loop in `duc_cmd_queuealbum`. -/
def queueIds : List ℤ → Client ℤ
  | [] => pure 0
  | id :: ids => do if (← ducCmdQueueadd id) < 0 then return -1 else queueIds ids

/-- The rows that are released, by the loop and then by `_duc_it_done`. -/
def Queuealbum.released (r : Queuealbum × DucIter (ℕ × DucTrack)) : List ℕ :=
  r.1.freed ++ (ducItDone r.2).map Prod.fst

/-- `duc_cmd_queuealbum`, with the rows it releases. -/
def ducCmdQueuealbum (grows : ℕ → Bool) (id : ℤ) : Client (ℤ × List ℕ) := do
  match ← askRows (lineConverter ducTrackParse) (.lit "tracksalbum %d") [.int id] with
  | none => return (-1, [])
  | some it =>
    let r := queuealbumRows grows it
    return (← queueIds r.1.ids, Queuealbum.released r)

/-! ## `get_commands` -/

/-- The array of `get_commands` with the places of its rows, and the rows the loop has released. -/
structure Commands where
  helpv : List (ℕ × Cstr)
  freed : List ℕ
  deriving DecidableEq

/-- A round of the loop in `get_commands`. -/
def commandsBody (grows : ℕ → Bool) (text : Cstr) (len : ℕ) (s : ℕ × Cstr) (c : Commands) : Commands ⊕ Commands :=
  if ncaseEq s.2 text len then
    if grows (c.helpv.length + 2) then .inl ⟨c.helpv ++ [s], c.freed⟩ else .inr ⟨c.helpv, c.freed ++ [s.1]⟩
  else .inl ⟨c.helpv, c.freed ++ [s.1]⟩

/-- The loop in `get_commands`. -/
def commandsRows (grows : ℕ → Bool) (text : Cstr) (it : DucIter Cstr) : Commands × DucIter (ℕ × Cstr) :=
  each (commandsBody grows text text.bytes.length) (numbered it) ⟨[], []⟩

/-- The rows that are released, by the loop and then by `_duc_it_done`. -/
def Commands.released (r : Commands × DucIter (ℕ × Cstr)) : List ℕ := r.1.freed ++ (ducItDone r.2).map Prod.fst

/-- `_duc_help_parse` -/
def ducHelpParse : Converter Cstr := fun t => (some (Cstr.ofBytes t), 0)

/-- `duc_cmd_help` -/
def ducCmdHelp : Client (Option (DucIter Cstr)) := askRows ducHelpParse (.lit "help") []

/-- `get_commands`, with the rows it releases. The array that it returns is NULL when it has no rows. -/
def getCommands (grows : ℕ → Bool) (text : Cstr) : Client (List (ℕ × Cstr) × List ℕ) := do
  match ← ducCmdHelp with
  | none => return ([], [])
  | some it =>
    let r := commandsRows grows text it
    return (r.1.helpv, Commands.released r)

theorem askIter_eq {p : Reader ρ} {fmt : Cstr} {args : List Arg} :
    askIter p fmt args = Option.map walk <$> askRows (lineConverter p) fmt args := by
  rw [askIter, askRows, Prog.map_bind]
  congr 1
  funext r
  cases r <;> rfl

/-! ## The rows of a list -/

/-- Every row is in just one of the two lists, once. NULL and what is not in the list are no rows. -/
def DisposedOnce (l : List (Option ρ)) (kept released : List ℕ) : Prop :=
  ∀ i, (kept ++ released).count i = if (l[i]?).join.isSome then 1 else 0

/-- The places of the rows. -/
def places (l : List (Option (ℕ × ρ))) : List ℕ := l.reduceOption.map Prod.fst

theorem count_places (l : List (Option ρ)) (k i : ℕ) :
    (places (numberFrom k l)).count i = if k ≤ i ∧ (l[i - k]?).join.isSome then 1 else 0 := by
  induction l generalizing k with
  | nil => simp [places, numberFrom]
  | cons d l ih =>
    have hrest : (places (numberFrom k (d :: l))).count i =
        (places (numberFrom (k + 1) l)).count i + if d.isSome ∧ k = i then 1 else 0 := by
      cases d with
      | none => simp [places, numberFrom, List.reduceOption_cons_of_none]
      | some d => simp [places, numberFrom, List.reduceOption_cons_of_some, List.count_cons]
    rw [hrest, ih]
    rcases lt_trichotomy i k with hlt | rfl | hgt
    · rw [if_neg (by omega), if_neg (by omega), if_neg (by omega)]
    · rw [if_neg (by omega)]
      simp
    · obtain ⟨j, rfl⟩ : ∃ j, i = k + 1 + j := ⟨i - (k + 1), by omega⟩
      rw [show k + 1 + j - k = j + 1 by omega, Nat.add_sub_cancel_left, List.getElem?_cons_succ]
      simp [show k ≤ k + 1 + j by omega, show k ≠ k + 1 + j by omega]

theorem disposedOnce_iff {l : List (Option ρ)} {kept released : List ℕ} :
    DisposedOnce l kept released ↔ (kept ++ released).Perm (places (numberFrom 0 l)) := by
  rw [List.perm_iff_count]
  refine forall_congr' fun i => ?_
  rw [count_places]
  simp

/-- **No row is released twice**, or released and kept. -/
theorem DisposedOnce.nodup {l : List (Option ρ)} {kept released : List ℕ} (h : DisposedOnce l kept released) :
    (kept ++ released).Nodup := by
  refine List.nodup_iff_count_le_one.2 fun i => ?_
  rw [h i]
  split_ifs <;> omega

/-! ## How the loops end -/

/-- **The loop over an iterator** ends behind the last row, or with a `break` at row `n`. `I` holds in front of
each row, and `B` after a `break`. -/
theorem each_rule {body : ρ → σ → σ ⊕ σ} {it : DucIter ρ} {s : σ} (I B : ℕ → σ → Prop) (h0 : I 0 s)
    (hstep : ∀ n d s, (walk it)[n]? = some d → I n s →
      (∃ s', body d s = .inl s' ∧ I (n + 1) s') ∨ ∃ s', body d s = .inr s' ∧ B n s') :
    ∃ s' n, each body it s = (s', ⟨it.list.drop n⟩) ∧
      ((n = (walk it).length ∧ I n s') ∨ (n < (walk it).length ∧ B n s')) := by
  obtain ⟨l⟩ := it
  induction l generalizing s I B with
  | nil => exact ⟨s, 0, rfl, Or.inl ⟨rfl, h0⟩⟩
  | cons d l ih =>
    cases d with
    | none => exact ⟨s, 0, rfl, Or.inl ⟨rfl, h0⟩⟩
    | some d =>
      have hwalk : walk ⟨some d :: l⟩ = d :: walk ⟨l⟩ := rfl
      have heach : each body ⟨some d :: l⟩ s = match body d s with
        | .inl s' => each body ⟨l⟩ s'
        | .inr s' => (s', ⟨some d :: l⟩) := rfl
      rw [hwalk] at hstep ⊢
      rw [heach]
      rcases hstep 0 d s rfl h0 with ⟨s', hs, hI⟩ | ⟨s', hs, hB⟩
      · obtain ⟨s'', n, hend, hn⟩ := ih (fun n => I (n + 1)) (fun n => B (n + 1)) hI fun n => hstep (n + 1)
        rw [hs]
        refine ⟨s'', n + 1, hend, ?_⟩
        simpa using hn
      · rw [hs]
        exact ⟨s', 0, rfl, Or.inr ⟨Nat.succ_pos _, hB⟩⟩

theorem places_split {it : DucIter (ℕ × ρ)} {n : ℕ} (hn : n ≤ (walk it).length) :
    places it.list = ((walk it).take n).map Prod.fst ++ places (it.list.drop n) := by
  obtain ⟨l⟩ := it
  induction l generalizing n with
  | nil => simp [walk_eq]
  | cons d l ih =>
    rcases n with _ | n
    · simp
    cases d with
    | none => simp [walk_eq] at hn
    | some d =>
      have hwalk : walk ⟨some d :: l⟩ = d :: walk ⟨l⟩ := rfl
      rw [hwalk, List.length_cons, Nat.add_le_add_iff_right] at hn
      unfold places at ih ⊢
      rw [hwalk, List.reduceOption_cons_of_some, List.map_cons, ih hn]
      rfl

theorem walk_numbered (it : DucIter ρ) : (walk (numbered it)).map Prod.snd = walk it := by
  obtain ⟨l⟩ := it
  suffices h : ∀ k, (walk ⟨numberFrom k l⟩).map Prod.snd = walk ⟨l⟩ from h 0
  induction l with
  | nil => exact fun _ => rfl
  | cons d l ih =>
    intro k
    cases d with
    | none => rfl
    | some d => exact congrArg (d :: ·) (ih (k + 1))

section Ends

variable {grows : ℕ → Bool} {text : Cstr} {it : DucIter DucTrack} {help : DucIter Cstr}

/-- The loop in `duc_cmd_queuealbum` in front of row `n`: it has taken the rows so far. -/
structure AlbumTaken (ts : List (ℕ × DucTrack)) (grows : ℕ → Bool) (n : ℕ) (s : Queuealbum) : Prop where
  ids : s.ids = (ts.take n).map fun t => t.2.id
  freed : s.freed = (ts.take n).map Prod.fst
  total : s.total = 10 * ((n + 9) / 10)
  grown : ∀ k, 10 * k < n → grows (10 * k + 10) = true

/-- The loop in `duc_cmd_queuealbum` after a `break` at row `n`: this row is released as well. -/
structure AlbumLost (ts : List (ℕ × DucTrack)) (grows : ℕ → Bool) (n : ℕ) (s : Queuealbum) : Prop where
  ids : s.ids = (ts.take n).map fun t => t.2.id
  freed : s.freed = (ts.take (n + 1)).map Prod.fst
  lost : ∃ k, n = 10 * k ∧ grows (10 * k + 10) = false

/-- **The loop in `duc_cmd_queuealbum`** takes every row, or a `realloc` fails. -/
theorem queuealbum_cases (grows : ℕ → Bool) (it : DucIter DucTrack) :
    ∃ s n, queuealbumRows grows it = (s, ⟨(numbered it).list.drop n⟩) ∧
      ((n = (walk (numbered it)).length ∧ AlbumTaken (walk (numbered it)) grows n s) ∨
        (n < (walk (numbered it)).length ∧ AlbumLost (walk (numbered it)) grows n s)) := by
  refine each_rule _ _ ⟨rfl, rfl, rfl, fun k hk => by omega⟩ fun n t s ht h => ?_
  have hn : n < (walk (numbered it)).length := (List.getElem?_eq_some_iff.1 ht).1
  have hlen : s.ids.length = n := by
    rw [h.ids, List.length_map, List.length_take]
    omega
  have hids : s.ids ++ [t.2.id] = ((walk (numbered it)).take (n + 1)).map fun t => t.2.id := by
    rw [h.ids, List.take_add_one, ht, List.map_append]
    rfl
  have hfreed : s.freed ++ [t.1] = ((walk (numbered it)).take (n + 1)).map Prod.fst := by
    rw [h.freed, List.take_add_one, ht, List.map_append]
    rfl
  have htotal := h.total
  unfold queuealbumBody
  split_ifs with hfull hgrows
  · -- the array was full, so `n` is a multiple of ten
    refine Or.inl ⟨_, rfl, hids, hfreed, by dsimp only; omega, fun k hk => ?_⟩
    rcases lt_or_ge (10 * k) n with hlt | hge
    · exact h.grown k hlt
    · rwa [show 10 * k + 10 = s.total + 10 by omega]
  · refine Or.inr ⟨_, rfl, h.ids, hfreed, n / 10, by omega, ?_⟩
    rwa [← Bool.not_eq_true, show 10 * (n / 10) + 10 = s.total + 10 by omega]
  · exact Or.inl ⟨_, rfl, hids, hfreed, by dsimp only; omega, fun k hk => h.grown k (by omega)⟩

/-- The loop in `get_commands` in front of row `n`. -/
structure HelpKept (hs : List (ℕ × Cstr)) (fits : Cstr → Bool) (grows : ℕ → Bool) (n : ℕ) (c : Commands) : Prop where
  helpv : c.helpv = (hs.take n).filter fun s => fits s.2
  freed : c.freed = ((hs.take n).filter fun s => !fits s.2).map Prod.fst
  grown : ∀ k < c.helpv.length, grows (k + 2) = true

/-- The loop in `get_commands` after a `break` at row `n`. -/
structure HelpLost (hs : List (ℕ × Cstr)) (fits : Cstr → Bool) (grows : ℕ → Bool) (n : ℕ) (c : Commands) : Prop where
  helpv : c.helpv = (hs.take n).filter fun s => fits s.2
  freed : ∃ s, hs[n]? = some s ∧ fits s.2 = true ∧
    c.freed = ((hs.take n).filter fun s => !fits s.2).map Prod.fst ++ [s.1]
  lost : grows (c.helpv.length + 2) = false

/-- **The loop in `get_commands`** takes every row that fits, or a `realloc` fails. -/
theorem commands_cases (grows : ℕ → Bool) (text : Cstr) (help : DucIter Cstr) :
    ∃ c n, commandsRows grows text help = (c, ⟨(numbered help).list.drop n⟩) ∧
      ((n = (walk (numbered help)).length ∧
          HelpKept (walk (numbered help)) (ncaseEq · text text.bytes.length) grows n c) ∨
        (n < (walk (numbered help)).length ∧
          HelpLost (walk (numbered help)) (ncaseEq · text text.bytes.length) grows n c)) := by
  refine each_rule _ _ ⟨rfl, rfl, fun k hk => absurd hk (Nat.not_lt_zero k)⟩ fun n s c hs h => ?_
  unfold commandsBody
  split_ifs with hfits hgrows
  · refine Or.inl ⟨_, rfl, ?_, ?_, fun k hk => ?_⟩
    · simp [h.helpv, List.take_add_one, hs, hfits]
    · simp [h.freed, List.take_add_one, hs, hfits]
    · rw [List.length_append, List.length_singleton] at hk
      rcases lt_or_eq_of_le (Nat.lt_succ_iff.1 hk) with hlt | rfl
      · exact h.grown k hlt
      · exact hgrows
  · exact Or.inr ⟨_, rfl, h.helpv, ⟨s, hs, hfits, by rw [h.freed]⟩, Bool.not_eq_true _ ▸ hgrows⟩
  · refine Or.inl ⟨_, rfl, ?_, ?_, h.grown⟩
    · simp [h.helpv, List.take_add_one, hs, hfits]
    · simp [h.freed, List.take_add_one, hs, hfits]

/-! ## What is released -/

/-- Every row that `duc_cmd_queuealbum` walks over or leaves is released once, and it queues the rows that it
has collected. -/
def QueuealbumReleases (grows : ℕ → Bool) (it : DucIter DucTrack) : Prop :=
  DisposedOnce it.list [] (Queuealbum.released (queuealbumRows grows it)) ∧
    ∃ n, (queuealbumRows grows it).1.ids = ((walk it).take n).map DucTrack.id

/-- Every row is released once by `get_commands`, or it is one of the array, which holds the first ones of the
rows that begin with the text. -/
def CommandsRelease (grows : ℕ → Bool) (text : Cstr) (help : DucIter Cstr) : Prop :=
  DisposedOnce help.list ((commandsRows grows text help).1.helpv.map Prod.fst)
      (Commands.released (commandsRows grows text help)) ∧
    ∃ n, (commandsRows grows text help).1.helpv.map Prod.snd =
      (((walk help).filter (ncaseEq · text text.bytes.length)).take n)

theorem Queuealbum.places_released {s : Queuealbum} {l : List (Option (ℕ × DucTrack))} :
    Queuealbum.released (s, ⟨l⟩) = s.freed ++ places l := rfl

theorem Commands.places_released {c : Commands} {l : List (Option (ℕ × Cstr))} :
    Commands.released (c, ⟨l⟩) = c.freed ++ places l := rfl

theorem places_numbered {it : DucIter ρ} {n : ℕ} (hn : n ≤ (walk (numbered it)).length) :
    places (numberFrom 0 it.list) = ((walk (numbered it)).take n).map Prod.fst ++ places ((numbered it).list.drop n) :=
  places_split hn

theorem length_walk_numbered (it : DucIter ρ) : (walk (numbered it)).length = (walk it).length := by
  rw [← walk_numbered it, List.length_map]

theorem taken_ids (it : DucIter DucTrack) (n : ℕ) :
    ((walk (numbered it)).take n).map (fun t => t.2.id) = ((walk it).take n).map DucTrack.id := by
  rw [← walk_numbered it, ← List.map_take, List.map_map]
  rfl

theorem queuealbum_ids (grows : ℕ → Bool) (it : DucIter DucTrack) :
    ∃ n, (queuealbumRows grows it).1.ids = ((walk it).take n).map DucTrack.id := by
  obtain ⟨s, n, hrun, ⟨-, h⟩ | ⟨-, h⟩⟩ := queuealbum_cases grows it
  all_goals exact ⟨n, by rw [hrun, h.ids, taken_ids]⟩

theorem queuealbum_releases_iff :
    QueuealbumReleases grows it ↔ ∀ k, 10 * k < (walk it).length → grows (10 * k + 10) = true := by
  obtain ⟨s, n, hrun, ⟨hn, h⟩ | ⟨hn, h⟩⟩ := queuealbum_cases grows it
  · have hplaces := places_numbered hn.le
    refine iff_of_true ⟨?_, queuealbum_ids grows it⟩ ?_
    · rw [hrun, Queuealbum.places_released, h.freed, disposedOnce_iff, hplaces]
      exact .refl _
    · rw [← length_walk_numbered, ← hn]
      exact h.grown
  · have hplaces := places_numbered hn.le
    obtain ⟨k, hk, hlost⟩ := h.lost
    constructor
    · rintro ⟨honce, -⟩
      have hlen := (disposedOnce_iff.1 honce).length_eq
      rw [hrun, Queuealbum.places_released, h.freed, hplaces] at hlen
      simp only [List.nil_append, List.length_append, List.length_map, List.length_take] at hlen
      omega
    · intro hgrows
      rw [hgrows k (by rw [← length_walk_numbered]; omega)] at hlost
      cases hlost

theorem HelpLost.reached {rows : List (ℕ × Cstr)} {fits : Cstr → Bool} {n : ℕ} {c : Commands}
    (h : HelpLost rows fits grows n c) : c.helpv.length < (rows.filter fun s => fits s.2).length := by
  obtain ⟨s, hs, hfit, -⟩ := h.freed
  have hnext : c.helpv ++ [s] = (rows.take (n + 1)).filter fun s => fits s.2 := by
    simp [h.helpv, List.take_add_one, hs, hfit]
  have hle := ((List.take_sublist (n + 1) rows).filter fun s => fits s.2).length_le
  rw [← hnext, List.length_append, List.length_singleton] at hle
  exact hle

theorem commands_release_iff : CommandsRelease grows text help ↔
    ∀ k < ((walk help).filter (ncaseEq · text text.bytes.length)).length, grows (k + 2) = true := by
  have hfits : (walk help).filter (ncaseEq · text text.bytes.length) =
      ((walk (numbered help)).filter fun s => ncaseEq s.2 text text.bytes.length).map Prod.snd := by
    rw [← walk_numbered help, List.filter_map]
    rfl
  obtain ⟨c, n, hrun, ⟨hn, h⟩ | ⟨hn, h⟩⟩ := commands_cases grows text help
  · have hplaces := places_numbered hn.le
    have hall : c.helpv = (walk (numbered help)).filter fun s => ncaseEq s.2 text text.bytes.length := by
      rw [h.helpv, hn, List.take_length]
    have honce : (c.helpv.map Prod.fst ++ (c.freed ++ places ((numbered help).list.drop n))).Perm
        (places (numberFrom 0 help.list)) := by
      rw [hplaces, ← List.append_assoc, h.helpv, h.freed, ← List.map_append]
      exact ((List.filter_append_perm _ _).map _).append_right _
    rw [CommandsRelease, hrun, Commands.places_released, disposedOnce_iff, hfits, List.length_map, ← hall]
    exact ⟨fun _ => h.grown, fun _ => ⟨honce, c.helpv.length, by rw [← List.map_take, List.take_length]⟩⟩
  · have hplaces := places_numbered hn.le
    obtain ⟨s, hs, hfit, hfreed⟩ := h.freed
    constructor
    · rintro ⟨honce, -⟩
      have hlen := (disposedOnce_iff.1 honce).length_eq
      have hsplit := (List.filter_append_perm (fun s : ℕ × Cstr => ncaseEq s.2 text text.bytes.length)
        ((walk (numbered help)).take n)).length_eq
      rw [hrun, Commands.places_released, hfreed, hplaces, h.helpv] at hlen
      simp only [List.length_append, List.length_map, List.length_singleton] at hlen hsplit
      omega
    · intro hgrows
      have hlost := h.lost
      rw [hgrows _ (by rw [hfits, List.length_map]; exact h.reached)] at hlost
      cases hlost

end Ends

/-- **No row is released twice**, and the rows collected stay usable, just when every `realloc` that the loops
reach succeeds. `duc_cmd_queuealbum` calls it for every tenth row, and `get_commands` for every row that begins
with the text. -/
theorem rowsReleased_iff (grows : ℕ → Bool) (text : Cstr) (it : DucIter DucTrack) (help : DucIter Cstr) :
    (QueuealbumReleases grows it ↔ ∀ k, 10 * k < (walk it).length → grows (10 * k + 10) = true) ∧
    (CommandsRelease grows text help ↔
      ∀ k < ((walk help).filter (ncaseEq · text text.bytes.length)).length, grows (k + 2) = true) :=
  ⟨queuealbum_releases_iff, commands_release_iff⟩

/-- Lists of one row, for which there is no memory: the row is released by the loop, and then by
`_duc_it_done`. -/
theorem rowsReleased_twice :
    ¬ QueuealbumReleases (fun _ => false) ⟨[some ⟨7, ⟨1, [], ⟨1, []⟩, 0⟩, 1, [], ⟨1, []⟩, 60⟩]⟩ ∧
    ¬ CommandsRelease (fun _ => false) (.lit "pl") ⟨[some (.lit "play")]⟩ := by
  refine ⟨fun h => ?_, fun h => ?_⟩
  · have honce : [0, 0].count 0 = 1 := h.1 0
    exact absurd honce (by decide)
  · have honce : [0, 0].count 0 = 1 := h.1 0
    exact absurd honce (by decide)

/-! ## Runs of the functions -/

section Runs

variable {h : ∀ {β : Type}, Op β → σ → Option (β × σ)} {s s₁ s₂ : σ} {grows : ℕ → Bool} {freed : List ℕ}

/-- **`duc_cmd_queuealbum`** releases every row of the reply once, and queues the rows that it has collected, just
when every `realloc` that it reaches succeeds. -/
theorem ducCmdQueuealbum_run_iff {id z : ℤ} {it : DucIter DucTrack}
    (hlist : (askRows (lineConverter ducTrackParse) (.lit "tracksalbum %d") [.int id]).run h s = some (some it, s₁))
    (hrun : (ducCmdQueuealbum grows id).run h s = some ((z, freed), s₂)) :
    (DisposedOnce it.list [] freed ∧
        ∃ n, (queueIds (((walk it).take n).map DucTrack.id)).run h s₁ = some (z, s₂)) ↔
      ∀ k, 10 * k < (walk it).length → grows (10 * k + 10) = true := by
  rw [ducCmdQueuealbum, Prog.run_bind, hlist, Option.bind_some] at hrun
  dsimp only at hrun
  rw [Prog.run_bind] at hrun
  obtain ⟨⟨z', s'⟩, hqueue, heq⟩ := Option.bind_eq_some_iff.1 hrun
  obtain ⟨⟨rfl, rfl⟩, rfl⟩ : (z' = z ∧ _ = freed) ∧ s' = s₂ := by simpa using heq
  rw [← queuealbum_releases_iff]
  constructor
  · exact fun hdisposed => ⟨hdisposed.1, queuealbum_ids grows it⟩
  · rintro ⟨honce, n, hids⟩
    exact ⟨honce, n, by rw [← hids]; exact hqueue⟩

/-- **`get_commands`** releases every row of the reply once or returns it, just when every `realloc` that it reaches
succeeds. -/
theorem getCommands_run_iff {text : Cstr} {help : DucIter Cstr} {helpv : List (ℕ × Cstr)}
    (hlist : ducCmdHelp.run h s = some (some help, s₁))
    (hrun : (getCommands grows text).run h s = some ((helpv, freed), s₂)) :
    (DisposedOnce help.list (helpv.map Prod.fst) freed ∧
        ∃ n, helpv.map Prod.snd = ((walk help).filter (ncaseEq · text text.bytes.length)).take n) ↔
      ∀ k < ((walk help).filter (ncaseEq · text text.bytes.length)).length, grows (k + 2) = true := by
  rw [getCommands, Prog.run_bind, hlist, Option.bind_some] at hrun
  obtain ⟨⟨rfl, rfl⟩, rfl⟩ : (_ = helpv ∧ _ = freed) ∧ s₁ = s₂ := by simpa using hrun
  exact commands_release_iff

end Runs

end Dudlc
