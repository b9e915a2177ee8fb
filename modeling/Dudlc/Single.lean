import Dudlc.Requests

/-!
# Single records and lists

A reply of one line can be read by `_duc_cmd_conv`, for a record, and by `_duc_it_newv`, for a list.

* `Agree`: the record is the first one of the list.
* `SameReading`: the code `2` and a text that is used up, or what neither of the two takes.
* **`single_list_iff`**: when the two agree.
-/

namespace Dudlc

open Lib

variable {ρ : Type} {w : World} {ls more : List (List UInt8)} {l part : List UInt8} {f : Converter ρ}

/-- There is a record just when there is an iterator with this record first. -/
def Agree (row : Option ρ) (list : Option (DucIter ρ)) : Prop :=
  ∀ a, row = some a ↔ ∃ it, list = some it ∧ ducItCur it = some a

/-- The text gives no record; or it is used up behind the code `2`, or not used up behind a code that is
not taken for a single record either; or the code is `5`. -/
def SameReading (f : Converter ρ) (l : List UInt8) : Prop :=
  (f (l.drop 4)).1 = none ∨ l.head? = some 53 ∨ (l.head? = some 50 ↔ (f (l.drop 4)).2 = 0)

theorem answer_conv (f : Converter ρ) (l : List UInt8) : Helper.answer (.conv f) [l] =
    .row (if l.head? = some 50 then (f (l.drop 4)).1 else none) := by
  simp only [Helper.answer, List.head?_cons, Option.bind_some, List.getLastD_cons, List.getLastD_nil]

theorem answer_it (f : Converter ρ) (l : List UInt8) : Helper.answer (.it f) [l] =
    .list (if l.head? = some 53 then none
      else if (f (l.drop 4)).2 = 0 then some ⟨[(f (l.drop 4)).1]⟩ else none) := by
  simp only [Helper.answer, List.head?_cons, Option.bind_some, itRecords, List.map_cons, List.map_nil,
    List.mem_singleton, forall_eq]
  split_ifs <;> rfl

theorem agree_eq {row : Option ρ} {list : Option (DucIter ρ)} :
    Agree row list ↔ row = list.bind ducItCur := by
  simp only [Agree, ← Option.bind_eq_some_iff]
  constructor
  · exact Option.ext
  · rintro rfl a
    rfl

theorem agree_iff (f : Converter ρ) (l : List UInt8) :
    Agree (if l.head? = some 50 then (f (l.drop 4)).1 else none)
      (if l.head? = some 53 then none
        else if (f (l.drop 4)).2 = 0 then some ⟨[(f (l.drop 4)).1]⟩ else none) ↔ SameReading f l := by
  have hcur : ∀ d : Option ρ, ducItCur ⟨[d]⟩ = d := fun d => by cases d <;> rfl
  rw [agree_eq, SameReading]
  by_cases h5 : l.head? = some 53
  · have h2 : l.head? ≠ some 50 := by rw [h5]; decide
    rw [if_neg h2, if_pos h5]
    exact ⟨fun _ => Or.inr (Or.inl h5), fun _ => rfl⟩
  rw [if_neg h5, or_iff_right h5]
  by_cases h2 : l.head? = some 50 <;> by_cases h0 : (f (l.drop 4)).2 = 0
  · rw [if_pos h2, if_pos h0, Option.bind_some, hcur]
    exact ⟨fun _ => Or.inr (iff_of_true h2 h0), fun _ => rfl⟩
  · rw [if_pos h2, if_neg h0, Option.bind_none]
    exact ⟨Or.inl, fun h => h.resolve_right fun hiff => h0 (hiff.1 h2)⟩
  · rw [if_neg h2, if_pos h0, Option.bind_some, hcur]
    exact ⟨fun h => Or.inl h.symm, fun h => (h.resolve_right fun hiff => h2 (hiff.2 h0)).symm⟩
  · rw [if_neg h2, if_neg h0, Option.bind_none]
    exact ⟨fun _ => Or.inr (iff_of_false h2 h0), fun _ => rfl⟩

/-- **Single-record and list queries agree** on a reply of one line just when the two read it in the same
way: only a list takes the text behind another code than `2` and `5`, and only for a single record the
text may go on behind the record. -/
theorem single_list_iff (ev : Handlers) (hw : w.Idle) (hs : w.SendsAll) {fmt : Cstr} {args : List Arg}
    {t : List UInt8} (ht : format fmt.bytes args = some t) (hlen : t.length < BUFLENLINE - 1)
    (hls : replyLines ls = l :: more) (hdash : l[3]? ≠ some 45) (h : Stream w ls part) (f : Converter ρ) :
    ∃ row w₁ list w₂, ducCmdConv ev f w fmt args = some (row, w₁) ∧
      ducItNewv ev f w fmt args = some (list, w₂) ∧ (Agree row list ↔ SameReading f l) := by
  have hrep : IsReply (l.take 3) [l] := .last rfl hdash
  obtain ⟨w₁, hconv, -⟩ := runCmd_answer ev hw hs (show Cmd.text ⟨.conv f, fmt, args⟩ = some t from ht) hlen
    hrep hls h
  obtain ⟨w₂, hit, -⟩ := runCmd_answer ev hw hs (show Cmd.text ⟨.it f, fmt, args⟩ = some t from ht) hlen
    hrep hls h
  rw [answer_conv] at hconv
  rw [answer_it] at hit
  obtain ⟨⟨row, v₁⟩, hrow, heq₁⟩ := Option.map_eq_some_iff.1 hconv
  obtain ⟨⟨list, v₂⟩, hlist, heq₂⟩ := Option.map_eq_some_iff.1 hit
  refine ⟨row, v₁, list, v₂, hrow, hlist, ?_⟩
  rw [Result.row.inj (Prod.mk.inj heq₁).1, Result.list.inj (Prod.mk.inj heq₂).1]
  exact agree_iff f l

/-- A session that waits for the reply `line`. -/
def oneLine (line : String) : World := idleWorld [some (Cstr.lit (line ++ "\n")).bytes] []

/-- **The two do not agree** on an artist with one more field behind it, which only `_duc_cmd_conv` takes,
and on an artist behind the code 350, which only `_duc_it_newv` takes. -/
theorem single_list_differ :
    (∃ row w₁ list w₂, ducCmdConv .passive (lineConverter ducArtistParse) (oneLine "250 5\tone\ttwo")
        (.lit "artistget 5") [] = some (row, w₁) ∧
      ducItNewv .passive (lineConverter ducArtistParse) (oneLine "250 5\tone\ttwo")
        (.lit "artistget 5") [] = some (list, w₂) ∧ ¬ Agree row list) ∧
    ∃ row w₁ list w₂, ducCmdConv .passive (lineConverter ducArtistParse) (oneLine "350 5\tone")
        (.lit "artistget 5") [] = some (row, w₁) ∧
      ducItNewv .passive (lineConverter ducArtistParse) (oneLine "350 5\tone")
        (.lit "artistget 5") [] = some (list, w₂) ∧ ¬ Agree row list := by
  have hrun : ∀ line row list, ((ducCmdConv .passive (lineConverter ducArtistParse) (oneLine line)
        (.lit "artistget 5") []).map Prod.fst = some row) →
      ((ducItNewv .passive (lineConverter ducArtistParse) (oneLine line)
        (.lit "artistget 5") []).map Prod.fst = some list) → ¬ Agree row list →
      ∃ row w₁ list w₂, ducCmdConv .passive (lineConverter ducArtistParse) (oneLine line)
          (.lit "artistget 5") [] = some (row, w₁) ∧
        ducItNewv .passive (lineConverter ducArtistParse) (oneLine line)
          (.lit "artistget 5") [] = some (list, w₂) ∧ ¬ Agree row list := by
    intro line row list hc hi hno
    obtain ⟨⟨row', w₁⟩, hrow, rfl⟩ := Option.map_eq_some_iff.1 hc
    obtain ⟨⟨list', w₂⟩, hlist, rfl⟩ := Option.map_eq_some_iff.1 hi
    exact ⟨row', w₁, list', w₂, hrow, hlist, hno⟩
  constructor
  · refine hrun _ (some ⟨5, (Cstr.lit "one").bytes⟩) none (by decide +kernel) (by decide +kernel) ?_
    rw [agree_eq]
    decide
  · refine hrun _ none (some ⟨[some ⟨5, (Cstr.lit "one").bytes⟩]⟩) (by decide +kernel) (by decide +kernel) ?_
    rw [agree_eq]
    decide

/-- The theorem where an artist is the whole text behind the code 250. -/
theorem single_list_same : ∃ row w₁ list w₂,
    ducCmdConv .passive (lineConverter ducArtistParse) (oneLine "250 5\tone") (.lit "artistget 5") [] =
      some (row, w₁) ∧
    ducItNewv .passive (lineConverter ducArtistParse) (oneLine "250 5\tone") (.lit "artistget 5") [] =
      some (list, w₂) ∧ Agree row list := by
  have hstream : Stream (oneLine "250 5\tone") [(Cstr.lit "250 5\tone").bytes] [] :=
    ⟨freshSock_fresh.1, ⟨[], [], holds_nil rfl rfl, by decide +kernel⟩, by decide +kernel,
      fun b hb => absurd hb List.not_mem_nil, Nat.zero_le _⟩
  obtain ⟨row, w₁, list, w₂, hrow, hlist, hiff⟩ := single_list_iff .passive ⟨freshSock_fresh.1, rfl⟩
    (fun x hx => absurd hx List.not_mem_nil)
    (show format (Cstr.lit "artistget 5").bytes [] = some (Cstr.lit "artistget 5").bytes from rfl)
    (by decide) (show replyLines [(Cstr.lit "250 5\tone").bytes] = (Cstr.lit "250 5\tone").bytes :: [] by
      decide +kernel) (by decide) hstream (lineConverter ducArtistParse)
  exact ⟨row, w₁, list, w₂, hrow, hlist, hiff.2 (Or.inr (Or.inr (by decide +kernel)))⟩

end Dudlc
