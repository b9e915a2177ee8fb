import Dudlc.Lib.Written
import Dudlc.Values

/-!
# The words of an enumeration

`val_enum` goes through a table of words, and compares each with the beginning of a text.

* `enumFits`, `enumEntry`: the entry that `val_enum` stops at; `valEnum_eq`.
* `SameWord`: the text begins with a word, which ends where the letters and digits end; `enumFits_iff`.
* `WordTable`: tables of words; `wordTable_bools`, `wordTable_rights`, `wordTable_rgtypes`.
* **`valEnum_words`**: the entry is the one with the word of the text, in any order of the table.
-/

namespace Dudlc

open Lib

/-- The tests of `val_enum` on an entry. -/
def enumFits (s : Cstr) (it : Cstr × ℤ) : Bool :=
  it.1.bytes.length ≤ s.bytes.length && (s.bytes.take it.1.bytes.length).map tolower == it.1.bytes.map tolower &&
    !(it.1.bytes.length < s.bytes.length && isalnum (s.byte it.1.bytes.length))

/-- The entry that `val_enum` stops at. -/
def enumEntry (lst : Enum) (s : Cstr) : Option (Cstr × ℤ) := lst.find? (enumFits s)

theorem valEnum_eq (lst : Enum) (s : Cstr) :
    valEnum lst s = ((enumEntry lst s).map fun it => (it.2, it.1.bytes.length)).getD (-1, 0) := by
  unfold valEnum
  dsimp only
  split
  · next it hit =>
    rw [show enumEntry lst s = some it from hit]
    rfl
  · next hnone =>
    rw [show enumEntry lst s = none from hnone]
    rfl

/-- The letters and digits that the text begins with are the text of the entry, up to case. -/
def SameWord (s : Cstr) (it : Cstr × ℤ) : Prop :=
  (s.bytes.takeWhile isalnum).map tolower = it.1.bytes.map tolower

instance (s : Cstr) : DecidablePred (SameWord s) := fun it =>
  inferInstanceAs (Decidable ((s.bytes.takeWhile isalnum).map tolower = it.1.bytes.map tolower))

/-- A table of words: letters and digits, no two the same up to case. -/
structure WordTable (lst : Enum) : Prop where
  ne : ∀ it ∈ lst, it.1.bytes ≠ []
  alnum : ∀ it ∈ lst, it.1.bytes.all isalnum = true
  distinct : lst.Pairwise fun a b => a.1.bytes.map tolower ≠ b.1.bytes.map tolower

theorem wordTable_bools : WordTable bools := ⟨by decide, by decide, by decide⟩

theorem wordTable_rights : WordTable rights := ⟨by decide, by decide, by decide⟩

theorem wordTable_rgtypes : WordTable rgtypes := ⟨by decide, by decide, by decide⟩

theorem isalnum_tolower (b : UInt8) : isalnum (tolower b) = isalnum b := by
  simp only [isalnum, isalpha, isdigit, tolower]
  split_ifs with h
  · grind
  · rfl

variable {lst lst' : Enum} {s : Cstr} {it : Cstr × ℤ}

theorem alnum_of_map {t u : List UInt8} (hu : ∀ b ∈ u, isalnum b = true) (h : t.map tolower = u.map tolower) :
    ∀ b ∈ t, isalnum b = true := by
  intro b hb
  have hmem : tolower b ∈ u.map tolower := h ▸ List.mem_map_of_mem hb
  obtain ⟨c, hc, hcb⟩ := List.mem_map.1 hmem
  rw [← isalnum_tolower, ← hcb, isalnum_tolower]
  exact hu c hc

/-- **The three tests** of `val_enum` say that the words are the same. -/
theorem enumFits_iff (halnum : it.1.bytes.all isalnum = true) : enumFits s it = true ↔ SameWord s it := by
  set n := it.1.bytes.length with hn
  have hsplit : s.bytes.take n ++ s.bytes.drop n = s.bytes := List.take_append_drop n s.bytes
  simp only [enumFits, Bool.and_eq_true, decide_eq_true_eq, beq_iff_eq, Bool.not_eq_true', Bool.and_eq_false_iff,
    ← hn]
  constructor
  · rintro ⟨⟨hle, hmap⟩, hnext⟩
    have hstop : ∀ b ∈ (s.bytes.drop n).head?, isalnum b = false := by
      intro b hb
      rw [List.head?_drop] at hb
      obtain ⟨hlt, rfl⟩ := List.getElem?_eq_some_iff.1 hb
      simpa [Cstr.byte, hlt] using hnext
    have hword : s.bytes.takeWhile isalnum = s.bytes.take n := by
      conv_lhs => rw [← hsplit]
      exact takeWhile_append (alnum_of_map (List.all_eq_true.1 halnum) hmap) hstop
    rw [SameWord, hword, hmap]
  · intro h
    have hlen : (s.bytes.takeWhile isalnum).length = n := by simpa using congrArg List.length h
    have hword : s.bytes.take n = s.bytes.takeWhile isalnum := by
      rw [← hlen]
      exact (List.prefix_iff_eq_take.1 (List.takeWhile_prefix isalnum)).symm
    have hdrop : s.bytes.drop n = s.bytes.dropWhile isalnum := by
      rw [← List.takeWhile_append_dropWhile (p := isalnum) (l := s.bytes), List.drop_append_of_le_length hlen.ge,
        List.takeWhile_append_dropWhile, ← hlen, List.drop_length, List.nil_append]
    refine ⟨⟨hlen ▸ (List.takeWhile_prefix isalnum).length_le, by rw [hword]; exact h⟩, ?_⟩
    rcases Nat.lt_or_ge n s.bytes.length with hlt | hge
    · refine Or.inr ?_
      have hhead := List.head?_dropWhile_not isalnum s.bytes
      rw [← hdrop, List.head?_drop, List.getElem?_eq_getElem hlt] at hhead
      simpa [Cstr.byte, hlt] using hhead
    · exact Or.inl (decide_eq_false (not_lt.2 hge))

theorem WordTable.perm (h : WordTable lst) (hperm : lst'.Perm lst) : WordTable lst' where
  ne it hit := h.ne it (hperm.mem_iff.1 hit)
  alnum it hit := h.alnum it (hperm.mem_iff.1 hit)
  distinct := (hperm.pairwise_iff fun hab => hab.symm).2 h.distinct

theorem WordTable.unique (h : WordTable lst) {a b : Cstr × ℤ} (ha : a ∈ lst) (hb : b ∈ lst) (hsa : SameWord s a)
    (hsb : SameWord s b) : a = b := by
  by_contra hab
  have : Std.Symm fun a b : Cstr × ℤ => a.1.bytes.map tolower ≠ b.1.bytes.map tolower := ⟨fun _ _ hab => hab.symm⟩
  exact h.distinct.forall ha hb hab (hsa.symm.trans hsb)

/-- **The entry that `val_enum` stops at** is the one with the word of the text. -/
theorem enumEntry_iff (h : WordTable lst) : enumEntry lst s = some it ↔ it ∈ lst ∧ SameWord s it := by
  constructor
  · intro hit
    have hmem := List.mem_of_find?_eq_some hit
    exact ⟨hmem, (enumFits_iff (h.alnum it hmem)).1 (List.find?_some hit)⟩
  · rintro ⟨hmem, hsame⟩
    cases hfound : enumEntry lst s with
    | none =>
      have hnot := List.find?_eq_none.1 hfound it hmem
      exact absurd ((enumFits_iff (h.alnum it hmem)).2 hsame) hnot
    | some a =>
      have ha := List.mem_of_find?_eq_some hfound
      have hfits := (enumFits_iff (h.alnum a ha)).1 (List.find?_some hfound)
      rw [h.unique ha hmem hfits hsame]

theorem enumEntry_none (h : WordTable lst) : enumEntry lst s = none ↔ ∀ it ∈ lst, ¬ SameWord s it := by
  rw [Option.eq_none_iff_forall_ne_some]
  simp only [ne_eq, enumEntry_iff h, not_and]

theorem enumEntry_perm (h : WordTable lst) (hperm : lst'.Perm lst) : enumEntry lst' s = enumEntry lst s := by
  refine Option.ext fun it => ?_
  rw [enumEntry_iff (h.perm hperm), enumEntry_iff h, hperm.mem_iff]

/-- **`val_enum` matches whole words**, for every table of words and every text. It stops at the entry whose word
is that of the text, returns its value with `*end` behind it, and otherwise -1 with `*end` at the text. The
order of the table does not matter. -/
theorem valEnum_words (h : WordTable lst) (s : Cstr) :
    (∀ it, enumEntry lst s = some it ↔ it ∈ lst ∧ SameWord s it) ∧
    (∀ it ∈ lst, SameWord s it → valEnum lst s = (it.2, it.1.bytes.length)) ∧
    (valEnum lst s = (-1, 0) ↔ ∀ it ∈ lst, ¬ SameWord s it) ∧
    ∀ lst', lst'.Perm lst → valEnum lst' s = valEnum lst s := by
  refine ⟨fun it => enumEntry_iff h, fun it hit hsame => ?_, ?_, fun lst' hperm => ?_⟩
  · rw [valEnum_eq, (enumEntry_iff h).2 ⟨hit, hsame⟩]
    rfl
  · rw [← enumEntry_none h, valEnum_eq]
    cases hfound : enumEntry lst s with
    | none => simp
    | some it =>
      -- no word is empty, so `*end` is behind the text
      have hne := h.ne it (List.mem_of_find?_eq_some hfound)
      simp [hne]
  · rw [valEnum_eq, valEnum_eq, enumEntry_perm h hperm]

/-- The word of a text that begins with `trackpeak` is not `track`. -/
theorem valEnum_words_peak : valEnum rgtypes (.lit "TrackPeak, 3") = (2, 9) :=
  (valEnum_words wordTable_rgtypes _).2.1 (.lit "trackpeak", 2) (by decide) (by decide)

end Dudlc
