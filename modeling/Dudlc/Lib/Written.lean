import Dudlc.Lib.Numbers

/-!
# Numbers as they are written

What `strtoul` and an assignment to an `int` make of the number that a text starts with: the number as it
is written is an integer of any size.

* `numSkip`, `numDigits`, `written`: the number at the start of a text.
* `toUlong`, `narrow`: the number in an `unsigned long`, and what is left of it in an `int`; `narrowLong`: what is
  left of a `long`.
* `strtoul_written`, `strtol_written`: `strtoul` and `strtol` read the number that is written.
* **`narrow_eq_iff`**: the numbers that an `int` carries; `narrow_le`: the others do not grow.
* `scan_append`: the number ends before a byte that belongs to none.
* `IsNumber`, `Decimal`: texts that are numbers, and decimals without a sign; `IsNumber.read`, `Decimal.read`.
-/

namespace Lib

variable {s t r ds : List UInt8} {c : UInt8} {z : ℤ}

/-- The bytes before the digits of a number: blanks and a sign. -/
def numSkip (s : List UInt8) : ℕ :=
  let sp := (s.takeWhile isspace).length
  sp + (sign (s.drop sp)).2

/-- The digits of the number that a text starts with. -/
def numDigits (s : List UInt8) : List UInt8 := (s.drop (numSkip s)).takeWhile isdigit

/-- The number has a minus sign. -/
def numNeg (s : List UInt8) : Bool := (sign (s.drop (s.takeWhile isspace).length)).1

/-- The number that a text starts with, as it is written. -/
def written (s : List UInt8) : ℤ := if numNeg s then -(digitsVal (numDigits s) : ℤ) else digitsVal (numDigits s)

/-- The `unsigned long` that `strtoul` makes of a number. -/
def toUlong (z : ℤ) : ℤ := if (ULONG_MAX : ℤ) < |z| then ULONG_MAX else z % (ULONG_MAX + 1)

/-- The `int` that is left of a number. -/
def narrow (z : ℤ) : ℤ := toInt (toUlong z)

theorem toUlong_signed (neg : Bool) (v : ℕ) :
    ((if ULONG_MAX < v then ULONG_MAX else if neg then (ULONG_MAX + 1 - v) % (ULONG_MAX + 1) else v : ℕ) : ℤ) =
      toUlong (if neg then -(v : ℤ) else v) := by
  have habs : |if neg then -(v : ℤ) else v| = v := by cases neg <;> simp
  rw [toUlong, habs]
  by_cases hv : ULONG_MAX < v
  · have hz : (ULONG_MAX : ℤ) < v := by exact_mod_cast hv
    rw [if_pos hv, if_pos hz]
  · have hz : ¬ (ULONG_MAX : ℤ) < v := by exact_mod_cast hv
    rw [if_neg hv, if_neg hz]
    cases neg with
    | true =>
      simp only [if_true, ULONG_MAX] at hv ⊢
      omega
    | false =>
      simp only [Bool.false_eq_true, if_false, ULONG_MAX] at hv ⊢
      omega

/-- **`strtoul` reads the number that is written**, behind the blanks and the sign. -/
theorem strtoul_written (s : List UInt8) :
    ((strtoul s).1 : ℤ) = toUlong (written s) ∧
      (strtoul s).2 = if numDigits s = [] then 0 else numSkip s + (numDigits s).length := by
  have hs : strtoul s = if numDigits s = [] then (0, 0) else
      (if ULONG_MAX < digitsVal (numDigits s) then ULONG_MAX else
        if numNeg s then (ULONG_MAX + 1 - digitsVal (numDigits s)) % (ULONG_MAX + 1)
        else digitsVal (numDigits s),
      numSkip s + (numDigits s).length) := rfl
  by_cases hds : numDigits s = []
  · simp [hs, hds, written, digitsVal, toUlong]
  · rw [hs, if_neg hds, if_neg hds]
    exact ⟨toUlong_signed .., rfl⟩

/-! ## What an `int` carries -/

theorem toInt_bounds (z : ℤ) : -2 ^ 31 ≤ toInt z ∧ toInt z ≤ INT_MAX := by
  have h1 := Int.bmod_lt (x := z) (m := 2 ^ 32) (by decide)
  have h2 := Int.le_bmod (x := z) (m := 2 ^ 32) (by decide)
  unfold toInt INT_MAX
  constructor <;> omega

theorem narrow_bounds (z : ℤ) : -2 ^ 31 ≤ narrow z ∧ narrow z ≤ INT_MAX := toInt_bounds _

theorem narrow_eq (hlo : -2 ^ 31 ≤ z) (hhi : z ≤ INT_MAX) : narrow z = z := by
  have habs : ¬ (ULONG_MAX : ℤ) < |z| := by
    rw [lt_abs]
    simp only [ULONG_MAX, INT_MAX] at hhi ⊢
    omega
  rw [narrow, toUlong, if_neg habs, toInt, Int.bmod_def]
  simp only [ULONG_MAX, INT_MAX] at hhi ⊢
  omega

/-- **The numbers that an `int` carries.** -/
theorem narrow_eq_iff : narrow z = z ↔ -2 ^ 31 ≤ z ∧ z ≤ INT_MAX :=
  ⟨fun h => h ▸ narrow_bounds z, fun h => narrow_eq h.1 h.2⟩

theorem narrow_le (hz : 0 ≤ z) : narrow z ≤ z := by
  by_cases h : z ≤ INT_MAX
  · rw [narrow_eq (by omega) h]
  · exact (narrow_bounds z).2.trans (by omega)

/-- The `int` that is left of the `long` that `strtol` makes of a number. -/
def narrowLong (z : ℤ) : ℤ := toInt (max (-LONG_MAX - 1) (min LONG_MAX z))

/-- **`strtol` reads the number that is written**, limited to a `long`. -/
theorem strtol_written (s : List UInt8) : strtol s = if numDigits s = [] then (0, 0) else
    (max (-LONG_MAX - 1) (min LONG_MAX (written s)), numSkip s + (numDigits s).length) := by
  have hs : strtol s = if numDigits s = [] then (0, 0) else
      (clampLong (numNeg s) (digitsVal (numDigits s)), numSkip s + (numDigits s).length) := rfl
  have hclamp : clampLong (numNeg s) (digitsVal (numDigits s)) =
      max (-LONG_MAX - 1) (min LONG_MAX (written s)) := by
    unfold clampLong written
    split_ifs <;> simp only [LONG_MAX] <;> omega
  rw [hs, hclamp]

theorem strtol_zero : (strtol s).2 = 0 ↔ numDigits s = [] := by
  have hpos : numDigits s ≠ [] → 0 < (numDigits s).length := List.length_pos_of_ne_nil
  rw [strtol_written]
  split_ifs with h
  · simp [h]
  · simp only [h, iff_false]
    have := hpos h
    omega

theorem toInt_strtol (h : numDigits s ≠ []) : toInt (strtol s).1 = narrowLong (written s) := by
  rw [strtol_written, if_neg h]
  rfl

theorem narrowLong_eq (hlo : -2 ^ 31 ≤ z) (hhi : z ≤ INT_MAX) : narrowLong z = z := by
  have hz : max (-LONG_MAX - 1) (min LONG_MAX z) = z := by
    simp only [LONG_MAX, INT_MAX] at hhi ⊢
    omega
  rw [narrowLong, hz]
  refine toInt_eq ⟨hlo, ?_⟩
  simp only [INT_MAX] at hhi
  omega

/-! ## The end of a number -/

theorem takeWhile_append {p : UInt8 → Bool} (ht : ∀ b ∈ t, p b = true) (hr : ∀ b ∈ r.head?, p b = false) :
    (t ++ r).takeWhile p = t := by
  rw [List.takeWhile_append_of_pos ht]
  cases r with
  | nil => simp
  | cons c r => rw [List.takeWhile_cons_of_neg (by simp [hr c rfl]), List.append_nil]

/-- A byte that ends every number. -/
def EndsNumber (c : UInt8) : Prop :=
  isspace c = false ∧ isdigit c = false ∧ c ≠ 43 ∧ c ≠ 45

theorem takeWhile_append_cons {p : UInt8 → Bool} (hc : p c = false) (s r : List UInt8) :
    (s ++ c :: r).takeWhile p = s.takeWhile p := by
  rw [List.takeWhile_append]
  split_ifs with h
  · rw [List.takeWhile_cons_of_neg (by simp [hc]), List.append_nil]
    exact ((List.takeWhile_prefix p).eq_of_length h).symm
  · rfl

theorem sign_append_cons (hc : c ≠ 43 ∧ c ≠ 45) (s r : List UInt8) : sign (s ++ c :: r) = sign s := by
  rcases s with _ | ⟨b, s⟩
  · simp only [List.nil_append, sign]
    split
    · next h => exact absurd (List.cons.inj h).1 hc.2
    · next h => exact absurd (List.cons.inj h).1 hc.1
    · rfl
  · simp only [List.cons_append, sign]
    split <;> split <;> simp_all

theorem sign_length_le (s : List UInt8) : (sign s).2 ≤ s.length := by
  unfold sign
  split <;> simp

theorem numSkip_le (s : List UInt8) : numSkip s ≤ s.length := by
  have h := sign_length_le (s.drop (s.takeWhile isspace).length)
  have hle := (List.takeWhile_prefix isspace (l := s)).length_le
  rw [List.length_drop] at h
  simp only [numSkip]
  omega

/-- **The number ends** before a byte that belongs to none. -/
theorem scan_append (hc : EndsNumber c) (s r : List UInt8) :
    numSkip (s ++ c :: r) = numSkip s ∧ numDigits (s ++ c :: r) = numDigits s ∧
      numNeg (s ++ c :: r) = numNeg s := by
  obtain ⟨hsp, hd, hsg⟩ := hc
  have hle := (List.takeWhile_prefix isspace (l := s)).length_le
  have hskip : numSkip (s ++ c :: r) = numSkip s := by
    simp only [numSkip, takeWhile_append_cons hsp, List.drop_append_of_le_length hle,
      sign_append_cons hsg]
  refine ⟨hskip, ?_, ?_⟩
  · rw [numDigits, hskip, List.drop_append_of_le_length (numSkip_le s), takeWhile_append_cons hd]
    rfl
  · simp only [numNeg, takeWhile_append_cons hsp, List.drop_append_of_le_length hle,
      sign_append_cons hsg]

theorem written_append (hc : EndsNumber c) (s r : List UInt8) : written (s ++ c :: r) = written s := by
  obtain ⟨-, hds, hneg⟩ := scan_append hc s r
  rw [written, written, hds, hneg]

theorem strtoul_append (hc : EndsNumber c) (s r : List UInt8) : strtoul (s ++ c :: r) = strtoul s := by
  obtain ⟨hskip, hds, -⟩ := scan_append hc s r
  have h := strtoul_written s
  have h' := strtoul_written (s ++ c :: r)
  rw [written_append hc, hds, hskip, ← h.2, ← h.1] at h'
  exact Prod.ext (by exact_mod_cast h'.1) h'.2

theorem strtoul_le (s : List UInt8) : (strtoul s).2 ≤ s.length := by
  have hle := (List.takeWhile_prefix isdigit (l := s.drop (numSkip s))).length_le
  have := numSkip_le s
  rw [List.length_drop] at hle
  rw [(strtoul_written s).2]
  split_ifs
  · exact Nat.zero_le _
  · simp only [numDigits]
    omega

/-! ## Digits -/

theorem scan_digit {b : UInt8} (hb : isdigit b = true) (s : List UInt8) :
    numSkip (b :: s) = 0 ∧ numDigits (b :: s) = (b :: s).takeWhile isdigit ∧ numNeg (b :: s) = false := by
  have hsp : (b :: s).takeWhile isspace = [] := List.takeWhile_cons_of_neg (by simp [isspace_of_isdigit hb])
  have hskip : numSkip (b :: s) = 0 := by
    simp [numSkip, hsp, sign_of_isdigit hb]
  refine ⟨hskip, by rw [numDigits, hskip, List.drop_zero], ?_⟩
  simp [numNeg, hsp, sign_of_isdigit hb]

/-- **The number of a string of digits.** -/
theorem scan_digits (hds : ∀ b ∈ ds, isdigit b = true) (hne : ds ≠ []) (hr : ∀ b ∈ r.head?, isdigit b = false) :
    written (ds ++ r) = digitsVal ds ∧ (strtoul (ds ++ r)).2 = ds.length := by
  obtain ⟨b, s, rfl⟩ := List.exists_cons_of_ne_nil hne
  have htake := takeWhile_append hds hr
  obtain ⟨hskip, hnum, hneg⟩ := scan_digit (hds b List.mem_cons_self) (s ++ r)
  rw [← List.cons_append, htake] at hnum
  rw [← List.cons_append] at hskip hneg
  refine ⟨by rw [written, hneg, hnum]; rfl, ?_⟩
  rw [(strtoul_written _).2, hnum, hskip, if_neg hne, Nat.zero_add]

theorem strtoul_eq_zero : (strtoul s).2 = 0 ↔ numDigits s = [] := by
  rw [(strtoul_written s).2]
  constructor
  · intro h
    by_contra hne
    rw [if_neg hne] at h
    have := List.length_pos_of_ne_nil hne
    omega
  · exact fun h => if_pos h

theorem strtoul_end (hs : (strtoul s).2 ≠ 0) : ∀ b ∈ (s.drop (strtoul s).2).head?, isdigit b = false := by
  have hne : numDigits s ≠ [] := fun h => hs (strtoul_eq_zero.2 h)
  rw [(strtoul_written s).2, if_neg hne, ← List.drop_drop]
  have hdrop : (s.drop (numSkip s)).drop (numDigits s).length = (s.drop (numSkip s)).dropWhile isdigit := by
    conv_lhs =>
      rw [← List.takeWhile_append_dropWhile (p := isdigit) (l := s.drop (numSkip s)), numDigits,
        List.drop_left]
  intro b hb
  have hnot := List.head?_dropWhile_not isdigit (s.drop (numSkip s))
  rw [← hdrop, Option.mem_def.1 hb] at hnot
  exact hnot

/-! ## Numbers as texts -/

/-- The text is a number, with blanks and a sign in front of it. -/
def IsNumber (t : List UInt8) : Prop := t ≠ [] ∧ (strtoul t).2 = t.length

instance : DecidablePred IsNumber := fun t => inferInstanceAs (Decidable (t ≠ [] ∧ (strtoul t).2 = t.length))

theorem skip_append (h : (t.takeWhile isspace).length < t.length) (r : List UInt8) :
    numSkip (t ++ r) = numSkip t ∧ numNeg (t ++ r) = numNeg t := by
  have hsp : (t ++ r).takeWhile isspace = t.takeWhile isspace := by
    rw [List.takeWhile_append, if_neg h.ne]
  have hne : t.drop (t.takeWhile isspace).length ≠ [] := by
    rw [ne_eq, List.drop_eq_nil_iff]
    omega
  simp only [numSkip, numNeg, hsp, List.drop_append_of_le_length h.le, sign_append hne, and_self]

theorem IsNumber.digits (ht : IsNumber t) : numDigits t = t.drop (numSkip t) ∧ numSkip t < t.length := by
  obtain ⟨hne, hlen⟩ := ht
  have hpos := List.length_pos_of_ne_nil hne
  rw [(strtoul_written t).2] at hlen
  split_ifs at hlen with hds
  · omega
  · have := List.length_pos_of_ne_nil hds
    refine ⟨(List.takeWhile_prefix isdigit).eq_of_length ?_, by omega⟩
    rw [List.length_drop]
    exact (Nat.sub_eq_of_eq_add' hlen.symm).symm

/-- **A number is read** where it stands, up to its end. -/
theorem IsNumber.read (ht : IsNumber t) (hr : ∀ b ∈ r.head?, isdigit b = false) :
    (strtoul (t ++ r)).2 = t.length ∧ written (t ++ r) = written t := by
  obtain ⟨hds, hlt⟩ := ht.digits
  obtain ⟨hskip, hneg⟩ := skip_append (lt_of_le_of_lt (Nat.le_add_right ..) hlt) r
  have hall : ∀ b ∈ t.drop (numSkip t), isdigit b = true := fun b hb =>
    List.mem_takeWhile_imp (hds ▸ hb)
  have hds' : numDigits (t ++ r) = numDigits t := by
    rw [numDigits, hskip, List.drop_append_of_le_length hlt.le, takeWhile_append hall hr, hds]
  constructor
  · rw [(strtoul_written _).2, hskip, hds', ← (strtoul_written t).2, ht.2]
  · rw [written, written, hneg, hds']

theorem isNumber_take (hs : (strtoul s).2 ≠ 0) : IsNumber (s.take (strtoul s).2) := by
  have hds : numDigits s ≠ [] := fun h => hs (strtoul_eq_zero.2 h)
  have hpos := List.length_pos_of_ne_nil hds
  have hle := strtoul_le s
  set k := (strtoul s).2 with hk
  rw [(strtoul_written s).2, if_neg hds] at hk
  have hlen : (s.take k).length = k := List.length_take_of_le hle
  refine ⟨List.ne_nil_of_length_pos (by omega), ?_⟩
  have hsp : ((s.take k).takeWhile isspace).length < (s.take k).length := by
    by_contra hge
    have hall : (s.take k).takeWhile isspace = s.take k :=
      (List.takeWhile_prefix isspace).eq_of_length (by
        have := (List.takeWhile_prefix isspace (l := s.take k)).length_le
        omega)
    have hlong : k ≤ (s.takeWhile isspace).length := by
      conv_rhs => rw [← List.take_append_drop k s]
      rw [List.takeWhile_append_of_pos (List.takeWhile_eq_self_iff.1 hall), List.length_append]
      omega
    have : (s.takeWhile isspace).length ≤ numSkip s := Nat.le_add_right ..
    omega
  obtain ⟨hskip, -⟩ := skip_append hsp (s.drop k)
  rw [List.take_append_drop] at hskip
  have hnum : numDigits (s.take k) = numDigits s := by
    have hdrop : (s.take k).drop (numSkip s) = numDigits s := by
      rw [List.drop_take, hk, Nat.add_sub_cancel_left]
      exact (List.prefix_iff_eq_take.1 (List.takeWhile_prefix isdigit)).symm
    rw [numDigits, ← hskip, hdrop]
    exact List.takeWhile_eq_self_iff.2 fun b hb => List.mem_takeWhile_imp hb
  rw [(strtoul_written _).2, hnum, ← hskip, if_neg hds, hlen, hk]

theorem written_take (hs : (strtoul s).2 ≠ 0) : written (s.take (strtoul s).2) = written s := by
  have hread := (isNumber_take hs).read (strtoul_end hs)
  rw [List.take_append_drop] at hread
  exact hread.2.symm

theorem strtoul_prefix (hr : ∀ b ∈ r.head?, isdigit b = false) (h : (strtoul (s ++ r)).2 = 0) : (strtoul s).2 = 0 := by
  by_contra hne
  have hend : ∀ b ∈ (s.drop (strtoul s).2 ++ r).head?, isdigit b = false := by
    cases hdrop : s.drop (strtoul s).2 with
    | nil => exact hr
    | cons b l =>
      have hb := strtoul_end hne
      rw [hdrop] at hb
      exact hb
  have hread := ((isNumber_take hne).read hend).1
  rw [← List.append_assoc, List.take_append_drop, h, List.length_take_of_le (strtoul_le s)] at hread
  exact hne hread.symm

theorem IsNumber.not_mem (ht : IsNumber t) (hc : EndsNumber c) : c ∉ t := by
  intro hmem
  obtain ⟨a, b, rfl⟩ := List.append_of_mem hmem
  have hlen := ht.2
  have := strtoul_le a
  rw [strtoul_append hc, List.length_append, List.length_cons] at hlen
  omega

/-! ## Decimals -/

/-- A number in decimal: digits only. -/
structure Decimal where
  digits : List UInt8
  ne : digits ≠ []
  isdigit : ∀ b ∈ digits, isdigit b = true

/-- The number. -/
def Decimal.val (d : Decimal) : ℤ := digitsVal d.digits

variable {d : Decimal}

theorem Decimal.val_nonneg (d : Decimal) : 0 ≤ d.val := Int.natCast_nonneg _

theorem Decimal.head (d : Decimal) (r : List UInt8) : Lib.isdigit ((d.digits ++ r).headD 0) = true := by
  obtain ⟨b, s, h⟩ := List.exists_cons_of_ne_nil d.ne
  rw [h]
  exact d.isdigit b (h ▸ List.mem_cons_self)

theorem Decimal.not_mem (d : Decimal) (hc : Lib.isdigit c = false) : c ∉ d.digits :=
  not_mem_of_isdigit hc d.isdigit

/-- **A decimal is read** where it stands. -/
theorem Decimal.read (d : Decimal) (hr : ∀ b ∈ r.head?, Lib.isdigit b = false) :
    written (d.digits ++ r) = d.val ∧ (strtoul (d.digits ++ r)).2 = d.digits.length :=
  scan_digits d.isdigit d.ne hr

theorem Decimal.isNumber (d : Decimal) : IsNumber d.digits := by
  have h := (d.read (r := []) (by simp)).2
  rw [List.append_nil] at h
  exact ⟨d.ne, h⟩

theorem written_decimal (d : Decimal) : written d.digits = d.val := by
  have h := (d.read (r := []) (by simp)).1
  rwa [List.append_nil] at h

theorem exists_decimal (ht : isdigit (t.headD 0) = true) :
    ∃ (d : Decimal) (r : List UInt8), t = d.digits ++ r ∧ ∀ b ∈ r.head?, isdigit b = false := by
  have hne : t.takeWhile isdigit ≠ [] := by
    cases t with
    | nil => cases ht
    | cons b t =>
      have hb : isdigit b = true := ht
      rw [List.takeWhile_cons_of_pos hb]
      exact List.cons_ne_nil _ _
  refine ⟨⟨_, hne, fun b hb => List.mem_takeWhile_imp hb⟩, t.dropWhile isdigit,
    List.takeWhile_append_dropWhile.symm, fun b hb => ?_⟩
  have hnot := List.head?_dropWhile_not isdigit t
  rw [Option.mem_def.1 hb] at hnot
  exact hnot

end Lib
