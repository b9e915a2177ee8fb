import Dudlc.Lib.Numbers

/-!
# Decimal texts

Numbers in decimal notation with a fraction, and what `strtod` and `printf` make of them.

* `dblInt`: the conversion of a `double` to an `int`.
* `DecimalText`, `DecimalText.text`, `DecimalText.value`.
* `DecimalText.strtod_text`: scanning a text gives its value.
* `fixed6_int`: a whole number is printed with zeros, and is read back from it.
-/

namespace Lib

/-- The conversion of a `double` to an `int`, which is undefined out of the range of `int`. -/
def dblInt (q : ℚ) : Option ℤ :=
  let z := Int.tdiv q.num q.den
  if -INT_MAX - 1 ≤ z ∧ z ≤ INT_MAX then some z else none

theorem dblInt_some {q : ℚ} {z : ℤ} (h : dblInt q = some z) : -2 ^ 31 ≤ z ∧ z ≤ INT_MAX := by
  simp only [dblInt] at h
  split_ifs at h with hz
  obtain rfl := Option.some.inj h
  exact hz

theorem dblInt_int {z : ℤ} (hlo : -2 ^ 31 ≤ z) (hhi : z ≤ INT_MAX) : dblInt z = some z := by
  have hz : Int.tdiv (z : ℚ).num (z : ℚ).den = z := by simp
  rw [dblInt, hz]
  exact if_pos ⟨hlo, hhi⟩

/-- A sign, or none. -/
inductive Sign
  | none
  | plus
  | minus
  deriving DecidableEq

def Sign.text : Sign → List UInt8
  | none => []
  | plus => [43]
  | minus => [45]

/-- A number in decimal notation: a sign, digits, and a point with more digits. -/
structure DecimalText where
  sign : Sign
  whole : List UInt8
  frac : Option (List UInt8)
  whole_digits : ∀ b ∈ whole, isdigit b = true
  frac_digits : ∀ b ∈ frac.getD [], isdigit b = true
  digits : whole ≠ [] ∨ frac.getD [] ≠ []

namespace DecimalText

/-- The point and what stands behind it. -/
def fracText (d : DecimalText) : List UInt8 := d.frac.elim [] (46 :: ·)

def text (d : DecimalText) : List UInt8 := d.sign.text ++ (d.whole ++ d.fracText)

/-- The value without the sign. -/
def abs (d : DecimalText) : ℚ := digitsVal d.whole + digitsVal (d.frac.getD []) / 10 ^ (d.frac.getD []).length

def value (d : DecimalText) : ℚ := if d.sign = .minus then -d.abs else d.abs

end DecimalText

variable {d : DecimalText}

theorem digitsVal_append (a b : List UInt8) : digitsVal (a ++ b) = digitsVal a * 10 ^ b.length + digitsVal b := by
  have hfold : ∀ (l : List UInt8) (v : ℕ),
      l.foldl (fun v b => 10 * v + (b.toNat - 48)) v = v * 10 ^ l.length + digitsVal l := by
    intro l
    induction l with
    | nil => simp [digitsVal]
    | cons c l ih =>
      intro v
      have hc : digitsVal (c :: l) = (10 * 0 + (c.toNat - 48)) * 10 ^ l.length + digitsVal l := ih _
      rw [List.foldl_cons, ih, hc, List.length_cons]
      ring
  rw [digitsVal, List.foldl_append, hfold]
  rfl

theorem digitsVal_zeros (k : ℕ) : digitsVal (List.replicate k 48) = 0 := by
  induction k with
  | zero => rfl
  | succ k ih => exact ih

/-! ## Scanning -/

theorem DecimalText.head (d : DecimalText) : ∃ b r, d.whole ++ d.fracText = b :: r ∧ (isdigit b = true ∨ b = 46) := by
  rcases hw : d.whole with _ | ⟨b, ds⟩
  · rcases hf : d.frac with _ | fs
    · exact absurd d.digits (by simp [hw, hf])
    · exact ⟨46, fs, by simp [DecimalText.fracText, hf], Or.inr rfl⟩
  · exact ⟨b, ds ++ d.fracText, rfl, Or.inl (d.whole_digits b (by rw [hw]; exact List.mem_cons_self))⟩

theorem DecimalText.length_pos (d : DecimalText) : 0 < d.text.length := by
  obtain ⟨b, r, heq, -⟩ := d.head
  rw [DecimalText.text, heq, List.length_append, List.length_cons]
  omega

theorem DecimalText.sign_text (d : DecimalText) :
    Lib.sign d.text = (decide (d.sign = .minus), d.sign.text.length) := by
  obtain ⟨b, r, heq, hb⟩ := d.head
  rw [DecimalText.text, heq]
  cases d.sign with
  | none =>
    rw [Sign.text, List.nil_append]
    rcases hb with hb | rfl
    · exact sign_of_isdigit hb r
    · rfl
  | plus => rfl
  | minus => rfl

theorem DecimalText.spaces (d : DecimalText) : d.text.takeWhile isspace = [] := by
  obtain ⟨b, r, heq, hb⟩ := d.head
  rw [DecimalText.text, heq]
  cases d.sign with
  | none =>
    have hspace : isspace b = false := by
      rcases hb with hb | rfl
      · exact isspace_of_isdigit hb
      · rfl
    rw [Sign.text, List.nil_append, List.takeWhile_cons, hspace]
    rfl
  | plus => rfl
  | minus => rfl

theorem DecimalText.free (d : DecimalText) : 0 ∉ d.text := by
  have hsign : 0 ∉ d.sign.text := by cases d.sign <;> decide
  have hfrac : 0 ∉ d.fracText := by
    have hdigits := d.frac_digits
    rcases hf : d.frac with _ | fs
    · simp [DecimalText.fracText, hf]
    · rw [hf] at hdigits
      simpa [DecimalText.fracText, hf] using not_mem_of_isdigit (by decide) hdigits
  exact List.not_mem_append hsign (List.not_mem_append (not_mem_of_isdigit (by decide) d.whole_digits) hfrac)

/-- **A decimal text is scanned whole**, and gives its value. -/
theorem DecimalText.strtod_text (d : DecimalText) : strtod d.text = (d.value, d.text.length) := by
  have hwhole : (d.whole ++ d.fracText).takeWhile isdigit = d.whole := by
    refine takeWhile_digits d.whole_digits fun b hb => ?_
    rcases hf : d.frac with _ | fs
    · simp [DecimalText.fracText, hf] at hb
    · simp only [DecimalText.fracText, hf, Option.elim_some, List.head?_cons, Option.mem_def, Option.some.injEq] at hb
      rw [← hb]
      rfl
  have hdrop : d.text.drop d.sign.text.length = d.whole ++ d.fracText := List.drop_left
  have hdrop' : d.text.drop (d.sign.text.length + d.whole.length) = d.fracText := by
    rw [← List.drop_drop, hdrop, List.drop_left]
  rcases hf : d.frac with _ | fs
  · have hempty : d.fracText = [] := by rw [DecimalText.fracText, hf]; rfl
    have hdigits : d.whole ≠ [] := by simpa [hf] using d.digits
    have hval : (digitsVal (d.whole ++ []) : ℚ) * 10 ^ ((0 : ℤ) - (0 : ℕ)) = d.abs := by
      simp [DecimalText.abs, hf, digitsVal]
    have hlen : d.text.length = d.sign.text.length + d.whole.length := by
      rw [DecimalText.text, hempty, List.append_nil, List.length_append]
    rw [hempty] at hdrop'
    simp only [strtod, d.spaces, List.length_nil, List.drop_zero, d.sign_text, Nat.zero_add, hdrop, hwhole, hdrop',
      exponent, hdigits, false_and, if_false, List.head?_nil, reduceCtorEq, hval, decide_eq_true_eq, hlen, Nat.add_zero,
      DecimalText.value]
  · have hpoint : d.fracText = 46 :: fs := by rw [DecimalText.fracText, hf]; rfl
    have hfs : ∀ b ∈ fs, isdigit b = true := by simpa [hf] using d.frac_digits
    have hdigits : ¬ (d.whole = [] ∧ fs = []) := fun h => by simpa [hf, h] using d.digits
    have htake : fs.takeWhile isdigit = fs := List.takeWhile_eq_self_iff.2 hfs
    have hval : (digitsVal (d.whole ++ fs) : ℚ) * 10 ^ ((0 : ℤ) - fs.length) = d.abs := by
      rw [DecimalText.abs, hf, Option.getD_some, digitsVal_append, zero_sub, zpow_neg, zpow_natCast]
      push_cast
      field_simp
    have hlen : d.text.length = d.sign.text.length + d.whole.length + 1 + fs.length := by
      rw [DecimalText.text, hpoint, List.length_append, List.length_append, List.length_cons]
      omega
    have hend : d.text.drop (d.sign.text.length + d.whole.length + 1 + fs.length) = [] := by
      rw [← hlen, List.drop_length]
    rw [hpoint] at hdrop'
    simp only [strtod, d.spaces, List.length_nil, List.drop_zero, d.sign_text, Nat.zero_add, hdrop, hwhole, hdrop',
      exponent, htake, hdigits, if_false, List.head?_cons, if_true, hend, hval, decide_eq_true_eq, hlen, Nat.add_zero,
      DecimalText.value]

/-! ## Printing -/

theorem roundEven_int (z : ℤ) : roundEven z = z := by
  simp [roundEven]

/-- A whole number in decimal notation with six zeros behind the point. -/
def DecimalText.ofInt (z : ℤ) : DecimalText where
  sign := if z < 0 then .minus else .none
  whole := decimal z.natAbs
  frac := some (List.replicate 6 48)
  whole_digits := decimal_isdigit _
  frac_digits := fun b hb => by rw [List.eq_of_mem_replicate hb]; rfl
  digits := Or.inl (decimal_ne_nil _)

theorem DecimalText.ofInt_text (z : ℤ) : (DecimalText.ofInt z).text = fixed6 z := by
  have habs : |(z : ℚ)| * 10 ^ 6 = ((|z| * 10 ^ 6 : ℤ) : ℚ) := by push_cast; rfl
  have hn : (|z| * 10 ^ 6).natAbs = z.natAbs * 10 ^ 6 := by rw [Int.natAbs_mul, Int.natAbs_abs]; rfl
  have hsign : (if (z : ℚ) < 0 then [45] else []) = (if z < 0 then Sign.minus else .none).text := by
    simp only [Int.cast_lt_zero]
    split_ifs <;> rfl
  rw [fixed6, habs, roundEven_int, hn, Nat.mul_mod_left, Nat.mul_div_cancel _ (by decide), hsign, List.append_assoc]
  rfl

theorem DecimalText.ofInt_value (z : ℤ) : (DecimalText.ofInt z).value = z := by
  have habs : (DecimalText.ofInt z).abs = z.natAbs := by
    simp only [DecimalText.abs, DecimalText.ofInt, Option.getD_some, digitsVal_decimal, digitsVal_zeros, Nat.cast_zero,
      zero_div, add_zero]
  rw [DecimalText.value, habs]
  by_cases hz : z < 0
  · rw [if_pos (show (DecimalText.ofInt z).sign = .minus from if_pos hz), ← Int.cast_natCast, ← Int.cast_neg]
    exact congrArg Int.cast (by omega)
  · rw [if_neg (by rw [show (DecimalText.ofInt z).sign = .none from if_neg hz]; decide), ← Int.cast_natCast]
    exact congrArg Int.cast (by omega)

/-- **A whole number** is printed with six zeros, and is read back. -/
theorem fixed6_int (z : ℤ) : strtod (fixed6 z) = ((z : ℚ), (fixed6 z).length) := by
  rw [← DecimalText.ofInt_text, DecimalText.strtod_text, DecimalText.ofInt_value]

end Lib
