import Mathlib.Data.Nat.Digits.Lemmas
import Mathlib.Data.Rat.Floor
import Mathlib.Data.List.TakeWhile
import Mathlib.Tactic

/-!
# Numbers and formats of the C library

Scanning and printing of numbers over lists of bytes, for 32-bit `int` and 64-bit `long`.

* `isspace`, `isdigit`, `isalpha`, `strtol`, `strtoul`, `strtod`, `toInt`, `atoi`: scanning. The bytes of the memory behind the
  pointer are a list; the scan stops at the first byte that does not belong to the number.
* `decimal`, `decimalInt`, `fixed6`: printing.
* `strtol_decimalInt`: scanning reads a printed number back and stops right behind it.
* `Cstr`, `Arg`, `format`: what `printf` makes of a format and its arguments. Without arguments the text is that of the
  format or shorter (`format_noArgs`), and without `%` it is the format (`format_self`).
-/

namespace Lib

/-- `INT_MAX` -/
abbrev INT_MAX : ℤ := 2 ^ 31 - 1

/-- `LONG_MAX` -/
abbrev LONG_MAX : ℤ := 2 ^ 63 - 1

/-- The conversion of a `long` to an `int`. -/
def toInt (z : ℤ) : ℤ := Int.bmod z (2 ^ 32)

theorem toInt_eq {z : ℤ} (hz : -2 ^ 31 ≤ z ∧ z < 2 ^ 31) : toInt z = z := by
  rw [toInt, Int.bmod_eq_of_le (by omega) (by omega)]

theorem toInt_neg {z : ℤ} (hlo : 2 ^ 31 ≤ z) (hhi : z < 2 ^ 32) : toInt z < 0 := by
  have hmod : z % 2 ^ 32 = z := Int.emod_eq_of_lt (by omega) hhi
  simp only [toInt, Int.bmod, Nat.cast_pow, Nat.cast_ofNat, hmod]
  split_ifs <;> omega

/-- A number as an `unsigned int`. -/
def uint (z : ℤ) : ℕ := (z % 2 ^ 32).toNat

theorem uint_natCast {k : ℕ} (hk : k < 2 ^ 32) : uint k = k := by
  rw [uint, Int.emod_eq_of_lt (by omega) (by exact_mod_cast hk), Int.toNat_natCast]

theorem uint_sub {len l : ℕ} (hlen : len < 2 ^ 32) (hl : l ≤ len) : uint (len - l) = len - l := by
  unfold uint
  omega

/-! ## Scanning -/

/-- `isspace` -/
def isspace (b : UInt8) : Bool := b == 32 || (9 ≤ b && b ≤ 13)

/-- `isdigit` -/
def isdigit (b : UInt8) : Bool := 48 ≤ b && b ≤ 57

/-- `isalpha` -/
def isalpha (b : UInt8) : Bool := (65 ≤ b && b ≤ 90) || (97 ≤ b && b ≤ 122)

/-- `isalnum` -/
def isalnum (b : UInt8) : Bool := isalpha b || isdigit b

/-- `tolower` -/
def tolower (b : UInt8) : UInt8 := if 65 ≤ b && b ≤ 90 then b + 32 else b

/-- The value of a string of digits. -/
def digitsVal (ds : List UInt8) : ℕ := ds.foldl (fun v b => 10 * v + (b.toNat - 48)) 0

/-- The optional sign of a number. -/
def sign : List UInt8 → Bool × ℕ
  | 45 :: _ => (true, 1)
  | 43 :: _ => (false, 1)
  | _ => (false, 0)

/-- The value of a number, limited to the range of a `long`. -/
def clampLong (neg : Bool) (v : ℕ) : ℤ :=
  if neg then max (-LONG_MAX - 1) (-(v : ℤ)) else min LONG_MAX v

/-- `strtol(s, &end, 10)`: the value and the number of bytes before `end`. -/
def strtol (s : List UInt8) : ℤ × ℕ :=
  let sp := (s.takeWhile isspace).length
  let sg := sign (s.drop sp)
  let ds := (s.drop (sp + sg.2)).takeWhile isdigit
  if ds = [] then (0, 0) else (clampLong sg.1 (digitsVal ds), sp + sg.2 + ds.length)

/-- `ULONG_MAX` -/
abbrev ULONG_MAX : ℕ := 2 ^ 64 - 1

/-- `strtoul(s, &end, 10)` -/
def strtoul (s : List UInt8) : ℕ × ℕ :=
  let sp := (s.takeWhile isspace).length
  let sg := sign (s.drop sp)
  let ds := (s.drop (sp + sg.2)).takeWhile isdigit
  let v := digitsVal ds
  if ds = [] then (0, 0)
  else (if ULONG_MAX < v then ULONG_MAX else if sg.1 then (ULONG_MAX + 1 - v) % (ULONG_MAX + 1) else v,
    sp + sg.2 + ds.length)

/-- The exponent of a number with a point, and the bytes it takes. -/
def exponent : List UInt8 → ℤ × ℕ
  | b :: s =>
    let sg := sign s
    let ds := (s.drop sg.2).takeWhile isdigit
    if (b = 101 ∨ b = 69) ∧ ds ≠ [] then
      (if sg.1 then -(digitsVal ds : ℤ) else digitsVal ds, 1 + sg.2 + ds.length)
    else (0, 0)
  | [] => (0, 0)

/-- `strtod(s, &end)` for numbers in decimal notation, without rounding. -/
def strtod (s : List UInt8) : ℚ × ℕ :=
  let sp := (s.takeWhile isspace).length
  let sg := sign (s.drop sp)
  let ds := (s.drop (sp + sg.2)).takeWhile isdigit
  let n := sp + sg.2 + ds.length
  let frac := match s.drop n with
    | 46 :: r => r.takeWhile isdigit
    | _ => []
  if ds = [] ∧ frac = [] then (0, 0)
  else
    let n := if (s.drop n).head? = some 46 then n + 1 + frac.length else n
    let e := exponent (s.drop n)
    let v := (digitsVal (ds ++ frac) : ℚ) * 10 ^ (e.1 - frac.length)
    (if sg.1 then -v else v, n + e.2)

/-- `atoi` -/
def atoi (s : List UInt8) : ℤ := toInt (strtol s).1

theorem strtol_length_le (s : List UInt8) : (strtol s).2 ≤ s.length := by
  simp only [strtol]
  split_ifs with h
  · exact Nat.zero_le _
  · have hle := (List.takeWhile_prefix isdigit
      (l := s.drop ((s.takeWhile isspace).length + (sign (s.drop (s.takeWhile isspace).length)).2))).length_le
    have hpos := List.length_pos_of_ne_nil h
    rw [List.length_drop] at hle
    omega

/-! ## Printing -/

/-- A digit. -/
def digit (d : ℕ) : UInt8 := (48 + d).toUInt8

/-- A number in decimal. -/
def decimal (n : ℕ) : List UInt8 := if n = 0 then [48] else (Nat.digits 10 n).reverse.map digit

/-- An integer in decimal. -/
def decimalInt (z : ℤ) : List UInt8 := if z < 0 then 45 :: decimal z.natAbs else decimal z.natAbs

/-- Rounding to the nearest integer, and to the even one of two. -/
def roundEven (q : ℚ) : ℤ :=
  let d := q - ⌊q⌋
  if d < 1 / 2 then ⌊q⌋ else if 1 / 2 < d then ⌊q⌋ + 1
  else if ⌊q⌋ % 2 = 0 then ⌊q⌋ else ⌊q⌋ + 1

/-- A number with six digits behind the point. -/
def fixed6 (q : ℚ) : List UInt8 :=
  let n := (roundEven (|q| * 10 ^ 6)).natAbs
  let frac := decimal (n % 10 ^ 6)
  (if q < 0 then [45] else []) ++ decimal (n / 10 ^ 6) ++
    46 :: (List.replicate (6 - frac.length) 48 ++ frac)

theorem digit_ne_zero {d : ℕ} (h : d < 10) : digit d ≠ 0 := by
  revert d
  decide

theorem digit_lt : ∀ d < 10, isdigit (digit d) = true ∧ (digit d).toNat - 48 = d := by decide

theorem decimal_isdigit (n : ℕ) : ∀ b ∈ decimal n, isdigit b = true := by
  intro b hb
  unfold decimal at hb
  split_ifs at hb with h
  · obtain rfl := List.mem_singleton.1 hb
    decide
  · obtain ⟨d, hd, rfl⟩ := List.mem_map.1 hb
    exact (digit_lt d (Nat.digits_lt_base (by decide) (List.mem_reverse.1 hd))).1

theorem decimal_ne_nil (n : ℕ) : decimal n ≠ [] := by
  unfold decimal
  split_ifs with h
  · exact List.cons_ne_nil _ _
  · simpa [Nat.digits_ne_nil_iff_ne_zero] using h

theorem foldl_digits (ds : List ℕ) (hds : ∀ d ∈ ds, d < 10) :
    digitsVal (ds.reverse.map digit) = Nat.ofDigits 10 ds := by
  unfold digitsVal
  induction ds with
  | nil => rfl
  | cons d ds ih =>
    have ih := ih fun e he => hds e (List.mem_cons_of_mem d he)
    rw [List.reverse_cons, List.map_append, List.foldl_append, ih, Nat.ofDigits_cons]
    simp only [List.map_cons, List.map_nil, List.foldl_cons, List.foldl_nil,
      (digit_lt d (hds d List.mem_cons_self)).2]
    omega

theorem digitsVal_decimal (n : ℕ) : digitsVal (decimal n) = n := by
  unfold decimal
  split_ifs with h
  · rw [h]; rfl
  · rw [foldl_digits _ fun d hd => Nat.digits_lt_base (by decide) hd, Nat.ofDigits_digits]

theorem isspace_of_isdigit {b : UInt8} (h : isdigit b = true) : isspace b = false := by
  simp only [isdigit, Bool.and_eq_true, decide_eq_true_eq, UInt8.le_iff_toNat_le,
    UInt8.reduceToNat] at h
  rw [isspace, Bool.or_eq_false_iff, Bool.and_eq_false_iff, beq_eq_false_iff_ne]
  refine ⟨?_, Or.inr ?_⟩
  · rintro rfl
    exact absurd h.1 (by decide)
  · simp only [decide_eq_false_iff_not, UInt8.le_iff_toNat_le, UInt8.reduceToNat]
    omega

theorem sign_of_isdigit {b : UInt8} (h : isdigit b = true) (r : List UInt8) :
    sign (b :: r) = (false, 0) := by
  unfold sign
  split
  · next heq => obtain ⟨rfl, -⟩ := List.cons.inj heq; cases h
  · next heq => obtain ⟨rfl, -⟩ := List.cons.inj heq; cases h
  · rfl

theorem sign_cons (b : UInt8) (t : List UInt8) :
    sign (b :: t) = if b = 45 then (true, 1) else if b = 43 then (false, 1) else (false, 0) := by
  by_cases hm : b = 45
  · subst hm
    rfl
  by_cases hp : b = 43
  · subst hp
    rfl
  rw [if_neg hm, if_neg hp]
  unfold sign
  split
  · next heq => exact absurd (List.cons.inj heq).1 hm
  · next heq => exact absurd (List.cons.inj heq).1 hp
  · rfl

theorem sign_append {t : List UInt8} (ht : t ≠ []) (r : List UInt8) : sign (t ++ r) = sign t := by
  obtain ⟨b, t, rfl⟩ := List.exists_cons_of_ne_nil ht
  rw [List.cons_append, sign_cons, sign_cons]

theorem takeWhile_digits {ds r : List UInt8} (hds : ∀ b ∈ ds, isdigit b = true) (hr : ∀ b ∈ r.head?, isdigit b = false) :
    (ds ++ r).takeWhile isdigit = ds := by
  rw [List.takeWhile_append_of_pos hds]
  cases r with
  | nil => simp
  | cons b r => rw [List.takeWhile_cons, hr b rfl]; simp

theorem takeWhile_decimal (n : ℕ) {r : List UInt8} (hr : ∀ b ∈ r.head?, isdigit b = false) :
    (decimal n ++ r).takeWhile isdigit = decimal n :=
  takeWhile_digits (decimal_isdigit n) hr

/-- **Scanning reads a printed number back.** -/
theorem strtol_decimalInt {z : ℤ} (hlo : -LONG_MAX - 1 ≤ z) (hhi : z ≤ LONG_MAX) {r : List UInt8}
    (hr : ∀ b ∈ r.head?, isdigit b = false) :
    strtol (decimalInt z ++ r) = (z, (decimalInt z).length) := by
  obtain ⟨b, ds, hds⟩ := List.exists_cons_of_ne_nil (decimal_ne_nil z.natAbs)
  have hb : isdigit b = true := decimal_isdigit z.natAbs b (hds ▸ List.mem_cons_self)
  have htake := takeWhile_decimal z.natAbs hr
  by_cases hz : z < 0
  · have hneg : decimalInt z = 45 :: decimal z.natAbs := if_pos hz
    have hsp : ((45 :: (decimal z.natAbs ++ r)).takeWhile isspace).length = 0 := rfl
    have hcl : clampLong true z.natAbs = z := by
      simp only [clampLong, if_true]
      omega
    simp only [hneg, List.cons_append, strtol, hsp, List.drop_zero, sign, Nat.zero_add,
      List.drop_one, List.tail_cons, htake, if_neg (decimal_ne_nil z.natAbs), digitsVal_decimal, hcl,
      List.length_cons, Nat.add_comm 1]
  · have hpos : decimalInt z = decimal z.natAbs := if_neg hz
    have hsp : ((decimal z.natAbs ++ r).takeWhile isspace).length = 0 := by
      rw [hds, List.cons_append, List.takeWhile_cons, isspace_of_isdigit hb]
      rfl
    have hsg : sign (decimal z.natAbs ++ r) = (false, 0) := by
      rw [hds, List.cons_append, sign_of_isdigit hb]
    have hcl : clampLong false z.natAbs = z := by
      simp only [clampLong, Bool.false_eq_true, if_false]
      omega
    simp only [hpos, strtol, hsp, List.drop_zero, hsg, Nat.add_zero, htake,
      if_neg (decimal_ne_nil z.natAbs), digitsVal_decimal, hcl, Nat.zero_add]

/-! ## Formats -/

/-- A C string: bytes before a NUL. -/
structure Cstr where
  bytes : List UInt8
  free : 0 ∉ bytes
  deriving DecidableEq

/-- The string from its byte `n` on. -/
def Cstr.drop (s : Cstr) (n : ℕ) : Cstr := ⟨s.bytes.drop n, fun h => s.free (List.mem_of_mem_drop h)⟩

/-- The first `n` bytes of a string. -/
def Cstr.take (s : Cstr) (n : ℕ) : Cstr := ⟨s.bytes.take n, fun h => s.free (List.mem_of_mem_take h)⟩

/-- The byte at index `i`; behind the bytes of the string it is the NUL. -/
def Cstr.byte (s : Cstr) (i : ℕ) : UInt8 := s.bytes.getD i 0

/-- The number of bytes from the index `i` on. -/
def Cstr.left (s : Cstr) (i : ℕ) : ℕ := s.bytes.length - i

theorem Cstr.left_lt {s : Cstr} {i j k : ℕ} (h : s.byte i ≠ 0) (hi : j ≤ i) (hk : j < k) :
    s.left k < s.left j := by
  have hlen : i < s.bytes.length := by
    by_contra hi
    exact h (by rw [byte, List.getD_eq_getElem?_getD, List.getElem?_eq_none (not_lt.1 hi)]; rfl)
  simp only [left]
  omega

/-- The string that some bytes start with. -/
def Cstr.ofBytes (l : List UInt8) : Cstr :=
  ⟨l.takeWhile fun b => b ≠ 0, fun h => by simpa using List.mem_takeWhile_imp h⟩

theorem Cstr.ofBytes_eq {l : List UInt8} (h : 0 ∉ l) : Cstr.ofBytes l = ⟨l, h⟩ := by
  have hall : l.takeWhile (fun b => b ≠ 0) = l :=
    List.takeWhile_eq_self_iff.2 fun b hb => by simpa using ne_of_mem_of_not_mem hb h
  rw [ofBytes, Cstr.mk.injEq]
  exact hall

/-- A string literal. -/
def Cstr.lit (s : String) : Cstr := .ofBytes (s.toList.map Char.toUInt8)

/-- An argument of `printf`. -/
inductive Arg
  | int (z : ℤ)
  | str (s : Cstr)
  | dbl (q : ℚ)
  deriving DecidableEq

/-- The text `printf` makes of a format and its arguments. A directive without a fitting argument
is undefined. -/
def format : List UInt8 → List Arg → Option (List UInt8)
  | [], _ => some []
  | 37 :: 37 :: f, as => (format f as).map ([37] ++ ·)
  | 37 :: 100 :: f, .int z :: as => (format f as).map (decimalInt z ++ ·)
  | 37 :: 117 :: f, .int z :: as => (format f as).map (decimalInt (z % 2 ^ 32) ++ ·)
  | 37 :: 115 :: f, .str s :: as => (format f as).map (s.bytes ++ ·)
  | 37 :: 102 :: f, .dbl q :: as => (format f as).map (fixed6 q ++ ·)
  | 37 :: _, _ => none
  | b :: f, as => (format f as).map ([b] ++ ·)

theorem format_noArgs {f t : List UInt8} (h : format f [] = some t) :
    t.length ≤ f.length ∧ (t.length = f.length → 37 ∉ f) := by
  generalize has : ([] : List Arg) = as at h
  fun_induction format f as generalizing t with
  | case1 as =>
    obtain rfl := Option.some.inj h
    exact ⟨le_rfl, fun _ => List.not_mem_nil⟩
  | case2 f as ih =>
    obtain ⟨t', ht', rfl⟩ := Option.map_eq_some_iff.1 h
    have := (ih has ht').1
    simp only [List.singleton_append, List.length_cons]
    omega
  | case7 f as => cases h
  | case8 b f as _ _ _ _ _ hb ih =>
    obtain ⟨t', ht', rfl⟩ := Option.map_eq_some_iff.1 h
    obtain ⟨hle, hfree⟩ := ih has ht'
    simp only [List.singleton_append, List.length_cons, Nat.add_le_add_iff_right, Nat.add_right_cancel_iff]
    refine ⟨hle, fun heq hmem => ?_⟩
    rcases List.mem_cons.1 hmem with h37 | hmem
    · exact hb h37.symm
    · exact hfree heq hmem
  | _ => cases has

theorem format_append {a f : List UInt8} {as : List Arg} (h : 37 ∉ a) :
    format (a ++ f) as = (format f as).map (a ++ ·) := by
  induction a with
  | nil => simp
  | cons b a ih =>
    have hb : b ≠ 37 := (List.ne_of_not_mem_cons h).symm
    have hstep : ∀ g, format (b :: g) as = (format g as).map ([b] ++ ·) := fun g => by
      rw [format] <;> simp [hb]
    rw [List.cons_append, hstep, ih (List.not_mem_of_not_mem_cons h), Option.map_map]
    rfl

theorem format_self {f : List UInt8} (as : List Arg) (h : 37 ∉ f) : format f as = some f := by
  have happend : format (f ++ []) as = (format [] as).map (f ++ ·) := format_append h
  rwa [List.append_nil, format, Option.map_some, List.append_nil] at happend

theorem not_mem_of_isdigit {c : UInt8} (hc : isdigit c = false) {ds : List UInt8}
    (hds : ∀ b ∈ ds, isdigit b = true) : c ∉ ds := fun h => by simp [hds c h] at hc

theorem not_mem_decimal {c : UInt8} (hc : isdigit c = false) (n : ℕ) : c ∉ decimal n :=
  not_mem_of_isdigit hc (decimal_isdigit n)

theorem length_decimal_le {n k : ℕ} (hk : 0 < k) (hn : n < 10 ^ k) : (decimal n).length ≤ k := by
  unfold decimal
  split_ifs with h
  · exact hk
  · rw [List.length_map, List.length_reverse]
    exact (Nat.digits_length_le_iff (by decide) n).2 hn

theorem length_decimalInt_le {z : ℤ} (hlo : -2 ^ 31 ≤ z) (hhi : z ≤ INT_MAX) : (decimalInt z).length ≤ 11 := by
  have hmax : z ≤ 2 ^ 31 - 1 := hhi
  have hlen : (decimal z.natAbs).length ≤ 10 := length_decimal_le (by decide) (by omega)
  unfold decimalInt
  split_ifs
  · exact Nat.succ_le_succ hlen
  · exact hlen.trans (by decide)

theorem not_mem_decimalInt {c : UInt8} (hc : isdigit c = false) (hm : c ≠ 45) (z : ℤ) :
    c ∉ decimalInt z := by
  unfold decimalInt
  split_ifs
  · simpa [hm] using not_mem_decimal hc _
  · exact not_mem_decimal hc _

theorem not_mem_fixed6 {c : UInt8} (hc : isdigit c = false) (hm : c ≠ 45) (hp : c ≠ 46) (q : ℚ) :
    c ∉ fixed6 q := by
  have h48 : c ≠ 48 := by rintro rfl; cases hc
  have := fun n => not_mem_decimal hc n
  simp only [fixed6, List.mem_append, List.mem_cons, List.mem_replicate, not_or, not_and]
  refine ⟨⟨?_, this _⟩, hp, fun _ => h48, this _⟩
  split_ifs <;> simp [hm]

/-- **A byte of the output** that belongs to no number comes from the format or a string. -/
theorem not_mem_format {c : UInt8} (hc : isdigit c = false) (hm : c ≠ 45) (hp : c ≠ 46) {f : List UInt8}
    {as : List Arg} (hf : c ∉ f) (has : ∀ s, Arg.str s ∈ as → c ∉ s.bytes) {t : List UInt8}
    (h : format f as = some t) : c ∉ t := by
  induction f, as using format.induct generalizing t with
  | case1 as =>
    obtain rfl : [] = t := by simpa [format] using h
    exact List.not_mem_nil
  | case2 f as ih =>
    simp only [format, Option.map_eq_some_iff] at h
    obtain ⟨t', ht', rfl⟩ := h
    simp only [List.mem_cons, not_or] at hf
    simpa [hf.1] using ih hf.2.2 has ht'
  | case3 f z as ih =>
    simp only [format, Option.map_eq_some_iff] at h
    obtain ⟨t', ht', rfl⟩ := h
    simp only [List.mem_cons, not_or] at hf
    simpa [not_mem_decimalInt hc hm] using ih hf.2.2 (fun s hs => has s (by simp [hs])) ht'
  | case4 f z as ih =>
    simp only [format, Option.map_eq_some_iff] at h
    obtain ⟨t', ht', rfl⟩ := h
    simp only [List.mem_cons, not_or] at hf
    simpa [not_mem_decimalInt hc hm] using ih hf.2.2 (fun s hs => has s (by simp [hs])) ht'
  | case5 f s as ih =>
    simp only [format, Option.map_eq_some_iff] at h
    obtain ⟨t', ht', rfl⟩ := h
    simp only [List.mem_cons, not_or] at hf
    simpa [has s List.mem_cons_self] using ih hf.2.2 (fun s hs => has s (by simp [hs])) ht'
  | case6 f q as ih =>
    simp only [format, Option.map_eq_some_iff] at h
    obtain ⟨t', ht', rfl⟩ := h
    simp only [List.mem_cons, not_or] at hf
    simpa [not_mem_fixed6 hc hm hp] using ih hf.2.2 (fun s hs => has s (by simp [hs])) ht'
  | case7 f as h1 h2 h3 h4 h5 =>
    rw [format] at h <;> first | cases h | assumption
  | case8 b f as h1 h2 h3 h4 h5 h6 ih =>
    rw [format] at h <;> try assumption
    simp only [Option.map_eq_some_iff] at h
    obtain ⟨t', ht', rfl⟩ := h
    simp only [List.mem_cons, not_or] at hf
    simpa [hf.1] using ih hf.2 has ht'

end Lib
