import Dudlc.Lib.Mem
import Dudlc.Lib.Numbers

/-!
# Printing into a buffer

`sprintf` with flags, widths and precisions, and what `snprintf` and `strftime` do to a block of memory.

* `Spec`, `sprintf`: the text of a format; `sprintf_free`.
* `Tm`, `timeText`: times, and the text of a format of `strftime`.
* `Clib`: what the C library leaves open, within its contracts.
* `snprintf`, `strftime`, `strcat`; `snprintf_within`, `strftime_within`: they stay in the array they are given;
  `snprintf_text`, `strftime_text`, `strcat_some`, `strcat_none`.
-/

namespace Lib

/-! ## Formats -/

/-- A conversion specification of `printf`. -/
structure Spec where
  left : Bool := false
  zero : Bool := false
  width : ℕ := 0
  prec : Option ℕ := none

/-- A digit of a flag, a width or a precision. -/
def Spec.digit (sp : Spec) (b : UInt8) : Spec :=
  let d := b.toNat - 48
  match sp.prec with
  | some p => { sp with prec := some (10 * p + d) }
  | none => if d = 0 ∧ sp.width = 0 then { sp with zero := true } else { sp with width := 10 * sp.width + d }

/-- A text in its field. -/
def Spec.pad (sp : Spec) (t : List UInt8) : List UInt8 :=
  if sp.left then t ++ List.replicate (sp.width - t.length) 32
  else List.replicate (sp.width - t.length) 32 ++ t

/-- A number in its field: zeros stand behind the sign. -/
def Spec.num (sp : Spec) (z : ℤ) : List UInt8 :=
  if sp.zero && !sp.left then
    (if z < 0 then [45] else []) ++
      List.replicate (sp.width - (decimalInt z).length) 48 ++ decimal z.natAbs
  else sp.pad (decimalInt z)

/-- A string in its field: the precision is the number of bytes that are printed. -/
def Spec.str (sp : Spec) (s : Cstr) : List UInt8 :=
  sp.pad (match sp.prec with | some p => s.bytes.take p | none => s.bytes)

/-- The text of a format, inside a conversion specification or outside. A directive without a fitting
argument is undefined. -/
def formatFrom : Option Spec → List UInt8 → List Arg → Option (List UInt8)
  | none, [], _ => some []
  | none, b :: f, as =>
    if b = 37 then formatFrom (some {}) f as else (formatFrom none f as).map (b :: ·)
  | some _, [], _ => none
  | some sp, b :: f, as =>
    if b = 45 then formatFrom (some { sp with left := true }) f as
    else if b = 46 then formatFrom (some { sp with prec := some 0 }) f as
    else if isdigit b then formatFrom (some (sp.digit b)) f as
    else match as with
      | .int z :: as => if b = 100 ∧ sp.prec = none then (formatFrom none f as).map (sp.num z ++ ·) else none
      | .str s :: as => if b = 115 then (formatFrom none f as).map (sp.str s ++ ·) else none
      | _ => none

/-- `sprintf` -/
def sprintf (f : Cstr) (as : List Arg) : Option (List UInt8) := formatFrom none f.bytes as

theorem Spec.pad_free {sp : Spec} {t : List UInt8} (h : 0 ∉ t) : 0 ∉ sp.pad t := by
  simp only [Spec.pad]
  split_ifs <;> simp [h]

theorem Spec.str_free (sp : Spec) (s : Cstr) : 0 ∉ sp.str s := by
  refine Spec.pad_free ?_
  split
  · exact fun h => s.free (List.mem_of_mem_take h)
  · exact s.free

theorem Spec.str_plain (s : Cstr) : Spec.str {} s = s.bytes := by simp [Spec.str, Spec.pad]

theorem Spec.num_plain (z : ℤ) : Spec.num {} z = decimalInt z := by simp [Spec.num, Spec.pad]

theorem Spec.num_free (sp : Spec) (z : ℤ) : 0 ∉ sp.num z := by
  have hz : ∀ n, 0 ∉ decimal n := not_mem_decimal (by decide)
  simp only [Spec.num]
  split_ifs
  · simp [hz]
  · simp [hz]
  · exact Spec.pad_free (not_mem_decimalInt (by decide) (by decide) z)

theorem formatFrom_free {f : List UInt8} {sp : Option Spec} {as : List Arg} {t : List UInt8} (hf : 0 ∉ f)
    (h : formatFrom sp f as = some t) : 0 ∉ t := by
  have hcons : ∀ {l : List UInt8} {o : Option (List UInt8)} {t}, 0 ∉ l → (∀ {u}, o = some u → 0 ∉ u) →
      o.map (l ++ ·) = some t → 0 ∉ t := by
    intro l o t hl ho ht
    obtain ⟨u, hu, rfl⟩ := Option.map_eq_some_iff.1 ht
    exact List.not_mem_append hl (ho hu)
  fun_induction formatFrom sp f as generalizing t with
  | case1 =>
    cases h
    exact List.not_mem_nil
  | case2 f as ih | case5 _ f as ih | case6 _ f as _ ih | case7 _ b f as _ _ _ ih =>
    exact ih (List.not_mem_of_not_mem_cons hf) h
  | case3 b f as _ ih =>
    exact hcons (l := [b]) (by simpa using List.ne_of_not_mem_cons hf) (ih (List.not_mem_of_not_mem_cons hf)) h
  | case8 sp b f _ _ _ z as _ ih => exact hcons (Spec.num_free sp z) (ih (List.not_mem_of_not_mem_cons hf)) h
  | case10 sp f s as _ _ _ ih => exact hcons (Spec.str_free sp s) (ih (List.not_mem_of_not_mem_cons hf)) h
  | case4 | case9 | case11 | case12 => cases h

theorem sprintf_free {f : Cstr} {as : List Arg} {t : List UInt8} (h : sprintf f as = some t) : 0 ∉ t :=
  formatFrom_free f.free h

/-! ## Times -/

/-- `struct tm` -/
structure Tm where
  sec : Fin 61
  min : Fin 60
  hour : Fin 24
  mday : Fin 32
  mon : Fin 12
  year : ℤ

/-- Two digits. -/
def two (n : ℕ) : List UInt8 := [digit (n / 10), digit (n % 10)]

/-- A conversion of `strftime`. -/
def Tm.conv (t : Tm) (b : UInt8) : Option (List UInt8) :=
  if b = 83 then some (two t.sec)
  else if b = 77 then some (two t.min)
  else if b = 72 then some (two t.hour)
  else if b = 100 then some (two t.mday)
  else if b = 109 then some (two (t.mon + 1))
  else if b = 89 then some (decimalInt (t.year + 1900))
  else none

/-- The text of a format of `strftime`. -/
def timeText : List UInt8 → Tm → Option (List UInt8)
  | [], _ => some []
  | [37], _ => none
  | 37 :: b :: f, t => do return (← t.conv b) ++ (← timeText f t)
  | b :: f, t => (timeText f t).map (b :: ·)

/-! ## The library -/

/-- What the C library leaves open: the result of `snprintf`, which is the length of the text, or negative
for an error; local time; the date of a time in `gmtime`, whose clock is exact; and what `strftime` leaves in
an array that is too short. -/
structure Clib where
  printed : List UInt8 → ℤ
  printed_spec : ∀ t, printed t = t.length ∧ printed t ≤ INT_MAX ∨ -2 ^ 31 ≤ printed t ∧ printed t < 0
  localtime : ℤ → Tm
  gmtime : ℤ → Tm
  gmtime_sec : ∀ d, ((gmtime d).sec : ℤ) = d % 60
  gmtime_min : ∀ d, ((gmtime d).min : ℤ) = d / 60 % 60
  gmtime_hour : ∀ d, ((gmtime d).hour : ℤ) = d / 3600 % 24
  junk : ℕ → UInt8

/-- A library that reports -1 for a text longer than INT_MAX and has local time in Greenwich; dates are left
out. -/
def Clib.glibc : Clib :=
  let clock (d : ℤ) : Tm := {
    sec := ⟨(d % 60).toNat, by omega⟩
    min := ⟨(d / 60 % 60).toNat, by omega⟩
    hour := ⟨(d / 3600 % 24).toNat, by omega⟩
    mday := 1
    mon := 0
    year := 70 }
  { printed := fun t => if t.length ≤ INT_MAX then t.length else -1
    printed_spec := fun t => by
      split_ifs with h
      · exact Or.inl ⟨rfl, h⟩
      · exact Or.inr ⟨by decide, by decide⟩
    localtime := clock
    gmtime := clock
    gmtime_sec := fun d => Int.toNat_of_nonneg (by omega)
    gmtime_min := fun d => Int.toNat_of_nonneg (by omega)
    gmtime_hour := fun d => Int.toNat_of_nonneg (by omega)
    junk := fun _ => 0 }

theorem glibc_printed {t : List UInt8} (h : 2 ^ 31 ≤ t.length) : Clib.glibc.printed t = -1 := by
  have hmax : INT_MAX = 2 ^ 31 - 1 := rfl
  exact if_neg (by omega)

variable {n : ℕ}

/-- `snprintf(buf + i, size, f, ..)`: its result and the buffer. -/
def snprintf (c : Clib) (m : Block UInt8 n) (i size : ℕ) (f : Cstr) (as : List Arg) :
    Option (ℤ × Block UInt8 n) := do
  let t ← sprintf f as
  if size = 0 then return (c.printed t, m)
  else return (c.printed t, ← m.blit i (t.take (size - 1) ++ [0]))

/-- `strftime(buf + i, size, f, t)` -/
def strftime (c : Clib) (m : Block UInt8 n) (i size : ℕ) (f : Cstr) (t : Tm) : Option (ℕ × Block UInt8 n) := do
  let s ← timeText f.bytes t
  if s.length < size then return (s.length, ← m.blit i (s ++ [0]))
  else return (0, ← m.blit i ((List.range size).map c.junk))

/-- `strcat(buf, s)` -/
def strcat (m : Block UInt8 n) (s : Cstr) : Option (Block UInt8 n) := do
  m.blit (← cstr m 0).length (s.bytes ++ [0])

variable {m : Block UInt8 n} {i size : ℕ} {t : List UInt8} {s : Cstr}

/-! ## Stores -/

theorem snprintf_eq {c : Clib} {f : Cstr} {as : List Arg} (ht : sprintf f as = some t) (hsize : size ≠ 0) :
    snprintf c m i size f as = (m.blit i (t.take (size - 1) ++ [0])).map fun m' => (c.printed t, m') := by
  rw [snprintf, ht, Option.bind_eq_bind, Option.bind_some, if_neg hsize]
  cases m.blit i (t.take (size - 1) ++ [0]) <;> rfl

theorem snprintf_zero {c : Clib} {f : Cstr} {as : List Arg} (ht : sprintf f as = some t) :
    snprintf c m i 0 f as = some (c.printed t, m) := by
  rw [snprintf, ht, Option.bind_eq_bind, Option.bind_some, if_pos rfl]
  rfl

theorem snprintf_within (c : Clib) {f : Cstr} {as : List Arg} (ht : sprintf f as = some t) (hi : i + size ≤ n) :
    ∃ m', snprintf c m i size f as = some (c.printed t, m') ∧ (size ≠ 0 → 0 ∈ m'.cells) ∧ (size = 0 → m' = m) := by
  by_cases hsize : size = 0
  · subst hsize
    exact ⟨m, snprintf_zero ht, fun h => absurd rfl h, fun _ => rfl⟩
  have hlen : (t.take (size - 1) ++ [0]).length ≤ size := by
    rw [List.length_append, List.length_take, List.length_singleton]
    omega
  obtain ⟨m', hm', hcells⟩ := Block.blit_cells (m := m) (hi.trans' (Nat.add_le_add_left hlen i))
  refine ⟨m', by rw [snprintf_eq ht hsize, hm']; rfl, fun _ => ?_, fun h => absurd h hsize⟩
  rw [hcells]
  simp

theorem snprintf_text (c : Clib) {f : Cstr} {as : List Arg} {m : Block UInt8 size} (ht : sprintf f as = some t)
    (hfree : 0 ∉ t) (hsize : size ≠ 0) :
    ∃ m', snprintf c m 0 size f as = some (c.printed t, m') ∧ cstr m' 0 = some (t.take (size - 1)) := by
  obtain ⟨m', hm', hs, -⟩ := blit_cstr (m := m) (i := 0) (t := t.take (size - 1))
    (fun h => hfree (List.mem_of_mem_take h)) (by rw [List.length_take]; omega)
  exact ⟨m', by rw [snprintf_eq ht hsize, hm']; rfl, hs⟩

theorem strftime_within (c : Clib) {f : Cstr} {tm : Tm} (ht : timeText f.bytes tm = some t) (hi : i + size ≤ n) :
    ∃ m', strftime c m i size f tm = some (if t.length < size then t.length else 0, m') := by
  rw [strftime, ht, Option.bind_eq_bind, Option.bind_some]
  split_ifs with hfits
  · obtain ⟨m', hm', -⟩ := Block.blit_cells (m := m) (i := i) (b := t ++ [0])
      (by rw [List.length_append, List.length_singleton]; omega)
    exact ⟨m', by rw [hm']; rfl⟩
  · obtain ⟨m', hm', -⟩ := Block.blit_cells (m := m) (i := i) (b := (List.range size).map c.junk)
      (by rw [List.length_map, List.length_range]; exact hi)
    exact ⟨m', by rw [hm']; rfl⟩

theorem strftime_text (c : Clib) {f : Cstr} {tm : Tm} {m : Block UInt8 size} (ht : timeText f.bytes tm = some t)
    (hfree : 0 ∉ t) (hlen : t.length < size) :
    ∃ m', strftime c m 0 size f tm = some (t.length, m') ∧ cstr m' 0 = some t := by
  obtain ⟨m', hm', hs, -⟩ := blit_cstr (m := m) (i := 0) hfree (by omega)
  exact ⟨m', by rw [strftime, ht, Option.bind_eq_bind, Option.bind_some, if_pos hlen, hm']; rfl, hs⟩

/-- **`strcat` stays in its buffer** just when there is room for the string and the NUL. -/
theorem strcat_some (h : cstr m 0 = some t) (hn : t.length + s.bytes.length < n) :
    ∃ m', strcat m s = some m' ∧ cstr m' 0 = some (t ++ s.bytes) := by
  obtain ⟨a, r, hcells, ha, ht⟩ := cstr_split h
  obtain rfl := List.length_eq_zero_iff.1 ha
  obtain ⟨m', hm', hs, htake⟩ := blit_cstr (m := m) s.free hn
  refine ⟨m', by rw [strcat, h]; exact hm', ?_⟩
  obtain ⟨a, r', hcells', ha, hfree⟩ := cstr_split hs
  have hfront : a = t := by
    have hleft : m'.cells.take t.length = a := by rw [hcells', ← ha, List.take_left]
    rw [← hleft, htake, hcells, List.nil_append, List.take_left]
  rw [hfront] at hcells'
  have hall : m'.cells = [] ++ ((t ++ s.bytes) ++ 0 :: r') := by rw [hcells', List.nil_append, List.append_assoc]
  refine cstr_append hall fun h0 => ?_
  rcases List.mem_append.1 h0 with h0 | h0
  · exact ht h0
  · exact hfree h0

theorem strcat_none (h : cstr m 0 = some t) (hn : n ≤ t.length + s.bytes.length) : strcat m s = none := by
  rw [strcat, h]
  exact Block.blit_none (by rw [List.length_append, List.length_singleton]; omega)

end Lib
