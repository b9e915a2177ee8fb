import Dudlc.Lib.Mem
import Dudlc.Lib.Numbers

/-!
# Records of separated fields in memory

A reader takes a value from the memory at an index and says where it ends; between two fields it steps
over one byte, whatever that byte is. The line it is meant for is a C string, and behind the string
there is more memory.

* `Reader`, `number`, `text`, `Reader.sep`, `Reader.map`, `record`.
* `Shape`: the fields a reader takes in order; `Shape.Enough`: every field but the last is followed by
  a byte of the line.
* `Reads`: a reader takes the fields of a shape; `Reads.sep`, `Reads.record`.
* **`Reads.lineOnly_iff`**: a reader does not look behind the line just when the line has enough fields.
-/

namespace Lib

/-- The tab between two fields. -/
abbrev TAB : UInt8 := 9

/-- Reading a value from the memory at an index: the value, or `none` for one that is malformed, and the
index behind it. -/
abbrev Reader (α : Type) := (n : ℕ) → Block UInt8 n → ℕ → Option (Option α × ℕ)

variable {α β : Type}

/-- `strtol` at an index, for an `int`. A number without digits is malformed. -/
def number : Reader ℤ := fun _ m s => do
  let v := strtol (← cstr m s)
  if v.2 = 0 then return (none, s) else return (some (toInt v.1), s + v.2)

/-- What `f` makes of the text up to the next tab. -/
def text (f : List UInt8 → α) : Reader α := fun _ m s => do
  let k ← strcspn [TAB] m s
  return (some (f ((m.cells.drop s).take k)), s + k)

/-- A field, one byte that is not looked at, and what follows. -/
def Reader.sep (p : Reader α) (q : α → Reader β) : Reader β := fun n m s => do
  match ← p n m s with
  | (some a, e) => q a n m (e + 1)
  | (none, e) => return (none, e)

/-- The last field. -/
def Reader.map (p : Reader α) (f : α → β) : Reader β := fun n m s => do
  let (a, e) ← p n m s
  return (a.map f, e)

/-- A whole record: a malformed one ends where it starts. -/
def record (p : Reader α) : Reader α := fun n m line => do
  match ← p n m line with
  | (some a, e) => return (some a, e)
  | (none, _) => return (none, line)

/-! ## Shapes -/

/-- The fields of a record. -/
inductive Shape
  | number
  | text
  | seq (a b : Shape)

/-- The bytes the fields take from a line, unless one of them is malformed. -/
def Shape.width : Shape → List UInt8 → Option ℕ
  | .number, l => if (strtol l).2 = 0 then none else some (strtol l).2
  | .text, l => some (l.takeWhile fun b => b ≠ TAB).length
  | .seq a b, l => do
    let i ← a.width l
    let j ← b.width (l.drop (i + 1))
    return i + 1 + j

/-- Every field but the last is followed by a byte of the line, up to the first malformed field. -/
def Shape.Enough : Shape → List UInt8 → Prop
  | .number, _ => True
  | .text, _ => True
  | .seq a b, l => a.Enough l ∧
    ∀ i, a.width l = some i → i < l.length ∧ b.Enough (l.drop (i + 1))

/-- The number of fields. -/
def Shape.leaves : Shape → ℕ
  | .number => 1
  | .text => 1
  | .seq a b => a.leaves + b.leaves

instance Shape.decidableEnough : ∀ (sh : Shape) (l : List UInt8),
    Decidable (sh.Enough l)
  | .number, _ => isTrue trivial
  | .text, _ => isTrue trivial
  | .seq a b, l =>
    have := Shape.decidableEnough a l
    have : Decidable (∀ i, a.width l = some i → i < l.length ∧ b.Enough (l.drop (i + 1))) :=
      match _h : a.width l with
      | none => isTrue nofun
      | some i =>
        have := Shape.decidableEnough b (l.drop (i + 1))
        decidable_of_iff (i < l.length ∧ b.Enough (l.drop (i + 1)))
          ⟨fun h' _ hj => Option.some.inj hj ▸ h', fun h' => h' i rfl⟩
    inferInstanceAs (Decidable (_ ∧ _))

variable {sh a b : Shape} {l : List UInt8} {i : ℕ}

theorem Shape.leaves_pos : ∀ sh : Shape, 1 ≤ sh.leaves
  | .number => le_rfl
  | .text => le_rfl
  | .seq a _ => a.leaves_pos.trans (Nat.le_add_right _ _)

theorem Shape.width_le (h : sh.Enough l) (hi : sh.width l = some i) : i ≤ l.length := by
  induction sh generalizing l i with
  | number =>
    simp only [Shape.width] at hi
    split_ifs at hi
    exact Option.some.inj hi ▸ strtol_length_le l
  | text => exact Option.some.inj hi ▸ (List.takeWhile_prefix _).length_le
  | seq a b _ ihb =>
    simp only [Shape.width, Option.bind_eq_bind, Option.bind_eq_some_iff, Option.pure_def] at hi
    obtain ⟨j, hj, k, hk, hi⟩ := hi
    obtain ⟨hlt, hb⟩ := h.2 j hj
    have := ihb hb hk
    rw [List.length_drop] at this
    obtain rfl := Option.some.inj hi
    omega

/-- A line of many fields, all of them zero. -/
def zeros (k : ℕ) : List UInt8 := (List.replicate k [48, TAB]).flatten

theorem zeros_succ (k : ℕ) : zeros (k + 1) = 48 :: TAB :: zeros k := rfl

theorem length_zeros (k : ℕ) : (zeros k).length = 2 * k := by
  simp [zeros, mul_comm]

theorem drop_zeros {j k : ℕ} (h : j ≤ k) : (zeros k).drop (2 * j) = zeros (k - j) := by
  induction j generalizing k with
  | zero => rfl
  | succ j ih =>
    obtain ⟨k, rfl⟩ := Nat.exists_eq_add_of_le' (Nat.one_le_of_lt h)
    rw [zeros_succ, Nat.mul_succ]
    simpa using ih (k := k) (by omega)

theorem not_mem_zeros (k : ℕ) : 0 ∉ zeros k := by
  simp [zeros, show (0 : UInt8) ≠ TAB by decide]

theorem zeros_fields {k : ℕ} (hk : sh.leaves ≤ k) :
    sh.Enough (zeros k) ∧ sh.width (zeros k) = some (2 * sh.leaves - 1) := by
  induction sh generalizing k with
  | number =>
    obtain ⟨k, rfl⟩ : ∃ j, k = j + 1 := Nat.exists_eq_add_of_le' hk
    have hv : strtol (zeros (k + 1)) = (0, 1) :=
      strtol_decimalInt (z := 0) (r := TAB :: zeros k) (by decide) (by decide)
        fun b hb => Option.some.inj hb ▸ by decide
    exact ⟨trivial, by rw [Shape.width, hv]; rfl⟩
  | text =>
    obtain ⟨k, rfl⟩ : ∃ j, k = j + 1 := Nat.exists_eq_add_of_le' hk
    exact ⟨trivial, by simp [Shape.width, Shape.leaves, zeros_succ, show (48 : UInt8) ≠ TAB by decide]⟩
  | seq a b iha ihb =>
    have ha := a.leaves_pos
    have hb := b.leaves_pos
    simp only [Shape.leaves] at hk ⊢
    obtain ⟨ea, wa⟩ := iha (k := k) (by omega)
    obtain ⟨eb, wb⟩ := ihb (k := k - a.leaves) (by omega)
    have hdrop : (zeros k).drop (2 * a.leaves - 1 + 1) = zeros (k - a.leaves) := by
      rw [show 2 * a.leaves - 1 + 1 = 2 * a.leaves by omega, drop_zeros (by omega)]
    refine ⟨⟨ea, fun i hi => ?_⟩, ?_⟩
    · obtain rfl := Option.some.inj (wa.symm.trans hi)
      rw [length_zeros, hdrop]
      exact ⟨by omega, eb⟩
    · simp only [Shape.width, wa, Option.bind_eq_bind, Option.bind_some, hdrop, wb, Option.pure_def]
      congr 1
      omega

/-! ## Readers of a shape -/

/-- The reader takes the fields of the shape. With enough fields it does not look behind the line; else
it goes on with the zeros it finds there. -/
structure Reads (p : Reader α) (sh : Shape) : Prop where
  good : ∀ l i, 0 ∉ l → sh.Enough l → sh.width l = some i → ∃ a, ∀ n (m : Block UInt8 n) pre after,
    m.cells = pre ++ (l ++ 0 :: after) → p n m pre.length = some (some a, pre.length + i)
  bad : ∀ l, 0 ∉ l → sh.Enough l → sh.width l = none → ∃ e ≤ l.length,
    ∀ n (m : Block UInt8 n) pre after, m.cells = pre ++ (l ++ 0 :: after) →
      p n m pre.length = some (none, pre.length + e)
  beyond : ∀ l k, 0 ∉ l → ¬ sh.Enough l → sh.leaves ≤ k → ∀ n (m : Block UInt8 n) pre after,
    m.cells = pre ++ (l ++ 0 :: (zeros k ++ 0 :: after)) →
      ∃ a, ∃ j ≤ sh.leaves, 1 ≤ j ∧ p n m pre.length = some (some a, pre.length + l.length + 2 * j)

theorem reads_number : Reads number .number where
  good l i hl _ hi := by
    simp only [Shape.width] at hi
    split_ifs at hi with hne
    refine ⟨toInt (strtol l).1, fun n m pre after hm => ?_⟩
    simp only [number, cstr_append hm hl, Option.bind_eq_bind, Option.bind_some, if_neg hne,
      Option.pure_def, ← Option.some.inj hi]
  bad l hl _ hi := by
    simp only [Shape.width] at hi
    split_ifs at hi with hne
    refine ⟨0, Nat.zero_le _, fun n m pre after hm => ?_⟩
    simp only [number, cstr_append hm hl, Option.bind_eq_bind, Option.bind_some, if_pos hne,
      Option.pure_def, Nat.add_zero]
  beyond l k _ he := absurd trivial he

theorem strcspn_text {n : ℕ} {m : Block UInt8 n} {pre after : List UInt8} (hl : 0 ∉ l)
    (hm : m.cells = pre ++ (l ++ 0 :: after)) :
    strcspn [TAB] m pre.length = some (l.takeWhile fun b => b ≠ TAB).length := by
  have hp : ∀ b ∈ l.takeWhile (fun b => b ≠ TAB), (b ≠ 0 && b ∉ [TAB]) = true := by
    intro b hb
    have h0 : b ≠ 0 := ne_of_mem_of_not_mem ((List.takeWhile_prefix _).subset hb) hl
    have h9 : b ≠ TAB := by simpa using List.mem_takeWhile_imp hb
    simp [h0, h9]
  have hsplit : l.takeWhile (fun b => b ≠ TAB) ++ l.dropWhile (fun b => b ≠ TAB) = l :=
    List.takeWhile_append_dropWhile
  rcases hd : l.dropWhile (fun b => b ≠ TAB) with _ | ⟨c, q⟩
  · rw [hd, List.append_nil] at hsplit
    rw [hsplit] at hp ⊢
    exact Block.span_append hm hp (by decide)
  · have hc : c = TAB := by
      have := List.head_dropWhile_not (fun b => decide (b ≠ TAB)) (l := l) (by rw [hd]; simp)
      simp only [hd, List.head_cons, decide_eq_false_iff_not, not_not] at this
      exact this
    refine Block.span_append (x := c) (r := q ++ 0 :: after) ?_ hp (by simp [hc])
    rw [hm]
    conv_lhs => rw [← hsplit, hd]
    simp

theorem reads_text (f : List UInt8 → α) : Reads (text f) .text where
  good l i hl _ hi := by
    obtain rfl := Option.some.inj hi
    refine ⟨f (l.takeWhile fun b => b ≠ TAB), fun n m pre after hm => ?_⟩
    have htake : (m.cells.drop pre.length).take (l.takeWhile fun b => b ≠ TAB).length =
        l.takeWhile fun b => b ≠ TAB := by
      rw [hm, List.drop_left, List.take_append_of_le_length (List.takeWhile_prefix _).length_le]
      exact (List.prefix_iff_eq_take.1 (List.takeWhile_prefix _)).symm
    simp only [text, strcspn_text hl hm, Option.bind_eq_bind, Option.bind_some, htake,
      Option.pure_def]
  bad l _ _ hi := by cases hi
  beyond l k _ he := absurd trivial he

theorem Reads.map {p : Reader α} (h : Reads p sh) (f : α → β) : Reads (p.map f) sh where
  good l i hl he hi := by
    obtain ⟨a, ha⟩ := h.good l i hl he hi
    refine ⟨f a, fun n m pre after hm => ?_⟩
    simp only [Reader.map, ha n m pre after hm, Option.bind_eq_bind, Option.bind_some,
      Option.map_some, Option.pure_def]
  bad l hl he hi := by
    obtain ⟨e, hle, ha⟩ := h.bad l hl he hi
    refine ⟨e, hle, fun n m pre after hm => ?_⟩
    simp only [Reader.map, ha n m pre after hm, Option.bind_eq_bind, Option.bind_some,
      Option.map_none, Option.pure_def]
  beyond l k hl he hk n m pre after hm := by
    obtain ⟨a, j, hj, hpos, ha⟩ := h.beyond l k hl he hk n m pre after hm
    refine ⟨f a, j, hj, hpos, ?_⟩
    simp only [Reader.map, ha, Option.bind_eq_bind, Option.bind_some, Option.map_some,
      Option.pure_def]

theorem Reads.record {p : Reader α} (h : Reads p sh) : Reads (record p) sh where
  good l i hl he hi := by
    obtain ⟨a, ha⟩ := h.good l i hl he hi
    refine ⟨a, fun n m pre after hm => ?_⟩
    simp only [Lib.record, ha n m pre after hm, Option.bind_eq_bind, Option.bind_some, Option.pure_def]
  bad l hl he hi := by
    obtain ⟨e, -, ha⟩ := h.bad l hl he hi
    refine ⟨0, Nat.zero_le _, fun n m pre after hm => ?_⟩
    simp only [Lib.record, ha n m pre after hm, Option.bind_eq_bind, Option.bind_some, Option.pure_def,
      Nat.add_zero]
  beyond l k hl he hk n m pre after hm := by
    obtain ⟨a, j, hj, hpos, ha⟩ := h.beyond l k hl he hk n m pre after hm
    refine ⟨a, j, hj, hpos, ?_⟩
    simp only [Lib.record, ha, Option.bind_eq_bind, Option.bind_some, Option.pure_def]

theorem cells_drop {n : ℕ} {m : Block UInt8 n} {pre rest : List UInt8} (hm : m.cells = pre ++ (l ++ rest))
    (hi : i < l.length) :
    m.cells = (pre ++ l.take (i + 1)) ++ (l.drop (i + 1) ++ rest) ∧
      (pre ++ l.take (i + 1)).length = pre.length + i + 1 := by
  refine ⟨?_, ?_⟩
  · conv_lhs => rw [hm, ← List.take_append_drop (i + 1) l]
    simp only [List.append_assoc]
  · rw [List.length_append, List.length_take, min_eq_left (by omega), Nat.add_assoc]

theorem sep_some {p : Reader α} {q : α → Reader β} {n : ℕ} {m : Block UInt8 n} {s e : ℕ} {x : α}
    (h : p n m s = some (some x, e)) : p.sep q n m s = q x n m (e + 1) := by
  simp only [Reader.sep, h, Option.bind_eq_bind, Option.bind_some]

theorem sep_none {p : Reader α} {q : α → Reader β} {n : ℕ} {m : Block UInt8 n} {s e : ℕ}
    (h : p n m s = some (none, e)) : p.sep q n m s = some (none, e) := by
  simp only [Reader.sep, h, Option.bind_eq_bind, Option.bind_some, Option.pure_def]

theorem Reads.good_zeros {q : Reader β} (hq : Reads q b) {j k : ℕ} (hj : j + b.leaves ≤ k) {n : ℕ}
    {m : Block UInt8 n} {pre after : List UInt8} (hm : m.cells = pre ++ (zeros k ++ 0 :: after)) :
    ∃ y, q n m (pre.length + 2 * j) = some (some y, pre.length + 2 * j + (2 * b.leaves - 1)) := by
  have hpos := b.leaves_pos
  have hz : b.leaves ≤ k - j := by omega
  obtain ⟨hb, hw⟩ := zeros_fields hz
  obtain ⟨y, hy⟩ := hq.good _ _ (not_mem_zeros _) hb hw
  have hsplit : (zeros k).take (2 * j) ++ zeros (k - j) = zeros k := by
    rw [← drop_zeros (by omega), List.take_append_drop]
  have hm' : m.cells = (pre ++ (zeros k).take (2 * j)) ++ (zeros (k - j) ++ 0 :: after) := by
    rw [hm]
    conv_lhs => rw [← hsplit]
    simp only [List.append_assoc]
  have hlen : (pre ++ (zeros k).take (2 * j)).length = pre.length + 2 * j := by
    simp only [List.length_append, List.length_take, length_zeros]
    omega
  exact ⟨y, by rw [← hlen, hy n m _ after hm']⟩

/-- **Two fields.** When the first one ends at the end of the line, the second one is read from the
memory behind it. -/
theorem Reads.sep {p : Reader α} {q : α → Reader β} (hp : Reads p a) (hq : ∀ x, Reads (q x) b) :
    Reads (p.sep q) (.seq a b) where
  good l k hl he hk := by
    simp only [Shape.width, Option.bind_eq_bind, Option.bind_eq_some_iff, Option.pure_def] at hk
    obtain ⟨i, hi, j, hj, hk⟩ := hk
    obtain ⟨hlt, hb⟩ := he.2 i hi
    obtain ⟨x, hx⟩ := hp.good l i hl he.1 hi
    obtain ⟨y, hy⟩ := (hq x).good _ j (fun h => hl (List.mem_of_mem_drop h)) hb hj
    refine ⟨y, fun n m pre after hm => ?_⟩
    obtain ⟨hm', hlen⟩ := cells_drop hm hlt
    rw [sep_some (hx n m pre after hm), ← hlen, hy n m _ after hm', hlen, ← Option.some.inj hk]
    simp only [Nat.add_assoc]
  bad l hl he hk := by
    cases hi : a.width l with
    | none =>
      obtain ⟨e, hle, hx⟩ := hp.bad l hl he.1 hi
      exact ⟨e, hle, fun n m pre after hm => sep_none (hx n m pre after hm)⟩
    | some i =>
      obtain ⟨hlt, hb⟩ := he.2 i hi
      have hj : b.width (l.drop (i + 1)) = none := by
        cases hj : b.width (l.drop (i + 1)) with
        | none => rfl
        | some j => simp [Shape.width, hi, hj] at hk
      obtain ⟨x, hx⟩ := hp.good l i hl he.1 hi
      obtain ⟨e, hle, hy⟩ := (hq x).bad _ (fun h => hl (List.mem_of_mem_drop h)) hb hj
      rw [List.length_drop] at hle
      refine ⟨i + 1 + e, by omega, fun n m pre after hm => ?_⟩
      obtain ⟨hm', hlen⟩ := cells_drop hm hlt
      rw [sep_some (hx n m pre after hm), ← hlen, hy n m _ after hm', hlen]
      simp only [Nat.add_assoc]
  beyond l k hl he hk n m pre after hm := by
    simp only [Shape.leaves] at hk ⊢
    have hbpos := b.leaves_pos
    -- the second field among the zeros, behind `j` of them
    have hzeros : ∀ x j, j + b.leaves ≤ k → ∃ y,
        q x n m (pre.length + l.length + 2 * j + 1) =
          some (some y, pre.length + l.length + 2 * (j + b.leaves)) := by
      intro x j hj
      have hm' : m.cells = (pre ++ l ++ [0]) ++ (zeros k ++ 0 :: after) := by
        rw [hm]
        simp only [List.append_assoc, List.cons_append, List.nil_append]
      have hlen : (pre ++ l ++ [0]).length = pre.length + l.length + 1 := by
        simp only [List.length_append, List.length_singleton]
      obtain ⟨y, hy⟩ := (hq x).good_zeros hj hm'
      rw [hlen, show pre.length + l.length + 1 + 2 * j = pre.length + l.length + 2 * j + 1 by omega] at hy
      refine ⟨y, hy.trans ?_⟩
      congr 2
      omega
    by_cases hea : a.Enough l
    · cases hi : a.width l with
      | none => exact absurd ⟨hea, fun i h => by cases hi.symm.trans h⟩ he
      | some i =>
        obtain ⟨x, hx⟩ := hp.good l i hl hea hi
        have hx := hx n m pre _ hm
        by_cases hlt : i < l.length
        · have heb : ¬ b.Enough (l.drop (i + 1)) := fun h =>
            he ⟨hea, fun i' hi' => Option.some.inj (hi.symm.trans hi') ▸ ⟨hlt, h⟩⟩
          obtain ⟨hm', hlen⟩ := cells_drop hm hlt
          obtain ⟨y, j, hj, hpos, hy⟩ := (hq x).beyond _ k (fun h => hl (List.mem_of_mem_drop h)) heb
            (by omega) n m _ after hm'
          refine ⟨y, j, by omega, hpos, ?_⟩
          rw [sep_some hx, ← hlen, hy, hlen, List.length_drop]
          congr 2
          omega
        · obtain rfl : i = l.length := le_antisymm (Shape.width_le hea hi) (not_lt.1 hlt)
          obtain ⟨y, hy⟩ := hzeros x 0 (by omega)
          exact ⟨y, b.leaves, by omega, hbpos, by rw [sep_some hx]; simpa using hy⟩
    · obtain ⟨x, j, hj, hpos, hx⟩ := hp.beyond l k hl hea (by omega) n m pre after hm
      obtain ⟨y, hy⟩ := hzeros x j (by omega)
      exact ⟨y, j + b.leaves, by omega, by omega, by rw [sep_some hx]; exact hy⟩

/-! ## Looking at the line only -/

/-- Whatever follows the line in memory, the reader returns the same, and does not end behind the line. -/
def LineOnly (p : Reader α) (l : List UInt8) : Prop :=
  ∃ r, ∃ e ≤ l.length, ∀ n (m : Block UInt8 n) pre after, m.cells = pre ++ (l ++ 0 :: after) →
    p n m pre.length = some (r, pre.length + e)

/-- **A reader looks at the line only** just when the line has enough fields. -/
theorem Reads.lineOnly_iff {p : Reader α} (h : Reads p sh) (hl : 0 ∉ l) :
    LineOnly p l ↔ sh.Enough l := by
  constructor
  · rintro ⟨r, e, hle, hall⟩
    by_contra he
    let m : Block UInt8 _ := ⟨[] ++ (l ++ 0 :: (zeros sh.leaves ++ [0])), rfl⟩
    obtain ⟨a, j, -, hpos, hx⟩ := h.beyond l sh.leaves hl he le_rfl _ m [] [] rfl
    have heq := (Prod.mk.inj (Option.some.inj ((hall _ m [] _ rfl).symm.trans hx))).2
    simp only [List.length_nil] at heq
    omega
  · intro he
    cases hi : sh.width l with
    | none =>
      obtain ⟨e, hle, hx⟩ := h.bad l hl he hi
      exact ⟨none, e, hle, hx⟩
    | some i =>
      obtain ⟨a, ha⟩ := h.good l i hl he hi
      exact ⟨some a, i, Shape.width_le he hi, ha⟩

end Lib
