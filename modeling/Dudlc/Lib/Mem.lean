import Mathlib.Data.List.TakeWhile
import Mathlib.Tactic

/-!
# Fixed-size memory blocks

A `Block α n` is an array of exactly `n` cells. Every access is checked: an access that would leave
the block is `none`. The scanning functions follow the C library: they walk from an index to the
first byte that stops them and fault when the block ends before one.

* `Block.set`, `Block.blit`, `Block.memmove`: stores, with their contents (`set_append`,
  `blit_append`, `blit_cells`, `memmove_append`).
* `Block.span`: scan to the first cell that fails a test (`span_append`, `span_split`, `span_none`).
* `strcspn`, `strspn`, `cstr`: the C scans over a block of bytes; `cstr_split`, `cstr_drop`, `blit_cstr`.
-/

namespace Lib

/-- An array of `n` cells. -/
structure Block (α : Type*) (n : ℕ) where
  cells : List α
  size : cells.length = n
  deriving DecidableEq

namespace Block

variable {α : Type*} {n : ℕ}

/-- A block with the same content everywhere. -/
def fill (n : ℕ) (a : α) : Block α n := ⟨List.replicate n a, List.length_replicate⟩

/-- Store one cell. -/
def set (m : Block α n) (i : ℕ) (a : α) : Option (Block α n) :=
  if i < n then some ⟨m.cells.set i a, by rw [List.length_set, m.size]⟩ else none

/-- Store a list of cells from index `i` on. -/
def blit (m : Block α n) (i : ℕ) (as : List α) : Option (Block α n) :=
  if h : i + as.length ≤ n then
    some ⟨m.cells.take i ++ (as ++ m.cells.drop (i + as.length)), by
      simp only [List.length_append, List.length_take, List.length_drop, m.size]; omega⟩
  else none

/-- Copy `len` cells from `src` to `dst`; the ranges may overlap. -/
def memmove (m : Block α n) (dst src len : ℕ) : Option (Block α n) :=
  if src + len ≤ n then m.blit dst ((m.cells.drop src).take len) else none

/-- The number of cells from index `i` on that pass the test. A scan that meets no other cell
before the end of the block faults. -/
def span (p : α → Bool) (m : Block α n) (i : ℕ) : Option ℕ :=
  if i + ((m.cells.drop i).takeWhile p).length < n then
    some ((m.cells.drop i).takeWhile p).length
  else none

theorem set_append {m : Block α n} {a c : List α} {x y : α} (h : m.cells = a ++ x :: c) :
    ∃ m', m.set a.length y = some m' ∧ m'.cells = a ++ y :: c := by
  have hn : a.length < n := by
    rw [← m.size, h, List.length_append, List.length_cons]; omega
  refine ⟨_, if_pos hn, ?_⟩
  change m.cells.set a.length y = _
  rw [h]
  simp

theorem set_none {m : Block α n} {i : ℕ} {y : α} (h : n ≤ i) : m.set i y = none :=
  if_neg (by omega)

theorem blit_append {m : Block α n} {a old c b : List α} (h : m.cells = a ++ (old ++ c))
    (hl : old.length = b.length) :
    ∃ m', m.blit a.length b = some m' ∧ m'.cells = a ++ (b ++ c) := by
  have hn : a.length + b.length ≤ n := by
    rw [← m.size, h, List.length_append, List.length_append]; omega
  refine ⟨_, dif_pos hn, ?_⟩
  change m.cells.take a.length ++ (b ++ m.cells.drop (a.length + b.length)) = _
  rw [h, List.take_left, ← List.drop_drop, List.drop_left, ← hl, List.drop_left]

theorem blit_cells {m : Block α n} {i : ℕ} {b : List α} (h : i + b.length ≤ n) :
    ∃ m', m.blit i b = some m' ∧ m'.cells = m.cells.take i ++ (b ++ m.cells.drop (i + b.length)) :=
  ⟨_, dif_pos h, rfl⟩

theorem blit_none {m : Block α n} {i : ℕ} {b : List α} (h : n < i + b.length) : m.blit i b = none :=
  dif_neg (by omega)

theorem memmove_append {m : Block α n} {a b c : List α} (h : m.cells = a ++ (b ++ c)) :
    ∃ m', m.memmove 0 a.length b.length = some m' ∧ m'.cells = b ++ (a ++ (b ++ c)).drop b.length := by
  have hn : a.length + b.length ≤ n := by
    rw [← m.size, h, List.length_append, List.length_append]; omega
  have hb : (m.cells.drop a.length).take b.length = b := by rw [h, List.drop_left, List.take_left]
  have hsplit : m.cells = [] ++ (m.cells.take b.length ++ m.cells.drop b.length) := by
    rw [List.nil_append, List.take_append_drop]
  obtain ⟨m', hm, hc⟩ := blit_append (b := b) hsplit (by
    rw [List.length_take, m.size]; omega)
  refine ⟨m', ?_, ?_⟩
  · rw [memmove, if_pos hn, hb]
    exact hm
  · rw [hc, List.nil_append, h]

theorem takeWhile_append_stop {p : α → Bool} {t r : List α} {x : α} (ht : ∀ b ∈ t, p b = true)
    (hx : p x = false) : (t ++ x :: r).takeWhile p = t := by
  rw [List.takeWhile_append_of_pos ht, List.takeWhile_cons, hx]
  simp

theorem span_append {p : α → Bool} {m : Block α n} {a t r : List α} {x : α}
    (h : m.cells = a ++ (t ++ x :: r)) (ht : ∀ b ∈ t, p b = true) (hx : p x = false) :
    m.span p a.length = some t.length := by
  have hn : a.length + t.length < n := by
    rw [← m.size, h]; simp only [List.length_append, List.length_cons]; omega
  rw [span, h, List.drop_left, takeWhile_append_stop ht hx, if_pos hn]

theorem span_split {p : α → Bool} {m : Block α n} {i k : ℕ} (h : m.span p i = some k) :
    ∃ a t x r, m.cells = a ++ (t ++ x :: r) ∧ a.length = i ∧ t.length = k ∧ p x = false ∧ ∀ b ∈ t, p b = true := by
  unfold span at h
  split_ifs at h with hin
  have hsize := m.size
  have hsplit := List.takeWhile_append_dropWhile (p := p) (l := m.cells.drop i)
  have hrest : (m.cells.drop i).dropWhile p ≠ [] := by
    intro hnil
    have hlen := congrArg List.length hsplit
    rw [hnil, List.append_nil, List.length_drop] at hlen
    omega
  obtain ⟨x, r, hx⟩ := List.exists_cons_of_ne_nil hrest
  refine ⟨m.cells.take i, (m.cells.drop i).takeWhile p, x, r, ?_, ?_, Option.some.inj h, ?_, fun b hb =>
    List.mem_takeWhile_imp hb⟩
  · rw [← hx, hsplit, List.take_append_drop]
  · rw [List.length_take]
    omega
  · have hstop := List.head_dropWhile_not p hrest
    simpa only [hx, List.head_cons] using hstop

theorem span_none {p : α → Bool} {m : Block α n} {i : ℕ} (h : n ≤ i) : m.span p i = none :=
  if_neg (by omega)

end Block

/-! ## C strings in a block of bytes -/

section Cstr

variable {n : ℕ}

/-- `strcspn(s, reject)` for `s` at index `i`. -/
def strcspn (reject : List UInt8) (m : Block UInt8 n) (i : ℕ) : Option ℕ :=
  m.span (fun b => b ≠ 0 && b ∉ reject) i

/-- `strspn(s, accept)` for `s` at index `i`. -/
def strspn (accept : List UInt8) (m : Block UInt8 n) (i : ℕ) : Option ℕ :=
  m.span (fun b => b ≠ 0 && b ∈ accept) i

/-- The C string at index `i`. -/
def cstr (m : Block UInt8 n) (i : ℕ) : Option (List UInt8) :=
  (m.span (fun b => b ≠ 0) i).map fun k => (m.cells.drop i).take k

theorem cstr_append {m : Block UInt8 n} {a t r : List UInt8} (h : m.cells = a ++ (t ++ 0 :: r))
    (ht : 0 ∉ t) : cstr m a.length = some t := by
  have hs : m.span (fun b => b ≠ 0) a.length = some t.length :=
    Block.span_append h (fun b hb => by simpa using ne_of_mem_of_not_mem hb ht) (by simp)
  rw [cstr, hs, Option.map_some, h, List.drop_left, List.take_left]

theorem cstr_split {m : Block UInt8 n} {i : ℕ} {t : List UInt8} (h : cstr m i = some t) :
    ∃ a r, m.cells = a ++ (t ++ 0 :: r) ∧ a.length = i ∧ 0 ∉ t := by
  obtain ⟨k, hk, rfl⟩ := Option.map_eq_some_iff.1 h
  obtain ⟨a, t, x, r, hcells, rfl, rfl, hx, ht⟩ := Block.span_split hk
  obtain rfl : x = 0 := by simpa using hx
  rw [hcells, List.drop_left, List.take_left]
  exact ⟨a, r, rfl, rfl, fun h0 => by simpa using ht 0 h0⟩

theorem cstr_drop {m : Block UInt8 n} {i k : ℕ} {t : List UInt8} (h : cstr m i = some t) (hk : k ≤ t.length) :
    cstr m (i + k) = some (t.drop k) := by
  obtain ⟨a, r, hcells, rfl, hfree⟩ := cstr_split h
  have hcells' : m.cells = (a ++ t.take k) ++ (t.drop k ++ 0 :: r) := by
    rw [hcells, List.append_assoc, ← List.append_assoc (t.take k), List.take_append_drop]
  have hdrop := cstr_append hcells' fun h0 => hfree (List.mem_of_mem_drop h0)
  rwa [List.length_append, List.length_take, min_eq_left hk] at hdrop

theorem blit_cstr {m : Block UInt8 n} {i : ℕ} {t : List UInt8} (ht : 0 ∉ t) (hi : i + t.length < n) :
    ∃ m', m.blit i (t ++ [0]) = some m' ∧ cstr m' i = some t ∧ m'.cells.take i = m.cells.take i := by
  have hsize := m.size
  have htake : (m.cells.take i).length = i := by rw [List.length_take]; omega
  obtain ⟨m', hm', hcells⟩ := Block.blit_cells (m := m) (i := i) (b := t ++ [0]) (by simp; omega)
  refine ⟨m', hm', ?_, ?_⟩
  · have hcells' : m'.cells = m.cells.take i ++ (t ++ 0 :: m.cells.drop (i + (t ++ [0]).length)) := by
      rw [hcells, List.append_assoc]
      rfl
    have := cstr_append hcells' ht
    rwa [htake] at this
  · rw [hcells, List.take_append_of_le_length htake.ge, List.take_take, min_self]

end Cstr

end Lib
