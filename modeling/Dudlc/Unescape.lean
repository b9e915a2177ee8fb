import Dudlc.Formats
import Dudlc.Lib.Loop

/-!
# Copying a field

`_duc_fielddup` asks for as many bytes as `strcspn` counts, and one for the terminator. It then copies the field
byte by byte, with a flag behind a backslash.

* `fielddup`: the function over the memory that it reads and the memory that it writes.
* `dup_run`: the loop; `fielddup_run`: the whole function, and `fielddup_reader`: it is what the parsers use.
* `replacePairs`, `lone`: the pairs of a field, and the backslash behind the last of them;
  `unescape_pairs`.
* **`fielddup_copies`**: it stays in its memory and in its field, and a lone backslash is left out.
-/

namespace Dudlc

open Lib

/-! ## The function -/

/-- The variables of the loop in `_duc_fielddup`: `s` in the line, and `p` in `dup`. -/
structure Dup (k : ℕ) where
  s : ℕ
  p : ℕ
  escape : Bool
  dup : Block UInt8 k

/-- A round of the loop in `_duc_fielddup`. -/
def dupBody {n k : ℕ} (m : Block UInt8 n) (d : Dup k) : Option (Dup k ⊕ Dup k) := do
  let c ← m.cells[d.s]?
  if c = 0 ∨ c = TAB then return .inr d
  else if d.escape then
    let dup ← d.dup.set d.p (if c = 116 then TAB else c)
    return .inl ⟨d.s + 1, d.p + 1, false, dup⟩
  else if c = 92 then return .inl ⟨d.s + 1, d.p, true, d.dup⟩
  else
    let dup ← d.dup.set d.p c
    return .inl ⟨d.s + 1, d.p + 1, false, dup⟩

/-- What `_duc_fielddup` returns: the memory, and how many of its bytes are written. -/
structure DupField where
  size : ℕ
  dup : Block UInt8 size
  len : ℕ

/-- `_duc_fielddup` with the string at `s`, and `*end`. What `malloc` gives has any content, and it may give
NULL. -/
def fielddup {n : ℕ} (malloc : (k : ℕ) → Option (Block UInt8 k)) (m : Block UInt8 n) (s : ℕ) :
    Option (Option DupField × Option ℕ) := do
  let k ← strcspn [TAB] m s
  match malloc (1 + k) with
  | none => return (none, none)
  | some dup =>
    let d ← loop (dupBody m) (n + 1) ⟨s, 0, false, dup⟩
    let dup ← d.dup.set d.p 0
    return (some ⟨1 + k, dup, d.p + 1⟩, some d.s)

/-! ## The loop -/

variable {n k i : ℕ} {m : Block UInt8 n} {t r a b q u : List UInt8} {x : UInt8} {esc : Bool}

theorem length_unescape_le (esc : Bool) (t : List UInt8) : (unescape esc t).length ≤ t.length := by
  fun_induction unescape esc t with
  | case1 => rfl
  | case2 c cs ih => exact Nat.succ_le_succ ih
  | case3 cs ih => exact ih.trans (Nat.le_succ _)
  | case4 c cs h ih => exact Nat.succ_le_succ ih

theorem unescape_free (ht : 0 ∉ t) : 0 ∉ unescape esc t := by
  fun_induction unescape esc t with
  | case1 => exact List.not_mem_nil
  | case2 c cs ih =>
    rw [List.mem_cons, not_or] at ht ⊢
    refine ⟨?_, ih ht.2⟩
    split_ifs
    · decide
    · exact ht.1
  | case3 cs ih => exact ih fun h => ht (List.mem_cons_of_mem _ h)
  | case4 c cs h ih =>
    rw [List.mem_cons, not_or] at ht ⊢
    exact ⟨ht.1, ih ht.2⟩

theorem dupBody_end {s p : ℕ} {dup : Block UInt8 k} (hc : m.cells[s]? = some x) (hx : x = 0 ∨ x = TAB) :
    dupBody m ⟨s, p, esc, dup⟩ = some (.inr ⟨s, p, esc, dup⟩) := by
  simp [dupBody, hc, hx]

theorem dupBody_open {s p : ℕ} {dup : Block UInt8 k} (hc : m.cells[s]? = some 92) :
    dupBody m ⟨s, p, false, dup⟩ = some (.inl ⟨s + 1, p, true, dup⟩) := by
  simp [dupBody, hc, TAB]

theorem dupBody_put {s : ℕ} {c : UInt8} (hc : m.cells[s]? = some c) (hin : c ≠ 0 ∧ c ≠ TAB)
    (hput : ¬ (esc = false ∧ c = 92)) (t : List UInt8) :
    ∃ y, unescape esc (c :: t) = y :: unescape false t ∧ ∀ p (dup : Block UInt8 k),
      dupBody m ⟨s, p, esc, dup⟩ = (dup.set p y).map fun dup => .inl ⟨s + 1, p + 1, false, dup⟩ := by
  cases esc with
  | true =>
    refine ⟨if c = 116 then TAB else c, rfl, fun p dup => ?_⟩
    cases hset : dup.set p (if c = 116 then TAB else c) <;> simp [dupBody, hc, hin, hset]
  | false =>
    have hback : c ≠ 92 := fun h => hput ⟨rfl, h⟩
    refine ⟨c, by rw [unescape, if_neg hback], fun p dup => ?_⟩
    cases hset : dup.set p c <;> simp [dupBody, hc, hin, hback, hset]

/-- **The loop** copies the rest of the field behind what it has written, and stays in front of the end of the
memory. -/
theorem dup_run (hm : m.cells = a ++ (t ++ x :: r)) (hx : x = 0 ∨ x = TAB) (ht : ∀ c ∈ t, c ≠ 0 ∧ c ≠ TAB)
    {dup : Block UInt8 k} (hdup : dup.cells = b ++ q) (hroom : (unescape esc t).length ≤ q.length) {fuel : ℕ}
    (hfuel : t.length < fuel) :
    ∃ d, loop (dupBody m) fuel ⟨a.length, b.length, esc, dup⟩ = some d ∧ d.s = a.length + t.length ∧
      d.p = b.length + (unescape esc t).length ∧
      d.dup.cells = b ++ (unescape esc t ++ q.drop (unescape esc t).length) := by
  induction t generalizing a b q esc dup fuel with
  | nil =>
    obtain ⟨fuel, rfl⟩ := Nat.exists_eq_add_of_le' (Nat.one_le_of_lt hfuel)
    have hc : m.cells[a.length]? = some x := by rw [hm]; simp
    have hnil : unescape esc [] = [] := by cases esc <;> rfl
    rw [hnil]
    exact ⟨_, loop_succ_inr (dupBody_end hc hx), rfl, rfl, hdup⟩
  | cons c t ih =>
    obtain ⟨fuel, rfl⟩ := Nat.exists_eq_add_of_le' (Nat.one_le_of_lt hfuel)
    have hc : m.cells[a.length]? = some c := by rw [hm]; simp
    have hm' : m.cells = (a ++ [c]) ++ (t ++ x :: r) := by rw [hm]; simp
    have ht' : ∀ c ∈ t, c ≠ 0 ∧ c ≠ TAB := fun c' h => ht c' (List.mem_cons_of_mem _ h)
    have hlen : t.length < fuel := by simpa using hfuel
    by_cases hopen : esc = false ∧ c = 92
    · obtain ⟨rfl, rfl⟩ := hopen
      have hun : unescape false (92 :: t) = unescape true t := by rw [unescape, if_pos rfl]
      rw [hun] at hroom ⊢
      obtain ⟨d, hd, hs, hp, hout⟩ := ih hm' ht' hdup hroom hlen
      rw [List.length_append, List.length_singleton] at hd hs
      refine ⟨d, ?_, ?_, hp, hout⟩
      · rw [loop_succ_inl (dupBody_open hc), hd]
      · rw [hs, List.length_cons]
        omega
    · obtain ⟨y, hun, hbody⟩ := dupBody_put (k := k) hc (ht c List.mem_cons_self) hopen t
      rw [hun] at hroom ⊢
      obtain ⟨z, q, rfl⟩ := List.exists_cons_of_ne_nil (l := q) fun h => by simp [h] at hroom
      obtain ⟨dup', hset, hcells⟩ := Block.set_append (y := y) hdup
      have hcells' : dup'.cells = (b ++ [y]) ++ q := by rw [hcells]; simp
      obtain ⟨d, hd, hs, hp, hout⟩ := ih hm' ht' hcells'
        (show (unescape false t).length ≤ q.length by simpa using hroom) hlen
      simp only [List.length_append, List.length_singleton] at hd hs hp
      refine ⟨d, ?_, ?_, ?_, ?_⟩
      · rw [loop_succ_inl ((hbody b.length dup).trans (by rw [hset, Option.map_some])), hd]
      · rw [hs, List.length_cons]
        omega
      · rw [hp, List.length_cons]
        omega
      · rw [hout]
        simp

/-! ## The whole function -/

theorem strcspn_split {l : ℕ} (h : strcspn [TAB] m i = some l) : ∃ a t x r, m.cells = a ++ (t ++ x :: r) ∧
    a.length = i ∧ t.length = l ∧ (x = 0 ∨ x = TAB) ∧ ∀ c ∈ t, c ≠ 0 ∧ c ≠ TAB := by
  obtain ⟨a, t, x, r, hm, hi, hl, hx, ht⟩ := Block.span_split h
  exact ⟨a, t, x, r, hm, hi, hl, or_iff_not_imp_left.2 (by simpa using hx), fun c hc => by simpa using ht c hc⟩

/-- **`_duc_fielddup`** with memory: `*end` is the end of the field, and what is written is its text and the
terminator. -/
theorem fielddup_run {malloc : (k : ℕ) → Option (Block UInt8 k)} {l : ℕ} (hl : strcspn [TAB] m i = some l)
    {dup : Block UInt8 (1 + l)} (hmalloc : malloc (1 + l) = some dup) :
    ∃ f, fielddup malloc m i = some (some f, some (i + l)) ∧ f.size = 1 + l ∧
      f.len = (unescape false ((m.cells.drop i).take l)).length + 1 ∧
      cstr f.dup 0 = some (unescape false ((m.cells.drop i).take l)) := by
  obtain ⟨a, t, x, r, hm, rfl, rfl, hx, ht⟩ := strcspn_split hl
  have htext : (m.cells.drop a.length).take t.length = t := by rw [hm, List.drop_left, List.take_left]
  have hle := length_unescape_le false t
  have hsize := dup.size
  have hin : t.length < n + 1 := by
    have hlen := m.size
    rw [hm] at hlen
    simp only [List.length_append, List.length_cons] at hlen
    omega
  obtain ⟨d, hd, hs, hp, hout⟩ := dup_run (b := []) (q := dup.cells) hm hx ht rfl
    (show (unescape false t).length ≤ dup.cells.length by omega) hin
  -- the terminator is written into the last byte at most
  rw [List.nil_append] at hout
  rw [List.length_nil, Nat.zero_add] at hp
  obtain ⟨z, q, hq⟩ := List.exists_cons_of_ne_nil (l := dup.cells.drop (unescape false t).length) fun h => by
    have := congrArg List.length h
    rw [List.length_drop, List.length_nil] at this
    omega
  obtain ⟨dup', hset, hcells⟩ := Block.set_append (y := 0) (hq ▸ hout)
  rw [htext]
  refine ⟨⟨1 + t.length, dup', d.p + 1⟩, ?_, rfl, by rw [hp], ?_⟩
  · simp only [fielddup, hl, hmalloc, Option.bind_eq_bind, Option.bind_some, List.length_nil ▸ hd, hp, hset, hs,
      Option.pure_def]
  · exact cstr_append (a := []) hcells (unescape_free fun h0 => (ht 0 h0).1 rfl)

theorem fielddup_reader {malloc : (k : ℕ) → Option (Block UInt8 k)} {l : ℕ} (hl : strcspn [TAB] m i = some l)
    {dup : Block UInt8 (1 + l)} (hmalloc : malloc (1 + l) = some dup) :
    ∃ f e, fielddup malloc m i = some (some f, some e) ∧ ducFielddup n m i = some (cstr f.dup 0, e) := by
  obtain ⟨f, hf, -, -, htext⟩ := fielddup_run hl hmalloc
  refine ⟨f, i + l, hf, ?_⟩
  simp only [ducFielddup, text, hl, htext, Option.bind_eq_bind, Option.bind_some, Option.pure_def]

/-! ## Pairs -/

/-- Each backslash pair is replaced by its meaning, and everything else stays. -/
def replacePairs : List UInt8 → List UInt8
  | [] => []
  | [c] => [c]
  | c :: d :: cs => if c = 92 then (if d = 116 then TAB else d) :: replacePairs cs else c :: replacePairs (d :: cs)

/-- Behind the pairs there is a backslash at the end. -/
def lone : List UInt8 → Bool
  | [] => false
  | [c] => c = 92
  | c :: d :: cs => if c = 92 then lone cs else lone (d :: cs)

/-- The text of a field: the pairs are replaced, and a lone backslash is left out. -/
def fieldText (t : List UInt8) : List UInt8 := if lone t then (replacePairs t).dropLast else replacePairs t

theorem replacePairs_eq (t : List UInt8) :
    replacePairs t = unescape false t ++ if lone t then [92] else [] := by
  fun_induction replacePairs t with
  | case1 => rfl
  | case2 c => by_cases h : c = 92 <;> simp [unescape, lone, h]
  | case3 d cs ih => simp [unescape, lone, ih]
  | case4 c d cs h ih => simp [unescape, lone, h, ih]

theorem unescape_pairs (t : List UInt8) : unescape false t = fieldText t := by
  rw [fieldText, replacePairs_eq]
  split_ifs
  · rw [List.dropLast_concat]
  · rw [List.append_nil]

/-! ## The memory of the copy -/

/-- `_duc_fielddup` on the string at `i` asks for one byte more than the field has, and writes no byte behind
them; `*end` is the first tab or the terminator, and the string that it returns is what `decode` makes of the
field. Without memory it returns NULL. -/
def Copies (decode : List UInt8 → List UInt8) (malloc : (k : ℕ) → Option (Block UInt8 k)) (m : Block UInt8 n)
    (i : ℕ) : Prop :=
  ∃ l, strcspn [TAB] m i = some l ∧ (m.cells[i + l]? = some 0 ∨ m.cells[i + l]? = some TAB) ∧
    match malloc (1 + l) with
    | none => fielddup malloc m i = some (none, none)
    | some _ => ∃ f, fielddup malloc m i = some (some f, some (i + l)) ∧ f.size = 1 + l ∧ f.len ≤ 1 + l ∧
        cstr f.dup 0 = some (decode ((m.cells.drop i).take l))

theorem copies_of_strcspn (malloc : (k : ℕ) → Option (Block UInt8 k)) {decode : List UInt8 → List UInt8} {l : ℕ}
    (hl : strcspn [TAB] m i = some l)
    (hdecode : decode ((m.cells.drop i).take l) = unescape false ((m.cells.drop i).take l)) :
    Copies decode malloc m i := by
  refine ⟨l, hl, ?_, ?_⟩
  · obtain ⟨a, t, x, r, hm, rfl, rfl, hx, -⟩ := strcspn_split hl
    have hc : m.cells[a.length + t.length]? = some x := by rw [hm]; simp
    rw [hc]
    rcases hx with rfl | rfl
    · exact Or.inl rfl
    · exact Or.inr rfl
  · cases hmalloc : malloc (1 + l) with
    | none => simp [fielddup, hl, hmalloc]
    | some dup =>
      obtain ⟨f, hf, hsize, hlen, htext⟩ := fielddup_run hl hmalloc
      have hle := length_unescape_le false ((m.cells.drop i).take l)
      have hfield := List.length_take_le l (m.cells.drop i)
      exact ⟨f, hf, hsize, by omega, by rw [htext, hdecode]⟩

theorem strcspn_of_cstr {s : List UInt8} (h : cstr m i = some s) :
    strcspn [TAB] m i = some (s.takeWhile fun b => b ≠ TAB).length := by
  obtain ⟨a, r, hm, rfl, hfree⟩ := cstr_split h
  exact strcspn_text hfree hm

/-- **`_duc_fielddup` stays in its memory and in its field**, for every string and whatever `malloc` gives. It
returns the text with the pairs replaced, without a lone backslash at its end. Where this text stands encoded
in memory, the function gives it back. -/
theorem fielddup_copies (malloc : (k : ℕ) → Option (Block UInt8 k)) {s : List UInt8} (h : cstr m i = some s) :
    Copies fieldText malloc m i ∧
    ∀ l, strcspn [TAB] m i = some l → ∀ malloc' {n'} (m' : Block UInt8 n') i' l', strcspn [TAB] m' i' = some l' →
      (m'.cells.drop i').take l' = escape (fieldText ((m.cells.drop i).take l)) →
      Copies (fun _ => fieldText ((m.cells.drop i).take l)) malloc' m' i' := by
  refine ⟨copies_of_strcspn malloc (strcspn_of_cstr h) (unescape_pairs _).symm, ?_⟩
  intro l _ malloc' n' m' i' l' hl' hescape
  refine copies_of_strcspn malloc' hl' ?_
  rw [hescape, undoes_escape.undo]

/-- The theorem for a field with a pair and a lone backslash in front of the tab. -/
theorem fielddup_copies_pair :
    Copies fieldText (fun k => some (.fill k 255)) (⟨[92, 116, 97, 92, TAB, 98, 0], rfl⟩ : Block UInt8 7) 0 :=
  (fielddup_copies _ (s := [92, 116, 97, 92, TAB, 98]) (by decide)).1

/-- Of the string `a\` only the letter is returned. -/
theorem lone_left_out :
    ¬ Copies replacePairs (fun k => some (.fill k 255)) (⟨[97, 92, 0], rfl⟩ : Block UInt8 3) 0 := by
  rintro ⟨l, hl, -, h⟩
  have hlen : strcspn [TAB] (⟨[97, 92, 0], rfl⟩ : Block UInt8 3) 0 = some 2 := by decide
  obtain rfl := Option.some.inj (hlen.symm.trans hl)
  obtain ⟨f, hf, -, -, htext⟩ := h
  have hrun : fielddup (fun k => some (.fill k 255)) (⟨[97, 92, 0], rfl⟩ : Block UInt8 3) 0 =
      some (some ⟨3, ⟨[97, 0, 255], rfl⟩, 2⟩, some 2) := rfl
  obtain rfl := Option.some.inj (Prod.mk.inj (Option.some.inj (hrun.symm.trans hf))).1
  exact absurd htext (by decide)

end Dudlc
