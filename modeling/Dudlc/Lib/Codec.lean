import Dudlc.Lib.Fields

/-!
# The values of the fields

What the fields of a record are, in a line and in the record.

* `Field`, `Value`; `readFields`: the values of the fields of a line, each read where the one before it
  ended, one byte behind.
* `Fills`: a reader takes such values; `Fills.sep`, `Fills.record`.
* `encode`: the values as a line; **`Fills.reads_encoded`**.
* `Value.Spelled`, `Faithful`; `Strict`; **`Fills.faithful_iff`**: when an accepted line is made of the
  fields of its record.
-/

namespace Lib

/-- The kinds of fields. -/
inductive Field
  | number
  | text
  deriving DecidableEq

/-- The value of a field. -/
inductive Value
  | number (z : ℤ)
  | text (t : List UInt8)
  deriving DecidableEq

/-- The fields of a shape in their order. -/
def Shape.fields : Shape → List Field
  | .number => [.number]
  | .text => [.text]
  | .seq a b => a.fields ++ b.fields

theorem Shape.fields_ne_nil : ∀ sh : Shape, sh.fields ≠ []
  | .number => List.cons_ne_nil _ _
  | .text => List.cons_ne_nil _ _
  | .seq a _ => List.append_ne_nil_of_left_ne_nil a.fields_ne_nil _

/-- The bytes a field takes from a line, unless it is malformed. -/
def Field.width : Field → List UInt8 → Option ℕ
  | .number, l => if (strtol l).2 = 0 then none else some (strtol l).2
  | .text, l => some (l.takeWhile fun b => b ≠ TAB).length

section Reading

variable {α β : Type} (f : List UInt8 → List UInt8)

/-- The value of the field at the beginning of a line; `f` is what is made of a text. -/
def Field.value : Field → List UInt8 → Value
  | .number, l => .number (toInt (strtol l).1)
  | .text, l => .text (f (l.takeWhile fun b => b ≠ TAB))

/-- The values of fields, and where the last one ends. Each but the last must be followed by a byte of the
line, which is skipped. -/
def readFields : List Field → List UInt8 → Option (List Value × ℕ)
  | [], _ => none
  | [k], l => (k.width l).map fun i => ([k.value f l], i)
  | k :: k' :: ks, l => (k.width l).bind fun i => if i < l.length then
      (readFields (k' :: ks) (l.drop (i + 1))).map fun p => (k.value f l :: p.1, i + 1 + p.2) else none

variable {f}

theorem readFields_cons {k : Field} {ks : List Field} (hks : ks ≠ []) (l : List UInt8) :
    readFields f (k :: ks) l = (k.width l).bind fun i => if i < l.length then
      (readFields f ks (l.drop (i + 1))).map fun p => (k.value f l :: p.1, i + 1 + p.2) else none := by
  obtain ⟨k', ks, rfl⟩ := List.exists_cons_of_ne_nil hks
  rw [readFields]

theorem readFields_append {ks ks' : List Field} (hks : ks ≠ []) (hks' : ks' ≠ []) (l : List UInt8) :
    readFields f (ks ++ ks') l = (readFields f ks l).bind fun p => if p.2 < l.length then
      (readFields f ks' (l.drop (p.2 + 1))).map fun q => (p.1 ++ q.1, p.2 + 1 + q.2) else none := by
  induction ks generalizing l with
  | nil => exact absurd rfl hks
  | cons k ks ih =>
    by_cases hnil : ks = []
    · subst hnil
      rw [List.singleton_append, readFields_cons hks', readFields]
      cases k.width l <;> rfl
    · rw [List.cons_append, readFields_cons (List.append_ne_nil_of_left_ne_nil hnil _),
        readFields_cons hnil]
      cases hw : k.width l with
      | none => rfl
      | some i =>
        simp only [Option.bind_some]
        split_ifs with hi
        · rw [ih hnil]
          cases hr : readFields f ks (l.drop (i + 1)) with
          | none => rfl
          | some p =>
            simp only [Option.bind_some, Option.map_some, List.length_drop, List.drop_drop]
            have hlt : p.2 < l.length - (i + 1) ↔ i + 1 + p.2 < l.length := by omega
            simp only [hlt, Nat.add_assoc]
            split_ifs
            · cases readFields f ks' (l.drop (i + (1 + (p.2 + 1)))) with
              | none => rfl
              | some q => rfl
            · rfl
        · rfl

/-! ## Readers -/

variable (f) in
/-- The reader takes the fields `ks`: it takes a value with the fields of the line, behind fields `done`
that it has been given, and for a value that does not end behind the line the line has these fields. -/
structure Fills (p : Reader α) (ks : List Field) (done : List Value) (values : α → List Value) : Prop where
  ne : ks ≠ []
  mono : ∀ n (m : Block UInt8 n) s a e, p n m s = some (some a, e) → s ≤ e
  complete : ∀ l, 0 ∉ l → ∀ n (m : Block UInt8 n) pre after, m.cells = pre ++ (l ++ 0 :: after) →
    ∀ vs i, readFields f ks l = some (vs, i) →
      ∃ a, p n m pre.length = some (some a, pre.length + i) ∧ values a = done ++ vs
  sound : ∀ l, 0 ∉ l → ∀ n (m : Block UInt8 n) pre after, m.cells = pre ++ (l ++ 0 :: after) →
    ∀ a e, p n m pre.length = some (some a, e) → e ≤ pre.length + l.length →
      ∃ vs i, readFields f ks l = some (vs, i) ∧ e = pre.length + i ∧ values a = done ++ vs

theorem Fills.of_reads {p : Reader α} {k : Field} {values : α → List Value}
    (h : ∀ l, 0 ∉ l → ∀ n (m : Block UInt8 n) pre after, m.cells = pre ++ (l ++ 0 :: after) →
      match k.width l with
      | none => p n m pre.length = some (none, pre.length)
      | some i => ∃ a, p n m pre.length = some (some a, pre.length + i) ∧ values a = [k.value f l])
    (hmono : ∀ n (m : Block UInt8 n) s a e, p n m s = some (some a, e) → s ≤ e) :
    Fills f p [k] [] values where
  ne := List.cons_ne_nil _ _
  mono := hmono
  complete l hl n m pre after hm vs i hr := by
    have hp := h l hl n m pre after hm
    obtain ⟨j, hj, heq⟩ := Option.map_eq_some_iff.1 hr
    obtain ⟨rfl, rfl⟩ := Prod.mk.inj heq
    rw [hj] at hp
    exact hp
  sound l hl n m pre after hm a e hp' _ := by
    have hp := h l hl n m pre after hm
    cases hw : k.width l with
    | none =>
      rw [hw] at hp
      cases hp.symm.trans hp'
    | some i =>
      rw [hw] at hp
      obtain ⟨b, hb, hv⟩ := hp
      obtain ⟨hab, he⟩ := Prod.mk.inj (Option.some.inj (hb.symm.trans hp'))
      obtain rfl := Option.some.inj hab
      refine ⟨[k.value f l], i, ?_, he.symm, hv⟩
      rw [readFields, hw]
      rfl

theorem fills_number : Fills f number [.number] [] fun z => [.number z] := by
  refine .of_reads (fun l hl n m pre after hm => ?_) fun n m s a e h => ?_
  · simp only [Field.width, number, cstr_append hm hl, Option.bind_eq_bind, Option.bind_some, Option.pure_def]
    by_cases h0 : (strtol l).2 = 0
    · rw [if_pos h0, if_pos h0]
    · rw [if_neg h0, if_neg h0]
      exact ⟨_, rfl, rfl⟩
  · simp only [number, Option.bind_eq_bind, Option.bind_eq_some_iff, Option.pure_def] at h
    obtain ⟨t, -, h⟩ := h
    split_ifs at h
    · cases h
    · cases h
      exact Nat.le_add_right _ _

theorem fills_text : Fills f (text f) [.text] [] fun t => [.text t] := by
  refine .of_reads (fun l hl n m pre after hm => ?_) fun n m s a e h => ?_
  · have htake : (m.cells.drop pre.length).take (l.takeWhile fun b => b ≠ TAB).length =
        l.takeWhile fun b => b ≠ TAB := by
      rw [hm, List.drop_left, List.take_append_of_le_length (List.takeWhile_prefix _).length_le]
      exact (List.prefix_iff_eq_take.1 (List.takeWhile_prefix _)).symm
    refine ⟨f (l.takeWhile fun b => b ≠ TAB), ?_, rfl⟩
    simp only [text, strcspn_text hl hm, Option.bind_eq_bind, Option.bind_some, htake,
      Option.pure_def]
  · simp only [text, Option.bind_eq_bind, Option.bind_eq_some_iff, Option.pure_def] at h
    obtain ⟨k, -, h⟩ := h
    cases h
    exact Nat.le_add_right _ _

variable {p : Reader α} {ks ks' : List Field} {done : List Value} {va : α → List Value}
  {vb : β → List Value}

theorem Fills.map (h : Fills f p ks [] va) {g : α → β} (hg : ∀ a, vb (g a) = done ++ va a) :
    Fills f (p.map g) ks done vb where
  ne := h.ne
  mono n m s b e hb := by
    simp only [Reader.map, Option.bind_eq_bind, Option.bind_eq_some_iff, Option.pure_def] at hb
    obtain ⟨⟨_ | a, e'⟩, ha, hb⟩ := hb <;> cases hb
    exact h.mono n m s a _ ha
  complete l hl n m pre after hm vs i hr := by
    obtain ⟨a, ha, hv⟩ := h.complete l hl n m pre after hm vs i hr
    refine ⟨g a, ?_, by rw [hg, hv, List.nil_append]⟩
    simp only [Reader.map, ha, Option.bind_eq_bind, Option.bind_some, Option.map_some, Option.pure_def]
  sound l hl n m pre after hm b e hb he := by
    simp only [Reader.map, Option.bind_eq_bind, Option.bind_eq_some_iff, Option.pure_def] at hb
    obtain ⟨⟨_ | a, e'⟩, ha, hb⟩ := hb <;> cases hb
    obtain ⟨vs, i, hr, hi, hv⟩ := h.sound l hl n m pre after hm a _ ha he
    exact ⟨vs, i, hr, hi, by rw [hg, hv, List.nil_append]⟩

theorem sep_eq_some {q : α → Reader β} {n : ℕ} {m : Block UInt8 n} {s e : ℕ} {b : β}
    (h : p.sep q n m s = some (some b, e)) :
    ∃ a e', p n m s = some (some a, e') ∧ q a n m (e' + 1) = some (some b, e) := by
  simp only [Reader.sep, Option.bind_eq_bind, Option.bind_eq_some_iff, Option.pure_def] at h
  obtain ⟨⟨_ | a, e'⟩, ha, hb⟩ := h
  · cases hb
  · exact ⟨a, e', ha, hb⟩

/-- **Two fields.** -/
theorem Fills.sep {q : α → Reader β} (hp : Fills f p ks [] va)
    (hq : ∀ a, Fills f (q a) ks' (done ++ va a) vb) :
    Fills f (p.sep q) (ks ++ ks') done vb where
  ne := List.append_ne_nil_of_left_ne_nil hp.ne _
  mono n m s b e hb := by
    obtain ⟨a, e', ha, hb⟩ := sep_eq_some hb
    have := hp.mono n m s a e' ha
    have := (hq a).mono n m _ b e hb
    omega
  complete l hl n m pre after hm vs k hr := by
    have hks' : ks' ≠ [] := by
      rintro rfl
      rw [List.append_nil] at hr
      obtain ⟨a, -⟩ := hp.complete l hl n m pre after hm vs k hr
      exact (hq a).ne rfl
    rw [readFields_append hp.ne hks', Option.bind_eq_some_iff] at hr
    obtain ⟨⟨us, i⟩, hi, hr⟩ := hr
    split_ifs at hr with hlt
    obtain ⟨⟨us', j⟩, hj, heq⟩ := Option.map_eq_some_iff.1 hr
    obtain ⟨rfl, rfl⟩ := Prod.mk.inj heq
    obtain ⟨a, ha, hva⟩ := hp.complete l hl n m pre after hm us i hi
    obtain ⟨hm', hlen⟩ := cells_drop hm hlt
    obtain ⟨b, hb, hvb⟩ := (hq a).complete _ (fun h => hl (List.mem_of_mem_drop h)) n m _ after hm' us' j hj
    refine ⟨b, ?_, by rw [hvb, hva, List.nil_append, List.append_assoc]⟩
    rw [sep_some ha, ← hlen, hb, hlen]
    simp only [Nat.add_assoc]
  sound l hl n m pre after hm b e hb he := by
    obtain ⟨a, e', ha, hb⟩ := sep_eq_some hb
    have hle := (hq a).mono n m _ b e hb
    obtain ⟨us, i, hi, rfl, hva⟩ := hp.sound l hl n m pre after hm a e' ha (by omega)
    have hlt : i < l.length := by omega
    obtain ⟨hm', hlen⟩ := cells_drop hm hlt
    rw [← hlen] at hb
    obtain ⟨us', j, hj, rfl, hvb⟩ := (hq a).sound _ (fun h => hl (List.mem_of_mem_drop h)) n m _ after hm' b e hb
      (by rw [hlen, List.length_drop]; omega)
    refine ⟨us ++ us', i + 1 + j, ?_, by rw [hlen]; omega, by rw [hvb, hva, List.nil_append, List.append_assoc]⟩
    rw [readFields_append hp.ne (hq a).ne, hi, Option.bind_some, if_pos hlt, hj]
    rfl

theorem record_eq_some {n : ℕ} {m : Block UInt8 n} {s e : ℕ} {a : α}
    (h : record p n m s = some (some a, e)) : p n m s = some (some a, e) := by
  simp only [record, Option.bind_eq_bind, Option.bind_eq_some_iff, Option.pure_def] at h
  obtain ⟨⟨_ | b, e'⟩, hb, h⟩ := h <;> cases h
  exact hb

theorem Fills.record (h : Fills f p ks done va) : Fills f (record p) ks done va where
  ne := h.ne
  mono n m s a e ha := h.mono n m s a e (record_eq_some ha)
  complete l hl n m pre after hm vs i hr := by
    obtain ⟨a, ha, hv⟩ := h.complete l hl n m pre after hm vs i hr
    refine ⟨a, ?_, hv⟩
    simp only [Lib.record, ha, Option.bind_eq_bind, Option.bind_some, Option.pure_def]
  sound l hl n m pre after hm a e ha := h.sound l hl n m pre after hm a e (record_eq_some ha)

end Reading

/-! ## Encoding -/

/-- The kind of a value. -/
def Value.field : Value → Field
  | .number _ => .number
  | .text _ => .text

/-- A number fits in an `int`, a text is a C string. -/
def Value.Fits : Value → Prop
  | .number z => -2 ^ 31 ≤ z ∧ z < 2 ^ 31
  | .text t => 0 ∉ t

instance Value.decidableFits : ∀ v : Value, Decidable v.Fits
  | .number z => inferInstanceAs (Decidable (-2 ^ 31 ≤ z ∧ z < 2 ^ 31))
  | .text t => inferInstanceAs (Decidable (0 ∉ t))

/-- A value as a field; `esc` is what is made of a text. -/
def Value.encode (esc : List UInt8 → List UInt8) : Value → List UInt8
  | .number z => decimalInt z
  | .text t => esc t

/-- Values as a line: the fields, joined by tabs. -/
def encode (esc : List UInt8 → List UInt8) (vs : List Value) : List UInt8 :=
  [TAB].intercalate (vs.map (Value.encode esc))

/-- `esc` keeps tabs out of a text, and `f` undoes it. -/
structure Undoes (f esc : List UInt8 → List UInt8) : Prop where
  undo : ∀ t, f (esc t) = t
  free : ∀ t, TAB ∉ esc t
  string : ∀ t, 0 ∉ t → 0 ∉ esc t

/-- The reader takes the value `a` from the text `t`, alone on a line or with a tab and more behind it, and
ends at its end. -/
def ReadsAs {α : Type} (p : Reader α) (t : List UInt8) (a : α) : Prop :=
  ∀ r, 0 ∉ r → (r = [] ∨ ∃ r', r = TAB :: r') → ∀ n (m : Block UInt8 n) pre after,
    m.cells = pre ++ ((t ++ r) ++ 0 :: after) → p n m pre.length = some (some a, pre.length + t.length)

section Encoding

variable {α : Type} {f esc : List UInt8 → List UInt8} {v : Value} {vs : List Value} {r : List UInt8}

theorem encode_cons (v : Value) (hvs : vs ≠ []) :
    encode esc (v :: vs) = v.encode esc ++ TAB :: encode esc vs := by
  rw [encode, List.map_cons, List.intercalate_cons_of_ne_nil (by simpa using hvs)]
  simp [encode]

theorem encode_string (h : Undoes f esc) (hfits : ∀ v ∈ vs, v.Fits) : 0 ∉ encode esc vs := by
  have hone : ∀ v : Value, v.Fits → 0 ∉ v.encode esc := by
    intro v hv
    cases v with
    | number z => exact not_mem_decimalInt (by decide) (by decide) z
    | text t => exact h.string t hv
  induction vs with
  | nil => exact List.not_mem_nil
  | cons v vs ih =>
    have hv := hone v (hfits v List.mem_cons_self)
    by_cases hnil : vs = []
    · subst hnil
      simpa [encode] using hv
    · rw [encode_cons v hnil]
      simp only [List.mem_append, List.mem_cons, not_or]
      exact ⟨hv, by decide, ih fun u hu => hfits u (List.mem_cons_of_mem v hu)⟩

theorem takeWhile_field {t : List UInt8} (ht : TAB ∉ t) (hr : r = [] ∨ ∃ r', r = TAB :: r') :
    (t ++ r).takeWhile (fun b => b ≠ TAB) = t := by
  rw [List.takeWhile_append_of_pos fun b hb => by simpa using ne_of_mem_of_not_mem hb ht]
  rcases hr with rfl | ⟨r', rfl⟩ <;> simp

theorem field_encode (h : Undoes f esc) (hv : v.Fits) (hr : r = [] ∨ ∃ r', r = TAB :: r') :
    v.field.width (v.encode esc ++ r) = some (v.encode esc).length ∧
      v.field.value f (v.encode esc ++ r) = v := by
  cases v with
  | number z =>
    have hz : -2 ^ 31 ≤ z ∧ z < 2 ^ 31 := hv
    have hlong : -LONG_MAX - 1 ≤ z ∧ z ≤ LONG_MAX := by
      unfold LONG_MAX
      omega
    have hdigit : ∀ b ∈ r.head?, isdigit b = false := by
      rcases hr with rfl | ⟨r', rfl⟩
      · exact fun b hb => by cases hb
      · exact fun b hb => Option.some.inj hb ▸ by decide
    have hscan := strtol_decimalInt hlong.1 hlong.2 hdigit
    have hpos : (decimalInt z).length ≠ 0 := by
      have := List.length_pos_of_ne_nil (decimal_ne_nil z.natAbs)
      rw [decimalInt]
      split_ifs
      · exact Nat.succ_ne_zero _
      · omega
    simp only [Value.field, Field.width, Field.value, Value.encode, hscan, if_neg hpos, toInt_eq hz,
      true_and]
  | text t =>
    simp only [Value.field, Field.width, Field.value, Value.encode, takeWhile_field (h.free t) hr, h.undo,
      true_and]

/-- **Fields are read back.** -/
theorem readFields_encode (h : Undoes f esc) (hfits : ∀ v ∈ vs, v.Fits) (hvs : vs ≠ [])
    (hr : r = [] ∨ ∃ r', r = TAB :: r') :
    readFields f (vs.map Value.field) (encode esc vs ++ r) = some (vs, (encode esc vs).length) := by
  induction vs with
  | nil => exact absurd rfl hvs
  | cons v vs ih =>
    have hv := hfits v List.mem_cons_self
    by_cases hnil : vs = []
    · subst hnil
      obtain ⟨hw, hval⟩ := field_encode h hv hr
      have henc : encode esc [v] = v.encode esc := by simp [encode]
      rw [henc, List.map_cons, List.map_nil, readFields, hw, Option.map_some, hval]
    · obtain ⟨hw, hval⟩ := field_encode (r := TAB :: (encode esc vs ++ r)) h hv (Or.inr ⟨_, rfl⟩)
      rw [encode_cons v hnil, List.append_assoc, List.cons_append, List.map_cons,
        readFields_cons (by simpa using hnil), hw, Option.bind_some,
        if_pos (by simp only [List.length_append, List.length_cons]; omega), ← List.drop_drop,
        List.drop_left, List.drop_succ_cons, List.drop_zero,
        ih (fun u hu => hfits u (List.mem_cons_of_mem v hu)) hnil, hval]
      simp only [Option.map_some, List.length_append, List.length_cons, Nat.add_assoc, Nat.add_comm 1]

/-- **A record is read back** by a reader that takes its fields. -/
theorem Fills.reads_encoded {p : Reader α} {ks : List Field} {values : α → List Value}
    (h : Fills f p ks [] values) (hesc : Undoes f esc) (hinj : Function.Injective values) {a : α}
    (hks : (values a).map Value.field = ks) (hfits : ∀ v ∈ values a, v.Fits) :
    ReadsAs p (encode esc (values a)) a := by
  intro r h0 hr n m pre after hm
  have hnil : values a ≠ [] := fun hnil => h.ne (by rw [← hks, hnil]; rfl)
  have hread := readFields_encode hesc hfits hnil hr
  rw [hks] at hread
  have hfree : 0 ∉ encode esc (values a) ++ r := by
    rw [List.mem_append, not_or]
    exact ⟨encode_string hesc hfits, h0⟩
  obtain ⟨b, hb, hv⟩ := h.complete _ hfree n m pre after hm _ _ hread
  rw [hb, hinj (hv.trans (List.nil_append _))]

end Encoding

/-! ## Accepting encoded values only -/

/-- The integer spelled by a decimal: an optional sign and digits. -/
def intOf (t : List UInt8) : Option ℤ :=
  let ds := t.drop (sign t).2
  if ds ≠ [] ∧ ds.all isdigit = true then
    some (if (sign t).1 then -(digitsVal ds : ℤ) else digitsVal ds)
  else none

/-- The field of a line is a text for the value. -/
def Value.Spelled (f : List UInt8 → List UInt8) : Value → List UInt8 → Prop
  | .number z, t => intOf t = some z ∧ -2 ^ 31 ≤ z ∧ z < 2 ^ 31
  | .text s, t => f t = s

/-- When a record is taken from the whole line, whatever follows it in memory, the line is made of its
fields, separated by tabs. -/
def Faithful {α : Type} (f : List UInt8 → List UInt8) (p : Reader α) (values : α → List Value)
    (l : List UInt8) : Prop :=
  ∀ n (m : Block UInt8 n) pre after a, m.cells = pre ++ (l ++ 0 :: after) →
    p n m pre.length = some (some a, pre.length + l.length) →
      List.Forall₂ (Value.Spelled f) (values a) (l.splitOn TAB)

/-- A number without blanks before it that fits in an `int`. -/
def Field.Strict : Field → List UInt8 → Prop
  | .number, l => (∀ b ∈ l.head?, isspace b = false) ∧ -2 ^ 31 ≤ (strtol l).1 ∧ (strtol l).1 < 2 ^ 31
  | .text, _ => True

/-- Every number is such a one, and what is skipped behind a field is a tab. -/
def Strict : List Field → List UInt8 → Prop
  | [], _ => True
  | [k], l => k.Strict l
  | k :: k' :: ks, l => k.Strict l ∧ ∀ i, k.width l = some i →
      l[i]? = some TAB ∧ Strict (k' :: ks) (l.drop (i + 1))

section Accepting

variable {α : Type} {f : List UInt8 → List UInt8} {k : Field} {ks : List Field} {l t r : List UInt8}
  {vs : List Value} {z : ℤ} {i : ℕ}

theorem takeWhile_isspace (h : ∀ b ∈ l.head?, isspace b = false) : (l.takeWhile isspace).length = 0 := by
  cases l with
  | nil => rfl
  | cons b l =>
    rw [List.takeWhile_cons, h b rfl]
    rfl

theorem intOf_eq (h : intOf t = some z) : t.drop (sign t).2 ≠ [] ∧
    (∀ b ∈ t.drop (sign t).2, isdigit b = true) ∧
      z = if (sign t).1 then -(digitsVal (t.drop (sign t).2) : ℤ) else digitsVal (t.drop (sign t).2) := by
  unfold intOf at h
  by_cases hd : t.drop (sign t).2 ≠ [] ∧ (t.drop (sign t).2).all isdigit = true
  · exact ⟨hd.1, List.all_eq_true.1 hd.2, (Option.some.inj ((if_pos hd).symm.trans h)).symm⟩
  · cases (if_neg hd).symm.trans h

/-- **Scanning a decimal** of an `int`. -/
theorem strtol_intOf (h : intOf t = some z) (hz : -2 ^ 31 ≤ z ∧ z < 2 ^ 31)
    (hr : ∀ b ∈ r.head?, isdigit b = false) :
    strtol (t ++ r) = (z, t.length) ∧ ∀ b ∈ (t ++ r).head?, isspace b = false := by
  obtain ⟨hne, hdig, hval⟩ := intOf_eq h
  have ht : t ≠ [] := by
    rintro rfl
    exact hne List.drop_nil
  have hspace : ∀ b ∈ (t ++ r).head?, isspace b = false := by
    intro b hb
    obtain ⟨c, t, rfl⟩ := List.exists_cons_of_ne_nil ht
    obtain rfl := Option.some.inj hb
    rw [sign_cons] at hdig
    split_ifs at hdig with hm hp
    · exact hm ▸ by decide
    · exact hp ▸ by decide
    · exact isspace_of_isdigit (hdig c List.mem_cons_self)
  have hlen : (sign t).2 ≤ t.length := by
    by_contra hlt
    exact hne (List.drop_eq_nil_of_le (by omega))
  have hds : ((t ++ r).drop (sign t).2).takeWhile isdigit = t.drop (sign t).2 := by
    rw [List.drop_append_of_le_length hlen, List.takeWhile_append_of_pos hdig]
    cases r with
    | nil => simp
    | cons b r =>
      rw [List.takeWhile_cons, hr b rfl]
      simp
  have hcl : clampLong (sign t).1 (digitsVal (t.drop (sign t).2)) = z := by
    rw [hval] at hz ⊢
    unfold clampLong LONG_MAX
    split_ifs at hz ⊢ <;> omega
  refine ⟨?_, hspace⟩
  simp only [strtol, takeWhile_isspace hspace, List.drop_zero, sign_append ht, Nat.zero_add, hds, if_neg hne,
    hcl, List.length_drop, Nat.add_sub_cancel' hlen]

theorem intOf_take (hspace : ∀ b ∈ l.head?, isspace b = false) (hne : (strtol l).2 ≠ 0)
    (hz : -2 ^ 31 ≤ (strtol l).1 ∧ (strtol l).1 < 2 ^ 31) :
    intOf (l.take (strtol l).2) = some (strtol l).1 := by
  have hds : (l.drop (sign l).2).takeWhile isdigit ≠ [] := by
    intro hnil
    simp only [strtol, takeWhile_isspace hspace, List.drop_zero, Nat.zero_add, if_pos hnil] at hne
    exact hne rfl
  have hscan : strtol l = (clampLong (sign l).1 (digitsVal ((l.drop (sign l).2).takeWhile isdigit)),
      (sign l).2 + ((l.drop (sign l).2).takeWhile isdigit).length) := by
    simp only [strtol, takeWhile_isspace hspace, List.drop_zero, Nat.zero_add, if_neg hds]
  have hlt : (sign l).2 < l.length := by
    by_contra hle
    rw [List.drop_eq_nil_of_le (by omega)] at hds
    exact hds rfl
  have htake : l.take ((sign l).2 + ((l.drop (sign l).2).takeWhile isdigit).length) =
      l.take (sign l).2 ++ (l.drop (sign l).2).takeWhile isdigit := by
    rw [List.take_add, ← List.prefix_iff_eq_take.1 (List.takeWhile_prefix _)]
  have hnil : l.take (sign l).2 ++ (l.drop (sign l).2).takeWhile isdigit ≠ [] :=
    List.append_ne_nil_of_right_ne_nil _ hds
  have hsign : sign (l.take (sign l).2 ++ (l.drop (sign l).2).takeWhile isdigit) = sign l := by
    conv_rhs => rw [← List.take_append_drop
      ((sign l).2 + ((l.drop (sign l).2).takeWhile isdigit).length) l, htake]
    exact (sign_append hnil _).symm
  have hdrop : (l.take (sign l).2 ++ (l.drop (sign l).2).takeWhile isdigit).drop (sign l).2 =
      (l.drop (sign l).2).takeWhile isdigit :=
    List.drop_left' (by rw [List.length_take, min_eq_left hlt.le])
  rw [hscan] at hz ⊢
  rw [htake, intOf, hsign, hdrop, if_pos ⟨hds, List.all_takeWhile⟩]
  refine congrArg some ?_
  unfold clampLong LONG_MAX at hz ⊢
  split_ifs at hz ⊢ <;> omega

theorem free_of_intOf (h : intOf t = some z) : TAB ∉ t := by
  obtain ⟨-, hdig, -⟩ := intOf_eq h
  cases t with
  | nil => exact List.not_mem_nil
  | cons b t =>
    have htab : ∀ ds : List UInt8, (∀ b ∈ ds, isdigit b = true) → TAB ∉ ds := fun ds hds hmem =>
      absurd (hds TAB hmem) (by decide)
    rw [sign_cons] at hdig
    split_ifs at hdig with hm hp
    · rw [List.mem_cons, not_or]
      exact ⟨hm ▸ by decide, htab _ hdig⟩
    · rw [List.mem_cons, not_or]
      exact ⟨hp ▸ by decide, htab _ hdig⟩
    · exact htab _ hdig

theorem exists_field (l : List UInt8) :
    ∃ t r, l = t ++ r ∧ TAB ∉ t ∧ (r = [] ∨ ∃ r', r = TAB :: r') := by
  by_cases h : TAB ∈ l
  · obtain ⟨t, r, rfl, ht⟩ := List.eq_append_cons_of_mem h
    exact ⟨t, TAB :: r, rfl, ht, Or.inr ⟨r, rfl⟩⟩
  · exact ⟨l, [], (List.append_nil l).symm, h, Or.inl rfl⟩

/-- **The first field** is a text for the value that is read just when it is read strictly and to its
end. -/
theorem value_spelled_iff (hl : l = t ++ r) (ht : TAB ∉ t) (hr : r = [] ∨ ∃ r', r = TAB :: r')
    (hi : k.width l = some i) : (k.value f l).Spelled f t ↔ k.Strict l ∧ i = t.length := by
  subst hl
  cases k with
  | text =>
    obtain rfl := Option.some.inj hi
    simp only [Field.value, Value.Spelled, Field.Strict, takeWhile_field ht hr, true_and]
  | number =>
    rw [Field.width] at hi
    split_ifs at hi with hne
    obtain rfl := Option.some.inj hi
    have hdigit : ∀ b ∈ r.head?, isdigit b = false := by
      rcases hr with rfl | ⟨r', rfl⟩
      · exact fun b hb => by cases hb
      · exact fun b hb => Option.some.inj hb ▸ by decide
    constructor
    · rintro ⟨hint, hz⟩
      obtain ⟨hscan, hspace⟩ := strtol_intOf hint hz hdigit
      refine ⟨⟨hspace, ?_⟩, by rw [hscan]⟩
      rw [hscan]
      exact hz
    · rintro ⟨⟨hspace, hz⟩, hlen⟩
      have hint := intOf_take hspace hne hz
      rw [hlen, List.take_left] at hint
      rw [Field.value, toInt_eq hz]
      exact ⟨hint, hz⟩

theorem strict_free (h : k.Strict l) (hi : k.width l = some i) : TAB ∉ l.take i := by
  cases k with
  | text =>
    obtain rfl := Option.some.inj hi
    rw [← List.prefix_iff_eq_take.1 (List.takeWhile_prefix _)]
    exact fun hmem => absurd (List.mem_takeWhile_imp hmem) (by simp)
  | number =>
    rw [Field.width] at hi
    split_ifs at hi with hne
    obtain rfl := Option.some.inj hi
    exact free_of_intOf (intOf_take h.1 hne h.2)

theorem last_spelled_iff (hi : k.width l = some l.length) :
    List.Forall₂ (Value.Spelled f) [k.value f l] (l.splitOn TAB) ↔ k.Strict l := by
  constructor
  · intro hall
    obtain ⟨t, r, hl, ht, hr⟩ := exists_field l
    obtain ⟨ts, hsplit⟩ : ∃ ts, l.splitOn TAB = t :: ts := by
      rcases hr with rfl | ⟨r', rfl⟩
      · rw [hl, List.append_nil, List.splitOn_eq_singleton ht]
        exact ⟨[], rfl⟩
      · rw [hl, List.splitOn_append_cons_self_of_not_mem ht]
        exact ⟨_, rfl⟩
    rw [hsplit] at hall
    exact ((value_spelled_iff hl ht hr hi).1 (List.forall₂_cons.1 hall).1).1
  · intro hs
    have hfree := strict_free hs hi
    rw [List.take_length] at hfree
    rw [List.splitOn_eq_singleton hfree]
    exact .cons ((value_spelled_iff (List.append_nil l).symm hfree (Or.inl rfl) hi).2 ⟨hs, rfl⟩) .nil

theorem cons_spelled_iff (hi : k.width l = some i) (hlt : i < l.length) :
    List.Forall₂ (Value.Spelled f) (k.value f l :: vs) (l.splitOn TAB) ↔
      k.Strict l ∧ l[i]? = some TAB ∧
        List.Forall₂ (Value.Spelled f) vs ((l.drop (i + 1)).splitOn TAB) := by
  constructor
  · intro hall
    obtain ⟨t, r, hl, ht, hr⟩ := exists_field l
    rcases hr with rfl | ⟨r', rfl⟩
    · -- the line ends with the first field
      rw [List.append_nil] at hl
      subst hl
      rw [List.splitOn_eq_singleton ht] at hall
      have hv := (List.forall₂_cons.1 hall).1
      have hwhole := ((value_spelled_iff (List.append_nil l).symm ht (Or.inl rfl) hi).1 hv).2
      omega
    · have hsplit : l.splitOn TAB = t :: r'.splitOn TAB := by
        rw [hl]
        exact List.splitOn_append_cons_self_of_not_mem ht r'
      rw [hsplit] at hall
      obtain ⟨hv, hrest⟩ := List.forall₂_cons.1 hall
      obtain ⟨hs, rfl⟩ := (value_spelled_iff hl ht (Or.inr ⟨r', rfl⟩) hi).1 hv
      have hdrop : l.drop (t.length + 1) = r' := by
        rw [hl, ← List.drop_drop, List.drop_left, List.drop_succ_cons, List.drop_zero]
      refine ⟨hs, by rw [hl]; simp, ?_⟩
      rw [hdrop]
      exact hrest
  · rintro ⟨hs, htab, hrest⟩
    have hfree := strict_free hs hi
    obtain ⟨_, hget⟩ := List.getElem?_eq_some_iff.1 htab
    have hl : l = l.take i ++ TAB :: l.drop (i + 1) := by
      rw [← hget, List.getElem_cons_drop, List.take_append_drop]
    have hsplit : l.splitOn TAB = l.take i :: (l.drop (i + 1)).splitOn TAB := by
      conv_lhs => rw [hl]
      exact List.splitOn_append_cons_self_of_not_mem hfree _
    rw [hsplit]
    refine .cons ((value_spelled_iff hl hfree (Or.inr ⟨_, rfl⟩) hi).2 ⟨hs, ?_⟩) hrest
    rw [List.length_take, min_eq_left hlt.le]

/-- **Fields that reach up to the end of the line** are texts for the values that are read just when they
are read strictly. -/
theorem strict_iff (h : readFields f ks l = some (vs, l.length)) :
    List.Forall₂ (Value.Spelled f) vs (l.splitOn TAB) ↔ Strict ks l := by
  induction ks generalizing l vs with
  | nil => cases h
  | cons k ks ih =>
    cases ks with
    | nil =>
      obtain ⟨i, hi, heq⟩ := Option.map_eq_some_iff.1 h
      obtain ⟨rfl, rfl⟩ := Prod.mk.inj heq
      exact last_spelled_iff hi
    | cons k' ks =>
      rw [readFields_cons (List.cons_ne_nil _ _), Option.bind_eq_some_iff] at h
      obtain ⟨i, hi, h⟩ := h
      split_ifs at h with hlt
      obtain ⟨⟨us, j⟩, hj, heq⟩ := Option.map_eq_some_iff.1 h
      obtain ⟨rfl, hend⟩ := Prod.mk.inj heq
      obtain rfl : j = (l.drop (i + 1)).length := by
        rw [List.length_drop]
        omega
      rw [cons_spelled_iff hi hlt, ih hj]
      constructor
      · rintro ⟨hs, hrest⟩
        refine ⟨hs, fun i' hi' => ?_⟩
        obtain rfl := Option.some.inj (hi.symm.trans hi')
        exact hrest
      · exact fun hs => ⟨hs.1, hs.2 i hi⟩

theorem readFields_shape (f : List UInt8 → List UInt8) (sh : Shape) (l : List UInt8) (i : ℕ) :
    (∃ vs, readFields f sh.fields l = some (vs, i)) ↔ sh.Enough l ∧ sh.width l = some i := by
  induction sh generalizing l i with
  | number =>
    rw [Shape.fields, readFields, Shape.Enough, Shape.width, true_and]
    change (∃ vs, (Shape.width .number l).map _ = some (vs, i)) ↔ Shape.width .number l = some i
    cases Shape.width .number l <;> simp
  | text =>
    rw [Shape.fields, readFields, Shape.Enough, Shape.width, true_and]
    simp [Field.width]
  | seq a b iha ihb =>
    rw [Shape.fields]
    simp only [readFields_append a.fields_ne_nil b.fields_ne_nil]
    constructor
    · rintro ⟨vs, h⟩
      obtain ⟨⟨us, j⟩, hj, h⟩ := Option.bind_eq_some_iff.1 h
      split_ifs at h with hlt
      obtain ⟨⟨us', k⟩, hk, heq⟩ := Option.map_eq_some_iff.1 h
      obtain ⟨-, rfl⟩ := Prod.mk.inj heq
      obtain ⟨hea, hwa⟩ := (iha l j).1 ⟨us, hj⟩
      obtain ⟨heb, hwb⟩ := (ihb _ k).1 ⟨us', hk⟩
      refine ⟨⟨hea, fun j' hj' => ?_⟩, ?_⟩
      · obtain rfl := Option.some.inj (hwa.symm.trans hj')
        exact ⟨hlt, heb⟩
      · simp only [Shape.width, hwa, hwb, Option.bind_eq_bind, Option.bind_some, Option.pure_def]
    · rintro ⟨⟨hea, heb⟩, hw⟩
      simp only [Shape.width, Option.bind_eq_bind, Option.bind_eq_some_iff, Option.pure_def] at hw
      obtain ⟨j, hj, k, hk, hw⟩ := hw
      obtain ⟨hlt, heb⟩ := heb j hj
      obtain ⟨us, hus⟩ := (iha l j).2 ⟨hea, hj⟩
      obtain ⟨us', hus'⟩ := (ihb _ k).2 ⟨heb, hk⟩
      refine ⟨us ++ us', ?_⟩
      rw [hus, Option.bind_some, if_pos hlt, hus', Option.map_some, Option.some.inj hw]

/-- A line that is taken whole is read strictly. -/
def Shape.WholeStrict (sh : Shape) (l : List UInt8) : Prop :=
  sh.Enough l → sh.width l = some l.length → Strict sh.fields l

/-- **A line that is taken whole is made of the fields of its record** just when it is read strictly. -/
theorem Fills.faithful_iff {p : Reader α} {sh : Shape} {values : α → List Value}
    (h : Fills f p sh.fields [] values) (hl : 0 ∉ l) :
    Faithful f p values l ↔ sh.WholeStrict l := by
  constructor
  · intro hf he hw
    obtain ⟨vs, hvs⟩ := (readFields_shape f sh l l.length).2 ⟨he, hw⟩
    obtain ⟨a, ha, hv⟩ := h.complete l hl _ ⟨[] ++ (l ++ 0 :: []), rfl⟩ [] [] rfl vs _ hvs
    rw [← strict_iff hvs, ← hv.trans (List.nil_append _)]
    exact hf _ _ [] [] a rfl ha
  · intro hs n m pre after a hm ha
    obtain ⟨vs, i, hvs, hi, hv⟩ := h.sound l hl n m pre after hm a _ ha le_rfl
    obtain rfl := Nat.add_left_cancel hi
    obtain ⟨he, hw⟩ := (readFields_shape f sh l l.length).1 ⟨vs, hvs⟩
    rw [hv, List.nil_append, strict_iff hvs]
    exact hs he hw

end Accepting

end Lib
