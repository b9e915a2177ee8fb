import Dudlc.Expansion

/-!
# The grammar of id lists

`idlist.c` gives the grammar `list := <item>[','<...>]`, `item := <from>['-'<to>]`.

* `ListItem`, `Derives`: the texts of the grammar, with decimals and ranges that do not decrease.
* `LooseItem`, `Loose`, `RefusedItem`, `Late`: what else `idl_addlist` accepts, and where it refuses.
* `AcceptsGrammar`: it accepts the texts of the grammar, and leaves the list alone where it refuses.
* **`acceptsGrammar_iff`**: when this is so.
-/

namespace Dudlc

open Lib

/-! ## The grammar -/

/-- An item of the grammar. -/
inductive ListItem
  | one (n : Decimal)
  | span (m n : Decimal) (le : m.val ≤ n.val)

def ListItem.text : ListItem → List UInt8
  | .one n => n.digits
  | .span m n _ => m.digits ++ 45 :: n.digits

/-- The expansion of an item. -/
def ListItem.ids : ListItem → List ℤ
  | .one n => [n.val]
  | .span m n _ => idRange m.val n.val

/-- The text is a list of these items. -/
def Derives (items : List ListItem) (t : List UInt8) : Prop :=
  items ≠ [] ∧ t = [44].intercalate (items.map ListItem.text)

/-- The numbers of a text are in the range of the grammar. -/
def SmallNumbers (t : List UInt8) : Prop :=
  ∀ ds, ds <:+: t → (∀ b ∈ ds, isdigit b = true) → digitsVal ds < INT_MAX

/-- `idl_addlist` accepts exactly the texts of the grammar and appends their expansion, and what it
refuses leaves the list alone. -/
def AcceptsGrammar (idl : List ℤ) (s : Cstr) : Prop :=
  ∃ ret idl' n, idlAddlist idl s = some (ret, idl', n) ∧
    (n = s.bytes.length ↔ ∃ items, Derives items s.bytes) ∧
    (∀ items, Derives items s.bytes →
      idl' = idl ++ items.flatMap ListItem.ids ∧ ret = (items.flatMap ListItem.ids).length) ∧
    (n = 0 → ret = 0 ∧ idl' = idl)

theorem digitsVal_lt {ds : List UInt8} (h : ∀ b ∈ ds, isdigit b = true) : digitsVal ds < 10 ^ ds.length := by
  induction ds using List.reverseRecOn with
  | nil => decide
  | append_singleton ds b ih =>
    have ih := ih fun c hc => h c (List.mem_append_left _ hc)
    have hb : isdigit b = true := h b (by simp)
    simp only [isdigit, Bool.and_eq_true, decide_eq_true_eq, UInt8.le_iff_toNat_le, UInt8.reduceToNat] at hb
    unfold digitsVal at ih ⊢
    rw [List.foldl_append, List.length_append, pow_add]
    simp only [List.foldl_cons, List.foldl_nil, List.length_cons, List.length_nil]
    omega

theorem smallNumbers_short {t : List UInt8} (h : t.length ≤ 9) : SmallNumbers t := by
  intro ds hds hdigits
  have hlt := digitsVal_lt hdigits
  have hpow : 10 ^ ds.length ≤ 10 ^ 9 := Nat.pow_le_pow_right (by decide) (hds.length_le.trans h)
  simp only [INT_MAX]
  omega

/-! ## What is accepted and refused -/

/-- A single decimal, or a range that increases; its second number may have blanks and a sign. -/
def LooseItem (p : List UInt8) : Prop :=
  (∃ d : Decimal, p = d.digits) ∨
    ∃ (d : Decimal) (t : List UInt8), p = d.digits ++ 45 :: t ∧ IsNumber t ∧ d.val < written t

/-- Items of this kind, and at most one comma behind them. -/
def Loose (t : List UInt8) : Prop :=
  ∃ qs, qs ≠ [] ∧ (∀ q ∈ qs, LooseItem q) ∧ (t.splitOn 44 = qs ∨ t.splitOn 44 = qs ++ [[]])

/-- A decimal and a dash, and behind it no number or one that is not larger. -/
def RefusedItem (p : List UInt8) : Prop :=
  ∃ (d : Decimal) (t : List UInt8), p = d.digits ++ 45 :: t ∧
    ((strtoul t).2 = 0 ∨ written t ≤ d.val)

/-- An item that is refused comes behind others that are not. -/
def Late (t : List UInt8) : Prop :=
  ∃ q qs p rest, t.splitOn 44 = q :: qs ++ p :: rest ∧ (∀ x ∈ q :: qs, LooseItem x) ∧ RefusedItem p

/-! ## Items -/

variable {p t : List UInt8} {ps : List (List UInt8)} {d : Decimal}

theorem SmallNumbers.infix (h : SmallNumbers t) (hp : p <:+: t) : SmallNumbers p :=
  fun ds hds => h ds (hds.trans hp)

theorem SmallNumbers.narrow (h : SmallNumbers t) : narrow (written t) = written t ∧ written t < INT_MAX := by
  have hinfix : numDigits t <:+: t :=
    (List.takeWhile_prefix isdigit).isInfix.trans (List.drop_suffix ..).isInfix
  have hlt := h _ hinfix fun b hb => List.mem_takeWhile_imp hb
  have hw : -INT_MAX ≤ written t ∧ written t < INT_MAX := by
    unfold written
    split_ifs <;> constructor <;> simp only [INT_MAX] at hlt ⊢ <;> omega
  exact ⟨narrow_eq (by simp only [INT_MAX] at hw ⊢; omega) hw.2.le, hw.2⟩

theorem readItem_decimal (d : Decimal) : readItem d.digits = .one d.val [] := by
  have hread := d.read (r := []) (by simp)
  have hhead := d.head []
  rw [List.append_nil] at hread hhead
  rw [readItem_one hhead (by rw [hread.2]; simp), hread.1, hread.2, List.drop_length]

theorem readItem_span (d : Decimal) (t : List UInt8) :
    readItem (d.digits ++ 45 :: t) =
      if (strtoul t).2 = 0 then .cut else .span d.val (written t) (t.drop (strtoul t).2) := by
  have hread := d.read (r := 45 :: t) (by simp [isdigit])
  rw [readItem_dash (d.head _) (r := t) (by rw [hread.2, List.drop_left]), hread.1]

theorem take_span (h : SmallNumbers (d.digits ++ 45 :: t)) :
    (readItem (d.digits ++ 45 :: t)).take =
      if (strtoul t).2 = 0 ∨ written t ≤ d.val then .inl .refused
      else .inr (idRange d.val (written t), t.drop (strtoul t).2) := by
  have ht : SmallNumbers t := h.infix ((List.suffix_cons 45 t).isInfix.trans (List.suffix_append ..).isInfix)
  have hd := h.narrow
  rw [(d.read (r := 45 :: t) (by simp [isdigit])).1] at hd
  rw [readItem_span]
  by_cases hz : (strtoul t).2 = 0
  · rw [if_pos hz, if_pos (Or.inl hz)]
    rfl
  · rw [if_neg hz]
    simp only [hz, false_or, Item.take, hd.1, ht.narrow.1, if_neg ht.narrow.2.ne]

/-- **The pieces**: no decimal at the start, a decimal, a range, or a decimal with something else behind
it. -/
theorem piece_cases (p : List UInt8) :
    readItem p = .none ∨ (∃ d : Decimal, p = d.digits) ∨
      (∃ (d : Decimal) (t : List UInt8), p = d.digits ++ 45 :: t) ∨
        ∃ (d : Decimal) (r : List UInt8), r ≠ [] ∧ p = d.digits ++ r ∧ readItem p = .one d.val r := by
  rcases hdig : isdigit (p.headD 0) with _ | _
  · exact Or.inl (readItem_none hdig)
  obtain ⟨d, r, rfl, hr⟩ := exists_decimal hdig
  rcases r with _ | ⟨b, r⟩
  · exact Or.inr (Or.inl ⟨d, List.append_nil _⟩)
  by_cases hb : b = 45
  · exact Or.inr (Or.inr (Or.inl ⟨d, r, by rw [hb]⟩))
  · have hread := d.read hr
    refine Or.inr (Or.inr (Or.inr ⟨d, b :: r, List.cons_ne_nil _ _, rfl, ?_⟩))
    rw [readItem_one hdig (by rw [hread.2, List.drop_left]; exact hb), hread.1, hread.2, List.drop_left]

theorem passes_iff_loose (h : SmallNumbers p) : Passes p ↔ LooseItem p := by
  constructor
  · intro hp
    obtain ⟨ids, htake⟩ := passes_iff.1 hp
    rcases piece_cases p with hi | ⟨d, rfl⟩ | ⟨d, t, rfl⟩ | ⟨d, r, hr, -, hi⟩
    · rw [hi] at htake
      cases htake
    · exact Or.inl ⟨d, rfl⟩
    · rw [take_span h] at htake
      split_ifs at htake with hbad
      obtain ⟨hz, hlt⟩ := not_or.1 hbad
      have hle := strtoul_le t
      have hdrop := List.drop_eq_nil_iff.1 (Prod.mk.inj (Sum.inr.inj htake)).2
      refine Or.inr ⟨d, t, rfl, ⟨fun ht => hz (ht ▸ rfl), by omega⟩, not_le.1 hlt⟩
    · rw [hi] at htake
      exact absurd (Prod.mk.inj (Sum.inr.inj htake)).2 hr
  · rintro (⟨d, rfl⟩ | ⟨d, t, rfl, ht, hlt⟩)
    · exact passes_iff.2 ⟨[narrow d.val], by rw [readItem_decimal]; rfl⟩
    · have hpos := List.length_pos_of_ne_nil ht.1
      have hbad : ¬ ((strtoul t).2 = 0 ∨ written t ≤ d.val) := by
        rw [ht.2]
        omega
      exact passes_iff.2 ⟨_, by rw [take_span h, if_neg hbad, ht.2, List.drop_length]⟩

theorem refused_iff (h : SmallNumbers p) : (readItem p).take = .inl .refused ↔ RefusedItem p := by
  constructor
  · intro htake
    rcases piece_cases p with hi | ⟨d, rfl⟩ | ⟨d, t, rfl⟩ | ⟨d, r, hr, -, hi⟩
    · rw [hi] at htake
      cases htake
    · rw [readItem_decimal] at htake
      cases htake
    · rw [take_span h] at htake
      split_ifs at htake with hbad
      exact ⟨d, t, rfl, hbad⟩
    · rw [hi] at htake
      cases htake
  · rintro ⟨d, t, rfl, hbad⟩
    rw [take_span h, if_pos hbad]

theorem take_ne_overflow (h : SmallNumbers p) : (readItem p).take ≠ .inl .overflow := by
  intro htake
  rcases piece_cases p with hi | ⟨d, rfl⟩ | ⟨d, t, rfl⟩ | ⟨d, r, hr, -, hi⟩
  · rw [hi] at htake
    cases htake
  · rw [readItem_decimal] at htake
    cases htake
  · rw [take_span h] at htake
    split_ifs at htake
    cases htake
  · rw [hi] at htake
    cases htake

/-! ## Lists -/

theorem readPieces_ne_overflow (h : ∀ p ∈ ps, SmallNumbers p) : (readPieces ps).2 ≠ .overflow := by
  induction ps using pieces_induction with
  | nil => exact nofun
  | stop p ps e htake =>
    rw [readPieces_inl htake]
    rintro rfl
    exact take_ne_overflow (h p List.mem_cons_self) htake
  | last p ps ids r htake hr =>
    rw [readPieces_last htake hr]
    exact nofun
  | pass p ps ids htake hps ih =>
    rw [readPieces_pass htake hps]
    exact shift_ne_overflow.2 (ih fun q hq => h q (List.mem_cons_of_mem p hq))

theorem ListItem.comma (it : ListItem) : 44 ∉ it.text := by
  cases it with
  | one n => exact n.not_mem rfl
  | span m n le =>
    simp only [text, List.mem_append, List.mem_cons, not_or]
    exact ⟨m.not_mem rfl, by decide, n.not_mem rfl⟩

theorem Derives.pieces {items : List ListItem} (h : Derives items t) :
    t.splitOn 44 = items.map ListItem.text := by
  rw [h.2]
  refine List.splitOn_intercalate 44 (fun l hl => ?_) (by simpa using h.1)
  obtain ⟨it, -, rfl⟩ := List.mem_map.1 hl
  exact it.comma

theorem infix_intercalate (h : p ∈ ps) : p <:+: [44].intercalate ps := by
  induction ps with
  | nil => cases h
  | cons q ps ih =>
    rw [intercalate_cons]
    rcases List.mem_cons.1 h with rfl | h
    · exact (List.prefix_append ..).isInfix
    · refine (ih h).trans (List.IsSuffix.isInfix ?_)
      rw [tailOf, if_neg (List.ne_nil_of_mem h)]
      exact (List.suffix_cons 44 _).trans (List.suffix_append ..)

theorem infix_of_mem_splitOn (h : p ∈ t.splitOn 44) : p <:+: t := by
  have hp := infix_intercalate h
  rwa [List.intercalate_splitOn] at hp

/-- The items of the grammar: the range does not have equal ends. -/
def ListItem.Strict : ListItem → Prop
  | .one _ => True
  | .span m n _ => m.val < n.val

theorem ListItem.passes_iff {it : ListItem} (h : SmallNumbers it.text) : Passes it.text ↔ it.Strict := by
  cases it with
  | one n => exact iff_of_true (Dudlc.passes_iff.2 ⟨_, by rw [text, readItem_decimal]; rfl⟩) trivial
  | span m n le =>
    rw [text] at h ⊢
    have hne : (strtoul n.digits).2 ≠ 0 := by
      rw [n.isNumber.2]
      exact (List.length_pos_of_ne_nil n.ne).ne'
    rw [Dudlc.passes_iff, take_span h, written_decimal, Strict]
    by_cases hle : n.val ≤ m.val
    · rw [if_pos (Or.inr hle)]
      simp [not_lt.2 hle]
    · rw [if_neg (by simp [hne, hle]), n.isNumber.2, List.drop_length]
      simp [not_le.1 hle]

theorem ListItem.refused {it : ListItem} (h : SmallNumbers it.text) (hit : ¬ it.Strict) :
    (readItem it.text).take = .inl .refused := by
  cases it with
  | one n => exact absurd trivial hit
  | span m n le =>
    rw [text] at h ⊢
    rw [take_span h, written_decimal, if_pos (Or.inr (not_lt.1 hit))]

theorem ListItem.pieceIds {it : ListItem} (h : SmallNumbers it.text) (hit : it.Strict) :
    pieceIds it.text = it.ids := by
  cases it with
  | one n =>
    have hn := h.narrow.1
    rw [text, written_decimal] at hn
    have htake : (readItem n.digits).take = .inr ([narrow n.val], []) := by
      rw [readItem_decimal]
      rfl
    rw [text, pieceIds_inr htake, hn]
    rfl
  | span m n le =>
    rw [text] at h ⊢
    have hne : (strtoul n.digits).2 ≠ 0 := by
      rw [n.isNumber.2]
      exact (List.length_pos_of_ne_nil n.ne).ne'
    have htake := take_span h
    rw [written_decimal, if_neg (by simp [hne, not_le.2 hit])] at htake
    exact pieceIds_inr htake

theorem pieceIds_ne_nil (h : Passes p) : pieceIds p ≠ [] := by
  obtain ⟨ids, htake⟩ := passes_iff.1 h
  rw [pieceIds_inr htake]
  cases hi : readItem p with
  | none => rw [hi] at htake; cases htake
  | cut => rw [hi] at htake; cases htake
  | one z r =>
    rw [hi] at htake
    cases htake
    exact List.cons_ne_nil _ _
  | span lo hi' r =>
    rw [hi] at htake
    simp only [Item.take] at htake
    split_ifs at htake with h1 h2
    obtain ⟨rfl, -⟩ := Prod.mk.inj (Sum.inr.inj htake)
    have hlen := length_idRange (narrow lo) (narrow hi')
    exact List.ne_nil_of_length_pos (by omega)

section Text

variable {items : List ListItem} (hsmall : SmallNumbers t)

include hsmall

theorem small_pieces : ∀ p ∈ t.splitOn 44, SmallNumbers p := fun _ hp => hsmall.infix (infix_of_mem_splitOn hp)

theorem whole_iff_loose (hne : t ≠ []) : (readPieces (t.splitOn 44)).2 = .at t.length ↔ Loose t := by
  have hwhole := readPieces_whole (t.splitOn 44) (List.splitOn_ne_nil 44 t)
  rw [List.intercalate_splitOn] at hwhole
  rw [hwhole]
  have hpieces := small_pieces hsmall
  constructor
  · rintro ⟨qs, hqs, heq⟩
    have hmem : ∀ q ∈ qs, SmallNumbers q := fun q hq => hpieces q (by rcases heq with h | h <;> simp [h, hq])
    refine ⟨qs, ?_, fun q hq => (passes_iff_loose (hmem q hq)).1 (hqs q hq), heq⟩
    rintro rfl
    rcases heq with h | h
    · exact List.splitOn_ne_nil 44 t h
    · have : [44].intercalate (t.splitOn 44) = t := List.intercalate_splitOn 44
      rw [h] at this
      exact hne (by simpa using this.symm)
  · rintro ⟨qs, -, hqs, heq⟩
    exact ⟨qs, fun q hq => (passes_iff_loose (hpieces q (by rcases heq with h | h <;> simp [h, hq]))).2 (hqs q hq), heq⟩

theorem late_iff : Late t ↔ (readPieces (t.splitOn 44)).2 = .refused ∧ (readPieces (t.splitOn 44)).1.ids ≠ [] := by
  have hpieces := small_pieces hsmall
  rw [readPieces_refused, readPieces_ids]
  constructor
  · rintro ⟨q, qs, p, rest, heq, hqs, hp⟩
    have hpass : ∀ x ∈ q :: qs, Passes x := fun x hx =>
      (passes_iff_loose (hpieces x (by rw [heq]; exact List.mem_append_left _ hx))).2 (hqs x hx)
    refine ⟨⟨q :: qs, p, rest, heq, hpass, (refused_iff (hpieces p (by simp [heq]))).2 hp⟩, ?_⟩
    rw [heq, reached_pass hpass, List.cons_append, List.flatMap_cons]
    exact fun h => pieceIds_ne_nil (hpass q List.mem_cons_self) (List.append_eq_nil_iff.1 h).1
  · rintro ⟨⟨_ | ⟨q, qs⟩, p, rest, heq, hpass, hp⟩, hids⟩
    · have hstop : ¬ Passes p := by simp [passes_iff, hp]
      rw [heq, List.nil_append, reached, if_neg hstop, List.flatMap_cons, pieceIds_inl hp] at hids
      exact absurd rfl hids
    · exact ⟨q, qs, p, rest, heq, fun x hx => (passes_iff_loose
        (hpieces x (by rw [heq]; exact List.mem_append_left _ hx))).1 (hpass x hx),
        (refused_iff (hpieces p (by simp [heq]))).1 hp⟩

theorem derives_refused (h : Derives items t) :
    (readPieces (t.splitOn 44)).2 = .refused ↔ ∃ it ∈ items, ¬ it.Strict := by
  have hpieces := small_pieces hsmall
  rw [h.pieces] at hpieces ⊢
  rw [List.forall_mem_map] at hpieces
  rw [readPieces_refused]
  constructor
  · rintro ⟨qs, p, rest, heq, -, hp⟩
    obtain ⟨it, hit, rfl⟩ := List.mem_map.1 (heq ▸ List.mem_append_right _ List.mem_cons_self :
      p ∈ items.map ListItem.text)
    refine ⟨it, hit, fun hstrict => ?_⟩
    obtain ⟨ids, htake⟩ := passes_iff.1 ((ListItem.passes_iff (hpieces it hit)).2 hstrict)
    cases htake.symm.trans hp
  · intro hex
    classical
    have hfind : (items.find? fun it => decide (¬ it.Strict)).isSome := List.find?_isSome.2 (by simpa using hex)
    obtain ⟨it, hit⟩ := Option.isSome_iff_exists.1 hfind
    obtain ⟨hnot, pre, post, heq, hpre⟩ := List.find?_eq_some_iff_append.1 hit
    refine ⟨pre.map ListItem.text, it.text, post.map ListItem.text, by simp [heq], ?_, ?_⟩
    · rw [List.forall_mem_map]
      intro a ha
      exact (ListItem.passes_iff (hpieces a (by simp [heq, ha]))).2 (by simpa using hpre a ha)
    · exact ListItem.refused (hpieces it (by simp [heq])) (by simpa using hnot)

theorem derives_ids (h : Derives items t) (hstrict : ∀ it ∈ items, it.Strict) :
    (readPieces (t.splitOn 44)).1.ids = items.flatMap ListItem.ids := by
  have hpieces := small_pieces hsmall
  rw [h.pieces] at hpieces ⊢
  rw [List.forall_mem_map] at hpieces
  have hpass : ∀ q ∈ items.map ListItem.text, Passes q := by
    rw [List.forall_mem_map]
    exact fun it hit => (ListItem.passes_iff (hpieces it hit)).2 (hstrict it hit)
  have hreached := reached_pass hpass []
  rw [List.append_nil, reached, List.append_nil] at hreached
  rw [readPieces_ids, hreached, List.flatMap_map]
  exact List.flatMap_congr fun it hit => ListItem.pieceIds (hpieces it hit) (hstrict it hit)

theorem derives_loose (h : Derives items t) (hstrict : ∀ it ∈ items, it.Strict) : Loose t := by
  have hpieces := small_pieces hsmall
  rw [h.pieces, List.forall_mem_map] at hpieces
  refine ⟨items.map ListItem.text, by simpa using h.1, ?_, Or.inl h.pieces⟩
  rw [List.forall_mem_map]
  exact fun it hit => (passes_iff_loose (hpieces it hit)).1
    ((ListItem.passes_iff (hpieces it hit)).2 (hstrict it hit))

end Text

/-! ## Blanks, signs and the last comma -/

/-- No blank, no plus sign, and no comma at the end. -/
def Plain (t : List UInt8) : Prop := (∀ b ∈ t, isspace b = false ∧ b ≠ 43) ∧ t.getLast? ≠ some 44

theorem ListItem.plain (it : ListItem) : it.text ≠ [] ∧ ∀ b ∈ it.text, isspace b = false ∧ b ≠ 43 := by
  have hdec (d : Decimal) : ∀ b ∈ d.digits, isspace b = false ∧ b ≠ 43 := fun b hb =>
    ⟨isspace_of_isdigit (d.isdigit b hb), fun h => d.not_mem (c := 43) rfl (h ▸ hb)⟩
  cases it with
  | one n => exact ⟨n.ne, hdec n⟩
  | span m n le =>
    refine ⟨by simp [text], fun b hb => ?_⟩
    rw [text, List.mem_append, List.mem_cons] at hb
    rcases hb with hb | rfl | hb
    · exact hdec m b hb
    · exact ⟨rfl, by decide⟩
    · exact hdec n b hb

theorem mem_intercalate {b : UInt8} (h : b ∈ [44].intercalate ps) : b = 44 ∨ ∃ p ∈ ps, b ∈ p := by
  induction ps with
  | nil => cases h
  | cons p ps ih =>
    rw [intercalate_cons, List.mem_append] at h
    rcases h with h | h
    · exact Or.inr ⟨p, List.mem_cons_self, h⟩
    · unfold tailOf at h
      split_ifs at h with hps
      · cases h
      · rcases List.mem_cons.1 h with h | h
        · exact Or.inl h
        · rcases ih h with h | ⟨q, hq, hb⟩
          · exact Or.inl h
          · exact Or.inr ⟨q, List.mem_cons_of_mem _ hq, hb⟩

theorem Derives.plain {items : List ListItem} (h : Derives items t) : Plain t := by
  refine ⟨fun b hb => ?_, fun hlast => ?_⟩
  · rw [h.2] at hb
    rcases mem_intercalate hb with rfl | ⟨p, hp, hb⟩
    · exact ⟨rfl, by decide⟩
    · obtain ⟨it, -, rfl⟩ := List.mem_map.1 hp
      exact it.plain.2 b hb
  · obtain ⟨u, rfl⟩ := List.getLast?_eq_some_iff.1 hlast
    have hmem : [] ∈ (u ++ [44]).splitOn 44 := by
      rw [List.splitOn_append_cons_self]
      simp [List.splitOn_nil]
    rw [h.pieces] at hmem
    obtain ⟨it, -, hit⟩ := List.mem_map.1 hmem
    exact it.plain.1 hit

theorem LooseItem.exists_item (h : LooseItem p) (hp : ∀ b ∈ p, isspace b = false ∧ b ≠ 43) :
    ∃ it : ListItem, it.text = p := by
  rcases h with ⟨d, rfl⟩ | ⟨d, t, rfl, ht, hlt⟩
  · exact ⟨.one d, rfl⟩
  have hfree : ∀ b ∈ t, isspace b = false ∧ b ≠ 43 := fun b hb => hp b (by simp [hb])
  have hsp : t.takeWhile isspace = [] := by
    obtain ⟨b, r, rfl⟩ := List.exists_cons_of_ne_nil ht.1
    exact List.takeWhile_cons_of_neg (by simp [hfree b])
  have hneg : numNeg t = false := by
    by_contra h
    rw [written, if_pos (by simpa using h)] at hlt
    have := d.val_nonneg
    omega
  have hskip : numSkip t = 0 := by
    obtain ⟨b, r, rfl⟩ := List.exists_cons_of_ne_nil ht.1
    rw [numNeg, hsp, List.length_nil, List.drop_zero, sign_cons] at hneg
    rw [numSkip, hsp, List.length_nil, List.drop_zero, sign_cons]
    split_ifs at hneg ⊢ with h1 h2
    · exact absurd h2 (hfree b List.mem_cons_self).2
    · rfl
  have hdigits := ht.digits.1
  rw [hskip, List.drop_zero] at hdigits
  let n : Decimal := ⟨t, ht.1, fun b hb => List.mem_takeWhile_imp (hdigits ▸ hb)⟩
  exact ⟨.span d n ((written_decimal n) ▸ hlt.le), rfl⟩

theorem getLast?_intercalate (h : ps ≠ []) : ([44].intercalate (ps ++ [[]])).getLast? = some (44 : UInt8) := by
  induction ps with
  | nil => exact absurd rfl h
  | cons p ps ih =>
    rw [List.cons_append, intercalate_cons, tailOf, if_neg (by simp)]
    cases ps with
    | nil => simp
    | cons q ps =>
      have hlast := ih (List.cons_ne_nil q ps)
      rw [List.getLast?_append, List.getLast?_cons, hlast]
      rfl

theorem Loose.plain_iff (h : Loose t) : Plain t ↔ ∃ items, Derives items t := by
  refine ⟨fun hplain => ?_, fun ⟨items, hitems⟩ => hitems.plain⟩
  obtain ⟨qs, hqs, hall, heq⟩ := h
  have hsplit : t.splitOn 44 = qs := by
    refine heq.resolve_right fun heq => hplain.2 ?_
    have ht : t = [44].intercalate (qs ++ [[]]) := by rw [← heq, List.intercalate_splitOn]
    rw [ht]
    exact getLast?_intercalate hqs
  have hitems : ∀ q ∈ qs, q ∈ Set.range ListItem.text := by
    refine fun q hq => (hall q hq).exists_item fun b hb => hplain.1 b ?_
    exact (infix_of_mem_splitOn (hsplit ▸ hq)).mem hb
  have hrange : qs ∈ Set.range (List.map ListItem.text) := by
    rw [Set.range_list_map]
    exact hitems
  obtain ⟨items, rfl⟩ := hrange
  refine ⟨items, by simpa using hqs, ?_⟩
  rw [← hsplit, List.intercalate_splitOn]

theorem readPieces_start (ps : List (List UInt8)) (h : (readPieces ps).2 = .at 0) : (readPieces ps).1.ids = [] := by
  cases ps using pieces_induction with
  | nil => rfl
  | stop p ps e htake =>
    rw [readPieces_inl htake]
    rfl
  | last p ps ids r htake hr =>
    rw [readPieces_last htake hr] at h
    have hlt := take_lt htake
    simp only [ListEnd.at.injEq] at h
    omega
  | pass p ps ids htake hps =>
    rw [readPieces_pass htake hps] at h
    revert h
    rcases (readPieces ps).2 with k | _ | _ <;> simp [ListEnd.shift]

/-- **When the grammar is accepted.** For a text that is not empty and whose numbers are in range: no
range of a text of the grammar has equal ends; a text of the looser kind has no blank, no plus sign and
no comma at the end; and no item is refused behind others that are not. -/
theorem acceptsGrammar_iff (idl : List ℤ) (s : Cstr) (hne : s.bytes ≠ []) (hsmall : SmallNumbers s.bytes) :
    AcceptsGrammar idl s ↔ (∀ items, Derives items s.bytes → ∀ it ∈ items, it.Strict) ∧
      (Loose s.bytes → Plain s.bytes) ∧ ¬ Late s.bytes := by
  have hpos := List.length_pos_of_ne_nil hne
  have hwhole := whole_iff_loose hsmall hne
  have hlate := late_iff hsmall
  have hover := readPieces_ne_overflow (small_pieces hsmall)
  have hrefused {items : List ListItem} (h : Derives items s.bytes) := derives_refused hsmall h
  have hids {items : List ListItem} (h : Derives items s.bytes) := derives_ids hsmall h
  have hloose {items : List ListItem} (h : Derives items s.bytes) := derives_loose hsmall h
  have hstart := readPieces_start (s.bytes.splitOn 44)
  rw [AcceptsGrammar, idlAddlist_pieces]
  generalize readPieces (s.bytes.splitOn 44) = q at *
  obtain ⟨log, e⟩ := q
  dsimp only at *
  cases e with
  | overflow => exact absurd rfl hover
  | refused =>
    -- the end is at the start: nothing may be derivable, and nothing appended
    constructor
    · rintro ⟨ret, idl', n, heq, hend, -, hleft⟩
      obtain ⟨rfl, rfl, rfl⟩ : 0 = ret ∧ idl ++ log.ids = idl' ∧ 0 = n := by
        simpa [ListEnd.result] using heq
      have hno : ¬ ∃ items, Derives items s.bytes := fun h => by
        have := hend.2 h
        omega
      refine ⟨fun items h => absurd ⟨items, h⟩ hno, fun hl => ?_, fun hl => ?_⟩
      · cases hwhole.2 hl
      · exact (hlate.1 hl).2 (by simpa using (hleft rfl).2)
    · rintro ⟨hstrict, -, hnotlate⟩
      have hno : ¬ ∃ items, Derives items s.bytes := by
        rintro ⟨items, h⟩
        obtain ⟨it, hit, hnot⟩ := (hrefused h).1 rfl
        exact hnot (hstrict items h it hit)
      have hnil : log.ids = [] := by_contra fun h => hnotlate (hlate.2 ⟨rfl, h⟩)
      exact ⟨0, _, 0, rfl, ⟨fun h => by omega, fun h => absurd h hno⟩,
        fun items h => absurd ⟨items, h⟩ hno, fun _ => ⟨rfl, by rw [hnil, List.append_nil]⟩⟩
  | «at» n =>
    have hstrict : ∀ items, Derives items s.bytes → ∀ it ∈ items, it.Strict := by
      intro items h it hit
      by_contra hnot
      cases (hrefused h).2 ⟨it, hit, hnot⟩
    have hnotlate : ¬ Late s.bytes := fun hl => by cases (hlate.1 hl).1
    have hend : n = s.bytes.length ↔ Loose s.bytes := by
      rw [← hwhole, ListEnd.at.injEq]
    have hresult : ListEnd.result idl 0 log (.at n) = some (log.ids.length, idl ++ log.ids, n) := by
      simp [ListEnd.result]
    simp only [hresult, hnotlate, not_false_eq_true, and_true]
    constructor
    · rintro ⟨ret, idl', n', heq, hacc, -, -⟩
      obtain ⟨-, -, rfl⟩ : log.ids.length = ret ∧ idl ++ log.ids = idl' ∧ n = n' := by simpa using heq
      exact ⟨hstrict, fun hl => hl.plain_iff.2 (hacc.1 (hend.2 hl))⟩
    · rintro ⟨-, hplain⟩
      refine ⟨_, _, _, rfl, ?_, fun items h => ?_, ?_⟩
      · rw [hend]
        constructor
        · exact fun hl => hl.plain_iff.1 (hplain hl)
        · rintro ⟨items, h⟩
          exact hloose h (hstrict items h)
      · rw [hids h (hstrict items h)]
        exact ⟨rfl, rfl⟩
      · rintro rfl
        rw [hstart rfl, List.append_nil]
        exact ⟨rfl, rfl⟩

/-- The theorem at `1-3,5`. -/
theorem acceptsGrammar_iff_ranges : AcceptsGrammar [] (.lit "1-3,5") := by
  have hsmall : SmallNumbers (Cstr.lit "1-3,5").bytes := smallNumbers_short (by decide)
  refine (acceptsGrammar_iff [] (.lit "1-3,5") (by decide) hsmall).2 ⟨fun items h it hit => ?_, fun _ => ?_, ?_⟩
  · by_contra hnot
    exact absurd ((derives_refused hsmall h).2 ⟨it, hit, hnot⟩) (by decide +kernel)
  · exact ⟨by decide +kernel, by decide⟩
  · rw [late_iff hsmall]
    exact fun h => absurd h.1 (by decide +kernel)

/-- **Four texts**: `3-3` is one of the grammar and refused; `1,` and `1- 2` are none and accepted; `1,5-2` is
refused, and leaves the 1 in the list. -/
theorem not_acceptsGrammar :
    (∀ t ∈ ["3-3", "1,", "1- 2", "1,5-2"], (Cstr.lit t).bytes ≠ [] ∧ SmallNumbers (Cstr.lit t).bytes ∧
      ¬ AcceptsGrammar [] (.lit t)) ∧
    idlAddlist [] (.lit "3-3") = some (0, [], 0) ∧ idlAddlist [] (.lit "1,") = some (1, [1], 2) ∧
    idlAddlist [] (.lit "1- 2") = some (2, [1, 2], 4) ∧ idlAddlist [] (.lit "1,5-2") = some (0, [1], 0) := by
  have h33 : idlAddlist [] (.lit "3-3") = some (0, [], 0) := by decide +kernel
  have hcomma : idlAddlist [] (.lit "1,") = some (1, [1], 2) := by decide +kernel
  have hblank : idlAddlist [] (.lit "1- 2") = some (2, [1, 2], 4) := by decide +kernel
  have hlate : idlAddlist [] (.lit "1,5-2") = some (0, [1], 0) := by decide +kernel
  refine ⟨?_, h33, hcomma, hblank, hlate⟩
  simp only [List.forall_mem_cons]
  refine ⟨⟨by decide, smallNumbers_short (by decide), ?_⟩, ⟨by decide, smallNumbers_short (by decide), ?_⟩,
    ⟨by decide, smallNumbers_short (by decide), ?_⟩, ⟨by decide, smallNumbers_short (by decide), ?_⟩, by simp⟩
  · rintro ⟨ret, idl', n, heq, hacc, -⟩
    obtain ⟨rfl, rfl, rfl⟩ : 0 = ret ∧ [] = idl' ∧ 0 = n := by simpa [h33] using heq
    let three : Decimal := ⟨[51], by decide, List.forall_mem_singleton.2 rfl⟩
    exact absurd (hacc.2 ⟨[.span three three le_rfl], by simp, by decide⟩) (by decide)
  · rintro ⟨ret, idl', n, heq, hacc, -⟩
    obtain ⟨rfl, rfl, rfl⟩ : 1 = ret ∧ [1] = idl' ∧ 2 = n := by simpa [hcomma] using heq
    obtain ⟨items, h⟩ := hacc.1 (by decide)
    exact absurd h.plain.2 (by decide)
  · rintro ⟨ret, idl', n, heq, hacc, -⟩
    obtain ⟨rfl, rfl, rfl⟩ : 2 = ret ∧ [1, 2] = idl' ∧ 4 = n := by simpa [hblank] using heq
    obtain ⟨items, h⟩ := hacc.1 (by decide)
    exact absurd h.plain.1 (by decide)
  · rintro ⟨ret, idl', n, heq, -, -, hleft⟩
    obtain ⟨rfl, rfl, rfl⟩ : 0 = ret ∧ [1] = idl' ∧ 0 = n := by simpa [hlate] using heq
    exact absurd (hleft rfl).2 (by decide)

end Dudlc
