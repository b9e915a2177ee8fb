import Dudlc.Catalogue
import Dudlc.Items

/-!
# Lists of tracks

`val_tracklist` should take a text of the grammar of lists of tracks for the tracks that it means.

* `TrackItem`: the items of the grammar, with their texts and what they mean.
* `TrackItem.added`: what is added for them: nothing for a position on the album of the current track.
* `tracklistItem_run`, `valTracklist_run`: one item, and the list.
* **`tracklist_iff`**: when the text is taken for what it means.
-/

namespace Dudlc

open Lib

/-! ## The grammar -/

/-- A number within 0..INT_MAX. -/
structure SmallNum extends Decimal where
  small : digitsVal digits ≤ INT_MAX

/-- What is in front of a `/`: `c` or an album. -/
inductive AlbumRef
  | current
  | id (a : SmallNum)

/-- What is behind a `/`: `*`, `<n>`, `<n>-<m>` or `<n>-*`. -/
inductive Pos
  | all
  | one (n : SmallNum)
  | span (n m : SmallNum)
  | onward (n : SmallNum)

/-- An item: `<id>` or `c`, or positions on an album. -/
inductive TrackItem
  | track (a : AlbumRef)
  | album (a : AlbumRef) (p : Pos)

def AlbumRef.text : AlbumRef → List UInt8
  | current => [99]
  | id a => a.digits

def Pos.text : Pos → List UInt8
  | all => [42]
  | one n => n.digits
  | span n m => n.digits ++ 45 :: m.digits
  | onward n => n.digits ++ [45, 42]

def TrackItem.text : TrackItem → List UInt8
  | track a => a.text
  | album a p => a.text ++ 47 :: p.text

/-- The text of a list. -/
def listText (items : List TrackItem) : List UInt8 := [44].intercalate (items.map TrackItem.text)

/-! ## What it means -/

/-- The tracks at positions on an album. -/
def Pos.ids (cat : Catalogue) (a : ℤ) : Pos → List ℤ
  | all => (cat.albums a).map DucTrack.id
  | one n => (cat.track a n.val).toList.map DucTrack.id
  | span n m => ((cat.albums a).filter fun t => n.val ≤ t.albumnr ∧ t.albumnr ≤ m.val).map DucTrack.id
  | onward n => ((cat.albums a).filter fun t => n.val ≤ t.albumnr).map DucTrack.id

/-- The tracks of an item: the current track's album is the one in front of `/` for `c`. -/
def TrackItem.ids (cat : Catalogue) : TrackItem → List ℤ
  | track .current => [cat.current.id]
  | track (.id n) => [n.val]
  | album .current p => p.ids cat cat.current.album.id
  | album (.id a) p => p.ids cat a.val

/-- What is added to the list for an item. -/
def TrackItem.added (cat : Catalogue) : TrackItem → List ℤ
  | album .current (.one _) => []
  | item => item.ids cat

/-- The number in which `val_tracklist` keeps an id or `c`. -/
def AlbumRef.arg : AlbumRef → ℤ
  | current => -1
  | id a => a.val

variable {s : Cstr} {tok : ℕ} {t r : List UInt8} {a : AlbumRef} {n m : SmallNum} {idl : List ℤ} {sv : Server}
  {cat : Catalogue}

/-! ## Reading -/

theorem drop_advance (h : (s.drop tok).bytes = t ++ r) : (s.drop (tok + t.length)).bytes = r := by
  have hdrop : (s.drop (tok + t.length)).bytes = (s.drop tok).bytes.drop t.length := by
    rw [Cstr.drop, Cstr.drop, List.drop_drop]
  rw [hdrop, h, List.drop_left]

theorem byte_of_drop {c : UInt8} (h : (s.drop tok).bytes = c :: r) : s.byte tok = c := by
  rw [byte_eq, h]
  rfl

theorem SmallNum.uintAt (n : SmallNum) (h : (s.drop tok).bytes = n.digits ++ r) (hr : ∀ b ∈ r.head?, isdigit b = false) :
    uintAt s tok = (n.val, n.digits.length) := by
  obtain ⟨hval, hlen⟩ := n.toDecimal.read hr
  have hlo := n.val_nonneg
  rw [uintAt_eq, h, hval, hlen]
  exact congrArg (·, n.digits.length) (narrow_eq (by omega) n.small)

theorem SmallNum.length_ne (n : SmallNum) : n.digits.length ≠ 0 := fun h => n.ne (List.length_eq_zero_iff.1 h)

theorem uintAt_symbol {c : UInt8} (hc : c = 99 ∨ c = 42) (h : (s.drop tok).bytes = c :: r) :
    ∃ z, uintAt s tok = (z, 0) := by
  have hzero : (strtoul (c :: r)).2 = 0 := by
    refine strtoul_eq_zero.2 ?_
    rcases hc with rfl | rfl
    · rfl
    · rfl
  rw [uintAt_eq, h, hzero]
  exact ⟨_, rfl⟩

/-- What is behind an item: a comma, or the end. -/
def ItemEnd (r : List UInt8) : Prop := r = [] ∨ ∃ r', r = 44 :: r'

theorem ItemEnd.no_digit (h : ItemEnd r) : ∀ b ∈ r.head?, isdigit b = false := by
  rcases h with rfl | ⟨r', rfl⟩
  · simp
  · simp only [List.head?_cons, Option.mem_some_iff]
    rintro b rfl
    rfl

theorem ItemEnd.byte (h : ItemEnd r) (hdrop : (s.drop tok).bytes = r) : s.byte tok ≠ 47 ∧ s.byte tok ≠ 45 := by
  rw [byte_eq, hdrop]
  rcases h with rfl | ⟨r', rfl⟩
  · decide
  · exact ⟨(by decide : (44 : UInt8) ≠ 47), (by decide : (44 : UInt8) ≠ 45)⟩

/-! ## Items -/

/-- What `val_tracklist` does behind the id or the `c` of an item. -/
def trackRest (s : Cstr) (id1 : ℤ) (tok : ℕ) (idl : List ℤ) : Client (Option (List ℤ × ℕ)) := do
  if s.byte tok = 47 then
    let tok := tok + 1
    let (pos1, n) := uintAt s tok
    if n = 0 then
      if s.byte tok ≠ 42 then return none
      return some (← idlAddalbum idl id1 (-1) (-1), tok + 1)
    let tok := tok + n
    if s.byte tok = 45 then
      let tok := tok + 1
      let (pos, n) := uintAt s tok
      if n = 0 ∧ s.byte tok ≠ 42 then return none
      let (pos2, tok) := if n = 0 then (-1, tok + 1) else (pos, tok + n)
      return some (← idlAddalbum idl id1 pos1 pos2, tok)
    let tid ← ducCmdTrack2id id1 pos1
    return some (if 0 ≤ tid then idl ++ [tid] else idl, tok)
  if id1 < 0 then
    match ← ducCmdCurtrack with
    | none => return none
    | some t => return some (idl ++ [t.id], tok)
  return some (idl ++ [id1], tok)

theorem tracklistItem_rest {id : ℤ} {n : ℕ} (hread : uintAt s tok = (id, n)) (hc : ¬ (n = 0 ∧ s.byte tok ≠ 99)) :
    tracklistItem s tok idl =
      trackRest s (if n = 0 then (-1, tok + 1) else (id, tok + n)).1
        (if n = 0 then (-1, tok + 1) else (id, tok + n)).2 idl := by
  unfold tracklistItem trackRest
  rw [hread]
  exact if_neg hc

theorem tracklistItem_front (h : (s.drop tok).bytes = a.text ++ r) (hr : ∀ b ∈ r.head?, isdigit b = false) :
    tracklistItem s tok idl = trackRest s a.arg (tok + a.text.length) idl := by
  cases a with
  | current =>
    obtain ⟨z, hread⟩ := uintAt_symbol (Or.inl rfl) h
    rw [tracklistItem_rest hread fun hno => hno.2 (byte_of_drop h), if_pos rfl]
    rfl
  | id a =>
    rw [tracklistItem_rest (a.uintAt h hr) fun hno => a.length_ne hno.1, if_neg a.length_ne]
    rfl

theorem trackRest_track (h : Serves sv cat) (sent : List Request) (hdrop : (s.drop tok).bytes = r)
    (hend : ItemEnd r) (a : AlbumRef) (idl : List ℤ) : ∃ sent',
    (trackRest s a.arg tok idl).run sv.op sent = some (some (idl ++ (TrackItem.track a).added cat, tok), sent') := by
  rw [trackRest, if_neg (hend.byte hdrop).1]
  cases a with
  | current =>
    obtain ⟨sent', hrun⟩ := h.curtrack_run sent
    refine ⟨sent', ?_⟩
    rw [if_pos (by decide), Prog.run_bind, hrun]
    rfl
  | id n =>
    refine ⟨sent, ?_⟩
    rw [AlbumRef.arg, if_neg (not_lt.2 n.val_nonneg)]
    rfl

theorem between_all (a : ℤ) : cat.between a (-1) (-1) = Pos.all.ids cat a := by
  simp [Catalogue.between, Pos.ids]

theorem between_onward (a : ℤ) (n : SmallNum) : cat.between a n.val (-1) = (Pos.onward n).ids cat a := by
  have hn := n.val_nonneg
  simp [Catalogue.between, Pos.ids, not_lt.2 hn]

theorem between_span (a : ℤ) (n m : SmallNum) : cat.between a n.val m.val = (Pos.span n m).ids cat a := by
  have hn := n.val_nonneg
  have hm := m.val_nonneg
  simp [Catalogue.between, Pos.ids, not_lt.2 hn, not_lt.2 hm]

/-- The album that is meant. -/
def AlbumRef.album (cat : Catalogue) : AlbumRef → ℤ
  | current => cat.current.album.id
  | id a => a.val

theorem AlbumRef.album_eq (cat : Catalogue) (a : AlbumRef) :
    (if a.arg < 0 then cat.current.album.id else a.arg) = a.album cat := by
  cases a with
  | current => rfl
  | id a => exact if_neg (not_lt.2 a.val_nonneg)

theorem one_added (cat : Catalogue) (a : AlbumRef) (n : SmallNum) (idl : List ℤ) :
    (if 0 ≤ (cat.track a.arg n.val).elim (-1) DucTrack.id then
      idl ++ [(cat.track a.arg n.val).elim (-1) DucTrack.id] else idl) =
      idl ++ (TrackItem.album a (.one n)).added cat := by
  cases a with
  | current =>
    have hnone : cat.track AlbumRef.current.arg n.val = none := by
      rw [Catalogue.track, AlbumRef.arg, cat.no_album (-1) (by decide)]
      rfl
    rw [hnone, TrackItem.added, List.append_nil]
    rfl
  | id a =>
    change _ = idl ++ (cat.track a.val n.val).toList.map DucTrack.id
    rw [AlbumRef.arg]
    cases ht : cat.track a.val n.val with
    | none =>
      rw [Option.toList_none, List.map_nil, List.append_nil]
      rfl
    | some t => exact if_pos (cat.nonneg a.val t (List.mem_of_find?_eq_some ht))

theorem trackRest_album (h : Serves sv cat) (sent : List Request) {p : Pos}
    (hdrop : (s.drop tok).bytes = 47 :: p.text ++ r) (hend : ItemEnd r) (a : AlbumRef) (idl : List ℤ) : ∃ sent',
    (trackRest s a.arg tok idl).run sv.op sent =
      some (some (idl ++ (TrackItem.album a p).added cat, tok + 1 + p.text.length), sent') := by
  have hslash : s.byte tok = 47 := byte_of_drop hdrop
  have hpos : (s.drop (tok + 1)).bytes = p.text ++ r := drop_advance (t := [47]) hdrop
  rw [trackRest, if_pos hslash]
  cases p with
  | all =>
    obtain ⟨z, hread⟩ := uintAt_symbol (Or.inr rfl) hpos
    obtain ⟨sent', hrun⟩ := h.idlAddalbum_run sent idl a.arg (-1) (-1)
    rw [a.album_eq cat, between_all] at hrun
    refine ⟨sent', ?_⟩
    dsimp only
    rw [hread]
    dsimp only
    rw [if_pos rfl, if_neg (not_not.2 (byte_of_drop hpos)), Prog.run_bind, hrun]
    cases a <;> rfl
  | one n =>
    have hlast : (s.drop (tok + 1 + n.digits.length)).bytes = r := drop_advance hpos
    obtain ⟨sent', hrun⟩ := h.track2id_run sent a.arg n.val
    refine ⟨sent', ?_⟩
    dsimp only
    rw [n.uintAt hpos hend.no_digit]
    dsimp only
    rw [if_neg n.length_ne, if_neg (hend.byte hlast).2, Prog.run_bind, hrun]
    change some (some (if 0 ≤ (cat.track a.arg n.val).elim (-1) DucTrack.id then _ else _, _), _) = _
    rw [one_added cat a n idl]
    rfl
  | span n m =>
    have hpos : (s.drop (tok + 1)).bytes = n.digits ++ 45 :: (m.digits ++ r) := by simpa [Pos.text] using hpos
    have hdash : (s.drop (tok + 1 + n.digits.length)).bytes = 45 :: (m.digits ++ r) := drop_advance hpos
    have hlast : (s.drop (tok + 1 + n.digits.length + 1)).bytes = m.digits ++ r := drop_advance (t := [45]) hdash
    have hlen : tok + 1 + n.digits.length + 1 + m.digits.length = tok + 1 + (Pos.span n m).text.length := by
      rw [Pos.text, List.length_append, List.length_cons]
      omega
    obtain ⟨sent', hrun⟩ := h.idlAddalbum_run sent idl a.arg n.val m.val
    rw [a.album_eq cat, between_span] at hrun
    refine ⟨sent', ?_⟩
    dsimp only
    rw [n.uintAt hpos (by simp [isdigit])]
    dsimp only
    rw [if_neg n.length_ne, if_pos (byte_of_drop hdash), m.uintAt hlast hend.no_digit]
    dsimp only
    rw [if_neg (fun hno => m.length_ne hno.1), if_neg m.length_ne]
    dsimp only
    rw [Prog.run_bind, hrun, hlen]
    cases a <;> rfl
  | onward n =>
    have hpos : (s.drop (tok + 1)).bytes = n.digits ++ 45 :: 42 :: r := by simpa [Pos.text] using hpos
    have hdash : (s.drop (tok + 1 + n.digits.length)).bytes = 45 :: 42 :: r := drop_advance hpos
    have hstar : (s.drop (tok + 1 + n.digits.length + 1)).bytes = 42 :: r := drop_advance (t := [45]) hdash
    have hlen : tok + 1 + n.digits.length + 1 + 1 = tok + 1 + (Pos.onward n).text.length := by
      simp [Pos.text, Nat.add_assoc]
    obtain ⟨z, hread⟩ := uintAt_symbol (Or.inr rfl) hstar
    obtain ⟨sent', hrun⟩ := h.idlAddalbum_run sent idl a.arg n.val (-1)
    rw [a.album_eq cat, between_onward] at hrun
    refine ⟨sent', ?_⟩
    dsimp only
    rw [n.uintAt hpos (by simp [isdigit])]
    dsimp only
    rw [if_neg n.length_ne, if_pos (byte_of_drop hdash), hread]
    dsimp only
    rw [if_neg (fun hno => hno.2 (byte_of_drop hstar)), if_pos rfl]
    dsimp only
    rw [Prog.run_bind, hrun, hlen]
    cases a <;> rfl

/-! ## Lists -/

theorem listText_cons (item : TrackItem) (items : List TrackItem) :
    listText (item :: items) = item.text ++ tailOf (items.map TrackItem.text) := intercalate_cons ..

/-- **An item is read**, and what it adds is added. -/
theorem tracklistItem_run (h : Serves sv cat) (sent : List Request) {item : TrackItem}
    (hdrop : (s.drop tok).bytes = item.text ++ r) (hend : ItemEnd r) (idl : List ℤ) : ∃ sent',
    (tracklistItem s tok idl).run sv.op sent =
      some (some (idl ++ item.added cat, tok + item.text.length), sent') := by
  cases item with
  | track a =>
    rw [tracklistItem_front hdrop hend.no_digit]
    exact trackRest_track h sent (drop_advance hdrop) hend a idl
  | album a p =>
    have hfront : (s.drop tok).bytes = a.text ++ (47 :: p.text ++ r) := by simpa [TrackItem.text] using hdrop
    have hlen : tok + (TrackItem.album a p).text.length = tok + a.text.length + 1 + p.text.length := by
      simp [TrackItem.text, Nat.add_assoc, Nat.add_comm 1]
    rw [tracklistItem_front hfront (by simp [isdigit]), hlen]
    exact trackRest_album h sent (drop_advance hfront) hend a idl

theorem TrackItem.text_ne (item : TrackItem) : item.text.length ≠ 0 := by
  cases item with
  | track a =>
    cases a with
    | current => decide
    | id n => exact n.length_ne
  | album a p => simp [text]

/-- **A list is read** from an index on, to the end of the text. -/
theorem tracklist_loop (h : Serves sv cat) {items : List TrackItem} (hne : items ≠ [])
    (hdrop : (s.drop tok).bytes = listText items) {fuel : ℕ} (hfuel : s.left tok < fuel) (idl : List ℤ)
    (sent : List Request) : ∃ sent', (Prog.loop (tracklistBody s) fuel (tok, idl)).run sv.op sent =
      some ((some (idl ++ items.flatMap (TrackItem.added cat)), s.bytes.length), sent') := by
  induction items generalizing tok idl fuel sent with
  | nil => exact absurd rfl hne
  | cons item items ih =>
    obtain ⟨fuel, rfl⟩ : ∃ n, fuel = n + 1 := ⟨fuel - 1, by omega⟩
    rw [listText_cons] at hdrop
    have hbehind := drop_advance hdrop
    rw [tailOf] at hdrop hbehind
    cases items with
    | nil =>
      rw [List.map_nil, if_pos rfl] at hdrop hbehind
      have hend : ItemEnd [] := Or.inl rfl
      obtain ⟨sent', hrun⟩ := tracklistItem_run h sent hdrop hend idl
      have hbyte : s.byte (tok + item.text.length) ≠ 44 := by
        rw [byte_eq, hbehind]
        decide
      have hlen : tok + item.text.length = s.bytes.length := by
        have hlen := congrArg List.length hdrop
        rw [Cstr.drop, List.length_drop, List.append_nil] at hlen
        have := item.text_ne
        omega
      refine ⟨sent', ?_⟩
      rw [Prog.loop, tracklistBody, Prog.run_bind, Prog.run_bind, hrun, Option.bind_some]
      dsimp only
      rw [if_pos hbyte, hlen, List.flatMap_singleton]
      rfl
    | cons item' items =>
      rw [List.map_cons, if_neg (List.cons_ne_nil _ _)] at hdrop hbehind
      obtain ⟨sent₁, hrun⟩ := tracklistItem_run h sent hdrop (Or.inr ⟨_, rfl⟩) idl
      have hbyte : s.byte (tok + item.text.length) = 44 := byte_of_drop hbehind
      have hleft : s.left (tok + item.text.length + 1) < s.left tok :=
        Cstr.left_lt (by rw [hbyte]; decide) (Nat.le_add_right ..) (by omega)
      have hfuel' : s.left (tok + item.text.length + 1) < fuel := by omega
      obtain ⟨sent', hrest⟩ := ih (List.cons_ne_nil _ _) (drop_advance (t := [44]) hbehind) hfuel'
        (idl ++ item.added cat) sent₁
      refine ⟨sent', ?_⟩
      rw [Prog.loop, tracklistBody, Prog.run_bind, Prog.run_bind, hrun, Option.bind_some]
      dsimp only
      rw [if_neg (not_not.2 hbyte), List.flatMap_cons, ← List.append_assoc]
      exact hrest

/-- **`val_tracklist`** reads the whole text, and gives what is added for its items. -/
theorem valTracklist_run (h : Serves sv cat) {items : List TrackItem} (hne : items ≠ [])
    (hs : s.bytes = listText items) (sent : List Request) : ∃ sent',
    (valTracklist s).run sv.op sent =
      some ((some (items.flatMap (TrackItem.added cat)), s.bytes.length), sent') := by
  have hdrop : (s.drop 0).bytes = listText items := hs
  have hrun := tracklist_loop h hne hdrop (Nat.lt_succ_self _) [] sent
  rw [List.nil_append] at hrun
  exact hrun

theorem flatMap_eq_iff {α β : Type} {f g : α → List β} {l : List α} (h : ∀ x ∈ l, f x = g x ∨ f x = []) :
    l.flatMap f = l.flatMap g ↔ ∀ x ∈ l, f x = g x := by
  have hlen : ∀ l : List α, (∀ x ∈ l, f x = g x ∨ f x = []) → (l.flatMap f).length ≤ (l.flatMap g).length := by
    intro l hl
    induction l with
    | nil => exact le_rfl
    | cons x l ih =>
      obtain ⟨hx, hl⟩ := List.forall_mem_cons.1 hl
      rw [List.flatMap_cons, List.flatMap_cons, List.length_append, List.length_append]
      refine Nat.add_le_add ?_ (ih hl)
      rcases hx with hx | hx
      · rw [hx]
      · rw [hx]
        exact Nat.zero_le _
  induction l with
  | nil => simp
  | cons x l ih =>
    obtain ⟨hx, hl⟩ := List.forall_mem_cons.1 h
    rw [List.flatMap_cons, List.flatMap_cons, List.forall_mem_cons]
    refine Iff.trans ?_ (and_congr_right fun _ => ih hl)
    constructor
    · intro heq
      have hle := hlen l hl
      rcases hx with hx | hx
      · rw [hx] at heq
        exact ⟨hx, List.append_cancel_left heq⟩
      · have hnil : g x = [] := by
          have := congrArg List.length heq
          rw [List.length_append, List.length_append, hx, List.length_nil] at this
          exact List.length_eq_zero_iff.1 (by omega)
        rw [hx, hnil] at heq
        exact ⟨hx.trans hnil.symm, heq⟩
    · rintro ⟨hx, hrest⟩
      rw [hx, hrest]

theorem TrackItem.added_cases (cat : Catalogue) (item : TrackItem) :
    item.added cat = item.ids cat ∨ ∃ n, item = album .current (.one n) ∧ item.added cat = [] := by
  cases item with
  | track a => exact Or.inl rfl
  | album a p =>
    cases a with
    | id a => exact Or.inl rfl
    | current =>
      cases p with
      | one n => exact Or.inr ⟨n, rfl, rfl⟩
      | all => exact Or.inl rfl
      | span n m => exact Or.inl rfl
      | onward n => exact Or.inl rfl

/-- **When a list is taken for what it means**: the album of the current track has no track at a position
that is given behind `c/` alone. -/
theorem tracklist_iff (h : Serves sv cat) {items : List TrackItem} (hne : items ≠ [])
    (hs : s.bytes = listText items) (sent : List Request) :
    (∃ sent', (valTracklist s).run sv.op sent =
        some ((some (items.flatMap (TrackItem.ids cat)), s.bytes.length), sent')) ↔
      ∀ n, .album .current (.one n) ∈ items → cat.track cat.current.album.id n.val = none := by
  obtain ⟨sent', hrun⟩ := valTracklist_run h hne hs sent
  have heq : (∃ sent', (valTracklist s).run sv.op sent =
      some ((some (items.flatMap (TrackItem.ids cat)), s.bytes.length), sent')) ↔
      items.flatMap (TrackItem.added cat) = items.flatMap (TrackItem.ids cat) := by
    rw [hrun]
    constructor
    · rintro ⟨sent'', h⟩
      simpa using congrArg (Option.map Prod.fst) h
    · rintro h
      exact ⟨sent', by rw [h]⟩
  rw [heq, flatMap_eq_iff fun item _ => (item.added_cases cat).imp_right fun ⟨_, _, hnil⟩ => hnil]
  constructor
  · intro hall n hn
    have hnil : [] = (cat.track cat.current.album.id n.val).toList.map DucTrack.id := hall _ hn
    cases ht : cat.track cat.current.album.id n.val with
    | none => rfl
    | some t =>
      rw [ht] at hnil
      cases hnil
  · intro hall item hitem
    rcases item.added_cases cat with hids | ⟨n, rfl, hnil⟩
    · exact hids
    · rw [hnil, TrackItem.ids, Pos.ids, hall n hitem]
      rfl

/-- The catalogue of one album, whose number is 2, with one track, which is the current one. -/
def oneAlbum : Catalogue where
  albums a := if a = 2 then [⟨7, ⟨2, [], ⟨4, []⟩, 1999⟩, 1, [], ⟨4, []⟩, 60⟩] else []
  current := ⟨7, ⟨2, [], ⟨4, []⟩, 1999⟩, 1, [], ⟨4, []⟩, 60⟩
  fits a t ht := by
    split_ifs at ht
    · rw [List.mem_singleton.1 ht]
      decide
    · exact absurd ht List.not_mem_nil
  current_fits := by decide
  nonneg a t ht := by
    split_ifs at ht
    · rw [List.mem_singleton.1 ht]
      decide
    · exact absurd ht List.not_mem_nil
  no_album a ha := if_neg (by omega)

def SmallNum.one : SmallNum := ⟨⟨[49], by decide, List.forall_mem_singleton.2 rfl⟩, by decide⟩
def SmallNum.two : SmallNum := ⟨⟨[50], by decide, List.forall_mem_singleton.2 rfl⟩, by decide⟩

/-- The theorem at `2/1,c,c/*,c/2`: three times the track. -/
theorem tracklist_iff_single : ∃ sent',
    (valTracklist (.lit "2/1,c,c/*,c/2")).run oneAlbum.server.op [] = some ((some [7, 7, 7], 13), sent') := by
  have htext : (Cstr.lit "2/1,c,c/*,c/2").bytes = listText [.album (.id .two) (.one .one), .track .current,
    .album .current .all, .album .current (.one .two)] := by decide
  refine (tracklist_iff oneAlbum.serves (List.cons_ne_nil _ _) htext []).2 fun n hn => ?_
  obtain rfl : n = .two := by simpa using hn
  rfl

/-- **`c/1`** is taken for no track, and the current album has a track at the position 1. -/
theorem not_tracklist :
    (Cstr.lit "c/1").bytes = listText [.album .current (.one .one)] ∧
    (TrackItem.album .current (.one .one)).ids oneAlbum = [7] ∧
    ∃ sent', (valTracklist (.lit "c/1")).run oneAlbum.server.op [] = some ((some [], 3), sent') := by
  have htext : (Cstr.lit "c/1").bytes = listText [.album .current (.one .one)] := by decide
  exact ⟨htext, by decide, valTracklist_run oneAlbum.serves (List.cons_ne_nil _ _) htext []⟩

end Dudlc
