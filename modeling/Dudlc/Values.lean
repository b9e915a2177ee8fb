import Dudlc.Requests

/-!
# The values of arguments

`idlist.c` and `parseval.c`: the parsers of the text client's arguments. A parser gets the text from the
argument on and gives the value with the number of bytes before `*end`; names are looked up at the
server. An id list is the list of its numbers. Allocation succeeds.

* `idlAddlist`, `idlAddclist`, `idlAddalbum`: texts and albums added to an id list.
* `valUint`, `valDouble`, `valEnum`, `valString`, `valName`, `valTag`, `valSfilter`, `valTrack`: single
  values.
* `valIdlist`, `valUserlist`, `valTaglist`, `valTracklist`: id lists.
* `idlAddlist_fuel`, `idlAddclist_fuel`, `valTracklist_fuel`: the loops end.
* `valTracklist_some`, `valName_some`: they return NULL only with `*end` at the start.
-/

namespace Dudlc

open Lib

/-- The `int` in which a parser keeps the number that `strtoul` reads. -/
def uintAt (s : Cstr) (tok : ℕ) : ℤ × ℕ :=
  let v := strtoul (s.drop tok).bytes
  (toInt v.1, v.2)

/-! ## Id lists -/

/-- The numbers from `id1` to `id2`. -/
def idRange (id1 id2 : ℤ) : List ℤ := (List.range (id2 - id1 + 1).toNat).map fun k => id1 + k

/-- One round of the loop in `idl_addlist`, from the index `tok` on, with the list so far and the number
of ids added. It ends with the return value, the list and the index for `*end`. -/
def addlistBody (list : Cstr) (p : ℕ × List ℤ × ℕ) :
    Option ((ℕ × List ℤ × ℕ) ⊕ ℕ × List ℤ × ℕ) := do
  let (tok, idl, added) := p
  let behind (tok : ℕ) : ℕ := if list.byte tok = 44 then tok + 1 else tok
  if !isdigit (list.byte tok) then return .inr (added, idl, tok)
  let (id1, n) := uintAt list tok
  if n = 0 then return .inr (0, idl, 0)
  let tok := tok + n
  if list.byte tok = 45 then
    let tok := tok + 1
    let (id2, n) := uintAt list tok
    if n = 0 then return .inr (0, idl, 0)
    let tok := tok + n
    if id2 ≤ id1 then return .inr (0, idl, 0)
    -- the last `++id` leaves the range of an `int`
    if id2 = INT_MAX then none
    else
      let ids := idRange id1 id2
      return .inl (behind tok, idl ++ ids, added + ids.length)
  else return .inl (behind tok, idl ++ [id1], added + 1)

/-- `idl_addlist`: the return value, the list and the index for `*end`. -/
def idlAddlist (idl : List ℤ) (list : Cstr) : Option (ℕ × List ℤ × ℕ) :=
  loop (addlistBody list) (list.bytes.length + 1) (0, idl, 0)

/-- One round of the loop in `idl_addclist`. -/
def addclistBody (conv : Cstr → Client (ℤ × ℕ)) (s : Cstr) (p : ℕ × List ℤ × ℕ) :
    Client ((ℕ × List ℤ × ℕ) ⊕ ℕ × List ℤ × ℕ) := do
  let (ntok, idl, added) := p
  let (id, n) ← conv (s.drop ntok)
  if n = 0 then return .inr (0, idl, 0)
  else if s.byte (ntok + n) ≠ 44 then return .inr (added + 1, idl ++ [id], ntok + n)
  else return .inl (ntok + n + 1, idl ++ [id], added + 1)

/-- `idl_addclist` -/
def idlAddclist (idl : List ℤ) (s : Cstr) (conv : Cstr → Client (ℤ × ℕ)) :
    Client (ℕ × List ℤ × ℕ) :=
  Prog.loop (addclistBody conv s) (s.bytes.length + 1) (0, idl, 0)

/-- `idl_addalbum`: the tracks of an album from the position `first` to `last`. The current track's album
stands for a negative `album`. -/
def idlAddalbum (idl : List ℤ) (album first last : ℤ) : Client (List ℤ) := do
  let album ← if album < 0 then do
      match ← ducCmdCurtrack with
      | some t => pure (some t.album.id)
      | none => pure none
    else pure (some album)
  match album with
  | none => return idl
  | some album =>
    match ← ducCmdTracksalbum album with
    | none => return idl
    | some ts =>
      return idl ++ (ts.filter fun t =>
        (first < 0 ∨ first ≤ t.albumnr) ∧ (last < 0 ∨ last ≥ t.albumnr)).map DucTrack.id

/-! ## Single values -/

/-- The texts of `bools`, `rights` and `rgtypes`, with their values. -/
abbrev Enum := List (Cstr × ℤ)

def bools : Enum :=
  [(.lit "on", 1), (.lit "off", 0), (.lit "true", 1), (.lit "false", 0), (.lit "yes", 1), (.lit "no", 0),
    (.lit "1", 1), (.lit "0", 0)]

def rights : Enum :=
  [(.lit "any", 0), (.lit "quest", 1), (.lit "user", 2), (.lit "admin", 3), (.lit "master", 4)]

def rgtypes : Enum :=
  [(.lit "none", 0), (.lit "trackpeak", 2), (.lit "track", 1), (.lit "albumpeak", 4), (.lit "album", 3),
    (.lit "0", 0), (.lit "1", 1), (.lit "2", 2), (.lit "3", 3), (.lit "4", 4)]

/-- `val_enum` -/
def valEnum (lst : Enum) (s : Cstr) : ℤ × ℕ :=
  let fits (it : Cstr × ℤ) : Bool :=
    let len := it.1.bytes.length
    len ≤ s.bytes.length && (s.bytes.take len).map tolower == it.1.bytes.map tolower &&
      !(len < s.bytes.length && isalnum (s.byte len))
  match lst.find? fits with
  | some it => (it.2, it.1.bytes.length)
  | none => (-1, 0)

def valBool (s : Cstr) : Client (ℤ × ℕ) := return valEnum bools s
def valRight (s : Cstr) : Client (ℤ × ℕ) := return valEnum rights s
def valRgtype (s : Cstr) : Client (ℤ × ℕ) := return valEnum rgtypes s
def valUint (s : Cstr) : Client (ℤ × ℕ) := return uintAt s 0
def valYear (s : Cstr) : Client (ℤ × ℕ) := return uintAt s 0
def valTime (s : Cstr) : Client (ℤ × ℕ) := return uintAt s 0
def valUser (s : Cstr) : Client (ℤ × ℕ) := valUint s

/-- `val_double`: the number is returned as an `int`. -/
def valDouble (s : Cstr) : Client (ℤ × ℕ) := do
  let v := strtod s.bytes
  let z := Int.tdiv v.1.num v.1.den
  if -INT_MAX - 1 ≤ z ∧ z ≤ INT_MAX then return (z, v.2) else .fault

/-- `val_string` -/
def valString (s : Cstr) : Client (Option Cstr × ℕ) := return (some s, s.bytes.length)

/-- `val_name` -/
def valName (s : Cstr) : Client (Option Cstr × ℕ) := do
  let n := (s.bytes.takeWhile isalpha).length
  if n = 0 then return (none, 0) else return (some (s.take n), n)

/-- `val_tag` and `val_sfilter`: a number, or a name that is looked up. -/
def valNamed (find : Cstr → Client ℤ) (s : Cstr) : Client (ℤ × ℕ) := do
  let (id, n) := uintAt s 0
  if n ≠ 0 then return (id, n)
  let len := (s.bytes.takeWhile fun b => b ≠ TAB && b ≠ 32).length
  if 10 ≤ len then return (-1, 0)
  let id ← find (s.take len)
  if id < 0 then return (-1, 0) else return (id, len)

/-- `val_tag` -/
def valTag (s : Cstr) : Client (ℤ × ℕ) := valNamed ducCmdTag2id s

/-- `val_sfilter` -/
def valSfilter (s : Cstr) : Client (ℤ × ℕ) := valNamed ducCmdSfilter2id s

/-- `val_track` -/
def valTrack (s : Cstr) : Client (ℤ × ℕ) := do
  if s.byte 0 = 99 then
    match ← ducCmdCurtrack with
    | none => return (-1, 0)
    | some t => return (t.id, 1)
  let (a, n) := uintAt s 0
  if n = 0 then return (-1, 0)
  if s.byte n ≠ 47 then return (a, n)
  let (b, k) := uintAt s (n + 1)
  if k = 0 then return (-1, 0)
  return (← ducCmdTrack2id a b, n + 1 + k)

/-! ## Lists of values -/

/-- `val_idlist` -/
def valIdlist (s : Cstr) : Client (Option (List ℤ) × ℕ) :=
  match idlAddlist [] s with
  | some (_, idl, n) => return (some idl, n)
  | none => .fault

/-- `val_userlist` and `val_taglist` -/
def valClist (conv : Cstr → Client (ℤ × ℕ)) (s : Cstr) : Client (Option (List ℤ) × ℕ) := do
  let (_, idl, n) ← idlAddclist [] s conv
  return (some idl, n)

/-- `val_userlist` -/
def valUserlist (s : Cstr) : Client (Option (List ℤ) × ℕ) := valClist valUser s

/-- `val_taglist` -/
def valTaglist (s : Cstr) : Client (Option (List ℤ) × ℕ) := valClist valTag s

/-- What `val_tracklist` adds for one item, and the index behind it; `none` where it returns NULL. -/
def tracklistItem (s : Cstr) (tok : ℕ) (idl : List ℤ) : Client (Option (List ℤ × ℕ)) := do
  let (id, n) := uintAt s tok
  if n = 0 ∧ s.byte tok ≠ 99 then return none
  let (id1, tok) := if n = 0 then (-1, tok + 1) else (id, tok + n)
  if s.byte tok = 47 then
    let tok := tok + 1
    let (pos1, n) := uintAt s tok
    if n = 0 then
      -- no position, must be `*`
      if s.byte tok ≠ 42 then return none
      return some (← idlAddalbum idl id1 (-1) (-1), tok + 1)
    let tok := tok + n
    if s.byte tok = 45 then
      let tok := tok + 1
      let (pos, n) := uintAt s tok
      if n = 0 ∧ s.byte tok ≠ 42 then return none
      let (pos2, tok) := if n = 0 then (-1, tok + 1) else (pos, tok + n)
      return some (← idlAddalbum idl id1 pos1 pos2, tok)
    let tid ← ducCmdTrack2id id1 pos1
    return some (if 0 ≤ tid then idl ++ [tid] else idl, tok)
  if id1 < 0 then
    match ← ducCmdCurtrack with
    | none => return none
    | some t => return some (idl ++ [t.id], tok)
  return some (idl ++ [id1], tok)

/-- One round of the loop in `val_tracklist`. -/
def tracklistBody (s : Cstr) (p : ℕ × List ℤ) :
    Client ((ℕ × List ℤ) ⊕ Option (List ℤ) × ℕ) := do
  match ← tracklistItem s p.1 p.2 with
  | none => return .inr (none, 0)
  | some (idl, tok) =>
    if s.byte tok ≠ 44 then return .inr (some idl, tok) else return .inl (tok + 1, idl)

/-- `val_tracklist` -/
def valTracklist (s : Cstr) : Client (Option (List ℤ) × ℕ) :=
  Prog.loop (tracklistBody s) (s.bytes.length + 1) (0, [])

/-! ## Fuel -/

theorem addlistBody_left (s : Cstr) (p p' : ℕ × List ℤ × ℕ) (h : addlistBody s p = some (.inl p')) :
    s.left p'.1 < s.left p.1 := by
  obtain ⟨tok, idl, added⟩ := p
  by_cases hd : isdigit (s.byte tok) = true
  · refine Cstr.left_lt (i := tok) (fun h => by rw [h] at hd; cases hd) le_rfl ?_
    simp only [addlistBody, hd, Bool.not_true, Bool.false_eq_true, if_false] at h
    split_ifs at h with hn hm hn' hle hmax
    all_goals cases h
    all_goals
      dsimp only
      omega
  · simp [addlistBody, hd] at h

/-- **The loop in `idl_addlist` ends** after as many rounds as there are bytes. -/
theorem idlAddlist_fuel (idl : List ℤ) (s : Cstr) {n : ℕ} (hn : s.bytes.length < n) :
    loop (addlistBody s) n (0, idl, 0) = idlAddlist idl s :=
  loop_fuel (fun p : ℕ × List ℤ × ℕ => s.left p.1) (addlistBody_left s) n _ (0, idl, 0) hn
    (Nat.lt_succ_self _)

theorem addclistBody_left (conv : Cstr → Client (ℤ × ℕ)) (s : Cstr) (p : ℕ × List ℤ × ℕ) :
    (addclistBody conv s p).Always fun r => ∀ p', r = .inl p' → s.left p'.1 < s.left p.1 := by
  refine Prog.Always.bind (Prog.always_true _) fun r _ => ?_
  dsimp only
  split_ifs with hn hc
  · exact fun _ h => by cases h
  · exact fun _ h => by cases h
  · rintro p' ⟨⟩
    refine Cstr.left_lt (i := p.1 + r.2) (by rw [not_not.1 hc]; decide) (Nat.le_add_right ..) ?_
    omega

/-- **The loop in `idl_addclist` ends** after as many rounds as there are bytes. -/
theorem idlAddclist_fuel (idl : List ℤ) (s : Cstr) (conv : Cstr → Client (ℤ × ℕ)) {n : ℕ}
    (hn : s.bytes.length < n) :
    Prog.loop (addclistBody conv s) n (0, idl, 0) = idlAddclist idl s conv :=
  Prog.loop_fuel (fun p : ℕ × List ℤ × ℕ => s.left p.1) (addclistBody_left conv s) n _ (0, idl, 0) hn
    (Nat.lt_succ_self _)

theorem lt_skip (id : ℤ) (n tok : ℕ) :
    tok < (if n = 0 then ((-1 : ℤ), tok + 1) else (id, tok + n)).2 := by
  split_ifs <;> dsimp only <;> omega

theorem tracklistItem_lt (s : Cstr) (tok : ℕ) (idl : List ℤ) :
    (tracklistItem s tok idl).Always fun r => ∀ p, r = some p → tok < p.2 := by
  unfold tracklistItem
  rcases uintAt s tok with ⟨id, n⟩
  dsimp only
  split
  · exact fun _ h => by cases h
  have hlt := lt_skip id n tok
  generalize (if n = 0 then ((-1 : ℤ), tok + 1) else (id, tok + n)) = m at hlt ⊢
  rcases m with ⟨id1, tok₁⟩
  dsimp only at hlt ⊢
  split
  · rcases uintAt s (tok₁ + 1) with ⟨pos1, n₁⟩
    dsimp only
    split
    · split
      · exact fun _ h => by cases h
      · refine Prog.Always.bind (Prog.always_true _) fun ids _ => ?_
        rintro _ ⟨⟩
        dsimp only
        omega
    split
    · rcases uintAt s (tok₁ + 1 + n₁ + 1) with ⟨pos, n₂⟩
      dsimp only
      split
      · exact fun _ h => by cases h
      have hlt₂ := lt_skip pos n₂ (tok₁ + 1 + n₁ + 1)
      refine Prog.Always.bind (Prog.always_true _) fun ids _ => ?_
      rintro _ ⟨⟩
      dsimp only
      omega
    · refine Prog.Always.bind (Prog.always_true _) fun tid _ => ?_
      rintro _ ⟨⟩
      dsimp only
      omega
  split
  · refine Prog.Always.bind (Prog.always_true _) fun t _ => ?_
    cases t with
    | none => exact fun _ h => by cases h
    | some t =>
      rintro _ ⟨⟩
      exact hlt
  · rintro _ ⟨⟩
    exact hlt

theorem tracklistBody_left (s : Cstr) (p : ℕ × List ℤ) :
    (tracklistBody s p).Always fun r => ∀ p', r = .inl p' → s.left p'.1 < s.left p.1 := by
  refine Prog.Always.bind (tracklistItem_lt s p.1 p.2) fun r hr => ?_
  rcases r with _ | ⟨idl, tok⟩
  · exact fun _ h => by cases h
  · dsimp only
    split_ifs with hc
    · exact fun _ h => by cases h
    · rintro p' ⟨⟩
      have := hr _ rfl
      dsimp only at this
      exact Cstr.left_lt (i := tok) (by rw [not_not.1 hc]; decide) this.le (by dsimp only; omega)

/-- **The loop in `val_tracklist` ends** after as many rounds as there are bytes. -/
theorem valTracklist_fuel (s : Cstr) {n : ℕ} (hn : s.bytes.length < n) :
    Prog.loop (tracklistBody s) n (0, []) = valTracklist s :=
  Prog.loop_fuel (fun p : ℕ × List ℤ => s.left p.1) (tracklistBody_left s) n _ (0, []) hn
    (Nat.lt_succ_self _)

/-! ## NULL -/

theorem valTracklist_some (s : Cstr) : (valTracklist s).Always fun p => p.2 ≠ 0 → p.1.isSome := by
  refine Prog.Always.loop (I := fun _ => True) (fun p _ => ?_) _ trivial
  refine Prog.Always.bind (Prog.always_true _) fun r _ => ?_
  rcases r with _ | ⟨idl, tok⟩
  · exact fun h => absurd rfl h
  · by_cases hc : s.byte tok = 44
    · simp only [hc, ne_eq, not_true_eq_false, if_false]
      trivial
    · simp only [hc, ne_eq, not_false_eq_true, if_true]
      exact fun _ => rfl

theorem valIdlist_some (s : Cstr) : (valIdlist s).Always fun p => p.2 ≠ 0 → p.1.isSome := by
  unfold valIdlist
  split
  · exact fun _ => rfl
  · trivial

theorem valClist_some (conv : Cstr → Client (ℤ × ℕ)) (s : Cstr) :
    (valClist conv s).Always fun p => p.2 ≠ 0 → p.1.isSome :=
  Prog.Always.bind (Prog.always_true _) fun _ _ _ => rfl

theorem valName_some (s : Cstr) : (valName s).Always fun p => p.2 ≠ 0 → p.1.isSome := by
  unfold valName
  dsimp only
  split_ifs
  · exact fun h => absurd rfl h
  · exact fun _ => rfl

end Dudlc
