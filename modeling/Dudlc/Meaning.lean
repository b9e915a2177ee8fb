import Dudlc.Arguments
import Dudlc.Listed
import Dudlc.Tracklist

/-!
# What the arguments mean

The ids that the text of an argument denotes: the numbers that are written in it, and what a server has under the
names, albums and positions that are written in it.

* `Library`: what a server has; `Told`: the look-ups of a program are answered from it.
* `TrackTerm`, `trackTerm`, `namedIds`: the items of a text.
* `Spelling.ids`, `Spelling.nums`: the ids that a text denotes, and the numbers in it; `Spelling.ids_inRange`.
* `valTracklist_means`, `valTrack_means`, `valNamed_means`, `valTaglist_means`, `listed_means`: what the parsers make
  of a text.
* `cmdsTop_meaningful`: the arguments of all commands mean what they spell.
* `Spells`: the texts of the arguments on a line; `argParse_spells`.
* **`Spells.means`**: the values of a line have the ids that its texts denote, but for two forms of tracks.
-/

namespace Dudlc

open Lib

/-! ## What a server has -/

/-- The tracks of the albums, the current track if there is one, and the ids of the tags and filters. No album has
a negative number. -/
structure Library where
  albums : ℤ → List DucTrack
  current : Option DucTrack
  tag : Cstr → Option ℤ
  sfilter : Cstr → Option ℤ
  fits : ∀ a, ∀ t ∈ albums a, (∀ v ∈ t.values, v.Fits) ∧ 0 ≤ t.id
  current_fits : ∀ t ∈ current, (∀ v ∈ t.values, v.Fits) ∧ 0 ≤ t.id
  no_album : ∀ a < 0, albums a = []
  tag_fits : ∀ t, ∀ z ∈ tag t, 0 ≤ z ∧ z ≤ INT_MAX
  sfilter_fits : ∀ t, ∀ z ∈ sfilter t, 0 ≤ z ∧ z ≤ INT_MAX

/-- The tracks of an album. Without a number it is the album of the current track. -/
def Library.on (lib : Library) : Option ℤ → List DucTrack
  | some a => lib.albums a
  | none => lib.current.elim [] fun t => lib.albums t.album.id

/-- The track of an album at a position. -/
def Library.track (lib : Library) (a : Option ℤ) (n : ℤ) : Option DucTrack :=
  (lib.on a).find? fun t => t.albumnr = n

/-- The reply gives the number, or denies that there is one. -/
def Replies (rep : List (List UInt8)) (o : Option ℤ) : Prop :=
  o.elim (Denies rep) fun z => Grants rep [decimalInt z]

/-- The reply to a look-up is what the library has. -/
structure Library.Answers (lib : Library) (q : Request) (rep : List (List UInt8)) : Prop where
  curtrack : q = ⟨.lit "curtrack", []⟩ → lib.current.elim (Denies rep) fun t => Grants rep [t.line]
  tracksalbum : ∀ a, q = ⟨.lit "tracksalbum %d", [.int a]⟩ →
    Grants rep ((lib.albums a).map DucTrack.line) ∨ (lib.albums a = [] ∧ (Grants rep [[]] ∨ Denies rep))
  track2id : ∀ a n, q = ⟨.lit "track2id %d %d", [.int a, .int n]⟩ →
    Replies rep ((lib.track (some a) n).map DucTrack.id)
  tag2id : ∀ t, q = ⟨.lit "tag2id %s", [.str t]⟩ → Replies rep (lib.tag t)
  sfilter2id : ∀ t, q = ⟨.lit "sfilter2id %s", [.str t]⟩ → Replies rep (lib.sfilter t)

/-- The server's answer to the call comes from the library. -/
def Library.Tells (lib : Library) (sv : Server) : ∀ {β : Type}, Op β → List Request → Prop
  | _, .cmd c, sent => ∀ rep, sv.answer sent c.request = some rep → lib.Answers c.request rep
  | _, _, _ => True

/-- What the program asks is answered from the library. -/
def Told (sv : Server) (lib : Library) {α : Type} (p : Client α) (sent : List Request) : Prop :=
  p.Meets sv.op (lib.Tells sv) sent

variable {α β : Type} {sv : Server} {lib : Library} {sent sent' : List Request} {fmt : Cstr} {args : List Arg}

theorem told_bind {p : Client α} {f : α → Client β} : Told sv lib (p >>= f) sent ↔
    Told sv lib p sent ∧ ∀ r, p.run sv.op sent = some r → Told sv lib (f r.1) r.2 := Prog.meets_bind ..

theorem told_of_answers (h : ∀ sent q rep, sv.answer sent q = some rep → lib.Answers q rep) (p : Client α)
    (sent : List Request) : Told sv lib p sent := by
  induction p generalizing sent with
  | ret a => trivial
  | fault => trivial
  | call e k ih =>
    refine ⟨?_, fun r _ => ih r.1 r.2⟩
    cases e with
    | cmd c => exact h sent c.request
    | fd => trivial
    | «open» => trivial
    | raw line => trivial

/-! ## Look-ups -/

theorem told_cmd {ρ : Type} {c : Cmd ρ} {f : Result ρ → Client α} {r : α × List Request}
    (hm : Told sv lib (Prog.ask (.cmd c) >>= f) sent) (hr : (Prog.ask (.cmd c) >>= f).run sv.op sent = some r) :
    ∃ rep, sv.answer sent c.request = some rep ∧ lib.Answers c.request rep := by
  rw [Prog.run_bind, Prog.run_ask] at hr
  obtain ⟨p, hp, -⟩ := Option.bind_eq_some_iff.1 hr
  obtain ⟨rep, hrep, -⟩ := Option.map_eq_some_iff.1 hp
  exact ⟨rep, hrep, ((Prog.meets_ask ..).1 (told_bind.1 hm).1) rep hrep⟩

theorem curtrack_told {o : Option DucTrack} (hm : Told sv lib ducCmdCurtrack sent)
    (hr : ducCmdCurtrack.run sv.op sent = some (o, sent')) : o = lib.current := by
  obtain ⟨rep, hrep, hans⟩ := told_cmd hm hr
  have hcur := hans.curtrack rfl
  rcases hc : lib.current with _ | t <;> rw [hc] at hcur
  · have hcode : rep.head?.bind List.head? = some 53 := hcur
    have hrun := askConv_server ducTrackParse hrep
    rw [hcode, if_neg (by decide)] at hrun
    exact (Prod.mk.inj (Option.some.inj (hr.symm.trans hrun))).1
  · have hrun := askConv_track hrep hcur (lib.current_fits t hc).1
    exact (Prod.mk.inj (Option.some.inj (hr.symm.trans hrun))).1

theorem askInt_told {o : Option ℤ} {z : ℤ} (ho : ∀ rep, lib.Answers ⟨fmt, args⟩ rep → Replies rep o)
    (hfits : ∀ z ∈ o, 0 ≤ z ∧ z ≤ INT_MAX) (hm : Told sv lib (askInt fmt args) sent)
    (hr : (askInt fmt args).run sv.op sent = some (z, sent')) : z = o.getD (-1) := by
  obtain ⟨rep, hrep, hans⟩ := told_cmd hm hr
  have hrun := askInt_elim hrep (ho rep hans) fun z hz => by
    obtain ⟨h0, hmax⟩ := hfits z hz
    simp only [INT_MAX] at hmax
    omega
  exact (Prod.mk.inj (Option.some.inj (hr.symm.trans hrun))).1

theorem DucTrack.inRange {c : DucTrack} (h : (∀ v ∈ c.values, v.Fits) ∧ 0 ≤ c.id) : 0 ≤ c.id ∧ c.id ≤ INT_MAX := by
  have := (DucTrack.id_fits h.1).2
  have h0 := h.2
  simp only [INT_MAX]
  omega

theorem Library.on_fits (lib : Library) (a : Option ℤ) : ∀ t ∈ lib.on a, 0 ≤ t.id ∧ t.id ≤ INT_MAX := by
  have hfits : ∀ b, ∀ t ∈ lib.albums b, 0 ≤ t.id ∧ t.id ≤ INT_MAX := fun b t ht => DucTrack.inRange (lib.fits b t ht)
  cases a with
  | some a => exact hfits a
  | none =>
    rw [Library.on]
    cases lib.current with
    | none => exact List.forall_mem_nil _
    | some t => exact hfits _

theorem track2id_told {a n z : ℤ} (hm : Told sv lib (ducCmdTrack2id a n) sent)
    (hr : (ducCmdTrack2id a n).run sv.op sent = some (z, sent')) :
    z = ((lib.track (some a) n).map DucTrack.id).getD (-1) := by
  refine askInt_told (fun rep h => h.track2id a n rfl) (fun z hz => ?_) hm hr
  obtain ⟨t, ht, rfl⟩ := Option.map_eq_some_iff.1 hz
  exact lib.on_fits (some a) t (List.mem_of_find?_eq_some ht)

theorem tracksalbum_told {a : ℤ} {o : Option (List DucTrack)} (hm : Told sv lib (ducCmdTracksalbum a) sent)
    (hr : (ducCmdTracksalbum a).run sv.op sent = some (o, sent')) : o.getD [] = lib.albums a := by
  obtain ⟨rep, hrep, hans⟩ := told_cmd hm hr
  obtain ⟨o', hrun, ho⟩ := askIter_tracks hrep (hans.tracksalbum a rfl) fun t ht => (lib.fits a t ht).1
  obtain ⟨rfl, -⟩ := Prod.mk.inj (Option.some.inj (hr.symm.trans hrun))
  exact ho

theorem tracks_told {idl idl' : List ℤ} {a : ℤ} {keep : DucTrack → Bool} {f : Option (List DucTrack) → Client (List ℤ)}
    (hnone : f none = pure idl) (hsome : ∀ ts, f (some ts) = pure (idl ++ (ts.filter keep).map DucTrack.id))
    (hm : Told sv lib (ducCmdTracksalbum a >>= f) sent)
    (hr : (ducCmdTracksalbum a >>= f).run sv.op sent = some (idl', sent')) :
    idl' = idl ++ ((lib.albums a).filter keep).map DucTrack.id := by
  rw [Prog.run_bind] at hr
  obtain ⟨⟨o, sent₂⟩, hrun, hr⟩ := Option.bind_eq_some_iff.1 hr
  rw [← tracksalbum_told (told_bind.1 hm).1 hrun]
  cases o with
  | none =>
    dsimp only at hr
    rw [hnone] at hr
    simpa using (Prod.mk.inj (Option.some.inj hr)).1.symm
  | some ts =>
    dsimp only at hr
    rw [hsome] at hr
    exact (Prod.mk.inj (Option.some.inj hr)).1.symm

/-- **What `idl_addalbum` adds**: tracks of the album, of the current track's one for a negative number. -/
theorem addalbum_told {idl idl' : List ℤ} {album first last : ℤ}
    (hm : Told sv lib (idlAddalbum idl album first last) sent)
    (hr : (idlAddalbum idl album first last).run sv.op sent = some (idl', sent')) :
    idl' = idl ++ ((lib.on (if album < 0 then none else some album)).filter fun t =>
      (first < 0 ∨ first ≤ t.albumnr) ∧ (last < 0 ∨ last ≥ t.albumnr)).map DucTrack.id := by
  unfold idlAddalbum at hm hr
  by_cases ha : album < 0
  · rw [if_pos ha] at hm hr ⊢
    rw [Prog.run_bind] at hr
    obtain ⟨⟨o, sent₁⟩, hrun, hr⟩ := Option.bind_eq_some_iff.1 hr
    obtain ⟨hcur, hm⟩ := told_bind.1 hm
    rw [Library.on, ← curtrack_told hcur hrun]
    cases o with
    | none => simpa using (Prod.mk.inj (Option.some.inj hr)).1.symm
    | some t => exact tracks_told rfl (fun _ => rfl) (hm _ hrun) hr
  · rw [if_neg ha] at hm hr ⊢
    exact tracks_told rfl (fun _ => rfl) hm hr

theorem told_pure {p : Client α} {f : α → β} {b : β} (hm : Told sv lib (p >>= fun a => pure (f a)) sent)
    (hr : (p >>= fun a => pure (f a)).run sv.op sent = some (b, sent')) :
    ∃ a, Told sv lib p sent ∧ p.run sv.op sent = some (a, sent') ∧ f a = b := by
  rw [Prog.run_bind] at hr
  obtain ⟨⟨a, sent₁⟩, hrun, hr⟩ := Option.bind_eq_some_iff.1 hr
  obtain ⟨rfl, rfl⟩ := Prod.mk.inj (Option.some.inj hr)
  exact ⟨a, (told_bind.1 hm).1, hrun, rfl⟩

/-! ## Items -/

/-- The numbers are within 0..INT_MAX. -/
def InRange (zs : List ℤ) : Prop := ∀ z ∈ zs, 0 ≤ z ∧ z ≤ INT_MAX

instance : DecidablePred InRange := fun zs => inferInstanceAs (Decidable (∀ z ∈ zs, 0 ≤ z ∧ z ≤ INT_MAX))

/-- A track, or the tracks of an album: all, the one at a position, or those from a position on. Without a number
it is the current track, and its album. -/
inductive TrackTerm
  | track (a : Option ℤ)
  | album (a : Option ℤ)
  | position (a : Option ℤ) (n : ℤ)
  | span (a : Option ℤ) (n : ℤ) (m : Option ℤ)
  deriving DecidableEq

/-- The tracks that are meant. -/
def TrackTerm.ids (lib : Library) : TrackTerm → List ℤ
  | track a => a.elim (lib.current.toList.map DucTrack.id) fun z => [z]
  | album a => (lib.on a).map DucTrack.id
  | position a n => (lib.track a n).toList.map DucTrack.id
  | span a n m => ((lib.on a).filter fun t => n ≤ t.albumnr ∧ ∀ z ∈ m, t.albumnr ≤ z).map DucTrack.id

/-- The numbers that are written. -/
def TrackTerm.nums : TrackTerm → List ℤ
  | track a => a.toList
  | album a => a.toList
  | position a n => a.toList ++ [n]
  | span a n m => a.toList ++ n :: m.toList

/-- The number at the start of a text, or none for a `c`, and what is behind it. -/
def readHead (t : List UInt8) : Option (Option ℤ × List UInt8) :=
  if (strtoul t).2 ≠ 0 then some (some (written t), t.drop (strtoul t).2)
  else match t with
    | 99 :: r => some (none, r)
    | _ => none

/-- What is behind a dash: `*` or a number. -/
def readLast (t : List UInt8) : Option (Option ℤ) :=
  if t = [42] then some none else if IsNumber t then some (some (written t)) else none

/-- A position alone, or one with a dash behind it. -/
def readFrom (a : Option ℤ) (n : ℤ) : List UInt8 → Option TrackTerm
  | [] => some (.position a n)
  | 45 :: t => (readLast t).map (.span a n)
  | _ => none

/-- The positions that are given behind a `/`: `*`, `<n>`, `<n>-*` or `<n>-<m>`. -/
def readPositions (a : Option ℤ) (t : List UInt8) : Option TrackTerm :=
  if t = [42] then some (.album a)
  else if (strtoul t).2 = 0 then none
  else readFrom a (written t) (t.drop (strtoul t).2)

/-- What is behind a number or a `c`. -/
def readRest (a : Option ℤ) : List UInt8 → Option TrackTerm
  | [] => some (.track a)
  | 47 :: t => readPositions a t
  | _ => none

/-- The item that is written: `<id>`, `c`, or one of them with positions. -/
def trackTerm (t : List UInt8) : Option TrackTerm := (readHead t).bind fun h => readRest h.1 h.2

/-- The ids of pieces that are numbers. What is no number is a name, up to the end. -/
def namedIds (find : Cstr → Option ℤ) : List (List UInt8) → List ℤ
  | [] => []
  | p :: ps =>
    if IsNumber p then written p :: namedIds find ps
    else (find (.ofBytes ([44].intercalate (p :: ps)))).toList

/-- The pieces that are numbers, up to a name. -/
def namedNums (ps : List (List UInt8)) : List ℤ := (ps.takeWhile IsNumber).map written

/-- How an argument spells ids. -/
inductive Spelling
  | number | list | track | tracks | tag | tags | sfilter
  deriving DecidableEq

/-- **The ids that a text denotes.** -/
def Spelling.ids (lib : Library) (t : List UInt8) : Spelling → List ℤ
  | number => [written t]
  | list => listed t
  | track => (trackTerm t).elim [] (TrackTerm.ids lib)
  | tracks => (t.splitOn 44).flatMap fun p => (trackTerm p).elim [] (TrackTerm.ids lib)
  | tag => namedIds lib.tag [t]
  | tags => namedIds lib.tag (t.splitOn 44)
  | sfilter => namedIds lib.sfilter [t]

/-- The numbers that are written in a text. -/
def Spelling.nums (t : List UInt8) : Spelling → List ℤ
  | number => [written t]
  | list => numbers t
  | track => (trackTerm t).elim [] TrackTerm.nums
  | tracks => (t.splitOn 44).flatMap fun p => (trackTerm p).elim [] TrackTerm.nums
  | tag => namedNums [t]
  | tags => namedNums (t.splitOn 44)
  | sfilter => namedNums [t]

/-- The server has a track at a position that is given for a single track, and no position in a list, given behind
`c/` alone, is one of the current track's album. -/
def Spelling.Plain (lib : Library) (t : List UInt8) : Spelling → Prop
  | track => ∀ a n, trackTerm t = some (.position a n) → lib.track a n ≠ none
  | tracks => ∀ p ∈ t.splitOn 44, ∀ n, trackTerm p = some (.position none n) → lib.track none n = none
  | _ => True

variable {t r p : List UInt8} {a : Option ℤ} {s : Cstr} {i tok tok' : ℕ} {idl idl' : List ℤ} {z : ℤ}

/-! ## Lists of tracks -/

theorem narrow_inRange {zs : List ℤ} (h : InRange zs) (hz : z ∈ zs) : narrow z = z := by
  obtain ⟨h0, hmax⟩ := h z hz
  exact narrow_eq (by omega) hmax

theorem readHead_number (ht : IsNumber t) (hr : ∀ b ∈ r.head?, isdigit b = false) :
    readHead (t ++ r) = some (some (written t), r) := by
  obtain ⟨hlen, hval⟩ := ht.read hr
  have hne : (strtoul (t ++ r)).2 ≠ 0 := fun h => ht.1 (List.length_eq_zero_iff.1 (hlen.symm.trans h))
  unfold readHead
  rw [if_pos hne, hlen, hval, List.drop_left]

theorem readHead_current (r : List UInt8) : readHead (99 :: r) = some (none, r) := by
  have hzero : (strtoul (99 :: r)).2 = 0 := strtoul_eq_zero.2 rfl
  rw [readHead, if_neg (not_not.2 hzero)]

theorem not_isNumber_star (r : List UInt8) : ¬ IsNumber (42 :: r) := by
  rintro ⟨-, hlen⟩
  have hzero : (strtoul (42 :: r)).2 = 0 := strtoul_eq_zero.2 rfl
  rw [hzero] at hlen
  cases hlen

theorem readLast_number (ht : IsNumber t) : readLast t = some (some (written t)) := by
  have hne : t ≠ [42] := by
    rintro rfl
    exact not_isNumber_star [] ht
  rw [readLast, if_neg hne, if_pos ht]

theorem readPositions_number (ht : IsNumber t) (hr : ∀ b ∈ r.head?, isdigit b = false) :
    readPositions a (t ++ r) = readFrom a (written t) r := by
  obtain ⟨hlen, hval⟩ := ht.read hr
  have hne : t ++ r ≠ [42] := by
    intro h
    obtain ⟨b, t', rfl⟩ := List.exists_cons_of_ne_nil ht.1
    obtain ⟨rfl, -⟩ := List.cons.inj h
    exact not_isNumber_star t' ht
  rw [readPositions, if_neg hne, hlen, if_neg (fun h => ht.1 (List.length_eq_zero_iff.1 h)), List.drop_left, hval]

theorem album_eq (h : InRange a.toList) : (if a.elim (-1) narrow < 0 then none else some (a.elim (-1) narrow)) = a := by
  cases a with
  | none => rfl
  | some z =>
    have hz : narrow z = z := narrow_inRange h (List.mem_singleton.2 rfl)
    have h0 : 0 ≤ z := (h z (List.mem_singleton.2 rfl)).1
    rw [Option.elim_some, hz, if_neg (not_lt.2 h0)]

/-- What is taken for an item: nothing for a position on the album of the current track. -/
def TrackTerm.taken (lib : Library) : TrackTerm → List ℤ
  | position none _ => []
  | term => term.ids lib

theorem span_taken (lib : Library) {n : ℤ} {m : Option ℤ} (h : InRange (TrackTerm.span a n m).nums) :
    ((lib.on (if a.elim (-1) narrow < 0 then none else some (a.elim (-1) narrow))).filter fun t =>
      (narrow n < 0 ∨ narrow n ≤ t.albumnr) ∧ (m.elim (-1) narrow < 0 ∨ m.elim (-1) narrow ≥ t.albumnr)).map
        DucTrack.id = (TrackTerm.span a n m).taken lib := by
  have ha : InRange a.toList := fun z hz => h z (List.mem_append_left _ hz)
  have hn : 0 ≤ n := (h n (List.mem_append_right _ List.mem_cons_self)).1
  have hn' : narrow n = n := narrow_inRange h (List.mem_append_right _ List.mem_cons_self)
  rw [album_eq ha, hn', TrackTerm.taken, TrackTerm.ids]
  · cases m with
    | none => simp [not_lt.2 hn]
    | some z =>
      have hmem : z ∈ (TrackTerm.span a n (some z)).nums := by simp [TrackTerm.nums]
      simp [not_lt.2 hn, narrow_inRange h hmem, not_lt.2 (h z hmem).1]
  · nofun

theorem position_taken (lib : Library) {n : ℤ} (h : InRange (TrackTerm.position a n).nums) (idl : List ℤ)
    (hz : z = ((lib.track (some (a.elim (-1) narrow)) (narrow n)).map DucTrack.id).getD (-1)) :
    (if 0 ≤ z then idl ++ [z] else idl) = idl ++ (TrackTerm.position a n).taken lib := by
  have hn : narrow n = n := narrow_inRange h (List.mem_append_right _ (List.mem_singleton.2 rfl))
  rw [hn] at hz
  cases a with
  | none =>
    have hnone : lib.track (some (-1)) n = none := by
      rw [Library.track, Library.on, lib.no_album (-1) (by decide)]
      rfl
    rw [Option.elim_none, hnone] at hz
    subst hz
    simp [TrackTerm.taken]
  | some b =>
    rw [Option.elim_some, narrow_inRange h (List.mem_append_left _ (List.mem_singleton.2 rfl))] at hz
    change _ = idl ++ (lib.track (some b) n).toList.map DucTrack.id
    cases ht : lib.track (some b) n with
    | none =>
      rw [ht] at hz
      subst hz
      simp
    | some t =>
      rw [ht] at hz
      subst hz
      exact if_pos (lib.on_fits (some b) t (List.mem_of_find?_eq_some ht)).1

/-- The item behind its number or `c` says what is added to the list. -/
def RestMeans (lib : Library) (a : Option ℤ) (s : Cstr) (tok tok' : ℕ) (idl idl' : List ℤ) : Prop :=
  ∃ r term, (s.drop tok).bytes = r ++ (s.drop tok').bytes ∧ 44 ∉ r ∧ readRest a r = some term ∧
    (InRange term.nums → idl' = idl ++ term.taken lib)

section Rest

variable (hm : Told sv lib (trackRest s (a.elim (-1) narrow) tok idl) sent)
  (hr : (trackRest s (a.elim (-1) narrow) tok idl).run sv.op sent = some (some (idl', tok'), sent'))

include hm hr

theorem restMeans_none (hslash : s.byte tok ≠ 47) : RestMeans lib a s tok tok' idl idl' := by
  unfold trackRest at hm hr
  rw [if_neg hslash] at hm hr
  by_cases hneg : a.elim (-1) narrow < 0
  · rw [if_pos hneg] at hm hr
    rw [Prog.run_bind] at hr
    obtain ⟨⟨o, sent₁⟩, hrun, hr⟩ := Option.bind_eq_some_iff.1 hr
    rw [curtrack_told (told_bind.1 hm).1 hrun] at hr
    cases hcur : lib.current with
    | none =>
      rw [hcur] at hr
      cases (Prod.mk.inj (Option.some.inj hr)).1
    | some c =>
      rw [hcur] at hr
      obtain ⟨h, rfl⟩ := Prod.mk.inj (Option.some.inj hr)
      obtain ⟨rfl, rfl⟩ := Prod.mk.inj (Option.some.inj h)
      refine ⟨[], .track a, rfl, List.not_mem_nil, rfl, fun hrange => ?_⟩
      cases a with
      | none => simp [TrackTerm.taken, TrackTerm.ids, hcur]
      | some z =>
        have hz : narrow z < 0 := hneg
        rw [narrow_inRange hrange (List.mem_singleton.2 rfl)] at hz
        exact absurd (hrange z (List.mem_singleton.2 rfl)).1 (not_le.2 hz)
  · rw [if_neg hneg] at hr
    obtain ⟨h, rfl⟩ := Prod.mk.inj (Option.some.inj hr)
    obtain ⟨rfl, rfl⟩ := Prod.mk.inj (Option.some.inj h)
    refine ⟨[], .track a, rfl, List.not_mem_nil, rfl, fun hrange => ?_⟩
    cases a with
    | none => exact absurd (by decide) hneg
    | some z =>
      rw [Option.elim_some, narrow_inRange hrange (List.mem_singleton.2 rfl)]
      rfl

theorem restMeans_all (hslash : s.byte tok = 47) {pos : ℤ} (hpos : uintAt s (tok + 1) = (pos, 0)) :
    RestMeans lib a s tok tok' idl idl' := by
  unfold trackRest at hm hr
  rw [if_pos hslash] at hm hr
  simp only [hpos, if_pos trivial] at hm hr
  by_cases hstar : s.byte (tok + 1) = 42
  · rw [if_neg (not_not.2 hstar)] at hm hr
    obtain ⟨l, hadd, hrun, heq⟩ := told_pure hm hr
    obtain ⟨rfl, rfl⟩ := Prod.mk.inj (Option.some.inj heq)
    refine ⟨[47, 42], .album a, ?_, by decide, rfl, fun hrange => ?_⟩
    · rw [drop_byte (by decide) hslash, drop_byte (by decide) hstar]
      rfl
    · rw [addalbum_told hadd hrun, album_eq hrange]
      simp [TrackTerm.taken, TrackTerm.ids]
  · rw [if_pos hstar] at hr
    cases (Prod.mk.inj (Option.some.inj hr)).1

variable (ht : IsNumber t) (hpos : uintAt s (tok + 1) = (narrow (written t), t.length))
  (hsplit : (s.drop (tok + 1)).bytes = t ++ (s.drop (tok + 1 + t.length)).bytes)

include ht hpos hsplit

theorem restMeans_position (hslash : s.byte tok = 47) (hdash : s.byte (tok + 1 + t.length) ≠ 45) :
    RestMeans lib a s tok tok' idl idl' := by
  have hn : t.length ≠ 0 := fun h => ht.1 (List.length_eq_zero_iff.1 h)
  unfold trackRest at hm hr
  rw [if_pos hslash] at hm hr
  simp only [hpos, if_neg hn, if_neg hdash] at hm hr
  obtain ⟨z, htrack, hrun, heq⟩ := told_pure hm hr
  obtain ⟨rfl, rfl⟩ := Prod.mk.inj (Option.some.inj heq)
  refine ⟨47 :: t, .position a (written t), ?_, ?_, ?_, fun hrange => ?_⟩
  · rw [drop_byte (by decide) hslash, hsplit]
    rfl
  · simpa using ht.not_mem endsNumber_comma
  · have hread := readPositions_number (a := a) (r := []) ht (by simp)
    rwa [List.append_nil] at hread
  · exact position_taken lib hrange idl (track2id_told htrack hrun)

theorem restMeans_span (hslash : s.byte tok = 47) (hdash : s.byte (tok + 1 + t.length) = 45) :
    RestMeans lib a s tok tok' idl idl' := by
  have hn : t.length ≠ 0 := fun h => ht.1 (List.length_eq_zero_iff.1 h)
  have htext := drop_byte (by decide) hslash
  have htext' := drop_byte (by decide) hdash
  unfold trackRest at hm hr
  rw [if_pos hslash] at hm hr
  simp only [hpos, if_neg hn, if_pos hdash] at hm hr
  rcases hpos' : uintAt s (tok + 1 + t.length + 1) with ⟨pos', n'⟩
  simp only [hpos'] at hm hr
  by_cases hno : n' = 0 ∧ s.byte (tok + 1 + t.length + 1) ≠ 42
  · rw [if_pos hno] at hr
    cases (Prod.mk.inj (Option.some.inj hr)).1
  rw [if_neg hno] at hm hr
  by_cases hn' : n' = 0
  · have hstar : s.byte (tok + 1 + t.length + 1) = 42 := not_not.1 fun h => hno ⟨hn', h⟩
    simp only [if_pos hn'] at hm hr
    obtain ⟨l, hadd, hrun, heq⟩ := told_pure hm hr
    obtain ⟨rfl, rfl⟩ := Prod.mk.inj (Option.some.inj heq)
    refine ⟨47 :: (t ++ [45, 42]), .span a (written t) none, ?_, ?_, ?_, fun hrange => ?_⟩
    · rw [htext, hsplit, htext', drop_byte (by decide) hstar]
      simp
    · simpa using ht.not_mem endsNumber_comma
    · exact readPositions_number ht (r := [45, 42]) (by simp [isdigit])
    · rw [addalbum_told hadd hrun]
      exact congrArg _ (span_taken lib hrange)
  · simp only [if_neg hn'] at hm hr
    obtain ⟨t', ht', hnum', hsplit'⟩ := number_split (s := s) (i := tok + 1 + t.length + 1)
      (by rw [hpos']; exact hn')
    obtain ⟨rfl, rfl⟩ := Prod.mk.inj (hpos'.symm.trans hnum')
    obtain ⟨l, hadd, hrun, heq⟩ := told_pure hm hr
    obtain ⟨rfl, rfl⟩ := Prod.mk.inj (Option.some.inj heq)
    refine ⟨47 :: (t ++ 45 :: t'), .span a (written t) (some (written t')), ?_, ?_, ?_, fun hrange => ?_⟩
    · rw [htext, hsplit, htext', hsplit']
      simp
    · have hnot := ht.not_mem endsNumber_comma
      have hnot' := ht'.not_mem endsNumber_comma
      simpa using ⟨hnot, hnot'⟩
    · refine (readPositions_number ht (r := 45 :: t') (by simp [isdigit])).trans ?_
      rw [readFrom, readLast_number ht']
      rfl
    · rw [addalbum_told hadd hrun]
      exact congrArg _ (span_taken lib hrange)

end Rest

/-- **The item behind its number or `c`**: it is read up to a text without a comma. -/
theorem trackRest_means {id1 : ℤ} (hid : a.elim (-1) narrow = id1) (hm : Told sv lib (trackRest s id1 tok idl) sent)
    (hr : (trackRest s id1 tok idl).run sv.op sent = some (some (idl', tok'), sent')) :
    RestMeans lib a s tok tok' idl idl' := by
  subst hid
  by_cases hslash : s.byte tok = 47
  · by_cases hn : (uintAt s (tok + 1)).2 = 0
    · exact restMeans_all hm hr hslash (Prod.ext rfl hn)
    obtain ⟨t, ht, hpos, hsplit⟩ := number_split hn
    by_cases hdash : s.byte (tok + 1 + t.length) = 45
    · exact restMeans_span hm hr ht hpos hsplit hslash hdash
    · exact restMeans_position hm hr ht hpos hsplit hslash hdash
  · exact restMeans_none hm hr hslash

theorem readRest_digit {term : TrackTerm} (h : readRest a r = some term) : ∀ b ∈ r.head?, isdigit b = false := by
  cases r with
  | nil => simp
  | cons b r =>
    simp only [List.head?_cons, Option.mem_some_iff]
    rintro _ rfl
    unfold readRest at h
    split at h
    · contradiction
    · rename_i heq
      obtain ⟨rfl, -⟩ := List.cons.inj heq
      rfl
    · cases h

/-- **An item** is read up to a text without a comma. -/
theorem tracklistItem_means (hm : Told sv lib (tracklistItem s tok idl) sent)
    (hr : (tracklistItem s tok idl).run sv.op sent = some (some (idl', tok'), sent')) :
    ∃ p term, (s.drop tok).bytes = p ++ (s.drop tok').bytes ∧ 44 ∉ p ∧ trackTerm p = some term ∧
      (InRange term.nums → idl' = idl ++ term.taken lib) := by
  rcases hread : uintAt s tok with ⟨id, n⟩
  by_cases hno : n = 0 ∧ s.byte tok ≠ 99
  · unfold tracklistItem at hr
    simp only [hread, if_pos hno] at hr
    cases (Prod.mk.inj (Option.some.inj hr)).1
  rw [tracklistItem_rest hread hno] at hm hr
  by_cases hn : n = 0
  · have hc : s.byte tok = 99 := not_not.1 fun h => hno ⟨hn, h⟩
    simp only [if_pos hn] at hm hr
    obtain ⟨r, term, htext, hcomma, hterm, htaken⟩ := trackRest_means (a := none) rfl hm hr
    refine ⟨99 :: r, term, ?_, by simpa using hcomma, ?_, htaken⟩
    · rw [drop_byte (by decide) hc, htext]
      rfl
    · rw [trackTerm, readHead_current]
      exact hterm
  · simp only [if_neg hn] at hm hr
    obtain ⟨t, ht, hnum, hsplit⟩ := number_split (s := s) (i := tok) (by rw [hread]; exact hn)
    obtain ⟨rfl, rfl⟩ := Prod.mk.inj (hread.symm.trans hnum)
    obtain ⟨r, term, htext, hcomma, hterm, htaken⟩ := trackRest_means (a := some (written t)) rfl hm hr
    refine ⟨t ++ r, term, ?_, ?_, ?_, htaken⟩
    · rw [hsplit, htext, List.append_assoc]
    · rw [List.mem_append, not_or]
      exact ⟨ht.not_mem endsNumber_comma, hcomma⟩
    · rw [trackTerm, readHead_number ht (readRest_digit hterm)]
      exact hterm

/-- What is taken for a text. -/
def takenFor (lib : Library) (p : List UInt8) : List ℤ := (trackTerm p).elim [] (TrackTerm.taken lib)

/-- **The loop in `val_tracklist`** takes the pieces between the commas one after the other. -/
theorem tracklist_pieces {n fuel : ℕ} (hm : Told sv lib (Prog.loop (tracklistBody s) fuel (tok, idl)) sent)
    (hr : (Prog.loop (tracklistBody s) fuel (tok, idl)).run sv.op sent = some ((some idl', n), sent')) :
    ∃ ps, ps ≠ [] ∧ (∀ p ∈ ps, 44 ∉ p) ∧ (s.drop tok).bytes = [44].intercalate ps ++ (s.drop n).bytes ∧
      (InRange (ps.flatMap fun p => (trackTerm p).elim [] TrackTerm.nums) →
        idl' = idl ++ ps.flatMap (takenFor lib)) := by
  induction fuel generalizing tok idl sent with
  | zero => cases hr
  | succ fuel ih =>
    rw [Prog.loop, tracklistBody, Prog.bind_assoc, Prog.run_bind] at hr
    rw [Prog.loop, tracklistBody, Prog.bind_assoc] at hm
    obtain ⟨⟨o, sent₁⟩, hrun, hr⟩ := Option.bind_eq_some_iff.1 hr
    obtain ⟨hitem, hm⟩ := told_bind.1 hm
    replace hm := hm _ hrun
    rcases o with _ | ⟨idl₁, tok₁⟩
    · cases (Prod.mk.inj (Option.some.inj hr)).1
    obtain ⟨p, term, htext, hcomma, hterm, htaken⟩ := tracklistItem_means hitem hrun
    by_cases hc : s.byte tok₁ ≠ 44
    · simp only [if_pos hc] at hr
      obtain ⟨h, rfl⟩ := Prod.mk.inj (Option.some.inj hr)
      obtain ⟨rfl, rfl⟩ : idl₁ = idl' ∧ tok₁ = n := by simpa using h
      refine ⟨[p], List.cons_ne_nil _ _, List.forall_mem_singleton.2 hcomma, by simpa using htext, fun hrange => ?_⟩
      rw [List.flatMap_singleton, hterm] at hrange
      rw [htaken hrange, List.flatMap_singleton, takenFor, hterm]
      rfl
    · simp only [if_neg hc] at hm hr
      obtain ⟨ps, hne, hps, htext', htaken'⟩ := ih hm hr
      refine ⟨p :: ps, List.cons_ne_nil _ _, List.forall_mem_cons.2 ⟨hcomma, hps⟩, ?_, fun hrange => ?_⟩
      · rw [htext, drop_byte (by decide) (not_not.1 hc), htext', intercalate_cons, tailOf, if_neg hne]
        simp
      · rw [List.flatMap_cons, hterm] at hrange
        rw [htaken' fun z hz => hrange z (List.mem_append_right _ hz),
          htaken fun z hz => hrange z (List.mem_append_left _ hz), List.flatMap_cons, takenFor, hterm,
          List.append_assoc]
        rfl

theorem taken_cases (lib : Library) (p : List UInt8) :
    takenFor lib p = (trackTerm p).elim [] (TrackTerm.ids lib) ∨ takenFor lib p = [] := by
  rw [takenFor]
  cases trackTerm p with
  | none => exact Or.inl rfl
  | some term =>
    cases term with
    | position a n =>
      cases a with
      | none => exact Or.inr rfl
      | some a => exact Or.inl rfl
    | track a => exact Or.inl rfl
    | album a => exact Or.inl rfl
    | span a n m => exact Or.inl rfl

theorem taken_iff (lib : Library) (p : List UInt8) : takenFor lib p = (trackTerm p).elim [] (TrackTerm.ids lib) ↔
    ∀ n, trackTerm p = some (.position none n) → lib.track none n = none := by
  rw [takenFor]
  constructor
  · rintro h n hp
    rw [hp] at h
    have hnil : [] = (lib.track none n).toList.map DucTrack.id := h
    cases ht : lib.track none n with
    | none => rfl
    | some t =>
      rw [ht] at hnil
      cases hnil
  · intro h
    cases hp : trackTerm p with
    | none => rfl
    | some term =>
      cases term with
      | position a n =>
        cases a with
        | none =>
          change [] = (lib.track none n).toList.map DucTrack.id
          rw [h n hp]
          rfl
        | some a => rfl
      | track a => rfl
      | album a => rfl
      | span a n m => rfl

theorem take_of_split {n : ℕ} (h : s.bytes = t ++ (s.drop n).bytes) : s.bytes.take n = t := by
  have hsplit : s.bytes.take n ++ s.bytes.drop n = t ++ s.bytes.drop n := (List.take_append_drop n s.bytes).trans h
  exact List.append_cancel_right hsplit

/-- **`val_tracklist`** gives the ids that its text denotes, but for positions on the current track's album. -/
theorem valTracklist_means {ids : List ℤ} {n : ℕ} (hm : Told sv lib (valTracklist s) sent)
    (hr : (valTracklist s).run sv.op sent = some ((some ids, n), sent'))
    (hrange : InRange (Spelling.tracks.nums (s.bytes.take n))) :
    ids = Spelling.tracks.ids lib (s.bytes.take n) ↔ Spelling.tracks.Plain lib (s.bytes.take n) := by
  obtain ⟨ps, hne, hps, htext, htaken⟩ := tracklist_pieces hm hr
  have htake : s.bytes.take n = [44].intercalate ps := take_of_split htext
  have hsplit : (s.bytes.take n).splitOn 44 = ps := by rw [htake, List.splitOn_intercalate 44 hps hne]
  rw [Spelling.nums, hsplit] at hrange
  rw [Spelling.ids, Spelling.Plain, hsplit, htaken hrange, List.nil_append, flatMap_eq_iff fun p _ => taken_cases lib p]
  exact forall₂_congr fun p _ => taken_iff lib p

/-! ## A track -/

theorem trackTerm_position (ht : IsNumber t) {t' : List UInt8} (ht' : IsNumber t') :
    trackTerm (t ++ 47 :: t') = some (.position (some (written t)) (written t')) := by
  have hpos := readPositions_number (a := some (written t)) (r := []) ht' (by simp)
  rw [List.append_nil] at hpos
  rw [trackTerm, readHead_number ht (by simp [isdigit])]
  exact hpos

theorem trackTerm_number (ht : IsNumber t) : trackTerm t = some (.track (some (written t))) := by
  have hhead := readHead_number (r := []) ht (by simp)
  rw [List.append_nil] at hhead
  rw [trackTerm, hhead]
  rfl

section Track

variable {n : ℕ} (hm : Told sv lib (valTrack s) sent) (hr : (valTrack s).run sv.op sent = some ((z, n), sent'))
  (hn : n ≠ 0)

include hm hr hn

theorem valTrack_current (hc : s.byte 0 = 99) :
    [z] = Spelling.track.ids lib (s.bytes.take n) ↔ Spelling.track.Plain lib (s.bytes.take n) := by
  unfold valTrack at hm hr
  rw [if_pos hc] at hm hr
  rw [Prog.run_bind] at hr
  obtain ⟨⟨o, sent₁⟩, hrun, hr⟩ := Option.bind_eq_some_iff.1 hr
  rw [curtrack_told (told_bind.1 hm).1 hrun] at hr
  have htext : s.bytes = [99] ++ (s.drop 1).bytes := drop_byte (i := 0) (by decide) hc
  have hterm : trackTerm [99] = some (.track none) := by
    rw [trackTerm, readHead_current]
    rfl
  cases hcur : lib.current with
  | none =>
    rw [hcur] at hr
    exact absurd (Prod.mk.inj (Prod.mk.inj (Option.some.inj hr)).1).2.symm hn
  | some c =>
    rw [hcur] at hr
    obtain ⟨rfl, rfl⟩ := Prod.mk.inj (Prod.mk.inj (Option.some.inj hr)).1
    rw [take_of_split htext, Spelling.ids, Spelling.Plain, hterm]
    simp [TrackTerm.ids, hcur]

theorem valTrack_position (hc : s.byte 0 ≠ 99) (ht : IsNumber t) (hnum : uintAt s 0 = (narrow (written t), t.length))
    (htext : s.bytes = t ++ (s.drop t.length).bytes) (hslash : s.byte t.length = 47)
    (hrange : InRange (Spelling.track.nums (s.bytes.take n))) :
    [z] = Spelling.track.ids lib (s.bytes.take n) ↔ Spelling.track.Plain lib (s.bytes.take n) := by
  have hk : t.length ≠ 0 := fun h => ht.1 (List.length_eq_zero_iff.1 h)
  unfold valTrack at hm hr
  rw [if_neg hc] at hm hr
  simp only [hnum, if_neg hk, if_neg (not_not.2 hslash)] at hm hr
  rcases hread' : uintAt s (t.length + 1) with ⟨b', k'⟩
  simp only [hread'] at hm hr
  by_cases hk' : k' = 0
  · simp only [if_pos hk'] at hr
    exact absurd (Prod.mk.inj (Prod.mk.inj (Option.some.inj hr)).1).2.symm hn
  simp only [if_neg hk'] at hm hr
  obtain ⟨t', ht', hnum', htext'⟩ := number_split (s := s) (i := t.length + 1) (by rw [hread']; exact hk')
  obtain ⟨rfl, rfl⟩ := Prod.mk.inj (hread'.symm.trans hnum')
  obtain ⟨z, htrack, hrun, heq⟩ := told_pure hm hr
  obtain ⟨rfl, rfl⟩ := Prod.mk.inj heq
  have hall : s.bytes = (t ++ 47 :: t') ++ (s.drop (t.length + 1 + t'.length)).bytes := by
    rw [htext, drop_byte (by decide) hslash, htext']
    simp
  have hterm := trackTerm_position ht ht'
  rw [take_of_split hall, Spelling.nums, hterm] at hrange
  have hnarrow := narrow_inRange hrange (List.mem_append_left _ (List.mem_singleton.2 rfl))
  have hnarrow' := narrow_inRange hrange (List.mem_append_right _ (List.mem_singleton.2 rfl))
  rw [take_of_split hall, Spelling.ids, Spelling.Plain, hterm, track2id_told htrack hrun, hnarrow, hnarrow']
  cases ht : lib.track (some (written t)) (written t') with
  | none => simp [TrackTerm.ids, ht]
  | some c => simp [TrackTerm.ids, ht]

/-- **`val_track`** gives the track that its text denotes, if there is one. -/
theorem valTrack_means (hrange : InRange (Spelling.track.nums (s.bytes.take n))) :
    [z] = Spelling.track.ids lib (s.bytes.take n) ↔ Spelling.track.Plain lib (s.bytes.take n) := by
  by_cases hc : s.byte 0 = 99
  · exact valTrack_current hm hr hn hc
  by_cases hk : (uintAt s 0).2 = 0
  · unfold valTrack at hr
    rw [if_neg hc] at hr
    simp only [if_pos hk] at hr
    exact absurd (Prod.mk.inj (Prod.mk.inj (Option.some.inj hr)).1).2.symm hn
  obtain ⟨t, ht, hnum, htext⟩ := number_split hk
  rw [Nat.zero_add] at htext
  by_cases hslash : s.byte t.length = 47
  · exact valTrack_position hm hr hn hc ht hnum htext hslash hrange
  unfold valTrack at hr
  rw [if_neg hc] at hr
  simp only [hnum, if_neg (fun h => ht.1 (List.length_eq_zero_iff.1 h) : t.length ≠ 0), if_pos hslash] at hr
  obtain ⟨rfl, rfl⟩ := Prod.mk.inj (Prod.mk.inj (Option.some.inj hr)).1
  have htake : s.bytes.take t.length = t := take_of_split htext
  rw [htake, Spelling.nums, trackTerm_number ht] at hrange
  rw [htake, Spelling.ids, Spelling.Plain, trackTerm_number ht, narrow_inRange hrange (List.mem_singleton.2 rfl)]
  simp [TrackTerm.ids]

end Track

/-! ## Names -/

theorem named_name (find : Cstr → Option ℤ) {ps : List (List UInt8)} (hne : ps ≠ [])
    (h : (strtoul ([44].intercalate ps)).2 = 0) :
    namedNums ps = [] ∧ namedIds find ps = (find (.ofBytes ([44].intercalate ps))).toList := by
  cases ps with
  | nil => exact absurd rfl hne
  | cons p ps =>
    have hp : ¬ IsNumber p := by
      intro hp
      have hend : ∀ b ∈ (tailOf ps).head?, isdigit b = false := by
        rw [tailOf]
        split_ifs
        · simp
        · simp [isdigit]
      rw [intercalate_cons, (hp.read hend).1] at h
      exact hp.1 (List.length_eq_zero_iff.1 h)
    rw [namedNums, namedIds, List.takeWhile_cons_of_neg (by simpa using hp), if_neg hp]
    exact ⟨rfl, rfl⟩

/-- The names of a look-up. -/
def Finds (sv : Server) (lib : Library) (find : Cstr → Client ℤ) (f : Cstr → Option ℤ) : Prop :=
  ∀ {t sent z sent'}, Told sv lib (find t) sent → (find t).run sv.op sent = some (z, sent') → z = (f t).getD (-1)

theorem tag2id_finds : Finds sv lib ducCmdTag2id lib.tag := fun hm hr =>
  askInt_told (fun _ h => h.tag2id _ rfl) (lib.tag_fits _) hm hr

theorem sfilter2id_finds : Finds sv lib ducCmdSfilter2id lib.sfilter := fun hm hr =>
  askInt_told (fun _ h => h.sfilter2id _ rfl) (lib.sfilter_fits _) hm hr

variable {find : Cstr → Client ℤ} {f : Cstr → Option ℤ}

theorem behind_name (s : Cstr) :
    ∀ b ∈ (s.drop (s.bytes.takeWhile fun b => b ≠ TAB && b ≠ 32).length).bytes.head?, b = TAB ∨ b = 32 := by
  intro b hb
  have hdrop : (s.drop (s.bytes.takeWhile fun b => b ≠ TAB && b ≠ 32).length).bytes =
      s.bytes.dropWhile fun b => b ≠ TAB && b ≠ 32 := by
    have hsplit := List.takeWhile_append_dropWhile (p := fun b => b ≠ TAB && b ≠ 32) (l := s.bytes)
    exact (congrArg (List.drop _) hsplit.symm).trans List.drop_left
  have hnot := List.head?_dropWhile_not (fun b => decide (b ≠ TAB) && decide (b ≠ 32)) s.bytes
  rw [← hdrop, Option.mem_def.1 hb] at hnot
  by_contra hno
  simp [not_or.1 hno] at hnot

/-- **A number or a name**: a name goes to a blank, a tab or the end. -/
theorem valNamed_means (hfind : Finds sv lib find f) {n : ℕ} (hm : Told sv lib (valNamed find s) sent)
    (hr : (valNamed find s).run sv.op sent = some ((z, n), sent')) (hn : n ≠ 0) :
    ∃ t, s.bytes = t ++ (s.drop n).bytes ∧ t.length = n ∧ ((IsNumber t ∧ z = narrow (written t)) ∨
      ((strtoul t).2 = 0 ∧ f (.ofBytes t) = some z ∧ s.byte n ≠ 44)) := by
  unfold valNamed at hm hr
  rcases hread : uintAt s 0 with ⟨id, k⟩
  simp only [hread] at hm hr
  by_cases hk : k ≠ 0
  · rw [if_pos hk] at hr
    obtain ⟨rfl, rfl⟩ := Prod.mk.inj (Prod.mk.inj (Option.some.inj hr)).1
    obtain ⟨t, ht, hnum, htext⟩ := number_split (s := s) (i := 0) (by rw [hread]; exact hk)
    obtain ⟨rfl, rfl⟩ := Prod.mk.inj (hread.symm.trans hnum)
    rw [Nat.zero_add] at htext
    exact ⟨t, htext, rfl, Or.inl ⟨ht, rfl⟩⟩
  · rw [if_neg hk] at hm hr
    set len := (s.bytes.takeWhile fun b => b ≠ TAB && b ≠ 32).length with hlen
    have hbehind := behind_name s
    rw [← hlen] at hbehind
    by_cases hlong : 10 ≤ len
    · rw [if_pos hlong] at hr
      exact absurd (Prod.mk.inj (Prod.mk.inj (Option.some.inj hr)).1).2.symm hn
    rw [if_neg hlong] at hm hr
    rw [Prog.run_bind] at hr
    obtain ⟨⟨id', sent₁⟩, hrun, hr⟩ := Option.bind_eq_some_iff.1 hr
    have hid := hfind (told_bind.1 hm).1 hrun
    dsimp only at hr
    split_ifs at hr with hneg
    · exact absurd (Prod.mk.inj (Prod.mk.inj (Option.some.inj hr)).1).2.symm hn
    obtain ⟨rfl, hn'⟩ := Prod.mk.inj (Prod.mk.inj (Option.some.inj hr)).1
    have hle : len ≤ s.bytes.length := (List.takeWhile_prefix _).length_le
    obtain rfl : len = n := hn'
    have hzero : (strtoul s.bytes).2 = 0 :=
      (congrArg Prod.snd ((uintAt_eq s 0).symm.trans hread)).trans (not_not.1 hk)
    refine ⟨s.bytes.take len, (List.take_append_drop len s.bytes).symm,
      List.length_take_of_le (List.takeWhile_prefix _).length_le, Or.inr ⟨?_, ?_, fun hcomma => ?_⟩⟩
    · refine strtoul_prefix (r := (s.drop len).bytes) (fun b hb => ?_) ?_
      · rcases hbehind b hb with rfl | rfl
        · rfl
        · rfl
      · rw [← hzero]
        exact congrArg (fun t => (strtoul t).2) (List.take_append_drop len s.bytes)
    · have hname : Cstr.ofBytes (s.bytes.take len) = s.take len := Cstr.ofBytes_eq (s.take len).free
      rw [hname]
      cases hf : f (s.take len) with
      | none =>
        rw [hf] at hid
        subst hid
        exact absurd (by decide) hneg
      | some y =>
        rw [hf] at hid
        exact congrArg some hid.symm
    · have hhead := drop_byte (by decide) hcomma
      rcases hbehind 44 (by rw [hhead]; rfl) with h | h
      · cases h
      · cases h

theorem named_number (f : Cstr → Option ℤ) (ht : IsNumber t) (ps : List (List UInt8)) :
    namedNums (t :: ps) = written t :: namedNums ps ∧ namedIds f (t :: ps) = written t :: namedIds f ps := by
  rw [namedNums, namedIds, List.takeWhile_cons_of_pos (by simpa using ht), if_pos ht]
  exact ⟨rfl, rfl⟩

/-- **The loop in `idl_addclist`** takes numbers, and a name at the end. -/
theorem clist_named (hfind : Finds sv lib find f) {n fuel ret added : ℕ}
    (hm : Told sv lib (Prog.loop (addclistBody (valNamed find) s) fuel (tok, idl, added)) sent)
    (hr : (Prog.loop (addclistBody (valNamed find) s) fuel (tok, idl, added)).run sv.op sent =
      some ((ret, idl', n), sent')) (hn : n ≠ 0) :
    ∃ t, (s.drop tok).bytes = t ++ (s.drop n).bytes ∧
      (InRange (namedNums (t.splitOn 44)) → idl' = idl ++ namedIds f (t.splitOn 44)) := by
  induction fuel generalizing tok idl added sent with
  | zero => cases hr
  | succ fuel ih =>
    rw [Prog.loop, addclistBody, Prog.bind_assoc] at hm hr
    rw [Prog.run_bind] at hr
    obtain ⟨⟨⟨id, k⟩, sent₁⟩, hrun, hr⟩ := Option.bind_eq_some_iff.1 hr
    obtain ⟨hconv, hm⟩ := told_bind.1 hm
    replace hm := hm _ hrun
    dsimp only at hm hr
    by_cases hk : k = 0
    · rw [if_pos hk] at hr
      exact absurd (Prod.mk.inj (Prod.mk.inj (Prod.mk.inj (Option.some.inj hr)).1).2).2.symm hn
    rw [if_neg hk] at hm hr
    obtain ⟨t, htext, rfl, hcase⟩ := valNamed_means hfind hconv hrun hk
    have hdrop : ((s.drop tok).drop t.length).bytes = (s.drop (tok + t.length)).bytes := List.drop_drop
    have hbyte : (s.drop tok).byte t.length = s.byte (tok + t.length) := by rw [byte_eq, byte_eq, hdrop]
    rw [hdrop] at htext
    rw [hbyte] at hcase
    by_cases hc : s.byte (tok + t.length) ≠ 44
    · rw [if_pos hc] at hr
      obtain ⟨-, hend⟩ := Prod.mk.inj (Prod.mk.inj (Option.some.inj hr)).1
      obtain ⟨rfl, rfl⟩ := Prod.mk.inj hend
      refine ⟨t, htext, fun hrange => congrArg (idl ++ ·) ?_⟩
      rcases hcase with ⟨ht, rfl⟩ | ⟨hzero, hf, -⟩
      · rw [List.splitOn_eq_singleton (ht.not_mem endsNumber_comma)] at hrange ⊢
        rw [(named_number f ht []).1] at hrange
        rw [(named_number f ht []).2, narrow_inRange hrange List.mem_cons_self]
        rfl
      · have hname := (named_name f (List.splitOn_ne_nil 44 t) (by rwa [List.intercalate_splitOn])).2
        rw [hname, List.intercalate_splitOn, hf]
        rfl
    · rw [if_neg hc] at hm hr
      obtain ⟨t', htext', htaken⟩ := ih hm hr
      rcases hcase with ⟨ht, rfl⟩ | ⟨-, -, hno⟩
      · refine ⟨t ++ 44 :: t', ?_, fun hrange => ?_⟩
        · rw [htext, drop_byte (by decide) (not_not.1 hc), htext', List.append_assoc]
          rfl
        · have hsplit := List.splitOn_append_cons_self_of_not_mem (ht.not_mem endsNumber_comma) t'
          rw [hsplit, (named_number f ht _).1] at hrange
          rw [hsplit, (named_number f ht _).2, htaken fun z hz => hrange z (List.mem_cons_of_mem _ hz),
            narrow_inRange hrange List.mem_cons_self]
          simp
      · exact absurd (not_not.1 hc) hno

/-- **A single number or name.** -/
theorem valNamed_ids (hfind : Finds sv lib find f) {n : ℕ} (hm : Told sv lib (valNamed find s) sent)
    (hr : (valNamed find s).run sv.op sent = some ((z, n), sent')) (hn : n ≠ 0)
    (hrange : InRange (namedNums [s.bytes.take n])) : [z] = namedIds f [s.bytes.take n] := by
  obtain ⟨t, htext, -, hcase⟩ := valNamed_means hfind hm hr hn
  rw [take_of_split htext] at hrange ⊢
  rcases hcase with ⟨ht, rfl⟩ | ⟨hzero, hf, -⟩
  · rw [(named_number f ht []).1] at hrange
    rw [(named_number f ht []).2, narrow_inRange hrange List.mem_cons_self]
    rfl
  · rw [(named_name f (List.cons_ne_nil t []) (by simpa using hzero)).2]
    simp [hf]

theorem valTag_means {n : ℕ} (hm : Told sv lib (valTag s) sent)
    (hr : (valTag s).run sv.op sent = some ((z, n), sent')) (hn : n ≠ 0)
    (hrange : InRange (Spelling.tag.nums (s.bytes.take n))) : [z] = Spelling.tag.ids lib (s.bytes.take n) :=
  valNamed_ids tag2id_finds hm hr hn hrange

theorem valSfilter_means {n : ℕ} (hm : Told sv lib (valSfilter s) sent)
    (hr : (valSfilter s).run sv.op sent = some ((z, n), sent')) (hn : n ≠ 0)
    (hrange : InRange (Spelling.sfilter.nums (s.bytes.take n))) : [z] = Spelling.sfilter.ids lib (s.bytes.take n) :=
  valNamed_ids sfilter2id_finds hm hr hn hrange

/-- **`val_taglist`** gives the ids that its text denotes. -/
theorem valTaglist_means {ids : List ℤ} {n : ℕ} (hm : Told sv lib (valTaglist s) sent)
    (hr : (valTaglist s).run sv.op sent = some ((some ids, n), sent')) (hn : n ≠ 0)
    (hrange : InRange (Spelling.tags.nums (s.bytes.take n))) : ids = Spelling.tags.ids lib (s.bytes.take n) := by
  obtain ⟨⟨ret, idl, k⟩, hm, hrun, heq⟩ := told_pure hm hr
  obtain ⟨hids, rfl⟩ := Prod.mk.inj heq
  obtain rfl := Option.some.inj hids
  obtain ⟨t, htext, htaken⟩ := clist_named tag2id_finds hm hrun hn
  have htext : s.bytes = t ++ (s.drop k).bytes := htext
  rw [take_of_split htext] at hrange ⊢
  exact htaken hrange

/-! ## Ids in range -/

theorem TrackTerm.ids_inRange (lib : Library) {term : TrackTerm} (h : InRange term.nums) :
    InRange (term.ids lib) := by
  intro z hz
  cases term with
  | track a =>
    cases a with
    | none =>
      obtain ⟨c, hc, rfl⟩ := List.mem_map.1 hz
      exact DucTrack.inRange (lib.current_fits c (Option.mem_toList.1 hc))
    | some b => exact h z hz
  | album a =>
    obtain ⟨c, hc, rfl⟩ := List.mem_map.1 hz
    exact lib.on_fits a c hc
  | position a n =>
    obtain ⟨c, hc, rfl⟩ := List.mem_map.1 hz
    exact lib.on_fits a c (List.mem_of_find?_eq_some (Option.mem_toList.1 hc))
  | span a n m =>
    obtain ⟨c, hc, rfl⟩ := List.mem_map.1 hz
    exact lib.on_fits a c (List.mem_of_mem_filter hc)

theorem namedIds_inRange (hf : ∀ t, ∀ z ∈ f t, 0 ≤ z ∧ z ≤ INT_MAX) {ps : List (List UInt8)}
    (h : InRange (namedNums ps)) : InRange (namedIds f ps) := by
  induction ps with
  | nil => exact List.forall_mem_nil _
  | cons p ps ih =>
    by_cases hp : IsNumber p
    · rw [(named_number f hp ps).1] at h
      rw [(named_number f hp ps).2]
      obtain ⟨hhead, hrest⟩ := List.forall_mem_cons.1 h
      exact List.forall_mem_cons.2 ⟨hhead, ih hrest⟩
    · rw [namedIds, if_neg hp]
      exact fun z hz => hf _ z (Option.mem_toList.1 hz)

theorem listed_inRange (h : InRange (numbers t)) : InRange (listed t) := by
  intro z hz
  obtain ⟨b, hb, hz⟩ := List.mem_flatMap.1 hz
  obtain ⟨hlo, hhi⟩ := mem_idRange.1 hz
  have h1 := h b.1 (List.mem_flatMap.2 ⟨b, hb, List.mem_cons_self⟩)
  have h2 := h b.2 (List.mem_flatMap.2 ⟨b, hb, List.mem_cons_of_mem _ List.mem_cons_self⟩)
  exact ⟨h1.1.trans hlo, hhi.trans h2.2⟩

/-- **The ids that a text denotes** are within 0..INT_MAX if its numbers are. -/
theorem Spelling.ids_inRange (lib : Library) (sp : Spelling) (h : InRange (sp.nums t)) : InRange (sp.ids lib t) := by
  have hterm {p : List UInt8} (h : InRange ((trackTerm p).elim [] TrackTerm.nums)) :
      InRange ((trackTerm p).elim [] (TrackTerm.ids lib)) := by
    cases hp : trackTerm p with
    | none => exact List.forall_mem_nil _
    | some term =>
      rw [hp] at h
      exact term.ids_inRange lib h
  cases sp with
  | number => exact h
  | list => exact listed_inRange h
  | track => exact hterm h
  | tracks => exact List.forall_mem_flatMap.2 fun p hp => hterm (List.forall_mem_flatMap.1 h p hp)
  | tag => exact namedIds_inRange lib.tag_fits h
  | tags => exact namedIds_inRange lib.tag_fits h
  | sfilter => exact namedIds_inRange lib.sfilter_fits h

/-! ## Arguments -/

/-- The ids that a value stands for. -/
def ArgVal.ids : ArgVal → List ℤ
  | .int z => [z]
  | .idl ids => ids
  | _ => []

/-- The names of the arguments that are ids or lists of ids, with their spelling. -/
def idSpellings : List (Cstr × Spelling) :=
  [(.lit "idlist", .list), (.lit "userid", .number), (.lit "useridlist", .list), (.lit "trackid", .track),
    (.lit "trackidlist", .tracks), (.lit "taglist", .tags), (.lit "tag", .tag), (.lit "artistid", .number),
    (.lit "albumid", .number), (.lit "sfilter", .sfilter)]

/-- How the argument spells ids, if it does. -/
def TCmdArg.spelling (arg : TCmdArg) : Option Spelling := idSpellings.lookup arg.name

/-- A value of the argument has the ids that its text denotes just when the text is plain. -/
def TCmdArg.Means (arg : TCmdArg) (sp : Spelling) : Prop :=
  ∀ sv lib s sent v n sent', Told sv lib (arg.parse s) sent →
    (arg.parse s).run sv.op sent = some ((v, n), sent') → n ≠ 0 → InRange (sp.nums (s.bytes.take n)) →
      (v.ids = sp.ids lib (s.bytes.take n) ↔ sp.Plain lib (s.bytes.take n))

variable {arg : TCmdArg} {sp : Spelling}

theorem means_int {parse : Cstr → Client (ℤ × ℕ)} (harg : arg.parse = apInt parse)
    (h : ∀ {sv lib s sent z n sent'}, Told sv lib (parse s) sent → (parse s).run sv.op sent = some ((z, n), sent') →
      n ≠ 0 → InRange (sp.nums (s.bytes.take n)) →
        ([z] = sp.ids lib (s.bytes.take n) ↔ sp.Plain lib (s.bytes.take n))) : arg.Means sp := by
  intro sv lib s sent v n sent' hm hr hn hrange
  rw [harg] at hm hr
  obtain ⟨⟨z, k⟩, hm, hrun, heq⟩ := told_pure hm hr
  obtain ⟨rfl, rfl⟩ := Prod.mk.inj heq
  exact h hm hrun hn hrange

theorem means_idl {parse : Cstr → Client (Option (List ℤ) × ℕ)} (harg : arg.parse = apIdl parse)
    (hsome : ∀ s, (parse s).Always fun p => p.2 ≠ 0 → p.1.isSome)
    (h : ∀ {sv lib s sent ids n sent'}, Told sv lib (parse s) sent →
      (parse s).run sv.op sent = some ((some ids, n), sent') → n ≠ 0 → InRange (sp.nums (s.bytes.take n)) →
        (ids = sp.ids lib (s.bytes.take n) ↔ sp.Plain lib (s.bytes.take n))) : arg.Means sp := by
  intro sv lib s sent v n sent' hm hr hn hrange
  rw [harg] at hm hr
  obtain ⟨⟨o, k⟩, hm, hrun, heq⟩ := told_pure hm hr
  obtain ⟨rfl, rfl⟩ := Prod.mk.inj heq
  obtain ⟨ids, rfl⟩ := Option.isSome_iff_exists.1 ((hsome s).run hrun hn)
  exact h hm hrun hn hrange

theorem valUint_means {n : ℕ} (hr : (valUint s).run sv.op sent = some ((z, n), sent')) (hn : n ≠ 0)
    (hrange : InRange (Spelling.number.nums (s.bytes.take n))) : [z] = Spelling.number.ids lib (s.bytes.take n) := by
  have hread : uintAt s 0 = (z, n) := (Prod.mk.inj (Option.some.inj hr)).1
  obtain ⟨t, ht, hnum, htext⟩ := number_split (s := s) (i := 0) (by rw [hread]; exact hn)
  obtain ⟨rfl, rfl⟩ := Prod.mk.inj (hread.symm.trans hnum)
  rw [Nat.zero_add] at htext
  have htake : s.bytes.take t.length = t := take_of_split htext
  rw [htake] at hrange ⊢
  rw [narrow_inRange hrange (List.mem_singleton.2 rfl)]
  rfl

theorem listed_means {ids : List ℤ} {n : ℕ} (h : ∃ log : AddLog, (∀ e ∈ log, EntryOk e) ∧
      bounds (s.bytes.take n) = log.map Prod.fst ∧ log.ids = ids)
    (hrange : InRange (Spelling.list.nums (s.bytes.take n))) : ids = Spelling.list.ids lib (s.bytes.take n) := by
  obtain ⟨log, hlog, hbounds, rfl⟩ := h
  exact entries_listed hlog hbounds fun z hz => narrow_inRange hrange hz

theorem valIdlist_pure {o : Option (List ℤ)} {n : ℕ} (hr : (valIdlist s).run sv.op sent = some ((o, n), sent')) :
    valIdlist s = pure (o, n) := by
  rcases hadd : idlAddlist [] s with _ | ⟨ret, idl, k⟩
  · rw [valIdlist, hadd] at hr
    cases hr
  · rw [valIdlist, hadd] at hr ⊢
    exact congrArg pure (Prod.mk.inj (Option.some.inj hr)).1

theorem valUserlist_pure {o : Option (List ℤ)} {n : ℕ} (hr : (valUserlist s).run sv.op sent = some ((o, n), sent')) :
    valUserlist s = pure (o, n) := by
  have hbody (p : ℕ × List ℤ × ℕ) : ∃ r, addclistBody valUser s p = pure r := by
    change ∃ r, (if (uintAt (s.drop p.1) 0).2 = 0 then _ else if s.byte (p.1 + (uintAt (s.drop p.1) 0).2) ≠ 44 then _
      else _) = _
    split_ifs
    · exact ⟨_, rfl⟩
    · exact ⟨_, rfl⟩
    · exact ⟨_, rfl⟩
  unfold valUserlist valClist at hr ⊢
  rw [Prog.run_bind] at hr
  obtain ⟨⟨p, sent₁⟩, hrun, hr⟩ := Option.bind_eq_some_iff.1 hr
  rw [idlAddclist, Prog.loop_pure hbody _ _ hrun]
  exact congrArg Prog.ret (Prod.mk.inj (Option.some.inj hr)).1

/-- If the argument is ids, it means what it spells. -/
def TCmdArg.Meaningful (arg : TCmdArg) : Prop := ∀ sp, arg.spelling = some sp → arg.Means sp

theorem TCmdArg.Means.meaningful (h : arg.Means sp) (hsp : arg.spelling = some sp) : arg.Meaningful := fun _ h' =>
  Option.some.inj (hsp.symm.trans h') ▸ h

theorem meaningful_other (hsp : arg.spelling = none) : arg.Meaningful := fun _ h => by
  rw [hsp] at h
  cases h

theorem argIdlist_means : argIdlist.Means .list :=
  means_idl rfl valIdlist_some fun _ hr hn hrange =>
    iff_of_true (listed_means (idlist_entries (valIdlist_pure hr) hn) hrange) trivial

theorem argUserlist_means : argUserlist.Means .list :=
  means_idl rfl (valClist_some _) fun _ hr hn hrange =>
    iff_of_true (listed_means (readsNumbers_entries (clist_numbers convertsNumbers_user (valUserlist_pure hr) hn))
      hrange) trivial

theorem argTracklist_means : argTracklist.Means .tracks :=
  means_idl rfl valTracklist_some fun hm hr _ hrange => valTracklist_means hm hr hrange

theorem argTaglist_means : argTaglist.Means .tags :=
  means_idl rfl (valClist_some _) fun hm hr hn hrange => iff_of_true (valTaglist_means hm hr hn hrange) trivial

theorem argTrack_means : argTrack.Means .track := means_int rfl fun hm hr hn hrange => valTrack_means hm hr hn hrange

theorem argTag_means : argTag.Means .tag :=
  means_int rfl fun hm hr hn hrange => iff_of_true (valTag_means hm hr hn hrange) trivial

theorem argSfilter_means : argSfilter.Means .sfilter :=
  means_int rfl fun hm hr hn hrange => iff_of_true (valSfilter_means hm hr hn hrange) trivial

theorem means_number (harg : arg.parse = apInt valUint) : arg.Means .number :=
  means_int harg fun _ hr hn hrange => iff_of_true (valUint_means hr hn hrange) trivial

/-- **The arguments of all commands** mean what they spell. -/
theorem cmdsTop_meaningful : ∀ cmd ∈ cmdsTop, ∀ arg ∈ cmd.args, arg.Meaningful := by
  have hidlist := argIdlist_means.meaningful rfl
  have huserlist := argUserlist_means.meaningful rfl
  have htracklist := argTracklist_means.meaningful rfl
  have htaglist := argTaglist_means.meaningful rfl
  have htrack := argTrack_means.meaningful rfl
  have htag := argTag_means.meaningful rfl
  have hsfilter := argSfilter_means.meaningful rfl
  have huser : argUser.Meaningful := (means_number rfl).meaningful rfl
  have hartist : argArtist.Meaningful := (means_number rfl).meaningful rfl
  have halbum : argAlbum.Meaningful := (means_number rfl).meaningful rfl
  have hrcmd : argRcmd.Meaningful := meaningful_other rfl
  have hname : argName.Meaningful := meaningful_other rfl
  have hcmd : argCmd.Meaningful := meaningful_other rfl
  have hstring : argString.Meaningful := meaningful_other rfl
  have hright : argRight.Meaningful := meaningful_other rfl
  have htime : argTime.Meaningful := meaningful_other rfl
  have hbool : argBool.Meaningful := meaningful_other rfl
  have honum : argOnum.Meaningful := meaningful_other rfl
  have hyear : argYear.Meaningful := meaningful_other rfl
  have hrgtype : argRgtype.Meaningful := meaningful_other rfl
  have hdecibel : argDecibel.Meaningful := meaningful_other rfl
  simp only [cmdsTop, argsNone, argsTime, argsIdlist, argsUserlist, argsName, argsCmd, argsBool, argsTracklist,
    argsTrackname, argsTrackartist, argsString, argsOnum, argsTag, argsTaglist, argsSfilter, argsArtist, argsRaw,
    argsUidpass, argsUidright, argsTracknum, argsTagname, argsTagdesc, argsTracktaglist, argsAlbumartist,
    argsAlbumname, argsAlbumyear, argsArtistname, argsArtistmerge, argsSfiltername, argsSfilterfilter, argsRgtype,
    argsDecibel, List.forall_mem_cons, List.not_mem_nil, false_imp_iff, implies_true, and_true, *]

/-! ## Lines -/

/-- The argument is an id or a list of ids. -/
def TCmdArg.isId (arg : TCmdArg) : Bool := arg.spelling.isSome

/-- The ids in the values of the arguments that are ids. -/
def idLists (args : List TCmdArg) (argv : List ArgVal) : List (List ℤ) :=
  ((args.zip argv).filter fun p => p.1.isId).map fun p => p.2.ids

/-- The texts of the arguments that are ids, and how they spell them. -/
def idTexts (args : List TCmdArg) (texts : List (List UInt8)) : List (Spelling × List UInt8) :=
  (args.zip texts).filterMap fun p => p.1.spelling.map (·, p.2)

/-- **The texts of the arguments on a line**, and the values that are made of them: each text is behind white space,
and its end is where the parser sets it, at white space or the end of the line. -/
inductive Spells (sv : Server) :
    List TCmdArg → Cstr → List Request → List (List UInt8) → List ArgVal → List Request → Prop
  | nil {s : Cstr} {sent : List Request} (ends : s.bytes = []) : Spells sv [] s sent [] [] sent
  | cons {arg : TCmdArg} {args : List TCmdArg} {s : Cstr} {sent sent₁ sent' : List Request} {v : ArgVal} {n : ℕ}
      {texts : List (List UInt8)} {vs : List ArgVal} (ne : (skipSpace s).bytes ≠ [])
      (parse : (arg.parse (skipSpace s)).run sv.op sent = some ((v, n), sent₁)) (moves : n ≠ 0)
      (ends : (skipSpace s).byte n = 0 ∨ isspace ((skipSpace s).byte n) = true)
      (rest : Spells sv args ((skipSpace s).drop n) sent₁ texts vs sent') :
      Spells sv (arg :: args) s sent ((skipSpace s).bytes.take n :: texts) (v :: vs) sent'

theorem Spells.unique {args : List TCmdArg} {texts texts' : List (List UInt8)} {vs vs' : List ArgVal}
    {sent'' : List Request} (h : Spells sv args s sent texts vs sent') (h' : Spells sv args s sent texts' vs' sent'') :
    texts = texts' := by
  induction h generalizing texts' vs' sent'' with
  | nil =>
    cases h'
    rfl
  | cons _ parse _ _ _ ih =>
    cases h' with
    | cons _ parse' _ _ rest' =>
      obtain ⟨h, rfl⟩ := Prod.mk.inj (Option.some.inj (parse.symm.trans parse'))
      obtain ⟨-, rfl⟩ := Prod.mk.inj h
      rw [ih rest']

theorem argLoop_spells {args : List TCmdArg} {m : ℕ} {argv argv' : List ArgVal} {r : Cstr}
    (hr : (argLoop args s m argv).run sv.op sent = some (some (argv', r, m), sent')) (hend : r.bytes = []) :
    ∃ texts vs, argv' = argv ++ vs ∧ Spells sv args s sent texts vs sent' := by
  induction args generalizing s argv sent with
  | nil =>
    obtain ⟨h, rfl⟩ := Prod.mk.inj (Option.some.inj hr)
    obtain ⟨rfl, rfl⟩ : argv = argv' ∧ s = r := by simpa using h
    exact ⟨[], [], (List.append_nil _).symm, .nil hend⟩
  | cons arg args ih =>
    rw [argLoop_cons] at hr
    by_cases hnil : (skipSpace s).bytes = []
    · -- the argument is missing
      rw [if_pos hnil] at hr
      have := ((argLoop_makes args (skipSpace s) (m + 1) argv).run hr argv' r m rfl).1
      omega
    rw [if_neg hnil, Prog.run_bind] at hr
    obtain ⟨⟨⟨v, n⟩, sent₁⟩, hparse, hr⟩ := Option.bind_eq_some_iff.1 hr
    by_cases hbad : n = 0 ∨ ((skipSpace s).byte n ≠ 0 ∧ (!isspace ((skipSpace s).byte n)) = true)
    · rw [if_pos hbad] at hr
      cases (Prod.mk.inj (Option.some.inj hr)).1
    rw [if_neg hbad] at hr
    obtain ⟨texts, vs, rfl, hrest⟩ := ih hr
    refine ⟨_, v :: vs, by simp, .cons hnil hparse (fun hn => hbad (Or.inl hn)) ?_ hrest⟩
    by_contra hno
    rw [not_or, Bool.not_eq_true] at hno
    exact hbad (Or.inr ⟨hno.1, congrArg not hno.2⟩)

/-- **The texts of an accepted line.** -/
theorem argParse_spells {cmd : TCmd} {line : Cstr} {argv : List ArgVal}
    (hr : (argParse cmd line).run sv.op sent = some (some argv, sent')) :
    ∃ texts, Spells sv cmd.args line sent texts argv sent' := by
  rw [argParse, Prog.run_bind] at hr
  obtain ⟨⟨o, sent₁⟩, hloop, hr⟩ := Option.bind_eq_some_iff.1 hr
  rcases o with _ | ⟨argv', r, m⟩
  · cases (Prod.mk.inj (Option.some.inj hr)).1
  dsimp only at hr
  by_cases hend : r.bytes ≠ []
  · rw [if_pos hend] at hr
    cases (Prod.mk.inj (Option.some.inj hr)).1
  by_cases hm : m ≠ 0
  · rw [if_neg hend, if_pos hm] at hr
    cases (Prod.mk.inj (Option.some.inj hr)).1
  rw [if_neg hend, if_neg hm] at hr
  obtain ⟨h, rfl⟩ := Prod.mk.inj (Option.some.inj hr)
  obtain rfl := Option.some.inj h
  obtain rfl := not_not.1 hm
  obtain ⟨texts, vs, rfl, hspells⟩ := argLoop_spells hloop (not_not.1 hend)
  exact ⟨texts, hspells⟩

/-- **What the values of a line mean.** -/
theorem Spells.means {args : List TCmdArg} {texts : List (List UInt8)} {vs : List ArgVal}
    (h : Spells sv args s sent texts vs sent') (hargs : ∀ arg ∈ args, arg.Meaningful) {m : ℕ} {argv : List ArgVal}
    (hm : Told sv lib (argLoop args s m argv) sent)
    (hrange : ∀ q ∈ idTexts args texts, InRange (q.1.nums q.2)) :
    idLists args vs = (idTexts args texts).map (fun q => q.1.ids lib q.2) ↔
      ∀ q ∈ idTexts args texts, q.1.Plain lib q.2 := by
  induction h generalizing argv with
  | nil => simp [idLists, idTexts]
  | @cons arg args s sent sent₁ sent' v n texts vs ne parse moves ends rest ih =>
    have hok : ¬ (n = 0 ∨ ((skipSpace s).byte n ≠ 0 ∧ (!isspace ((skipSpace s).byte n)) = true)) := by
      rcases ends with ends | ends <;> simp [moves, ends]
    rw [argLoop_cons, if_neg ne] at hm
    obtain ⟨hparse, hm⟩ := told_bind.1 hm
    replace hm := hm _ parse
    rw [if_neg hok] at hm
    obtain ⟨harg, hargs⟩ := List.forall_mem_cons.1 hargs
    cases hsp : arg.spelling with
    | none =>
      have hlists : idLists (arg :: args) (v :: vs) = idLists args vs := by simp [idLists, TCmdArg.isId, hsp]
      have htexts : ∀ t, idTexts (arg :: args) (t :: texts) = idTexts args texts := by simp [idTexts, hsp]
      rw [htexts] at hrange ⊢
      rw [hlists]
      exact ih hargs hm hrange
    | some sp =>
      have hlists : idLists (arg :: args) (v :: vs) = v.ids :: idLists args vs := by simp [idLists, TCmdArg.isId, hsp]
      have htexts : ∀ t, idTexts (arg :: args) (t :: texts) = (sp, t) :: idTexts args texts := by simp [idTexts, hsp]
      rw [htexts] at hrange ⊢
      obtain ⟨hhead, hrange⟩ := List.forall_mem_cons.1 hrange
      rw [hlists, List.map_cons, List.cons.injEq, List.forall_mem_cons, ih hargs hm hrange,
        harg sp hsp _ _ _ _ _ _ _ hparse parse moves hhead]

end Dudlc
