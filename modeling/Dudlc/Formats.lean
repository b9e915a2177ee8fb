import Dudlc.Records
import Dudlc.Lib.Codec

/-!
# The format of the records

A record on a line: its fields in the order in which the parser reads them, separated by tabs, the numbers
in decimal, and a tab or a backslash in a text behind a backslash.

* `escape`; `DucArtist.values` and its kind: the fields of the nine records.
* `fills_artist` and its kind: what the parsers read.
* **`records_read_back`**: the parsers undo the encoding.
* **`records_faithful_iff`**: when what a parser takes from a whole line is on the line.
-/

namespace Dudlc

open Lib

/-- The encoding of a text, as the server writes it. -/
def escape : List UInt8 → List UInt8
  | [] => []
  | c :: cs => (if c = TAB then [92, 116] else if c = 92 then [92, 92] else [c]) ++ escape cs

theorem undoes_escape : Undoes (unescape false) escape where
  undo t := by
    induction t with
    | nil => rfl
    | cons c cs ih =>
      rw [escape]
      split_ifs with htab hback
      · subst htab
        simp [unescape, ih]
      · subst hback
        simp [unescape, ih]
      · simp [unescape, hback, ih]
  free t := by
    induction t with
    | nil => exact List.not_mem_nil
    | cons c cs ih =>
      rw [escape, List.mem_append, not_or]
      refine ⟨?_, ih⟩
      split_ifs with htab hback
      · decide
      · decide
      · simpa using Ne.symm htab
  string t ht := by
    induction t with
    | nil => exact ht
    | cons c cs ih =>
      rw [List.mem_cons, not_or] at ht
      rw [escape, List.mem_append, not_or]
      refine ⟨?_, ih ht.2⟩
      split_ifs
      · decide
      · decide
      · simpa using ht.1

/-! ## The fields of the records -/

def DucArtist.values (a : DucArtist) : List Value := [.number a.id, .text a.artist]

def DucAlbum.values (a : DucAlbum) : List Value :=
  [.number a.id, .text a.album, .number a.year] ++ a.artist.values

def DucTrack.values (t : DucTrack) : List Value :=
  [.number t.id, .number t.albumnr, .text t.title, .number t.duration] ++
    (t.artist.values ++ t.album.values)

def DucUser.values (u : DucUser) : List Value := [.number u.id, .text u.name, .number u.right]

def DucClient.values (c : DucClient) : List Value := [.number c.id, .text c.addr] ++ c.user.values

def DucQueue.values (q : DucQueue) : List Value :=
  [.number q.id, .number q.queued] ++ (q.user.values ++ q.track.values)

def DucHistory.values (h : DucHistory) : List Value :=
  [.number h.played] ++ (h.user.values ++ h.track.values)

def DucTag.values (t : DucTag) : List Value := [.number t.id, .text t.name, .text t.desc]

def DucSfilter.values (s : DucSfilter) : List Value := [.number s.id, .text s.name, .text s.filter]

theorem fills_fielddup : Fills (unescape false) ducFielddup [.text] [] fun t => [.text t] := fills_text

theorem fills_artist : Fills (unescape false) ducArtistParse Shape.artist.fields [] DucArtist.values :=
  (fills_number.sep fun _ => fills_fielddup.map fun _ => rfl).record

theorem fills_album : Fills (unescape false) ducAlbumParse Shape.album.fields [] DucAlbum.values :=
  (fills_number.sep fun _ => fills_fielddup.sep fun _ => fills_number.sep fun _ =>
    fills_artist.map fun _ => rfl).record

theorem fills_track : Fills (unescape false) ducTrackParse Shape.track.fields [] DucTrack.values :=
  (fills_number.sep fun _ => fills_number.sep fun _ => fills_fielddup.sep fun _ =>
    fills_number.sep fun _ => fills_artist.sep fun _ => fills_album.map fun _ => rfl).record

theorem fills_user : Fills (unescape false) ducUserParse Shape.user.fields [] DucUser.values :=
  (fills_number.sep fun _ => fills_fielddup.sep fun _ => fills_number.map fun _ => rfl).record

theorem fills_client : Fills (unescape false) ducClientParse Shape.client.fields [] DucClient.values :=
  (fills_number.sep fun _ => fills_fielddup.sep fun _ => fills_user.map fun _ => rfl).record

theorem fills_queue : Fills (unescape false) ducQueueParse Shape.queue.fields [] DucQueue.values :=
  (fills_number.sep fun _ => fills_number.sep fun _ => fills_user.sep fun _ =>
    fills_track.map fun _ => rfl).record

theorem fills_history : Fills (unescape false) ducHistoryParse Shape.history.fields [] DucHistory.values :=
  (fills_number.sep fun _ => fills_user.sep fun _ => fills_track.map fun _ => rfl).record

theorem fills_tag : Fills (unescape false) ducTagParse Shape.tag.fields [] DucTag.values :=
  (fills_number.sep fun _ => fills_fielddup.sep fun _ => fills_fielddup.map fun _ => rfl).record

theorem fills_sfilter : Fills (unescape false) ducSfilterParse Shape.sfilter.fields [] DucSfilter.values :=
  (fills_number.sep fun _ => fills_fielddup.sep fun _ => fills_fielddup.map fun _ => rfl).record

/-! ## Records have their fields -/

theorem DucArtist.values_injective : Function.Injective DucArtist.values := by
  rintro ⟨id, artist⟩ ⟨id', artist'⟩ h
  simp only [values, List.cons.injEq, Value.number.injEq, Value.text.injEq, and_true] at h
  obtain ⟨rfl, rfl⟩ := h
  rfl

theorem DucAlbum.values_injective : Function.Injective DucAlbum.values := by
  rintro ⟨id, album, artist, year⟩ ⟨id', album', artist', year'⟩ h
  obtain ⟨h, hartist⟩ := List.append_inj h rfl
  obtain rfl := DucArtist.values_injective hartist
  simp only [List.cons.injEq, Value.number.injEq, Value.text.injEq, and_true] at h
  obtain ⟨rfl, rfl, rfl⟩ := h
  rfl

theorem DucTrack.values_injective : Function.Injective DucTrack.values := by
  rintro ⟨id, album, albumnr, title, artist, duration⟩ ⟨id', album', albumnr', title', artist', duration'⟩ h
  obtain ⟨h, hrest⟩ := List.append_inj h rfl
  obtain ⟨hartist, halbum⟩ := List.append_inj hrest rfl
  obtain rfl := DucArtist.values_injective hartist
  obtain rfl := DucAlbum.values_injective halbum
  simp only [List.cons.injEq, Value.number.injEq, Value.text.injEq, and_true] at h
  obtain ⟨rfl, rfl, rfl, rfl⟩ := h
  rfl

theorem DucUser.values_injective : Function.Injective DucUser.values := by
  rintro ⟨id, name, right⟩ ⟨id', name', right'⟩ h
  simp only [values, List.cons.injEq, Value.number.injEq, Value.text.injEq, and_true] at h
  obtain ⟨rfl, rfl, rfl⟩ := h
  rfl

theorem DucClient.values_injective : Function.Injective DucClient.values := by
  rintro ⟨id, user, addr⟩ ⟨id', user', addr'⟩ h
  obtain ⟨h, huser⟩ := List.append_inj h rfl
  obtain rfl := DucUser.values_injective huser
  simp only [List.cons.injEq, Value.number.injEq, Value.text.injEq, and_true] at h
  obtain ⟨rfl, rfl⟩ := h
  rfl

theorem DucQueue.values_injective : Function.Injective DucQueue.values := by
  rintro ⟨id, queued, user, track⟩ ⟨id', queued', user', track'⟩ h
  obtain ⟨h, hrest⟩ := List.append_inj h rfl
  obtain ⟨huser, htrack⟩ := List.append_inj hrest rfl
  obtain rfl := DucUser.values_injective huser
  obtain rfl := DucTrack.values_injective htrack
  simp only [List.cons.injEq, Value.number.injEq, and_true] at h
  obtain ⟨rfl, rfl⟩ := h
  rfl

theorem DucHistory.values_injective : Function.Injective DucHistory.values := by
  rintro ⟨played, track, user⟩ ⟨played', track', user'⟩ h
  obtain ⟨h, hrest⟩ := List.append_inj h rfl
  obtain ⟨huser, htrack⟩ := List.append_inj hrest rfl
  obtain rfl := DucUser.values_injective huser
  obtain rfl := DucTrack.values_injective htrack
  simp only [List.cons.injEq, Value.number.injEq, and_true] at h
  obtain rfl := h
  rfl

theorem DucTag.values_injective : Function.Injective DucTag.values := by
  rintro ⟨id, name, desc⟩ ⟨id', name', desc'⟩ h
  simp only [values, List.cons.injEq, Value.number.injEq, Value.text.injEq, and_true] at h
  obtain ⟨rfl, rfl, rfl⟩ := h
  rfl

theorem DucSfilter.values_injective : Function.Injective DucSfilter.values := by
  rintro ⟨id, name, filter⟩ ⟨id', name', filter'⟩ h
  simp only [values, List.cons.injEq, Value.number.injEq, Value.text.injEq, and_true] at h
  obtain ⟨rfl, rfl, rfl⟩ := h
  rfl

/-! ## Round trip -/

/-- A record is read back from its encoding when its numbers fit in `int` and its texts are C strings. -/
def ReadsBack {α : Type} (p : Reader α) (values : α → List Value) : Prop :=
  ∀ a, (∀ v ∈ values a, v.Fits) → ReadsAs p (encode escape (values a)) a

/-- **Parsing undoes encoding**, up to the end of the line or to a tab with any text behind it. -/
theorem records_read_back :
    ReadsBack ducArtistParse DucArtist.values ∧ ReadsBack ducAlbumParse DucAlbum.values ∧
    ReadsBack ducTrackParse DucTrack.values ∧ ReadsBack ducUserParse DucUser.values ∧
    ReadsBack ducClientParse DucClient.values ∧ ReadsBack ducQueueParse DucQueue.values ∧
    ReadsBack ducHistoryParse DucHistory.values ∧ ReadsBack ducTagParse DucTag.values ∧
    ReadsBack ducSfilterParse DucSfilter.values :=
  ⟨fun _ => fills_artist.reads_encoded undoes_escape DucArtist.values_injective rfl,
    fun _ => fills_album.reads_encoded undoes_escape DucAlbum.values_injective rfl,
    fun _ => fills_track.reads_encoded undoes_escape DucTrack.values_injective rfl,
    fun _ => fills_user.reads_encoded undoes_escape DucUser.values_injective rfl,
    fun _ => fills_client.reads_encoded undoes_escape DucClient.values_injective rfl,
    fun _ => fills_queue.reads_encoded undoes_escape DucQueue.values_injective rfl,
    fun _ => fills_history.reads_encoded undoes_escape DucHistory.values_injective rfl,
    fun _ => fills_tag.reads_encoded undoes_escape DucTag.values_injective rfl,
    fun _ => fills_sfilter.reads_encoded undoes_escape DucSfilter.values_injective rfl⟩

/-! ## Nothing but the format -/

/-- **What a parser takes from a whole line is on the line**, field by field, just when it reads the line
strictly: no number of the line has blanks before it or is out of the range of `int`, and what is skipped
behind a field is a tab. -/
theorem records_faithful_iff (line : Cstr) :
    (Faithful (unescape false) ducArtistParse DucArtist.values line.bytes ↔
      Shape.artist.WholeStrict line.bytes) ∧
    (Faithful (unescape false) ducAlbumParse DucAlbum.values line.bytes ↔
      Shape.album.WholeStrict line.bytes) ∧
    (Faithful (unescape false) ducTrackParse DucTrack.values line.bytes ↔
      Shape.track.WholeStrict line.bytes) ∧
    (Faithful (unescape false) ducUserParse DucUser.values line.bytes ↔
      Shape.user.WholeStrict line.bytes) ∧
    (Faithful (unescape false) ducClientParse DucClient.values line.bytes ↔
      Shape.client.WholeStrict line.bytes) ∧
    (Faithful (unescape false) ducQueueParse DucQueue.values line.bytes ↔
      Shape.queue.WholeStrict line.bytes) ∧
    (Faithful (unescape false) ducHistoryParse DucHistory.values line.bytes ↔
      Shape.history.WholeStrict line.bytes) ∧
    (Faithful (unescape false) ducTagParse DucTag.values line.bytes ↔
      Shape.tag.WholeStrict line.bytes) ∧
    (Faithful (unescape false) ducSfilterParse DucSfilter.values line.bytes ↔
      Shape.sfilter.WholeStrict line.bytes) :=
  ⟨fills_artist.faithful_iff line.free, fills_album.faithful_iff line.free,
    fills_track.faithful_iff line.free, fills_user.faithful_iff line.free,
    fills_client.faithful_iff line.free, fills_queue.faithful_iff line.free,
    fills_history.faithful_iff line.free, fills_tag.faithful_iff line.free,
    fills_sfilter.faithful_iff line.free⟩

/-- **A line without tabs is taken for an artist**, with the number 5 and the name `one`. -/
theorem artist_without_tab : ¬ Faithful (unescape false) ducArtistParse DucArtist.values
    (Cstr.lit "5 one").bytes := by
  intro h
  have hall := h _ ⟨(Cstr.lit "5 one").bytes ++ 0 :: [], rfl⟩ [] [] ⟨5, (Cstr.lit "one").bytes⟩ rfl (by decide)
  have hlen := hall.length_eq
  rw [List.splitOn_eq_singleton (by decide)] at hlen
  exact absurd hlen (by decide)

/-- A user with a tab and a backslash in the name. -/
def oddUser : DucUser := ⟨7, (Cstr.lit "a\tb\\").bytes, -1⟩

/-- The theorem for this user. -/
theorem user_read_back : encode escape oddUser.values = (Cstr.lit "7\ta\\tb\\\\\t-1").bytes ∧
    ReadsAs ducUserParse (encode escape oddUser.values) oddUser :=
  ⟨by decide +kernel, records_read_back.2.2.2.1 oddUser (by decide)⟩

end Dudlc
