import Dudlc.Lib.Fields

/-!
# The records of the reply lines

The parsers of `artist.c`, `album.c`, `track.c`, `user.c`, `client.c`, `queue.c`, `history.c`, `tag.c` and
`sfilter.c`. They read a line where it stands in memory. Between two fields they step over the byte at
which the first one ended (`s = e+1`), which is the terminator when a line has too few fields.
Allocation succeeds.

* `ducFielddup` and the nine parsers.
* **`records_line_iff`**: a parser looks at its own line only just when the line has enough fields.
-/

namespace Dudlc

open Lib

/-- The loop of `_duc_fielddup` over the bytes of a field; `escape` is set behind a backslash. -/
def unescape : Bool → List UInt8 → List UInt8
  | _, [] => []
  | true, c :: cs => (if c = 116 then TAB else c) :: unescape false cs
  | false, c :: cs => if c = 92 then unescape true cs else c :: unescape false cs

/-- `_duc_fielddup` -/
def ducFielddup : Reader (List UInt8) := text (unescape false)

/-! ## Parsers -/

/-- `duc_artist` -/
structure DucArtist where
  id : ℤ
  artist : List UInt8
  deriving DecidableEq

/-- `_duc_artist_parse` -/
def ducArtistParse : Reader DucArtist := record <|
  number.sep fun id => ducFielddup.map fun artist => { id, artist }

/-- `duc_album` -/
structure DucAlbum where
  id : ℤ
  album : List UInt8
  artist : DucArtist
  year : ℤ
  deriving DecidableEq

/-- `_duc_album_parse` -/
def ducAlbumParse : Reader DucAlbum := record <|
  number.sep fun id => ducFielddup.sep fun album => number.sep fun year =>
    ducArtistParse.map fun artist => { id, album, year, artist }

/-- `duc_track` -/
structure DucTrack where
  id : ℤ
  album : DucAlbum
  albumnr : ℤ
  title : List UInt8
  artist : DucArtist
  duration : ℤ
  deriving DecidableEq

/-- `_duc_track_parse` -/
def ducTrackParse : Reader DucTrack := record <|
  number.sep fun id => number.sep fun albumnr => ducFielddup.sep fun title =>
    number.sep fun duration => ducArtistParse.sep fun artist =>
      ducAlbumParse.map fun album => { id, albumnr, title, duration, artist, album }

/-- `duc_user` -/
structure DucUser where
  id : ℤ
  name : List UInt8
  right : ℤ
  deriving DecidableEq

/-- `_duc_user_parse` -/
def ducUserParse : Reader DucUser := record <|
  number.sep fun id => ducFielddup.sep fun name => number.map fun right => { id, name, right }

/-- `duc_client` -/
structure DucClient where
  id : ℤ
  user : DucUser
  addr : List UInt8
  deriving DecidableEq

/-- `_duc_client_parse` -/
def ducClientParse : Reader DucClient := record <|
  number.sep fun id => ducFielddup.sep fun addr => ducUserParse.map fun user => { id, addr, user }

/-- `duc_queue` -/
structure DucQueue where
  id : ℤ
  queued : ℤ
  user : DucUser
  track : DucTrack
  deriving DecidableEq

/-- `_duc_queue_parse` -/
def ducQueueParse : Reader DucQueue := record <|
  number.sep fun id => number.sep fun queued => ducUserParse.sep fun user =>
    ducTrackParse.map fun track => { id, queued, user, track }

/-- `duc_history` -/
structure DucHistory where
  played : ℤ
  track : DucTrack
  user : DucUser
  deriving DecidableEq

/-- `_duc_history_parse` -/
def ducHistoryParse : Reader DucHistory := record <|
  number.sep fun played => ducUserParse.sep fun user =>
    ducTrackParse.map fun track => { played, user, track }

/-- `duc_tag` -/
structure DucTag where
  id : ℤ
  name : List UInt8
  desc : List UInt8
  deriving DecidableEq

/-- `_duc_tag_parse` -/
def ducTagParse : Reader DucTag := record <|
  number.sep fun id => ducFielddup.sep fun name => ducFielddup.map fun desc => { id, name, desc }

/-- `duc_sfilter` -/
structure DucSfilter where
  id : ℤ
  name : List UInt8
  filter : List UInt8
  deriving DecidableEq

/-- `_duc_sfilter_parse` -/
def ducSfilterParse : Reader DucSfilter := record <|
  number.sep fun id => ducFielddup.sep fun name => ducFielddup.map fun filter => { id, name, filter }

/-! ## Their fields -/

namespace Shape

def artist : Shape := .seq .number .text
def album : Shape := .seq .number (.seq .text (.seq .number artist))
def track : Shape := .seq .number (.seq .number (.seq .text (.seq .number (.seq artist album))))
def user : Shape := .seq .number (.seq .text .number)
def client : Shape := .seq .number (.seq .text user)
def queue : Shape := .seq .number (.seq .number (.seq user track))
def history : Shape := .seq .number (.seq user track)
def tag : Shape := .seq .number (.seq .text .text)
def sfilter : Shape := .seq .number (.seq .text .text)

end Shape

theorem reads_fielddup : Reads ducFielddup .text := reads_text _

theorem reads_artist : Reads ducArtistParse Shape.artist :=
  (reads_number.sep fun _ => reads_fielddup.map _).record

theorem reads_album : Reads ducAlbumParse Shape.album :=
  (reads_number.sep fun _ => reads_fielddup.sep fun _ => reads_number.sep fun _ =>
    reads_artist.map _).record

theorem reads_track : Reads ducTrackParse Shape.track :=
  (reads_number.sep fun _ => reads_number.sep fun _ => reads_fielddup.sep fun _ =>
    reads_number.sep fun _ => reads_artist.sep fun _ => reads_album.map _).record

theorem reads_user : Reads ducUserParse Shape.user :=
  (reads_number.sep fun _ => reads_fielddup.sep fun _ => reads_number.map _).record

theorem reads_client : Reads ducClientParse Shape.client :=
  (reads_number.sep fun _ => reads_fielddup.sep fun _ => reads_user.map _).record

theorem reads_queue : Reads ducQueueParse Shape.queue :=
  (reads_number.sep fun _ => reads_number.sep fun _ => reads_user.sep fun _ =>
    reads_track.map _).record

theorem reads_history : Reads ducHistoryParse Shape.history :=
  (reads_number.sep fun _ => reads_user.sep fun _ => reads_track.map _).record

theorem reads_tag : Reads ducTagParse Shape.tag :=
  (reads_number.sep fun _ => reads_fielddup.sep fun _ => reads_fielddup.map _).record

theorem reads_sfilter : Reads ducSfilterParse Shape.sfilter :=
  (reads_number.sep fun _ => reads_fielddup.sep fun _ => reads_fielddup.map _).record

/-- **A parser looks at its own line only**, whatever follows it in memory, just when every field of the
record but the last is followed by a byte of the line, up to the first malformed number. -/
theorem records_line_iff (line : Cstr) :
    (LineOnly ducArtistParse line.bytes ↔ Shape.artist.Enough line.bytes) ∧
    (LineOnly ducAlbumParse line.bytes ↔ Shape.album.Enough line.bytes) ∧
    (LineOnly ducTrackParse line.bytes ↔ Shape.track.Enough line.bytes) ∧
    (LineOnly ducUserParse line.bytes ↔ Shape.user.Enough line.bytes) ∧
    (LineOnly ducClientParse line.bytes ↔ Shape.client.Enough line.bytes) ∧
    (LineOnly ducQueueParse line.bytes ↔ Shape.queue.Enough line.bytes) ∧
    (LineOnly ducHistoryParse line.bytes ↔ Shape.history.Enough line.bytes) ∧
    (LineOnly ducTagParse line.bytes ↔ Shape.tag.Enough line.bytes) ∧
    (LineOnly ducSfilterParse line.bytes ↔ Shape.sfilter.Enough line.bytes) :=
  ⟨reads_artist.lineOnly_iff line.free, reads_album.lineOnly_iff line.free,
    reads_track.lineOnly_iff line.free, reads_user.lineOnly_iff line.free,
    reads_client.lineOnly_iff line.free, reads_queue.lineOnly_iff line.free,
    reads_history.lineOnly_iff line.free, reads_tag.lineOnly_iff line.free,
    reads_sfilter.lineOnly_iff line.free⟩

/-- **A name from the next line.** The line `5` has no name; the parser takes it from behind the line, and
so returns different artists for different memory there. -/
theorem artist_next_line : ¬ LineOnly ducArtistParse (Cstr.lit "5").bytes := by
  rintro ⟨r, e, -, h⟩
  have h₁ := h _ ⟨(Cstr.lit "5").bytes ++ 0 :: ((Cstr.lit "one").bytes ++ [0]), rfl⟩ [] _ rfl
  have h₂ := h _ ⟨(Cstr.lit "5").bytes ++ 0 :: ((Cstr.lit "two").bytes ++ [0]), rfl⟩ [] _ rfl
  have hne : ducArtistParse _ ⟨(Cstr.lit "5").bytes ++ 0 :: ((Cstr.lit "one").bytes ++ [0]), rfl⟩ 0 ≠
      ducArtistParse _ ⟨(Cstr.lit "5").bytes ++ 0 :: ((Cstr.lit "two").bytes ++ [0]), rfl⟩ 0 := by
    decide
  exact hne (h₁.trans h₂.symm)

end Dudlc
