import Dudlc.Client
import Dudlc.Records
import Dudlc.Lib.Decimal

/-!
# The requests of the library

The functions `duc_cmd_*` that the text client uses: a format, its arguments, and what is made of the
reply.

* `askSucc`, `askInt`, `askString`, `askDouble`, `askConv`, `askIter`: the command helpers as programs.
* The functions of `client.c`, `user.c`, `player.c`, `track.c`, `random.c`, `queue.c`, `sleep.c`,
  `history.c`, `tag.c`, `album.c`, `artist.c` and `sfilter.c`.
-/

namespace Dudlc

open Lib

/-- A parser as the converter of a line that stands alone in memory. A reply line that is too short for its record is
not modelled: it gives none here, where the parser of `lib/` reads on behind it in the receive buffer. -/
def lineConverter {α : Type} (p : Reader α) : Converter α := fun t =>
  match p (t ++ [0]).length ⟨t ++ [0], rfl⟩ 0 with
  | some (r, e) => (r, (t ++ [0]).getD e 0)
  | none => (none, 1)

/-- `_duc_cmd_succ` -/
def askSucc (fmt : Cstr) (args : List Arg) : Client ℤ := do
  match ← Prog.ask (.cmd (⟨.succ, fmt, args⟩ : Cmd Unit)) with
  | .num z => return z
  | _ => .fault

/-- `_duc_cmd_int` -/
def askInt (fmt : Cstr) (args : List Arg) : Client ℤ := do
  match ← Prog.ask (.cmd (⟨.int, fmt, args⟩ : Cmd Unit)) with
  | .num z => return z
  | _ => .fault

/-- `_duc_cmd_string` -/
def askString (fmt : Cstr) (args : List Arg) : Client (Option Cstr) := do
  match ← Prog.ask (.cmd (⟨.string, fmt, args⟩ : Cmd Unit)) with
  | .text t => return t.map Cstr.ofBytes
  | _ => .fault

/-- `_duc_cmd_double` -/
def askDouble (fmt : Cstr) (args : List Arg) : Client ℚ := do
  match ← askString fmt args with
  | some t => return (strtod t.bytes).1
  | none => return -1

/-- `_duc_cmd_conv` -/
def askConv {α : Type} (p : Reader α) (fmt : Cstr) (args : List Arg) : Client (Option α) := do
  match ← Prog.ask (.cmd ⟨.conv (lineConverter p), fmt, args⟩) with
  | .row r => return r
  | _ => .fault

/-- `_duc_it_newv`, and the walk over the records. -/
def askIter {α : Type} (p : Reader α) (fmt : Cstr) (args : List Arg) : Client (Option (List α)) := do
  match ← Prog.ask (.cmd ⟨.it (lineConverter p), fmt, args⟩) with
  | .list it => return it.map walk
  | _ => .fault

section OnSession

variable {α : Type} {ev : Handlers} {w w' : World} {fmt : Cstr} {args : List Arg}

theorem askInt_run {z : ℤ} (h : runCmd ev w (⟨.int, fmt, args⟩ : Cmd Unit) = some (.num z, w')) :
    (askInt fmt args).run (World.op ev) w = some (z, w') := by
  simp only [askInt, Prog.run_bind, Prog.run_ask, World.op, h, Option.bind_some, Prog.run_pure]

theorem askConv_run {p : Reader α} {r : Option α}
    (h : runCmd ev w ⟨.conv (lineConverter p), fmt, args⟩ = some (.row r, w')) :
    (askConv p fmt args).run (World.op ev) w = some (r, w') := by
  simp only [askConv, Prog.run_bind, Prog.run_ask, World.op, h, Option.bind_some, Prog.run_pure]

theorem askIter_run {p : Reader α} {it : Option (DucIter α)}
    (h : runCmd ev w ⟨.it (lineConverter p), fmt, args⟩ = some (.list it, w')) :
    (askIter p fmt args).run (World.op ev) w = some (it.map walk, w') := by
  simp only [askIter, Prog.run_bind, Prog.run_ask, World.op, h, Option.bind_some, Prog.run_pure]

end OnSession

/-! ## `client.c` -/

def ducCmdClientlist := askIter ducClientParse (.lit "clientlist") []
def ducCmdClientclose (id : ℤ) := askSucc (.lit "clientclose %u") [.int id]
def ducCmdClientcloseuser (uid : ℤ) := askSucc (.lit "clientcloseuser %d") [.int uid]

/-! ## `user.c` -/

def ducCmdUserlist := askIter ducUserParse (.lit "userlist") []
def ducCmdUserget (uid : ℤ) := askConv ducUserParse (.lit "userget %d") [.int uid]
def ducCmdUsersetpass (uid : ℤ) (pass : Cstr) := askSucc (.lit "usersetpass %d %s") [.int uid, .str pass]
def ducCmdUsersetright (uid right : ℤ) := askSucc (.lit "usersetright %d %d") [.int uid, .int right]
def ducCmdUserdel (uid : ℤ) := askSucc (.lit "userdel %d") [.int uid]
def ducCmdUseradd (name : Cstr) := askInt (.lit "useradd %s") [.str name]

/-! ## `player.c` -/

def ducCmdStatus : Client ℤ := do
  if (← Prog.ask .fd) = -1 then return 3 -- `pl_offline`
  else askInt (.lit "status") []
def ducCmdCurtrack := askConv ducTrackParse (.lit "curtrack") []
def ducCmdPlay := askSucc (.lit "play") []
def ducCmdStop := askSucc (.lit "stop") []
def ducCmdNext := askSucc (.lit "next") []
def ducCmdPrev := askSucc (.lit "prev") []
def ducCmdPause := askSucc (.lit "pause") []
def ducCmdGap := askInt (.lit "gap") []
def ducCmdGapset (gap : ℤ) := askInt (.lit "gapset %u") [.int gap]
def ducCmdRandom := askInt (.lit "random") []
def ducCmdRandomset (r : ℤ) := askSucc (.lit "randomset %d") [.int r]
def ducCmdElapsed := askInt (.lit "elapsed") []
def ducCmdJump (r : ℤ) := askSucc (.lit "jump %d") [.int r]
def ducCmdCut := askInt (.lit "cut") []
def ducCmdCutset (r : ℤ) := askSucc (.lit "cutset %d") [.int r]
def ducCmdReplaygain := askInt (.lit "replaygain") []
def ducCmdReplaygainset (r : ℤ) := askSucc (.lit "replaygainset %d") [.int r]
def ducCmdRgpreamp : Client ℤ := do
  Prog.ofOption (dblInt (← askDouble (.lit "rgpreamp") [])) -- the function returns an `int`
def ducCmdRgpreampset (r : ℚ) := askSucc (.lit "rgpreampset %f") [.dbl r]

/-! ## `track.c` -/

def ducCmdTracks := askInt (.lit "trackcount") []
def ducCmdTrack2id (albumid nr : ℤ) := askInt (.lit "track2id %d %d") [.int albumid, .int nr]
def ducCmdTrackget (id : ℤ) := askConv ducTrackParse (.lit "trackget %d") [.int id]
def ducCmdTracksearchf (filter : Cstr) := askIter ducTrackParse (.lit "tracksearchf %s") [.str filter]
def ducCmdTracksalbum (id : ℤ) := askIter ducTrackParse (.lit "tracksalbum %d") [.int id]
def ducCmdTracksetname (id : ℤ) (name : Cstr) := askSucc (.lit "tracksetname %d %s") [.int id, .str name]
def ducCmdTracksetartist (id artistid : ℤ) :=
  askSucc (.lit "tracksetartist %d %d") [.int id, .int artistid]

/-! ## `random.c` -/

def ducCmdFilter := askString (.lit "filter") []
def ducCmdFilterset (filter : Cstr) := askSucc (.lit "filterset %s") [.str filter]
def ducCmdFilterstat := askInt (.lit "filterstat") []
def ducCmdFiltertop (num : ℤ) := askIter ducTrackParse (.lit "filtertop %d") [.int num]

/-! ## `queue.c` -/

def ducCmdQueuelist := askIter ducQueueParse (.lit "queuelist") []
def ducCmdQueueget (id : ℤ) := askConv ducQueueParse (.lit "queueget %d") [.int id]
def ducCmdQueueadd (id : ℤ) := askInt (.lit "queueadd %d") [.int id]
def ducCmdQueuedel (id : ℤ) := askSucc (.lit "queuedel %d") [.int id]
def ducCmdQueueclear := askSucc (.lit "queueclear") []
def ducCmdQueuesum := askInt (.lit "queuesum") []

/-! ## `sleep.c` -/

def ducCmdSleep := askInt (.lit "sleep") []
def ducCmdSleepset (delay : ℤ) := askSucc (.lit "sleepset %d") [.int delay]

/-! ## `history.c` -/

def ducCmdHistory (num : ℤ) := askIter ducHistoryParse (.lit "history %d") [.int num]
def ducCmdHistorytrack (tid num : ℤ) :=
  askIter ducHistoryParse (.lit "historytrack %d %d") [.int tid, .int num]

/-! ## `tag.c` -/

def ducCmdTagget (id : ℤ) := askConv ducTagParse (.lit "tagget %d") [.int id]
def ducCmdTag2id (name : Cstr) := askInt (.lit "tag2id %s") [.str name]
def ducCmdTaglist := askIter ducTagParse (.lit "taglist") []
def ducCmdTagsartist (aid : ℤ) := askIter ducTagParse (.lit "tagsartist %d") [.int aid]
def ducCmdTagadd (name : Cstr) := askInt (.lit "tagadd %s") [.str name]
def ducCmdTagsetname (id : ℤ) (name : Cstr) := askSucc (.lit "tagsetname %d %s") [.int id, .str name]
def ducCmdTagsetdesc (id : ℤ) (desc : Cstr) := askSucc (.lit "tagsetdesc %d %s") [.int id, .str desc]
def ducCmdTagdel (id : ℤ) := askSucc (.lit "tagdel %d") [.int id]
def ducCmdTracktaglist (tid : ℤ) := askIter ducTagParse (.lit "tracktaglist %d") [.int tid]
def ducCmdTracktagadd (tid id : ℤ) := askSucc (.lit "tracktagadd %d %d") [.int tid, .int id]
def ducCmdTracktagdel (tid id : ℤ) := askSucc (.lit "tracktagdel %d %d") [.int tid, .int id]

/-! ## `album.c` -/

def ducCmdAlbumget (id : ℤ) := askConv ducAlbumParse (.lit "albumget %d") [.int id]
def ducCmdAlbumlist := askIter ducAlbumParse (.lit "albumlist") []
def ducCmdAlbumsearch (str : Cstr) := askIter ducAlbumParse (.lit "albumsearch %s") [.str str]
def ducCmdAlbumsartist (artistid : ℤ) := askIter ducAlbumParse (.lit "albumsartist %d") [.int artistid]
def ducCmdAlbumstag (tid : ℤ) := askIter ducAlbumParse (.lit "albumstag %d") [.int tid]
def ducCmdAlbumsetname (id : ℤ) (name : Cstr) := askSucc (.lit "albumsetname %d %s") [.int id, .str name]
def ducCmdAlbumsetartist (id artistid : ℤ) :=
  askSucc (.lit "albumsetartist %d %d") [.int id, .int artistid]
def ducCmdAlbumsetyear (id year : ℤ) := askSucc (.lit "albumsetyear %d %d") [.int id, .int year]

/-! ## `artist.c` -/

def ducCmdArtistget (id : ℤ) := askConv ducArtistParse (.lit "artistget %d") [.int id]
def ducCmdArtistlist := askIter ducArtistParse (.lit "artistlist") []
def ducCmdArtiststag (tid : ℤ) := askIter ducArtistParse (.lit "artiststag %d") [.int tid]
def ducCmdArtistsearch (str : Cstr) := askIter ducArtistParse (.lit "artistsearch %s") [.str str]
def ducCmdArtistsetname (id : ℤ) (name : Cstr) := askSucc (.lit "artistsetname %d %s") [.int id, .str name]
def ducCmdArtistmerge (id into : ℤ) := askSucc (.lit "artistmerge %d %d") [.int id, .int into]
def ducCmdArtistadd (name : Cstr) := askInt (.lit "artistadd %s") [.str name]
def ducCmdArtistdel (id : ℤ) := askSucc (.lit "artistdel %d") [.int id]

/-! ## `sfilter.c` -/

def ducCmdSfilterget (id : ℤ) := askConv ducSfilterParse (.lit "sfilterget %d") [.int id]
def ducCmdSfilter2id (name : Cstr) := askInt (.lit "sfilter2id %s") [.str name]
def ducCmdSfilterlist := askIter ducSfilterParse (.lit "sfilterlist") []
def ducCmdSfilteradd (name : Cstr) := askInt (.lit "sfilteradd %s") [.str name]
def ducCmdSfiltersetname (id : ℤ) (name : Cstr) :=
  askSucc (.lit "sfiltersetname %d %s") [.int id, .str name]
def ducCmdSfiltersetfilter (id : ℤ) (filter : Cstr) :=
  askSucc (.lit "sfiltersetfilter %d %s") [.int id, .str filter]
def ducCmdSfilterdel (id : ℤ) := askSucc (.lit "sfilterdel %d") [.int id]

end Dudlc
