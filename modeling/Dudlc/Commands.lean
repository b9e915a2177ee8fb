import Dudlc.Values

/-!
# The commands of the text client

The handlers of `command.c`. They get their arguments as pointers and cast them back; a pointer to a
string or a list that is read as an `int` gives the low bits of the address (`addr`) of its allocation.
What they print is left out.

* `ArgVal`, `argInt`, `argIdl`, `argStr`: the arguments and the casts.
* `idlIterate`: a function called for every id of a list.
* The handlers `c_*`.
-/

namespace Dudlc

open Lib

/-- An argument, as its parser made it. -/
inductive ArgVal
  | null
  | int (z : ℤ)
  | str (s : Cstr)
  | idl (ids : List ℤ)
  deriving DecidableEq

/-- A handler: the addresses of the arguments that are pointers, the arguments, and the program. -/
abbrev Handler := (ArgVal → ℕ) → List ArgVal → Client ℤ

/-- `(int)argv[i]` -/
def argInt (addr : ArgVal → ℕ) (argv : List ArgVal) (i : ℕ) : Client ℤ :=
  match argv[i]? with
  | some .null => return 0
  | some (.int z) => return z
  | some v => return toInt (addr v)
  | none => .fault

/-- `(t_idlist *)argv[i]` -/
def argIdl (argv : List ArgVal) (i : ℕ) : Client (List ℤ) :=
  match argv[i]? with
  | some (.idl ids) => return ids
  | _ => .fault

/-- `(char*)argv[i]` -/
def argStr (argv : List ArgVal) (i : ℕ) : Client Cstr :=
  match argv[i]? with
  | some (.str s) => return s
  | _ => .fault

/-- `idl_iterate`: the walk ends at the first negative id, and where the connection is lost. -/
def idlIterate (func : ℤ → Client ℤ) : List ℤ → Client ℤ
  | [] => return 0
  | id :: ids => do
    if id < 0 then return 0
    if (← func id) = -1 then
      if (← Prog.ask .fd) < 0 then return -1
      else idlIterate func ids
    else idlIterate func ids

/-- A handler that shows a record or a list: -1 for NULL. -/
def showing {α : Type} (p : Client (Option α)) : Client ℤ := do
  match ← p with
  | none => return -1
  | some _ => return 0

/-- A handler that shows a number: -1 for a negative one. -/
def showingNum (p : Client ℤ) : Client ℤ := do
  if (← p) < 0 then return -1 else return 0

/-- A handler that reports -1 only. -/
def checking (p : Client ℤ) : Client ℤ := do
  if (← p) = -1 then return -1 else return 0

/-! ## Connection and clients -/

def cOpen : Handler := fun _ _ => Prog.ask .open
def cHelp : Handler := fun _ _ => return 0
def cHelpcmd : Handler := fun _ _ => return 0
def cRaw : Handler := fun _ argv => do Prog.ask (.raw (← argStr argv 0))
def cClientlist : Handler := fun _ _ => showing ducCmdClientlist
def cClientclose : Handler := fun _ argv => do idlIterate ducCmdClientclose (← argIdl argv 0)
def cClientcloseuser : Handler := fun _ argv => do idlIterate ducCmdClientcloseuser (← argIdl argv 0)

/-! ## Users -/

def cUserget : Handler := fun addr argv => do
  match ← ducCmdUserget (← argInt addr argv 0) with
  | none => return 1
  | some _ => return 0
def cUserlist : Handler := fun _ _ => showing ducCmdUserlist
def cUsersetpass : Handler := fun addr argv => do
  ducCmdUsersetpass (← argInt addr argv 0) (← argStr argv 1)
def cUsersetright : Handler := fun addr argv => do
  ducCmdUsersetright (← argInt addr argv 0) (← argInt addr argv 1)
def cUseradd : Handler := fun _ argv => do showingNum (ducCmdUseradd (← argStr argv 0))
def cUserdel : Handler := fun addr argv => do ducCmdUserdel (← argInt addr argv 0)

/-! ## The player -/

def cPlay : Handler := fun _ _ => ducCmdPlay
def cStop : Handler := fun _ _ => ducCmdStop
def cNext : Handler := fun _ _ => ducCmdNext
def cPrev : Handler := fun _ _ => ducCmdPrev
def cPause : Handler := fun _ _ => ducCmdPause
def cStatus : Handler := fun _ _ => do
  let stat ← ducCmdStatus
  if 0 ≤ stat ∧ stat ≤ 3 then return 0 else return -1
def cInfo : Handler := fun _ _ => do
  match ← ducCmdCurtrack with
  | none => return -1
  | some t =>
    match ← ducCmdHistorytrack t.id 10 with
    | none => return -1
    | some _ => showing (ducCmdTracktaglist t.id)
def cGap : Handler := fun _ _ => showingNum ducCmdGap
def cGapset : Handler := fun addr argv => do ducCmdGapset (← argInt addr argv 0)
def cRandom : Handler := fun _ _ => showingNum ducCmdRandom
def cRandomset : Handler := fun addr argv => do ducCmdRandomset (← argInt addr argv 0)
def cElapsed : Handler := fun _ _ => showingNum ducCmdElapsed
def cJump : Handler := fun addr argv => do ducCmdJump (← argInt addr argv 0)
def cCut : Handler := fun _ _ => showingNum ducCmdCut
def cCutset : Handler := fun addr argv => do ducCmdCutset (← argInt addr argv 0)
def cReplaygain : Handler := fun _ _ => showingNum ducCmdReplaygain
def cReplaygainset : Handler := fun addr argv => do ducCmdReplaygainset (← argInt addr argv 0)
def cRgpreamp : Handler := fun _ _ => do
  if (← ducCmdRgpreamp) < 0 then return -1 else return 0
def cRgpreampset : Handler := fun addr argv => do ducCmdRgpreampset (← argInt addr argv 0)

/-! ## Tracks -/

def cTrackcount : Handler := fun _ _ => showingNum ducCmdTracks
def iTrackget (id : ℤ) : Client ℤ := showing (ducCmdTrackget id)
def cTrackget : Handler := fun _ argv => do idlIterate iTrackget (← argIdl argv 0)
def cTracksearchf : Handler := fun _ argv => do showing (ducCmdTracksearchf (← argStr argv 0))
def cTracksetartist : Handler := fun addr argv => do
  let tracks ← argIdl argv 0
  let artistid ← argInt addr argv 1
  idlIterate (fun id => ducCmdTracksetartist id artistid) tracks
def cTracksetname : Handler := fun addr argv => do
  ducCmdTracksetname (← argInt addr argv 0) (← argStr argv 1)

/-! ## The random filter -/

def cFilter : Handler := fun _ _ => showing ducCmdFilter
def cFilterset : Handler := fun _ argv => do ducCmdFilterset (← argStr argv 0)
def cFilterstat : Handler := fun _ _ => showingNum ducCmdFilterstat
def cFiltertop : Handler := fun addr argv => do showing (ducCmdFiltertop (← argInt addr argv 0))

/-! ## The queue -/

def cQueuelist : Handler := fun _ _ => showing ducCmdQueuelist
def iQueueget (id : ℤ) : Client ℤ := showing (ducCmdQueueget id)
def cQueueget : Handler := fun _ argv => do idlIterate iQueueget (← argIdl argv 0)
def iQueueadd (id : ℤ) : Client ℤ := checking (ducCmdQueueadd id)
def cQueueadd : Handler := fun _ argv => do idlIterate iQueueadd (← argIdl argv 0)
def cQueuedel : Handler := fun _ argv => do idlIterate ducCmdQueuedel (← argIdl argv 0)
def cQueueclear : Handler := fun _ _ => ducCmdQueueclear
def cQueuesum : Handler := fun _ _ => showingNum ducCmdQueuesum

/-! ## Sleeping and the history -/

def cSleep : Handler := fun _ _ => showingNum ducCmdSleep
def cSleepset : Handler := fun addr argv => do ducCmdSleepset (← argInt addr argv 0)
def cHistory : Handler := fun addr argv => do showing (ducCmdHistory (← argInt addr argv 0))
def cHistorytrack : Handler := fun addr argv => do
  let id ← argInt addr argv 0
  let num ← argInt addr argv 1
  showing (ducCmdHistorytrack id num)

/-! ## Tags -/

def cTaglist : Handler := fun _ _ => showing ducCmdTaglist
def cTagsartist : Handler := fun addr argv => do showing (ducCmdTagsartist (← argInt addr argv 0))
def iTagget (id : ℤ) : Client ℤ := showing (ducCmdTagget id)
def cTagget : Handler := fun _ argv => do idlIterate iTagget (← argIdl argv 0)
def cTagadd : Handler := fun _ argv => do checking (ducCmdTagadd (← argStr argv 0))
def cTagsetname : Handler := fun addr argv => do
  ducCmdTagsetname (← argInt addr argv 0) (← argStr argv 1)
def cTagsetdesc : Handler := fun addr argv => do
  ducCmdTagsetdesc (← argInt addr argv 0) (← argStr argv 1)
def cTagdel : Handler := fun _ argv => do idlIterate ducCmdTagdel (← argIdl argv 0)
def iTracktaglist (id : ℤ) : Client ℤ := do
  match ← ducCmdTrackget id with
  | none => return -1
  | some _ => showing (ducCmdTracktaglist id)
def cTracktaglist : Handler := fun _ argv => do idlIterate iTracktaglist (← argIdl argv 0)
def iTracktagadd (tags : List ℤ) (id : ℤ) : Client ℤ := idlIterate (ducCmdTracktagadd id) tags
def cTracktagadd : Handler := fun _ argv => do
  let tracks ← argIdl argv 0
  let tags ← argIdl argv 1
  idlIterate (iTracktagadd tags) tracks
def iTracktagdel (tags : List ℤ) (id : ℤ) : Client ℤ := idlIterate (ducCmdTracktagdel id) tags
def cTracktagdel : Handler := fun _ argv => do
  let tracks ← argIdl argv 0
  let tags ← argIdl argv 1
  idlIterate (iTracktagdel tags) tracks

/-! ## Albums -/

def cAlbumlist : Handler := fun _ _ => showing ducCmdAlbumlist
def cAlbumstag : Handler := fun addr argv => do showing (ducCmdAlbumstag (← argInt addr argv 0))
def iAlbumget (id : ℤ) : Client ℤ := showing (ducCmdAlbumget id)
def cAlbumget : Handler := fun _ argv => do idlIterate iAlbumget (← argIdl argv 0)
def cAlbumsearch : Handler := fun _ argv => do showing (ducCmdAlbumsearch (← argStr argv 0))
def cAlbumsartist : Handler := fun addr argv => do showing (ducCmdAlbumsartist (← argInt addr argv 0))
def cAlbumsetartist : Handler := fun addr argv => do
  ducCmdAlbumsetartist (← argInt addr argv 0) (← argInt addr argv 1)
def cAlbumsetname : Handler := fun addr argv => do
  ducCmdAlbumsetname (← argInt addr argv 0) (← argStr argv 1)
def cAlbumsetyear : Handler := fun addr argv => do
  ducCmdAlbumsetyear (← argInt addr argv 0) (← argInt addr argv 1)

/-! ## Artists -/

def cArtistlist : Handler := fun _ _ => showing ducCmdArtistlist
def cArtiststag : Handler := fun addr argv => do showing (ducCmdArtiststag (← argInt addr argv 0))
def iArtistget (id : ℤ) : Client ℤ := showing (ducCmdArtistget id)
def cArtistget : Handler := fun _ argv => do idlIterate iArtistget (← argIdl argv 0)
def cArtistsearch : Handler := fun _ argv => do showing (ducCmdArtistsearch (← argStr argv 0))
def cArtistsetname : Handler := fun addr argv => do
  ducCmdArtistsetname (← argInt addr argv 0) (← argStr argv 1)
def cArtistmerge : Handler := fun addr argv => do
  ducCmdArtistmerge (← argInt addr argv 0) (← argInt addr argv 1)
def cArtistadd : Handler := fun _ argv => do checking (ducCmdArtistadd (← argStr argv 0))
def cArtistdel : Handler := fun addr argv => do ducCmdArtistdel (← argInt addr argv 0)

/-! ## Saved filters -/

def cSfilterlist : Handler := fun _ _ => showing ducCmdSfilterlist
def iSfilterget (id : ℤ) : Client ℤ := showing (ducCmdSfilterget id)
def cSfilterget : Handler := fun _ argv => do idlIterate iSfilterget (← argIdl argv 0)
def cSfilteradd : Handler := fun _ argv => do checking (ducCmdSfilteradd (← argStr argv 0))
def cSfiltersetname : Handler := fun addr argv => do
  ducCmdSfiltersetname (← argInt addr argv 0) (← argStr argv 1)
def cSfiltersetfilter : Handler := fun addr argv => do
  ducCmdSfiltersetfilter (← argInt addr argv 0) (← argStr argv 1)
def cSfilterdel : Handler := fun addr argv => do ducCmdSfilterdel (← argInt addr argv 0)
def cSfilterload : Handler := fun addr argv => do
  match ← ducCmdSfilterget (← argInt addr argv 0) with
  | none => return -1
  | some filt => checking (ducCmdFilterset (.ofBytes filt.filter))
def cSfiltersave : Handler := fun addr argv => do
  let id ← argInt addr argv 0
  match ← ducCmdFilter with
  | none => return -1
  | some flt => checking (ducCmdSfiltersetfilter id flt)

end Dudlc
