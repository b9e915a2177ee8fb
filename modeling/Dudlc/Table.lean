import Dudlc.Commands

/-!
# The command table

The arguments of the commands, `cmds_top`, and how a command line is taken apart.

* `TCmdArg`, `TCmd`: `t_cmd_arg` and `t_cmd`; the completion generators, the free functions and the help
  texts are left out.
* `cmdsTop`, `cmdFind`.
* `argParse`: the arguments of a command; `cmdArgParse`, `ducCmdLine`.
* `argParse_makes`: an accepted line gives every argument a value that its parser makes.
-/

namespace Dudlc

open Lib

/-- `t_cmd_arg` -/
structure TCmdArg where
  name : Cstr
  opt : Bool
  parse : Cstr → Client (ArgVal × ℕ)

/-- `t_cmd` -/
structure TCmd where
  name : Cstr
  aliasName : Option Cstr
  run : Handler
  args : List TCmdArg

/-- A parser of numbers as a `t_arg_parse`. -/
def apInt (p : Cstr → Client (ℤ × ℕ)) (s : Cstr) : Client (ArgVal × ℕ) := do
  let (z, n) ← p s
  return (.int z, n)

/-- A parser of strings as a `t_arg_parse`. -/
def apStr (p : Cstr → Client (Option Cstr × ℕ)) (s : Cstr) : Client (ArgVal × ℕ) := do
  let (t, n) ← p s
  return (t.elim .null .str, n)

/-- A parser of id lists as a `t_arg_parse`. -/
def apIdl (p : Cstr → Client (Option (List ℤ) × ℕ)) (s : Cstr) : Client (ArgVal × ℕ) := do
  let (ids, n) ← p s
  return (ids.elim .null .idl, n)

/-! ## Arguments -/

def argRcmd : TCmdArg := ⟨.lit "rcmd", false, apStr valString⟩
def argName : TCmdArg := ⟨.lit "name", false, apStr valName⟩
def argCmd : TCmdArg := ⟨.lit "cmd", false, apStr valName⟩
def argString : TCmdArg := ⟨.lit "string", false, apStr valString⟩
def argIdlist : TCmdArg := ⟨.lit "idlist", false, apIdl valIdlist⟩
def argUser : TCmdArg := ⟨.lit "userid", false, apInt valUser⟩
def argUserlist : TCmdArg := ⟨.lit "useridlist", false, apIdl valUserlist⟩
def argRight : TCmdArg := ⟨.lit "right", false, apInt valRight⟩
def argTime : TCmdArg := ⟨.lit "seconds", false, apInt valTime⟩
def argBool : TCmdArg := ⟨.lit "bool", false, apInt valBool⟩
def argTrack : TCmdArg := ⟨.lit "trackid", false, apInt valTrack⟩
def argTracklist : TCmdArg := ⟨.lit "trackidlist", false, apIdl valTracklist⟩
def argTaglist : TCmdArg := ⟨.lit "taglist", false, apIdl valTaglist⟩
def argTag : TCmdArg := ⟨.lit "tag", false, apInt valTag⟩
def argOnum : TCmdArg := ⟨.lit "num", true, apInt valUint⟩
def argArtist : TCmdArg := ⟨.lit "artistid", false, apInt valUint⟩
def argAlbum : TCmdArg := ⟨.lit "albumid", false, apInt valUint⟩
def argSfilter : TCmdArg := ⟨.lit "sfilter", false, apInt valSfilter⟩
def argYear : TCmdArg := ⟨.lit "year", false, apInt valYear⟩
def argRgtype : TCmdArg := ⟨.lit "rgtype", false, apInt valRgtype⟩
def argDecibel : TCmdArg := ⟨.lit "decibel", false, apInt valDouble⟩

def argsNone : List TCmdArg := []
def argsTime : List TCmdArg := [argTime]
def argsIdlist : List TCmdArg := [argIdlist]
def argsUserlist : List TCmdArg := [argUserlist]
def argsName : List TCmdArg := [argName]
def argsCmd : List TCmdArg := [argCmd]
def argsBool : List TCmdArg := [argBool]
def argsTracklist : List TCmdArg := [argTracklist]
def argsTrackname : List TCmdArg := [argTrack, argString]
def argsTrackartist : List TCmdArg := [argTracklist, argArtist]
def argsString : List TCmdArg := [argString]
def argsOnum : List TCmdArg := [argOnum]
def argsTag : List TCmdArg := [argTag]
def argsTaglist : List TCmdArg := [argTaglist]
def argsSfilter : List TCmdArg := [argSfilter]
def argsArtist : List TCmdArg := [argArtist]
def argsRaw : List TCmdArg := [argRcmd]
def argsUidpass : List TCmdArg := [argUser, argString]
def argsUidright : List TCmdArg := [argUser, argRight]
def argsTracknum : List TCmdArg := [argTrack, argOnum]
def argsTagname : List TCmdArg := [argTag, argName]
def argsTagdesc : List TCmdArg := [argTag, argString]
def argsTracktaglist : List TCmdArg := [argTracklist, argTaglist]
def argsAlbumartist : List TCmdArg := [argAlbum, argArtist]
def argsAlbumname : List TCmdArg := [argAlbum, argString]
def argsAlbumyear : List TCmdArg := [argAlbum, argYear]
def argsArtistname : List TCmdArg := [argArtist, argString]
def argsArtistmerge : List TCmdArg := [argArtist, argArtist]
def argsSfiltername : List TCmdArg := [argSfilter, argName]
def argsSfilterfilter : List TCmdArg := [argSfilter, argString]
def argsRgtype : List TCmdArg := [argRgtype]
def argsDecibel : List TCmdArg := [argDecibel]

/-! ## Commands -/

/-- `cmds_top` -/
def cmdsTop : List TCmd := [
  ⟨.lit "open", none, cOpen, argsNone⟩,
  ⟨.lit "help", none, cHelp, argsNone⟩,
  ⟨.lit "helpcmd", none, cHelpcmd, argsCmd⟩,
  ⟨.lit "raw", none, cRaw, argsRaw⟩,
  ⟨.lit "clientlist", none, cClientlist, argsNone⟩,
  ⟨.lit "clientclose", none, cClientclose, argsIdlist⟩,
  ⟨.lit "clientcloseuser", none, cClientcloseuser, argsUserlist⟩,
  ⟨.lit "userget", none, cUserget, argsUserlist⟩,
  ⟨.lit "userlist", none, cUserlist, argsNone⟩,
  ⟨.lit "usersetpass", none, cUsersetpass, argsUidpass⟩,
  ⟨.lit "usersetright", none, cUsersetright, argsUidright⟩,
  ⟨.lit "useradd", none, cUseradd, argsName⟩,
  ⟨.lit "userdel", none, cUserdel, argsUserlist⟩,
  ⟨.lit "play", some (.lit "r"), cPlay, argsNone⟩,
  ⟨.lit "stop", some (.lit "s"), cStop, argsNone⟩,
  ⟨.lit "next", some (.lit "n"), cNext, argsNone⟩,
  ⟨.lit "prev", none, cPrev, argsNone⟩,
  ⟨.lit "pause", some (.lit "p"), cPause, argsNone⟩,
  ⟨.lit "status", none, cStatus, argsNone⟩,
  ⟨.lit "info", none, cInfo, argsNone⟩,
  ⟨.lit "gap", none, cGap, argsNone⟩,
  ⟨.lit "gapset", none, cGapset, argsTime⟩,
  ⟨.lit "random", none, cRandom, argsNone⟩,
  ⟨.lit "randomset", none, cRandomset, argsBool⟩,
  ⟨.lit "elapsed", none, cElapsed, argsNone⟩,
  ⟨.lit "jump", some (.lit "j"), cJump, argsTime⟩,
  ⟨.lit "cut", none, cCut, argsNone⟩,
  ⟨.lit "cutset", none, cCutset, argsBool⟩,
  ⟨.lit "replaygain", none, cReplaygain, argsNone⟩,
  ⟨.lit "replaygainset", none, cReplaygainset, argsRgtype⟩,
  ⟨.lit "rgpreamp", none, cRgpreamp, argsNone⟩,
  ⟨.lit "rgpreampset", none, cRgpreampset, argsDecibel⟩,
  ⟨.lit "trackcount", none, cTrackcount, argsNone⟩,
  ⟨.lit "trackget", none, cTrackget, argsTracklist⟩,
  ⟨.lit "tracksearchf", some (.lit "f"), cTracksearchf, argsString⟩,
  ⟨.lit "tracksetartist", none, cTracksetartist, argsTrackartist⟩,
  ⟨.lit "tracksetname", none, cTracksetname, argsTrackname⟩,
  ⟨.lit "filter", none, cFilter, argsNone⟩,
  ⟨.lit "filterset", none, cFilterset, argsString⟩,
  ⟨.lit "filterstat", none, cFilterstat, argsNone⟩,
  ⟨.lit "filtertop", none, cFiltertop, argsOnum⟩,
  ⟨.lit "queuelist", some (.lit "ql"), cQueuelist, argsNone⟩,
  ⟨.lit "queueget", none, cQueueget, argsIdlist⟩,
  ⟨.lit "queueadd", some (.lit "qa"), cQueueadd, argsTracklist⟩,
  ⟨.lit "queuedel", some (.lit "qd"), cQueuedel, argsIdlist⟩,
  ⟨.lit "queueclear", some (.lit "qc"), cQueueclear, argsNone⟩,
  ⟨.lit "queuesum", none, cQueuesum, argsNone⟩,
  ⟨.lit "sleep", none, cSleep, argsNone⟩,
  ⟨.lit "sleepset", none, cSleepset, argsTime⟩,
  ⟨.lit "history", none, cHistory, argsOnum⟩,
  ⟨.lit "historytrack", none, cHistorytrack, argsTracknum⟩,
  ⟨.lit "taglist", none, cTaglist, argsNone⟩,
  ⟨.lit "tagsartist", none, cTagsartist, argsArtist⟩,
  ⟨.lit "tagget", none, cTagget, argsTaglist⟩,
  ⟨.lit "tagadd", none, cTagadd, argsName⟩,
  ⟨.lit "tagsetname", none, cTagsetname, argsTagname⟩,
  ⟨.lit "tagsetdesc", none, cTagsetdesc, argsTagdesc⟩,
  ⟨.lit "tagdel", none, cTagdel, argsTaglist⟩,
  ⟨.lit "tracktaglist", some (.lit "tl"), cTracktaglist, argsTracklist⟩,
  ⟨.lit "tracktagadd", some (.lit "ta"), cTracktagadd, argsTracktaglist⟩,
  ⟨.lit "tracktagdel", some (.lit "td"), cTracktagdel, argsTracktaglist⟩,
  ⟨.lit "albumlist", none, cAlbumlist, argsNone⟩,
  ⟨.lit "albumget", none, cAlbumget, argsIdlist⟩,
  ⟨.lit "albumsearch", none, cAlbumsearch, argsString⟩,
  ⟨.lit "albumsartist", none, cAlbumsartist, argsArtist⟩,
  ⟨.lit "albumstag", none, cAlbumstag, argsTag⟩,
  ⟨.lit "albumsetartist", none, cAlbumsetartist, argsAlbumartist⟩,
  ⟨.lit "albumsetname", none, cAlbumsetname, argsAlbumname⟩,
  ⟨.lit "albumsetyear", none, cAlbumsetyear, argsAlbumyear⟩,
  ⟨.lit "artistlist", none, cArtistlist, argsNone⟩,
  ⟨.lit "artiststag", none, cArtiststag, argsTag⟩,
  ⟨.lit "artistget", none, cArtistget, argsIdlist⟩,
  ⟨.lit "artistsearch", none, cArtistsearch, argsString⟩,
  ⟨.lit "artistsetname", none, cArtistsetname, argsArtistname⟩,
  ⟨.lit "artistmerge", none, cArtistmerge, argsArtistmerge⟩,
  ⟨.lit "artistadd", none, cArtistadd, argsString⟩,
  ⟨.lit "artistdel", none, cArtistdel, argsArtist⟩,
  ⟨.lit "sfilterlist", none, cSfilterlist, argsNone⟩,
  ⟨.lit "sfilterget", none, cSfilterget, argsIdlist⟩,
  ⟨.lit "sfilteradd", none, cSfilteradd, argsName⟩,
  ⟨.lit "sfiltersetname", none, cSfiltersetname, argsSfiltername⟩,
  ⟨.lit "sfiltersetfilter", none, cSfiltersetfilter, argsSfilterfilter⟩,
  ⟨.lit "sfilterdel", none, cSfilterdel, argsSfilter⟩,
  ⟨.lit "sfilterload", some (.lit "load"), cSfilterload, argsSfilter⟩,
  ⟨.lit "sfiltersave", some (.lit "save"), cSfiltersave, argsSfilter⟩]

/-- `cmd_find` -/
def cmdFind (name : Cstr) : Option TCmd :=
  cmdsTop.find? fun cmd => cmd.name = name || cmd.aliasName = some name

/-- The loop in `cmd_arg_parse`: the arguments parsed, what is left of the line and the number of missing
arguments; `none` where an argument is not accepted. -/
def argLoop : List TCmdArg → Cstr → ℕ → List ArgVal → Client (Option (List ArgVal × Cstr × ℕ))
  | [], next, missing, argv => return some (argv, next, missing)
  | arg :: args, next, missing, argv => do
    let next := next.drop (next.bytes.takeWhile isspace).length
    if next.bytes = [] then argLoop args next (missing + 1) argv
    else
      let (data, n) ← arg.parse next
      if n = 0 ∨ (next.byte n ≠ 0 ∧ !isspace (next.byte n)) then return none
      else argLoop args (next.drop n) missing (argv ++ [data])

/-- `cmd_arg_parse` up to the handler: the arguments of a line that is accepted. -/
def argParse (cmd : TCmd) (line : Cstr) : Client (Option (List ArgVal)) := do
  match ← argLoop cmd.args line 0 [] with
  | none => return none
  | some (argv, next, missing) =>
    if next.bytes ≠ [] then return none
    else if missing ≠ 0 then return none
    else return some argv

/-- `cmd_arg_parse`. A handler that fails is only reported. -/
def cmdArgParse (addr : ArgVal → ℕ) (cmd : TCmd) (line : Cstr) : Client ℤ := do
  match ← argParse cmd line with
  | none => return -1
  | some argv =>
    let _ ← cmd.run addr argv
    return 0

/-- `duc_cmd` -/
def ducCmdLine (addr : ArgVal → ℕ) (line : Cstr) : Client ℤ := do
  let line := line.drop (line.bytes.takeWhile isspace).length
  match ← valName line with
  | (none, _) => return -1
  | (some scmd, n) =>
    match cmdFind scmd with
    | none => return -1
    | some cmd => cmdArgParse addr cmd (line.drop n)

/-! ## Accepted lines -/

/-- The argument's parser makes the value from a text that it accepts: the value satisfies whatever all
such values do. -/
def TCmdArg.Makes (arg : TCmdArg) (v : ArgVal) : Prop :=
  ∀ Q : ArgVal → Prop, (∀ s, (arg.parse s).Always fun r => r.2 ≠ 0 → Q r.1) → Q v

theorem argLoop_makes (args : List TCmdArg) (next : Cstr) (missing : ℕ) (argv : List ArgVal) :
    (argLoop args next missing argv).Always fun r => ∀ argv' rest m, r = some (argv', rest, m) →
      missing ≤ m ∧ (m = missing → ∃ vs, argv' = argv ++ vs ∧ List.Forall₂ TCmdArg.Makes args vs) := by
  induction args generalizing next missing argv with
  | nil =>
    rintro argv' rest m heq
    obtain ⟨rfl, -, rfl⟩ : argv = argv' ∧ next = rest ∧ missing = m := by simpa using heq
    exact ⟨le_rfl, fun _ => ⟨[], by simp, .nil⟩⟩
  | cons arg args ih =>
    unfold argLoop
    dsimp only
    split_ifs with hend
    · -- a missing argument: the number of missing arguments grows and stays grown
      refine (ih _ (missing + 1) argv).mono fun r hr argv' rest m heq => ?_
      obtain ⟨hle, -⟩ := hr argv' rest m heq
      exact ⟨by omega, fun h => by omega⟩
    · set s := next.drop (next.bytes.takeWhile isspace).length
      have hmakes : (arg.parse s).Always fun r => r.2 ≠ 0 → arg.Makes r.1 := by
        have hall : (arg.parse s).Always fun r => ∀ Q : ArgVal → Prop,
            (∀ s, (arg.parse s).Always fun r => r.2 ≠ 0 → Q r.1) → r.2 ≠ 0 → Q r.1 :=
          Prog.always_forall fun Q => Prog.always_forall fun hQ => hQ s
        exact hall.mono fun r hr hn Q hQ => hr Q hQ hn
      refine Prog.Always.bind hmakes fun r hr => ?_
      obtain ⟨data, n⟩ := r
      dsimp only
      split_ifs with hbad
      · exact fun _ _ _ h => by cases h
      · have hn : n ≠ 0 := fun h => hbad (Or.inl h)
        refine (ih _ missing (argv ++ [data])).mono fun r hr' argv' rest m heq => ?_
        obtain ⟨hle, hvs⟩ := hr' argv' rest m heq
        refine ⟨hle, fun h => ?_⟩
        obtain ⟨vs, rfl, hall⟩ := hvs h
        exact ⟨data :: vs, by simp, .cons (hr hn) hall⟩

/-- **Accepted arguments.** Every argument of the command has a value that its parser makes. -/
theorem argParse_makes (cmd : TCmd) (line : Cstr) :
    (argParse cmd line).Always fun r => ∀ argv, r = some argv →
      List.Forall₂ TCmdArg.Makes cmd.args argv := by
  refine Prog.Always.bind (argLoop_makes cmd.args line 0 []) fun r hr => ?_
  rcases r with _ | ⟨argv, next, missing⟩
  · exact fun _ h => by cases h
  dsimp only
  split_ifs with hnext hmiss
  · exact fun _ h => by cases h
  · exact fun _ h => by cases h
  · rintro argv' heq
    obtain rfl := Option.some.inj heq
    obtain ⟨vs, rfl, hall⟩ := (hr argv next missing rfl).2 (not_not.1 hmiss)
    exact hall

theorem makes_int {arg : TCmdArg} {p : Cstr → Client (ℤ × ℕ)} (harg : arg.parse = apInt p) {v : ArgVal}
    (h : arg.Makes v) : ∃ z, v = .int z :=
  h (fun v => ∃ z, v = .int z) fun s => by
    rw [harg]
    exact Prog.Always.bind (Prog.always_true _) fun r _ _ => ⟨r.1, rfl⟩

theorem makes_str {arg : TCmdArg} {p : Cstr → Client (Option Cstr × ℕ)} (harg : arg.parse = apStr p)
    (hp : ∀ s, (p s).Always fun r => r.2 ≠ 0 → r.1.isSome) {v : ArgVal} (h : arg.Makes v) :
    ∃ t, v = .str t :=
  h (fun v => ∃ t, v = .str t) fun s => by
    rw [harg]
    refine Prog.Always.bind (hp s) fun r hr hn => ?_
    obtain ⟨t, ht⟩ := Option.isSome_iff_exists.1 (hr hn)
    exact ⟨t, by rw [ht]; rfl⟩

theorem makes_idl {arg : TCmdArg} {p : Cstr → Client (Option (List ℤ) × ℕ)}
    (harg : arg.parse = apIdl p) (hp : ∀ s, (p s).Always fun r => r.2 ≠ 0 → r.1.isSome) {v : ArgVal}
    (h : arg.Makes v) : ∃ ids, v = .idl ids :=
  h (fun v => ∃ ids, v = .idl ids) fun s => by
    rw [harg]
    refine Prog.Always.bind (hp s) fun r hr hn => ?_
    obtain ⟨ids, hids⟩ := Option.isSome_iff_exists.1 (hr hn)
    exact ⟨ids, by rw [hids]; rfl⟩

end Dudlc
