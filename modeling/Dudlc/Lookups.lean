import Dudlc.Arguments
import Dudlc.Formats
import Dudlc.Items

/-!
# Tracks, tags and filters on a line

`val_track`, `val_tag` and `val_sfilter` should take a text for the number that is written or for an id that
the server gives, and refuse it if the server gives none.

* `Ref`, `trackRef`, `namedRef`: what a text refers to.
* `Server.call`: the calls of a client, when requests may stay without an answer.
* `repNumber`: the number in the text of a reply; `Gives`: the ids that a text refers to.
* `Refused`: `cmd_arg_parse` refuses the command.
* **`lookup_iff`**: when the text is taken for its id.
-/

namespace Dudlc

open Lib

variable {sv : Server} {σ σ' : List Request} {s : Cstr}

/-! ## What a text refers to -/

/-- What a track, tag or filter is given by: its number, the current track, the position on an album, or a
name with the format of the request that looks it up. -/
inductive Ref
  | number (z : ℤ)
  | current
  | position (album nr : ℤ)
  | name (find t : Cstr)
  deriving DecidableEq

/-- `track := 'c'|<id>|<aid>/<pos>` -/
def trackRef (s : Cstr) : Option Ref :=
  let n := (strtoul s.bytes).2
  if s.byte 0 = 99 then some .current
  else if n = 0 then none
  else if s.byte n ≠ 47 then some (.number (written s.bytes))
  else if (strtoul (s.bytes.drop (n + 1))).2 = 0 then none
  else some (.position (written s.bytes) (written (s.bytes.drop (n + 1))))

/-- `tag := <tagname>|<id>` and `sfilter := <sfiltername>|<id>` -/
def namedRef (find s : Cstr) : Option Ref :=
  if (strtoul s.bytes).2 ≠ 0 then some (.number (written s.bytes))
  else some (.name find (s.take (s.bytes.takeWhile fun b => b ≠ TAB && b ≠ 32).length))

/-- The number is an `int`. -/
def IsInt (z : ℤ) : Prop := -2 ^ 31 ≤ z ∧ z ≤ INT_MAX

/-! ## What the server gives -/

/-- What a call does. A request that the server does not answer loses the connection. -/
def Server.call (sv : Server) : ∀ {β : Type}, Op β → List Request → Option (β × List Request)
  | _, .cmd c, sent =>
    some ((sv.answer sent c.request).elim c.helper.fail c.helper.answer, sent ++ [c.request])
  | _, e, sent => sv.op e sent

/-- The reply grants the request. -/
def granted (rep : List (List UInt8)) : Bool := rep.head?.bind List.head? = some 50

/-- The text of the last line of a reply. -/
def repText (rep : List (List UInt8)) : List UInt8 := (rep.getLastD []).drop 4

/-- The number, as it is written, that the text of a reply begins with when it grants the request. -/
def repNumber (rep : List (List UInt8)) : Option ℤ :=
  if granted rep ∧ numDigits (repText rep) ≠ [] then some (written (repText rep)) else none

/-- The request with which the id is looked up; a position is looked up with numbers that an `int` holds. -/
inductive Lookup : Ref → Request → Prop
  | current : Lookup .current ⟨.lit "curtrack", []⟩
  | position {a n : ℤ} (ha : IsInt a) (hn : IsInt n) :
      Lookup (.position a n) ⟨.lit "track2id %d %d", [.int a, .int n]⟩
  | name (find t : Cstr) : Lookup (.name find t) ⟨find, [.str t]⟩

/-- The text refers to this id: it is written, or the reply to the look-up gives it. -/
def Gives (sv : Server) (σ : List Request) (ref : Option Ref) (id : ℤ) : Prop :=
  ref = some (.number id) ∨
    ∃ r q rep, ref = some r ∧ Lookup r q ∧ sv.answer σ q = some rep ∧ repNumber rep = some id

/-- `cmd_arg_parse` refuses a command with the text for one of its arguments, and nothing is sent behind the
lookup, which goes from `σ` to `σ'`. -/
def Refused (sv : Server) (conv : Cstr → Client (ℤ × ℕ)) (s : Cstr) (σ σ' : List Request) : Prop :=
  ∀ addr (cmd : TCmd) pre arg post line σ₀ argv r m, cmd.args = pre ++ arg :: post → arg.parse = apInt conv →
    (argLoop pre line 0 []).run sv.call σ₀ = some (some (argv, r, m), σ) → skipSpace r = s → s.bytes ≠ [] →
      (cmdArgParse addr cmd line).run sv.call σ₀ = some (-1, σ')

/-- A text that the converter takes is taken for an id that is not negative, and a text that refers to none is
refused. -/
def LooksUp (sv : Server) (conv : Cstr → Client (ℤ × ℕ)) (ref : Option Ref) (s : Cstr) (σ : List Request) : Prop :=
  ∀ v n σ', (conv s).run sv.call σ = some ((v, n), σ') →
    (n ≠ 0 → 0 ≤ v ∧ Gives sv σ ref v) ∧
      ((∀ id, Gives sv σ ref id → id < 0) → n = 0 ∧ Refused sv conv s σ σ')

/-- The reply has a number, within 0..INT_MAX. -/
def HasId (rep : List (List UInt8)) : Prop := ∃ z, repNumber rep = some z ∧ 0 ≤ z ∧ z ≤ INT_MAX

/-- A number is within 0..INT_MAX. So is the one in the record of the current track, if the server sends a
record, and the one in the answer for a position, whose numbers are `int`s and which the server knows. The
answer for a name of one to nine bytes is such a number, or is negative as an `int`. -/
def Known (sv : Server) (σ : List Request) : Option Ref → Prop
  | some (.number z) => 0 ≤ z ∧ z ≤ INT_MAX
  | some .current => ∀ rep, sv.answer σ ⟨.lit "curtrack", []⟩ = some rep → granted rep →
      (lineConverter ducTrackParse (repText rep)).1.isSome → HasId rep
  | some (.position album nr) => IsInt album ∧ IsInt nr ∧
      ∃ rep, sv.answer σ ⟨.lit "track2id %d %d", [.int album, .int nr]⟩ = some rep ∧ HasId rep
  | some (.name find t) => t.bytes ≠ [] → t.bytes.length < 10 → ∀ rep, sv.answer σ ⟨find, [.str t]⟩ = some rep →
      granted rep → 0 ≤ atoi (repText rep) → HasId rep
  | none => True

/-! ## Replies -/

variable {rep : List (List UInt8)} {v z : ℤ}

theorem repNumber_atoi (h : repNumber rep = some (atoi (repText rep))) (h0 : 0 ≤ atoi (repText rep)) : HasId rep :=
  ⟨_, h, h0, (toInt_bounds _).2⟩

theorem HasId.atoi (h : HasId rep) : granted rep ∧ repNumber rep = some (atoi (repText rep)) ∧
    0 ≤ atoi (repText rep) := by
  obtain ⟨z, hz, h0, hmax⟩ := h
  unfold repNumber at hz ⊢
  split_ifs at hz with hrep
  obtain rfl := Option.some.inj hz
  have heq : Lib.atoi (repText rep) = written (repText rep) :=
    (toInt_strtol hrep.2).trans (narrowLong_eq (by omega) hmax)
  rw [if_pos hrep, heq]
  exact ⟨hrep.1, rfl, h0⟩

/-- The integer that `_duc_cmd_int` makes of what the server answers. -/
def intAnswer (o : Option (List (List UInt8))) : ℤ :=
  o.elim (-1) fun rep => if granted rep then atoi (repText rep) else -1

theorem askInt_call (fmt : Cstr) (args : List Arg) : (askInt fmt args).run sv.call σ =
    some (intAnswer (sv.answer σ ⟨fmt, args⟩), σ ++ [⟨fmt, args⟩]) := by
  have hop : sv.call (.cmd (⟨.int, fmt, args⟩ : Cmd Unit)) σ =
      some ((sv.answer σ ⟨fmt, args⟩).elim (.num (-1)) (Helper.answer (.int : Helper Unit)), σ ++ [⟨fmt, args⟩]) := rfl
  rw [askInt, Prog.run_bind, Prog.run_ask, hop, Option.bind_some]
  rcases sv.answer σ ⟨fmt, args⟩ with _ | rep
  · rfl
  · simp [Helper.answer, intAnswer, granted, repText]

/-- The record that `_duc_cmd_conv` makes of what the server answers. -/
def rowAnswer {α : Type} (p : Reader α) (o : Option (List (List UInt8))) : Option α :=
  o.bind fun rep => if granted rep then (lineConverter p (repText rep)).1 else none

theorem askConv_call {α : Type} (p : Reader α) (fmt : Cstr) (args : List Arg) :
    (askConv p fmt args).run sv.call σ =
      some (rowAnswer p (sv.answer σ ⟨fmt, args⟩), σ ++ [⟨fmt, args⟩]) := by
  have hop : sv.call (.cmd ⟨.conv (lineConverter p), fmt, args⟩) σ = some ((sv.answer σ ⟨fmt, args⟩).elim (.row none)
      (Helper.answer (.conv (lineConverter p))), σ ++ [⟨fmt, args⟩]) := rfl
  rw [askConv, Prog.run_bind, Prog.run_ask, hop, Option.bind_some]
  rcases sv.answer σ ⟨fmt, args⟩ with _ | rep
  · rfl
  · simp [Helper.answer, rowAnswer, granted, repText]

theorem trackParse_id {t : List UInt8} {tr : DucTrack} (h : (lineConverter ducTrackParse t).1 = some tr) :
    numDigits t ≠ [] ∧ tr.id = atoi t := by
  obtain ⟨u, r, hcells, hu, hscan⟩ : ∃ u r, t ++ [0] = u ++ 0 :: r ∧ 0 ∉ u ∧ strtol u = strtol t := by
    by_cases h0 : 0 ∈ t
    · obtain ⟨u, r, rfl, hu⟩ := List.eq_append_cons_of_mem h0
      refine ⟨u, r ++ [0], by simp, hu, ?_⟩
      obtain ⟨hskip, hdigits, hneg⟩ := scan_append (c := 0) ⟨rfl, rfl, by decide, by decide⟩ u r
      rw [strtol_written, strtol_written, written, written, hskip, hdigits, hneg]
    · exact ⟨t, [], rfl, h0, rfl⟩
  have hcstr : cstr (⟨t ++ [0], rfl⟩ : Block UInt8 (t ++ [0]).length) 0 = some u :=
    cstr_append (a := []) hcells hu
  have hnum : number (t ++ [0]).length ⟨t ++ [0], rfl⟩ 0 =
      if (strtol t).2 = 0 then some (none, 0) else some (some (toInt (strtol t).1), 0 + (strtol t).2) := by
    rw [number, hcstr, ← hscan]
    rfl
  unfold lineConverter at h
  rcases hp : ducTrackParse (t ++ [0]).length ⟨t ++ [0], rfl⟩ 0 with _ | ⟨o, e⟩ <;> rw [hp] at h
  · cases h
  obtain rfl : o = some tr := h
  obtain ⟨z, e', hz, hrest⟩ := sep_eq_some (record_eq_some hp)
  rw [hnum] at hz
  split_ifs at hz with hzero
  · cases hz
  have hid : tr.id = z := by
    obtain ⟨_, _, -, hrest⟩ := sep_eq_some hrest
    obtain ⟨_, _, -, hrest⟩ := sep_eq_some hrest
    obtain ⟨_, _, -, hrest⟩ := sep_eq_some hrest
    obtain ⟨_, _, -, hrest⟩ := sep_eq_some hrest
    obtain ⟨⟨al, e''⟩, -, hrest⟩ := Option.bind_eq_some_iff.1 hrest
    cases al <;> cases hrest
    rfl
  refine ⟨fun hn => hzero (strtol_zero.2 hn), hid.trans ?_⟩
  exact (Option.some.inj (Prod.mk.inj (Option.some.inj hz)).1).symm

/-! ## Refused arguments -/

theorem argLoop_append (pre post : List TCmdArg) (s : Cstr) (m : ℕ) (argv : List ArgVal) :
    argLoop (pre ++ post) s m argv = argLoop pre s m argv >>= fun r =>
      match r with
      | none => pure none
      | some (argv, next, m) => argLoop post next m argv := by
  induction pre generalizing s m argv with
  | nil => rfl
  | cons arg pre ih =>
    rw [List.cons_append, argLoop_cons, argLoop_cons]
    split_ifs
    · exact ih ..
    · rw [Prog.bind_assoc]
      congr 1
      funext r
      split_ifs
      · rfl
      · exact ih ..

variable {conv : Cstr → Client (ℤ × ℕ)} {n : ℕ}

theorem refused_of_run (hrun : (conv s).run sv.call σ = some ((v, 0), σ')) : Refused sv conv s σ σ' := by
  intro addr cmd pre arg post line σ₀ argv r m hargs hparse hpre hs hne
  have hloop : (argLoop cmd.args line 0 []).run sv.call σ₀ = some (none, σ') := by
    subst hs
    rw [hargs, argLoop_append, Prog.run_bind, hpre]
    change (argLoop (arg :: post) r m argv).run sv.call σ = _
    rw [argLoop_cons, if_neg hne, hparse, apInt, Prog.run_bind, Prog.run_bind, hrun]
    rfl
  rw [cmdArgParse, argParse, Prog.run_bind, Prog.run_bind, hloop]
  rfl

/-! ## The forms of a text -/

theorem looksUp_zero (hrun : (conv s).run sv.call σ = some ((v, 0), σ')) (ref : Option Ref) :
    LooksUp sv conv ref s σ := by
  intro v' n σ'' hrun'
  obtain ⟨⟨rfl, rfl⟩, rfl⟩ : (v = v' ∧ 0 = n) ∧ σ' = σ'' := by simpa [hrun] using hrun'
  exact ⟨fun hn => absurd rfl hn, fun _ => ⟨rfl, refused_of_run hrun⟩⟩

theorem looksUp_pure (h : conv s = pure (v, 0)) (ref : Option Ref) : LooksUp sv conv ref s σ :=
  looksUp_zero (by rw [h, Prog.run_pure]) ref

theorem looksUp_taken {ref : Option Ref} (hrun : (conv s).run sv.call σ = some ((v, n), σ')) (hn : n ≠ 0) :
    LooksUp sv conv ref s σ ↔ 0 ≤ v ∧ Gives sv σ ref v := by
  constructor
  · intro hup
    exact (hup _ _ _ hrun).1 hn
  · rintro ⟨hv, hgives⟩ v' n' σ'' hrun'
    obtain ⟨⟨rfl, rfl⟩, rfl⟩ : (v = v' ∧ n = n') ∧ σ' = σ'' := by simpa [hrun] using hrun'
    exact ⟨fun _ => ⟨hv, hgives⟩, fun hno => absurd (hno v hgives) (not_lt.2 hv)⟩

theorem gives_number {id : ℤ} : Gives sv σ (some (.number z)) id ↔ id = z := by
  constructor
  · rintro (h | ⟨r, q, rep, h, hq, -⟩)
    · exact (Ref.number.inj (Option.some.inj h)).symm
    · obtain rfl := Option.some.inj h
      cases hq
  · rintro rfl
    exact Or.inl rfl

theorem gives_lookup {r : Ref} {q : Request} (hq : Lookup r q) (hone : ∀ q', Lookup r q' → q' = q) {id : ℤ} :
    Gives sv σ (some r) id ↔ ∃ rep, sv.answer σ q = some rep ∧ repNumber rep = some id := by
  constructor
  · rintro (h | ⟨r', q', rep, h, hq', hrep⟩)
    · obtain rfl := Option.some.inj h
      cases hq
    · obtain rfl := Option.some.inj h
      exact ⟨rep, hone q' hq' ▸ hrep⟩
  · rintro ⟨rep, hrep⟩
    exact Or.inr ⟨r, q, rep, rfl, hq, hrep⟩

theorem looksUp_number (hconv : conv s = pure (narrow z, n)) (hn : n ≠ 0) :
    LooksUp sv conv (some (.number z)) s σ ↔ 0 ≤ z ∧ z ≤ INT_MAX := by
  have hrun : (conv s).run sv.call σ = some ((narrow z, n), σ) := by rw [hconv, Prog.run_pure]
  rw [looksUp_taken hrun hn, gives_number]
  constructor
  · rintro ⟨hnonneg, heq⟩
    rw [heq] at hnonneg
    exact ⟨hnonneg, (narrow_eq_iff.1 heq).2⟩
  · rintro ⟨hlo, hhi⟩
    have heq : narrow z = z := narrow_eq (by omega) hhi
    exact ⟨by omega, heq⟩

theorem looksUp_reply {r : Ref} {q : Request} (hq : Lookup r q) (hone : ∀ q', Lookup r q' → q' = q)
    {rep : List (List UInt8)} (hrep : sv.answer σ q = some rep) (hn : n ≠ 0)
    (hrun : (conv s).run sv.call σ = some ((atoi (repText rep), n), σ')) :
    LooksUp sv conv (some r) s σ ↔ HasId rep := by
  rw [looksUp_taken hrun hn, gives_lookup hq hone]
  constructor
  · rintro ⟨h0, rep', hrep', hid⟩
    obtain rfl := Option.some.inj (hrep.symm.trans hrep')
    exact repNumber_atoi hid h0
  · intro h
    exact ⟨h.atoi.2.2, rep, hrep, h.atoi.2.1⟩

theorem looksUp_name {find t : Cstr} (hn : n ≠ 0)
    (hconv : conv s = askInt find [.str t] >>= fun id => if id < 0 then pure (-1, 0) else pure (id, n)) :
    LooksUp sv conv (some (.name find t)) s σ ↔ ∀ rep, sv.answer σ ⟨find, [.str t]⟩ = some rep → granted rep →
      0 ≤ atoi (repText rep) → HasId rep := by
  have hone : ∀ q', Lookup (.name find t) q' → q' = ⟨find, [.str t]⟩ := by rintro _ ⟨⟩; rfl
  have hrun : (conv s).run sv.call σ = some (if intAnswer (sv.answer σ ⟨find, [.str t]⟩) < 0 then (-1, 0)
      else (intAnswer (sv.answer σ ⟨find, [.str t]⟩), n), σ ++ [⟨find, [.str t]⟩]) := by
    rw [hconv, Prog.run_bind, askInt_call, Option.bind_some]
    dsimp only
    split_ifs <;> rfl
  by_cases hneg : intAnswer (sv.answer σ ⟨find, [.str t]⟩) < 0
  · rw [if_pos hneg] at hrun
    refine iff_of_true (looksUp_zero hrun _) fun rep hrep hgranted h0 => ?_
    rw [hrep, intAnswer, Option.elim_some, if_pos hgranted] at hneg
    exact absurd hneg (not_lt.2 h0)
  · rw [if_neg hneg] at hrun
    rcases hrep : sv.answer σ ⟨find, [.str t]⟩ with _ | rep <;> rw [hrep] at hneg hrun
    · exact absurd (by decide) hneg
    rw [intAnswer, Option.elim_some] at hneg hrun
    split_ifs at hneg hrun with hgranted
    · rw [looksUp_reply (.name find t) hone hrep hn hrun]
      refine ⟨fun h rep' hrep' _ _ => Option.some.inj hrep' ▸ h, fun h => h rep rfl hgranted (not_lt.1 hneg)⟩
    · exact absurd (by decide) hneg

theorem looksUp_current (hs : s.byte 0 = 99) :
    LooksUp sv valTrack (some .current) s σ ↔ Known sv σ (some .current) := by
  have hone : ∀ q', Lookup .current q' → q' = ⟨.lit "curtrack", []⟩ := by rintro _ ⟨⟩; rfl
  have hrun : (valTrack s).run sv.call σ =
      some ((rowAnswer ducTrackParse (sv.answer σ ⟨.lit "curtrack", []⟩)).elim (-1, 0) fun t => (t.id, 1),
        σ ++ [⟨.lit "curtrack", []⟩]) := by
    rw [valTrack, if_pos hs, Prog.run_bind, ducCmdCurtrack, askConv_call, Option.bind_some]
    cases rowAnswer ducTrackParse (sv.answer σ ⟨.lit "curtrack", []⟩) <;> rfl
  rw [Known]
  rcases hrep : sv.answer σ ⟨.lit "curtrack", []⟩ with _ | rep <;> rw [hrep] at hrun
  · exact iff_of_true (looksUp_zero hrun _) nofun
  by_cases hgranted : granted rep = true
  swap
  · rw [rowAnswer, Option.bind_some, if_neg hgranted] at hrun
    exact iff_of_true (looksUp_zero hrun _) fun rep' hrep' h => absurd (Option.some.inj hrep' ▸ h) hgranted
  rw [rowAnswer, Option.bind_some, if_pos hgranted] at hrun
  rcases hrow : (lineConverter ducTrackParse (repText rep)).1 with _ | tr <;> rw [hrow] at hrun
  · refine iff_of_true (looksUp_zero hrun _) fun rep' hrep' _ h => ?_
    obtain rfl := Option.some.inj hrep'
    rw [hrow] at h
    cases h
  · rw [Option.elim_some, (trackParse_id hrow).2] at hrun
    rw [looksUp_reply .current hone hrep Nat.one_ne_zero hrun]
    refine ⟨fun h rep' hrep' _ _ => Option.some.inj hrep' ▸ h, fun h => h rep rfl hgranted ?_⟩
    rw [hrow]
    rfl

theorem looksUp_position {album nr : ℤ} (hn : n ≠ 0)
    (hconv : conv s = ducCmdTrack2id (narrow album) (narrow nr) >>= fun id => pure (id, n)) :
    LooksUp sv conv (some (.position album nr)) s σ ↔ Known sv σ (some (.position album nr)) := by
  have hrun : (conv s).run sv.call σ =
      some ((intAnswer (sv.answer σ ⟨.lit "track2id %d %d", [.int (narrow album), .int (narrow nr)]⟩), n),
        σ ++ [⟨.lit "track2id %d %d", [.int (narrow album), .int (narrow nr)]⟩]) := by
    rw [hconv, Prog.run_bind, ducCmdTrack2id, askInt_call]
    rfl
  rw [Known]
  by_cases hint : IsInt album ∧ IsInt nr
  swap
  · refine iff_of_false (fun hup => hint ?_) fun h => hint ⟨h.1, h.2.1⟩
    obtain ⟨-, h | ⟨_, _, _, h, hq, -⟩⟩ := (looksUp_taken hrun hn).1 hup
    · cases h
    · obtain rfl := Option.some.inj h
      cases hq with
      | position ha hn => exact ⟨ha, hn⟩
  obtain ⟨ha, hnr⟩ := hint
  have hone : ∀ q', Lookup (.position album nr) q' → q' = ⟨.lit "track2id %d %d", [.int album, .int nr]⟩ := by
    rintro _ ⟨⟩; rfl
  rw [narrow_eq ha.1 ha.2, narrow_eq hnr.1 hnr.2] at hrun
  rw [and_iff_right ha, and_iff_right hnr]
  rcases hrep : sv.answer σ ⟨.lit "track2id %d %d", [.int album, .int nr]⟩ with _ | rep <;> rw [hrep] at hrun
  · refine iff_of_false (fun hup => ?_) (by simp)
    exact absurd ((looksUp_taken hrun hn).1 hup).1 (by decide)
  simp only [Option.some.injEq, exists_eq_left']
  by_cases hgranted : granted rep = true
  · rw [intAnswer, Option.elim_some, if_pos hgranted] at hrun
    exact looksUp_reply (.position ha hnr) hone hrep hn hrun
  · rw [intAnswer, Option.elim_some, if_neg hgranted] at hrun
    refine iff_of_false (fun hup => ?_) fun h => hgranted h.atoi.1
    exact absurd ((looksUp_taken hrun hn).1 hup).1 (by decide)

/-! ## The converters -/

theorem looksUp_named (find : Cstr) :
    LooksUp sv (valNamed fun t => askInt find [.str t]) (namedRef find s) s σ ↔ Known sv σ (namedRef find s) := by
  have hread : uintAt s 0 = (narrow (written s.bytes), (strtoul s.bytes).2) := uintAt_eq s 0
  rw [namedRef]
  by_cases hn : (strtoul s.bytes).2 = 0
  · rw [if_neg (not_not.2 hn), Known]
    have htake : (s.take (s.bytes.takeWhile fun b => b ≠ TAB && b ≠ 32).length).bytes.length =
        (s.bytes.takeWhile fun b => b ≠ TAB && b ≠ 32).length :=
      List.length_take_of_le (List.takeWhile_prefix _).length_le
    generalize hlen : (s.bytes.takeWhile fun b => b ≠ TAB && b ≠ 32).length = len at htake ⊢
    have hconv : valNamed (fun t => askInt find [.str t]) s = if 10 ≤ len then pure (-1, 0)
        else askInt find [.str (s.take len)] >>= fun id => if id < 0 then pure (-1, 0) else pure (id, len) := by
      rw [valNamed, hread, ← hlen]
      exact if_neg (not_not.2 hn)
    by_cases hlong : 10 ≤ len
    · rw [if_pos hlong] at hconv
      refine iff_of_true (looksUp_pure hconv _) fun _ h => ?_
      omega
    rw [if_neg hlong] at hconv
    by_cases hzero : len = 0
    · subst hzero
      refine iff_of_true (fun v n σ' hrun => ?_) fun h => absurd (List.length_eq_zero_iff.1 htake) h
      have hn0 : n = 0 := by
        rw [hconv, Prog.run_bind, askInt_call, Option.bind_some] at hrun
        dsimp only at hrun
        split_ifs at hrun <;> cases hrun <;> rfl
      subst hn0
      exact looksUp_zero hrun _ _ _ _ hrun
    · rw [looksUp_name hzero hconv]
      refine ⟨fun h _ _ => h, fun h => h ?_ (by omega)⟩
      intro hnil
      rw [hnil, List.length_nil] at htake
      exact hzero htake.symm
  · rw [if_pos hn]
    refine looksUp_number ?_ hn
    rw [valNamed, hread]
    change (if (strtoul s.bytes).2 ≠ 0 then _ else _) = _
    rw [if_pos hn]

theorem looksUp_track : LooksUp sv valTrack (trackRef s) s σ ↔ Known sv σ (trackRef s) := by
  have hread : uintAt s 0 = (narrow (written s.bytes), (strtoul s.bytes).2) := uintAt_eq s 0
  have hrefused : valTrack s = pure (-1, 0) → LooksUp sv valTrack none s σ := fun h =>
    looksUp_pure h none
  rw [trackRef]
  split_ifs with hc hn hslash hk
  · exact looksUp_current hc
  · refine iff_of_true (hrefused ?_) trivial
    rw [valTrack, if_neg hc, hread]
    exact if_pos hn
  · refine looksUp_number ?_ hn
    rw [valTrack, if_neg hc, hread]
    exact (if_neg hn).trans (if_pos hslash)
  all_goals
    have hread' := uintAt_eq s ((strtoul s.bytes).2 + 1)
  · refine iff_of_true (hrefused ?_) trivial
    rw [valTrack, if_neg hc, hread]
    refine (if_neg hn).trans ((if_neg hslash).trans ?_)
    dsimp only
    rw [hread']
    exact if_pos hk
  · refine looksUp_position (n := (strtoul s.bytes).2 + 1 + (strtoul (s.bytes.drop ((strtoul s.bytes).2 + 1))).2)
      (by omega) ?_
    rw [valTrack, if_neg hc, hread]
    refine (if_neg hn).trans ((if_neg hslash).trans ?_)
    dsimp only
    rw [hread']
    exact if_neg hk

end Dudlc
