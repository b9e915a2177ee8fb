import Dudlc.Formats
import Dudlc.Values

/-!
# A server's tracks

* `Catalogue`: the tracks of the albums, and the current one.
* `Serves`: a server that answers requests for them.
* `curtrack_run`, `tracksalbum_run`, `track2id_run`: what the library makes of its replies.
* `idlAddalbum_run`: what `idl_addalbum` adds.
-/

namespace Dudlc

open Lib

/-- The tracks of each album in the server's order, and the current track. An album has an id that is not
negative, and so has a track of an album. -/
structure Catalogue where
  albums : ℤ → List DucTrack
  current : DucTrack
  fits : ∀ a, ∀ t ∈ albums a, ∀ v ∈ t.values, v.Fits
  current_fits : ∀ v ∈ current.values, v.Fits
  nonneg : ∀ a, ∀ t ∈ albums a, 0 ≤ t.id
  no_album : ∀ a < 0, albums a = []

/-- The track of an album at a position. -/
def Catalogue.track (cat : Catalogue) (a n : ℤ) : Option DucTrack := (cat.albums a).find? fun t => t.albumnr = n

/-- A reply that grants a request: its code starts with a 2, and these are the texts of its lines. -/
def Grants (rep texts : List (List UInt8)) : Prop :=
  ∃ c, c.head? = some 50 ∧ IsReply c rep ∧ rep.map (List.drop 4) = texts

/-- A reply that refuses a request: its code starts with a 5. -/
def Denies (rep : List (List UInt8)) : Prop := rep.head?.bind List.head? = some 53

/-- The record of a track on a line. -/
def DucTrack.line (t : DucTrack) : List UInt8 := encode escape t.values

/-- The server answers requests for tracks from the catalogue. For an album without tracks it sends an empty
line or an error. -/
structure Serves (sv : Server) (cat : Catalogue) : Prop where
  curtrack : ∀ sent, ∃ rep, sv.answer sent ⟨.lit "curtrack", []⟩ = some rep ∧ Grants rep [cat.current.line]
  tracksalbum : ∀ sent a, ∃ rep, sv.answer sent ⟨.lit "tracksalbum %d", [.int a]⟩ = some rep ∧
    (Grants rep ((cat.albums a).map DucTrack.line) ∨ (cat.albums a = [] ∧ (Grants rep [[]] ∨ Denies rep)))
  track2id : ∀ sent a n, ∃ rep, sv.answer sent ⟨.lit "track2id %d %d", [.int a, .int n]⟩ = some rep ∧
    (cat.track a n).elim (Denies rep) fun t => Grants rep [decimalInt t.id]

variable {rep : List (List UInt8)} {l : List UInt8} {ls : List (List UInt8)} {t : DucTrack} {sv : Server}
  {cat : Catalogue}

/-! ## Replies -/

theorem Grants.code (h : Grants rep ls) : rep.head?.bind List.head? = some 50 := by
  obtain ⟨c, hc, hrep, -⟩ := h
  obtain ⟨l, rep, rfl⟩ := List.exists_cons_of_ne_nil hrep.ne_nil
  change l.head? = some 50
  rw [← hrep.code] at hc
  cases l with
  | nil => cases hc
  | cons b l => exact hc

theorem Grants.texts (h : Grants rep ls) : rep.map (List.drop 4) = ls := by
  obtain ⟨c, -, -, htexts⟩ := h
  exact htexts

theorem Grants.last (h : Grants rep [l]) : (rep.getLastD []).drop 4 = l := by
  obtain ⟨k, rfl, hk⟩ := List.map_eq_singleton_iff.1 h.texts
  exact hk

theorem lineConverter_reads {α : Type} {p : Reader α} {a : α} (h : ReadsAs p l a) : lineConverter p l = (some a, 0) := by
  have heq : p _ ⟨l ++ [0], rfl⟩ 0 = some (some a, 0 + l.length) :=
    h [] List.not_mem_nil (Or.inl rfl) _ _ [] [] (by simp)
  rw [lineConverter, heq]
  simp

theorem itRecords_reads {α : Type} {p : Reader α} {line : α → List UInt8} (as : List α)
    (h : ∀ a ∈ as, ReadsAs p (line a) a) : itRecords (lineConverter p) (as.map line) = some (as.map some) := by
  rw [itRecords, if_pos, List.map_map]
  · exact congrArg some (List.map_congr_left fun a ha => congrArg Prod.fst (lineConverter_reads (h a ha)))
  · rw [List.forall_mem_map]
    exact fun a ha => congrArg Prod.snd (lineConverter_reads (h a ha))

theorem DucTrack.reads (hfits : ∀ v ∈ t.values, v.Fits) : ReadsAs ducTrackParse t.line t :=
  fills_track.reads_encoded undoes_escape DucTrack.values_injective rfl hfits

theorem lineConverter_line (hfits : ∀ v ∈ t.values, v.Fits) : lineConverter ducTrackParse t.line = (some t, 0) :=
  lineConverter_reads (DucTrack.reads hfits)

theorem lineConverter_nil : lineConverter ducTrackParse [] = (none, 0) := by decide +kernel

theorem itRecords_lines (ts : List DucTrack) (hfits : ∀ t ∈ ts, ∀ v ∈ t.values, v.Fits) :
    itRecords (lineConverter ducTrackParse) (ts.map DucTrack.line) = some (ts.map some) :=
  itRecords_reads ts fun t ht => DucTrack.reads (hfits t ht)

/-! ## Requests -/

section Asked

variable {sent : List Request} {fmt : Cstr} {args : List Arg}

theorem askInt_server (h : sv.answer sent ⟨fmt, args⟩ = some rep) : (askInt fmt args).run sv.op sent =
    some (if rep.head?.bind List.head? = some 50 then atoi ((rep.getLastD []).drop 4) else -1,
      sent ++ [⟨fmt, args⟩]) := by
  rw [askInt, Prog.run_bind, Prog.run_ask]
  change ((sv.answer sent ⟨fmt, args⟩).map _).bind _ = _
  rw [h]
  rfl

theorem askSucc_grants (h : sv.answer sent ⟨fmt, args⟩ = some rep) (hgrants : Grants rep ls) :
    (askSucc fmt args).run sv.op sent = some (0, sent ++ [⟨fmt, args⟩]) := by
  rw [askSucc, Prog.run_bind, Prog.run_ask]
  change ((sv.answer sent ⟨fmt, args⟩).map _).bind _ = _
  rw [h, Option.map_some, Option.bind_some]
  change some ((if rep.head?.bind List.head? = some 50 ∨ _ then (0 : ℤ) else -1), _) = _
  rw [if_pos (Or.inl hgrants.code)]
  rfl

theorem askDouble_grants {t : Cstr} (h : sv.answer sent ⟨fmt, args⟩ = some rep) (hgrants : Grants rep [t.bytes]) :
    (askDouble fmt args).run sv.op sent = some ((strtod t.bytes).1, sent ++ [⟨fmt, args⟩]) := by
  have hstring : (askString fmt args).run sv.op sent = some (some t, sent ++ [⟨fmt, args⟩]) := by
    rw [askString, Prog.run_bind, Prog.run_ask]
    change ((sv.answer sent ⟨fmt, args⟩).map _).bind _ = _
    rw [h, Option.map_some, Option.bind_some]
    change some (Option.map Cstr.ofBytes (if rep.head?.bind List.head? = some 50 then some _ else none), _) = _
    rw [if_pos hgrants.code, hgrants.last, Option.map_some, Cstr.ofBytes_eq t.free]
    rfl
  rw [askDouble, Prog.run_bind, hstring]
  rfl

theorem askInt_grants {z : ℤ} (h : sv.answer sent ⟨fmt, args⟩ = some rep) (hgrants : Grants rep [decimalInt z])
    (hz : -2 ^ 31 ≤ z ∧ z < 2 ^ 31) : (askInt fmt args).run sv.op sent = some (z, sent ++ [⟨fmt, args⟩]) := by
  have hscan : strtol (decimalInt z) = (z, (decimalInt z).length) := by
    have hscan := strtol_decimalInt (z := z) (r := []) (by simp only [LONG_MAX]; omega)
      (by simp only [LONG_MAX]; omega) (by simp)
    rwa [List.append_nil] at hscan
  rw [askInt_server h, if_pos hgrants.code, hgrants.last, atoi, hscan, toInt_eq hz]

theorem askConv_server {α : Type} (p : Reader α) (h : sv.answer sent ⟨fmt, args⟩ = some rep) :
    (askConv p fmt args).run sv.op sent =
      some (if rep.head?.bind List.head? = some 50 then (lineConverter p ((rep.getLastD []).drop 4)).1 else none,
        sent ++ [⟨fmt, args⟩]) := by
  rw [askConv, Prog.run_bind, Prog.run_ask]
  change ((sv.answer sent ⟨fmt, args⟩).map _).bind _ = _
  rw [h]
  rfl

theorem askIter_server {α : Type} (p : Reader α) (h : sv.answer sent ⟨fmt, args⟩ = some rep) :
    (askIter p fmt args).run sv.op sent =
      some ((if rep.head?.bind List.head? = some 53 then none
        else (itRecords (lineConverter p) (rep.map (List.drop 4))).map DucIter.mk).map walk,
        sent ++ [⟨fmt, args⟩]) := by
  rw [askIter, Prog.run_bind, Prog.run_ask]
  change ((sv.answer sent ⟨fmt, args⟩).map _).bind _ = _
  rw [h]
  rfl

theorem askConv_track (h : sv.answer sent ⟨fmt, args⟩ = some rep) (hgrants : Grants rep [t.line])
    (hfits : ∀ v ∈ t.values, v.Fits) :
    (askConv ducTrackParse fmt args).run sv.op sent = some (some t, sent ++ [⟨fmt, args⟩]) := by
  rw [askConv_server ducTrackParse h, if_pos hgrants.code, hgrants.last, lineConverter_line hfits]

theorem askInt_elim {o : Option ℤ} (h : sv.answer sent ⟨fmt, args⟩ = some rep)
    (ho : o.elim (Denies rep) fun z => Grants rep [decimalInt z]) (hz : ∀ z ∈ o, -2 ^ 31 ≤ z ∧ z < 2 ^ 31) :
    (askInt fmt args).run sv.op sent = some (o.getD (-1), sent ++ [⟨fmt, args⟩]) := by
  cases o with
  | none =>
    have hcode : rep.head?.bind List.head? = some 53 := ho
    rw [askInt_server h, hcode, if_neg (by decide)]
    rfl
  | some z => exact askInt_grants h ho (hz z rfl)

theorem askIter_tracks {ts : List DucTrack} (h : sv.answer sent ⟨fmt, args⟩ = some rep)
    (hgrants : Grants rep (ts.map DucTrack.line) ∨ (ts = [] ∧ (Grants rep [[]] ∨ Denies rep)))
    (hfits : ∀ t ∈ ts, ∀ v ∈ t.values, v.Fits) : ∃ o,
    (askIter ducTrackParse fmt args).run sv.op sent = some (o, sent ++ [⟨fmt, args⟩]) ∧ o.getD [] = ts := by
  refine ⟨_, askIter_server ducTrackParse h, ?_⟩
  rcases hgrants with hgrants | ⟨rfl, hgrants | hrefuses⟩
  · rw [hgrants.code, if_neg (by decide), hgrants.texts, itRecords_lines ts hfits]
    have hwalk : (walk ⟨ts.map some⟩).map some = ts.map some := walk_map_some.2 (by simp)
    exact List.map_injective_iff.2 (Option.some_injective _) hwalk
  · rw [hgrants.code, if_neg (by decide), hgrants.texts, itRecords, List.map_singleton, lineConverter_nil]
    rfl
  · have hcode : rep.head?.bind List.head? = some 53 := hrefuses
    rw [if_pos hcode]
    rfl

end Asked

theorem Serves.curtrack_run (h : Serves sv cat) (sent : List Request) : ∃ sent',
    ducCmdCurtrack.run sv.op sent = some (some cat.current, sent') := by
  obtain ⟨rep, hrep, hgrants⟩ := h.curtrack sent
  exact ⟨_, askConv_track hrep hgrants cat.current_fits⟩

theorem DucTrack.id_fits (h : ∀ v ∈ t.values, v.Fits) : -2 ^ 31 ≤ t.id ∧ t.id < 2 ^ 31 :=
  h (.number t.id) (by simp [DucTrack.values])

theorem Serves.track2id_run (h : Serves sv cat) (sent : List Request) (a n : ℤ) : ∃ sent',
    (ducCmdTrack2id a n).run sv.op sent = some ((cat.track a n).elim (-1) DucTrack.id, sent') := by
  obtain ⟨rep, hrep, hgrants⟩ := h.track2id sent a n
  refine ⟨sent ++ [⟨.lit "track2id %d %d", [.int a, .int n]⟩], ?_⟩
  cases ht : cat.track a n with
  | none =>
    rw [ht] at hgrants
    exact askInt_elim (o := none) hrep hgrants (by simp)
  | some t =>
    rw [ht] at hgrants
    exact askInt_grants hrep hgrants (DucTrack.id_fits (cat.fits a t (List.mem_of_find?_eq_some ht)))

theorem Serves.tracksalbum_run (h : Serves sv cat) (sent : List Request) (a : ℤ) : ∃ ts sent',
    (ducCmdTracksalbum a).run sv.op sent = some (ts, sent') ∧ ts.getD [] = cat.albums a := by
  obtain ⟨rep, hrep, hgrants⟩ := h.tracksalbum sent a
  obtain ⟨o, hrun, ho⟩ := askIter_tracks hrep hgrants (cat.fits a)
  exact ⟨o, _, hrun, ho⟩

/-! ## Albums -/

/-- The ids of the tracks of an album from the position `first` to `last`, where these are not negative. -/
def Catalogue.between (cat : Catalogue) (a first last : ℤ) : List ℤ :=
  ((cat.albums a).filter fun t =>
    (first < 0 ∨ first ≤ t.albumnr) ∧ (last < 0 ∨ last ≥ t.albumnr)).map DucTrack.id

theorem Serves.idlAddalbum_run (h : Serves sv cat) (sent : List Request) (idl : List ℤ) (a first last : ℤ) :
    ∃ sent', (idlAddalbum idl a first last).run sv.op sent =
      some (idl ++ cat.between (if a < 0 then cat.current.album.id else a) first last, sent') := by
  have hnone : idl ++ (List.filter (fun t : DucTrack =>
      (first < 0 ∨ first ≤ t.albumnr) ∧ (last < 0 ∨ last ≥ t.albumnr)) []).map DucTrack.id = idl := by simp
  rw [idlAddalbum]
  by_cases ha : a < 0
  · obtain ⟨sent₁, hcur⟩ := h.curtrack_run sent
    obtain ⟨ts, sent₂, hrun, hts⟩ := h.tracksalbum_run sent₁ cat.current.album.id
    refine ⟨sent₂, ?_⟩
    rw [if_pos ha, if_pos ha, Catalogue.between, ← hts, Prog.run_bind, hcur]
    change (Prog.run sv.op (ducCmdTracksalbum _ >>= _) sent₁) = _
    rw [Prog.run_bind, hrun]
    cases ts with
    | none => rw [Option.getD_none, hnone]; rfl
    | some ts => rfl
  · obtain ⟨ts, sent₁, hrun, hts⟩ := h.tracksalbum_run sent a
    refine ⟨sent₁, ?_⟩
    rw [if_neg ha, if_neg ha, Catalogue.between, ← hts]
    change (Prog.run sv.op (ducCmdTracksalbum _ >>= _) sent) = _
    rw [Prog.run_bind, hrun]
    cases ts with
    | none => rw [Option.getD_none, hnone]; rfl
    | some ts => rfl

/-! ## A server for each catalogue -/

/-- The lines of a reply with the code 200. -/
def grant : List (List UInt8) → List (List UInt8)
  | [] => [(Cstr.lit "200 ").bytes]
  | [t] => [(Cstr.lit "200 ").bytes ++ t]
  | t :: ts => ((Cstr.lit "200-").bytes ++ t) :: grant ts

theorem grants_grant (ts : List (List UInt8)) (hne : ts ≠ []) : Grants (grant ts) ts := by
  refine ⟨(Cstr.lit "200").bytes, rfl, ?_⟩
  induction ts with
  | nil => exact absurd rfl hne
  | cons t ts ih =>
    cases ts with
    | nil => exact ⟨.last rfl (show some (32 : UInt8) ≠ some 45 by decide), rfl⟩
    | cons u ts =>
      obtain ⟨hrep, htexts⟩ := ih (List.cons_ne_nil _ _)
      exact ⟨.more rfl rfl hrep, congrArg (t :: ·) htexts⟩

/-- A server that serves the catalogue on the descriptor 3. -/
def Catalogue.server (cat : Catalogue) : Server where
  fd := 3
  answer _ q :=
    match q.args with
    | [] => some (grant [cat.current.line])
    | [.int a] => some (grant ((cat.albums a).map DucTrack.line))
    | [.int a, .int n] => some ((cat.track a n).elim [(Cstr.lit "501 no such track").bytes] fun t =>
        grant [decimalInt t.id])
    | _ => none

theorem Catalogue.serves (cat : Catalogue) : Serves cat.server cat where
  curtrack _ := ⟨_, rfl, grants_grant _ (List.cons_ne_nil _ _)⟩
  tracksalbum _ a := by
    refine ⟨_, rfl, ?_⟩
    by_cases hnil : cat.albums a = []
    · refine Or.inr ⟨hnil, Or.inl ?_⟩
      rw [hnil]
      exact grants_grant [[]] (List.cons_ne_nil _ _)
    · exact Or.inl (grants_grant _ (by simpa using hnil))
  track2id _ a n := by
    refine ⟨_, rfl, ?_⟩
    cases cat.track a n with
    | none => exact rfl
    | some t => exact grants_grant [decimalInt t.id] (List.cons_ne_nil _ _)

end Dudlc
