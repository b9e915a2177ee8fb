import Dudlc.Ownership
import Dudlc.Requests

/-!
# The windows in dynamic memory

The GTK client asks for records and lists, shows them in its windows and releases them.

* `numField`, `ptrField`, `Peeks`: the fields of a record in memory.
* `WindowOp`, `windowStep`: what the client does when it is connected, idle, and when the user selects or searches.
* `Displayed`, `windowStep_displayed`: the account of its blocks.
* **`windows_memory`**: a search leaves its iterator, nothing else leaves anything, and the browser is opened at no
  record when no track is played.
-/

namespace Dudlc

open Lib Lib.HeapM Lib.Assn

/-! ## The fields of a record -/

/-- A field of a struct. -/
def slotAt (p i : ℕ) : HeapM Cell (Option Slot) := do
  match ← load p with
  | some (.struct vs) => return vs[i]?
  | _ => crash none

/-- A field that is a number. -/
def numField (p i : ℕ) : HeapM Cell ℤ := do
  match ← slotAt p i with
  | some (.num z) => return z
  | _ => crash 0

/-- A field that is a pointer. -/
def ptrField (p i : ℕ) : HeapM Cell ℕ := do
  match ← slotAt p i with
  | some (.ptr q) => return q
  | _ => crash 0

/-- The record without what a field owns. -/
def restAt (Ps : List Part) (p i : ℕ) (v : Slot) : Assn Cell :=
  ⨆ vs : List Slot, fact (vs[i]? = some v) * (cell p (.struct vs) * parts (Ps.eraseIdx i) (vs.eraseIdx i))

variable {Ps : List Part} {P : Part} {vs : List Slot} {p i : ℕ} {v : Slot} {own : ℕ → Assn Cell}

theorem parts_focus (hP : Ps[i]? = some P) (hv : vs[i]? = some v) :
    parts Ps vs = P v * parts (Ps.eraseIdx i) (vs.eraseIdx i) := by
  induction i generalizing Ps vs with
  | zero =>
    obtain ⟨Ps, rfl⟩ : ∃ Qs, Ps = P :: Qs := by cases Ps <;> simp_all
    obtain ⟨vs, rfl⟩ : ∃ us, vs = v :: us := by cases vs <;> simp_all
    rfl
  | succ i ih =>
    obtain ⟨Q, Ps, rfl⟩ := List.exists_cons_of_ne_nil (l := Ps) (by rintro rfl; cases hP)
    obtain ⟨u, vs, rfl⟩ := List.exists_cons_of_ne_nil (l := vs) (by rintro rfl; cases hv)
    rw [List.getElem?_cons_succ] at hP hv
    rw [List.eraseIdx_cons_succ, List.eraseIdx_cons_succ, parts, parts, ih hP hv, mul_left_comm]

theorem parts_length (h : Ps.length ≠ vs.length) : parts Ps vs = ⊥ := by
  induction Ps generalizing vs with
  | nil =>
    cases vs with
    | nil => exact absurd rfl h
    | cons u vs => rfl
  | cons Q Ps ih =>
    cases vs with
    | nil => rfl
    | cons u vs => rw [parts, ih (by simpa using h), Quantale.mul_bot]

theorem restAt_structAt (hP : Ps[i]? = some P) : P v * restAt Ps p i v ≤ structAt Ps p := by
  rw [restAt, Quantale.mul_iSup_distrib]
  refine iSup_le fun vs => ?_
  rw [mul_left_comm]
  intro h hh
  obtain ⟨hv, hh⟩ := fact_mul.1 hh
  rw [mul_left_comm, ← parts_focus hP hv] at hh
  exact (iSup_apply _).2 ⟨vs, hh⟩

/-- **A field is read.** -/
theorem triple_slot (hP : Ps[i]? = some P) : Triple (structAt Ps p) (slotAt p i)
    (quiet fun v => ⨆ u, fact (v = some u) * (P u * restAt Ps p i u)) := by
  refine Triple.iSup fun vs => Triple.load (Triple.pure ?_)
  rw [quiet, fact_true rfl, one_mul]
  by_cases hlen : Ps.length = vs.length
  · have hi : i < vs.length := hlen ▸ (List.getElem?_eq_some_iff.1 hP).1
    have hv : vs[i]? = some vs[i] := List.getElem?_eq_getElem hi
    refine le_iSup_of_le vs[i] ?_
    rw [fact_true hv, one_mul, parts_focus hP hv, mul_left_comm]
    refine mul_le_mul_right (le_iSup_of_le vs ?_) _
    rw [fact_true hv, one_mul]
  · rw [parts_length hlen, Quantale.mul_bot]
    exact bot_le

/-- The program finds a number in its part of the memory, and leaves it as it is. -/
def Peeks (P : Assn Cell) (c : HeapM Cell ℤ) (z : ℤ) : Prop := Triple P c (quiet fun x => fact (x = z) * P)

theorem peeks_num {z : ℤ} (hP : Ps[i]? = some (numberAt z)) : Peeks (structAt Ps p) (numField p i) z := by
  refine (triple_slot hP).seq fun v => Triple.iSup fun u => Triple.fact fun hv => ?_
  rw [numberAt]
  refine Triple.fact fun hu => ?_
  rw [hv, hu]
  refine Triple.pure ?_
  rw [quiet, fact_true rfl, fact_true rfl, one_mul, one_mul, ← one_mul (restAt _ _ _ _), ← fact_true hu, hu]
  exact restAt_structAt hP

theorem triple_ptrField (hP : Ps[i]? = some (subAt own)) : Triple (structAt Ps p) (ptrField p i)
    (quiet fun q => own q * restAt Ps p i (.ptr q)) := by
  refine (triple_slot hP).seq fun v => Triple.iSup fun u => Triple.fact fun hv => ?_
  simp only [subAt, Quantale.iSup_mul_distrib]
  refine Triple.iSup fun q => ?_
  rw [mul_assoc]
  refine Triple.fact fun hu => ?_
  rw [hv, hu]
  refine Triple.pure ?_
  rw [quiet, fact_true rfl, one_mul]

theorem peeks_sub {c : ℕ → HeapM Cell ℤ} {z : ℤ} (hP : Ps[i]? = some (subAt own)) (hc : ∀ q, Peeks (own q) (c q) z) :
    Peeks (structAt Ps p) (ptrField p i >>= c) z := by
  refine (triple_ptrField hP).seq fun q => ((hc q).frame _).post fun x b => ?_
  have hback : subAt own (.ptr q) * restAt Ps p i (.ptr q) ≤ structAt Ps p := restAt_structAt hP
  rw [quiet, quiet, mul_assoc, mul_assoc]
  refine mul_le_mul_right (mul_le_mul_right (le_trans (mul_le_mul_left ?_ _) hback) _) _
  refine le_iSup_of_le q ?_
  rw [fact_true rfl, one_mul]

/-! ## What the windows do -/

/-- `cur->album->id` -/
def albumId (t : ℕ) : HeapM Cell ℤ := ptrField t 5 >>= fun q => numField q 0

/-- `cur->artist->id` -/
def artistId (t : ℕ) : HeapM Cell ℤ := ptrField t 4 >>= fun q => numField q 0

/-- `track->album->artist->id` -/
def albumArtistId (t : ℕ) : HeapM Cell ℤ := ptrField t 5 >>= fun q => ptrField q 3 >>= fun r => numField r 0

/-- `track->id` -/
def trackId (t : ℕ) : HeapM Cell ℤ := numField t 0

theorem peeks_albumId (t : DucTrack) (p : ℕ) : Peeks (t.At p) (albumId p) t.album.id :=
  peeks_sub rfl fun _ => peeks_num rfl

theorem peeks_artistId (t : DucTrack) (p : ℕ) : Peeks (t.At p) (artistId p) t.artist.id :=
  peeks_sub rfl fun _ => peeks_num rfl

theorem peeks_albumArtistId (t : DucTrack) (p : ℕ) : Peeks (t.At p) (albumArtistId p) t.album.artist.id :=
  peeks_sub rfl fun _ => peeks_sub rfl fun _ => peeks_num rfl

theorem peeks_trackId (t : DucTrack) (p : ℕ) : Peeks (t.At p) (trackId p) t.id := peeks_num rfl

variable (ev : Handlers)

/-- A list is shown and released. -/
def fillList (k : RowType) (i : ℕ) : HeapM Cell Unit := do
  eachRow i (fun _ => k.free) ()
  ducItDoneHeap i

/-- A list is asked for, and shown if it comes. -/
def showList (k : RowType) (w : World) (cmd : Cstr) (ap : List Arg) : HeapM Cell World := do
  let (i, w) ← ducItNewvHeap ev k w cmd ap
  if i = 0 then return w
  else
    fillList k i
    return w

/-- `ev_conn` -/
def evConnHeap (w : World) : HeapM Cell World := do
  let (_, w) ← look (ducCmdStatus.run (World.op ev) w)
  let (t, w) ← ducCmdConvHeap ev .track w (.lit "curtrack") []
  if t = 0 then showList ev .queue w (.lit "queuelist") []
  else
    ducTrackFree t
    showList ev .queue w (.lit "queuelist") []

/-- `detail_update_idle`, when an update is due. -/
def detailUpdateIdleHeap (w : World) : HeapM Cell World := do
  let (cur, w) ← ducCmdConvHeap ev .track w (.lit "curtrack") []
  if cur = 0 then return w
  else
    let album ← albumId cur
    let w ← showList ev .track w (.lit "tracksalbum %d") [.int album]
    let artist ← artistId cur
    let w ← showList ev .album w (.lit "albumsartist %d") [.int artist]
    ducTrackFree cur
    return w

/-- The list of what is selected, if anything is. -/
def selectedList (k : RowType) (w : World) (cmd : Cstr) (id : ℤ) : HeapM Cell (ℕ × World) :=
  if 0 ≤ id then ducItNewvHeap ev k w cmd [.int id] else pure (0, w)

/-- `browse_artist_select_on_change` and `browse_album_select_on_change` -/
def selectOnChange (k : RowType) (w : World) (cmd : Cstr) (id : ℤ) : HeapM Cell World := do
  let (it, w) ← selectedList ev k w cmd id
  fillList k it
  return w

/-- What `tree_view_select` finds: the list is empty, it has the id, or it does not. -/
inductive Selected
  | empty
  | found
  | missing
  deriving DecidableEq

/-- `tree_view_select`. When the list has rows but not this one, it uses a path that is not set. -/
def treeViewSelect (k : RowType) (w : World) (cmd : Cstr) (id : ℤ) : Selected → HeapM Cell World
  | .empty => return w
  | .found => selectOnChange ev k w cmd id
  | .missing => look none

/-- `browse_window`; with what the lists of artists, albums and tracks have. -/
def browseWindow (w : World) (artist album track : ℤ) (has : Selected × Selected × Selected) : HeapM Cell World := do
  let (artists, w) ← ducItNewvHeap ev .artist w (.lit "artistlist") []
  fillList .artist artists
  if 0 ≤ artist then
    let w ← treeViewSelect ev .album w (.lit "albumsartist %d") artist has.1
    if 0 ≤ album then
      let w ← treeViewSelect ev .track w (.lit "tracksalbum %d") album has.2.1
      if 0 ≤ track ∧ has.2.2 = .missing then look none else return w
    else return w
  else return w

/-- The browser at the track. -/
def browseTrack (w : World) (track : ℕ) (has : Selected × Selected × Selected) : HeapM Cell World := do
  let artist ← albumArtistId track
  let album ← albumId track
  let id ← trackId track
  let w ← browseWindow ev w artist album id has
  ducTrackFree track
  return w

/-- `open_browse`. It does not check for NULL. -/
def openBrowse (w : World) (has : Selected × Selected × Selected) : HeapM Cell World := do
  let (track, w) ← ducCmdConvHeap ev .track w (.lit "curtrack") []
  if track = 0 then crash w else browseTrack ev w track has

/-- `search_button_on_click`, with the iterator that it leaves. -/
def searchButtonOnClick (w : World) (filter : Cstr) : HeapM Cell (ℕ × World) := do
  let (it, w) ← ducItNewvHeap ev .track w (.lit "tracksearchf %s") [.str filter]
  eachRow it (fun _ => RowType.free .track) ()
  return (it, w)

/-! ## What they leave -/

section Steps

variable {ev} {α β : Type} {F Q : Assn Cell} {w : World} {k : RowType} {cmd : Cstr} {ap : List Arg} {id : ℤ}

theorem Restores.bind {c : HeapM Cell α} {f : α → HeapM Cell β} (hc : Restores c)
    (hf : ∀ a, Triple F (f a) fun _ _ => Q) : Triple F (c >>= f) fun _ _ => Q := by
  have hframe := hc.frame F
  simp only [one_mul] at hframe
  exact hframe.bind fun a _ => hf a

theorem restores_look {o : Option α} : Restores (look o) := by
  intro G s a s' hs hp h
  obtain ⟨b, -, heq⟩ := Option.map_eq_some_iff.1 h
  obtain ⟨rfl, rfl⟩ := Prod.mk.inj heq
  exact ⟨hs, false, (Bool.or_false _).symm, hp⟩

theorem Peeks.bind {P : Assn Cell} {c : HeapM Cell ℤ} {z : ℤ} {f : ℤ → HeapM Cell β} {R : β → Bool → Assn Cell}
    (hc : Peeks P c z) (hf : Triple P (f z) R) : Triple P (c >>= f) R := by
  refine Triple.seq hc fun x => Triple.fact fun hx => ?_
  rwa [hx]

/-- An iterator, or NULL. -/
def maybeIter (k : RowType) (i : ℕ) : Assn Cell := fact (i = 0) ⊔ ⨆ it, iterAt k i it

theorem triple_newv_maybe : Triple 1 (ducItNewvHeap ev k w cmd ap) fun x _ => maybeIter k x.1 :=
  (triple_newv ev k w cmd ap).post fun _ _ => sup_le_sup_left
    (iSup_mono fun _ => mul_le_of_le_one_left' fact_le_one) _

theorem eachRow_null (σ : Arena Cell) : eachRow 0 (fun _ => k.free) () σ = some ((), σ) := rfl

theorem triple_eachRow_null : Triple 1 (eachRow 0 (fun _ => k.free) ()) fun _ _ => 1 := by
  intro G s a s' hs hp h
  rw [eachRow_null] at h
  obtain ⟨-, rfl⟩ := Prod.mk.inj (Option.some.inj h)
  exact ⟨hs, false, (Bool.or_false _).symm, hp⟩

/-- **A list is shown and released.** -/
theorem triple_fillList {i : ℕ} : Triple (maybeIter k i) (fillList k i) fun _ _ => 1 := by
  refine Triple.sup ?_ (Triple.iSup fun it => ?_)
  · rw [← mul_one (fact _)]
    refine Triple.fact fun hi => ?_
    rw [hi]
    refine triple_eachRow_null.bind fun _ _ => ?_
    rw [ducItDoneHeap, if_pos rfl]
    exact Triple.pure le_rfl
  · refine (triple_eachRow (uses_free _) ()).seq fun _ => Triple.iSup fun it' => Triple.fact fun _ => ?_
    simp only [keptRows, Bool.false_eq_true, if_false, lostAt, List.map_nil, List.prod_nil, one_mul]
    exact triple_done.post fun _ _ => mul_le_of_le_one_left' fact_le_one

theorem restores_showList : Restores (showList ev k w cmd ap) := by
  refine triple_newv_maybe.bind fun x _ => ?_
  dsimp only
  split_ifs with hx
  · refine Triple.pure (sup_le fact_le_one (iSup_le fun it => ?_))
    simp [iterAt, hx]
  · exact triple_fillList.bind fun _ _ => Triple.pure le_rfl

theorem restores_select : Restores (selectOnChange ev k w cmd id) := by
  have hnull : (1 : Assn Cell) ≤ maybeIter k 0 := le_sup_of_le_left (fact_true rfl).ge
  have hit : Triple 1 (selectedList ev k w cmd id) fun x _ => maybeIter k x.1 := by
    rw [selectedList]
    split_ifs
    · exact triple_newv_maybe
    · exact Triple.pure hnull
  exact hit.bind fun x _ => triple_fillList.bind fun _ _ => Triple.pure le_rfl

theorem triple_conv_maybe : Triple 1 (ducCmdConvHeap ev k w cmd ap) fun x _ => ⨆ a, rowAt k x.1 a :=
  (triple_conv ev k w cmd ap).post fun _ _ => iSup_mono fun _ => mul_le_of_le_one_left' fact_le_one

/-- **The current track**, which is there or not. -/
theorem triple_curtrack {f : ℕ × World → HeapM Cell β} (hnull : ∀ w', Triple 1 (f (0, w')) fun _ _ => 1)
    (htrack : ∀ t p w', p ≠ 0 → Triple (DucTrack.At t p) (f (p, w')) fun _ _ => 1) :
    Restores (ducCmdConvHeap ev .track w (.lit "curtrack") [] >>= f) := by
  refine triple_conv_maybe.bind fun ⟨p, w'⟩ _ => Triple.iSup fun a => ?_
  cases a with
  | none =>
    rw [rowAt, ← mul_one (fact _)]
    refine Triple.fact fun hp => ?_
    dsimp only at hp
    rw [hp]
    exact hnull w'
  | some t =>
    by_cases hp : p = 0
    · rw [rowAt, hp, RowType.allocates .track |>.ne_null]
      exact Triple.bot
    · exact htrack t p w' hp

theorem triple_trackFree (t : DucTrack) (p : ℕ) : Triple (t.At p) (ducTrackFree p) fun _ _ => 1 :=
  (RowType.allocates .track |>.frees t p).post fun _ _ => mul_le_of_le_one_left' fact_le_one

theorem restores_evConn : Restores (evConnHeap ev w) := by
  refine restores_look.bind fun x => triple_curtrack (fun w' => ?_) fun t p w' hp => ?_
  · exact restores_showList
  · dsimp only
    rw [if_neg hp]
    exact (triple_trackFree t p).bind fun _ _ => restores_showList

theorem restores_detailUpdateIdle : Restores (detailUpdateIdleHeap ev w) := by
  refine triple_curtrack (fun w' => Triple.pure le_rfl) fun t p w' hp => ?_
  dsimp only
  rw [if_neg hp]
  refine (peeks_albumId t p).bind (restores_showList.bind fun w' => (peeks_artistId t p).bind
    (restores_showList.bind fun w' => (triple_trackFree t p).bind fun _ _ => Triple.pure le_rfl))

theorem restores_treeViewSelect {o : Selected} : Restores (treeViewSelect ev k w cmd id o) := by
  cases o with
  | empty => exact Restores.pure _
  | found => exact restores_select
  | missing => exact restores_look

theorem restores_browseWindow {artist album track : ℤ} {has : Selected × Selected × Selected} :
    Restores (browseWindow ev w artist album track has) := by
  refine triple_newv_maybe.bind fun x _ => triple_fillList.bind fun _ _ => ?_
  split
  · refine restores_treeViewSelect.bind fun w' => ?_
    split
    · refine restores_treeViewSelect.bind fun w' => ?_
      split_ifs
      · exact restores_look
      · exact Restores.pure _
    · exact Restores.pure _
  · exact Restores.pure _

theorem triple_browseTrack (t : DucTrack) (p : ℕ) {has : Selected × Selected × Selected} :
    Triple (t.At p) (browseTrack ev w p has) fun _ _ => 1 := by
  refine (peeks_albumArtistId t p).bind ((peeks_albumId t p).bind ((peeks_trackId t p).bind ?_))
  exact restores_browseWindow.bind fun v => (triple_trackFree t p).bind fun _ _ => Triple.pure le_rfl

theorem openBrowse_track {has : Selected × Selected × Selected} {σ σ' τ : Arena Cell} {x : ℕ × World} {v : World}
    (hσ : σ.sound = true) (hF : F σ.heap) (hcur : ducCmdConvHeap ev .track w (.lit "curtrack") [] σ = some (x, σ'))
    (hx : x.1 ≠ 0) (hrun : openBrowse ev w has σ = some (v, τ)) : τ.sound = true ∧ F τ.heap := by
  obtain ⟨p, w'⟩ := x
  obtain ⟨hσ', b, -, hpost⟩ := triple_conv_maybe F σ (p, w') σ' hσ (by rwa [one_mul]) hcur
  obtain ⟨a, ha⟩ := (iSup_mul_apply _).1 hpost
  cases a with
  | none => exact absurd (fact_mul.1 ha).1 hx
  | some t =>
    rw [openBrowse, bind_apply, hcur, Option.bind_some] at hrun
    dsimp only at hrun hx
    rw [if_neg hx] at hrun
    obtain ⟨hτ, b, -, hpost⟩ := triple_browseTrack t p F σ' v τ hσ' ha hrun
    rw [one_mul] at hpost
    exact ⟨hτ, hpost⟩

theorem openBrowse_null {has : Selected × Selected × Selected} {σ σ' τ : Arena Cell} {x : ℕ × World} {v : World}
    (hcur : ducCmdConvHeap ev .track w (.lit "curtrack") [] σ = some (x, σ')) (hx : x.1 = 0)
    (hrun : openBrowse ev w has σ = some (v, τ)) : τ.sound = false := by
  rw [openBrowse, bind_apply, hcur, Option.bind_some] at hrun
  dsimp only at hrun
  rw [if_pos hx] at hrun
  obtain ⟨-, rfl⟩ := Prod.mk.inj (Option.some.inj hrun)
  rfl

/-- The iterator of a search, which nobody holds. -/
def searchAt (i : ℕ) : Assn Cell := ⨆ it, fact (walk it = []) * iterAt .track i it

theorem triple_search {filter : Cstr} : Triple 1 (searchButtonOnClick ev w filter) fun x _ =>
    if x.1 = 0 then 1 else searchAt x.1 := by
  refine triple_newv_maybe.bind fun ⟨i, w'⟩ _ => Triple.sup ?_ (Triple.iSup fun it => ?_)
  · rw [← mul_one (fact _)]
    refine Triple.fact fun hi => ?_
    dsimp only at hi ⊢
    rw [hi]
    exact triple_eachRow_null.bind fun _ _ => Triple.pure le_rfl
  · dsimp only
    by_cases hi : i = 0
    · simp only [iterAt, hi, cell_zero, Quantale.bot_mul, iSup_bot]
      exact Triple.bot
    refine (triple_eachRow (uses_free _) ()).seq fun _ => Triple.pure ?_
    rw [if_neg hi]
    simp only [eachPost, searchAt, keptRows, Bool.false_eq_true, if_false, lostAt, List.map_nil, List.prod_nil, one_mul]
    exact le_rfl

end Steps

/-! ## Runs -/

/-- The client, with its memory, and the iterators that its searches have left. -/
structure Windows where
  world : World
  arena : Arena Cell
  lost : List ℕ

/-- What the client does: it is connected, it is idle and an update is due, an artist or an album is selected, the
browser is opened, at the current track or at a track that was found (`act_browse`), or tracks are searched. -/
inductive WindowOp
  | conn
  | idle
  | artist (id : ℤ)
  | album (id : ℤ)
  | browse (has : Selected × Selected × Selected)
  | browseFound (artist album track : ℤ) (has : Selected × Selected × Selected)
  | search (filter : Cstr)

/-- One step of the client. It is gone when it has used memory that is not in use. -/
def windowStep (s : Windows) (op : WindowOp) : Option Windows :=
  if s.arena.sound = false then none
  else
    match op with
    | .conn => (evConnHeap ev s.world s.arena).map fun r => ⟨r.1, r.2, s.lost⟩
    | .idle => (detailUpdateIdleHeap ev s.world s.arena).map fun r => ⟨r.1, r.2, s.lost⟩
    | .artist id =>
      (selectOnChange ev .album s.world (.lit "albumsartist %d") id s.arena).map fun r => ⟨r.1, r.2, s.lost⟩
    | .album id =>
      (selectOnChange ev .track s.world (.lit "tracksalbum %d") id s.arena).map fun r => ⟨r.1, r.2, s.lost⟩
    | .browse has => (openBrowse ev s.world has s.arena).map fun r => ⟨r.1, r.2, s.lost⟩
    | .browseFound artist album track has =>
      (browseWindow ev s.world artist album track has s.arena).map fun r => ⟨r.1, r.2, s.lost⟩
    | .search filter =>
      (searchButtonOnClick ev s.world filter s.arena).map fun r =>
        ⟨r.1.2, r.2, if r.1.1 = 0 then s.lost else r.1.1 :: s.lost⟩

/-- The browser is opened only when the server names a current track. -/
def WindowOp.Safe (s : Windows) : WindowOp → Prop
  | .browse _ => ∃ x σ, ducCmdConvHeap ev .track s.world (.lit "curtrack") [] s.arena = some (x, σ) ∧ x.1 ≠ 0
  | _ => True

/-- The iterators that are left, beside the blocks from before, and nothing else is in use. -/
structure Displayed (h₀ : Heap Cell) (s : Windows) : Prop where
  sound : s.arena.sound = true
  blocks : ((s.lost.map searchAt).prod * exactly h₀ : Assn Cell) s.arena.heap

variable {ev} {h₀ : Heap Cell} {s s' : Windows} {op : WindowOp} {ops : List WindowOp}

theorem Restores.displayed {c : HeapM Cell World} (hc : Restores c) (hs : Displayed h₀ s) {v : World} {τ : Arena Cell}
    (h : c s.arena = some (v, τ)) : Displayed h₀ ⟨v, τ, s.lost⟩ := by
  obtain ⟨hτ, b, -, hpost⟩ := hc _ s.arena v τ hs.sound (by rw [one_mul]; exact hs.blocks) h
  exact ⟨hτ, by rwa [one_mul] at hpost⟩

/-- **A step keeps the account** when it is safe, and is the last one otherwise. -/
theorem windowStep_displayed (hs : Displayed h₀ s) (h : windowStep ev s op = some s') :
    (op.Safe ev s ∧ Displayed h₀ s') ∨ (¬ op.Safe ev s ∧ s'.arena.sound = false) := by
  rw [windowStep.eq_def, if_neg (by simp [hs.sound])] at h
  cases op with
  | conn =>
    obtain ⟨⟨v, τ⟩, hr, rfl⟩ := Option.map_eq_some_iff.1 h
    exact Or.inl ⟨trivial, restores_evConn.displayed hs hr⟩
  | idle =>
    obtain ⟨⟨v, τ⟩, hr, rfl⟩ := Option.map_eq_some_iff.1 h
    exact Or.inl ⟨trivial, restores_detailUpdateIdle.displayed hs hr⟩
  | artist id | album id =>
    obtain ⟨⟨v, τ⟩, hr, rfl⟩ := Option.map_eq_some_iff.1 h
    exact Or.inl ⟨trivial, restores_select.displayed hs hr⟩
  | browse has =>
    obtain ⟨⟨v, τ⟩, hr, rfl⟩ := Option.map_eq_some_iff.1 h
    obtain ⟨⟨x, σ'⟩, hcur, -⟩ := Option.bind_eq_some_iff.1 hr
    by_cases hx : x.1 = 0
    · refine Or.inr ⟨?_, openBrowse_null hcur hx hr⟩
      rintro ⟨y, τ', hcur', hy⟩
      obtain ⟨rfl, -⟩ := Prod.mk.inj (Option.some.inj (hcur.symm.trans hcur'))
      exact hy hx
    · obtain ⟨hτ, hblocks⟩ := openBrowse_track hs.sound hs.blocks hcur hx hr
      exact Or.inl ⟨⟨x, σ', hcur, hx⟩, hτ, hblocks⟩
  | browseFound artist album track has =>
    obtain ⟨⟨v, τ⟩, hr, rfl⟩ := Option.map_eq_some_iff.1 h
    exact Or.inl ⟨trivial, restores_browseWindow.displayed hs hr⟩
  | search filter =>
    obtain ⟨⟨⟨i, v⟩, τ⟩, hr, rfl⟩ := Option.map_eq_some_iff.1 h
    obtain ⟨hτ, b, -, hpost⟩ := triple_search _ s.arena (i, v) τ hs.sound (by rw [one_mul]; exact hs.blocks) hr
    refine Or.inl ⟨trivial, hτ, ?_⟩
    dsimp only at hpost ⊢
    split_ifs at hpost ⊢
    · rwa [one_mul] at hpost
    · rwa [List.map_cons, List.prod_cons, mul_assoc]

/-- **The memory of the windows.** Whatever the server and `malloc` answer, the client uses no block that is not in
use as long as the browser is opened only when there is a current track, and the blocks in use are those from before
and the iterators of the searches. Without a current track the browser uses NULL. -/
theorem windows_memory (ev : Handlers) (w : World) {σ : Arena Cell} (hσ : σ.sound = true)
    (hrun : runs (windowStep ev) ⟨w, σ, []⟩ ops = some s) :
    (s.arena.sound = true ↔ Along (windowStep ev) (WindowOp.Safe ev) ⟨w, σ, []⟩ ops) ∧
      (s.arena.sound = true → ((s.lost.map searchAt).prod * exactly σ.heap : Assn Cell) s.arena.heap) := by
  have hstart : Displayed σ.heap ⟨w, σ, []⟩ := ⟨hσ, by rw [List.map_nil, List.prod_nil, one_mul]; rfl⟩
  generalize (⟨w, σ, []⟩ : Windows) = s₀ at hstart hrun ⊢
  induction ops generalizing s₀ with
  | nil =>
    obtain rfl := Option.some.inj hrun
    exact ⟨iff_of_true hstart.sound trivial, fun _ => hstart.blocks⟩
  | cons op ops ih =>
    rw [runs_cons, Option.bind_eq_some_iff] at hrun
    obtain ⟨u, hstep, hrun⟩ := hrun
    rcases windowStep_displayed hstart hstep with ⟨hsafe, hu⟩ | ⟨hnot, hu⟩
    · obtain ⟨hiff, hblocks⟩ := ih u hu hrun
      refine ⟨hiff.trans ⟨fun hall => ⟨hsafe, fun t ht => ?_⟩, fun hall => hall.2 u hstep⟩, hblocks⟩
      exact Option.some.inj (hstep.symm.trans ht) ▸ hall
    · have hlast : s = u := by
        cases ops with
        | nil => exact (Option.some.inj hrun).symm
        | cons op' ops' =>
          rw [runs_cons, windowStep.eq_def, if_pos hu] at hrun
          cases hrun
      subst hlast
      exact ⟨iff_of_false (by simp [hu]) fun hall => hnot hall.1, fun h => by simp [hu] at h⟩

/-- A server that finds a track and plays none. -/
def idleServer : Dial :=
  .made 3 [some (Cstr.lit "220 dudld 1 2\n").bytes,
    some (Cstr.lit "250 5\t1\ttitle\t300\t7\tartist\t9\talbum\t1999\t7\tartist\n").bytes,
    some (Cstr.lit "541 no current track\n").bytes] []

/-- **A search, and then the browser**: the iterator is left, and NULL is used. -/
theorem windows_memory_search :
    (∃ s, runs (windowStep .passive) ⟨newWorld [idleServer], smallArena, []⟩ [.search (.lit "title")] = some s ∧
      s.arena.sound = true ∧ (searchAt 1 * exactly ∅ : Assn Cell) s.arena.heap) ∧
    ∃ s, runs (windowStep .passive) ⟨newWorld [idleServer], smallArena, []⟩
        [.search (.lit "title"), .browse (.empty, .empty, .empty)] = some s ∧ s.arena.sound = false ∧
      ¬ Along (windowStep .passive) (WindowOp.Safe .passive) ⟨newWorld [idleServer], smallArena, []⟩
        [.search (.lit "title"), .browse (.empty, .empty, .empty)] := by
  have hsearch : (runs (windowStep .passive) ⟨newWorld [idleServer], smallArena, []⟩
      [.search (.lit "title")]).map (fun s => (s.lost, s.arena.sound)) = some ([1], true) := by
    decide +kernel
  have hbrowse : (runs (windowStep .passive) ⟨newWorld [idleServer], smallArena, []⟩
      [.search (.lit "title"), .browse (.empty, .empty, .empty)]).map (fun s => s.arena.sound) = some false := by
    decide +kernel
  obtain ⟨s, hs, heq⟩ := Option.map_eq_some_iff.1 hsearch
  obtain ⟨hlost, hsound⟩ := Prod.mk.inj heq
  obtain ⟨s', hs', hsound'⟩ := Option.map_eq_some_iff.1 hbrowse
  refine ⟨⟨s, hs, hsound, ?_⟩, s', hs', hsound', fun hall => ?_⟩
  · have hblocks := (windows_memory .passive (newWorld [idleServer]) rfl hs).2 hsound
    rwa [hlost, List.map_singleton, List.prod_singleton] at hblocks
  · have hsafe := (windows_memory .passive (newWorld [idleServer]) rfl hs').1.2 hall
    rw [hsound'] at hsafe
    cases hsafe

end Dudlc
