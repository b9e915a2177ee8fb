import Dudlc.Allocation
import Dudlc.Iterate

/-!
# Iterators in dynamic memory

`_duc_it_newv` allocates an iterator, and a node and a record for every line of a reply. `_duc_it_next` gives the
record of the node that it releases to its caller, and `_duc_it_done` releases what is left.

* `RowType.parse`, `RowType.free`, `RowType.reader`, `RowType.At`: the records in iterators.
* `ducItCurHeap`, `ducItNextHeap`, `ducItDoneHeap`, `ducItNewvHeap`, `ducCmdConvHeap`.
* `iterAt`, `takenAt`: the blocks of an iterator, with the record of its first node or without it.
* `triple_cur`, `triple_next`, `triple_done`, **`triple_newv`**, `triple_conv`: what they do to the blocks.
* `Listable`, `listable`: the lines of a reply come; **`newv_returns`**.
-/

namespace Dudlc

open Lib Lib.HeapM Lib.Assn

/-! ## The types of rows -/

/-- `_duc_help_parse` -/
def ducHelpParseHeap : HeapParser := fun _ m s => do
  let t ← look (cstr m s)
  let p ← malloc (.string t)
  return (p, s + t.length)

/-- What `_duc_help_parse` reads. -/
def helpText : Reader (List UInt8) := fun _ m s => (cstr m s).map fun t => (some t, s + t.length)

/-- `duc_help_free` -/
def ducHelpFree (p : ℕ) : HeapM Cell Unit := free p

namespace RowType

/-- The values that are stored. -/
def Record : RowType → Type
  | artist => DucArtist
  | album => DucAlbum
  | track => DucTrack
  | user => DucUser
  | client => DucClient
  | queue => DucQueue
  | history => DucHistory
  | tag => DucTag
  | sfilter => DucSfilter
  | help => List UInt8

/-- The `_duc_converter`. -/
def parse : RowType → HeapParser
  | artist => ducArtistParseHeap
  | album => ducAlbumParseHeap
  | track => ducTrackParseHeap
  | user => ducUserParseHeap
  | client => ducClientParseHeap
  | queue => ducQueueParseHeap
  | history => ducHistoryParseHeap
  | tag => ducTagParseHeap
  | sfilter => ducSfilterParseHeap
  | help => ducHelpParseHeap

/-- The `_duc_free_func`. -/
def free : RowType → ℕ → HeapM Cell Unit
  | artist => ducArtistFree
  | album => ducAlbumFree
  | track => ducTrackFree
  | user => ducUserFree
  | client => ducClientFree
  | queue => ducQueueFree
  | history => ducHistoryFree
  | tag => ducTagFree
  | sfilter => ducSfilterFree
  | help => ducHelpFree

/-- What the converter reads. -/
def reader : (k : RowType) → Reader k.Record
  | artist => ducArtistParse
  | album => ducAlbumParse
  | track => ducTrackParse
  | user => ducUserParse
  | client => ducClientParse
  | queue => ducQueueParse
  | history => ducHistoryParse
  | tag => ducTagParse
  | sfilter => ducSfilterParse
  | help => helpText

/-- The blocks of a record. -/
def At : (k : RowType) → k.Record → ℕ → Assn Cell
  | artist => DucArtist.At
  | album => DucAlbum.At
  | track => DucTrack.At
  | user => DucUser.At
  | client => DucClient.At
  | queue => DucQueue.At
  | history => DucHistory.At
  | tag => DucTag.At
  | sfilter => DucSfilter.At
  | help => fun t p => cell p (.string t)

end RowType

theorem allocates_help : Allocates ducHelpParseHeap ducHelpFree helpText fun t p => cell p (.string t) where
  parses n m s := by
    refine triple_look fun t ht => (triple_malloc _).bind fun p b => ?_
    cases b with
    | true => exact Triple.pure fun h hh => Or.inl ⟨⟨hh.1, Or.inl rfl⟩, hh.2⟩
    | false =>
      exact Triple.pure fun h hh => Or.inr ((iSup_apply _).2 ⟨t, fact_mul.2 ⟨⟨rfl, by simp [helpText, ht]⟩, hh⟩⟩)
  frees t p := triple_free p _
  null := rfl
  ne_null t := cell_zero
  returns n m s σ _ h := by
    obtain ⟨x, hx⟩ := Option.isSome_iff_exists.1 h
    obtain ⟨t, ht, -⟩ := Option.map_eq_some_iff.1 hx
    obtain ⟨p, σ', hp⟩ := malloc_returns (.string t) σ
    simp [ducHelpParseHeap, look, ht, hp, bind_apply, pure_apply]
  ends := free_returns

theorem RowType.allocates : (k : RowType) → Allocates k.parse k.free k.reader k.At
  | artist => allocates_artist
  | album => allocates_album
  | track => allocates_track
  | user => allocates_user
  | client => allocates_client
  | queue => allocates_queue
  | history => allocates_history
  | tag => allocates_tag
  | sfilter => allocates_sfilter
  | help => allocates_help

/-! ## Iterators -/

/-- `_duc_it_cur` -/
def ducItCurHeap (i : ℕ) : HeapM Cell ℕ :=
  if i = 0 then pure 0
  else do
    match ← load i with
    | some (.iter list _) =>
      if list = 0 then return 0
      else
        match ← load list with
        | some (.node data _) => return data
        | _ => crash 0
    | _ => crash 0

/-- `_duc_it_next` -/
def ducItNextHeap (i : ℕ) : HeapM Cell ℕ :=
  if i = 0 then pure 0
  else do
    match ← load i with
    | some (.iter list freefunc) =>
      if list = 0 then return 0
      else
        match ← load list with
        | some (.node _ next) =>
          store i (.iter next freefunc)
          free list
          ducItCurHeap i
        | _ => crash 0
    | _ => crash 0

/-- A round of the loop in `_duc_it_done`. -/
def itDoneBody (i : ℕ) (_ : Unit) : HeapM Cell (Unit ⊕ Unit) := do
  match ← load i with
  | some (.iter list freefunc) =>
    if list = 0 then return .inr ()
    else
      match ← load list with
      | some (.node data _) =>
        freefunc.free data
        match ← load list with
        | some (.node _ next) =>
          store i (.iter next freefunc)
          free list
          return .inl ()
        | _ => crash (.inr ())
      | _ => crash (.inr ())
  | _ => crash (.inr ())

/-- `_duc_it_done`. A round releases a node, so there are no more rounds than blocks. -/
def ducItDoneHeap (i : ℕ) : HeapM Cell Unit :=
  if i = 0 then pure ()
  else HeapM.bounded fun n => do
    HeapM.loop (itDoneBody i) n ()
    free i

/-- A new node goes behind the last one, or into the empty list. -/
def linkNode (i last next : ℕ) : HeapM Cell Unit := do
  match ← load i with
  | some (.iter list freefunc) =>
    if list = 0 then store i (.iter next freefunc)
    else
      match ← load last with
      | some (.node data _) => store last (.node data next)
      | _ => crash ()
  | _ => crash ()

/-- A round of the loop in `_duc_it_newv`, with the last node so far, which is NULL for none. It is left with the
list, or for `clean2`. Broadcasts that are read on the way leave no blocks behind. -/
def collectBody (ev : Handlers) (k : RowType) (i : ℕ) (x : World × ℕ) : HeapM Cell (World × ℕ ⊕ Bool × World) := do
  match x.1.line with
  | none => return .inr (false, x.1)
  | some line =>
    let next ← malloc (.node 0 0)
    if next = 0 then return .inr (false, x.1)
    else
      linkNode i x.2 next
      let (p, e) ← k.parse _ x.1.con.buf line
      store next (.node p 0)
      if (← look x.1.con.buf.cells[e]?) ≠ 0 then return .inr (false, x.1)
      else
        let (r, w) ← look (ducRnext ev x.1)
        if 0 ≤ r then return .inl (w, next) else return .inr (true, w)

/-- `_duc_it_newv`: the iterator, or NULL. -/
def ducItNewvHeap (ev : Handlers) (k : RowType) (w : World) (cmd : Cstr) (ap : List Arg) : HeapM Cell (ℕ × World) := do
  let (r, w) ← look (ducVsend ev w cmd ap)
  if r ≠ 0 then return (0, w)
  else
    let (r, w) ← look (ducRnext ev w)
    if r ≠ 0 then return (0, w)
    else if (← look w.rcode) = 53 then
      let (_, w) ← look (ducRlast ev w)
      return (0, w)
    else
      let i ← malloc (.iter 0 k)
      if i = 0 then
        let (_, w) ← look (ducRlast ev w)
        return (0, w)
      else
        match ← HeapM.loop (collectBody ev k i) (pending w + 1) (w, 0) with
        | (true, w) => return (i, w)
        | (false, w) =>
          ducItDoneHeap i
          let (_, w) ← look (ducRlast ev w)
          return (0, w)

/-- `_duc_cmd_conv`, and `_duc_cmd_string` with the converter `strdup`. -/
def ducCmdConvHeap (ev : Handlers) (k : RowType) (w : World) (fmt : Cstr) (ap : List Arg) : HeapM Cell (ℕ × World) := do
  let (r, w) ← look (ducVsend ev w fmt ap)
  if r ≠ 0 then return (0, w)
  else
    let (r, w) ← look (ducRlast ev w)
    if r ≠ 0 then return (0, w)
    else if (← look w.rcode) = 50 then
      let (p, _) ← k.parse _ w.con.buf (← look w.line)
      return (p, w)
    else return (0, w)

/-! ## The blocks of an iterator -/

variable {k : RowType} {i d : ℕ} {it : DucIter k.Record} {F : Assn Cell}

/-- What the pointer in a node owns. -/
def rowAt (k : RowType) (d : ℕ) : Option k.Record → Assn Cell
  | none => fact (d = 0)
  | some a => k.At a d

/-- The nodes of a list, and their records. -/
def rowsAt (k : RowType) (list : ℕ) (rows : List (Option k.Record)) : Assn Cell :=
  chain Cell.node (rowAt k) list rows

/-- An iterator. -/
def iterAt (k : RowType) (i : ℕ) (it : DucIter k.Record) : Assn Cell :=
  ⨆ list, cell i (.iter list k) * rowsAt k list it.list

/-- An iterator without the record of its first node, which is the one at `d`. -/
def takenAt (k : RowType) (i d : ℕ) (it : DucIter k.Record) : Assn Cell :=
  ⨆ list, ⨆ next, cell i (.iter list k) * (cell list (.node d next) * rowsAt k next it.list)

theorem rowAt_free (k : RowType) (d : ℕ) (x : Option k.Record) :
    Triple (rowAt k d x) (k.free d) (quiet fun _ => 1) := by
  cases x with
  | none =>
    rw [rowAt, ← mul_one (fact (d = 0))]
    refine Triple.fact fun hd => ?_
    rw [hd, k.allocates.null]
    exact Triple.pure (by rw [quiet, fact_true rfl, mul_one])
  | some a => exact k.allocates.frees a d

theorem rowAt_takenAt (x : Option k.Record) : rowAt k d x * takenAt k i d it ≤ iterAt k i ⟨x :: it.list⟩ := by
  simp only [takenAt, Quantale.mul_iSup_distrib]
  refine iSup_le fun list => iSup_le fun next => le_iSup_of_le list ?_
  calc rowAt k d x * (cell i (.iter list k) * (cell list (.node d next) * rowsAt k next it.list))
      = cell i (.iter list k) * (cell list (.node d next) * (rowAt k d x * rowsAt k next it.list)) := by ac_rfl
    _ ≤ cell i (.iter list k) * rowsAt k list (x :: it.list) := mul_le_mul_right segment_cons _

/-- What a caller has who takes the current record: nothing at the end of the list. -/
def curPost (k : RowType) (i : ℕ) (it : DucIter k.Record) (p : ℕ) : Assn Cell :=
  match it.list with
  | [] => fact (p = 0) * iterAt k i it
  | x :: rest => rowAt k p x * takenAt k i p ⟨rest⟩

theorem iterAt_cases {α : Type} {c : HeapM Cell α} {Q : α → Bool → Assn Cell} (hi : i ≠ 0 → it.list = [] →
      Triple (cell i (.iter 0 k)) c Q)
    (hcons : i ≠ 0 → ∀ x rest list d next, it.list = x :: rest → list ≠ 0 →
      Triple (cell i (.iter list k) * (cell list (.node d next) * (rowAt k d x * rowsAt k next rest))) c Q) :
    Triple (iterAt k i it) c Q := by
  obtain ⟨rows⟩ := it
  refine Triple.iSup fun list => Triple.cell_ne fun hi0 => ?_
  cases rows with
  | nil =>
    rw [mul_comm]
    refine Triple.fact fun hl => ?_
    rw [hl]
    exact hi hi0 rfl
  | cons x rest =>
    rw [mul_comm]
    refine Triple.chain_cons fun d next => ?_
    rw [mul_assoc]
    refine Triple.cell_ne fun hlist => ?_
    refine (hcons hi0 x rest list d next rfl hlist).pre (le_of_eq ?_)
    rw [rowsAt]
    ac_rfl

/-- **`_duc_it_cur`** -/
theorem triple_cur : Triple (iterAt k i it) (ducItCurHeap i) (quiet (curPost k i it)) := by
  refine iterAt_cases (fun hi hnil => ?_) fun hi x rest list d next hcons hlist => ?_
  · rw [ducItCurHeap, if_neg hi, ← mul_one (cell _ _)]
    refine Triple.load (Triple.pure ?_)
    rw [quiet, fact_true rfl, one_mul, curPost, hnil]
    dsimp only
    rw [fact_true rfl, one_mul, iterAt, hnil]
    refine le_iSup_of_le 0 (le_of_eq ?_)
    rw [rowsAt, chain, segment_nil]
  · rw [ducItCurHeap, if_neg hi]
    refine Triple.load ?_
    dsimp only
    rw [if_neg hlist, mul_left_comm]
    refine Triple.load (Triple.pure ?_)
    rw [quiet, fact_true rfl, one_mul, curPost, hcons]
    dsimp only [takenAt]
    rw [Quantale.mul_iSup_distrib]
    refine le_iSup_of_le list ?_
    rw [Quantale.mul_iSup_distrib]
    refine le_iSup_of_le next (le_of_eq ?_)
    ac_rfl

/-- **`_duc_it_next`**, whose caller has taken the current record. -/
theorem triple_next : Triple (takenAt k i d it) (ducItNextHeap i) (quiet (curPost k i it)) := by
  refine Triple.iSup fun list => Triple.iSup fun next => Triple.cell_ne fun hi => ?_
  rw [mul_left_comm]
  refine Triple.cell_ne fun hlist => ?_
  rw [mul_left_comm, ducItNextHeap, if_neg hi]
  refine Triple.load ?_
  dsimp only
  rw [if_neg hlist, mul_left_comm]
  refine Triple.load ?_
  dsimp only
  rw [mul_left_comm]
  refine (triple_store i _ _).step fun _ => ?_
  rw [mul_left_comm]
  refine (triple_free list _).step fun _ => ?_
  rw [one_mul]
  exact triple_cur.pre (le_iSup_of_le next le_rfl)

theorem triple_doneBody : Triple (iterAt k i it) (itDoneBody i ()) (quiet <| Sum.elim
    (fun _ => ⨆ x, ⨆ rest, fact (it.list = x :: rest) * iterAt k i ⟨rest⟩) fun _ => cell i (.iter 0 k)) := by
  refine iterAt_cases (fun hi _ => ?_) fun hi x rest list d next hcons hlist => ?_
  · rw [itDoneBody, ← mul_one (cell i (Cell.iter 0 k))]
    refine Triple.load (Triple.pure ?_)
    rw [quiet, fact_true rfl, one_mul, mul_one]
    exact le_rfl
  · rw [itDoneBody]
    refine Triple.load ?_
    dsimp only
    rw [if_neg hlist, mul_left_comm]
    refine Triple.load ?_
    dsimp only
    have hcomm : cell list (.node d next) * (cell i (.iter list k) * (rowAt k d x * rowsAt k next rest)) =
        rowAt k d x * (cell list (.node d next) * (cell i (.iter list k) * rowsAt k next rest)) := by ac_rfl
    rw [hcomm]
    refine (rowAt_free k d x).step fun _ => ?_
    rw [one_mul]
    refine Triple.load ?_
    dsimp only
    rw [mul_left_comm]
    refine (triple_store i _ _).step fun _ => ?_
    rw [mul_left_comm]
    refine (triple_free list _).step fun _ => Triple.pure ?_
    rw [quiet, fact_true rfl, one_mul, one_mul]
    refine le_iSup_of_le x (le_iSup_of_le rest ?_)
    rw [fact_true hcons, one_mul]
    exact le_iSup_of_le next le_rfl

/-- **`_duc_it_done`** -/
theorem triple_done : Triple (iterAt k i it) (ducItDoneHeap i) (quiet fun _ => 1) := by
  rw [ducItDoneHeap]
  split_ifs with hi
  · subst hi
    simp only [iterAt, cell_zero, Quantale.bot_mul, iSup_bot]
    exact Triple.bot
  refine Triple.bounded fun n => ?_
  have hround : ∀ (a : Unit) (b : Bool), Triple (quiet (fun _ => ⨆ it : DucIter k.Record, iterAt k i it) a b)
      (itDoneBody i a) fun x b' =>
        Sum.elim (fun a' => quiet (fun _ => ⨆ it : DucIter k.Record, iterAt k i it) a' (b || b'))
        (fun a' => quiet (fun _ => cell i (.iter 0 k)) a' (b || b')) x := by
    intro _ b
    refine Triple.fact fun hb => Triple.iSup fun it => ?_
    subst hb
    refine triple_doneBody.post fun x b => ?_
    cases x with
    | inl _ =>
      refine mul_le_mul_right (iSup_le fun x => iSup_le fun rest => ?_) _
      exact (mul_le_of_le_one_left' fact_le_one).trans (le_iSup_of_le ⟨rest⟩ le_rfl)
    | inr _ => exact le_rfl
  refine ((Triple.loop hround n () false).pre ?_).seq fun _ => triple_free i _
  rw [quiet, fact_true rfl, one_mul]
  exact le_iSup_of_le it le_rfl

theorem itDoneBody_returns (i : ℕ) (a : Unit) (σ : Arena Cell) : (itDoneBody i a σ).isSome := by
  refine bind_returns (load_returns i σ) fun v σ => ?_
  cases v with
  | none => rfl
  | some v =>
    cases v with
    | iter list freefunc =>
      dsimp only
      split_ifs
      · rfl
      refine bind_returns (load_returns list σ) fun v σ => ?_
      cases v with
      | none => rfl
      | some v =>
        cases v with
        | node data next =>
          refine bind_returns (freefunc.allocates.ends data σ) fun _ σ => ?_
          refine bind_returns (load_returns list σ) fun v σ => ?_
          cases v with
          | none => rfl
          | some v =>
            cases v with
            | node data next =>
              exact bind_returns (store_returns i _ σ) fun _ σ => bind_returns (free_returns list σ) fun _ _ => rfl
            | _ => rfl
        | _ => rfl
    | _ => rfl

theorem done_returns {σ : Arena Cell} (hσ : σ.sound = true) (hh : (iterAt k i it * F : Assn Cell) σ.heap) :
    (ducItDoneHeap i σ).isSome := by
  by_cases hi : i = 0
  · rw [ducItDoneHeap, if_pos hi]
    rfl
  rw [ducItDoneHeap, if_neg hi, HeapM.bounded_apply]
  have hcard : it.list.length < σ.heap.keys.card + 1 := by
    obtain ⟨list, hh⟩ := (iSup_mul_apply _).1 hh
    rw [mul_comm (cell _ _), mul_assoc] at hh
    exact Nat.lt_succ_of_le (length_le_card hh)
  have hloop := HeapM.loop_returns
    (I := fun n _ => ⨆ it : DucIter k.Record, fact (it.list.length = n) * iterAt k i it) (itDoneBody_returns i) ?_
    hcard hσ (a := ()) (F := F) ?_
  · exact bind_returns hloop fun _ τ => free_returns i τ
  · intro n _
    refine Triple.iSup fun it => Triple.fact fun hn => triple_doneBody.post fun x b => ?_
    cases x with
    | inl _ =>
      refine (mul_le_of_le_one_left' fact_le_one).trans (iSup_le fun x => iSup_le fun rest => fun h hh => ?_)
      obtain ⟨hcons, hh⟩ := fact_mul.1 hh
      refine (iSup_apply _).2 ⟨rest.length, fact_mul.2 ⟨?_, (iSup_apply _).2 ⟨⟨rest⟩, fact_mul.2 ⟨rfl, hh⟩⟩⟩⟩
      rw [← hn, hcons]
      exact Nat.lt_succ_self _
    | inr _ => exact le_top
  · rw [iSup_mul_apply]
    exact ⟨it, by rw [fact_true rfl, one_mul]; exact hh⟩

/-! ## New iterators -/

/-- The rows that are read line by line, from `w₀` up to the next world. -/
inductive Collected (ev : Handlers) (k : RowType) (w₀ : World) : List (Option k.Record) → World → Prop
  | start : Collected ev k w₀ [] w₀
  | row {rows : List (Option k.Record)} {w w' : World} {line e : ℕ} {x : Option k.Record} {r : ℤ}
      (h : Collected ev k w₀ rows w) (hline : w.line = some line) (hread : k.reader _ w.con.buf line = some (x, e))
      (hend : w.con.buf.cells[e]? = some 0) (hnext : ducRnext ev w = some (r, w')) :
      Collected ev k w₀ (rows ++ [x]) w'

/-- The nodes up to the one at `next`, and the block of the iterator. -/
def nodesAt (k : RowType) (i next : ℕ) (rows : List (Option k.Record)) : Assn Cell :=
  ⨆ list, cell i (.iter list k) * segment Cell.node (rowAt k) list next rows

/-- A list in the making, with its last node. -/
def listingAt (k : RowType) (i last : ℕ) (rows : List (Option k.Record)) : Assn Cell :=
  fact (rows = []) * cell i (.iter 0 k) ⊔
    ⨆ d, ⨆ init, ⨆ x, fact (rows = init ++ [x]) * (nodesAt k i last init * (cell last (.node d 0) * rowAt k d x))

variable {rows : List (Option k.Record)} {last next : ℕ}

theorem listingAt_le : listingAt k i last rows ≤ iterAt k i ⟨rows⟩ := by
  refine sup_le (fun h hh => ?_) (iSup_le fun d => iSup_le fun init => iSup_le fun x => fun h hh => ?_)
  · obtain ⟨hnil, hcell⟩ := fact_mul.1 hh
    refine (iSup_apply _).2 ⟨0, ?_⟩
    rw [hnil, rowsAt, chain, segment_nil, mul_one]
    exact hcell
  · obtain ⟨hrows, hnodes⟩ := fact_mul.1 hh
    obtain ⟨list, hlist⟩ := (iSup_mul_apply _).1 hnodes
    refine (iSup_apply _).2 ⟨list, ?_⟩
    rw [mul_assoc] at hlist
    rw [hrows]
    exact mul_le_mul_right segment_snoc _ _ hlist

/-- **A node is linked.** -/
theorem triple_link : Triple (listingAt k i last rows * cell next (.node 0 0)) (linkNode i last next)
    (quiet fun _ => nodesAt k i next rows * cell next (.node 0 0)) := by
  rw [listingAt, Quantale.sup_mul_distrib]
  refine Triple.sup ?_ ?_
  · rw [mul_assoc]
    refine Triple.fact fun hrows => ?_
    refine Triple.load ?_
    dsimp only
    rw [if_pos rfl]
    refine ((triple_store i _ _).frame _).post fun _ b => ?_
    rw [quiet, quiet, mul_assoc]
    refine mul_le_mul_right (mul_le_mul_left (le_iSup_of_le next ?_) _) _
    rw [hrows, segment_nil, mul_one]
  · simp only [Quantale.iSup_mul_distrib]
    refine Triple.iSup fun d => Triple.iSup fun init => Triple.iSup fun x => ?_
    rw [mul_assoc]
    refine Triple.fact fun hrows => ?_
    subst hrows
    simp only [nodesAt, Quantale.iSup_mul_distrib]
    refine Triple.iSup fun list => ?_
    by_cases hlist : list = 0
    · subst hlist
      have hnull : segment Cell.node (rowAt k) 0 last init * (cell last (.node d 0) *
          (cell i (.iter 0 k) * (rowAt k d x * cell next (.node 0 0)))) ≤ ⊥ := segment_zero
      refine Triple.bot.pre (le_trans (le_of_eq ?_) hnull)
      ac_rfl
    have hfirst : cell i (.iter list k) * segment (fun data next => Cell.node data next) (rowAt k) list last init *
        (cell last (.node d 0) * rowAt k d x) * cell next (.node 0 0) =
        cell i (.iter list k) * (cell last (.node d 0) * (segment (fun data next => Cell.node data next) (rowAt k) list
          last init * rowAt k d x * cell next (.node 0 0))) := by ac_rfl
    rw [hfirst]
    refine Triple.load ?_
    dsimp only
    rw [if_neg hlist, mul_left_comm]
    refine Triple.load ?_
    dsimp only
    refine ((triple_store last _ (Cell.node d next)).frame _).post fun _ b => ?_
    rw [quiet, quiet, mul_assoc]
    refine mul_le_mul_right ?_ _
    calc cell last (Cell.node d next) * (cell i (.iter list k) *
          (segment (fun data next => Cell.node data next) (rowAt k) list last init * rowAt k d x * cell next (.node 0 0)))
        = cell i (.iter list k) * (segment (fun data next => Cell.node data next) (rowAt k) list last init *
          (cell last (.node d next) * rowAt k d x)) * cell next (.node 0 0) := by ac_rfl
      _ ≤ cell i (.iter list k) * segment (fun data next => Cell.node data next) (rowAt k) list next (init ++ [x]) *
          cell next (.node 0 0) := mul_le_mul_left (mul_le_mul_right segment_snoc _) _
      _ ≤ _ := le_iSup_of_le list le_rfl

section Newv

variable {ev : Handlers} {w₀ w : World}

/-- The loop in `_duc_it_newv` at the head of a round. `b` says whether `malloc` has returned NULL. -/
def collectPre (ev : Handlers) (k : RowType) (i : ℕ) (w₀ : World) (x : World × ℕ) (b : Bool) : Assn Cell :=
  ⨆ rows, fact (b = false → Collected ev k w₀ rows x.1) * listingAt k i x.2 rows

/-- The loop in `_duc_it_newv` when it is left. -/
def collectEnd (ev : Handlers) (k : RowType) (i : ℕ) (w₀ : World) (x : Bool × World) (b : Bool) : Assn Cell :=
  ⨆ rows, fact (x.1 = true → b = false → Collected ev k w₀ rows x.2) * iterAt k i ⟨rows⟩

theorem collectPre_stop {b : Bool} : listingAt k i last rows ≤ collectEnd ev k i w₀ (false, w) b := by
  refine listingAt_le.trans (le_iSup_of_le rows ?_)
  rw [fact_true fun h => absurd h (by simp), one_mul]

theorem triple_row (k : RowType) (n : ℕ) (m : Block UInt8 n) (s : ℕ) : Triple 1 (k.parse n m s) fun x b =>
    ⨆ a, fact (b = false → k.reader n m s = some (a, x.2)) * rowAt k x.1 a := by
  refine (k.allocates.parses n m s).post fun x b => sup_le (fun h hh => ?_) (iSup_le fun a => fun h hh => ?_)
  · refine (iSup_apply _).2 ⟨none, fact_mul.2 ⟨fun hb => ?_, hh.1.1, hh.2⟩⟩
    exact hh.1.2.resolve_left (by simp [hb])
  · obtain ⟨hread, hown⟩ := fact_mul.1 hh
    exact (iSup_apply _).2 ⟨some a, fact_mul.2 ⟨fun _ => hread.2, hown⟩⟩

theorem listingAt_snoc {x : Option k.Record} : nodesAt k i next rows * (cell next (.node d 0) * rowAt k d x) ≤
    listingAt k i next (rows ++ [x]) := by
  refine le_sup_of_le_right (le_iSup_of_le d (le_iSup_of_le rows (le_iSup_of_le x ?_)))
  rw [fact_true rfl, one_mul]

/-- **A round of the loop in `_duc_it_newv`.** -/
theorem triple_collectBody (x : World × ℕ) (b : Bool) :
    Triple (collectPre ev k i w₀ x b) (collectBody ev k i x) fun y b' =>
      Sum.elim (collectPre ev k i w₀ · (b || b')) (collectEnd ev k i w₀ · (b || b')) y := by
  obtain ⟨w, last⟩ := x
  refine Triple.iSup fun rows => Triple.fact fun hrows => ?_
  rw [collectBody]
  cases hline : w.line with
  | none => exact Triple.pure collectPre_stop
  | some line =>
    dsimp only at hrows ⊢
    have hmalloc := (triple_malloc (Cell.node 0 0)).frame (listingAt k i last rows)
    rw [one_mul] at hmalloc
    refine hmalloc.bind fun next b₁ => ?_
    cases b₁ with
    | true =>
      rw [if_pos rfl]
      refine Triple.fact fun hnext => ?_
      rw [if_pos hnext]
      exact Triple.pure collectPre_stop
    | false =>
      rw [if_neg Bool.false_ne_true]
      refine Triple.cell_ne fun hnext => ?_
      rw [if_neg hnext, mul_comm]
      simp only [Bool.false_or]
      refine triple_link.seq fun _ => ?_
      have hparse := (triple_row k _ w.con.buf line).frame (nodesAt k i next rows * cell next (.node 0 0))
      rw [one_mul] at hparse
      refine hparse.bind fun p b₂ => ?_
      rw [Quantale.iSup_mul_distrib]
      refine Triple.iSup fun x => ?_
      rw [mul_assoc]
      refine Triple.fact fun hread => ?_
      have hcomm : rowAt k p.1 x * (nodesAt k i next rows * cell next (.node 0 0)) =
          cell next (.node 0 0) * (nodesAt k i next rows * rowAt k p.1 x) := by ac_rfl
      rw [hcomm]
      refine (triple_store next _ (Cell.node p.1 0)).step fun _ => ?_
      rw [mul_left_comm]
      refine triple_look fun c hc => ?_
      split_ifs with hc0
      · exact Triple.pure (listingAt_snoc.trans collectPre_stop)
      refine triple_look fun ⟨r, w'⟩ hr => ?_
      have hrow : (b || (b₂ || false)) = false → Collected ev k w₀ (rows ++ [x]) w' := by
        intro hb
        simp only [Bool.or_eq_false_iff] at hb
        exact .row (hrows hb.1) hline (hread hb.2.1) (by rw [hc, not_not.1 hc0]) hr
      dsimp only
      split_ifs with h0
      · refine Triple.pure (listingAt_snoc.trans (le_iSup_of_le (rows ++ [x]) ?_))
        rw [fact_true hrow, one_mul]
      · refine Triple.pure ((listingAt_snoc.trans listingAt_le).trans (le_iSup_of_le (rows ++ [x]) ?_))
        rw [fact_true fun _ => hrow, one_mul]

/-- The reply to a command, line by line. -/
def Fetches (ev : Handlers) (k : RowType) (w : World) (cmd : Cstr) (ap : List Arg) (it : DucIter k.Record)
    (w' : World) : Prop :=
  ∃ w₁ w₂, ducVsend ev w cmd ap = some (0, w₁) ∧ ducRnext ev w₁ = some (0, w₂) ∧ w₂.rcode ≠ some 53 ∧
    Collected ev k w₂ it.list w'

/-- NULL and nothing, or an iterator over the rows of the reply. -/
def newvPost (ev : Handlers) (k : RowType) (w : World) (cmd : Cstr) (ap : List Arg) (x : ℕ × World) (b : Bool) :
    Assn Cell :=
  fact (x.1 = 0) ⊔ ⨆ it, fact (b = false → Fetches ev k w cmd ap it x.2) * iterAt k x.1 it

theorem newvPost_null {cmd : Cstr} {ap : List Arg} {w' : World} {b : Bool} : 1 ≤ newvPost ev k w cmd ap (0, w') b := by
  refine le_sup_of_le_left ?_
  rw [fact_true rfl]

/-- **`_duc_it_newv`**: what it allocates is in the iterator. -/
theorem triple_newv (ev : Handlers) (k : RowType) (w : World) (cmd : Cstr) (ap : List Arg) :
    Triple 1 (ducItNewvHeap ev k w cmd ap) (newvPost ev k w cmd ap) := by
  refine triple_look fun ⟨r, w₁⟩ hsend => ?_
  dsimp only
  split_ifs with hr
  · exact Triple.pure newvPost_null
  refine triple_look fun ⟨r', w₂⟩ hnext => ?_
  dsimp only
  split_ifs with hr'
  · exact Triple.pure newvPost_null
  refine triple_look fun c hc => ?_
  split_ifs with h5
  · exact triple_look fun _ _ => Triple.pure newvPost_null
  refine (triple_malloc _).bind fun i b => ?_
  cases b with
  | true =>
    rw [if_pos rfl, ← mul_one (fact (i = 0))]
    refine Triple.fact fun hi => ?_
    rw [if_pos hi]
    exact triple_look fun _ _ => Triple.pure newvPost_null
  | false =>
    rw [if_neg Bool.false_ne_true, ← mul_one (cell i _)]
    refine Triple.cell_ne fun hi => ?_
    rw [if_neg hi, mul_one]
    simp only [Bool.false_or]
    have hround : ∀ x b, Triple (collectPre ev k i w₂ x b) (collectBody ev k i x) fun y b' =>
        Sum.elim (collectPre ev k i w₂ · (b || b')) (collectEnd ev k i w₂ · (b || b')) y := triple_collectBody
    have hloop := Triple.loop hround (pending w₂ + 1) (w₂, 0) false
    refine (hloop.pre ?_).bind fun x b => ?_
    · refine le_iSup_of_le [] ?_
      rw [fact_true fun _ => Collected.start, one_mul]
      refine le_sup_of_le_left ?_
      rw [fact_true rfl, one_mul]
    rw [Bool.false_or]
    refine Triple.iSup fun rows => Triple.fact fun hrows => ?_
    obtain ⟨_ | _, w₃⟩ := x
    · refine triple_done.seq fun _ => triple_look fun _ _ => Triple.pure newvPost_null
    · refine Triple.pure (le_sup_of_le_right (le_iSup_of_le ⟨rows⟩ (le_of_eq ?_)))
      rw [fact_true, one_mul]
      rw [Bool.or_false]
      exact fun hb => ⟨w₁, w₂, by rw [hsend, not_not.1 hr], by rw [hnext, not_not.1 hr'],
        by rw [hc]; exact fun h => h5 (Option.some.inj h), hrows rfl hb⟩

/-- **`_duc_cmd_conv`**: NULL, or a record after a complete reply. -/
theorem triple_conv (ev : Handlers) (k : RowType) (w : World) (fmt : Cstr) (ap : List Arg) :
    Triple 1 (ducCmdConvHeap ev k w fmt ap) fun x _ =>
      ⨆ a, fact (x.1 ≠ 0 → ducCmd ev w fmt ap = some (0, x.2)) * rowAt k x.1 a := by
  have hnull : ∀ w' : World, (1 : Assn Cell) ≤
      ⨆ a, fact ((0, w').1 ≠ 0 → ducCmd ev w fmt ap = some (0, w')) * rowAt k (0, w').1 a := fun w' =>
    le_iSup_of_le none (by rw [fact_true (fun h => absurd rfl h), one_mul, rowAt, fact_true rfl])
  refine triple_look fun ⟨r, w₁⟩ hsend => ?_
  dsimp only
  split_ifs with hr
  · exact Triple.pure (hnull w₁)
  refine triple_look fun ⟨r', w₂⟩ hlast => ?_
  dsimp only
  split_ifs with hr'
  · exact Triple.pure (hnull w₂)
  refine triple_look fun c _ => ?_
  split_ifs
  · refine triple_look fun line _ => (triple_row k _ _ line).bind fun p b => ?_
    refine Triple.iSup fun a => Triple.fact fun _ => Triple.pure (le_iSup_of_le a (le_of_eq ?_))
    have hv : vsendBody ev (ducOpen ev) w fmt ap = some (r, w₁) := hsend
    rw [fact_true, one_mul]
    intro _
    rw [ducCmd, cmdBody, hv]
    simp [not_not.1 hr, hlast, not_not.1 hr']
  · exact Triple.pure (hnull w₂)

end Newv

/-! ## When new iterators are made -/

section Returns

variable {ev : Handlers} {w₀ w : World} {σ : Arena Cell}

theorem look_returns {α : Type} {o : Option α} (h : o.isSome) (σ : Arena Cell) : (look o σ).isSome := by
  rw [look, Option.isSome_map]
  exact h

theorem look_some {α β : Type} (a : α) (f : α → HeapM Cell β) : (look (some a) >>= f) σ = f a σ := rfl

theorem rnext_zero {r : ℤ} {w' : World} (h : ducRnext ev w = some (r, w')) (h0 : 0 ≤ r) : r = 0 := by
  rcases ducRnext_cases h with ⟨-, rfl, -⟩ | ⟨-, -, rfl⟩ | ⟨_, _, _, -, -, ⟨-, -, rfl, -⟩ | ⟨-, rfl, -⟩⟩
  all_goals omega

theorem structParse_null {fs : List Member} {n s : ℕ} {m : Block UInt8 n} {x : ℕ × ℕ} {τ : Arena Cell}
    (h : structParse fs n m s σ = some (x, τ)) (hx : x.1 = 0) : x.2 = s := by
  obtain ⟨p, σ₁, hp⟩ := malloc_returns (.struct []) σ
  rw [structParse, bind_apply, hp, Option.bind_some] at h
  dsimp only at h
  by_cases hp0 : p = 0
  · rw [if_pos hp0] at h
    obtain ⟨rfl, -⟩ := Prod.mk.inj (Option.some.inj h)
    rfl
  rw [if_neg hp0] at h
  obtain ⟨⟨o, σ₂⟩, -, h⟩ := Option.bind_eq_some_iff.1 h
  obtain _ | ⟨vs, e⟩ := o
  · obtain ⟨_, -, h⟩ := Option.bind_eq_some_iff.1 h
    obtain ⟨rfl, -⟩ := Prod.mk.inj (Option.some.inj h)
    rfl
  · obtain ⟨_, -, h⟩ := Option.bind_eq_some_iff.1 h
    obtain ⟨rfl, -⟩ := Prod.mk.inj (Option.some.inj h)
    exact absurd hx hp0

theorem parse_end {n s : ℕ} {m : Block UInt8 n} {x : ℕ × ℕ} {τ : Arena Cell} (hσ : σ.sound = true)
    (h : k.parse n m s σ = some (x, τ)) : x.2 = s ∨ ∃ a, k.reader n m s = some (a, x.2) := by
  by_cases hx : x.1 = 0
  · cases k with
    | help =>
      obtain ⟨⟨t, σ₁⟩, ht, h⟩ := Option.bind_eq_some_iff.1 h
      obtain ⟨u, hu, heq⟩ := Option.map_eq_some_iff.1 ht
      obtain ⟨rfl, rfl⟩ := Prod.mk.inj heq
      obtain ⟨_, -, h⟩ := Option.bind_eq_some_iff.1 h
      obtain ⟨rfl, -⟩ := Prod.mk.inj (Option.some.inj h)
      exact Or.inr ⟨some u, by simp [RowType.reader, helpText, hu]; rfl⟩
    | _ => exact Or.inl (structParse_null h hx)
  · obtain ⟨-, b, -, hpost⟩ := (k.allocates.parses n m s).run hσ h
    rw [parsePost, Quantale.sup_mul_distrib] at hpost
    rcases hpost with hpost | hpost
    · exact absurd (fact_mul.1 hpost).1.1 hx
    · obtain ⟨a, ha⟩ := (iSup_mul_apply _).1 hpost
      rw [mul_assoc] at ha
      exact Or.inr ⟨some a, (fact_mul.1 ha).1.2⟩

/-- The converter reads the line, and its ends are in the receive buffer. -/
def World.Readable (k : RowType) (w : World) : Prop :=
  ∀ line, w.line = some line → (w.con.buf.cells[line]?).isSome ∧
    ∃ x e, k.reader _ w.con.buf line = some (x, e) ∧ (w.con.buf.cells[e]?).isSome

/-- The worlds at the lines of a reply. -/
inductive Onto (ev : Handlers) (w₀ : World) : World → Prop
  | start : Onto ev w₀ w₀
  | line {w w' : World} {r : ℤ} (h : Onto ev w₀ w) (hr : ducRnext ev w = some (r, w')) (h0 : 0 ≤ r) : Onto ev w₀ w'

/-- The lines of the reply to a command: they come, up to its end or to the rest that `_duc_rlast` reads, and the
converter stays in the receive buffer. -/
def Listable (ev : Handlers) (k : RowType) (w : World) (cmd : Cstr) (ap : List Arg) : Prop :=
  (ducVsend ev w cmd ap).isSome ∧ ∀ w₁, ducVsend ev w cmd ap = some (0, w₁) →
    (ducRnext ev w₁).isSome ∧ ∀ w₂, ducRnext ev w₁ = some (0, w₂) →
      w₂.rcode.isSome ∧ ∀ w₃, Onto ev w₂ w₃ →
        w₃.Readable k ∧ (ducRnext ev w₃).isSome ∧ (ducRlast ev w₃).isSome

theorem linkNode_returns (i last next : ℕ) (σ : Arena Cell) : (linkNode i last next σ).isSome := by
  refine bind_returns (load_returns i σ) fun v σ => ?_
  rcases v with _ | _ | _ | _ | ⟨list, freefunc⟩ <;> try rfl
  dsimp only
  split_ifs
  · exact store_returns i _ σ
  refine bind_returns (load_returns last σ) fun v σ => ?_
  rcases v with _ | _ | _ | ⟨data, _⟩ | _ <;> try rfl
  exact store_returns last _ σ

/-- **A round of the loop in `_duc_it_newv`** returns when its line does. -/
theorem collectBody_returns (hread : w.Readable k) (hnext : (ducRnext ev w).isSome) (hσ : σ.sound = true)
    (hh : (listingAt k i last rows * F : Assn Cell) σ.heap) : (collectBody ev k i (w, last) σ).isSome := by
  rw [collectBody]
  cases hline : w.line with
  | none => rfl
  | some line =>
    obtain ⟨hstart, a, e, hreader, hend⟩ := hread line hline
    dsimp only
    have hmalloc := (triple_malloc (Cell.node 0 0)).frame (listingAt k i last rows)
    rw [one_mul] at hmalloc
    obtain ⟨p, σ', hp⟩ := malloc_returns (Cell.node 0 0) σ
    refine hmalloc.bind_returns hσ hh (by rw [hp]; rfl) fun next b σ hσ hh => ?_
    split_ifs with hnext0
    · rfl
    cases b with
    | true =>
      rw [if_pos rfl, mul_assoc] at hh
      exact absurd (fact_mul.1 hh).1 hnext0
    | false =>
      rw [if_neg Bool.false_ne_true, mul_comm (cell _ _)] at hh
      refine triple_link.bind_returns hσ hh (linkNode_returns i last next σ) fun _ b σ hσ hh => ?_
      have hparse := (k.allocates.returns _ w.con.buf line σ hσ (by rw [hreader]; rfl))
      obtain ⟨⟨x, τ⟩, hx⟩ := Option.isSome_iff_exists.1 hparse
      rw [bind_apply, hx, Option.bind_some]
      refine bind_returns (store_returns next _ τ) fun _ τ => ?_
      have hcell : (w.con.buf.cells[x.2]?).isSome := by
        rcases parse_end hσ hx with he | ⟨a', ha'⟩
        · rw [he]
          exact hstart
        · obtain ⟨-, rfl⟩ := Prod.mk.inj (Option.some.inj (hreader.symm.trans ha'))
          exact hend
      refine bind_returns (look_returns hcell τ) fun c τ => ?_
      split_ifs
      · rfl
      refine bind_returns (look_returns hnext τ) fun r τ => ?_
      split_ifs <;> rfl

theorem collectBody_onto {w₂ : World} {x : World × ℕ} {y : World × ℕ ⊕ Bool × World} {τ : Arena Cell}
    (hx : Onto ev w₂ x.1) (h : collectBody ev k i x σ = some (y, τ)) :
    y.elim (fun x' => Onto ev w₂ x'.1 ∧ pending x'.1 < pending x.1) fun z => z.1 = false → Onto ev w₂ z.2 := by
  rw [collectBody] at h
  rcases hline : x.1.line with _ | line <;> rw [hline] at h
  · obtain ⟨rfl, -⟩ := Prod.mk.inj (Option.some.inj h)
    exact fun _ => hx
  dsimp only at h
  obtain ⟨⟨next, _⟩, -, h⟩ := Option.bind_eq_some_iff.1 h
  dsimp only at h
  split_ifs at h
  · obtain ⟨rfl, -⟩ := Prod.mk.inj (Option.some.inj h)
    exact fun _ => hx
  obtain ⟨_, -, h⟩ := Option.bind_eq_some_iff.1 h
  obtain ⟨_, -, h⟩ := Option.bind_eq_some_iff.1 h
  obtain ⟨_, -, h⟩ := Option.bind_eq_some_iff.1 h
  obtain ⟨_, -, h⟩ := Option.bind_eq_some_iff.1 h
  dsimp only at h
  split_ifs at h
  · obtain ⟨rfl, -⟩ := Prod.mk.inj (Option.some.inj h)
    exact fun _ => hx
  obtain ⟨⟨⟨r, w'⟩, _⟩, hr, h⟩ := Option.bind_eq_some_iff.1 h
  obtain ⟨_, hr', heq⟩ := Option.map_eq_some_iff.1 hr
  obtain ⟨rfl, rfl⟩ := Prod.mk.inj heq
  dsimp only at h
  split_ifs at h with h0
  · obtain ⟨rfl, -⟩ := Prod.mk.inj (Option.some.inj h)
    exact ⟨.line hx hr' h0, rnext_pending (rnext_zero hr' h0 ▸ hr')⟩
  · obtain ⟨rfl, -⟩ := Prod.mk.inj (Option.some.inj h)
    exact fun h => absurd h (by simp)

theorem collect_returns {w₂ : World} (hlines : ∀ w₃, Onto ev w₂ w₃ → w₃.Readable k ∧ (ducRnext ev w₃).isSome)
    {n : ℕ} {x : World × ℕ} {b : Bool} (hx : Onto ev w₂ x.1) (hn : pending x.1 < n) (hσ : σ.sound = true)
    (hh : (collectPre ev k i w₀ x b * F : Assn Cell) σ.heap) :
    ∃ y τ, HeapM.loop (collectBody ev k i) n x σ = some (y, τ) ∧ (y.1 = false → Onto ev w₂ y.2) := by
  induction n generalizing x b σ with
  | zero => omega
  | succ n ih =>
    obtain ⟨rows, hrows⟩ := (iSup_mul_apply _).1 hh
    rw [mul_assoc] at hrows
    obtain ⟨hread, hnext⟩ := hlines _ hx
    obtain ⟨⟨y, τ⟩, hy⟩ := Option.isSome_iff_exists.1 (collectBody_returns hread hnext hσ (fact_mul.1 hrows).2)
    obtain ⟨hτ, b', -, hpost⟩ := triple_collectBody x b F σ y τ hσ hh hy
    have honto := collectBody_onto hx hy
    rw [HeapM.loop, bind_apply, hy, Option.bind_some]
    cases y with
    | inr z => exact ⟨z, τ, rfl, honto⟩
    | inl x' => exact ih honto.1 (by have := honto.2; omega) hτ hpost

/-- **`_duc_it_newv`** returns when the lines of its reply do. -/
theorem newv_returns {cmd : Cstr} {ap : List Arg} (hσ : σ.sound = true) (h : Listable ev k w cmd ap) :
    (ducItNewvHeap ev k w cmd ap σ).isSome := by
  obtain ⟨hsend, h⟩ := h
  obtain ⟨⟨r, w₁⟩, hw₁⟩ := Option.isSome_iff_exists.1 hsend
  rw [ducItNewvHeap, hw₁, look_some]
  dsimp only
  split_ifs with hr
  · rfl
  obtain ⟨hnext, h⟩ := h w₁ (by rw [hw₁, not_not.1 hr])
  obtain ⟨⟨r', w₂⟩, hw₂⟩ := Option.isSome_iff_exists.1 hnext
  rw [hw₂, look_some]
  dsimp only
  split_ifs with hr'
  · rfl
  obtain ⟨hcode, h⟩ := h w₂ (by rw [hw₂, not_not.1 hr'])
  obtain ⟨c, hc⟩ := Option.isSome_iff_exists.1 hcode
  have hlast : ∀ w₃, Onto ev w₂ w₃ → ∀ τ, ((look (ducRlast ev w₃) >>= fun x => pure (0, x.2)) τ).isSome :=
    fun w₃ hw₃ τ => bind_returns (look_returns (h w₃ hw₃).2.2 τ) fun _ _ => rfl
  rw [hc, look_some]
  split_ifs with h53
  · exact hlast w₂ .start σ
  obtain ⟨i, τ, hi⟩ := malloc_returns (.iter 0 k) σ
  obtain ⟨hτ, b, -, hmalloc⟩ := (triple_malloc (Cell.iter 0 k)).run hσ hi
  rw [bind_apply, hi, Option.bind_some]
  split_ifs with hi0
  · exact hlast w₂ .start τ
  cases b with
  | true => exact absurd (fact_mul.1 hmalloc).1 hi0
  | false =>
    rw [if_neg Bool.false_ne_true] at hmalloc
    have hpre : cell i (Cell.iter 0 k) ≤ collectPre ev k i w₂ (w₂, 0) false := by
      refine le_iSup_of_le [] ?_
      rw [fact_true fun _ => Collected.start, one_mul]
      refine le_sup_of_le_left ?_
      rw [fact_true rfl, one_mul]
    have hhead := mul_le_mul_left hpre _ _ hmalloc
    obtain ⟨⟨done, w₃⟩, τ', hloop, honto⟩ := collect_returns (fun w₃ hw₃ => ⟨(h w₃ hw₃).1, (h w₃ hw₃).2.1⟩)
      .start (Nat.lt_succ_self _) hτ hhead
    obtain ⟨hτ', b', -, hend⟩ := Triple.loop triple_collectBody _ (w₂, 0) false _ τ _ τ' hτ hhead hloop
    rw [bind_apply, hloop, Option.bind_some]
    cases done with
    | true => rfl
    | false =>
      obtain ⟨rows, hrows⟩ := (iSup_mul_apply _).1 hend
      rw [mul_assoc] at hrows
      exact bind_returns (done_returns hτ' (fact_mul.1 hrows).2) fun _ τ => hlast w₃ (honto rfl) τ

/-- `Readable`, as a test. -/
def World.readable (k : RowType) (w : World) : Bool :=
  w.line.all fun line => (w.con.buf.cells[line]?).isSome &&
    (k.reader _ w.con.buf line).any fun x => (w.con.buf.cells[x.2]?).isSome

/-- The lines from this one on come, and there are at most `n`. -/
def linesCome (ev : Handlers) (k : RowType) : ℕ → World → Bool
  | 0, _ => false
  | n + 1, w => w.readable k && (ducRlast ev w).isSome &&
    (ducRnext ev w).any fun x => if 0 ≤ x.1 then linesCome ev k n x.2 else true

/-- `Listable`, as a test for replies of at most `n` lines. -/
def listable (ev : Handlers) (k : RowType) (n : ℕ) (w : World) (cmd : Cstr) (ap : List Arg) : Bool :=
  (ducVsend ev w cmd ap).any fun x => if x.1 = 0 then
    (ducRnext ev x.2).any fun y => if y.1 = 0 then y.2.rcode.isSome && linesCome ev k n y.2 else true
  else true

theorem World.readable_iff : w.readable k = true ↔ w.Readable k := by
  rw [World.readable, World.Readable, Option.all_eq_true]
  simp [Option.any_eq_true]

theorem Onto.linesCome {w' : World} (h : Onto ev w w') {n : ℕ} (hn : Dudlc.linesCome ev k n w = true) :
    ∃ m, Dudlc.linesCome ev k m w' = true := by
  induction h with
  | start => exact ⟨n, hn⟩
  | line h hr h0 ih =>
    obtain ⟨_ | m, hm⟩ := ih
    · cases hm
    · rw [Dudlc.linesCome, hr, Option.any_some, if_pos h0, Bool.and_eq_true] at hm
      exact ⟨m, hm.2⟩

/-- **The test** says that the lines of the reply come. -/
theorem listable_of_test {n : ℕ} {cmd : Cstr} {ap : List Arg} (h : listable ev k n w cmd ap = true) :
    Listable ev k w cmd ap := by
  obtain ⟨x, hx, h⟩ := (Option.any_eq_true ..).1 h
  refine ⟨by rw [hx]; rfl, fun w₁ hw₁ => ?_⟩
  obtain rfl := Option.some.inj (hx.symm.trans hw₁)
  rw [if_pos rfl] at h
  obtain ⟨y, hy, h⟩ := (Option.any_eq_true ..).1 h
  refine ⟨by rw [hy]; rfl, fun w₂ hw₂ => ?_⟩
  obtain rfl := Option.some.inj (hy.symm.trans hw₂)
  rw [if_pos rfl, Bool.and_eq_true] at h
  refine ⟨h.1, fun w₃ hw₃ => ?_⟩
  obtain ⟨_ | m, hm⟩ := hw₃.linesCome h.2
  · cases hm
  · rw [linesCome, Bool.and_eq_true, Bool.and_eq_true] at hm
    obtain ⟨z, hz, -⟩ := (Option.any_eq_true ..).1 hm.2
    exact ⟨World.readable_iff.1 hm.1.1, by rw [hz]; rfl, hm.1.2⟩

end Returns

end Dudlc
