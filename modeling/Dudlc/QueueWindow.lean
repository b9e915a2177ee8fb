import Dudlc.Feed
import Dudlc.Handover
import Dudlc.Requests
import Dudlc.Lib.Keyed

/-!
# The queue window

The window of the GTK client that shows the queue. It is filled from the reply to `queuelist` and follows
the broadcasts 660 to 663.

* `QueueRow`, `queueListPopulate`, `queueListStoreDel`; `ducBcastQueue`, `queueEvent`: the list store, and
  what broadcasts do to it.
* `evConn`, `iowatchDudl`, `guiRun`: connecting, and the polls that follow.
* `QueueChange`, `ListsQueue`, `Announces`: the queue of a server, and what the server sends.
* **`queue_window_iff`**: the rows are the queue when all bytes have been read, just when the changes
  broadcast before the end of the `queuelist` reply make no difference to it.
-/

namespace Dudlc

open Lib

/-! ## The list store -/

/-- The columns of the list store. -/
structure QueueRow where
  id : ℤ
  userId : ℤ
  user : Option (List UInt8)
  queued : ℤ
  albumId : ℤ
  albumPos : ℤ
  album : Option (List UInt8)
  duration : ℤ
  artistId : ℤ
  artist : Option (List UInt8)
  trackId : ℤ
  title : Option (List UInt8)
  deriving DecidableEq

section Window

/- `g_locale_to_utf8` depends on the locale, and gives NULL for text it cannot convert. -/
variable (gLocaleToUtf8 : List UInt8 → Option (List UInt8))

/-- What `queue_list_store_add` sets in a new row. -/
def queueRow (queue : DucQueue) : QueueRow where
  id := queue.id
  userId := queue.user.id
  user := gLocaleToUtf8 queue.user.name
  queued := queue.queued
  albumId := queue.track.album.id
  albumPos := queue.track.albumnr
  album := gLocaleToUtf8 queue.track.album.album
  duration := queue.track.duration
  artistId := queue.track.artist.id
  artist := gLocaleToUtf8 queue.track.artist.artist
  trackId := queue.track.id
  title := gLocaleToUtf8 queue.track.title

/-- `queue_list_store_add` -/
def queueListStoreAdd (store : List QueueRow) (queue : DucQueue) : List QueueRow :=
  store ++ [queueRow gLocaleToUtf8 queue]

/-- `queue_list_store_del` -/
def queueListStoreDel (store : List QueueRow) (queueid : ℤ) : List QueueRow :=
  store.eraseP fun row => row.id = queueid

/-- `queue_list_clear` -/
def queueListClear (_store : List QueueRow) : List QueueRow := []

/-- `queue_list_populate` -/
def queueListPopulate (store : List QueueRow) (queues : List DucQueue) : List QueueRow :=
  queues.foldl (queueListStoreAdd gLocaleToUtf8) (queueListClear store)

/-! ## Its events -/

def evQueuefetch (store : List QueueRow) (queue : DucQueue) : List QueueRow :=
  queueListStoreDel store queue.id
def evQueueadd (store : List QueueRow) (queue : DucQueue) : List QueueRow :=
  queueListStoreAdd gLocaleToUtf8 store queue
def evQueuedel (store : List QueueRow) (queue : DucQueue) : List QueueRow :=
  queueListStoreDel store queue.id
def evQueueclear (store : List QueueRow) : List QueueRow := queueListClear store
def evDisc (store : List QueueRow) : List QueueRow := queueListClear store

/-- `_duc_bcast_queue`, with the handlers of `main.c`. -/
def ducBcastQueue (store : List QueueRow) (l : List UInt8) : List QueueRow :=
  let queue := (lineConverter ducQueueParse (l.drop 4)).1
  match (l[2]? : Option UInt8) with
  | some 48 => queue.elim store (evQueuefetch store)
  | some 49 => queue.elim store (evQueueadd gLocaleToUtf8 store)
  | some 50 => queue.elim store (evQueuedel store)
  | some 51 => evQueueclear store
  | _ => store

/-- What an event does to the rows. -/
def queueEvent (store : List QueueRow) : Event → List QueueRow
  | .connect => store
  | .disconnect => evDisc store
  | .bcast l => if l[1]? = some 54 then ducBcastQueue gLocaleToUtf8 store l else store

/-- The rows after the events that were raised from `w` to `v`. -/
def queueEvents (store : List QueueRow) (w v : World) : List QueueRow :=
  (v.log.drop w.log.length).foldl (queueEvent gLocaleToUtf8) store

variable (ev : Handlers)

/-- `ev_conn`, with the rows of the queue window. -/
def evConn (g : List QueueRow × World) : Option (List QueueRow × World) := do
  let (_, w) ← ducCmdStatus.run (World.op ev) g.2
  let (_, w) ← ducCmdCurtrack.run (World.op ev) w
  let (q, w) ← ducCmdQueuelist.run (World.op ev) w
  let store := queueEvents gLocaleToUtf8 g.1 g.2 w
  match q with
  | none => return (store, w)
  | some q => return (queueListPopulate gLocaleToUtf8 store q, w)

/-- `iowatch_dudl`. `ev_disc` removes the watch. -/
def iowatchDudl (g : List QueueRow × World) (_ : Unit) : Option (List QueueRow × World) := do
  if g.2.con.fd = -1 then failure
  else
    let w ← ducPoll ev g.2
    return (queueEvents gLocaleToUtf8 g.1 g.2 w, w)

/-- `ev_conn`, and `n` polls. -/
def guiRun (n : ℕ) (g : List QueueRow × World) : Option (List QueueRow × World) := do
  runs (iowatchDudl gLocaleToUtf8 ev) (← evConn gLocaleToUtf8 ev g) (List.replicate n ())

end Window

/-! ## The server -/

/-- A change of the queue. -/
inductive QueueChange
  | fetch (queue : DucQueue)
  | add (queue : DucQueue)
  | del (queue : DucQueue)
  | clear
  deriving DecidableEq

/-- What a change does to the queue, whose entries have different ids. -/
def QueueChange.edit : QueueChange → Edit DucQueue ℤ
  | .fetch queue => .remove queue.id
  | .add queue => .append queue
  | .del queue => .remove queue.id
  | .clear => .clear

/-- The queue after changes. -/
def changed (Q : List DucQueue) (cs : List QueueChange) : Option (List DucQueue) :=
  runs (editStep DucQueue.id) Q (cs.map QueueChange.edit)

/-- The code of the broadcast of a change. -/
def QueueChange.code : QueueChange → List UInt8
  | .fetch _ => [54, 54, 48]
  | .add _ => [54, 54, 49]
  | .del _ => [54, 54, 50]
  | .clear => [54, 54, 51]

/-- The entry that is named in the broadcast of a change. -/
def QueueChange.entry : QueueChange → Option DucQueue
  | .fetch queue => some queue
  | .add queue => some queue
  | .del queue => some queue
  | .clear => none

/-- The line is the broadcast of the change. -/
def Announces (c : QueueChange) (l : List UInt8) : Prop :=
  l.take 3 = c.code ∧ ∀ queue, c.entry = some queue → (lineConverter ducQueueParse (l.drop 4)).1 = some queue

/-- A line with one of the codes 660 to 663. -/
def isQueueNews (l : List UInt8) : Bool :=
  l.take 3 ∈ [[54, 54, 48], [54, 54, 49], [54, 54, 50], [54, 54, 51]]

/-- The reply that lists the queue: a line for each entry, or a single line without an entry. Its code is
not 5xx. -/
def ListsQueue (Q : List DucQueue) (rep : List (List UInt8)) : Prop :=
  rep.head?.bind List.head? ≠ some 53 ∧
    rep.map (fun l => lineConverter ducQueueParse (l.drop 4)) =
      if Q = [] then [(none, 0)] else Q.map fun queue => (some queue, 0)

variable {gLocaleToUtf8 : List UInt8 → Option (List UInt8)} {ev : Handlers} {w w' v : World}
  {store : List QueueRow} {ls : List (List UInt8)} {l part : List UInt8} {Q : List DucQueue}
  {c : QueueChange} {cs : List QueueChange}

/-! ## Rows -/

theorem queueListPopulate_eq (store : List QueueRow) (queues : List DucQueue) :
    queueListPopulate gLocaleToUtf8 store queues = queues.map (queueRow gLocaleToUtf8) := by
  have hfold : ∀ rows : List QueueRow, queues.foldl (queueListStoreAdd gLocaleToUtf8) rows =
      rows ++ queues.map (queueRow gLocaleToUtf8) := by
    induction queues with
    | nil => exact fun rows => (List.append_nil rows).symm
    | cons q qs ih =>
      intro rows
      rw [List.foldl_cons, ih, queueListStoreAdd, List.append_assoc]
      rfl
  exact hfold []

/-- The change as it is made to the rows. -/
def QueueChange.rowEdit (gLocaleToUtf8 : List UInt8 → Option (List UInt8)) (c : QueueChange) :
    Edit QueueRow ℤ :=
  c.edit.map (queueRow gLocaleToUtf8)

theorem queueEvent_announces (h : Announces c l) : queueEvent gLocaleToUtf8 store (.bcast l) =
    edit QueueRow.id store (c.rowEdit gLocaleToUtf8) := by
  obtain ⟨hcode, hentry⟩ := h
  have hat : ∀ i < 3, l[i]? = c.code[i]? := by
    intro i hi
    rw [← hcode, List.getElem?_take_of_lt hi]
  have h1 := hat 1 (by decide)
  have h2 := hat 2 (by decide)
  cases c with
  | clear => simp [queueEvent, ducBcastQueue, h1, h2, QueueChange.code]; rfl
  | fetch q | add q | del q =>
    simp [queueEvent, ducBcastQueue, h1, h2, QueueChange.code, hentry q rfl]; rfl

theorem queueEvent_other (hl : isBcast l = true) (hnot : isQueueNews l = false) :
    queueEvent gLocaleToUtf8 store (.bcast l) = store := by
  rcases l with _ | ⟨a, _ | ⟨b, _ | ⟨c, l⟩⟩⟩
  · rfl
  · rfl
  · simp [queueEvent, ducBcastQueue]
  · obtain rfl : a = 54 := by simpa [isBcast] using hl
    simp only [queueEvent, List.getElem?_cons_succ, List.getElem?_cons_zero, Option.some.injEq]
    by_cases hb : b = 54
    · subst hb
      simp [isQueueNews] at hnot
      simp [ducBcastQueue]
      grind
    · rw [if_neg hb]

theorem isBcast_of_news (h : isQueueNews l = true) : isBcast l = true := by
  cases l with
  | nil => exact absurd h (by decide)
  | cons b l =>
    simp only [isQueueNews, List.take_succ_cons, List.mem_cons, List.cons.injEq, List.not_mem_nil,
      or_false, decide_eq_true_eq] at h
    obtain rfl : b = 54 := by
      rcases h with h | h | h | h <;> exact h.1
    rfl

/-- **Broadcasts are followed**: the changes they announce are made to the rows. -/
theorem foldl_announces (h : List.Forall₂ Announces cs (ls.filter isQueueNews)) :
    ((ls.filter isBcast).map Event.bcast).foldl (queueEvent gLocaleToUtf8) store =
      (cs.map (QueueChange.rowEdit gLocaleToUtf8)).foldl (edit QueueRow.id) store := by
  induction ls generalizing cs store with
  | nil =>
    obtain rfl := List.forall₂_nil_right_iff.1 h
    rfl
  | cons l ls ih =>
    by_cases hl : isQueueNews l = true
    · rw [List.filter_cons_of_pos hl] at h
      obtain ⟨c, cs, hc, hcs, rfl⟩ := List.forall₂_cons_right_iff.1 h
      rw [List.filter_cons_of_pos (isBcast_of_news hl), List.map_cons, List.foldl_cons, ih hcs,
        queueEvent_announces hc, List.map_cons, List.foldl_cons]
    · rw [List.filter_cons_of_neg hl] at h
      by_cases hb : isBcast l = true
      · rw [List.filter_cons_of_pos hb, List.map_cons, List.foldl_cons,
          queueEvent_other hb (by simpa using hl), ih h]
      · rw [List.filter_cons_of_neg hb, ih h]

theorem queueEvents_append {events : List Event} (h : v.log = w.log ++ events) :
    queueEvents gLocaleToUtf8 store w v = events.foldl (queueEvent gLocaleToUtf8) store := by
  rw [queueEvents, h, List.drop_left]

/-! ## Polling -/

/-- **`duc_poll`** closes the connection, or takes lines of the stream. -/
theorem poll_stream (hev : ev.Quiet) (ht : w.con.Tidy) (h : Stream w ls part)
    (hp : ducPoll ev w = some v) (hfd : v.con.fd ≠ -1) : ∃ used ms, ls = used ++ ms ∧
      v.log = w.log ++ (used.filter isBcast).map .bcast ∧ Stream v ms part ∧ v.con.Tidy := by
  rw [ducPoll_open h.fd, Option.bind_eq_some_iff] at hp
  obtain ⟨⟨r, u⟩, hr, hp⟩ := hp
  obtain ⟨-, -, -, hrecv, -⟩ := recv_cases hr
  have hu : u.con.Tidy := hrecv ht
  by_cases h0 : r = 0
  · have hroom : 1 ≤ w.con.room := by
      by_contra hroom
      have hlost := (recv_no_room h.fd (by omega) hr).1
      omega
    obtain ⟨q, con, recvs, rooms, hq, ⟨-, hs⟩ | ⟨rfl, -⟩⟩ := stream_recv h hroom <;>
      obtain ⟨rfl, rfl⟩ := Prod.mk.inj (Option.some.inj (hr.symm.trans hq))
    · rw [if_pos h0] at hp
      obtain ⟨used, ms, hls, hlog, hs, -, htidy⟩ := pollLoop_stream hu hs hp
      exact ⟨used, ms, hls, hlog, hs, htidy⟩
    · omega
  · rw [if_neg h0, close_quiet hev, Option.bind_some,
      pollLoop_closed (disconnect_tidy hu) (disconnect_fd hu)] at hp
    obtain rfl := Option.some.inj hp
    exact absurd (disconnect_fd hu) hfd

/-- **Polls that keep the connection** follow the broadcasts they take. -/
theorem iowatch_stream (hev : ev.Quiet) {n : ℕ} {rows : List QueueRow} (ht : w.con.Tidy)
    (h : Stream w ls part)
    (hrun : runs (iowatchDudl gLocaleToUtf8 ev) (store, w) (List.replicate n ()) = some (rows, v))
    (hfd : v.con.fd ≠ -1) : ∃ used ms, ls = used ++ ms ∧ Stream v ms part ∧
      rows = ((used.filter isBcast).map .bcast).foldl (queueEvent gLocaleToUtf8) store := by
  induction n generalizing store w ls with
  | zero =>
    obtain ⟨rfl, rfl⟩ := Prod.mk.inj (Option.some.inj hrun)
    exact ⟨[], ls, rfl, h, rfl⟩
  | succ n ih =>
    rw [List.replicate_succ, runs_cons, Option.bind_eq_some_iff] at hrun
    obtain ⟨⟨store', u⟩, hstep, hrun⟩ := hrun
    rw [iowatchDudl, if_neg h.fd] at hstep
    obtain ⟨u', hp, heq⟩ := Option.bind_eq_some_iff.1 hstep
    obtain ⟨rfl, rfl⟩ := Prod.mk.inj (Option.some.inj heq)
    have hopen : u'.con.fd ≠ -1 := by
      intro hc
      cases n with
      | zero => exact hfd ((Prod.mk.inj (Option.some.inj hrun)).2 ▸ hc)
      | succ n =>
        rw [List.replicate_succ, runs_cons, iowatchDudl, if_pos hc] at hrun
        cases hrun
    obtain ⟨used, ms, rfl, hlog, hs, ht'⟩ := poll_stream hev ht h hp hopen
    obtain ⟨used', ms', rfl, hs', hrows⟩ := ih ht' hs hrun
    refine ⟨used ++ used', ms', (List.append_assoc ..).symm, hs', ?_⟩
    rw [hrows, queueEvents_append hlog, List.filter_append, List.map_append, List.foldl_append]

/-! ## Connecting -/

theorem listsQueue_answer {rep : List (List UInt8)} (h : ListsQueue Q rep) : ∃ it,
    Helper.answer (.it (lineConverter ducQueueParse)) rep = .list (some it) ∧ walk it = Q := by
  obtain ⟨hcode, hrep⟩ := h
  refine ⟨⟨rep.map fun l => (lineConverter ducQueueParse (l.drop 4)).1⟩, ?_, ?_⟩
  · have hall : ∀ t ∈ rep.map (List.drop 4), (lineConverter ducQueueParse t).2 = 0 := by
      intro t ht
      obtain ⟨l, hl, rfl⟩ := List.mem_map.1 ht
      have hmem := List.mem_map_of_mem (f := fun l => lineConverter ducQueueParse (l.drop 4)) hl
      rw [hrep] at hmem
      split_ifs at hmem
      · rw [List.mem_singleton.1 hmem]
      · obtain ⟨q, -, hq⟩ := List.mem_map.1 hmem
        rw [← hq]
    rw [Helper.answer, if_neg hcode, itRecords, if_pos hall, Option.map_some, List.map_map]
    rfl
  · have hlist : rep.map (fun l => (lineConverter ducQueueParse (l.drop 4)).1) =
        if Q = [] then [none] else Q.map some := by
      have := congrArg (List.map Prod.fst) hrep
      rw [List.map_map] at this
      refine this.trans ?_
      split_ifs
      · rfl
      · rw [List.map_map]
        rfl
    rw [hlist]
    split_ifs with hQ
    · rw [hQ]
      rfl
    · have hwalk : (walk ⟨Q.map some⟩).map some = Q.map some := walk_map_some.2 (by simp)
      exact List.map_injective_iff.2 (Option.some_injective _) hwalk

/-- **`ev_conn`** fills the window with the listed queue, and has read the lines up to the end of the
reply. -/
theorem evConn_reads (gLocaleToUtf8 : List UInt8 → Option (List UInt8)) (ev : Handlers)
    (store : List QueueRow) {status curtrack list : List (List UInt8)}
    (hb : Between w ls part [status, curtrack, list]) (hlist : ListsQueue Q list) :
    ∃ v used last behind, evConn gLocaleToUtf8 ev (store, w) = some (Q.map (queueRow gLocaleToUtf8), v) ∧
      ls = used ++ last :: behind ∧ isBcast last = false ∧ (∀ b ∈ behind, isBcast b = true) ∧
      Stream v behind part ∧ v.con.fd = w.con.fd := by
  obtain ⟨w₁, ls₁, h₁, hb₁, hm₁⟩ := runCmd_between ev
    (show Cmd.text (⟨.int, .lit "status", []⟩ : Cmd Unit) = some (Cstr.lit "status").bytes from rfl)
    (by decide) hb
  obtain ⟨w₂, ls₂, h₂, hb₂, hm₂⟩ := runCmd_between ev
    (show Cmd.text ⟨.conv (lineConverter ducTrackParse), .lit "curtrack", []⟩ =
      some (Cstr.lit "curtrack").bytes from rfl) (by decide) hb₁
  obtain ⟨v, behind, h₃, hb₃, hm₃⟩ := runCmd_between ev
    (show Cmd.text ⟨.it (lineConverter ducQueueParse), .lit "queuelist", []⟩ =
      some (Cstr.lit "queuelist").bytes from rfl) (by decide) hb₂
  obtain ⟨it, hit, hwalk⟩ := listsQueue_answer hlist
  obtain ⟨used₁, rfl, -⟩ := hm₁.log
  obtain ⟨used₂, rfl, -⟩ := hm₂.log
  have hne : behind ≠ ls₂ := by
    intro heq
    have hnil : replyLines behind = [] := hb₃.lines
    obtain ⟨code, hcode⟩ := hb₂.replies list List.mem_cons_self
    rw [heq, hb₂.lines, List.flatten_cons, List.append_eq_nil_iff] at hnil
    exact hcode.ne_nil hnil.1
  obtain ⟨used₃, last, rfl, hlast⟩ := hm₃.stops.resolve_left hne
  refine ⟨v, used₁ ++ used₂ ++ used₃, last, behind, ?_, by simp only [List.append_assoc], hlast,
    replyLines_nil hb₃.lines, hb₃.stream, hm₃.fd.trans (hm₂.fd.trans hm₁.fd)⟩
  have hstatus : ducCmdStatus.run (World.op ev) w = (askInt (.lit "status") []).run (World.op ev) w := by
    simp only [ducCmdStatus, Prog.run_bind, Prog.run_ask, World.op, Option.bind_some, Prog.run_ite,
      if_neg hb.idle.fd]
  have hqueuelist : ducCmdQueuelist.run (World.op ev) w₂ = some (some Q, v) :=
    (askIter_run (h₃.trans (by rw [hit]))).trans (by rw [Option.map_some, hwalk])
  simp only [evConn, hstatus, askInt_run h₁, ducCmdCurtrack, askConv_run h₂, hqueuelist, Option.bind_eq_bind, Option.bind_some,
    queueListPopulate_eq, Option.pure_def]

/-! ## The window and the queue -/

/-- What the server does and sends. Its queue `Q₀`, of different ids, goes through the changes `before` to
`cur` and then through the changes `after` to `Q`. The broadcasts of `before` come before `last`, the last
line of the reply `list` to `queuelist`, and those of `after` behind it. The reply lists `snap`, the queue
at one instant. -/
structure QueueServed (Q₀ snap cur Q : List DucQueue) (before after : List QueueChange)
    (list upto : List (List UInt8)) (last : List UInt8) (behind : List (List UInt8)) : Prop where
  ids : (Q₀.map DucQueue.id).Nodup
  current : changed Q₀ before = some cur
  final : changed cur after = some Q
  instant : ∃ cs, cs <+: before ++ after ∧ changed Q₀ cs = some snap
  listed : ListsQueue snap list
  reply : isBcast last = false
  rest : ∀ b ∈ behind, isBcast b = true
  early : List.Forall₂ Announces before (upto.filter isQueueNews)
  late : List.Forall₂ Announces after (behind.filter isQueueNews)

/-- Instead of the queue `cur` its snapshot `snap` may go through the changes `after`: one of them clears
the queue, or no entry of the snapshot is missing in `cur`, and the rows of the two differ only in entries
that the changes take out. -/
def Replaces (gLocaleToUtf8 : List UInt8 → Option (List UInt8)) (snap cur : List DucQueue)
    (after : List QueueChange) : Prop :=
  QueueChange.clear ∈ after ∨ (∀ queue ∈ snap, queue.id ∈ cur.map DucQueue.id) ∧
    (kept DucQueue.id (after.map QueueChange.edit) snap).map (queueRow gLocaleToUtf8) =
      (kept DucQueue.id (after.map QueueChange.edit) cur).map (queueRow gLocaleToUtf8)

theorem behind_unique {upto upto' behind behind' : List (List UInt8)} {last last' : List UInt8}
    (h : upto ++ last :: behind = upto' ++ last' :: behind') (hl : isBcast last = false)
    (hl' : isBcast last' = false) (hb : ∀ b ∈ behind, isBcast b = true)
    (hb' : ∀ b ∈ behind', isBcast b = true) : behind = behind' := by
  rcases List.append_eq_append_iff.1 h with ⟨x, -, hx⟩ | ⟨x, -, hx⟩ <;> rcases x with _ | ⟨k, x⟩
  · exact (List.cons.inj hx).2
  · have := hb last' (by rw [(List.cons.inj hx).2]; simp)
    rw [hl'] at this
    cases this
  · exact (List.cons.inj hx).2.symm
  · have := hb' last (by rw [(List.cons.inj hx).2]; simp)
    rw [hl] at this
    cases this

theorem rowEdits (cs : List QueueChange) : cs.map (QueueChange.rowEdit gLocaleToUtf8) =
    (cs.map QueueChange.edit).map (Edit.map (queueRow gLocaleToUtf8)) :=
  List.map_map.symm

theorem rowEdits_clear (cs : List QueueChange) :
    Edit.clear ∈ cs.map (QueueChange.rowEdit gLocaleToUtf8) ↔ QueueChange.clear ∈ cs := by
  rw [List.mem_map]
  constructor
  · rintro ⟨c, hc, heq⟩
    cases c with
    | clear => exact hc
    | fetch q | add q | del q => cases heq
  · exact fun h => ⟨.clear, h, rfl⟩

theorem rows_iff {snap cur : List DucQueue} (hsnap : (snap.map DucQueue.id).Nodup)
    (hcur : (cur.map DucQueue.id).Nodup) (h : changed cur cs = some Q) :
    (cs.map (QueueChange.rowEdit gLocaleToUtf8)).foldl (edit QueueRow.id)
        (snap.map (queueRow gLocaleToUtf8)) = Q.map (queueRow gLocaleToUtf8) ↔
      Replaces gLocaleToUtf8 snap cur cs := by
  have hid : ∀ queue, (queueRow gLocaleToUtf8 queue).id = queue.id := fun _ => rfl
  have hids : ∀ P : List DucQueue, (P.map (queueRow gLocaleToUtf8)).map QueueRow.id = P.map DucQueue.id :=
    fun P => List.map_map
  have hruns := runs_map hid h
  rw [← rowEdits] at hruns
  rw [edits_eq_iff ((hids snap).symm ▸ hsnap) ((hids cur).symm ▸ hcur) hruns, rowEdits_clear, rowEdits,
    kept_map hid, kept_map hid, hids, hids, List.forall_mem_map]
  rfl

/-- **The queue window mirrors the queue** when the client, still connected, has read all bytes, just when
the listed queue replaces the queue as it was after the changes that were broadcast before the last line
of the reply: these changes are overwritten, or made twice, when the reply is shown. -/
theorem queue_window_iff (hev : ev.Quiet) (ht : w.con.Tidy)
    {status curtrack list upto behind : List (List UInt8)} {last : List UInt8}
    (hb : Between w (upto ++ last :: behind) part [status, curtrack, list])
    {Q₀ snap cur : List DucQueue} {before after : List QueueChange}
    (h : QueueServed Q₀ snap cur Q before after list upto last behind) {n : ℕ} {rows : List QueueRow}
    (hrun : guiRun gLocaleToUtf8 ev n (store, w) = some (rows, v)) (hfd : v.con.fd ≠ -1)
    (hall : incoming v.recvs = [] ∧ v.con.unread = []) :
    rows = Q.map (queueRow gLocaleToUtf8) ↔ Replaces gLocaleToUtf8 snap cur after := by
  obtain ⟨w₁, used, last', behind', hconn, hls, hlast', hbehind', hs, hfd₁⟩ :=
    evConn_reads gLocaleToUtf8 ev store hb h.listed
  obtain rfl := behind_unique hls h.reply hlast' h.rest hbehind'
  rw [guiRun, hconn] at hrun
  have ht₁ : w₁.con.Tidy := ⟨hfd₁ ▸ ht.fd, fun hc => absurd hc hs.fd⟩
  obtain ⟨done, rest, hdone, hend, hrows⟩ := iowatch_stream hev ht₁ hs hrun hfd
  have hrest : rest = [] := by
    obtain ⟨taken, u, hu, hstream⟩ := hend.holds
    rw [hall.1, List.append_nil, ← hu.unread_eq, hall.2] at hstream
    exact not_fits (fun b hb => absurd hb List.not_mem_nil) hstream
  rw [hrest, List.append_nil] at hdone
  obtain ⟨cs, -, hsnap⟩ := h.instant
  rw [hrows, ← hdone, foldl_announces h.late]
  exact rows_iff (edits_nodup h.ids hsnap) (edits_nodup h.ids h.current) h.final


/-- An entry with the id `id`. -/
def sampleQueue (id : ℤ) : DucQueue where
  id := id
  queued := 0
  user := ⟨1, (Cstr.lit "a").bytes, 5⟩
  track := ⟨2, ⟨3, (Cstr.lit "B").bytes, ⟨4, (Cstr.lit "A").bytes⟩, 2000⟩, 1, (Cstr.lit "t").bytes,
    ⟨4, (Cstr.lit "A").bytes⟩, 60⟩

/-- A line about this entry. -/
def sampleLine (code id : String) : List UInt8 :=
  (Cstr.lit (code ++ id ++ "\t0\t1\ta\t5\t2\t1\tt\t60\t4\tA\t3\tB\t2000\t4\tA")).bytes

/-- The replies to `status` and `curtrack`, and the first entry of the queue. -/
def sampleUpto : List (List UInt8) :=
  [(Cstr.lit "250 1").bytes, (Cstr.lit "350 none").bytes, sampleLine "250-" "1"]

/-- The reply to `queuelist`. -/
def sampleList : List (List UInt8) := [sampleLine "250-" "1", sampleLine "250 " "2"]

theorem sample_listed : ListsQueue [sampleQueue 1, sampleQueue 2] sampleList :=
  ⟨by decide +kernel, by decide +kernel⟩

theorem sample_tidy (recvs : List Recv) : (idleWorld recvs []).con.Tidy :=
  ⟨Or.inr (show (0 : ℤ) ≤ 3 by decide), fun h => absurd h (show (3 : ℤ) ≠ -1 by decide)⟩

theorem sample_between {lines : List (List UInt8)} {recvs : List Recv}
    (hin : incoming recvs = wire LF lines ++ []) (hlines : ∀ l ∈ lines, WireLine 4 l)
    (hreps : replyLines lines =
      [[(Cstr.lit "250 1").bytes], [(Cstr.lit "350 none").bytes], sampleList].flatten) :
    Between (idleWorld recvs []) lines []
      [[(Cstr.lit "250 1").bytes], [(Cstr.lit "350 none").bytes], sampleList] := by
  refine ⟨⟨freshSock_fresh.1, rfl⟩, fun x hx => absurd hx List.not_mem_nil, ⟨freshSock_fresh.1,
    ⟨[], [], holds_nil rfl rfl, hin⟩, hlines, fun b hb => absurd hb List.not_mem_nil, Nat.zero_le _⟩,
    hreps, fun rep hrep => ?_⟩
  simp only [List.mem_cons, List.not_mem_nil, or_false] at hrep
  rcases hrep with rfl | rfl | rfl
  · exact ⟨_, .last rfl (by decide)⟩
  · exact ⟨_, .last rfl (by decide)⟩
  · exact ⟨(Cstr.lit "250").bytes, .more (by decide +kernel) (by decide +kernel)
      (.last (by decide +kernel) (by decide +kernel))⟩

/-- The rows after a run that keeps the connection and reads all bytes. -/
def readsAll (rows : List QueueRow) (g : List QueueRow × World) : Bool :=
  g.1 = rows ∧ g.2.con.fd = 3 ∧ g.2.recvs = [] ∧ g.2.con.unread = []

theorem sample_run (n : ℕ) (rows : List QueueRow) (recvs : List Recv)
    (h : (guiRun some .passive n ([], idleWorld recvs [])).map (readsAll rows) = some true) :
    ∃ v, guiRun some .passive n ([], idleWorld recvs []) = some (rows, v) ∧ v.con.fd ≠ -1 ∧
      incoming v.recvs = [] ∧ v.con.unread = [] := by
  obtain ⟨⟨rows', v⟩, hv, hall⟩ := Option.map_eq_some_iff.1 h
  obtain ⟨rfl, hfd, hrecvs, hunread⟩ := of_decide_eq_true hall
  exact ⟨v, hv, by rw [hfd]; decide, by rw [hrecvs]; rfl, hunread⟩

/-- **An entry is lost.** It is added, and broadcast, while the server sends the list of two entries. -/
theorem queue_window_misses : ∃ w upto last Q v rows, w.con.Tidy ∧
    Between w (upto ++ last :: []) []
      [[(Cstr.lit "250 1").bytes], [(Cstr.lit "350 none").bytes], sampleList] ∧
    QueueServed [sampleQueue 1, sampleQueue 2] [sampleQueue 1, sampleQueue 2] Q Q [.add (sampleQueue 3)] []
      sampleList upto last [] ∧
    guiRun some .passive 0 ([], w) = some (rows, v) ∧ v.con.fd ≠ -1 ∧ incoming v.recvs = [] ∧
    v.con.unread = [] ∧ rows ≠ Q.map (queueRow some) := by
  let upto := sampleUpto ++ [sampleLine "661 " "3"]
  let last := sampleLine "250 " "2"
  obtain ⟨v, hv, hfd, hrecvs, hunread⟩ := sample_run 0
    ([sampleQueue 1, sampleQueue 2].map (queueRow some)) [some (wire LF (upto ++ last :: []))]
    (by decide +kernel)
  refine ⟨_, upto, last, [sampleQueue 1, sampleQueue 2, sampleQueue 3], v, _, sample_tidy _,
    sample_between (by decide +kernel) (by decide +kernel) (by decide +kernel), ?_, hv, hfd, hrecvs, hunread,
    by decide +kernel⟩
  refine ⟨by decide, by decide, by decide, ⟨[], List.nil_prefix, rfl⟩, sample_listed, by decide +kernel,
    fun b hb => absurd hb List.not_mem_nil, ?_, .nil⟩
  have hnews : upto.filter isQueueNews = [sampleLine "661 " "3"] := by decide +kernel
  rw [hnews]
  exact .cons ⟨by decide +kernel, fun q hq => Option.some.inj hq ▸ by decide +kernel⟩ .nil

/-- The theorem where an entry is taken out behind the reply. -/
theorem queue_window_follows : ∃ w v, guiRun some .passive 1 ([], w) =
    some ([queueRow some (sampleQueue 2)], v) ∧
    [queueRow some (sampleQueue 2)] = [sampleQueue 2].map (queueRow some) := by
  let last := sampleLine "250 " "2"
  let behind := [sampleLine "662 " "1"]
  let recvs := [some (wire LF (sampleUpto ++ [last])), some (wire LF behind)]
  obtain ⟨v, hv, hfd, hrecvs, hunread⟩ := sample_run 1 [queueRow some (sampleQueue 2)] recvs
    (by decide +kernel)
  have hserved : QueueServed [sampleQueue 1, sampleQueue 2] [sampleQueue 1, sampleQueue 2]
      [sampleQueue 1, sampleQueue 2] [sampleQueue 2] [] [.del (sampleQueue 1)] sampleList sampleUpto last
      behind := by
    refine ⟨by decide, rfl, by decide, ⟨[], List.nil_prefix, rfl⟩, sample_listed, by decide +kernel,
      by decide +kernel, ?_, ?_⟩
    · have hnews : sampleUpto.filter isQueueNews = [] := by decide +kernel
      rw [hnews]
      exact .nil
    · have hnews : behind.filter isQueueNews = behind := by decide +kernel
      rw [hnews]
      exact .cons ⟨by decide +kernel, fun q hq => Option.some.inj hq ▸ by decide +kernel⟩ .nil
  refine ⟨_, v, hv, (queue_window_iff (fun _ => rfl) (sample_tidy recvs)
    (sample_between (by decide +kernel) (by decide +kernel) (by decide +kernel)) hserved hv hfd
    ⟨hrecvs, hunread⟩).2 (Or.inr ⟨by decide, rfl⟩)⟩

end Dudlc
