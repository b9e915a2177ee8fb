import Dudlc.Records
import Dudlc.Lib.Loop

/-!
# The detail windows

The windows of the GTK client that show the tracks of an album and the albums of an artist. An idle
callback updates them, with three requests; while it waits for a reply, broadcasts are dispatched.

* `Details`, `detailUpdate`, `detailUpdateIdle`: the windows, and what `main.c` does to them.
* `DetailRun`, `detailStep`: the client, the stream from the server, and the server.
* `DetailRun.Inv`, `detailStep_inv`: what a step keeps.
* **`details_catch_up_iff`**: the windows show the track that was announced last whenever the queued
  callbacks have run, just when no callback ends behind a newer track.
-/

namespace Dudlc

open Lib

/-! ## The windows -/

/-- `needupdate`, the number of queued idle callbacks, the track in the playbox, the album whose tracks
and the artist whose albums are shown. -/
structure Details where
  needupdate : ℕ
  queued : ℕ
  playbox : Option DucTrack
  tracksalbum : Option ℤ
  albumsartist : Option ℤ
  deriving DecidableEq

/-- `detail_update` -/
def detailUpdate (d : Details) (t : DucTrack) : Details :=
  { d with playbox := some t, needupdate := d.needupdate + 1, queued := d.queued + 1 }

/-- `ev_nexttrack` -/
def evNexttrack (d : Details) (t : DucTrack) : Details := detailUpdate d t

/-- Where the client is: in the main loop, or in `detail_update_idle` waiting for a reply. -/
inductive Waiting
  | mainLoop
  | curtrack
  | tracksalbum (cur : DucTrack)
  | albumsartist (cur : DucTrack)
  deriving DecidableEq

/-- The requests of `detail_update_idle`. -/
inductive DetailRequest
  | curtrack
  | tracksalbum (id : ℤ)
  | albumsartist (id : ℤ)
  deriving DecidableEq

/-- What the server sends: a broadcast, or the reply to a request. -/
inductive DetailMsg
  | nexttrack (t : DucTrack)
  | track (t : DucTrack)
  | tracks (album : ℤ)
  | albums (artist : ℤ)
  deriving DecidableEq

/-- `detail_update_idle` up to its first request. It is removed from the queue when it returns. -/
def detailUpdateIdle (d : Details) : Details × Waiting × Option DetailRequest :=
  if d.needupdate = 0 then ({ d with queued := d.queued - 1 }, .mainLoop, none)
  else ({ d with queued := d.queued - 1 }, .curtrack, some .curtrack)

/-- `detail_update_idle` from the current track to the next request. -/
def gotCurtrack (d : Details) (cur : DucTrack) : Details × Waiting × Option DetailRequest :=
  (d, .tracksalbum cur, some (.tracksalbum cur.album.id))

/-- `detail_update_idle` from the tracks of an album to the next request: `curtracks_populate`. -/
def gotTracksalbum (d : Details) (cur : DucTrack) (album : ℤ) :
    Details × Waiting × Option DetailRequest :=
  ({ d with tracksalbum := some album }, .albumsartist cur, some (.albumsartist cur.artist.id))

/-- The end of `detail_update_idle`: `curalbums_populate`, and `needupdate` is reset. -/
def gotAlbumsartist (d : Details) (artist : ℤ) : Details × Waiting × Option DetailRequest :=
  ({ d with albumsartist := some artist, needupdate := 0 }, .mainLoop, none)

/-! ## The client and the server -/

/-- The client, the request the server has not handled yet, the messages on their way to the client in
their order, and the track the server announced last. -/
structure DetailRun where
  win : Details
  waiting : Waiting
  asked : Option DetailRequest
  wire : List DetailMsg
  announced : Option DucTrack
  deriving DecidableEq

/-- Who takes the next step: the server announces a track or handles the request, the client receives
the next message, or the main loop runs a queued callback. -/
inductive DetailAct
  | announce (t : DucTrack)
  | handle
  | receive
  | callback
  deriving DecidableEq

/-- Windows that show nothing. -/
def Details.blank : Details := ⟨0, 0, none, none, none⟩

/-- A client that has connected. `ev_conn` shows the current track, if there is one. -/
def DetailRun.start (cur : Option DucTrack) : DetailRun where
  win := match cur with
    | none => .blank
    | some t => detailUpdate .blank t
  waiting := .mainLoop
  asked := none
  wire := []
  announced := cur

/-- The reply of the server. `curtrack` gets the track announced last. -/
def DetailRun.reply (s : DetailRun) : DetailRequest → Option DetailMsg
  | .curtrack => s.announced.map .track
  | .tracksalbum id => some (.tracks id)
  | .albumsartist id => some (.albums id)

/-- The client goes on, with the messages `ms` still to be received. -/
def DetailRun.goOn (s : DetailRun) (ms : List DetailMsg) (p : Details × Waiting × Option DetailRequest) :
    DetailRun :=
  { s with win := p.1, waiting := p.2.1, asked := p.2.2, wire := ms }

/-- The next message reaches the client. -/
def DetailRun.receive (s : DetailRun) : Option DetailRun :=
  match s.wire, s.waiting with
  | .nexttrack t :: ms, _ => some { s with win := evNexttrack s.win t, wire := ms }
  | .track t :: ms, .curtrack => some (s.goOn ms (gotCurtrack s.win t))
  | .tracks id :: ms, .tracksalbum cur => some (s.goOn ms (gotTracksalbum s.win cur id))
  | .albums id :: ms, .albumsartist _ => some (s.goOn ms (gotAlbumsartist s.win id))
  | _, _ => none

/-- One step. -/
def detailStep (s : DetailRun) : DetailAct → Option DetailRun
  | .announce t => some { s with announced := some t, wire := s.wire ++ [.nexttrack t] }
  | .handle => do
    let m ← s.reply (← s.asked)
    return { s with asked := none, wire := s.wire ++ [m] }
  | .receive => s.receive
  | .callback =>
    if s.waiting = .mainLoop ∧ 0 < s.win.queued then some (s.goOn s.wire (detailUpdateIdle s.win))
    else none

/-! ## What a step does -/

variable {s s' : DetailRun} {a : DetailAct} {t cur : DucTrack}

/-- **A message that is received**: a broadcast, or the reply that the client waits for. -/
theorem receive_cases (h : s.receive = some s') :
    (∃ t ms, s.wire = .nexttrack t :: ms ∧ s' = { s with win := evNexttrack s.win t, wire := ms }) ∨
    (∃ t ms, s.wire = .track t :: ms ∧ s.waiting = .curtrack ∧ s' = s.goOn ms (gotCurtrack s.win t)) ∨
    (∃ id ms cur, s.wire = .tracks id :: ms ∧ s.waiting = .tracksalbum cur ∧
      s' = s.goOn ms (gotTracksalbum s.win cur id)) ∨
    ∃ id ms cur, s.wire = .albums id :: ms ∧ s.waiting = .albumsartist cur ∧
      s' = s.goOn ms (gotAlbumsartist s.win id) := by
  unfold DetailRun.receive at h
  split at h
  · next t ms hw => exact Or.inl ⟨t, ms, hw, (Option.some.inj h).symm⟩
  · next t ms hw hq => exact Or.inr (Or.inl ⟨t, ms, hw, hq, (Option.some.inj h).symm⟩)
  · next id ms cur hw hq => exact Or.inr (Or.inr (Or.inl ⟨id, ms, cur, hw, hq, (Option.some.inj h).symm⟩))
  · next id ms cur hw hq => exact Or.inr (Or.inr (Or.inr ⟨id, ms, cur, hw, hq, (Option.some.inj h).symm⟩))
  · cases h

/-- The track announced last, among the messages and before them. -/
def lastAnnounced : List DetailMsg → Option DucTrack → Option DucTrack
  | [], d => d
  | .nexttrack t :: ms, _ => lastAnnounced ms (some t)
  | _ :: ms, d => lastAnnounced ms d

theorem lastAnnounced_append (ms : List DetailMsg) (m : DetailMsg) (d : Option DucTrack) :
    lastAnnounced (ms ++ [m]) d = lastAnnounced [m] (lastAnnounced ms d) := by
  induction ms generalizing d with
  | nil => rfl
  | cons m' ms ih => cases m' <;> exact ih _

/-- The windows show the album and the artist of the track. -/
def Details.Shows (d : Details) (t : DucTrack) : Prop :=
  d.tracksalbum = some t.album.id ∧ d.albumsartist = some t.artist.id

/-- The requests and replies name what the client waits for. -/
def Waiting.Names (q : Waiting) : DetailRequest → Prop
  | .curtrack => q = .curtrack
  | .tracksalbum id => ∃ cur, q = .tracksalbum cur ∧ id = cur.album.id
  | .albumsartist id => ∃ cur, q = .albumsartist cur ∧ id = cur.artist.id

/-- The request that a reply answers. -/
def DetailMsg.request : DetailMsg → Option DetailRequest
  | .nexttrack _ => none
  | .track _ => some .curtrack
  | .tracks id => some (.tracksalbum id)
  | .albums id => some (.albumsartist id)

/-- The requests that are not answered, or whose reply is on its way. -/
def DetailRun.unanswered (s : DetailRun) : List DetailRequest :=
  s.asked.toList ++ s.wire.filterMap DetailMsg.request

/-- **The invariant.** -/
structure DetailRun.Inv (s : DetailRun) : Prop where
  /-- Messages arrive in order. -/
  fifo : s.announced = lastAnnounced s.wire s.win.playbox
  /-- There is one request at a time, and it is what the client waits for. -/
  names : ∀ q ∈ s.unanswered, s.waiting.Names q
  single : s.unanswered.length ≤ 1
  /-- Where an update is due, a callback is queued. -/
  due : s.waiting = .mainLoop → 0 < s.win.needupdate → 0 < s.win.queued
  /-- Where none is due, the windows show the track in the playbox. -/
  shown : s.waiting = .mainLoop → s.win.needupdate = 0 → ∀ t, s.win.playbox = some t → s.win.Shows t
  /-- The first half of an update is done. -/
  half : ∀ cur, s.waiting = .albumsartist cur → s.win.tracksalbum = some cur.album.id

/-- The callback does not end behind a newer track: when the last reply arrives, the track in the playbox
has the album and the artist of the track the callback works on. -/
def DetailRun.InTime (s : DetailRun) : DetailAct → Prop
  | .receive => ∀ id cur t, s.wire.head? = some (.albums id) → s.waiting = .albumsartist cur →
      s.win.playbox = some t → t.album.id = cur.album.id ∧ t.artist.id = cur.artist.id
  | _ => True

theorem inv_start (cur : Option DucTrack) : (DetailRun.start cur).Inv := by
  cases cur with
  | none => exact ⟨rfl, fun q hq => absurd hq List.not_mem_nil, Nat.zero_le _, fun _ h => absurd h (lt_irrefl 0),
      fun _ _ t h => (by cases h), fun _ h => by cases h⟩
  | some t => exact ⟨rfl, fun q hq => absurd hq List.not_mem_nil, Nat.zero_le _, fun _ _ => Nat.one_pos,
      fun _ h => (by cases h), fun _ h => by cases h⟩

theorem DetailRun.Inv.idle (h : s.Inv) (hq : s.waiting = .mainLoop) : s.unanswered = [] := by
  rcases hu : s.unanswered with _ | ⟨q, qs⟩
  · rfl
  have hn := h.names q (by rw [hu]; exact List.mem_cons_self)
  rw [hq] at hn
  cases q with
  | curtrack => cases hn
  | tracksalbum id =>
    obtain ⟨_, hcur, -⟩ := hn
    cases hcur
  | albumsartist id =>
    obtain ⟨_, hcur, -⟩ := hn
    cases hcur

theorem DetailRun.Inv.reply (h : s.Inv) {m : DetailMsg} {ms : List DetailMsg} {q : DetailRequest}
    (hw : s.wire = m :: ms) (hm : m.request = some q) :
    s.waiting.Names q ∧ s.asked = none ∧ ms.filterMap DetailMsg.request = [] := by
  have hu : s.unanswered = s.asked.toList ++ q :: ms.filterMap DetailMsg.request := by
    rw [DetailRun.unanswered, hw, List.filterMap_cons_some hm]
  have hlen := h.single
  rw [hu, List.length_append, List.length_cons] at hlen
  refine ⟨h.names q (by rw [hu]; simp), ?_, List.eq_nil_of_length_eq_zero (by omega)⟩
  cases hq : s.asked with
  | none => rfl
  | some q' =>
    rw [hq, Option.toList_some, List.length_singleton] at hlen
    omega

theorem unanswered_goOn (s : DetailRun) {ms : List DetailMsg} (hms : ms.filterMap DetailMsg.request = [])
    (p : Details × Waiting × Option DetailRequest) : (s.goOn ms p).unanswered = p.2.2.toList := by
  rw [DetailRun.unanswered, DetailRun.goOn, hms, List.append_nil]

theorem inv_announce (h : s.Inv) (t : DucTrack) :
    DetailRun.Inv { s with announced := some t, wire := s.wire ++ [.nexttrack t] } := by
  have hu : DetailRun.unanswered { s with announced := some t, wire := s.wire ++ [.nexttrack t] } =
      s.unanswered := by
    simp [DetailRun.unanswered, DetailMsg.request]
  refine ⟨?_, hu ▸ h.names, hu ▸ h.single, h.due, h.shown, h.half⟩
  rw [lastAnnounced_append]
  rfl

theorem inv_handle (h : s.Inv) {q : DetailRequest} {m : DetailMsg} (hq : s.asked = some q)
    (hm : s.reply q = some m) : DetailRun.Inv { s with asked := none, wire := s.wire ++ [m] } := by
  have hreq : m.request = some q ∧ ∀ d, lastAnnounced [m] d = d := by
    cases q with
    | curtrack =>
      obtain ⟨t, -, rfl⟩ := Option.map_eq_some_iff.1 hm
      exact ⟨rfl, fun _ => rfl⟩
    | tracksalbum id =>
      obtain rfl := Option.some.inj hm
      exact ⟨rfl, fun _ => rfl⟩
    | albumsartist id =>
      obtain rfl := Option.some.inj hm
      exact ⟨rfl, fun _ => rfl⟩
  have hnil : s.wire.filterMap DetailMsg.request = [] := by
    have hlen := h.single
    rw [DetailRun.unanswered, hq, Option.toList_some, List.length_append, List.length_singleton] at hlen
    exact List.eq_nil_of_length_eq_zero (by omega)
  have hu : DetailRun.unanswered { s with asked := none, wire := s.wire ++ [m] } = s.unanswered := by
    simp [DetailRun.unanswered, hq, hnil, hreq.1]
  refine ⟨?_, hu ▸ h.names, hu ▸ h.single, h.due, h.shown, h.half⟩
  rw [lastAnnounced_append, hreq.2]
  exact h.fifo

theorem inv_receive (h : s.Inv) (ht : s.InTime .receive) (hr : s.receive = some s') : s'.Inv := by
  have hfifo := h.fifo
  rcases receive_cases hr with ⟨t, ms, hw, rfl⟩ | ⟨t, ms, hw, hq, rfl⟩ | ⟨id, ms, cur, hw, hq, rfl⟩ |
    ⟨id, ms, cur, hw, hq, rfl⟩ <;> rw [hw] at hfifo
  · -- a broadcast
    have hu : DetailRun.unanswered { s with win := evNexttrack s.win t, wire := ms } = s.unanswered := by
      simp [DetailRun.unanswered, hw, List.filterMap_cons, DetailMsg.request]
    exact ⟨hfifo, hu ▸ h.names, hu ▸ h.single, fun _ _ => Nat.succ_pos _, fun _ h0 => (by cases h0), h.half⟩
  · obtain ⟨-, -, hms⟩ := h.reply hw rfl
    have hu := unanswered_goOn s hms (gotCurtrack s.win t)
    refine ⟨hfifo, fun q hq => ?_, by rw [hu]; exact le_rfl, fun h0 => (by cases h0), fun h0 => (by cases h0),
      fun _ h0 => by cases h0⟩
    rw [hu] at hq
    obtain rfl := List.mem_singleton.1 hq
    exact ⟨t, rfl, rfl⟩
  · obtain ⟨hname, -, hms⟩ := h.reply hw rfl
    have hu := unanswered_goOn s hms (gotTracksalbum s.win cur id)
    refine ⟨hfifo, fun q hq => ?_, by rw [hu]; exact le_rfl, fun h0 => (by cases h0), fun h0 => (by cases h0),
      fun cur' h0 => ?_⟩
    · rw [hu] at hq
      obtain rfl := List.mem_singleton.1 hq
      exact ⟨cur, rfl, rfl⟩
    · obtain rfl := Waiting.albumsartist.inj h0
      obtain ⟨cur', hcur, rfl⟩ := hname
      rw [hq] at hcur
      obtain rfl := Waiting.tracksalbum.inj hcur
      rfl
  · -- the end of the callback
    obtain ⟨hname, -, hms⟩ := h.reply hw rfl
    have hu := unanswered_goOn s hms (gotAlbumsartist s.win id)
    refine ⟨hfifo, fun q hq => ?_, by rw [hu]; exact Nat.zero_le _, fun _ h0 => absurd h0 (lt_irrefl 0),
      fun _ _ t hp => ?_, fun _ h0 => by cases h0⟩
    · rw [hu] at hq
      exact absurd hq List.not_mem_nil
    · obtain ⟨halbum, hartist⟩ := ht id cur t (by rw [hw]; rfl) hq hp
      obtain ⟨cur', hcur, rfl⟩ := hname
      rw [hq] at hcur
      obtain rfl := Waiting.albumsartist.inj hcur
      exact ⟨(h.half cur hq).trans (by rw [halbum]), by rw [hartist]; rfl⟩

theorem inv_callback (h : s.Inv) (hq : s.waiting = .mainLoop) :
    (s.goOn s.wire (detailUpdateIdle s.win)).Inv := by
  have hnil := h.idle hq
  rw [DetailRun.unanswered, List.append_eq_nil_iff] at hnil
  have hu := unanswered_goOn s hnil.2 (detailUpdateIdle s.win)
  have hfifo := h.fifo
  by_cases h0 : s.win.needupdate = 0
  · have hidle : detailUpdateIdle s.win = ({ s.win with queued := s.win.queued - 1 }, .mainLoop, none) :=
      if_pos h0
    rw [hidle] at hu ⊢
    refine ⟨hfifo, fun q hq => ?_, by rw [hu]; exact Nat.zero_le _, fun _ hpos => ?_,
      fun _ _ => h.shown hq h0, fun _ h1 => by cases h1⟩
    · rw [hu] at hq
      exact absurd hq List.not_mem_nil
    · exact absurd h0 (Nat.pos_iff_ne_zero.1 hpos)
  · have hidle : detailUpdateIdle s.win =
        ({ s.win with queued := s.win.queued - 1 }, .curtrack, some .curtrack) := if_neg h0
    rw [hidle] at hu ⊢
    refine ⟨hfifo, fun q hq => ?_, by rw [hu]; exact le_rfl, fun h1 => (by cases h1), fun h1 => (by cases h1),
      fun _ h1 => by cases h1⟩
    rw [hu] at hq
    obtain rfl := List.mem_singleton.1 hq
    rfl

/-- **A step keeps the invariant** when no callback ends behind a newer track. -/
theorem detailStep_inv (h : s.Inv) (ht : s.InTime a) (hs : detailStep s a = some s') : s'.Inv := by
  cases a with
  | announce t => exact Option.some.inj hs ▸ inv_announce h t
  | handle =>
    simp only [detailStep, Option.bind_eq_bind, Option.bind_eq_some_iff, Option.pure_def] at hs
    obtain ⟨q, hq, m, hm, hs⟩ := hs
    exact Option.some.inj hs ▸ inv_handle h hq hm
  | receive => exact inv_receive h ht hs
  | callback =>
    rw [detailStep] at hs
    split_ifs at hs with hc
    exact Option.some.inj hs ▸ inv_callback h hc.1

/-! ## Runs -/

/-- All queued callbacks have run. -/
def DetailRun.Settled (s : DetailRun) : Prop := s.waiting = .mainLoop ∧ s.win.queued = 0

/-- The windows show the track of the last broadcast, and that is the track the server announced last
unless a broadcast is still on its way. -/
structure DetailRun.CaughtUp (s : DetailRun) : Prop where
  shows : ∀ t, s.win.playbox = some t → s.win.Shows t
  latest : s.wire = [] → s.announced = s.win.playbox

theorem DetailRun.Inv.caughtUp (h : s.Inv) (hs : s.Settled) : s.CaughtUp := by
  refine ⟨h.shown hs.1 ?_, fun hw => ?_⟩
  · by_contra hne
    have := h.due hs.1 (Nat.pos_of_ne_zero hne)
    rw [hs.2] at this
    exact lt_irrefl 0 this
  · rw [h.fifo, hw]
    rfl

theorem callbacks_idle (hq : s.waiting = .mainLoop) (h0 : s.win.needupdate = 0) :
    ∃ s', runs detailStep s (List.replicate s.win.queued .callback) = some s' ∧ s'.Settled ∧
      s'.win.playbox = s.win.playbox ∧ ∀ t, s'.win.Shows t ↔ s.win.Shows t := by
  induction hn : s.win.queued generalizing s with
  | zero => exact ⟨s, rfl, ⟨hq, hn⟩, rfl, fun _ => Iff.rfl⟩
  | succ n ih =>
    have hidle : detailUpdateIdle s.win = ({ s.win with queued := s.win.queued - 1 }, .mainLoop, none) :=
      if_pos h0
    have hstep : detailStep s .callback = some (s.goOn s.wire (detailUpdateIdle s.win)) :=
      if_pos ⟨hq, by omega⟩
    rw [hidle] at hstep
    have hn' : s.win.queued - 1 = n := by omega
    obtain ⟨s', hs', hset, hp, hshow⟩ := ih
      (s := s.goOn s.wire ({ s.win with queued := s.win.queued - 1 }, .mainLoop, none)) rfl h0 hn'
    refine ⟨s', ?_, hset, hp, hshow⟩
    rw [List.replicate_succ, runs_cons, hstep]
    exact hs'

theorem update_lost (h : s.Inv) (hno : ¬ s.InTime .receive) : ∃ s₁ s₂, detailStep s .receive = some s₁ ∧
    runs detailStep s₁ (List.replicate s₁.win.queued .callback) = some s₂ ∧ s₂.Settled ∧
      ¬ s₂.CaughtUp := by
  simp only [DetailRun.InTime, not_forall] at hno
  obtain ⟨id, cur, t, hw, hq, hp, hne⟩ := hno
  obtain ⟨ms, hw⟩ : ∃ ms, s.wire = .albums id :: ms := by
    cases hws : s.wire with
    | nil => rw [hws] at hw; cases hw
    | cons m ms => rw [hws] at hw; exact ⟨ms, by rw [Option.some.inj hw]⟩
  have hstep : detailStep s .receive = some (s.goOn ms (gotAlbumsartist s.win id)) := by
    simp only [detailStep, DetailRun.receive, hw, hq]
  obtain ⟨s₂, hs₂, hset, hp₂, hshow⟩ :=
    callbacks_idle (s := s.goOn ms (gotAlbumsartist s.win id)) rfl rfl
  refine ⟨_, s₂, hstep, hs₂, hset, fun hc => hne ?_⟩
  obtain ⟨⟨_, hcur, rfl⟩, -, -⟩ := h.reply hw rfl
  rw [hq] at hcur
  obtain rfl := Waiting.albumsartist.inj hcur
  obtain ⟨halbum, hartist⟩ := (hshow t).1 (hc.shows t (hp₂.trans hp))
  exact ⟨Option.some.inj (halbum.symm.trans (h.half cur hq)), Option.some.inj hartist.symm⟩

/-- At every moment of the run: once the queued callbacks have run, without further messages, the windows
are up to date. -/
def CatchesUp (s : DetailRun) (acts : List DetailAct) : Prop :=
  ∀ js, js <+: acts → ∀ s₁, runs detailStep s js = some s₁ → ∀ n s₂,
    runs detailStep s₁ (List.replicate n .callback) = some s₂ → s₂.Settled → s₂.CaughtUp

theorem catchesUp_of_inTime {acts : List DetailAct} (h : s.Inv)
    (ht : Along detailStep DetailRun.InTime s acts) : CatchesUp s acts := by
  rintro js ⟨ks, rfl⟩ s₁ hs₁ n s₂ hs₂ hset
  have h₁ : s₁.Inv := Along.runs_keep (fun _ _ _ hu hi hstep => detailStep_inv hu hi hstep) h ht.initial hs₁
  refine DetailRun.Inv.caughtUp ?_ hset
  clear hs₁
  induction n generalizing s₁ with
  | zero => exact Option.some.inj hs₂ ▸ h₁
  | succ n ih =>
    rw [List.replicate_succ, runs_cons, Option.bind_eq_some_iff] at hs₂
    obtain ⟨u, hu, hs₂⟩ := hs₂
    exact ih u hs₂ (detailStep_inv h₁ (show s₁.InTime .callback from trivial) hu)

theorem inTime_of_catchesUp {acts : List DetailAct} (h : s.Inv) (hc : CatchesUp s acts) :
    Along detailStep DetailRun.InTime s acts := by
  induction acts generalizing s with
  | nil => trivial
  | cons a acts ih =>
    have ha : s.InTime a := by
      cases a with
      | receive =>
        by_contra hno
        obtain ⟨s₁, s₂, hstep, hs₂, hset, hnot⟩ := update_lost h hno
        refine hnot (hc [.receive] ⟨acts, rfl⟩ s₁ ?_ _ s₂ hs₂ hset)
        rw [runs_cons, hstep]
        rfl
      | announce t => trivial
      | handle => trivial
      | callback => trivial
    refine ⟨ha, fun s' hs' => ih (detailStep_inv h ha hs') ?_⟩
    intro js hjs s₁ hs₁
    refine hc (a :: js) (List.cons_prefix_cons.2 ⟨rfl, hjs⟩) s₁ ?_
    rw [runs_cons, hs']
    exact hs₁

/-- **The windows catch up with the last announced track**, at every moment of a run, just when no
callback of the run ends behind a newer track: one of another album or artist, announced while the
callback waits for the tracks of the album or the albums of the artist. -/
theorem details_catch_up_iff (cur : Option DucTrack) (acts : List DetailAct) :
    CatchesUp (.start cur) acts ↔ Along detailStep DetailRun.InTime (.start cur) acts :=
  ⟨inTime_of_catchesUp (inv_start cur), catchesUp_of_inTime (inv_start cur)⟩

/-- The only track of an album of its own. -/
def soleTrack (id : ℤ) : DucTrack := ⟨id, ⟨id, [], ⟨id, []⟩, 0⟩, 1, [], ⟨id, []⟩, 60⟩

/-- The second track is announced while the client waits for the albums of the first one's artist. -/
def lateTrack : List DetailAct :=
  [.announce (soleTrack 1), .receive, .callback, .handle, .receive, .handle, .receive, .announce (soleTrack 2),
    .handle, .receive, .receive, .callback]

/-- **The update of the detail windows is lost.** All callbacks have run, nothing is on its way, and the
windows show the album and the artist of the first track. -/
theorem details_left_behind : ∃ s, runs detailStep (.start none) lateTrack = some s ∧ s.Settled ∧
    s.wire = [] ∧ s.announced = some (soleTrack 2) ∧ s.win.playbox = some (soleTrack 2) ∧
    s.win.Shows (soleTrack 1) ∧ ¬ s.CaughtUp ∧ ¬ CatchesUp (.start none) lateTrack := by
  obtain ⟨s, hs⟩ : ∃ s, runs detailStep (.start none) lateTrack = some s :=
    Option.isSome_iff_exists.1 (by decide)
  have hend : (runs detailStep (.start none) lateTrack).map (fun s =>
      (s.waiting, s.win, s.wire, s.announced)) =
      some (.mainLoop, ⟨0, 0, some (soleTrack 2), some 1, some 1⟩, [], some (soleTrack 2)) := by decide
  rw [hs, Option.map_some, Option.some.injEq, Prod.mk.injEq, Prod.mk.injEq, Prod.mk.injEq] at hend
  obtain ⟨hq, hwin, hw, ha⟩ := hend
  have hset : s.Settled := ⟨hq, by rw [hwin]⟩
  have hnot : ¬ s.CaughtUp := by
    intro hc
    obtain ⟨halbum, -⟩ := hc.shows (soleTrack 2) (by rw [hwin])
    rw [hwin] at halbum
    exact absurd (Option.some.inj halbum) (by decide)
  exact ⟨s, hs, hset, hw, ha, by rw [hwin], by rw [hwin]; exact ⟨rfl, rfl⟩, hnot,
    fun hc => hnot (hc lateTrack (List.prefix_refl _) s hs 0 s rfl hset)⟩

end Dudlc
