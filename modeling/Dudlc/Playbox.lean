import Dudlc.Durations
import Dudlc.Events
import Dudlc.QueueWindow

/-!
# The player of the GTK client

The handlers of the GTK client change its widgets, and may thereby call the library, which calls them again.

* `Playbox`, `playboxDetailUpdate`, `playboxDetailClear`, `playboxProgressUpdate`: the widgets of the player.
* `Raised`, `handle`: the events that a call raises, with those that the calls of their handlers raise.
* `Seen`, `Player`: the same events one after the other, and what they say about the player.
* **`player_window`**: nesting makes no difference to the player, and to the queue only where a lost connection is
  made again from its handler.
* `Enters`, `Comes`: the events that the client comes to while it handles an input.
* **`lost_connection`**: a lost connection is made again when the progress bar has moved.
-/

namespace Dudlc

open Lib

/-! ## The widgets -/

/-- What is used of GTK: `gtk_range_set_value`, for a range from 0 to a bound, its value and a new value. It gives the
value that is set, and whether "value-changed" is emitted. -/
structure Toolkit where
  setValue : ℤ → ℤ → ℤ → ℤ × Bool

/-- `CLAMP` -/
def clamp (x low high : ℤ) : ℤ := if high < x then high else if x < low then low else x

/-- A value is clamped to the range, and the signal is emitted when the value changes. -/
structure Toolkit.Documented (k : Toolkit) : Prop where
  value : ∀ upper old v, (k.setValue upper old v).1 = clamp v 0 upper
  emits : ∀ upper old v, (k.setValue upper old v).2 = true ↔ clamp v 0 upper ≠ old

/-- Whether the progress bar and the buttons are sensitive. -/
structure Buttons where
  prog : Bool
  prev : Bool
  stop : Bool
  play : Bool
  pause : Bool
  next : Bool
  deriving DecidableEq

/-- The widgets of `playbox.c`: the buttons, the texts, the value and the bound of the progress bar; and
`progress_seekable` and `duration`. -/
structure Playbox where
  buttons : Buttons
  title : List UInt8
  album : List UInt8
  dur : List UInt8
  value : ℤ
  upper : ℤ
  seekable : Bool
  duration : ℤ
  deriving DecidableEq

/-- `playbox_new` -/
def playboxNew : Playbox := ⟨⟨true, true, true, true, true, true⟩, [], [], [], 0, 1, true, 0⟩

/-- The buttons for a status: `pl_stop`, `pl_play`, `pl_pause` and `pl_offline`. -/
def buttonsFor (stat : ℤ) : Option Buttons :=
  match stat with
  | 0 => some { prog := false, prev := true, stop := false, play := true, pause := false, next := true }
  | 1 => some { prog := true, prev := true, stop := true, play := false, pause := true, next := true }
  | 2 => some { prog := true, prev := true, stop := true, play := true, pause := false, next := true }
  | 3 => some { prog := false, prev := true, stop := true, play := true, pause := true, next := true }
  | _ => none

/-- `playbox_buttons_enable` -/
def playboxButtonsEnable (stat : ℤ) (b : Playbox) : Playbox :=
  { b with buttons := (buttonsFor stat).getD b.buttons }

section Widgets

variable (k : Toolkit) (gLocaleToUtf8 : List UInt8 → Option (List UInt8))

/-- `ctl_prog__changed`: the position to jump to. -/
def ctlProgChanged (b : Playbox) : Option ℤ := if b.seekable then some b.value else none

/-- `gtk_range_set_value`, with the jump of its handler. -/
def rangeSetValue (v : ℤ) (b : Playbox) : Playbox × Option ℤ :=
  let (value, emits) := k.setValue b.upper b.value v
  let b := { b with value }
  (b, if emits then ctlProgChanged b else none)

/-- `playbox_detail_update`. It does not check the texts for NULL. A new adjustment emits no "value-changed". -/
def playboxDetailUpdate (t : DucTrack) (b : Playbox) : Option Playbox := do
  let title ← gLocaleToUtf8 (t.artist.artist ++ (Cstr.lit ": ").bytes ++ t.title)
  let album ← gLocaleToUtf8 t.album.album
  let dur ← timeFmt t.duration
  return { b with title, album, duration := t.duration, value := 0, upper := t.duration, dur }

/-- `playbox_detail_clear` -/
def playboxDetailClear (b : Playbox) : Playbox × Option ℤ :=
  rangeSetValue k 0 { b with title := [], album := [], dur := [] }

/-- `playbox_progress_update` -/
def playboxProgressUpdate (r : ℤ) (b : Playbox) : Playbox × Option ℤ :=
  let v := if b.duration = 0 then 0 else if b.duration < r then b.duration else r
  let (b, jump) := rangeSetValue k v { b with seekable := false }
  ({ b with seekable := true }, jump)

/-- What the handler of an event does to the player, with its jump. -/
def noticeBox (n : Notice) (b : Playbox) : Option (Playbox × Option ℤ) :=
  match n with
  | .nexttrack t => (playboxDetailUpdate gLocaleToUtf8 t (playboxButtonsEnable 1 b)).map fun b => (b, none)
  | .stopped => some (playboxDetailClear k (playboxButtonsEnable 0 b))
  | .paused => some (playboxButtonsEnable 2 b, none)
  | .resumed => some (playboxButtonsEnable 1 b, none)
  | .elapsed r => some (playboxProgressUpdate k r b)
  | _ => some (b, none)

/-- What it does to the queue window. -/
def noticeQueue (n : Notice) (store : List QueueRow) : List QueueRow :=
  match n with
  | .queuefetch q => evQueuefetch store q
  | .queueadd q => evQueueadd gLocaleToUtf8 store q
  | .queuedel q => evQueuedel store q
  | .queueclear => evQueueclear store
  | _ => store

end Widgets

/-! ## Callbacks -/

/-- The events that a call of the library raises, one after the other. With `connect` come the replies to the requests
of `ev_conn` and what these raise, and with another event what the jump of its handler raises. -/
inductive Raised
  | done
  | connect (stat : ℤ) (es₁ : Raised) (cur : Option DucTrack) (es₂ : Raised) (queue : Option (List DucQueue))
      (es₃ : Raised) (more : Raised)
  | disconnect (es : Raised) (more : Raised)
  | notice (n : Notice) (es : Raised) (more : Raised)

/-- No events. -/
def Raised.isDone : Raised → Bool
  | .done => true
  | _ => false

/-- A handler that does not jump raises nothing. -/
def fits {α : Type} (jump : Option ℤ) (es : Raised) (s : Option α) : Option α :=
  if jump.isSome || es.isDone then s else none

/-- The windows, whether the session is up, and the jumps that have been asked for. -/
structure Gui where
  box : Playbox
  queue : List QueueRow
  up : Bool
  jumps : List ℤ
  deriving DecidableEq

section Handle

variable (k : Toolkit) (gLocaleToUtf8 : List UInt8 → Option (List UInt8))

/-- The track in `ev_conn`. -/
def gotTrack (cur : Option DucTrack) (b : Playbox) : Option Playbox :=
  match cur with
  | none => some b
  | some t => playboxDetailUpdate gLocaleToUtf8 t b

/-- The queue in `ev_conn`. -/
def gotQueue (queue : Option (List DucQueue)) (store : List QueueRow) : List QueueRow :=
  match queue with
  | none => store
  | some q => queueListPopulate gLocaleToUtf8 store q

/-- The handlers of `main.c`. There is no result when the events do not fit the calls that are made. -/
def handle : Gui → Raised → Option Gui
  | s, .done => some s
  | s, .connect stat es₁ cur es₂ queue es₃ more => do
    let s ← handle { s with up := true } es₁
    let s ← handle { s with box := playboxButtonsEnable stat s.box } es₂
    let box ← gotTrack gLocaleToUtf8 cur s.box
    let s ← handle { s with box } es₃
    handle { s with queue := gotQueue gLocaleToUtf8 queue s.queue } more
  | s, .disconnect es more => do
    let (box, jump) := playboxDetailClear k (playboxButtonsEnable 3 s.box)
    let s := { s with box, up := false, jumps := s.jumps ++ jump.toList }
    let s ← fits jump es (handle s es)
    -- `queuewin_clear` comes last
    handle { s with queue := [] } more
  | s, .notice n es more => do
    let (box, jump) ← noticeBox k gLocaleToUtf8 n s.box
    let s := { s with box, queue := noticeQueue gLocaleToUtf8 n s.queue, jumps := s.jumps ++ jump.toList }
    let s ← fits jump es (handle s es)
    handle s more

/-- What comes from the main loop: a call of the library, or the user moves the progress bar. -/
inductive Input
  | call (es : Raised)
  | seek (v : ℤ) (es : Raised)

/-- The client takes an input. -/
def guiStep (s : Gui) : Input → Option Gui
  | .call es => handle k gLocaleToUtf8 s es
  | .seek v es =>
    if s.box.buttons.prog then do
      let (box, jump) := rangeSetValue k v s.box
      let s := { s with box, jumps := s.jumps ++ jump.toList }
      fits jump es (handle k gLocaleToUtf8 s es)
    else none

/-! ## One event after the other -/

/-- What the client learns, in the order in which it does. -/
inductive Seen
  | up
  | status (stat : ℤ)
  | curtrack (cur : Option DucTrack)
  | queuelist (queue : Option (List DucQueue))
  | down
  | notice (n : Notice)
  | seek (v : ℤ)

/-- The events of a call, with those that are nested, in order. -/
def Raised.seen : Raised → List Seen
  | .done => []
  | .connect stat es₁ cur es₂ queue es₃ more =>
    .up :: es₁.seen ++ .status stat :: es₂.seen ++ .curtrack cur :: es₃.seen ++ .queuelist queue :: more.seen
  | .disconnect es more => .down :: es.seen ++ more.seen
  | .notice n es more => .notice n :: es.seen ++ more.seen

/-- The events of an input. -/
def Input.seen : Input → List Seen
  | .call es => es.seen
  | .seek v es => .seek v :: es.seen

/-- What is done with an event when the calls of its handler are left out. -/
def see (s : Gui) : Seen → Option Gui
  | .up => some { s with up := true }
  | .status stat => some { s with box := playboxButtonsEnable stat s.box }
  | .curtrack cur => (gotTrack gLocaleToUtf8 cur s.box).map fun box => { s with box }
  | .queuelist queue => some { s with queue := gotQueue gLocaleToUtf8 queue s.queue }
  | .down =>
    let (box, jump) := playboxDetailClear k (playboxButtonsEnable 3 s.box)
    some { box, queue := [], up := false, jumps := s.jumps ++ jump.toList }
  | .notice n => (noticeBox k gLocaleToUtf8 n s.box).map fun p =>
    { s with box := p.1, queue := noticeQueue gLocaleToUtf8 n s.queue, jumps := s.jumps ++ p.2.toList }
  | .seek v =>
    let (box, jump) := rangeSetValue k v s.box
    some { s with box, jumps := s.jumps ++ jump.toList }

end Handle

/-! ## Nested calls -/

section Nested

variable {k : Toolkit} {gLocaleToUtf8 : List UInt8 → Option (List UInt8)} {s s' : Gui} {es : Raised} {x : Seen}
  {l : List Seen} {n : Notice} {q : List QueueRow} {jump : Option ℤ}

/-- The rows of the queue come from somewhere. -/
def Seen.Fills : Seen → Prop
  | .queuelist (some _) => True
  | .notice (.queueadd _) => True
  | _ => False

/-- No rows come while a lost connection is handled. -/
def Raised.Calm : Raised → Prop
  | .done => True
  | .connect _ es₁ _ es₂ _ es₃ more => es₁.Calm ∧ es₂.Calm ∧ es₃.Calm ∧ more.Calm
  | .disconnect es more => (∀ x ∈ es.seen, ¬ x.Fills) ∧ more.Calm
  | .notice _ es more => es.Calm ∧ more.Calm

theorem see_unfilled (h : see k gLocaleToUtf8 s x = some s') (hx : ¬ x.Fills) (hq : s.queue = []) : s'.queue = [] := by
  cases x with
  | queuelist queue =>
    obtain rfl := Option.some.inj h
    cases queue with
    | none => exact hq
    | some q => exact absurd trivial hx
  | curtrack cur =>
    obtain ⟨box, -, rfl⟩ := Option.map_eq_some_iff.1 h
    exact hq
  | notice n =>
    obtain ⟨p, -, rfl⟩ := Option.map_eq_some_iff.1 h
    cases n with
    | queueadd q => exact absurd trivial hx
    | queuefetch q | queuedel q => simp [noticeQueue, evQueuefetch, evQueuedel, queueListStoreDel, hq]
    | _ => first | exact hq | rfl
  | _ =>
    obtain rfl := Option.some.inj h
    first | exact hq | rfl

theorem runs_unfilled (h : runs (see k gLocaleToUtf8) s l = some s') (hl : ∀ x ∈ l, ¬ x.Fills) (hq : s.queue = []) :
    s'.queue = [] := by
  induction l generalizing s with
  | nil => exact Option.some.inj h ▸ hq
  | cons x l ih =>
    obtain ⟨hx, hl⟩ := List.forall_mem_cons.1 hl
    rw [runs_cons, Option.bind_eq_some_iff] at h
    obtain ⟨u, hu, h⟩ := h
    exact ih h hl (see_unfilled hu hx hq)

theorem fits_eq {α : Type} {o : Option α} {a : α} (h : fits jump es o = some a) : o = some a := by
  rw [fits] at h
  split_ifs at h
  exact h

theorem isDone_of_fits {α : Type} {o : Option α} {a : α} (h : fits none es o = some a) : es = .done := by
  cases es with
  | done => rfl
  | _ => cases h

/-- The client with other rows. -/
def Gui.rows (s : Gui) (q : List QueueRow) : Gui := { s with queue := q }

/-- One event after the other comes to the same, but for the rows. -/
structure Unfolds (k : Toolkit) (gLocaleToUtf8 : List UInt8 → Option (List UInt8)) (s : Gui) (l : List Seen)
    (calm : Prop) (s' : Gui) : Prop where
  rows : ∀ q, ∃ q', runs (see k gLocaleToUtf8) (s.rows q) l = some (s'.rows q') ∧
    (calm → q = s.queue → q' = s'.queue)

variable {calm calm' : Prop} {l' : List Seen} {u : Gui}

theorem unfolds_one (hx : ∀ q, ∃ q', see k gLocaleToUtf8 (s.rows q) x = some (s'.rows q') ∧
    (q = s.queue → q' = s'.queue)) : Unfolds k gLocaleToUtf8 s [x] True s' := by
  refine ⟨fun q => ?_⟩
  obtain ⟨q', hsee, hq⟩ := hx q
  exact ⟨q', by rw [runs_cons, hsee]; rfl, fun _ => hq⟩

theorem Unfolds.append (h : Unfolds k gLocaleToUtf8 s l calm u) (h' : Unfolds k gLocaleToUtf8 u l' calm' s') :
    Unfolds k gLocaleToUtf8 s (l ++ l') (calm ∧ calm') s' := by
  refine ⟨fun q => ?_⟩
  obtain ⟨q₁, hrun, hq₁⟩ := h.rows q
  obtain ⟨q', hrun', hq'⟩ := h'.rows q₁
  refine ⟨q', by rw [runs_append, hrun, Option.bind_some, hrun'], fun hc hq => ?_⟩
  exact hq' hc.2 (hq₁ hc.1 hq)

/-- **Nested calls** can be taken one after the other. -/
theorem handle_unfolds (h : handle k gLocaleToUtf8 s es = some s') :
    Unfolds k gLocaleToUtf8 s es.seen es.Calm s' := by
  induction es generalizing s s' with
  | done =>
    obtain rfl := Option.some.inj h
    exact ⟨fun q => ⟨q, rfl, fun _ => id⟩⟩
  | connect stat es₁ cur es₂ queue es₃ more ih₁ ih₂ ih₃ ih =>
    simp only [handle, Option.bind_eq_bind, Option.bind_eq_some_iff] at h
    obtain ⟨u₁, h₁, u₂, h₂, box, hbox, u₃, h₃, h⟩ := h
    have hup : Unfolds k gLocaleToUtf8 s [.up] True { s with up := true } :=
      unfolds_one fun q => ⟨q, rfl, id⟩
    have hstatus : Unfolds k gLocaleToUtf8 u₁ [.status stat] True { u₁ with box := playboxButtonsEnable stat u₁.box } :=
      unfolds_one fun q => ⟨q, rfl, id⟩
    have hcur : Unfolds k gLocaleToUtf8 u₂ [.curtrack cur] True { u₂ with box } := by
      refine unfolds_one fun q => ⟨q, ?_, id⟩
      exact (congrArg (Option.map fun box => { u₂.rows q with box }) hbox).trans rfl
    have hqueue : Unfolds k gLocaleToUtf8 u₃ [.queuelist queue] True
        { u₃ with queue := gotQueue gLocaleToUtf8 queue u₃.queue } :=
      unfolds_one fun q => ⟨_, rfl, fun hq => by rw [Gui.rows, hq]⟩
    obtain ⟨hall⟩ := ((((((hup.append (ih₁ h₁)).append hstatus).append (ih₂ h₂)).append hcur).append (ih₃ h₃)).append
      hqueue).append (ih h)
    refine ⟨fun q => ?_⟩
    obtain ⟨q', hrun, hq⟩ := hall q
    refine ⟨q', by simpa [Raised.seen] using hrun, fun hc => hq ?_⟩
    exact ⟨⟨⟨⟨⟨⟨⟨trivial, hc.1⟩, trivial⟩, hc.2.1⟩, trivial⟩, hc.2.2.1⟩, trivial⟩, hc.2.2.2⟩
  | disconnect es more ih₁ ih =>
    simp only [handle, Option.bind_eq_bind, Option.bind_eq_some_iff] at h
    obtain ⟨u₁, h₁, h⟩ := h
    obtain ⟨hes⟩ := ih₁ (fits_eq h₁)
    obtain ⟨hmore⟩ := ih h
    refine ⟨fun q => ?_⟩
    obtain ⟨q₁, hrun₁, -⟩ := hes []
    obtain ⟨q', hrun, hq'⟩ := hmore q₁
    refine ⟨q', ?_, fun hc _ => hq' hc.2 (runs_unfilled hrun₁ hc.1 rfl)⟩
    rw [Raised.seen, List.cons_append, runs_cons]
    exact (runs_append ..).trans ((congrArg (fun o => Option.bind o _) hrun₁).trans hrun)
  | notice n es more ih₁ ih =>
    simp only [handle, Option.bind_eq_bind, Option.bind_eq_some_iff] at h
    obtain ⟨⟨box, jump⟩, hbox, u₁, h₁, h⟩ := h
    have hnotice : Unfolds k gLocaleToUtf8 s [.notice n] True
        { s with box, queue := noticeQueue gLocaleToUtf8 n s.queue, jumps := s.jumps ++ jump.toList } := by
      refine unfolds_one fun q => ⟨noticeQueue gLocaleToUtf8 n q, ?_, fun hq => by rw [hq]⟩
      exact (congrArg (Option.map _) hbox).trans rfl
    obtain ⟨hall⟩ := (hnotice.append (ih₁ (fits_eq h₁))).append (ih h)
    refine ⟨fun q => ?_⟩
    obtain ⟨q', hrun, hq⟩ := hall q
    exact ⟨q', by simpa [Raised.seen] using hrun, fun hc => hq ⟨⟨trivial, hc.1⟩, hc.2⟩⟩

end Nested

/-! ## The player -/

/-- What the client has been told: the status of the player, the track, the track that it has been told last, the
position, and the jumps that are to be made. -/
structure Player where
  status : Option ℤ
  track : Option DucTrack
  last : Option DucTrack
  pos : ℤ
  jumps : List ℤ

/-- Nothing is known. -/
def Player.start : Player := ⟨none, none, none, 0, []⟩

/-- The duration that the progress bar goes by. -/
def Player.length (p : Player) : ℤ := p.last.elim 0 DucTrack.duration

/-- The bound of the progress bar. -/
def Player.room (p : Player) : ℤ := p.last.elim 1 DucTrack.duration

/-- The bar is moved, which makes the player jump. -/
def Player.move (v : ℤ) (p : Player) : Player :=
  if clamp v 0 p.room = p.pos then p
  else { p with pos := clamp v 0 p.room, jumps := p.jumps ++ [clamp v 0 p.room] }

/-- A track is played. -/
def Player.plays (t : DucTrack) (p : Player) : Player := { p with track := some t, last := some t, pos := 0 }

/-- What an event says. -/
def Player.sees (p : Player) : Seen → Player
  | .status stat => if 0 ≤ stat ∧ stat ≤ 3 then { p with status := some stat } else p
  | .curtrack (some t) => p.plays t
  | .down => { p with status := some 3, track := none }.move 0
  | .notice (.nexttrack t) => { p with status := some 1 }.plays t
  | .notice .stopped => { p with status := some 0, track := none }.move 0
  | .notice .paused => { p with status := some 2 }
  | .notice .resumed => { p with status := some 1 }
  | .notice (.elapsed r) => { p with pos := max 0 (min r p.length) }
  | .seek v => p.move v
  | _ => p

section Shows

variable {k : Toolkit} {gLocaleToUtf8 : List UInt8 → Option (List UInt8)} {s s' : Gui} {b b' : Playbox} {p : Player}
  {x : Seen} {stat v r : ℤ} {jump : Option ℤ} {t : DucTrack} {js : List ℤ}

/-- The texts of a track. -/
def TextsOf (gLocaleToUtf8 : List UInt8 → Option (List UInt8)) (b : Playbox) : Option DucTrack → Prop
  | none => b.title = [] ∧ b.album = [] ∧ b.dur = []
  | some t => gLocaleToUtf8 (t.artist.artist ++ (Cstr.lit ": ").bytes ++ t.title) = some b.title ∧
      gLocaleToUtf8 t.album.album = some b.album ∧ timeFmt t.duration = some b.dur

/-- The widgets show the player, and `js` are its jumps. The buttons are those of the status, and the progress bar is
at the position. -/
structure Shows (gLocaleToUtf8 : List UInt8 → Option (List UInt8)) (b : Playbox) (js : List ℤ) (p : Player) : Prop where
  buttons : ∀ stat, p.status = some stat → buttonsFor stat = some b.buttons
  texts : TextsOf gLocaleToUtf8 b p.track
  value : b.value = p.pos
  upper : b.upper = p.room
  duration : b.duration = p.length
  seekable : b.seekable = true
  jumps : js = p.jumps

theorem buttonsFor_isSome : (buttonsFor stat).isSome = true ↔ 0 ≤ stat ∧ stat ≤ 3 := by
  unfold buttonsFor
  split
  · decide
  · decide
  · decide
  · decide
  · next h₀ h₁ h₂ h₃ =>
    refine iff_of_false Bool.false_ne_true fun hstat => ?_
    have h₀ : stat ≠ 0 := h₀
    have h₁ : stat ≠ 1 := h₁
    have h₂ : stat ≠ 2 := h₂
    have h₃ : stat ≠ 3 := h₃
    omega

theorem Shows.enable (h : Shows gLocaleToUtf8 b js p) (stat : ℤ) : Shows gLocaleToUtf8 (playboxButtonsEnable stat b) js
    (if 0 ≤ stat ∧ stat ≤ 3 then { p with status := some stat } else p) := by
  split_ifs with hstat
  · obtain ⟨btns, hbtns⟩ := Option.isSome_iff_exists.1 (buttonsFor_isSome.2 hstat)
    refine ⟨fun st hst => ?_, h.texts, h.value, h.upper, h.duration, h.seekable, h.jumps⟩
    rw [← Option.some.inj hst, playboxButtonsEnable, hbtns]
    rfl
  · have hnone : buttonsFor stat = none := by
      rw [← Option.not_isSome_iff_eq_none, buttonsFor_isSome]
      exact hstat
    rwa [playboxButtonsEnable, hnone]

theorem rangeSetValue_eq (hk : k.Documented) (v : ℤ) (b : Playbox) : rangeSetValue k v b =
    ({ b with value := clamp v 0 b.upper },
      if clamp v 0 b.upper ≠ b.value ∧ b.seekable = true then some (clamp v 0 b.upper) else none) := by
  have hv := hk.value b.upper b.value v
  have he := hk.emits b.upper b.value v
  unfold rangeSetValue
  rcases hset : k.setValue b.upper b.value v with ⟨value, emits⟩
  rw [hset] at hv he
  dsimp only at hv he ⊢
  rw [hv, ctlProgChanged]
  congr 1
  cases emits <;> simp_all

/-- **The bar is moved**, and the player jumps. -/
theorem Shows.move (hk : k.Documented) (h : Shows gLocaleToUtf8 b js p) (v : ℤ) :
    Shows gLocaleToUtf8 (rangeSetValue k v b).1 (js ++ (rangeSetValue k v b).2.toList) (p.move v) := by
  have hmoved : clamp v 0 b.upper = clamp v 0 p.room := by rw [h.upper]
  rw [rangeSetValue_eq hk, Player.move]
  by_cases hpos : clamp v 0 p.room = p.pos
  · rw [if_pos hpos, if_neg fun hne => hne.1 ((hmoved.trans hpos).trans h.value.symm)]
    refine ⟨h.buttons, h.texts, hmoved.trans hpos, h.upper, h.duration, h.seekable, ?_⟩
    exact (List.append_nil js).trans h.jumps
  · rw [if_neg hpos, if_pos ⟨fun heq => hpos (hmoved.symm.trans (heq.trans h.value)), h.seekable⟩]
    refine ⟨h.buttons, h.texts, hmoved, h.upper, h.duration, h.seekable, ?_⟩
    rw [h.jumps, hmoved]
    rfl

theorem Shows.plays (h : Shows gLocaleToUtf8 b js p) (hb : playboxDetailUpdate gLocaleToUtf8 t b = some b') :
    Shows gLocaleToUtf8 b' js (p.plays t) := by
  simp only [playboxDetailUpdate, Option.bind_eq_bind, Option.bind_eq_some_iff, Option.pure_def] at hb
  obtain ⟨title, htitle, album, halbum, dur, hdur, hb⟩ := hb
  obtain rfl := Option.some.inj hb
  exact ⟨h.buttons, ⟨htitle, halbum, hdur⟩, rfl, rfl, rfl, h.seekable, h.jumps⟩

theorem Shows.clear (hk : k.Documented) (h : Shows gLocaleToUtf8 b js p) :
    Shows gLocaleToUtf8 (playboxDetailClear k b).1 (js ++ (playboxDetailClear k b).2.toList)
      ({ p with track := none }.move 0) := by
  have hcleared : Shows gLocaleToUtf8 { b with title := [], album := [], dur := [] } js { p with track := none } :=
    ⟨h.buttons, ⟨rfl, rfl, rfl⟩, h.value, h.upper, h.duration, h.seekable, h.jumps⟩
  exact hcleared.move hk 0

theorem Shows.jump_clear (hk : k.Documented) (h : Shows gLocaleToUtf8 b js p) :
    (playboxDetailClear k b).2 = if p.pos = clamp 0 0 p.room then none else some (clamp 0 0 p.room) := by
  rw [playboxDetailClear, rangeSetValue_eq hk, ← h.upper, ← h.value]
  have hiff : (clamp 0 0 b.upper ≠ b.value ∧ b.seekable = true) ↔ ¬ b.value = clamp 0 0 b.upper :=
    ⟨fun hne heq => hne.1 heq.symm, fun hne => ⟨fun heq => hne heq.symm, h.seekable⟩⟩
  exact (if_congr hiff rfl rfl).trans (ite_not ..)

/-- **The position goes on** without a jump. -/
theorem Shows.elapse (hk : k.Documented) (h : Shows gLocaleToUtf8 b js p) (r : ℤ) :
    Shows gLocaleToUtf8 (playboxProgressUpdate k r b).1 js { p with pos := max 0 (min r p.length) } ∧
      (playboxProgressUpdate k r b).2 = none := by
  have hval : clamp (if b.duration = 0 then 0 else if b.duration < r then b.duration else r) 0 b.upper =
      max 0 (min r p.length) := by
    rw [h.duration, h.upper, Player.length, Player.room, clamp]
    rcases p.last with _ | t
    · simp only [Option.elim_none]
      split_ifs <;> omega
    · simp only [Option.elim_some]
      split_ifs <;> omega
  rw [playboxProgressUpdate, rangeSetValue_eq hk]
  refine ⟨⟨h.buttons, h.texts, hval, h.upper, h.duration, rfl, h.jumps⟩, ?_⟩
  exact if_neg fun hne => Bool.false_ne_true hne.2

/-- **An event** is shown. -/
theorem see_shows (hk : k.Documented) (h : Shows gLocaleToUtf8 s.box s.jumps p)
    (hs : see k gLocaleToUtf8 s x = some s') : Shows gLocaleToUtf8 s'.box s'.jumps (p.sees x) := by
  cases x with
  | up | queuelist queue => exact Option.some.inj hs ▸ h
  | status stat => exact Option.some.inj hs ▸ h.enable stat
  | curtrack cur =>
    obtain ⟨b', hb, rfl⟩ := Option.map_eq_some_iff.1 hs
    cases cur with
    | none => exact Option.some.inj hb ▸ h
    | some t => exact h.plays hb
  | down => exact Option.some.inj hs ▸ (h.enable 3).clear hk
  | seek v => exact Option.some.inj hs ▸ h.move hk v
  | notice n =>
    obtain ⟨⟨b', jump⟩, hb, rfl⟩ := Option.map_eq_some_iff.1 hs
    cases n with
    | nexttrack t =>
      obtain ⟨b₁, hb₁, heq⟩ := Option.map_eq_some_iff.1 hb
      obtain ⟨rfl, rfl⟩ := Prod.mk.inj heq
      show Shows _ _ (_ ++ []) _
      rw [List.append_nil]
      exact (h.enable 1).plays hb₁
    | stopped =>
      obtain ⟨rfl, rfl⟩ := Prod.mk.inj (Option.some.inj hb)
      exact (h.enable 0).clear hk
    | paused =>
      obtain ⟨rfl, rfl⟩ := Prod.mk.inj (Option.some.inj hb)
      show Shows _ _ (_ ++ []) _
      rw [List.append_nil]
      exact h.enable 2
    | resumed =>
      obtain ⟨rfl, rfl⟩ := Prod.mk.inj (Option.some.inj hb)
      show Shows _ _ (_ ++ []) _
      rw [List.append_nil]
      exact h.enable 1
    | elapsed r =>
      obtain ⟨rfl, rfl⟩ := Prod.mk.inj (Option.some.inj hb)
      obtain ⟨hshows, hnone⟩ := h.elapse hk r
      show Shows _ _ (_ ++ (playboxProgressUpdate k r s.box).2.toList) _
      rw [hnone, Option.toList_none, List.append_nil]
      exact hshows
    | _ =>
      obtain ⟨rfl, rfl⟩ := Prod.mk.inj (Option.some.inj hb)
      show Shows _ _ (_ ++ []) _
      rw [List.append_nil]
      exact h

/-- **Events one after the other** are shown. -/
theorem runs_shows (hk : k.Documented) {l : List Seen} (h : Shows gLocaleToUtf8 s.box s.jumps p)
    (hrun : runs (see k gLocaleToUtf8) s l = some s') :
    Shows gLocaleToUtf8 s'.box s'.jumps (l.foldl Player.sees p) :=
  runs_foldl (R := fun s p => Shows gLocaleToUtf8 s.box s.jumps p) (fun _ _ _ _ h hs => see_shows hk h hs) h hrun

end Shows

/-! ## Runs -/

section Runs

variable {k : Toolkit} {gLocaleToUtf8 : List UInt8 → Option (List UInt8)} {s s' : Gui} {i : Input} {is : List Input}
  {es : Raised} {l : List Seen} {x : Seen}

/-- The windows before anything happens. -/
def Gui.start : Gui := ⟨playboxNew, [], false, []⟩

/-- No rows come while a lost connection is handled. -/
def Input.Calm : Input → Prop
  | .call es => es.Calm
  | .seek _ es => es.Calm

/-- What the client has been told in the end. -/
def told (is : List Input) : Player := (is.flatMap Input.seen).foldl Player.sees Player.start

/-- What an event does to the rows of the queue. -/
def Seen.rows (gLocaleToUtf8 : List UInt8 → Option (List UInt8)) (store : List QueueRow) : Seen → List QueueRow
  | .queuelist queue => gotQueue gLocaleToUtf8 queue store
  | .down => []
  | .notice n => noticeQueue gLocaleToUtf8 n store
  | _ => store

theorem see_rows (h : see k gLocaleToUtf8 s x = some s') : s'.queue = x.rows gLocaleToUtf8 s.queue := by
  cases x with
  | curtrack cur =>
    obtain ⟨box, -, rfl⟩ := Option.map_eq_some_iff.1 h
    rfl
  | notice n =>
    obtain ⟨p, -, rfl⟩ := Option.map_eq_some_iff.1 h
    rfl
  | _ =>
    obtain rfl := Option.some.inj h
    rfl

theorem runs_rows (h : runs (see k gLocaleToUtf8) s l = some s') :
    s'.queue = l.foldl (Seen.rows gLocaleToUtf8) s.queue := by
  refine runs_foldl (R := fun s q => s.queue = q) (fun u q x u' hq hu => ?_) rfl h
  rw [see_rows hu, hq]

/-- **An input** can be taken as its events. -/
theorem guiStep_unfolds (h : guiStep k gLocaleToUtf8 s i = some s') : Unfolds k gLocaleToUtf8 s i.seen i.Calm s' := by
  cases i with
  | call es => exact handle_unfolds h
  | seek v es =>
    simp only [guiStep, Option.ite_none_right_eq_some] at h
    obtain ⟨-, h⟩ := h
    have hseek : Unfolds k gLocaleToUtf8 s [.seek v] True { s with
        box := (rangeSetValue k v s.box).1, jumps := s.jumps ++ (rangeSetValue k v s.box).2.toList } :=
      unfolds_one fun q => ⟨q, rfl, id⟩
    obtain ⟨hall⟩ := hseek.append (handle_unfolds (fits_eq h))
    refine ⟨fun q => ?_⟩
    obtain ⟨q', hrun, hq⟩ := hall q
    exact ⟨q', hrun, fun hc => hq ⟨trivial, hc⟩⟩

theorem runs_unfolds (h : runs (guiStep k gLocaleToUtf8) s is = some s') :
    Unfolds k gLocaleToUtf8 s (is.flatMap Input.seen) (∀ i ∈ is, i.Calm) s' := by
  induction is generalizing s with
  | nil =>
    obtain rfl := Option.some.inj h
    exact ⟨fun q => ⟨q, rfl, fun _ => id⟩⟩
  | cons i is ih =>
    rw [runs_cons, Option.bind_eq_some_iff] at h
    obtain ⟨u, hu, h⟩ := h
    obtain ⟨hall⟩ := (guiStep_unfolds hu).append (ih h)
    refine ⟨fun q => ?_⟩
    obtain ⟨q', hrun, hq⟩ := hall q
    exact ⟨q', by rwa [List.flatMap_cons], fun hc => hq (List.forall_mem_cons.1 hc)⟩

theorem start_shows : Shows gLocaleToUtf8 Gui.start.box Gui.start.jumps Player.start :=
  ⟨fun _ h => (nomatch h), ⟨rfl, rfl, rfl⟩, rfl, rfl, rfl, rfl, rfl⟩

theorem runs_told (hk : k.Documented) (h : runs (guiStep k gLocaleToUtf8) Gui.start is = some s) :
    Shows gLocaleToUtf8 s.box s.jumps (told is) := by
  obtain ⟨q', hrun, -⟩ := (runs_unfolds h).rows []
  have hshows : Shows gLocaleToUtf8 (s.rows q').box (s.rows q').jumps (told is) := runs_shows hk start_shows hrun
  exact hshows

/-- **The player is shown as if no call were nested**: the buttons, the texts, the progress bar and the jumps are those
of the events one after the other. The rows of the queue are, too, unless rows come while the handler of a lost
connection runs. -/
theorem player_window (hk : k.Documented) (h : runs (guiStep k gLocaleToUtf8) Gui.start is = some s) :
    Shows gLocaleToUtf8 s.box s.jumps (told is) ∧
      ((∀ i ∈ is, i.Calm) → s.queue = (is.flatMap Input.seen).foldl (Seen.rows gLocaleToUtf8) []) := by
  refine ⟨runs_told hk h, fun hcalm => ?_⟩
  obtain ⟨q', hrun, hq⟩ := (runs_unfolds h).rows []
  rw [← hq hcalm rfl]
  exact runs_rows hrun

theorem see_jumps (h : see k gLocaleToUtf8 s x = some s') : ∃ js, s'.jumps = s.jumps ++ js := by
  cases x with
  | curtrack cur =>
    obtain ⟨box, -, rfl⟩ := Option.map_eq_some_iff.1 h
    exact ⟨[], (List.append_nil _).symm⟩
  | notice n =>
    obtain ⟨p, -, rfl⟩ := Option.map_eq_some_iff.1 h
    exact ⟨_, rfl⟩
  | down | seek v => exact Option.some.inj h ▸ ⟨_, rfl⟩
  | _ => exact Option.some.inj h ▸ ⟨[], (List.append_nil _).symm⟩

theorem runs_jumps (h : runs (see k gLocaleToUtf8) s l = some s') : ∃ js, s'.jumps = s.jumps ++ js := by
  refine runs_keep (I := fun u => ∃ js, u.jumps = s.jumps ++ js) (fun u x u' hu hs => ?_)
    ⟨[], (List.append_nil _).symm⟩ h
  obtain ⟨js, hjs⟩ := hu
  obtain ⟨js', hjs'⟩ := see_jumps hs
  exact ⟨js ++ js', by rw [hjs', hjs, List.append_assoc]⟩

/-! ## Lost connections -/

/-- While the client in the state `s` handles the events `es`, it comes to the events `e` in the state `u`, and has seen
`l` by then. -/
inductive Comes (k : Toolkit) (gLocaleToUtf8 : List UInt8 → Option (List UInt8)) :
    Gui → Raised → List Seen → Gui → Raised → Prop
  | here {s : Gui} {e : Raised} : Comes k gLocaleToUtf8 s e [] s e
  | status {s u : Gui} {stat : ℤ} {es₁ es₂ es₃ more e : Raised} {cur : Option DucTrack}
      {queue : Option (List DucQueue)} {l : List Seen} (h : Comes k gLocaleToUtf8 { s with up := true } es₁ l u e) :
      Comes k gLocaleToUtf8 s (.connect stat es₁ cur es₂ queue es₃ more) (.up :: l) u e
  | curtrack {s s₁ u : Gui} {stat : ℤ} {es₁ es₂ es₃ more e : Raised} {cur : Option DucTrack}
      {queue : Option (List DucQueue)} {l : List Seen} (h₁ : handle k gLocaleToUtf8 { s with up := true } es₁ = some s₁)
      (h : Comes k gLocaleToUtf8 { s₁ with box := playboxButtonsEnable stat s₁.box } es₂ l u e) :
      Comes k gLocaleToUtf8 s (.connect stat es₁ cur es₂ queue es₃ more) (.up :: es₁.seen ++ .status stat :: l) u e
  | queuelist {s s₁ s₂ u : Gui} {stat : ℤ} {es₁ es₂ es₃ more e : Raised} {cur : Option DucTrack}
      {queue : Option (List DucQueue)} {box : Playbox} {l : List Seen}
      (h₁ : handle k gLocaleToUtf8 { s with up := true } es₁ = some s₁)
      (h₂ : handle k gLocaleToUtf8 { s₁ with box := playboxButtonsEnable stat s₁.box } es₂ = some s₂)
      (hbox : gotTrack gLocaleToUtf8 cur s₂.box = some box)
      (h : Comes k gLocaleToUtf8 { s₂ with box } es₃ l u e) :
      Comes k gLocaleToUtf8 s (.connect stat es₁ cur es₂ queue es₃ more)
        (.up :: es₁.seen ++ .status stat :: es₂.seen ++ .curtrack cur :: l) u e
  | connected {s s₁ s₂ s₃ u : Gui} {stat : ℤ} {es₁ es₂ es₃ more e : Raised} {cur : Option DucTrack}
      {queue : Option (List DucQueue)} {box : Playbox} {l : List Seen}
      (h₁ : handle k gLocaleToUtf8 { s with up := true } es₁ = some s₁)
      (h₂ : handle k gLocaleToUtf8 { s₁ with box := playboxButtonsEnable stat s₁.box } es₂ = some s₂)
      (hbox : gotTrack gLocaleToUtf8 cur s₂.box = some box)
      (h₃ : handle k gLocaleToUtf8 { s₂ with box } es₃ = some s₃)
      (h : Comes k gLocaleToUtf8 { s₃ with queue := gotQueue gLocaleToUtf8 queue s₃.queue } more l u e) :
      Comes k gLocaleToUtf8 s (.connect stat es₁ cur es₂ queue es₃ more)
        (.up :: es₁.seen ++ .status stat :: es₂.seen ++ .curtrack cur :: es₃.seen ++ .queuelist queue :: l) u e
  | lost {s u : Gui} {es more e : Raised} {box : Playbox} {jump : Option ℤ} {l : List Seen}
      (hbox : playboxDetailClear k (playboxButtonsEnable 3 s.box) = (box, jump))
      (h : Comes k gLocaleToUtf8 { s with box, up := false, jumps := s.jumps ++ jump.toList } es l u e) :
      Comes k gLocaleToUtf8 s (.disconnect es more) (.down :: l) u e
  | behind {s s₁ u : Gui} {es more e : Raised} {box : Playbox} {jump : Option ℤ} {l : List Seen}
      (hbox : playboxDetailClear k (playboxButtonsEnable 3 s.box) = (box, jump))
      (h₁ : fits jump es
        (handle k gLocaleToUtf8 { s with box, up := false, jumps := s.jumps ++ jump.toList } es) = some s₁)
      (h : Comes k gLocaleToUtf8 { s₁ with queue := [] } more l u e) :
      Comes k gLocaleToUtf8 s (.disconnect es more) (.down :: es.seen ++ l) u e
  | notice {s u : Gui} {n : Notice} {es more e : Raised} {box : Playbox} {jump : Option ℤ} {l : List Seen}
      (hbox : noticeBox k gLocaleToUtf8 n s.box = some (box, jump))
      (h : Comes k gLocaleToUtf8 { s with
        box, queue := noticeQueue gLocaleToUtf8 n s.queue, jumps := s.jumps ++ jump.toList } es l u e) :
      Comes k gLocaleToUtf8 s (.notice n es more) (.notice n :: l) u e
  | noticed {s s₁ u : Gui} {n : Notice} {es more e : Raised} {box : Playbox} {jump : Option ℤ} {l : List Seen}
      (hbox : noticeBox k gLocaleToUtf8 n s.box = some (box, jump))
      (h₁ : fits jump es (handle k gLocaleToUtf8 { s with
        box, queue := noticeQueue gLocaleToUtf8 n s.queue, jumps := s.jumps ++ jump.toList } es) = some s₁)
      (h : Comes k gLocaleToUtf8 s₁ more l u e) :
      Comes k gLocaleToUtf8 s (.notice n es more) (.notice n :: es.seen ++ l) u e

/-- The client begins to handle the events of an input, and has seen `l` by then. -/
inductive Enters (k : Toolkit) (s : Gui) : Input → List Seen → Gui → Raised → Prop
  | call (es : Raised) : Enters k s (.call es) [] s es
  | seek {v : ℤ} {box : Playbox} {jump : Option ℤ} (es : Raised) (hprog : s.box.buttons.prog = true)
      (hbox : rangeSetValue k v s.box = (box, jump)) :
      Enters k s (.seek v es) [.seek v] { s with box, jumps := s.jumps ++ jump.toList } es

theorem handle_shows {p : Player} (hk : k.Documented) (h : handle k gLocaleToUtf8 s es = some s')
    (hp : Shows gLocaleToUtf8 s.box s.jumps p) :
    Shows gLocaleToUtf8 s'.box s'.jumps (es.seen.foldl Player.sees p) := by
  obtain ⟨q', hrun, -⟩ := (handle_unfolds h).rows s.queue
  have hshows : Shows gLocaleToUtf8 (s'.rows q').box (s'.rows q').jumps (es.seen.foldl Player.sees p) :=
    runs_shows hk hp hrun
  exact hshows

theorem Shows.status {p : Player} (hk : k.Documented) (hp : Shows gLocaleToUtf8 s.box s.jumps p) (stat : ℤ) :
    Shows gLocaleToUtf8 (playboxButtonsEnable stat s.box) s.jumps (p.sees (.status stat)) :=
  see_shows (x := .status stat) hk hp rfl

theorem Shows.curtrack {p : Player} {cur : Option DucTrack} {box : Playbox} (hk : k.Documented)
    (hp : Shows gLocaleToUtf8 s.box s.jumps p) (hbox : gotTrack gLocaleToUtf8 cur s.box = some box) :
    Shows gLocaleToUtf8 box s.jumps (p.sees (.curtrack cur)) := by
  have hsee : see k gLocaleToUtf8 s (.curtrack cur) = some { s with box } := by
    rw [see, hbox]
    rfl
  exact see_shows hk hp hsee

theorem Shows.down {p : Player} {box : Playbox} {jump : Option ℤ} (hk : k.Documented)
    (hp : Shows gLocaleToUtf8 s.box s.jumps p)
    (hbox : playboxDetailClear k (playboxButtonsEnable 3 s.box) = (box, jump)) :
    Shows gLocaleToUtf8 box (s.jumps ++ jump.toList) (p.sees .down) := by
  have hclear := (hp.enable 3).clear hk
  rw [hbox] at hclear
  exact hclear

theorem Shows.notice {p : Player} {n : Notice} {box : Playbox} {jump : Option ℤ} (hk : k.Documented)
    (hp : Shows gLocaleToUtf8 s.box s.jumps p) (hbox : noticeBox k gLocaleToUtf8 n s.box = some (box, jump)) :
    Shows gLocaleToUtf8 box (s.jumps ++ jump.toList) (p.sees (.notice n)) := by
  have hsee : see k gLocaleToUtf8 s (.notice n) = some { s with
      box, queue := noticeQueue gLocaleToUtf8 n s.queue, jumps := s.jumps ++ jump.toList } := by
    rw [see, hbox]
    rfl
  exact see_shows hk hp hsee

/-- **Where the client comes to**, it shows what it has seen. -/
theorem Comes.shows {p : Player} {u : Gui} {e : Raised} (hk : k.Documented) (h : Comes k gLocaleToUtf8 s es l u e)
    (hp : Shows gLocaleToUtf8 s.box s.jumps p) : Shows gLocaleToUtf8 u.box u.jumps (l.foldl Player.sees p) := by
  induction h generalizing p with
  | here => exact hp
  | status h ih => exact ih hp
  | curtrack h₁ h ih =>
    simp only [List.foldl_cons, List.foldl_append]
    have hp₁ := handle_shows hk h₁ hp
    exact ih (hp₁.status hk _)
  | queuelist h₁ h₂ hbox h ih =>
    simp only [List.foldl_cons, List.foldl_append]
    have hp₁ := handle_shows hk h₁ hp
    have hp₂ := (handle_shows hk h₂ (hp₁.status hk _)).curtrack hk hbox
    exact ih hp₂
  | connected h₁ h₂ hbox h₃ h ih =>
    simp only [List.foldl_cons, List.foldl_append]
    have hp₁ := handle_shows hk h₁ hp
    have hp₂ := (handle_shows hk h₂ (hp₁.status hk _)).curtrack hk hbox
    have hp₃ := handle_shows hk h₃ hp₂
    exact ih hp₃
  | lost hbox h ih => exact ih (hp.down hk hbox)
  | behind hbox h₁ h ih =>
    simp only [List.foldl_cons, List.foldl_append]
    have hdown := hp.down hk hbox
    have hp₁ := handle_shows hk (fits_eq h₁) hdown
    exact ih hp₁
  | notice hbox h ih => exact ih (hp.notice hk hbox)
  | noticed hbox h₁ h ih =>
    simp only [List.foldl_cons, List.foldl_append]
    have hnotice := hp.notice hk hbox
    have hp₁ := handle_shows hk (fits_eq h₁) hnotice
    exact ih hp₁

theorem Enters.seen {u : Gui} (h : Enters k s i l u es) : i.seen = l ++ es.seen := by
  cases h <;> rfl

theorem Enters.shows {p : Player} {u : Gui} (hk : k.Documented) (h : Enters k s i l u es)
    (hp : Shows gLocaleToUtf8 s.box s.jumps p) : Shows gLocaleToUtf8 u.box u.jumps (l.foldl Player.sees p) := by
  cases h with
  | call => exact hp
  | seek _ _ hbox =>
    rename_i v box jump _
    have hmove := hp.move hk v
    rw [hbox] at hmove
    exact hmove

/-- What the client has seen comes first among the events. -/
theorem Comes.seen {u : Gui} {e : Raised} (h : Comes k gLocaleToUtf8 s es l u e) : l ++ e.seen <+: es.seen := by
  induction h with
  | here => exact List.prefix_refl _
  | _ =>
    rename_i ih
    obtain ⟨r, hr⟩ := ih
    simp [Raised.seen, ← hr]

/-- **A lost connection**, inside the handler of another event or not, is made again from its own handler only when the
progress bar has left its start: then the handler asks for a jump. Whatever is listed there, the queue window is empty
when the next event comes. -/
theorem lost_connection {u v v' : Gui} {more e : Raised} {l₀ : List Seen} (hk : k.Documented)
    (hrun : runs (guiStep k gLocaleToUtf8) Gui.start is = some s) (henters : Enters k s i l₀ u e)
    (hcomes : Comes k gLocaleToUtf8 u e l v (.disconnect es more))
    (h : handle k gLocaleToUtf8 v (.disconnect es more) = some v') :
    l₀ ++ l ++ (Raised.disconnect es more).seen <+: i.seen ∧
      ∃ v₁ js, handle k gLocaleToUtf8 v₁ more = some v' ∧ v₁.queue = [] ∧ v₁.jumps = v.jumps ++ js ∧
      let p := (l₀ ++ l).foldl Player.sees (told is)
      if p.pos = clamp 0 0 p.room then es = .done ∧ v₁.up = false ∧ js = []
      else js.head? = some (clamp 0 0 p.room) := by
  refine ⟨?_, ?_⟩
  · rw [henters.seen, List.append_assoc, List.prefix_append_right_inj]
    exact hcomes.seen
  have hp := hcomes.shows hk (henters.shows hk (runs_told hk hrun))
  rw [← List.foldl_append] at hp
  generalize (l₀ ++ l).foldl Player.sees (told is) = p at hp
  have hjump : (playboxDetailClear k (playboxButtonsEnable 3 v.box)).2 =
      if p.pos = clamp 0 0 p.room then none else some (clamp 0 0 p.room) :=
    ((hp.enable 3).jump_clear hk).trans rfl
  simp only [handle, Option.bind_eq_bind, Option.bind_eq_some_iff] at h
  obtain ⟨v₁, hv₁, h⟩ := h
  rw [hjump] at hv₁
  refine ⟨{ v₁ with queue := [] }, ?_⟩
  dsimp only
  by_cases hpos : p.pos = clamp 0 0 p.room
  · rw [if_pos hpos] at hv₁
    obtain rfl := isDone_of_fits hv₁
    obtain rfl := Option.some.inj (fits_eq hv₁)
    exact ⟨[], h, rfl, rfl, by rw [if_pos hpos]; exact ⟨rfl, rfl, rfl⟩⟩
  · rw [if_neg hpos] at hv₁
    obtain ⟨q', hrun', -⟩ := (handle_unfolds (fits_eq hv₁)).rows []
    obtain ⟨js, hjs⟩ := runs_jumps hrun'
    exact ⟨_ :: js, h, rfl, hjs.trans (List.append_assoc ..), by rw [if_neg hpos]; rfl⟩

end Runs

/-! ## A sample session -/

/-- A range that does as documented. -/
def plainToolkit : Toolkit := ⟨fun upper old v => (clamp v 0 upper, decide (clamp v 0 upper ≠ old))⟩

theorem plainToolkit_documented : plainToolkit.Documented :=
  ⟨fun _ _ _ => rfl, fun _ _ _ => decide_eq_true_iff⟩

/-- A track of a minute. -/
def minuteTrack : DucTrack := ⟨7, ⟨2, [65], ⟨4, [66]⟩, 1999⟩, 1, [67], ⟨4, [66]⟩, 60⟩

/-- The connection is made, and the track has played for ten seconds. -/
def playing : List Input :=
  [.call (.connect 1 .done (some minuteTrack) .done (some [sampleQueue 1]) .done .done),
    .call (.notice (.elapsed 10) .done .done)]

/-- The player stops, and an entry is added to the queue while the handler asks for a jump to the start. -/
def stopping : List Input :=
  playing ++ [.call (.notice .stopped (.notice (.queueadd (sampleQueue 2)) .done .done) .done)]

theorem stopping_calm : ∀ i ∈ stopping, i.Calm := by
  intro i hi
  obtain rfl | rfl | rfl : i = _ ∨ i = _ ∨ i = _ := by simpa [stopping, playing] using hi
  · exact ⟨trivial, trivial, trivial, trivial⟩
  · exact ⟨trivial, trivial⟩
  · exact ⟨⟨trivial, trivial⟩, trivial⟩

/-- The theorem where the queue grows inside the handler of another event. -/
theorem player_window_stopping : ∃ s, runs (guiStep plainToolkit some) Gui.start stopping = some s ∧ s.jumps = [0] ∧
    Shows some s.box s.jumps (told stopping) ∧
    s.queue = [queueRow some (sampleQueue 1), queueRow some (sampleQueue 2)] := by
  have hrun : ∃ s, runs (guiStep plainToolkit some) Gui.start stopping = some s ∧ s.jumps = [0] := ⟨_, rfl, rfl⟩
  obtain ⟨s, hs, hjumps⟩ := hrun
  obtain ⟨hshows, hrows⟩ := player_window plainToolkit_documented hs
  exact ⟨s, hs, hjumps, hshows, (hrows stopping_calm).trans rfl⟩

/-- The reply to a jump makes the connection again. -/
def again : Raised := .connect 1 .done (some minuteTrack) .done (some [sampleQueue 1]) .done .done

/-- The user moves the bar. The player resumes, and the connection is lost while the jump is asked for; when it has been
made again, the player pauses. -/
def seeking : Raised := .notice .resumed .done (.disconnect again (.notice .paused .done .done))

/-- The theorem where the session is up again, and the queue has been listed but is not shown. -/
theorem lost_connection_seeking : ∃ s u v v' v₁ js, runs (guiStep plainToolkit some) Gui.start playing = some s ∧
    Enters plainToolkit s (.seek 20 seeking) [.seek 20] u seeking ∧
    Comes plainToolkit some u seeking [.notice .resumed] v (.disconnect again (.notice .paused .done .done)) ∧
    handle plainToolkit some v (.disconnect again (.notice .paused .done .done)) = some v' ∧ v'.up = true ∧
    handle plainToolkit some v₁ (.notice .paused .done .done) = some v' ∧ v₁.queue = [] ∧ v₁.jumps = v.jumps ++ js ∧
    js.head? = some 0 := by
  have hrun : ∃ s, runs (guiStep plainToolkit some) Gui.start playing = some s ∧ ∃ u v v',
      Enters plainToolkit s (.seek 20 seeking) [.seek 20] u seeking ∧
      Comes plainToolkit some u seeking [.notice .resumed] v (.disconnect again (.notice .paused .done .done)) ∧
      handle plainToolkit some v (.disconnect again (.notice .paused .done .done)) = some v' ∧ v'.up = true :=
    ⟨_, rfl, _, _, _, .seek _ rfl rfl, .noticed rfl rfl .here, rfl, rfl⟩
  obtain ⟨s, hs, u, v, v', henters, hcomes, h, hup⟩ := hrun
  obtain ⟨-, v₁, js, hmore, hqueue, hjs, hjump⟩ := lost_connection plainToolkit_documented hs henters hcomes h
  have htold : ¬ (([.seek 20] ++ [.notice .resumed] : List Seen).foldl Player.sees (told playing)).pos =
      clamp 0 0 (([.seek 20] ++ [.notice .resumed] : List Seen).foldl Player.sees (told playing)).room := by decide
  dsimp only at hjump
  rw [if_neg htold] at hjump
  exact ⟨s, u, v, v', v₁, js, hs, henters, hcomes, h, hup, hmore, hqueue, hjs, hjump⟩

end Dudlc
