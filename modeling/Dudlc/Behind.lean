import Dudlc.Feed
import Dudlc.Handover
import Dudlc.Replies

/-!
# What a call leaves in the buffer

* `newsIn`: the complete broadcast lines among unread bytes.
* `runCmd_left`: a command that returns with the connection open has read its reply and nothing behind it.
* `pollLoop_free`: `duc_poll` reads all complete lines.
* `runCmd_held`, `poll_held`: handlers matter only where the connection is lost.
* **`left_behind_iff`**: when a call leaves no complete broadcast line unread. Commands stop at the last
  line of their reply; what came in the same packet behind it stays in the buffer.
-/

namespace Dudlc

open Lib

variable {ρ : Type} {ev : Handlers} {w w' v : World} {r : ℤ} {fmt : Cstr} {ap : List Arg}

/-- The complete broadcast lines among the bytes `u`. -/
def newsIn (u : List UInt8) : List (List UInt8) :=
  (u.splitOnP isStop).dropLast.filter fun l => isBcast l && 4 ≤ l.length

theorem newsIn_of_free {u : List UInt8} (hu : ∀ b ∈ u, isStop b = false) : newsIn u = [] := by
  rw [newsIn, List.splitOnP_eq_singleton hu]
  rfl

/-! ## Commands -/

theorem open_closed (hev : ev.KeepSound) (hs : w.con.Sound) (h : ducOpen ev w = some (r, v))
    (hr : r ≠ 0) : v.con.fd = -1 := by
  rcases ducOpen_cases h with ⟨-, h0, -⟩ | ⟨q, w₁, hfd, hc, hor⟩
  · exact absurd h0 hr
  have hw₁ := connect_sound hs hfd hc
  rcases hor with ⟨hq, -, rfl⟩ | ⟨ok, w₂, -, hello, ⟨-, h0, -⟩ | ⟨-, -, rfl⟩⟩
  · rcases connect_cases hfd hc with ⟨-, ds, rfl | rfl⟩ | ⟨h0, -⟩
    · exact hfd
    · exact hfd
    · exact absurd h0 hq
  · exact absurd h0 hr
  · have hw₂ : w₂.con.Sound := hev.keeps.hello hello hw₁
    exact disconnect_fd hw₂.tidy

/-- **`_duc_vsend`** with the connection open: a reply is due already, the text is too long, or it is
sent. -/
theorem vsend_feed (hev : ev.KeepSound) (hq : ev.Quiet) (hs : w.con.Sound)
    (h : vsendBody ev (ducOpen ev) w fmt ap = some (r, v)) (hfd : v.con.fd ≠ -1) :
    (w.inreply = true ∧ r = -1 ∧ v = w) ∨
      (w.inreply = false ∧ ∃ w₁ t, ducOpen ev w = some (0, w₁) ∧ format fmt.bytes ap = some t ∧
        ((BUFLENLINE - 1 < t.length ∧ r = -1 ∧ v = w₁) ∨
          (t.length < BUFLENLINE - 1 ∧ r = 0 ∧ v.con.Sound ∧ v.inreply = true ∧ v.code = [] ∧
            v.feed = w₁.feed))) := by
  rcases vsendBody_cases h with h | ⟨-, q, ho, hq, -⟩ | ⟨w₁, cmd, hin, ho, hbuf, h⟩
  · exact Or.inl h
  · exact absurd (open_closed hev hs ho hq) hfd
  have hw₁ := open_sound hev hs ho
  cases ht : format fmt.bytes ap with
  | none => simp [vsendBuf, ht] at hbuf
  | some t =>
    refine Or.inr ⟨hin, w₁, t, ho, rfl, ?_⟩
    rcases lt_trichotomy t.length (BUFLENLINE - 1) with hlen | hlen | hlen
    · right
      rw [vsendBuf_eq ht hlen] at hbuf
      rcases h with ⟨rfl, -⟩ | ⟨t', rfl, hsend⟩
      · cases hbuf
      obtain ⟨q, w₂, hs', ⟨-, rfl, rfl⟩ | ⟨-, -, hc⟩⟩ := vsendSend_cases hsend
      · obtain ⟨_, _, rfl⟩ := send_eq hs'
        exact ⟨hlen, rfl, hw₁, rfl, rfl, rfl⟩
      · obtain ⟨_, _, rfl⟩ := send_eq hs'
        exact absurd (close_closes hq (by exact hw₁.tidy) hc) hfd
    · rw [vsendBuf_edge ht hlen] at hbuf
      cases hbuf
    · left
      rw [vsendBuf_long ht hlen] at hbuf
      rcases h with ⟨-, rfl, rfl⟩ | ⟨t', rfl, -⟩
      · exact ⟨hlen, rfl, rfl⟩
      · cases hbuf

/-- How a call of a command leaves the connection open: the command is refused, or its reply is read. -/
def Left (ev : Handlers) (w : World) (fmt : Cstr) (ap : List Arg) (v : World) : Prop :=
  (w.inreply = true ∧ v = w) ∨
    (w.inreply = false ∧ ∃ w₁ t, ducOpen ev w = some (0, w₁) ∧ format fmt.bytes ap = some t ∧
      ((BUFLENLINE - 1 < t.length ∧ v = w₁) ∨
        (t.length < BUFLENLINE - 1 ∧ w₁.feed.Reply [] v.feed)))

theorem left_vsend (hev : ev.KeepSound) (hq : ev.Quiet) (hs : w.con.Sound)
    (h : vsendBody ev (ducOpen ev) w fmt ap = some (r, v)) (hr : r ≠ 0) (hfd : v.con.fd ≠ -1) :
    Left ev w fmt ap v := by
  rcases vsend_feed hev hq hs h hfd with ⟨hin, -, hv⟩ | ⟨hin, w₁, t, ho, ht, ⟨hlen, -, hv⟩ | ⟨-, h0, -⟩⟩
  · exact Or.inl ⟨hin, hv⟩
  · exact Or.inr ⟨hin, w₁, t, ho, ht, Or.inl ⟨hlen, hv⟩⟩
  · exact absurd h0 hr

theorem left_sent (hev : ev.KeepSound) (hq : ev.Quiet) (hs : w.con.Sound)
    (h : vsendBody ev (ducOpen ev) w fmt ap = some (0, v)) (hfd : v.con.fd ≠ -1) :
    v.con.Sound ∧ ∀ v', v.Ends v'.feed → Left ev w fmt ap v' := by
  rcases vsend_feed hev hq hs h hfd with ⟨-, h, -⟩ | ⟨hin, w₁, t, ho, ht, ⟨-, h, -⟩ | ⟨hlen, -, hv, hin', hc, hf⟩⟩
  · cases h
  · cases h
  · refine ⟨hv, fun v' hends => Or.inr ⟨hin, w₁, t, ho, ht, Or.inr ⟨hlen, ?_⟩⟩⟩
    rwa [World.ends_reply hin', hc, hf] at hends

theorem vsend_open (h : vsendBody ev (ducOpen ev) w fmt ap = some (0, v)) : v.con.fd ≠ -1 := by
  rcases vsendBody_cases h with ⟨-, h, -⟩ | ⟨-, _, -, -, h⟩ | ⟨w₁, cmd, -, -, -, ⟨-, h, -⟩ | ⟨t, -, hsend⟩⟩
  · cases h
  · cases h
  · cases h
  · obtain ⟨q, w₂, hs, ⟨rfl, -, rfl⟩ | ⟨-, h, -⟩⟩ := vsendSend_cases hsend
    · intro hfd
      obtain ⟨_, _, rfl⟩ := send_eq hs
      rw [World.send, if_pos (show w₁.unreplied.con.fd = -1 from hfd)] at hs
      cases hs
    · cases h

/-- **The helpers that look at the last line.** -/
theorem cmd_left {α : Type} {fail a : α} {done : World → Option α} (hev : ev.KeepSound)
    (hq : ev.Quiet) (hs : w.con.Sound) (h : cmdBody ev (ducOpen ev) fail done w fmt ap = some (a, v))
    (hfd : v.con.fd ≠ -1) : Left ev w fmt ap v := by
  rcases cmdBody_cases h with ⟨q, hv, hq0, -⟩ | ⟨w₁, hv, hl⟩
  · exact left_vsend hev hq hs hv hq0 hfd
  obtain ⟨hs₁, hleft⟩ := left_sent hev hq hs hv (vsend_open hv)
  have hread : ∀ q, ducRlast ev w₁ = some (q, v) → Left ev w fmt ap v := by
    intro q hl
    rcases rlast_feed hev hs₁ hl with ⟨-, hends⟩ | rfl
    · exact hleft v hends
    · exact absurd (rlast_closes hq hs₁.tidy hl) hfd
  rcases hl with ⟨q, hl, -⟩ | ⟨hl, -⟩
  · exact hread q hl
  · exact hread 0 hl

theorem collect_feed {conv : Converter ρ} {rows : List (Option ρ)} {it : Option (DucIter ρ)}
    (hev : ev.KeepSound) (hq : ev.Quiet) (hs : w.con.Sound)
    (h : itCollect ev conv (w, rows) = some (it, v)) (hfd : v.con.fd ≠ -1) : w.Ends v.feed := by
  refine itCollect_rule (I := fun u => u.con.Sound ∧ ∀ f, u.Ends f → w.Ends f)
    (Q := fun u => u.con.fd ≠ -1 → w.Ends u.feed) ⟨hs, fun _ => id⟩ ?_ ?_ ?_ h hfd
  · rintro u u' ⟨hu, hends⟩ hr
    exact ⟨rnext_sound hev hu hr, fun f hf => hends f (rnext_ends hu hr hf)⟩
  · rintro u r u' ⟨hu, hends⟩ hr hneg hopen
    rcases ducRnext_cases hr with ⟨hin, rfl, rfl⟩ | ⟨-, -, rfl⟩ | ⟨_, _, _, -, -, ⟨-, -, rfl, -⟩ | ⟨-, h, -⟩⟩
    · exact hends _ ((World.ends_idle hin).2 rfl)
    · exact absurd (rnext_closes hq hu.tidy hr) hopen
    · exact absurd (rnext_closes hq hu.tidy hr) hopen
    · exact absurd h hneg.ne
  · rintro u r u' ⟨hu, hends⟩ hl hopen
    rcases rlast_feed hev hu hl with ⟨-, hends'⟩ | rfl
    · exact hends _ hends'
    · exact absurd (rlast_closes hq hu.tidy hl) hopen

theorem it_left {conv : Converter ρ} {it : Option (DucIter ρ)} (hev : ev.KeepSound) (hq : ev.Quiet)
    (hs : w.con.Sound) (h : ducItNewv ev conv w fmt ap = some (it, v)) (hfd : v.con.fd ≠ -1) :
    Left ev w fmt ap v := by
  rcases ducItNewv_cases h with ⟨q, hv, hq0, -⟩ | ⟨w₁, r, w₂, hv, hr, hor⟩
  · exact left_vsend hev hq hs hv hq0 hfd
  obtain ⟨hs₁, hleft⟩ := left_sent hev hq hs hv (vsend_open hv)
  have hs₂ := rnext_sound hev hs₁ hr
  rcases hor with ⟨hr0, -, rfl⟩ | ⟨rfl, -, -, p, hl⟩ | ⟨rfl, hcoll⟩
  · rcases ducRnext_cases hr with ⟨hin, -, rfl⟩ | ⟨-, -, rfl⟩ | ⟨_, _, _, -, -, ⟨-, -, rfl, -⟩ | ⟨-, h, -⟩⟩
    · exact hleft _ ((World.ends_idle hin).2 rfl)
    · exact absurd (rnext_closes hq hs₁.tidy hr) hfd
    · exact absurd (rnext_closes hq hs₁.tidy hr) hfd
    · exact absurd h hr0
  · rcases rlast_feed hev hs₂ hl with ⟨-, hends⟩ | rfl
    · exact hleft _ (rnext_ends hs₁ hr hends)
    · exact absurd (rlast_closes hq hs₂.tidy hl) hfd
  · exact hleft _ (rnext_ends hs₁ hr (collect_feed hev hq hs₂ hcoll hfd))

/-- **Every command helper.** -/
theorem runCmd_left {c : Cmd ρ} {res : Result ρ} (hev : ev.KeepSound) (hq : ev.Quiet) (hs : w.con.Sound)
    (h : runCmd ev w c = some (res, v)) (hfd : v.con.fd ≠ -1) : Left ev w c.fmt c.args v := by
  obtain ⟨helper, fmt, args⟩ := c
  cases helper with
  | it f =>
    obtain ⟨⟨it, u⟩, hi, heq⟩ := Option.map_eq_some_iff.1 h
    obtain ⟨-, rfl⟩ := Prod.mk.inj heq
    exact it_left hev hq hs hi hfd
  | _ =>
    obtain ⟨⟨a, u⟩, hb, heq⟩ := Option.map_eq_some_iff.1 h
    obtain ⟨-, rfl⟩ := Prod.mk.inj heq
    exact cmd_left hev hq hs hb hfd

theorem pollLoop_free (hev : ev.KeepSound) (hq : ev.Quiet) (hs : w.con.Sound)
    (h : pollLoop ev w = some v) : ∀ b ∈ v.con.unread, isStop b = false := by
  refine pollLoop_rule (I := fun u => u.con.Sound) (Q := fun u => ∀ b ∈ u.con.unread, isStop b = false)
    hs ?_ ?_ ?_ ?_ h
  · intro u i t con hu hg ht _ _
    exact (getline_feed hu hg ht).2.1
  · intro u i t con hu hg ht _ _
    exact (getline_feed hu hg ht).2.1
  · intro u con hu hg
    obtain ⟨-, hfree, hu'⟩ := getline_none_feed hu hg
    change ∀ b ∈ con.unread, isStop b = false
    rwa [hu'.unread_eq]
  · intro u i t con u' hu hg ht _ hc b hb
    have hcon : con.Sound := (getline_feed hu hg ht).2.1
    have hu' := close_sound hev (by exact hcon) hc
    rw [unread_closed hu'.tidy (close_closes hq hcon.tidy hc)] at hb
    exact absurd hb List.not_mem_nil

/-- **`duc_poll`** leaves no complete line behind on an open connection. -/
theorem poll_free (hev : ev.KeepSound) (hq : ev.Quiet) (hs : w.con.Sound) (h : ducPoll ev w = some v)
    (hfd : v.con.fd ≠ -1) : ∀ b ∈ v.con.unread, isStop b = false := by
  obtain ⟨q, w₁, ho, ⟨hq0, rfl⟩ | ⟨r, w₂, -, hr, hor⟩⟩ := ducPoll_cases h
  · exact absurd (open_closed hev hs ho hq0) hfd
  have hw₂ := recv_sound (open_sound hev hs ho) hr
  rcases hor with ⟨-, w₃, hc, hloop⟩ | ⟨-, hloop⟩
  · exact pollLoop_free hev hq (close_sound hev hw₂ hc) hloop
  · exact pollLoop_free hev hq hw₂ hloop

/-! ## Connections that are not lost -/

/-- Handlers that connect again, as `cb_disc` of `cli/events.c` does; this calls `ev` meanwhile. -/
def Handlers.again (ev : Handlers) : Handlers := ⟨ev.connect, fun w => (ducOpen ev w).map Prod.snd⟩

theorem Handlers.KeepSound.again (hev : ev.KeepSound) : ev.again.KeepSound where
  connect := hev.connect
  disconnect w w' hs h := by
    obtain ⟨⟨r, u⟩, ho, rfl⟩ := Option.map_eq_some_iff.1 h
    exact open_sound hev hs ho

theorem Handlers.KeepSound.hold (hev : ev.KeepSound) : ev.hold.KeepSound :=
  ⟨hev.connect, fun _ _ hs h => Option.some.inj h ▸ hs⟩

theorem runCmd_held {c : Cmd ρ} {res : Result ρ} (hev : ev.KeepSound) (hs : w.con.Sound)
    (h : runCmd ev.hold w c = some (res, v)) (hfd : v.con.fd ≠ -1) : runCmd ev w c = some (res, v) := by
  rcases runCmd_left hev.hold ev.hold_quiet hs h hfd with ⟨hin, -⟩ | ⟨hin, w₁, t, ho, -⟩
  · exact (runCmd_relays c (vsend_relays_due hin hs.tidy)).held (fun _ => Beside.snd) h hfd
  · exact (runCmd_relays c (vsend_relays_opened hin ho (open_held hs.tidy ho)
      (open_sound hev.hold hs ho).tidy)).held (fun _ => Beside.snd) h hfd

theorem poll_held (hev : ev.KeepSound) (hs : w.con.Sound) (h : ducPoll ev.hold w = some v)
    (hfd : v.con.fd ≠ -1) : ducPoll ev w = some v := by
  obtain ⟨q, w₁, ho, ⟨hq, rfl⟩ | ⟨r, w₂, rfl, hr, hor⟩⟩ := ducPoll_cases h
  · exact absurd (open_closed hev.hold hs ho hq) hfd
  have ht₁ := (open_sound hev.hold hs ho).tidy
  have hopen : w₁.con.fd ≠ -1 := by
    intro hclosed
    rw [World.recv, if_pos hclosed] at hr
    obtain ⟨rfl, rfl⟩ := Prod.mk.inj (Option.some.inj hr)
    rcases hor with ⟨-, w₃, hc, hloop⟩ | ⟨h0, -⟩
    · obtain rfl : World.closed w₁ = w₃ := Option.some.inj hc
      rw [pollLoop_closed (disconnect_tidy ht₁) (disconnect_fd ht₁)] at hloop
      exact hfd (Option.some.inj hloop ▸ disconnect_fd ht₁)
    · cases h0
  have hsame : ∀ {ev' : Handlers}, ducOpen ev' w = some (0, w₁) → ducPoll ev' w = ducPoll ev' w₁ := by
    intro ev' ho'
    have hw₁ : ducOpen ev' w₁ = some (0, w₁) := if_pos hopen
    simp only [ducPoll, ho', hw₁]
  rw [hsame ho] at h
  rw [hsame (open_held hs.tidy ho)]
  exact (poll_hands hopen ht₁).held h hfd

/-! ## Nothing left behind -/

/-- Nothing deliverable is left behind: a command that is refused finds none, and one that is sent needs
no packet with a complete broadcast line behind the last line of the reply. -/
def Cmd.LeavesNone (ev : Handlers) (w : World) (c : Cmd ρ) : Prop :=
  if w.inreply then newsIn w.con.unread = []
  else ∀ w₁ t, ducOpen ev w = some (0, w₁) → c.text = some t →
    if t.length < BUFLENLINE - 1 then ∃ f, w₁.feed.Reply [] f ∧ newsIn f.unread = []
    else newsIn w₁.con.unread = []

theorem Left.held (h : Left ev.hold w fmt ap v) (ht : w.con.Tidy) : Left ev w fmt ap v := by
  rcases h with h | ⟨hin, w₁, t, ho, hor⟩
  · exact Or.inl h
  · exact Or.inr ⟨hin, w₁, t, open_held ht ho, hor⟩

theorem Left.news_iff {c : Cmd ρ} (h : Left ev w c.fmt c.args v) :
    newsIn v.con.unread = [] ↔ c.LeavesNone ev w := by
  unfold Cmd.LeavesNone
  rcases h with ⟨hin, rfl⟩ | ⟨hin, w₁, t, ho, ht, hor⟩
  · rw [if_pos hin]
  rw [hin, if_neg Bool.false_ne_true]
  have huniq : ∀ w₂ t₂, ducOpen ev w = some (0, w₂) → c.text = some t₂ → w₂ = w₁ ∧ t₂ = t := by
    intro w₂ t₂ ho₂ ht₂
    exact ⟨(Prod.mk.inj (Option.some.inj (ho₂.symm.trans ho))).2,
      Option.some.inj (ht₂.symm.trans ht)⟩
  rcases hor with ⟨hlen, rfl⟩ | ⟨hlen, hrep⟩
  · constructor
    · intro hnone w₂ t₂ ho₂ ht₂
      obtain ⟨rfl, rfl⟩ := huniq w₂ t₂ ho₂ ht₂
      rwa [if_neg (by omega)]
    · intro hall
      have := hall v t ho ht
      rwa [if_neg (by omega)] at this
  · constructor
    · intro hnone w₂ t₂ ho₂ ht₂
      obtain ⟨rfl, rfl⟩ := huniq w₂ t₂ ho₂ ht₂
      rw [if_pos hlen]
      exact ⟨v.feed, hrep, hnone⟩
    · intro hall
      have := hall w₁ t ho ht
      rw [if_pos hlen] at this
      obtain ⟨f, hf, hnone⟩ := this
      obtain rfl := hf.unique hrep
      exact hnone

/-- **What is left behind.** After any run of calls, let a call not lose the connection: it returns with the
connection open where a lost one is left closed, and then does so with the handlers `ev`. A command leaves no
complete broadcast line unread just when the packets it needs for its reply carry none behind the last line;
`duc_poll` leaves none. -/
theorem left_behind_iff {τ : Type} (hev : ev.KeepSound) (dials : List Dial) {calls : List (Call τ)}
    (hr : runs (callStep ev) (newWorld dials) calls = some w) (hfd : v.con.fd ≠ -1) :
    (∀ (c : Cmd ρ) res, runCmd ev.hold w c = some (res, v) → runCmd ev w c = some (res, v) ∧
      (newsIn v.con.unread = [] ↔ c.LeavesNone ev w)) ∧
    (ducPoll ev.hold w = some v → ducPoll ev w = some v ∧ newsIn v.con.unread = []) := by
  have hs := runs_sound hev dials hr
  refine ⟨fun c res h => ⟨runCmd_held hev hs h hfd, ?_⟩, fun h => ⟨poll_held hev hs h hfd, ?_⟩⟩
  · exact ((runCmd_left hev.hold ev.hold_quiet hs h hfd).held hs.tidy).news_iff
  · exact newsIn_of_free (poll_free hev.hold ev.hold_quiet hs h hfd)

/-- A server that greets and then sends `packet`. -/
def newsServer (packet : String) : Dial :=
  .made 3 [some (Cstr.lit "220 dudld 1 2\n").bytes, some (Cstr.lit packet).bytes] []

/-- **A broadcast is left behind**, in the packet of the reply. -/
theorem left_behind_news : ∃ w res v,
    runs (callStep .passive) (newWorld [newsServer "250 ok\n640 x\n"]) [(.open : Call Unit)] = some w ∧
    runCmd .passive w (⟨.succ, .lit "pause", []⟩ : Cmd Unit) = some (res, v) ∧ v.con.fd ≠ -1 ∧
    newsIn v.con.unread = [(Cstr.lit "640 x").bytes] := by
  have hrun : ((runs (callStep .passive) (newWorld [newsServer "250 ok\n640 x\n"])
      [(.open : Call Unit)]).bind fun w => (runCmd .passive w (⟨.succ, .lit "pause", []⟩ : Cmd Unit)).map
        fun p => (p.2.con.fd, newsIn p.2.con.unread)) = some (3, [(Cstr.lit "640 x").bytes]) := by
    decide +kernel
  obtain ⟨w, hw, hrun⟩ := Option.bind_eq_some_iff.1 hrun
  obtain ⟨⟨res, v⟩, hv, heq⟩ := Option.map_eq_some_iff.1 hrun
  obtain ⟨hfd, hnews⟩ := Prod.mk.inj heq
  exact ⟨w, res, v, hw, hv, by rw [hfd]; decide, hnews⟩

/-- The theorem where the broadcast comes before the reply, with handlers that connect again. -/
theorem left_behind_iff_before : ∃ w,
    runs (callStep Handlers.passive.again) (newWorld [newsServer "640 x\n250 ok\n"])
      [(.open : Call Unit)] = some w ∧
    (⟨.succ, .lit "pause", []⟩ : Cmd Unit).LeavesNone Handlers.passive.again w := by
  have hrun : ((runs (callStep Handlers.passive.again) (newWorld [newsServer "640 x\n250 ok\n"])
      [(.open : Call Unit)]).bind fun w =>
        (runCmd Handlers.passive.again.hold w (⟨.succ, .lit "pause", []⟩ : Cmd Unit)).map
          fun p => (p.2.con.fd, newsIn p.2.con.unread)) = some (3, []) := by
    decide +kernel
  obtain ⟨w, hw, hrun⟩ := Option.bind_eq_some_iff.1 hrun
  obtain ⟨⟨res, v⟩, hv, heq⟩ := Option.map_eq_some_iff.1 hrun
  obtain ⟨hfd, hnews⟩ := Prod.mk.inj heq
  have hopen : v.con.fd ≠ -1 := by rw [hfd]; decide
  obtain ⟨-, hiff⟩ := (left_behind_iff Handlers.keepSound_passive.again _ hw hopen).1 _ res hv
  exact ⟨w, hw, hiff.1 hnews⟩

end Dudlc
