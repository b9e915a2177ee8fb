import Dudlc.Closed
import Dudlc.Stream

/-!
# Reading any stream

Whatever a server sends, and in whatever packets, the functions that read replies depend on the unread
bytes of the buffer and on the packets to come only.

* `DucSock.unread`, `DucSock.Sound`, `World.feed`: what is still to be read.
* `Feed.Next`, `Feed.Reply`: the next line that is no broadcast, and a whole reply, read packet by packet.
* `rnext_feed`, `rlast_feed`: the loops of `proto.c` read so.
* `callStep_sound`, **`runs_sound`**: the buffer is in order after every run of calls.
-/

namespace Dudlc

open Lib

variable {ρ : Type} {ev : Handlers} {s con : DucSock} {w w' v : World} {r : ℤ} {taken u : List UInt8}

/-! ## Unread bytes -/

/-- The bytes received that `duc_sock_getline` has not handed out. -/
def DucSock.unread (s : DucSock) : List UInt8 := (s.buf.cells.take s.ilen).drop s.llen

theorem Holds.unread_eq (h : Holds s taken u) : s.unread = u := by
  obtain ⟨x, junk, hc, -⟩ := h.cells_eq
  rw [DucSock.unread, hc, h.ilen_eq, h.llen_eq, ← List.append_assoc, ← List.length_append,
    List.take_left, List.drop_left]

/-- The socket is in order. -/
structure DucSock.Sound (s : DucSock) : Prop where
  tidy : s.Tidy
  holds : ∃ taken, Holds s taken s.unread

theorem Holds.sound (h : Holds s taken u) (ht : s.Tidy) : s.Sound :=
  ⟨ht, taken, h.unread_eq.symm ▸ h⟩

theorem sound_empty (ht : s.Tidy) (hi : s.ilen = 0) (hl : s.llen = 0) : s.Sound :=
  (holds_nil hi hl).sound ht

theorem disconnect_sound (h : s.Sound) : (ducSockDisconnect s).Sound := by
  have ht := disconnect_tidy h.tidy
  unfold ducSockDisconnect at ht ⊢
  split_ifs at ht ⊢ with hfd
  · exact h
  · exact sound_empty ht rfl rfl

theorem unread_closed (h : s.Tidy) (hfd : s.fd = -1) : s.unread = [] := by
  rw [DucSock.unread, (h.empty hfd).1, List.take_zero, List.drop_nil]

theorem getline_cases {l : Option ℕ} (h : Holds s taken u) (hg : ducSockGetline s = some (l, con)) :
    (l = none ∧ (∀ b ∈ u, isStop b = false) ∧ Holds con [] u) ∨
      ∃ t r e, l = some 0 ∧ nextLine isStop isEol u = some (t, r) ∧ 0 ∉ t ∧ Holds con (t ++ 0 :: e) r := by
  have hlen : (∀ b ∈ u, isStop b = false) → u.length < BUFLENRCV - 1 := by
    intro hu
    by_contra hge
    have hlt := h.length_lt
    rw [getline_of_full h hu (by omega)] at hg
    cases hg
  rcases getline_nextLine h hlen with ⟨hnone, s', hg', hs', -⟩ | ⟨t, r, e, hsome, hfree, s', hg', hs', -⟩
  · obtain ⟨rfl, rfl⟩ := Prod.mk.inj (Option.some.inj (hg'.symm.trans hg))
    exact Or.inl ⟨rfl, nextLine_eq_none.1 hnone, hs'⟩
  · obtain ⟨rfl, rfl⟩ := Prod.mk.inj (Option.some.inj (hg'.symm.trans hg))
    exact Or.inr ⟨t, r, e, rfl, hsome, hfree, hs'⟩

/-! ## Reading packet by packet -/

/-- The unread bytes of the buffer, and the packets to come. -/
structure Feed where
  unread : List UInt8
  recvs : List Recv
  deriving DecidableEq

/-- What is still to be read. -/
def World.feed (w : World) : Feed := ⟨w.con.unread, w.recvs⟩

/-- The next line that is no broadcast, and what is left behind it. Packets are received one by one, and
only as long as no line is complete. -/
inductive Feed.Next : Feed → List UInt8 → Feed → Prop
  | line {u l r : List UInt8} {rs : List Recv} : nextLine isStop isEol u = some (l, r) →
      4 ≤ l.length → isBcast l = false → Next ⟨u, rs⟩ l ⟨r, rs⟩
  | bcast {u b r l : List UInt8} {rs : List Recv} {f : Feed} : nextLine isStop isEol u = some (b, r) →
      4 ≤ b.length → isBcast b = true → Next ⟨r, rs⟩ l f → Next ⟨u, rs⟩ l f
  | recv {u bs l : List UInt8} {rs rs' : List Recv} {f : Feed} : (∀ b ∈ u, isStop b = false) →
      nextPacket (BUFLENRCV - u.length - 1) rs = some (bs, rs') → Next ⟨u ++ bs, rs'⟩ l f →
      Next ⟨u, rs⟩ l f

/-- The lines of a reply up to its last one, where the code `c` has been read already, and what is left
behind them. -/
inductive Feed.Reply : Feed → List UInt8 → Feed → Prop
  | last {f f' : Feed} {c l : List UInt8} : Next f l f' → (c ≠ [] → c.take 3 = l.take 3) →
      l[3]? ≠ some 45 → Reply f c f'
  | more {f f₁ f' : Feed} {c l : List UInt8} : Next f l f₁ → (c ≠ [] → c.take 3 = l.take 3) →
      l[3]? = some 45 → Reply f₁ (if c = [] then l.take 3 else c) f' → Reply f c f'

theorem Feed.Next.unique {f f₁ f₂ : Feed} {l₁ l₂ : List UInt8} (h₁ : f.Next l₁ f₁) (h₂ : f.Next l₂ f₂) :
    l₁ = l₂ ∧ f₁ = f₂ := by
  induction h₁ with
  | line hn _ hb =>
    cases h₂ with
    | line hn' =>
      obtain ⟨rfl, rfl⟩ := Prod.mk.inj (Option.some.inj (hn.symm.trans hn'))
      exact ⟨rfl, rfl⟩
    | bcast hn' _ hb' =>
      obtain ⟨rfl, rfl⟩ := Prod.mk.inj (Option.some.inj (hn.symm.trans hn'))
      rw [hb] at hb'
      cases hb'
    | recv hu =>
      rw [nextLine_of_none hu] at hn
      cases hn
  | bcast hn _ hb _ ih =>
    cases h₂ with
    | line hn' _ hb' =>
      obtain ⟨rfl, rfl⟩ := Prod.mk.inj (Option.some.inj (hn.symm.trans hn'))
      rw [hb] at hb'
      cases hb'
    | bcast hn' _ _ h' =>
      obtain ⟨rfl, rfl⟩ := Prod.mk.inj (Option.some.inj (hn.symm.trans hn'))
      exact ih h'
    | recv hu =>
      rw [nextLine_of_none hu] at hn
      cases hn
  | recv hu hp _ ih =>
    cases h₂ with
    | line hn' =>
      rw [nextLine_of_none hu] at hn'
      cases hn'
    | bcast hn' =>
      rw [nextLine_of_none hu] at hn'
      cases hn'
    | recv _ hp' h' =>
      obtain ⟨rfl, rfl⟩ := Prod.mk.inj (Option.some.inj (hp.symm.trans hp'))
      exact ih h'

theorem Feed.Reply.unique {c : List UInt8} {f f₁ f₂ : Feed} (h₁ : f.Reply c f₁) (h₂ : f.Reply c f₂) :
    f₁ = f₂ := by
  induction h₁ with
  | last hn _ hdash =>
    cases h₂ with
    | last hn' => exact (hn.unique hn').2
    | more hn' _ hdash' =>
      obtain ⟨rfl, rfl⟩ := hn.unique hn'
      exact absurd hdash' hdash
  | more hn _ hdash _ ih =>
    cases h₂ with
    | last hn' _ hdash' =>
      obtain ⟨rfl, rfl⟩ := hn.unique hn'
      exact absurd hdash hdash'
    | more hn' _ _ h' =>
      obtain ⟨rfl, rfl⟩ := hn.unique hn'
      exact ih h'

/-! ## The loops of the session -/

theorem feed_eq (h : Holds w.con taken u) : w.feed = ⟨u, w.recvs⟩ := by
  rw [World.feed, h.unread_eq]

theorem recv_feed (hu : Holds w.con [] u) (ht : w.con.Tidy) (hroom : 1 ≤ w.con.room)
    (h : w.recv = some (0, v)) : v.con.Sound ∧ ∃ bs rs,
      nextPacket (BUFLENRCV - u.length - 1) w.recvs = some (bs, rs) ∧ v.feed = ⟨u ++ bs, rs⟩ := by
  have hfd : w.con.fd ≠ -1 := by
    intro hfd
    rw [World.recv, if_pos hfd] at h
    cases h
  have hi : w.con.ilen = u.length := by rw [hu.ilen_eq]; simp
  cases hp : nextPacket w.con.room w.recvs with
  | none =>
    rw [recv_end hfd (incoming_end hp)] at h
    cases h
  | some p =>
    obtain ⟨con, hr, hcon, hfd'⟩ := recv_packet hu hfd hroom hp
    obtain ⟨-, rfl⟩ := Prod.mk.inj (Option.some.inj (h.symm.trans hr))
    rw [DucSock.room, hi] at hp
    refine ⟨hcon.sound ⟨hfd'.symm ▸ ht.fd, fun h => absurd (hfd'.symm.trans h) hfd⟩, p.1, p.2, hp, ?_⟩
    exact feed_eq (w := { w with con, recvs := p.2, rooms := _ }) hcon

theorem getline_feed {t : List UInt8} {i : ℕ} (hs : w.con.Sound)
    (hg : ducSockGetline w.con = some (some i, con)) (ht : cstr con.buf i = some t) :
    i = 0 ∧ con.Sound ∧ (4 ≤ t.length → cstr con.buf 4 = some (t.drop 4)) ∧
      ∃ r, nextLine isStop isEol w.con.unread = some (t, r) ∧ con.unread = r := by
  obtain ⟨taken, hu⟩ := hs.holds
  rcases getline_cases hu hg with ⟨h, -⟩ | ⟨t', r, e, h, hnext, hfree, hcon⟩
  · cases h
  · obtain rfl := Option.some.inj h
    have h0 := cstr_line hcon hfree 0 (Nat.zero_le _)
    rw [ht] at h0
    obtain rfl : t = t' := Option.some.inj h0
    exact ⟨rfl, hcon.sound (getline_tidy hg hs.tidy), cstr_line hcon hfree 4, r, hnext, hcon.unread_eq⟩

theorem getline_none_feed (hs : w.con.Sound) (hg : ducSockGetline w.con = some (none, con)) :
    con.Sound ∧ (∀ b ∈ w.con.unread, isStop b = false) ∧ Holds con [] w.con.unread := by
  obtain ⟨taken, hu⟩ := hs.holds
  rcases getline_cases hu hg with ⟨-, hfree, hcon⟩ | ⟨_, _, _, h, -⟩
  · exact ⟨hcon.sound (getline_tidy hg hs.tidy), hfree, hcon⟩
  · cases h

theorem rnextBody_more (hs : w.con.Sound) (h : rnextBody ev w = some (.inl v)) :
    v.con.Sound ∧ ∀ l f, v.feed.Next l f → w.feed.Next l f := by
  rcases rnextBody_cases h with ⟨i, t, con, hg, ht, h⟩ | ⟨con, r, w₁, hg, hr, h⟩
  · obtain ⟨-, hcon, -, q, hnext, hq⟩ := getline_feed hs hg ht
    rcases h with ⟨-, _, -, h⟩ | ⟨-, -, h⟩ | ⟨hlen, hb, h⟩ <;> cases h
    refine ⟨hcon, fun l f hf => ?_⟩
    rw [show (ducBcast { w with con := con } t).feed = ⟨q, w.recvs⟩ from hq ▸ rfl] at hf
    exact .bcast hnext hlen hb hf
  · obtain ⟨hcon, hfree, hu⟩ := getline_none_feed hs hg
    rcases h with ⟨-, _, -, h⟩ | ⟨rfl, h⟩ <;> cases h
    obtain ⟨hv, bs, rs, hp, hfeed⟩ := recv_feed (w := { w with con := con }) hu hcon.tidy
      ((getline_fd hg).2 rfl) hr
    refine ⟨hv, fun l f hf => ?_⟩
    rw [hfeed] at hf
    exact .recv hfree hp hf

/-- **The loop in `_duc_rnext`** takes the next line that is no broadcast. -/
theorem rnextLoop_feed {i : ℕ} {l : List UInt8} (hs : w.con.Sound)
    (h : rnextLoop ev w = some (some (i, l), v)) :
    i = 0 ∧ v.con.Sound ∧ 4 ≤ l.length ∧ cstr v.con.buf 4 = some (l.drop 4) ∧
      w.feed.Next l v.feed := by
  refine loop_partial (fun u => u.con.Sound ∧ ∀ l f, u.feed.Next l f → w.feed.Next l f)
    (fun b : Option (ℕ × List UInt8) × World => ∀ i l, b.1 = some (i, l) → i = 0 ∧ b.2.con.Sound ∧
      4 ≤ l.length ∧ cstr b.2.con.buf 4 = some (l.drop 4) ∧ w.feed.Next l b.2.feed)
    ?_ ?_ _ w _ ⟨hs, fun _ _ => id⟩ h i l rfl
  · rintro u u' ⟨hu, hnext⟩ hb
    obtain ⟨hu', hnext'⟩ := rnextBody_more hu hb
    exact ⟨hu', fun l f hf => hnext l f (hnext' l f hf)⟩
  · rintro u b ⟨hu, hnext⟩ hb i l hl
    rcases rnextBody_cases hb with ⟨j, t, con, hg, ht, h⟩ | ⟨con, r, w₁, -, -, h⟩
    · obtain ⟨rfl, hcon, h4, q, hline, hq⟩ := getline_feed hu hg ht
      rcases h with ⟨-, _, -, h⟩ | ⟨hlen, hnot, h⟩ | ⟨-, -, h⟩ <;> cases h
      · cases hl
      · obtain ⟨rfl, rfl⟩ := Prod.mk.inj (Option.some.inj hl)
        refine ⟨rfl, hcon, hlen, h4 hlen, hnext t _ ?_⟩
        rw [show World.feed { u with con := con } = ⟨q, u.recvs⟩ from hq ▸ rfl]
        exact .line hline hlen hnot
    · rcases h with ⟨-, _, -, h⟩ | ⟨-, h⟩ <;> cases h
      cases hl

/-- **`_duc_rnext`** takes the next line of the reply. -/
theorem rnext_feed (hs : w.con.Sound) (h : ducRnext ev w = some (0, v)) :
    w.inreply = true ∧ v.con.Sound ∧ ∃ l, 4 ≤ l.length ∧ w.feed.Next l v.feed ∧
      (w.code ≠ [] → w.code.take 3 = l.take 3) ∧ v.rline = some (l.drop 4) ∧
      v.inreply = decide (l[3]? = some 45) ∧ v.code = if w.code = [] then l.take 3 else w.code := by
  rcases ducRnext_cases h with ⟨-, h, -⟩ | ⟨-, -, h⟩ | ⟨i, l, w₁, hin, hloop, ⟨-, -, h, -⟩ | ⟨hc, -, rfl⟩⟩
  · cases h
  · cases h
  · cases h
  · obtain ⟨rfl, hcon, hlen, h4, hnext⟩ := rnextLoop_feed hs hloop
    obtain ⟨u, -, ⟨-, rfl, -, -, hcode, -⟩ | ⟨hnone, -⟩⟩ := rnextLoop_onward hloop
    · rw [hcode] at hc
      refine ⟨hin, hcon, l, hlen, hnext, hc, h4, rfl, ?_⟩
      simp only [hcode]
    · cases hnone

theorem rnext_closed (hev : ev.Quiet) (ht : w.con.Tidy) (hin : w.inreply = true) (hfd : w.con.fd = -1) :
    ducRnext ev w = some (-1, w.closed) := by
  obtain ⟨hi, hl⟩ := ht.empty hfd
  have hg : ducSockGetline w.con = some (none, w.con) := by
    simp [ducSockGetline, freeline, hl, hi]
  have hr : World.recv w = some (-1, w) := if_pos hfd
  have hb : rnextBody ev w = some (.inr (none, w.closed)) := by
    simp [rnextBody, hg, hr, close_quiet hev]
  have hloop : rnextLoop ev w = some (none, w.closed) := loop_succ_inr hb
  simp [ducRnext, hin, hloop]

/-- Reading to the end of the reply that is due, if one is, leaves `f` to be read. -/
def World.Ends (w : World) (f : Feed) : Prop :=
  if w.inreply then w.feed.Reply w.code f else f = w.feed

theorem World.ends_reply {f : Feed} (h : w.inreply = true) : w.Ends f ↔ w.feed.Reply w.code f := by
  rw [World.Ends, if_pos h]

theorem World.ends_idle {f : Feed} (h : w.inreply = false) : w.Ends f ↔ f = w.feed := by
  rw [World.Ends, h, if_neg Bool.false_ne_true]

theorem rnext_ends {f : Feed} (hs : w.con.Sound) (h : ducRnext ev w = some (0, v)) (hv : v.Ends f) :
    w.Ends f := by
  obtain ⟨hin, -, l, -, hnext, hc, -, hdash, hcode⟩ := rnext_feed hs h
  rw [World.ends_reply hin]
  by_cases h3 : l[3]? = some 45
  · rw [decide_eq_true h3] at hdash
    rw [World.ends_reply hdash, hcode] at hv
    exact .more hnext hc h3 hv
  · rw [decide_eq_false h3] at hdash
    rw [World.ends_idle hdash] at hv
    exact hv ▸ .last hnext hc h3

/-! ## The buffer stays in order -/

/-- Handlers that leave the buffer in order. -/
structure Handlers.KeepSound (ev : Handlers) : Prop where
  connect : ∀ w w', w.con.Sound → ev.connect w = some w' → w'.con.Sound
  disconnect : ∀ w w', w.con.Sound → ev.disconnect w = some w' → w'.con.Sound

theorem Handlers.keepSound_passive : Handlers.passive.KeepSound :=
  ⟨fun _ _ hs h => Option.some.inj h ▸ hs, fun _ _ hs h => Option.some.inj h ▸ hs⟩

theorem close_sound (hev : ev.KeepSound) (hs : w.con.Sound) (h : ducClose ev w = some v) : v.con.Sound :=
  hev.disconnect _ _ (disconnect_sound hs) h

theorem recv_sound (hs : w.con.Sound) (h : w.recv = some (r, v)) : v.con.Sound := by
  by_cases hfd : w.con.fd = -1
  · rw [World.recv, if_pos hfd] at h
    obtain ⟨-, rfl⟩ := Prod.mk.inj (Option.some.inj h)
    exact hs
  rw [recv_eq hfd] at h
  obtain ⟨p, hp, heq⟩ := Option.map_eq_some_iff.1 h
  obtain ⟨-, rfl⟩ := Prod.mk.inj heq
  rcases hg : (w.toNet.read w.con.room).1 with _ | _ | ⟨b, bs⟩ <;> rw [hg] at hp
  · rw [ducSockRecv, if_neg hfd] at hp
    exact Option.some.inj hp ▸ hs
  · rw [ducSockRecv, if_neg hfd] at hp
    exact Option.some.inj hp ▸ disconnect_sound hs
  · obtain ⟨taken, hu⟩ := hs.holds
    obtain ⟨con, hcon, hu', -⟩ := recv_holds hu hfd (List.cons_ne_nil b bs) (read_fits _ _ hg)
    have ht := recv_tidy hp hs.tidy
    obtain rfl := Option.some.inj (hp.symm.trans hcon)
    exact hu'.sound ht

theorem rnextLoop_sound {l : Option (ℕ × List UInt8)} (hev : ev.KeepSound) (hs : w.con.Sound)
    (h : rnextLoop ev w = some (l, v)) : v.con.Sound := by
  refine loop_partial (fun u => u.con.Sound) (fun b : Option (ℕ × List UInt8) × World => b.2.con.Sound)
    ?_ ?_ _ w _ hs h
  · exact fun u u' hu hb => (rnextBody_more hu hb).1
  · intro u b hu hb
    rcases rnextBody_cases hb with ⟨i, t, con, hg, ht, h⟩ | ⟨con, r, w₁, hg, hr, h⟩
    · obtain ⟨-, hcon, -⟩ := getline_feed hu hg ht
      rcases h with ⟨-, w', hc, h⟩ | ⟨-, -, h⟩ | ⟨-, -, h⟩ <;> cases h
      · exact close_sound hev (by exact hcon) hc
      · exact hcon
    · obtain ⟨hcon, -⟩ := getline_none_feed hu hg
      rcases h with ⟨-, w', hc, h⟩ | ⟨-, h⟩ <;> cases h
      exact close_sound hev (recv_sound (by exact hcon) hr) hc

theorem rnext_sound (hev : ev.KeepSound) (hs : w.con.Sound) (h : ducRnext ev w = some (r, v)) :
    v.con.Sound := by
  rcases ducRnext_cases h with ⟨-, -, rfl⟩ | ⟨-, hloop, -⟩ | ⟨i, l, w₁, -, hloop, h⟩
  · exact hs
  · exact rnextLoop_sound hev hs hloop
  · have hw₁ := rnextLoop_sound hev hs hloop
    rcases h with ⟨-, -, -, hc⟩ | ⟨-, -, rfl⟩
    · exact close_sound hev (by exact hw₁) hc
    · exact hw₁

/-- **`_duc_rlast`** reads the rest of the reply where it succeeds. -/
theorem rlast_feed (hev : ev.KeepSound) (hs : w.con.Sound) (h : ducRlast ev w = some (r, v)) :
    (r = 0 ∧ w.Ends v.feed) ∨ r = -1 := by
  refine ducRlast_rule (I := fun u => u.con.Sound ∧ ∀ f, u.Ends f → w.Ends f)
    (Q := fun r u => (r = 0 ∧ w.Ends u.feed) ∨ r = -1) ⟨hs, fun _ => id⟩ ?_ ?_ ?_ h
  · rintro u u' ⟨hu, hends⟩ hr
    exact ⟨rnext_sound hev hu hr, fun f hf => hends f (rnext_ends hu hr hf)⟩
  · rintro u ⟨-, hends⟩ hin
    exact Or.inl ⟨rfl, hends _ ((World.ends_idle hin).2 rfl)⟩
  · exact fun _ _ _ _ => Or.inr rfl

theorem vsendSend_sound {cmd : List UInt8} (hev : ev.KeepSound) (hs : w.con.Sound)
    (h : vsendSend ev w cmd = some (r, v)) : v.con.Sound := by
  obtain ⟨q, w₁, hsend, hor⟩ := vsendSend_cases h
  obtain ⟨_, _, rfl⟩ := send_eq hsend
  rcases hor with ⟨-, -, rfl⟩ | ⟨-, -, hc⟩
  · exact hs
  · exact close_sound hev (by exact hs) hc

theorem Handlers.KeepSound.keeps (hev : ev.KeepSound) :
    ev.Keeps fun w v => w.con.Sound → v.con.Sound where
  refl _ := id
  trans h h' hw := h' (h hw)
  rnext h hw := rnext_sound hev hw h
  send h hw := vsendSend_sound hev hw h
  version _ _ _ hw := hw

theorem connect_sound (hs : w.con.Sound) (hfd : w.con.fd = -1) (h : ducSockConnect w = (r, v)) :
    v.con.Sound := by
  have ht := connect_tidy hfd hs.tidy h
  obtain ⟨hi, hl⟩ := hs.tidy.empty hfd
  rcases connect_cases hfd h with ⟨-, ds, rfl | rfl⟩ | ⟨-, fd, rs, ss, ds, -, rfl⟩
  · exact hs
  · exact sound_empty ht rfl rfl
  · exact sound_empty ht hi hl

theorem open_sound (hev : ev.KeepSound) (hs : w.con.Sound) (h : ducOpen ev w = some (r, v)) :
    v.con.Sound := by
  rcases ducOpen_cases h with ⟨-, -, rfl⟩ | ⟨q, w₁, hfd, hc, hor⟩
  · exact hs
  have hw₁ := connect_sound hs hfd hc
  rcases hor with ⟨-, -, rfl⟩ | ⟨ok, w₂, -, hello, hor⟩
  · exact hw₁
  have hw₂ : w₂.con.Sound := hev.keeps.hello hello hw₁
  rcases hor with ⟨-, -, hconnect⟩ | ⟨-, -, rfl⟩
  · exact hev.connect _ _ (by exact hw₂) hconnect
  · exact disconnect_sound hw₂

theorem pollLoop_sound (hev : ev.KeepSound) (hs : w.con.Sound) (h : pollLoop ev w = some v) :
    v.con.Sound := by
  refine pollLoop_rule (I := fun u => u.con.Sound) (Q := fun u => u.con.Sound) hs ?_ ?_ ?_ ?_ h
  · intro u i t con hu hg ht _ _
    exact (getline_feed hu hg ht).2.1
  · intro u i t con hu hg ht _ _
    exact (getline_feed hu hg ht).2.1
  · intro u con hu hg
    exact (getline_none_feed hu hg).1
  · intro u i t con u' hu hg ht _ hc
    exact close_sound hev (by exact (getline_feed hu hg ht).2.1) hc

theorem poll_sound (hev : ev.KeepSound) (hs : w.con.Sound) (h : ducPoll ev w = some v) : v.con.Sound := by
  obtain ⟨q, w₁, ho, hor⟩ := ducPoll_cases h
  have hw₁ := open_sound hev hs ho
  rcases hor with ⟨-, rfl⟩ | ⟨r, w₂, -, hr, hor⟩
  · exact hw₁
  have hw₂ := recv_sound hw₁ hr
  rcases hor with ⟨-, w₃, hc, hloop⟩ | ⟨-, hloop⟩
  · exact pollLoop_sound hev (close_sound hev hw₂ hc) hloop
  · exact pollLoop_sound hev hw₂ hloop

/-- **Every call leaves the buffer in order.** -/
theorem callStep_sound (hev : ev.KeepSound) (hs : w.con.Sound) {c : Call ρ}
    (h : callStep ev w c = some v) : v.con.Sound := by
  cases c with
  | «open» =>
    obtain ⟨⟨r, u⟩, ho, rfl⟩ := Option.map_eq_some_iff.1 h
    exact open_sound hev hs ho
  | close => exact close_sound hev hs h
  | poll => exact poll_sound hev hs h
  | setauth user pass => exact Option.some.inj h ▸ hs
  | cmd c =>
    obtain ⟨⟨res, u⟩, hc, rfl⟩ := Option.map_eq_some_iff.1 h
    exact hev.keeps.runCmd (fun q v _ ho hw => open_sound hev hw ho) hc hs

/-- **So does every run of calls of a new session.** -/
theorem runs_sound (hev : ev.KeepSound) (dials : List Dial) {calls : List (Call ρ)}
    (h : runs (callStep ev) (newWorld dials) calls = some w) : w.con.Sound :=
  runs_keep (I := fun u : World => u.con.Sound) (fun _ _ _ hu hc => callStep_sound hev hu hc)
    (sound_empty (newWorld_tidy dials).con rfl rfl) h

end Dudlc
