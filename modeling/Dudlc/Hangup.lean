import Dudlc.Behind
import Dudlc.Handover

/-!
# The end of a stream

* `Ending`: the packets of a stream that the server closes; `newsIn_wire`.
* `Still`, `Came`: how far a session has come on such a stream; `rnextLoop_came`, `pollLoop_still`.
* `Handlers.Quiet.keeps`, `poll_came`: a command, and `duc_poll`, on such a stream.
* **`news_delivered_iff`**: every broadcast of the stream is dispatched once, before the connection is
  closed, just when no `duc_poll` meets the end of the stream before it has read the buffer.
-/

namespace Dudlc

open Lib

variable {ρ : Type} {ev : Handlers} {w w' u v : World} {r : ℤ} {ls ms : List (List UInt8)}
  {l part : List UInt8} {c : Call ρ}

/-! ## Streams that end -/

/-- Packets, and then the server closes the connection. -/
inductive Ending : List Recv → Prop
  | close : Ending [some []]
  | packet {b : UInt8} {bs : List UInt8} {rs : List Recv} : Ending rs → Ending (some (b :: bs) :: rs)

theorem Ending.next {room : ℕ} {recvs rs : List Recv} {bs : List UInt8} (h : Ending recvs)
    (hp : nextPacket room recvs = some (bs, rs)) : Ending rs := by
  cases h with
  | close => cases hp
  | packet h =>
    rename_i b cs qs
    rw [nextPacket] at hp
    split_ifs at hp with hfit <;> obtain ⟨-, rfl⟩ := Prod.mk.inj (Option.some.inj hp)
    · exact h
    · obtain ⟨d, ds, hd⟩ : ∃ d ds, (b :: cs).drop room = d :: ds :=
        List.exists_cons_of_ne_nil (by rw [ne_eq, List.drop_eq_nil_iff]; omega)
      rw [hd]
      exact .packet h

theorem Ending.last {recvs : List Recv} (h : Ending recvs) (hin : incoming recvs = []) :
    recvs = [some []] := by
  cases h with
  | close => rfl
  | packet h =>
    rw [incoming] at hin
    cases hin

theorem Ending.ne_nil (h : Ending []) : False := by cases h

theorem newsIn_wire (hls : ∀ l ∈ ls, WireLine 4 l) (hpart : ∀ b ∈ part, isStop b = false) :
    newsIn (wire LF ls ++ part) = ls.filter isBcast := by
  induction ls with
  | nil => exact newsIn_of_free (by simpa using hpart)
  | cons l ls ih =>
    have hl := hls l List.mem_cons_self
    have hfirst := List.splitOnP_append_cons_of_forall_mem (p := isStop) hl.free LF isStop_LF
      (wire LF ls ++ part)
    have hne : (wire LF ls ++ part).splitOnP isStop ≠ [] := List.splitOnP_ne_nil _ _
    have ih := ih fun k hk => hls k (List.mem_cons_of_mem l hk)
    rw [newsIn] at ih ⊢
    rw [wire_cons, List.append_assoc, List.cons_append, hfirst, List.dropLast_cons_of_ne_nil hne,
      List.filter_cons, List.filter_cons, ih, decide_eq_true hl.min, Bool.and_true]

theorem stream_news (h : Stream w ls part) (hin : incoming w.recvs = []) :
    newsIn w.con.unread = ls.filter isBcast := by
  obtain ⟨taken, u, hu, hstream⟩ := h.holds
  rw [hin, List.append_nil] at hstream
  rw [hu.unread_eq, hstream, newsIn_wire h.lines h.part_free]

/-! ## How far a session has come -/

/-- Some lines of the stream have been read, and the broadcasts among them dispatched. -/
def Still (w : World) (ls : List (List UInt8)) (part : List UInt8) (v : World) : Prop :=
  ∃ used ls', ls = used ++ ls' ∧ v.log = w.log ++ (used.filter isBcast).map .bcast ∧
    Stream v ls' part ∧ Ending v.recvs ∧ v.con.Tidy

/-- Every broadcast of the stream has been dispatched, once and in order, and then the connection was
closed. -/
def Delivered (w : World) (ls : List (List UInt8)) (v : World) : Prop :=
  ∃ k, v.log = w.log ++ (ls.filter isBcast).map .bcast ++ List.replicate (k + 1) .disconnect

/-- The session is on the stream, has lost the connection before the end of the stream, or has come to
the end and delivered what was sent. -/
inductive Came (w : World) (ls : List (List UInt8)) (part : List UInt8) (v : World) : Prop
  | still : Still w ls part v → Came w ls part v
  | torn : v.con.fd = -1 → Ending v.recvs → Came w ls part v
  | ended : v.con.fd = -1 → v.recvs = [] → Delivered w ls v → Came w ls part v

theorem Still.refl (h : Stream w ls part) (he : Ending w.recvs) (ht : w.con.Tidy) : Still w ls part w :=
  ⟨[], ls, rfl, by simp, h, he, ht⟩

theorem Still.read {us us' : List (List UInt8)} (hu : ls = us ++ us')
    (hlog : u.log = w.log ++ (us.filter isBcast).map .bcast) (h : Still u us' part v) :
    Still w ls part v := by
  obtain ⟨used, ls', rfl, hlog', hs⟩ := h
  refine ⟨us ++ used, ls', by rw [hu, List.append_assoc], ?_, hs⟩
  rw [hlog', hlog, List.filter_append, List.map_append, List.append_assoc]

theorem delivered_iff {used : List (List UInt8)} (hls : ls = used ++ ms)
    (hlog : u.log = w.log ++ (used.filter isBcast).map .bcast) : Delivered u ms v ↔ Delivered w ls v := by
  rw [Delivered, Delivered, hls, hlog]
  simp only [List.filter_append, List.map_append, List.append_assoc]

theorem Came.read {used : List (List UInt8)} (hls : ls = used ++ ms)
    (hlog : u.log = w.log ++ (used.filter isBcast).map .bcast) (h : Came u ms part v) :
    Came w ls part v := by
  cases h with
  | still h => exact .still (h.read hls hlog)
  | torn hfd he => exact .torn hfd he
  | ended hfd hr hd => exact .ended hfd hr ((delivered_iff hls hlog).1 hd)

theorem came_end {con : DucSock} {rooms : List ℕ} (hfd : con.fd = -1) (h : ls = [])
    (hu : u.log = w.log) : Came w ls part (World.closed { u with con, recvs := [], rooms }) := by
  refine .ended ?_ rfl ⟨0, by simp [World.closed, h, hu]⟩
  change (ducSockDisconnect con).fd = -1
  rw [ducSockDisconnect, if_pos (by omega), hfd]

/-! ## Reading on -/

theorem rnextBody_came (hev : ev.Quiet) (ht : w.con.Tidy) (h : Stream w ls part) (he : Ending w.recvs)
    {x : World ⊕ Option (ℕ × List UInt8) × World} (hb : rnextBody ev w = some x) :
    (∃ v, x = .inl v ∧ Still w ls part v) ∨ ∃ b, x = .inr b ∧ Came w ls part b.2 := by
  rcases stream_getline h with ⟨l, ms, con, rfl, hg, htext, -, hs⟩ | ⟨con, hg, hs, hroom, hnil⟩
  · have htidy := getline_tidy hg ht
    rcases rnextBody_cases hb with ⟨i, t, con', hg', ht', hx⟩ | ⟨_, _, _, hg', -⟩
    · obtain ⟨hi, rfl⟩ := Prod.mk.inj (Option.some.inj (hg.symm.trans hg'))
      obtain rfl := Option.some.inj hi
      obtain rfl := Option.some.inj (htext.symm.trans ht')
      rcases hx with ⟨hlen, -⟩ | ⟨-, hnot, rfl⟩ | ⟨-, hnews, rfl⟩
      · have := (h.lines l List.mem_cons_self).min
        omega
      · exact Or.inr ⟨_, rfl, .still ⟨[l], ms, rfl, by simp [hnot], hs, he, htidy⟩⟩
      · exact Or.inl ⟨_, rfl, [l], ms, rfl, by simp [hnews, ducBcast], hs.congr rfl rfl, he, htidy⟩
    · cases hg.symm.trans hg'
  · rcases rnextBody_cases hb with ⟨_, _, _, hg', -⟩ | ⟨con', r, w₁, hg', hr, hx⟩
    · cases hg.symm.trans hg'
    obtain ⟨-, rfl⟩ := Prod.mk.inj (Option.some.inj (hg.symm.trans hg'))
    have htidy := getline_tidy hg ht
    cases hp : nextPacket con.room w.recvs with
    | none =>
      have hin := incoming_end hp
      rw [recv_end (w := { w with con := con }) hs.fd hin] at hr
      obtain ⟨rfl, rfl⟩ := Prod.mk.inj (Option.some.inj hr)
      rcases hx with ⟨-, w', hc, rfl⟩ | ⟨h0, -⟩
      · rw [close_quiet hev] at hc
        obtain rfl := Option.some.inj hc
        refine Or.inr ⟨_, rfl, ?_⟩
        rw [he.last hin]
        exact came_end (disconnect_fd htidy) (hnil hin) rfl
      · cases h0
    | some p =>
      obtain ⟨-, -, -, hrecv, -⟩ := recv_cases hr
      have htidy' := hrecv htidy
      obtain ⟨taken, q, hq, hstream⟩ := hs.holds
      obtain ⟨con₁, hr', hcon₁, hfd⟩ := recv_packet (w := { w with con := con }) hq hs.fd hroom hp
      obtain ⟨rfl, rfl⟩ := Prod.mk.inj (Option.some.inj (hr'.symm.trans hr))
      rcases hx with ⟨h0, -⟩ | ⟨-, rfl⟩
      · exact absurd rfl h0
      obtain ⟨-, -, hin⟩ := incoming_packet hroom hp
      refine Or.inl ⟨_, rfl, [], ls, rfl, by simp, ⟨hfd ▸ hs.fd, ⟨taken, q ++ p.1, hcon₁, ?_⟩, h.lines,
        h.part_free, h.part_len⟩, he.next hp, htidy'⟩
      rw [List.append_assoc, ← hin]
      exact hstream

theorem rnextLoop_came (hev : ev.Quiet) (ht : w.con.Tidy) (h : Stream w ls part) (he : Ending w.recvs)
    {x : Option (ℕ × List UInt8)} (hloop : rnextLoop ev w = some (x, v)) : Came w ls part v := by
  refine loop_partial (Still w ls part)
    (fun b : Option (ℕ × List UInt8) × World => Came w ls part b.2) ?_ ?_ _ w _ (.refl h he ht) hloop
  all_goals
    rintro u b ⟨used, ms, hls, hlog, hs, he', ht'⟩ hb
    rcases rnextBody_came hev ht' hs he' hb with ⟨v, hv, hstill⟩ | ⟨v, hv, hcame⟩ <;> cases hv
  · exact hstill.read hls hlog
  · exact hcame.read hls hlog

theorem Came.set (h : Came w ls part v) (inreply : Bool) (code : List UInt8) (line : Option ℕ) :
    Came w ls part { v with inreply, code, line } := by
  cases h with
  | still h =>
    obtain ⟨used, ms, hls, hlog, hs, he, ht⟩ := h
    exact .still ⟨used, ms, hls, hlog, hs.congr rfl rfl, he, ht⟩
  | torn hfd he => exact .torn hfd he
  | ended hfd hr hd => exact .ended hfd hr hd

theorem Came.close (h : Still w ls part v) : Came w ls part v.closed := by
  obtain ⟨_, _, -, -, -, he, ht⟩ := h
  exact .torn (disconnect_fd ht) he

/-! ## Commands -/

/-- The connection stays closed, and nothing but its end is reported. -/
structure Shut (w v : World) : Prop where
  fd : v.con.fd = -1
  recvs : v.recvs = w.recvs
  log : ∃ k, v.log = w.log ++ List.replicate k .disconnect

theorem shut_refl (hfd : w.con.fd = -1) : Shut w w := ⟨hfd, rfl, 0, by simp⟩

theorem shut_close (ht : w.con.Tidy) : Shut w w.closed := ⟨disconnect_fd ht, rfl, 1, rfl⟩

theorem Shut.trans (h : Shut w v) (h' : Shut v u) : Shut w u := by
  obtain ⟨k, hk⟩ := h.log
  obtain ⟨m, hm⟩ := h'.log
  refine ⟨h'.fd, h'.recvs.trans h.recvs, k + m, ?_⟩
  rw [hm, hk, List.append_assoc, List.replicate_append_replicate]

theorem Came.shut (h : Came w ls part u) (hfd : u.con.fd = -1) (h' : Shut u v) : Came w ls part v := by
  cases h with
  | still h =>
    obtain ⟨_, _, -, -, hs, -⟩ := h
    exact absurd hfd hs.fd
  | torn _ he => exact .torn h'.fd (h'.recvs ▸ he)
  | ended _ hr hd =>
    obtain ⟨k, hk⟩ := hd
    obtain ⟨m, hm⟩ := h'.log
    refine .ended h'.fd (h'.recvs.trans hr) ⟨k + m, ?_⟩
    rw [hm, hk, List.append_assoc, List.replicate_append_replicate, Nat.add_right_comm]

/-- What the parts of a command do on a stream that ends, and on a closed connection. -/
structure Advances (w v : World) : Prop where
  tidy : v.con.Tidy
  shut : w.con.fd = -1 → Shut w v
  came : ∀ ls part, Stream w ls part → Ending w.recvs → Came w ls part v

theorem Advances.trans (h : Advances w v) (h' : Advances v u) : Advances w u where
  tidy := h'.tidy
  shut hfd := (h.shut hfd).trans (h'.shut (h.shut hfd).fd)
  came ls part hs he := by
    have hv := h.came ls part hs he
    by_cases hfd : v.con.fd = -1
    · exact hv.shut hfd (h'.shut hfd)
    · cases hv with
      | still h =>
        obtain ⟨used, ms, hls, hlog, hs, he, -⟩ := h
        exact (h'.came ms part hs he).read hls hlog
      | torn hc => exact absurd hc hfd
      | ended hc => exact absurd hc hfd

theorem rnext_advances (hev : ev.Quiet) (ht : w.con.Tidy) (h : ducRnext ev w = some (r, v)) :
    Advances w v := by
  constructor
  · obtain ⟨u, hu, ⟨-, rfl, -⟩ | ⟨-, hc⟩⟩ := ducRnext_onward h
    · exact hu.tidy ht
    · rw [close_quiet hev] at hc
      exact Option.some.inj hc ▸ disconnect_tidy (hu.tidy ht)
  · intro hfd
    by_cases hin : w.inreply = true
    · rw [rnext_closed hev ht hin hfd] at h
      exact (Prod.mk.inj (Option.some.inj h)).2 ▸ shut_close ht
    · rw [ducRnext, if_pos (by simpa using hin)] at h
      exact (Prod.mk.inj (Option.some.inj h)).2 ▸ shut_refl hfd
  · intro ls part hs he
    rcases ducRnext_cases h with ⟨-, -, rfl⟩ | ⟨-, hloop, -⟩ | ⟨i, l, w₁, -, hloop, hor⟩
    · exact .still (.refl hs he ht)
    · exact rnextLoop_came hev ht hs he hloop
    · have hcame := rnextLoop_came hev ht hs he hloop
      rcases hor with ⟨-, -, -, hc⟩ | ⟨-, -, rfl⟩
      · rw [close_quiet hev] at hc
        obtain rfl := Option.some.inj hc
        obtain ⟨u, -, ⟨-, rfl, hfd, -⟩ | ⟨hnone, -⟩⟩ := rnextLoop_onward hloop
        · have hset := hcame.set u.inreply u.code (some (i + 4))
          cases hset with
          | still hstill => exact Came.close hstill
          | torn hc => exact absurd (hfd.symm.trans hc) hs.fd
          | ended hc => exact absurd (hfd.symm.trans hc) hs.fd
        · cases hnone
      · exact hcame.set _ _ _

theorem vsendSend_advances (hev : ev.Quiet) (ht : w.con.Tidy) {cmd : List UInt8}
    (h : vsendSend ev w cmd = some (r, v)) : Advances w v := by
  obtain ⟨q, w₁, hsend, hor⟩ := vsendSend_cases h
  obtain ⟨_, _, rfl⟩ := send_eq hsend
  rcases hor with ⟨rfl, -, rfl⟩ | ⟨-, -, hc⟩
  · refine ⟨ht, fun hfd => ?_, fun ls part hs he => .still (.refl (hs.congr rfl rfl) he ht)⟩
    rw [World.send, if_pos (show w.unreplied.con.fd = -1 from hfd)] at hsend
    cases hsend
  · rw [close_quiet hev] at hc
    obtain rfl := Option.some.inj hc
    exact ⟨disconnect_tidy ht, fun _ => ⟨disconnect_fd ht, rfl, 1, rfl⟩,
      fun ls part hs he => .torn (disconnect_fd ht) he⟩

theorem Handlers.Quiet.keeps (hev : ev.Quiet) : ev.Keeps fun w v => w.con.Tidy → Advances w v where
  refl w ht := ⟨ht, shut_refl, fun ls part hs he => .still (.refl hs he ht)⟩
  trans h h' ht := (h ht).trans (h' (h ht).tidy)
  rnext h ht := rnext_advances hev ht h
  send h ht := vsendSend_advances hev ht h
  version w _ _ ht :=
    ⟨ht, fun hfd => ⟨hfd, rfl, 0, by simp⟩, fun ls part hs he => .still (.refl (hs.congr rfl rfl) he ht)⟩

/-! ## Polling -/

theorem pollLoop_still (ht : w.con.Tidy) (h : Stream w ls part) (he : Ending w.recvs)
    (hloop : pollLoop ev w = some v) : Still w ls part v := by
  obtain ⟨used, ms, hls, hlog, hs, hrecvs, htidy⟩ := pollLoop_stream ht h hloop
  exact ⟨used, ms, hls, hlog, hs, hrecvs ▸ he, htidy⟩

theorem recv_full (hfd : w.con.fd ≠ -1) (hroom : w.con.room = 0) (he : Ending w.recvs)
    (hin : incoming w.recvs ≠ []) (h : w.recv = some (r, v)) :
    r = -1 ∧ v.con = ducSockDisconnect w.con ∧ v.recvs = w.recvs := by
  obtain ⟨hr, hkeep⟩ := recv_no_room hfd hroom h
  refine ⟨hr, ?_⟩
  generalize hrecvs : w.recvs = recvs at he hin
  cases he with
  | close => exact absurd rfl hin
  | packet _ => exact hrecvs ▸ hkeep hrecvs

theorem poll_closes_con (hev : ev.Quiet) (hfd : w.con.fd ≠ -1) (hr : w.recv = some (-1, u))
    (ht : u.con.Tidy) (hp : ducPoll ev w = some v) : v = u.closed := by
  rw [ducPoll_open hfd, hr, Option.bind_some, if_neg (show (-1 : ℤ) ≠ 0 by decide), close_quiet hev,
    Option.bind_some, pollLoop_closed (disconnect_tidy ht) (disconnect_fd ht)] at hp
  exact (Option.some.inj hp).symm

theorem poll_end (hev : ev.Quiet) (ht : w.con.Tidy) (h : Stream w ls part) (he : Ending w.recvs)
    (hin : incoming w.recvs = []) (hp : ducPoll ev w = some v) :
    v.con.fd = -1 ∧ v.recvs = [] ∧ v.log = w.log ++ [.disconnect] := by
  have hr := recv_end h.fd hin
  rw [he.last hin, if_neg (by simp)] at hr
  obtain rfl := poll_closes_con hev h.fd hr (disconnect_tidy ht) hp
  exact ⟨disconnect_fd (disconnect_tidy ht), rfl, rfl⟩

theorem poll_before (hev : ev.Quiet) (ht : w.con.Tidy) (h : Stream w ls part) (he : Ending w.recvs)
    (hin : incoming w.recvs ≠ []) (hp : ducPoll ev w = some v) : Came w ls part v := by
  by_cases hroom : w.con.room = 0
  · rcases hr : w.recv with _ | ⟨r, u⟩
    · rw [ducPoll_open h.fd, hr] at hp
      cases hp
    obtain ⟨rfl, hcon, hrecvs⟩ := recv_full h.fd hroom he hin hr
    have hu : u.con.Tidy := hcon ▸ disconnect_tidy ht
    obtain rfl := poll_closes_con hev h.fd hr hu hp
    exact .torn (disconnect_fd hu) (hrecvs ▸ he)
  · have hroom : 1 ≤ w.con.room := Nat.pos_of_ne_zero hroom
    obtain ⟨taken, q, hq, hstream⟩ := h.holds
    cases hnext : nextPacket w.con.room w.recvs with
    | none => exact absurd (incoming_end hnext) hin
    | some p =>
      obtain ⟨con, hr, hcon, hfd⟩ := recv_packet hq h.fd hroom hnext
      obtain ⟨-, -, -, hrecv, -⟩ := recv_cases hr
      obtain ⟨-, -, hcut⟩ := incoming_packet hroom hnext
      have hs : Stream { w with con, recvs := p.2, rooms := w.rooms ++ [w.con.room] } ls part := by
        refine ⟨hfd ▸ h.fd, ⟨taken, q ++ p.1, hcon, ?_⟩, h.lines, h.part_free, h.part_len⟩
        rw [List.append_assoc, ← hcut, hstream]
      rw [ducPoll_open h.fd, hr, Option.bind_some, if_pos rfl] at hp
      have hstill := pollLoop_still (hrecv ht) hs (he.next hnext) hp
      exact .still (hstill.read (show ls = [] ++ ls from rfl) (by simp))

/-- `duc_poll` meets the end of the stream while broadcasts still stand in the buffer. -/
def Call.LosesNews (w : World) : Call ρ → Prop
  | .poll => incoming w.recvs = [] ∧ newsIn w.con.unread ≠ []
  | _ => False

/-- **A call** that does not lose broadcasts. -/
theorem callStep_came (hev : ev.Quiet) (ht : w.con.Tidy) (h : Stream w ls part) (he : Ending w.recvs)
    (hc : c.Reads) (hkeep : ¬ c.LosesNews w) (hstep : callStep ev w c = some v) : Came w ls part v := by
  cases c with
  | cmd c =>
    obtain ⟨⟨res, u⟩, hrun, rfl⟩ := Option.map_eq_some_iff.1 hstep
    have hopen : ∀ q v, w.inreply = false → ducOpen ev w = some (q, v) → w.con.Tidy → Advances w v := by
      intro q v _ ho
      rw [ducOpen, openBody, if_pos h.fd] at ho
      exact (Prod.mk.inj (Option.some.inj ho)).2 ▸ hev.keeps.refl w
    exact (hev.keeps.runCmd hopen hrun ht).came ls part h he
  | poll =>
    by_cases hin : incoming w.recvs = []
    · obtain ⟨hfd, hr, hlog⟩ := poll_end hev ht h he hin hstep
      have hnil : ls.filter isBcast = [] := by
        by_contra hne
        exact hkeep ⟨hin, stream_news h hin ▸ hne⟩
      exact .ended hfd hr ⟨0, by rw [hlog, hnil]; simp⟩
    · exact poll_before hev ht h he hin hstep
  | «open» => exact hc.elim
  | close => exact hc.elim
  | setauth user pass => exact hc.elim

/-- **A call that loses broadcasts** is the last one on the stream. -/
theorem callStep_loses (hev : ev.Quiet) (ht : w.con.Tidy) (h : Stream w ls part) (he : Ending w.recvs)
    (hlose : c.LosesNews w) (hstep : callStep ev w c = some v) : v.con.fd = -1 ∧ ¬ Delivered w ls v := by
  cases c with
  | poll =>
    obtain ⟨hin, hnews⟩ := hlose
    obtain ⟨hfd, -, hlog⟩ := poll_end hev ht h he hin hstep
    refine ⟨hfd, ?_⟩
    rintro ⟨k, hk⟩
    obtain ⟨b, bs, hb⟩ := List.exists_cons_of_ne_nil (stream_news h hin ▸ hnews)
    rw [hlog, hb, List.append_assoc] at hk
    cases List.append_cancel_left hk
  | cmd c => exact hlose.elim
  | «open» => exact hlose.elim
  | close => exact hlose.elim
  | setauth user pass => exact hlose.elim

/-! ## Runs -/

theorem quiet_delivered_iff (hev : ev.Quiet) {calls : List (Call ρ)} (ht : w.con.Tidy)
    (h : Stream w ls part) (he : Ending w.recvs) (hon : Along (callStep ev) OnStream w calls)
    (hrun : runs (callStep ev) w calls = some v) (hend : v.recvs = []) : v.con.fd = -1 ∧
      (Delivered w ls v ↔ Along (callStep ev) (fun w c => ¬ c.LosesNews w) w calls) := by
  induction calls generalizing w ls with
  | nil =>
    obtain rfl := Option.some.inj hrun
    exact (Ending.ne_nil (hend ▸ he)).elim
  | cons c calls ih =>
    rw [runs_cons, Option.bind_eq_some_iff] at hrun
    obtain ⟨u, hstep, hrun⟩ := hrun
    have hclosed : u.con.fd = -1 → calls = [] := by
      intro hfd
      cases calls with
      | nil => rfl
      | cons d ds => exact absurd hfd (hon.2 u hstep).1.2
    by_cases hlose : c.LosesNews w
    · obtain ⟨hfd, hnot⟩ := callStep_loses hev ht h he hlose hstep
      obtain rfl := hclosed hfd
      obtain rfl := Option.some.inj hrun
      exact ⟨hfd, fun hd => absurd hd hnot, fun hall => absurd hlose hall.1⟩
    · have hnext : Along (callStep ev) (fun w c => ¬ c.LosesNews w) w (c :: calls) ↔
          Along (callStep ev) (fun w c => ¬ c.LosesNews w) u calls :=
        ⟨fun hall => hall.2 u hstep,
          fun hall => ⟨hlose, fun s hs => Option.some.inj (hstep.symm.trans hs) ▸ hall⟩⟩
      rw [hnext]
      cases callStep_came hev ht h he hon.1.1 hlose hstep with
      | still hstill =>
        obtain ⟨used, ms, hls, hlog, hs, he, ht⟩ := hstill
        rw [← delivered_iff hls hlog]
        exact ih ht hs he (hon.2 u hstep) hrun
      | torn hfd he =>
        obtain rfl := hclosed hfd
        obtain rfl := Option.some.inj hrun
        exact (Ending.ne_nil (hend ▸ he)).elim
      | ended hfd _ hd =>
        obtain rfl := hclosed hfd
        obtain rfl := Option.some.inj hrun
        exact ⟨hfd, fun _ => trivial, fun _ => hd⟩

/-- **The news of a stream that ends.** Let the rest of a connection be whole lines, in whatever packets,
up to the end of the stream. A run of commands and `duc_poll` calls on it notices the end; `v` is the
state in which the disconnect handler is then called. By then every broadcast line was dispatched, once
and in order, just when no `duc_poll` met the end with a broadcast still in the buffer. -/
theorem news_delivered_iff (ev : Handlers) {calls : List (Call ρ)} (ht : w.con.Tidy)
    (h : Stream w ls part) (he : Ending w.recvs) (hon : Along (callStep ev.hold) OnStream w calls)
    (hrun : runs (callStep ev.hold) w calls = some v) (hend : v.recvs = []) :
    (∃ f, runs (callStep ev) w calls = (ev.disconnect v).bind f) ∧
      (Delivered w ls v ↔ Along (callStep ev.hold) (fun w c => ¬ c.LosesNews w) w calls) := by
  obtain ⟨hfd, hiff⟩ := quiet_delivered_iff ev.hold_quiet ht h he hon hrun hend
  exact ⟨runs_hands h.fd ht hon hrun hfd, hiff⟩

/-- The rest of a connection that brings `packet` and is closed. -/
def hangupWorld (packet : String) : World := idleWorld [some (Cstr.lit packet).bytes, some []] []

/-- A command, and then `duc_poll`. -/
def pauseAndPoll : List (Call Unit) := [.cmd ⟨.succ, .lit "pause", []⟩, .poll]

theorem hangup_stream {p : String} (hne : (Cstr.lit p).bytes ≠ []) (ls : List (List UInt8))
    (hpacket : (Cstr.lit p).bytes = wire LF ls) (hls : ∀ l ∈ ls, WireLine 4 l) :
    (hangupWorld p).con.Tidy ∧ Stream (hangupWorld p) ls [] ∧ Ending (hangupWorld p).recvs := by
  obtain ⟨b, bs, hb⟩ := List.exists_cons_of_ne_nil hne
  have hrecvs : (hangupWorld p).recvs = [some (b :: bs), some []] := by rw [← hb]; rfl
  refine ⟨⟨Or.inr (show (0 : ℤ) ≤ 3 by decide), fun h => absurd h (show (3 : ℤ) ≠ -1 by decide)⟩, ⟨freshSock_fresh.1,
    ⟨[], [], holds_nil rfl rfl, ?_⟩, hls, fun b hb => absurd hb List.not_mem_nil, Nat.zero_le _⟩, ?_⟩
  · rw [hrecvs, ← hpacket, hb]
    simp [incoming]
  · rw [hrecvs]
    exact .packet .close

/-- **A broadcast is lost.** It came behind the reply, in one packet, and the server hung up before
`duc_poll`. -/
theorem news_lost : ∃ w ls v, w.con.Tidy ∧ Stream w ls [] ∧ Ending w.recvs ∧
    Along (callStep .passive) OnStream w pauseAndPoll ∧
    runs (callStep .passive) w pauseAndPoll = some v ∧ v.recvs = [] ∧
    ls.filter isBcast = [(Cstr.lit "640 x").bytes] ∧ v.log = [.disconnect] ∧ ¬ Delivered w ls v := by
  have hrun : ((runs (callStep .passive) (hangupWorld "250 ok\n640 x\n") pauseAndPoll).map
      fun w => (w.recvs, w.log)) = some ([], [.disconnect]) := by decide +kernel
  have hopen : ((callStep .passive (hangupWorld "250 ok\n640 x\n")
      (.cmd ⟨.succ, .lit "pause", []⟩ : Call Unit)).map fun w => w.con.fd) = some 3 := by decide +kernel
  obtain ⟨v, hv, heq⟩ := Option.map_eq_some_iff.1 hrun
  obtain ⟨hr, hlog⟩ := Prod.mk.inj heq
  obtain ⟨ht, hs, he⟩ := hangup_stream (p := "250 ok\n640 x\n") (by decide)
    [(Cstr.lit "250 ok").bytes, (Cstr.lit "640 x").bytes] (by decide) (by decide)
  refine ⟨_, _, v, ht, hs, he, ⟨⟨trivial, hs.fd⟩, fun w₁ hw₁ => ⟨⟨trivial, ?_⟩, fun _ _ => trivial⟩⟩,
    hv, hr, by decide, hlog, ?_⟩
  · rw [hw₁, Option.map_some, Option.some.injEq] at hopen
    rw [hopen]
    decide
  · rintro ⟨k, hk⟩
    rw [hlog] at hk
    cases hk

/-- The theorem where the broadcast comes before the reply. -/
theorem news_delivered_before : ∃ w v, runs (callStep .passive) w pauseAndPoll = some v ∧
    v.recvs = [] ∧ Delivered w [(Cstr.lit "640 x").bytes, (Cstr.lit "250 ok").bytes] v := by
  have hrun : ((runs (callStep .passive) (hangupWorld "640 x\n250 ok\n") pauseAndPoll).map
      fun w => w.recvs) = some [] := by decide +kernel
  have hopen : ((callStep .passive (hangupWorld "640 x\n250 ok\n")
      (.cmd ⟨.succ, .lit "pause", []⟩ : Call Unit)).map fun w => (w.con.fd, newsIn w.con.unread)) =
      some (3, []) := by decide +kernel
  obtain ⟨v, hv, hr⟩ := Option.map_eq_some_iff.1 hrun
  obtain ⟨ht, hs, he⟩ := hangup_stream (p := "640 x\n250 ok\n") (by decide)
    [(Cstr.lit "640 x").bytes, (Cstr.lit "250 ok").bytes] (by decide) (by decide)
  have hmid : ∀ w₁, callStep .passive (hangupWorld "640 x\n250 ok\n")
      (.cmd ⟨.succ, .lit "pause", []⟩ : Call Unit) = some w₁ → w₁.con.fd = 3 ∧ newsIn w₁.con.unread = [] := by
    intro w₁ hw₁
    rw [hw₁, Option.map_some, Option.some.injEq] at hopen
    exact Prod.mk.inj hopen
  refine ⟨_, v, hv, hr, ((news_delivered_iff .passive ht hs he ?_ hv hr).2).2 ?_⟩
  · exact ⟨⟨trivial, hs.fd⟩, fun w₁ hw₁ => ⟨⟨trivial, by rw [(hmid w₁ hw₁).1]; decide⟩, fun _ _ => trivial⟩⟩
  · exact ⟨id, fun w₁ hw₁ => ⟨fun hlose => hlose.2 (hmid w₁ hw₁).2, fun _ _ => trivial⟩⟩

end Dudlc
