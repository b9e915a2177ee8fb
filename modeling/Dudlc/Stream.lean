import Dudlc.Framing
import Dudlc.Calls

/-!
# Reading well-formed streams

* `incoming`, `Stream`: the unread bytes of a connection are whole lines and a part of a line.
* `nextPacket`, `recv_packet`, `recv_end`: what `duc_sock_recv` does on any connection.
* `stream_getline`, `stream_recv`: what `duc_sock_getline` and `duc_sock_recv` do on such a stream.
* `rnextLoop_line`, `rnextLoop_end`: the loop in `_duc_rnext` dispatches the broadcasts before the next
  reply line, or before the end of the stream.
* **`rnext_line`**, **`rlast_reply`**: `_duc_rnext` takes the next reply line, `_duc_rlast` the rest of a
  reply.
-/

namespace Dudlc

open Lib

variable {w w' v : World} {r : ℤ} {ls ms : List (List UInt8)} {l part : List UInt8}

/-! ## Streams -/

/-- The bytes that `recv` will return. -/
def incoming : List Recv → List UInt8
  | some (b :: bs) :: rs => b :: bs ++ incoming rs
  | _ => []

/-- The unread bytes of the connection: the lines `ls`, each with its line feed, and the beginning
`part` of another line. -/
structure Stream (w : World) (ls : List (List UInt8)) (part : List UInt8) : Prop where
  fd : w.con.fd ≠ -1
  holds : ∃ taken u, Holds w.con taken u ∧ u ++ incoming w.recvs = wire LF ls ++ part
  lines : ∀ l ∈ ls, WireLine 4 l
  part_free : ∀ b ∈ part, isStop b = false
  part_len : part.length ≤ 2046

theorem not_fits {u : List UInt8} (hu : ∀ b ∈ u, isStop b = false)
    (h : u = wire LF ls ++ part) : ls = [] := by
  cases ls with
  | nil => rfl
  | cons l ls =>
    have hmem : LF ∈ u := by rw [h]; simp
    simpa [isStop_LF] using hu LF hmem

theorem Stream.con (h : Stream w ls part) {con : DucSock} {taken u : List UInt8} (hfd : con.fd = w.con.fd)
    (hcon : Holds con taken u) (hu : u ++ incoming w.recvs = wire LF ms ++ part)
    (hms : ∀ l ∈ ms, l ∈ ls) : Stream { w with con := con } ms part :=
  ⟨hfd ▸ h.fd, ⟨taken, u, hcon, hu⟩, fun l hl => h.lines l (hms l hl), h.part_free, h.part_len⟩

/-- **`duc_sock_getline`** takes the next line, or needs more bytes. -/
theorem stream_getline (h : Stream w ls part) :
    (∃ l ms con, ls = l :: ms ∧ ducSockGetline w.con = some (some 0, con) ∧
      cstr con.buf 0 = some l ∧ cstr con.buf 4 = some (l.drop 4) ∧
      Stream { w with con := con } ms part) ∨
    ∃ con, ducSockGetline w.con = some (none, con) ∧ Stream { w with con := con } ls part ∧
      1 ≤ con.room ∧ (incoming w.recvs = [] → ls = []) := by
  obtain ⟨taken, u, hu, hstream⟩ := h.holds
  have hnull : (∀ b ∈ u, isStop b = false) → u.length ≤ 2046 →
      ∃ con, ducSockGetline w.con = some (none, con) ∧ Stream { w with con := con } ls part ∧
        1 ≤ con.room ∧ (incoming w.recvs = [] → ls = []) := by
    intro hfree hlen
    obtain ⟨con, hg, hcon, hfd, -⟩ := getline_of_none hu hfree (Nat.lt_succ_of_le hlen)
    refine ⟨con, hg, h.con hfd hcon hstream fun _ => id, (getline_fd hg).2 rfl, fun hin => ?_⟩
    rw [hin, List.append_nil] at hstream
    exact not_fits hfree hstream
  cases hls : ls with
  | nil =>
    subst hls
    rw [wire_nil, List.nil_append] at hstream
    have hpre : u <+: part := ⟨_, hstream⟩
    exact Or.inr (hnull (fun b hb => h.part_free b (hpre.subset hb)) (hpre.length_le.trans h.part_len))
  | cons l ms =>
    subst hls
    have hl := h.lines l List.mem_cons_self
    have hfresh : Fresh isEol (wire LF ms ++ part) := by
      cases ms with
      | nil =>
        intro b hb
        have hb : b ∈ part := List.mem_of_mem_head? (by simpa using hb)
        have := h.part_free b hb
        rw [isStop, Bool.or_eq_false_iff] at this
        exact this.2
      | cons m ms =>
        have hm := fresh_wireLines (by decide) fun k hk => h.lines k (List.mem_cons_of_mem l hk)
        obtain ⟨c, cs, hcs⟩ := List.exists_cons_of_ne_nil
          ((h.lines m (by simp)).ne_nil (by decide))
        intro b hb
        exact hm b (by rw [hcs] at hb ⊢; simpa using hb)
    rw [wire_cons, List.append_assoc, List.cons_append] at hstream
    rcases getline_stream hu hl hfresh hstream with
      ⟨hfree, ⟨x, hx⟩, -⟩ | ⟨u', rfl, hu', con, hg, hcon, hfd⟩
    · refine Or.inr (hnull hfree ?_)
      have hlen := congrArg List.length hstream
      rw [hx] at hlen
      have := hl.max
      simp only [List.length_append, List.length_cons] at hlen
      omega
    · have hfree := not_mem_of_not_isStop hl.free
      exact Or.inl ⟨l, ms, con, rfl, hg, cstr_line hcon hfree 0 (Nat.zero_le _),
        cstr_line hcon hfree 4 hl.min,
        h.con hfd hcon hu' fun k hk => List.mem_cons_of_mem l hk⟩

theorem recv_eq (hfd : w.con.fd ≠ -1) :
    w.recv = (ducSockRecv w.con (w.toNet.read w.con.room).1).map fun x => (x.1, { w with
      con := x.2, recvs := (w.toNet.read w.con.room).2.recvs, rooms := w.rooms ++ [w.con.room] }) := by
  have hread : (w.toNet.read w.con.room).2 = { w.toNet with
      recvs := (w.toNet.read w.con.room).2.recvs, rooms := w.rooms ++ [w.con.room] } := by
    unfold Net.read
    rcases w.recvs with _ | ⟨_ | bs, rs⟩
    · rfl
    · rfl
    · simp only
      split_ifs <;> rfl
  unfold World.recv
  rw [if_neg hfd]
  generalize w.toNet.read w.con.room = got at hread ⊢
  obtain ⟨g, n⟩ := got
  rw [show n = _ from hread]

theorem recv_no_room {r : ℤ} (hfd : w.con.fd ≠ -1) (hroom : w.con.room = 0) (h : w.recv = some (r, v)) :
    r = -1 ∧ ∀ {b bs rs}, w.recvs = some (b :: bs) :: rs →
      v.con = ducSockDisconnect w.con ∧ v.recvs = w.recvs := by
  rw [recv_eq hfd, hroom] at h
  obtain ⟨⟨q, con⟩, hq, heq⟩ := Option.map_eq_some_iff.1 h
  obtain ⟨rfl, rfl⟩ := Prod.mk.inj heq
  unfold Net.read at hq ⊢
  rcases hrecvs : w.recvs with _ | ⟨_ | _ | ⟨b, bs⟩, rs⟩ <;> simp only [hrecvs] at hq
  · rw [ducSockRecv, if_neg hfd] at hq
    exact ⟨(Prod.mk.inj (Option.some.inj hq)).1.symm, fun hp => by cases hp⟩
  · rw [ducSockRecv, if_neg hfd] at hq
    exact ⟨(Prod.mk.inj (Option.some.inj hq)).1.symm, fun hp => by cases hp⟩
  · rw [if_pos (show ([] : List UInt8).length ≤ 0 from Nat.le_refl 0), ducSockRecv, if_neg hfd] at hq
    exact ⟨(Prod.mk.inj (Option.some.inj hq)).1.symm, fun hp => by cases hp⟩
  · have hlong : ¬ (b :: bs).length ≤ 0 := by simp
    simp only [if_neg hlong, List.take_zero, List.drop_zero] at hq ⊢
    rw [ducSockRecv, if_neg hfd] at hq
    obtain ⟨rfl, rfl⟩ := Prod.mk.inj (Option.some.inj hq)
    exact ⟨rfl, fun _ => ⟨rfl, trivial⟩⟩

/-- What `recv` takes from the packets to come when at most `room` bytes fit: a packet or the part of it
that fits; `none` for an error and at the end of the stream. -/
def nextPacket (room : ℕ) : List Recv → Option (List UInt8 × List Recv)
  | some (b :: bs) :: rs =>
    if (b :: bs).length ≤ room then some (b :: bs, rs)
    else some ((b :: bs).take room, some ((b :: bs).drop room) :: rs)
  | _ => none

theorem incoming_packet {room : ℕ} {recvs rs : List Recv} {bs : List UInt8} (hroom : 1 ≤ room)
    (h : nextPacket room recvs = some (bs, rs)) :
    bs ≠ [] ∧ bs.length ≤ room ∧ incoming recvs = bs ++ incoming rs := by
  rcases recvs with _ | ⟨_ | _ | ⟨b, cs⟩, qs⟩
  · cases h
  · cases h
  · cases h
  rw [nextPacket] at h
  split_ifs at h with hfit
  · obtain ⟨rfl, rfl⟩ := Prod.mk.inj (Option.some.inj h)
    exact ⟨List.cons_ne_nil _ _, hfit, rfl⟩
  · obtain ⟨rfl, rfl⟩ := Prod.mk.inj (Option.some.inj h)
    have hlt : room < (b :: cs).length := not_le.1 hfit
    obtain ⟨d, ds, hd⟩ : ∃ d ds, (b :: cs).drop room = d :: ds :=
      List.exists_cons_of_ne_nil (by rw [ne_eq, List.drop_eq_nil_iff]; omega)
    refine ⟨List.ne_nil_of_length_pos (by rw [List.length_take]; omega),
      by rw [List.length_take]; omega, ?_⟩
    rw [hd, incoming, incoming, ← List.append_assoc, ← hd, List.take_append_drop]

theorem incoming_end {room : ℕ} {recvs : List Recv} (h : nextPacket room recvs = none) :
    incoming recvs = [] := by
  rcases recvs with _ | ⟨_ | _ | ⟨b, cs⟩, qs⟩
  · rfl
  · rfl
  · rfl
  · rw [nextPacket] at h
    split_ifs at h

/-- **`duc_sock_recv`** on an open connection with room: it appends the next packet. -/
theorem recv_packet {taken u bs : List UInt8} {rs : List Recv} (hu : Holds w.con taken u)
    (hfd : w.con.fd ≠ -1) (hroom : 1 ≤ w.con.room) (h : nextPacket w.con.room w.recvs = some (bs, rs)) :
    ∃ con, w.recv = some (0, { w with con, recvs := rs, rooms := w.rooms ++ [w.con.room] }) ∧
      Holds con taken (u ++ bs) ∧ con.fd = w.con.fd := by
  have hread : w.toNet.read w.con.room =
      (some bs, { w.toNet with recvs := rs, rooms := w.rooms ++ [w.con.room] }) := by
    unfold Net.read
    rcases hw : w.recvs with _ | ⟨_ | _ | ⟨b, cs⟩, qs⟩ <;> rw [hw] at h
    · cases h
    · cases h
    · cases h
    · rw [nextPacket] at h
      split_ifs at h with hfit <;> obtain ⟨rfl, rfl⟩ := Prod.mk.inj (Option.some.inj h)
      · simp only [if_pos hfit]
      · simp only [if_neg hfit]
  obtain ⟨hne, hle, -⟩ := incoming_packet hroom h
  obtain ⟨con, hr, hcon, hfd'⟩ := recv_holds hu hfd hne hle
  exact ⟨con, by rw [recv_eq hfd, hread, hr]; rfl, hcon, hfd'⟩

/-- **`duc_sock_recv`** on an open connection at the end of the stream, or after an error. -/
theorem recv_end (hfd : w.con.fd ≠ -1) (h : incoming w.recvs = []) :
    w.recv = some (-1, { w with
      con := if w.recvs.head? = some none then w.con else ducSockDisconnect w.con,
      recvs := w.recvs.tail, rooms := w.rooms ++ [w.con.room] }) := by
  rw [recv_eq hfd]
  unfold Net.read
  rcases hw : w.recvs with _ | ⟨_ | _ | ⟨b, cs⟩, qs⟩
  · simp [ducSockRecv, hfd]
  · simp [ducSockRecv, hfd]
  · simp [ducSockRecv, hfd]
  · rw [hw, incoming] at h
    cases h

/-- **`duc_sock_recv`** appends bytes of the stream, or finds its end. -/
theorem stream_recv (h : Stream w ls part) (hroom : 1 ≤ w.con.room) :
    ∃ r con recvs rooms, w.recv = some (r, { w with con, recvs, rooms }) ∧
      (r = 0 ∧ Stream { w with con, recvs, rooms } ls part ∨ r = -1 ∧ incoming w.recvs = []) := by
  obtain ⟨taken, u, hu, hstream⟩ := h.holds
  cases hp : nextPacket w.con.room w.recvs with
  | none => exact ⟨-1, _, _, _, recv_end h.fd (incoming_end hp), Or.inr ⟨rfl, incoming_end hp⟩⟩
  | some p =>
    obtain ⟨con, hr, hcon, hfd⟩ := recv_packet hu h.fd hroom hp
    obtain ⟨-, -, hin⟩ := incoming_packet hroom hp
    refine ⟨0, con, p.2, _, hr, Or.inl ⟨rfl, hfd ▸ h.fd, ⟨taken, u ++ p.1, hcon, ?_⟩, h.lines,
      h.part_free, h.part_len⟩⟩
    rw [List.append_assoc, ← hin, hstream]

/-! ## The next reply line -/

/-- The world after the broadcasts `bs` have been read and dispatched. -/
def World.after (w : World) (bs : List (List UInt8)) (con : DucSock) (recvs : List Recv)
    (rooms : List ℕ) : World :=
  { w with con, recvs, rooms, log := w.log ++ bs.map .bcast }

theorem after_nil (w : World) : w.after [] w.con w.recvs w.rooms = w := by
  simp [World.after]

/-- **The loop in `_duc_rnext`** dispatches the broadcasts before the next reply line and takes it, or
closes the connection at the end of the stream. -/
theorem rnextLoop_stream (ev : Handlers) {bs tail : List (List UInt8)} (hbs : ∀ b ∈ bs, isBcast b = true)
    (htail : ∀ l ∈ tail.head?, isBcast l = false) (h : Stream w (bs ++ tail) part) :
    ∃ con recvs rooms, match tail with
      | [] => rnextLoop ev w = (ducClose ev (w.after bs con recvs rooms)).map fun v => (none, v)
      | l :: rest => rnextLoop ev w = some (some (0, l), w.after bs con recvs rooms) ∧
          cstr con.buf 4 = some (l.drop 4) ∧ Stream (w.after bs con recvs rooms) rest part := by
  refine loop_exit (fun v => ∃ done todo con recvs rooms, bs = done ++ todo ∧
      v = w.after done con recvs rooms ∧ Stream v (todo ++ tail) part) pending
    (fun x => ∃ con recvs rooms, match tail with
      | [] => x = (ducClose ev (w.after bs con recvs rooms)).map fun v => (none, v)
      | l :: rest => x = some (some (0, l), w.after bs con recvs rooms) ∧
          cstr con.buf 4 = some (l.drop 4) ∧ Stream (w.after bs con recvs rooms) rest part)
    ?_ _ w ⟨[], bs, w.con, w.recvs, w.rooms, rfl, (after_nil w).symm, h⟩ (Nat.lt_succ_self _)
  rintro v ⟨done, todo, con, recvs, rooms, rfl, rfl, hv⟩
  rcases stream_getline hv with ⟨l, ms, con', hl, hg, h0, h4, hs⟩ | ⟨con', hg, hs, hroom, hnil⟩
  · have hlen : ¬ l.length < 4 := not_lt.2 (hv.lines l (hl ▸ List.mem_cons_self)).min
    cases todo with
    | cons t todo =>
      -- a broadcast
      obtain ⟨rfl, rfl⟩ := List.cons.inj hl
      have hb : isBcast t = true := hbs t (by simp)
      have hbody : rnextBody ev (w.after done con recvs rooms) =
          some (.inl (w.after (done ++ [t]) con' recvs rooms)) := by
        simp only [rnextBody, hg, h0, if_neg hlen, hb, Option.bind_eq_bind, Option.bind_some,
          Bool.not_true, Bool.false_eq_true, if_false, Option.pure_def]
        simp [World.after, ducBcast]
      exact Or.inl ⟨_, hbody, ⟨done ++ [t], todo, con', recvs, rooms, by simp, rfl,
        hs.fd, hs.holds, hs.lines, hs.part_free, hs.part_len⟩, rnextBody_pending hbody⟩
    | nil =>
      -- the reply line
      rw [List.nil_append] at hl
      subst hl
      have hb : isBcast l = false := htail l rfl
      refine Or.inr ⟨some (some (0, l), w.after done con' recvs rooms), ?_, con', recvs, rooms, ?_⟩
      · simp only [rnextBody, hg, h0, if_neg hlen, hb, Option.bind_eq_bind, Option.bind_some,
          Bool.not_false, if_true, Option.pure_def, Option.map_some]
        rfl
      · rw [List.append_nil]
        exact ⟨rfl, h4, hs⟩
  · obtain ⟨r, con₁, recvs₁, rooms₁, hr, ⟨rfl, hs₁⟩ | ⟨rfl, hin⟩⟩ := stream_recv hs hroom
    · -- more bytes
      have hbody : rnextBody ev (w.after done con recvs rooms) =
          some (.inl (w.after done con₁ recvs₁ rooms₁)) := by
        simp only [rnextBody, hg, Option.bind_eq_bind, Option.bind_some, hr]
        rfl
      exact Or.inl ⟨_, hbody, ⟨done, todo, con₁, recvs₁, rooms₁, rfl, rfl, hs₁⟩,
        rnextBody_pending hbody⟩
    · -- the end of the stream
      obtain ⟨rfl, rfl⟩ := List.append_eq_nil_iff.1 (hnil hin)
      refine Or.inr ⟨(ducClose ev (w.after done con₁ recvs₁ rooms₁)).map fun v => (none, v), ?_,
        con₁, recvs₁, rooms₁, by rw [List.append_nil]⟩
      simp only [rnextBody, hg, Option.bind_eq_bind, Option.bind_some, hr]
      change ((ducClose ev (w.after done con₁ recvs₁ rooms₁)).bind _) = _
      cases ducClose ev (w.after done con₁ recvs₁ rooms₁) <;> rfl

/-- The world after a reply line has been taken. -/
def World.took (w : World) (l : List UInt8) : World :=
  { w with line := some 4, code := l.take 3, inreply := l[3]? = some 45 }

variable {bs rest more rep : List (List UInt8)} {c : List UInt8}

/-- **`_duc_rnext`** takes the next reply line. -/
theorem rnext_line (ev : Handlers) (hin : w.inreply = true)
    (hc : w.code = [] ∨ w.code = l.take 3) (hbs : ∀ b ∈ bs, isBcast b = true) (hl : isBcast l = false)
    (h : Stream w (bs ++ l :: rest) part) :
    ∃ con recvs rooms, ducRnext ev w = some (0, (w.after bs con recvs rooms).took l) ∧
      ((w.after bs con recvs rooms).took l).rline = some (l.drop 4) ∧
      Stream ((w.after bs con recvs rooms).took l) rest part := by
  obtain ⟨con, recvs, rooms, hloop, htext, hs⟩ := rnextLoop_stream ev hbs
    (show ∀ k ∈ (l :: rest).head?, isBcast k = false by simpa using hl) h
  refine ⟨con, recvs, rooms, ?_, ?_, hs.fd, hs.holds, hs.lines, hs.part_free, hs.part_len⟩
  · have hcode : (w.after bs con recvs rooms).code = w.code := rfl
    simp only [ducRnext, hin, Bool.not_true, Bool.false_eq_true, if_false, hloop,
      Option.bind_eq_bind, Option.bind_some, Option.pure_def, hcode]
    rcases hc with hc | hc
    · rw [if_neg (not_not.2 hc)]
      rfl
    · by_cases hnil : w.code = []
      · rw [if_neg (not_not.2 hnil)]
        rfl
      · have hsame : w.code.take 3 = l.take 3 := by rw [hc, List.take_take]; rfl
        rw [if_pos hnil, if_neg (not_not.2 hsame)]
        simp only [World.took, World.after, hc]
  · exact htext

/-- **`_duc_rnext`** closes the connection at the end of the stream. -/
theorem rnext_end (ev : Handlers) (hin : w.inreply = true) (hbs : ∀ b ∈ bs, isBcast b = true) (h : Stream w bs part) :
    ∃ con recvs rooms,
      ducRnext ev w = (ducClose ev (w.after bs con recvs rooms)).map fun v => (-1, v) := by
  obtain ⟨con, recvs, rooms, hloop⟩ := rnextLoop_stream ev hbs
    (show ∀ l ∈ ([] : List (List UInt8)).head?, isBcast l = false by nofun) (by rwa [List.append_nil])
  refine ⟨con, recvs, rooms, ?_⟩
  simp only [ducRnext, hin, Bool.not_true, Bool.false_eq_true, if_false, hloop, Option.bind_eq_bind]
  cases ducClose ev (w.after bs con recvs rooms) <;> rfl

theorem Stream.congr (h : Stream w ls part) (hcon : v.con = w.con) (hrecvs : v.recvs = w.recvs) :
    Stream v ls part :=
  ⟨hcon ▸ h.fd, by rw [hcon, hrecvs]; exact h.holds, h.lines, h.part_free, h.part_len⟩

/-! ## Polling -/

/-- **The loop in `duc_poll`** takes lines of the stream and dispatches the broadcasts among them. -/
theorem pollLoop_stream {ev : Handlers} (ht : w.con.Tidy) (h : Stream w ls part)
    (hloop : pollLoop ev w = some v) : ∃ used ms, ls = used ++ ms ∧
      v.log = w.log ++ (used.filter isBcast).map .bcast ∧ Stream v ms part ∧ v.recvs = w.recvs ∧
      v.con.Tidy := by
  let Read (v : World) := ∃ used ms, ls = used ++ ms ∧
      v.log = w.log ++ (used.filter isBcast).map .bcast ∧ Stream v ms part ∧ v.recvs = w.recvs ∧
      v.con.Tidy
  -- a line of the buffer is the next line of the stream
  have hline : ∀ {u : World} {used ms i t con}, Stream u ms part → ls = used ++ ms →
      ducSockGetline u.con = some (some i, con) → cstr con.buf i = some t →
      4 ≤ t.length ∧ ∃ ms', ls = (used ++ [t]) ++ ms' ∧ Stream { u with con := con } ms' part := by
    intro u used ms i t con hs hls hg ht'
    rcases stream_getline hs with ⟨l, ms', con', rfl, hg', htext, -, hs'⟩ | ⟨con', hg', -⟩
    · obtain ⟨hi, rfl⟩ := Prod.mk.inj (Option.some.inj (hg'.symm.trans hg))
      obtain rfl := Option.some.inj hi
      obtain rfl := Option.some.inj (htext.symm.trans ht')
      exact ⟨(hs.lines l List.mem_cons_self).min, ms', by simp [hls], hs'⟩
    · cases (Prod.mk.inj (Option.some.inj (hg'.symm.trans hg))).1
  refine pollLoop_rule (I := Read) (Q := Read) ⟨[], ls, rfl, by simp, h, rfl, ht⟩ ?_ ?_ ?_ ?_ hloop
  · rintro u i t con ⟨used, ms, hls, hlog, hs, hrecvs, htidy⟩ hg htext - hnot
    obtain ⟨-, ms', hls', hs'⟩ := hline hs hls hg htext
    refine ⟨used ++ [t], ms', hls', ?_, hs', hrecvs, getline_tidy hg htidy⟩
    simpa [List.filter_append, hnot] using hlog
  · rintro u i t con ⟨used, ms, hls, hlog, hs, hrecvs, htidy⟩ hg htext - hnews
    obtain ⟨-, ms', hls', hs'⟩ := hline hs hls hg htext
    refine ⟨used ++ [t], ms', hls', ?_, hs'.congr rfl rfl, hrecvs, getline_tidy hg htidy⟩
    simp [ducBcast, hlog, List.filter_append, hnews]
  · rintro u con ⟨used, ms, hls, hlog, hs, hrecvs, htidy⟩ hg
    rcases stream_getline hs with ⟨l, ms', con', rfl, hg', -⟩ | ⟨con', hg', hs', -⟩
    · cases (Prod.mk.inj (Option.some.inj (hg'.symm.trans hg))).1
    · obtain ⟨-, rfl⟩ := Prod.mk.inj (Option.some.inj (hg'.symm.trans hg))
      exact ⟨used, ms, hls, hlog, hs', hrecvs, getline_tidy hg htidy⟩
  · rintro u i t con v ⟨used, ms, hls, -, hs, -⟩ hg htext hshort -
    obtain ⟨hmin, -⟩ := hline hs hls hg htext
    omega

end Dudlc
