import Dudlc.Buffer

/-!
# Lines and packets

* `WireLine`: a line that fits the buffer with its line end; `getline_stream`: reading from a stream
  of such lines of which a part has arrived.
* **`lines_exact`**: `duc_sock_recv` and `duc_sock_getline` calls in any order return the lines of
  the stream, and a `NULL` comes only when every complete line has been returned and there is room.
* `drain`, `readStep`: receive a piece and take lines until `NULL`; `readPieces_feed`: this is `feed`.
* **`pieces_lines_iff`**: two ways of cutting a stream give the same lines just when they cut every
  run of line ends equally often.
-/

namespace Dudlc

open Lib

/-- A line of `lo` to 2046 bytes without NUL, CR and LF. -/
structure WireLine (lo : ℕ) (l : List UInt8) : Prop where
  min : lo ≤ l.length
  max : l.length ≤ 2046
  free : ∀ b ∈ l, isStop b = false

instance (lo : ℕ) (l : List UInt8) : Decidable (WireLine lo l) :=
  decidable_of_iff (lo ≤ l.length ∧ l.length ≤ 2046 ∧ (l.all fun b => !isStop b) = true)
    ⟨fun h => ⟨h.1, h.2.1, by simpa using h.2.2⟩, fun h => ⟨h.min, h.max, by simpa using h.free⟩⟩

theorem WireLine.eol {lo : ℕ} {l : List UInt8} (h : WireLine lo l) : ∀ b ∈ l, isEol b = false :=
  fun b hb => by
    have := h.free b hb
    rw [isStop, Bool.or_eq_false_iff] at this
    exact this.2

theorem WireLine.ne_nil {lo : ℕ} {l : List UInt8} (h : WireLine lo l) (hlo : 0 < lo) : l ≠ [] :=
  List.ne_nil_of_length_pos (hlo.trans_le h.min)

theorem isStop_LF : isStop LF = true := rfl

theorem fresh_wireLines {lo : ℕ} (hlo : 0 < lo) {ls : List (List UInt8)}
    (hls : ∀ l ∈ ls, WireLine lo l) : Fresh isEol (wire LF ls) :=
  fresh_wire (fun l hl => (hls l hl).ne_nil hlo) fun l hl => (hls l hl).eol

variable {s : DucSock} {taken u v l r : List UInt8}

/-- **Reading from a stream of lines.** Of the stream `l`, LF, `r` the part `u` is unread and the
part `v` has not arrived: either `l` is incomplete and there is room, or it is returned. -/
theorem getline_stream {lo : ℕ} (h : Holds s taken u) (hl : WireLine lo l) (hr : Fresh isEol r)
    (huv : u ++ v = l ++ LF :: r) :
    ((∀ b ∈ u, isStop b = false) ∧ (∃ w, v = w ++ LF :: r) ∧
      ∃ s', ducSockGetline s = some (none, s') ∧ Holds s' [] u ∧ s'.fd = s.fd ∧ 1 ≤ s'.room) ∨
    ∃ u', u = l ++ LF :: u' ∧ u' ++ v = r ∧
      ∃ s', ducSockGetline s = some (some 0, s') ∧ Holds s' (l ++ [0]) u' ∧ s'.fd = s.fd := by
  rcases nextLine_wire hl.free isStop_LF hr huv with ⟨hu, w, hv, hw⟩ | ⟨u', rfl, hu', -⟩
  · have hlen : u.length ≤ 2046 := by
      have := congrArg List.length hw
      rw [List.length_append] at this
      exact le_trans (by omega) hl.max
    have hlt : u.length < BUFLENRCV - 1 := Nat.lt_succ_of_le hlen
    obtain ⟨s', hg, hs', hfd, -⟩ := getline_of_none h hu hlt
    refine Or.inl ⟨hu, ⟨w, hv⟩, s', hg, hs', hfd, ?_⟩
    rw [DucSock.room, hs'.ilen_eq, List.length_nil]
    omega
  · have hu : Fresh isEol u' := hr.initial ⟨v, hu'⟩
    obtain ⟨s', hg, hs', hfd⟩ := getline_of_some h hl.free isStop_LF
    rw [hu.dropWhile] at hs'
    rw [hu.takeWhile] at hs'
    exact Or.inr ⟨u', rfl, hu', s', hg, hs', hfd⟩

/-! ## Any order of calls -/

/-- The bytes a step receives. -/
def SockOp.bytes : SockOp → List UInt8
  | .recv bs => bs
  | .getline => []

/-- The bytes received in a run. -/
def received (ops : List SockOp) : List UInt8 := ops.flatMap SockOp.bytes

theorem sockStep_rcvd {r r' : SockRun} {op : SockOp} (h : sockStep r op = some r') :
    r'.rcvd = r.rcvd ++ op.bytes := by
  cases op with
  | recv bs =>
    simp only [sockStep, Option.bind_eq_bind, Option.bind_eq_some_iff, Option.pure_def,
      Option.some.injEq] at h
    obtain ⟨a, -, rfl⟩ := h
    rfl
  | getline =>
    simp only [sockStep, Option.bind_eq_bind, Option.bind_eq_some_iff, Option.pure_def,
      Option.some.injEq] at h
    obtain ⟨a, -, t, -, rfl⟩ := h
    simp [SockOp.bytes]

theorem along_received {S : List UInt8} (r : SockRun) (ops : List SockOp)
    (h : r.rcvd ++ received ops <+: S) :
    Along sockStep (fun r op => r.rcvd ++ op.bytes <+: S) r ops := by
  induction ops generalizing r with
  | nil => trivial
  | cons op ops ih =>
    rw [received, List.flatMap_cons, ← received, ← List.append_assoc] at h
    exact ⟨(List.prefix_append _ _).trans h, fun r' hr' => ih r' (by rwa [sockStep_rcvd hr'])⟩

/-- The lines `done` have been returned, `u` is unread, and the rest `v` of the stream is to come. -/
structure Reading (ls : List (List UInt8)) (r : SockRun) (done todo : List (List UInt8))
    (taken u v : List UInt8) : Prop where
  open_ : r.s.fd ≠ -1
  holds : Holds r.s taken u
  split : ls = done ++ todo
  got : r.got.reduceOption = done
  rcvd : r.rcvd = wire LF done ++ u
  rest : u ++ v = wire LF todo

variable {ls done todo : List (List UInt8)}

theorem sockStep_reading (hls : ∀ l ∈ ls, WireLine 1 l) {rn : SockRun}
    (h : Reading ls rn done todo taken u v) {op : SockOp} (hop : Delivers rn op)
    (hS : rn.rcvd ++ op.bytes <+: wire LF ls) :
    ∃ rn' done' todo' taken' u' v', sockStep rn op = some rn' ∧
      Reading ls rn' done' todo' taken' u' v' ∧
      (op = .getline → rn'.got.getLast? = some none →
        (∀ b ∈ u', isStop b = false) ∧ 1 ≤ rn'.s.room) := by
  cases op with
  | recv bs =>
    obtain ⟨s', hr, hs', hfd⟩ := recv_holds h.holds h.open_ hop.1 hop.2
    obtain ⟨v', hv'⟩ : bs <+: v := by
      rw [h.rcvd, h.split, wire_append, ← h.rest, List.append_assoc,
        List.prefix_append_right_inj, List.prefix_append_right_inj] at hS
      exact hS
    refine ⟨{ rn with s := s', rcvd := rn.rcvd ++ bs }, done, todo, taken, u ++ bs, v',
      by simp [sockStep, hr], ⟨hfd ▸ h.open_, hs', h.split, h.got, ?_, ?_⟩, fun h => by cases h⟩
    · change rn.rcvd ++ bs = _
      rw [h.rcvd, List.append_assoc]
    · rw [List.append_assoc, hv', h.rest]
  | getline =>
    have hnull : ∀ s', ducSockGetline rn.s = some (none, s') → Holds s' [] u → s'.fd = rn.s.fd →
        (∀ b ∈ u, isStop b = false) → 1 ≤ s'.room →
        ∃ rn' done' todo' taken' u' v', sockStep rn .getline = some rn' ∧
          Reading ls rn' done' todo' taken' u' v' ∧ (SockOp.getline = .getline →
            rn'.got.getLast? = some none → (∀ b ∈ u', isStop b = false) ∧ 1 ≤ rn'.s.room) := by
      intro s' hg hs' hfd hu hroom
      exact ⟨{ rn with s := s', got := rn.got ++ [none] }, done, todo, [], u, v,
        by simp [sockStep, hg, lineText], ⟨hfd ▸ h.open_, hs', h.split,
          by simp [List.reduceOption_append, h.got], h.rcvd, h.rest⟩, fun _ _ => ⟨hu, hroom⟩⟩
    cases todo with
    | nil =>
      obtain rfl : u = [] := (List.append_eq_nil_iff.1 h.rest).1
      obtain ⟨s', hg, hs', hfd, -⟩ := getline_of_none h.holds (fun _ h => absurd h List.not_mem_nil) (by decide)
      refine hnull s' hg hs' hfd (fun _ h => absurd h List.not_mem_nil) ?_
      rw [DucSock.room, hs'.ilen_eq]
      decide
    | cons l todo =>
      have hmem : ∀ k ∈ l :: todo, WireLine 1 k := fun k hk =>
        hls k (h.split ▸ List.mem_append_right _ hk)
      have hl := hmem l List.mem_cons_self
      have hfresh := fresh_wireLines Nat.one_pos fun k hk => hmem k (List.mem_cons_of_mem _ hk)
      rcases getline_stream h.holds hl hfresh (by rw [h.rest, wire_cons]) with
        ⟨hu, -, s', hg, hs', hfd, hroom⟩ | ⟨u', rfl, hu', s', hg, hs', hfd⟩
      · exact hnull s' hg hs' hfd hu hroom
      · have htext : cstr s'.buf 0 = some l :=
          cstr_line hs' (not_mem_of_not_isStop hl.free) 0 (Nat.zero_le _)
        refine ⟨{ rn with s := s', got := rn.got ++ [some l] }, done ++ [l], todo, l ++ [0], u', v,
          by simp [sockStep, hg, lineText, htext], ⟨hfd ▸ h.open_, hs', by simp [h.split], ?_, ?_,
            hu'⟩, fun _ hn => ?_⟩
        · simp [List.reduceOption_append, h.got]
        · simp [h.rcvd, wire_append]
        · simp at hn

theorem count_LF {done : List (List UInt8)} (hdone : ∀ l ∈ done, WireLine 1 l)
    (hu : ∀ b ∈ u, isStop b = false) : (wire LF done ++ u).count LF = done.length := by
  have hnot : ∀ m : List UInt8, (∀ b ∈ m, isStop b = false) → m.count LF = 0 := fun m hm =>
    List.count_eq_zero.2 fun h => by simpa [isStop_LF] using hm LF h
  rw [List.count_append, hnot u hu]
  induction done with
  | nil => rfl
  | cons l done ih =>
    have ih := ih fun k hk => hdone k (List.mem_cons_of_mem _ hk)
    rw [wire_cons, List.count_append, List.count_cons_self, hnot l (hdone l List.mem_cons_self).free,
      List.length_cons]
    omega

theorem runs_reading (hls : ∀ l ∈ ls, WireLine 1 l) (hs : s.Fresh) {ops : List SockOp}
    (hops : Along sockStep Delivers (.start s) ops) (hS : received ops <+: wire LF ls) :
    ∃ rn, runs sockStep (.start s) ops = some rn ∧
      ∃ done todo taken u v, Reading ls rn done todo taken u v := by
  have hstart : Reading ls (.start s) [] ls [] [] (wire LF ls) :=
    ⟨hs.1, holds_nil hs.2.1 hs.2.2, rfl, rfl, rfl, rfl⟩
  refine Along.runs_inv (I := fun rn => ∃ done todo taken u v, Reading ls rn done todo taken u v)
    (fun rn op hI hP => ?_) ⟨_, _, _, _, _, hstart⟩ (hops.and (along_received _ ops hS))
  obtain ⟨done, todo, taken, u, v, h⟩ := hI
  obtain ⟨rn', d', t', k', u', v', hrn', h', -⟩ := sockStep_reading hls h hP.1 hP.2
  exact ⟨rn', hrn', d', t', k', u', v', h'⟩

theorem runs_rcvd {r r' : SockRun} {ops : List SockOp} (h : runs sockStep r ops = some r') :
    r'.rcvd = r.rcvd ++ received ops := by
  induction ops generalizing r with
  | nil =>
    obtain rfl : r = r' := Option.some.inj h
    simp [received]
  | cons op ops ih =>
    rw [runs_cons, Option.bind_eq_some_iff] at h
    obtain ⟨r₁, h₁, h⟩ := h
    rw [ih h, sockStep_rcvd h₁, received, received, List.flatMap_cons, List.append_assoc]

/-- **Line framing is exact.** The calls that do not return `NULL` return the lines of the stream in
order; and when a call returns `NULL`, every complete line that has arrived has been returned and at
least one byte of room is left. -/
theorem lines_exact (hs : s.Fresh) (hls : ∀ l ∈ ls, WireLine 1 l) (ops : List SockOp)
    (hops : Along sockStep Delivers (.start s) ops) (hS : received ops <+: wire LF ls) :
    ∃ r, runs sockStep (.start s) ops = some r ∧ r.rcvd = received ops ∧
      r.got.reduceOption <+: ls ∧
      (ops.getLast? = some .getline → r.got.getLast? = some none →
        r.got.reduceOption = ls.take ((received ops).count LF) ∧ 1 ≤ r.s.room) := by
  obtain ⟨r, hr, done, todo, taken, u, v, h⟩ := runs_reading hls hs hops hS
  refine ⟨r, hr, runs_rcvd hr, ⟨todo, by rw [h.got, h.split]⟩, fun hlast hnull => ?_⟩
  rcases List.eq_nil_or_concat ops with rfl | ⟨js, op, rfl⟩
  · cases hlast
  obtain rfl : op = .getline := by simpa using hlast
  -- the state before the last call
  have hjs : received js <+: wire LF ls := by
    rw [received, List.concat_eq_append, List.flatMap_append] at hS
    exact (List.prefix_append _ _).trans hS
  rw [List.concat_eq_append] at hops hr
  obtain ⟨r₁, hr₁, d, t, k, w, x, h₁⟩ := runs_reading hls hs hops.initial hjs
  rw [runs_append, hr₁, Option.bind_some, runs_cons] at hr
  obtain ⟨r', d', t', k', w', x', hr', h', hclause⟩ := sockStep_reading hls h₁
    (show Delivers r₁ .getline from trivial) (by rw [runs_rcvd hr₁, SockOp.bytes, List.append_nil]; exact hjs)
  obtain rfl : r' = r := by simpa [hr'] using hr
  obtain ⟨hw, hroom⟩ := hclause rfl hnull
  have hd : ∀ l ∈ d', WireLine 1 l := fun l hl => hls l (h'.split ▸ List.mem_append_left _ hl)
  have hrcvd : received js = wire LF d' ++ w' := by
    rw [← h'.rcvd, sockStep_rcvd hr', runs_rcvd hr₁, SockOp.bytes, List.append_nil]
    rfl
  have hcount : (received (js.concat .getline)).count LF = d'.length := by
    rw [← count_LF hd hw, ← hrcvd, received, List.concat_eq_append, List.flatMap_append]
    simp [SockOp.bytes, received]
  rw [hcount, h'.got, h'.split, List.take_left]
  exact ⟨rfl, hroom⟩

/-- The theorem at a stream of one line that arrives in two pieces. -/
theorem lines_exact_pieces :
    ∃ r, runs sockStep (.start freshSock) [.recv [97], .getline, .recv [98, LF], .getline] = some r ∧
      r.rcvd = [97, 98, LF] ∧ r.got.reduceOption <+: [[97, 98]] :=
  have ⟨r, hr, hrcvd, hgot, _⟩ := lines_exact freshSock_fresh
    (show ∀ l ∈ [[97, 98]], WireLine 1 l by decide)
    [.recv [97], .getline, .recv [98, LF], .getline] (by decide +kernel) ⟨[], rfl⟩
  ⟨r, hr, hrcvd, hgot⟩

/-! ## Draining after every packet -/

/-- One round of the loop that takes lines until `NULL`. -/
def drainBody (p : DucSock × List (List UInt8)) :
    Option (DucSock × List (List UInt8) ⊕ DucSock × List (List UInt8)) := do
  let (l, s) ← ducSockGetline p.1
  match ← lineText s l with
  | none => return .inr (s, p.2)
  | some t => return .inl (s, p.2 ++ [t])

/-- `duc_sock_getline` until `NULL`. -/
def drain (p : DucSock × List (List UInt8)) : Option (DucSock × List (List UInt8)) :=
  loop drainBody (p.1.ilen - p.1.llen + 1) p

/-- Receive a piece and take its lines. -/
def readStep (p : DucSock × List (List UInt8)) (c : List UInt8) :
    Option (DucSock × List (List UInt8)) := do
  let (_, s) ← ducSockRecv p.1 (some c)
  drain (s, p.2)

/-- A piece fits the room that is left. -/
def Fits (p : DucSock × List (List UInt8)) (c : List UInt8) : Prop := c ≠ [] ∧ c.length ≤ p.1.room

instance (p : DucSock × List (List UInt8)) : DecidablePred (Fits p) := fun c =>
  inferInstanceAs (Decidable (c ≠ [] ∧ c.length ≤ p.1.room))

/-- No NUL, and at most 2046 bytes between line ends. -/
structure Readable (S : List UInt8) : Prop where
  nul : 0 ∉ S
  run : ∀ m, m <:+: S → (∀ b ∈ m, isEol b = false) → m.length ≤ 2046

theorem Readable.part {S : List UInt8} (h : Readable S) (hu : u <:+: S) : Readable u :=
  ⟨fun h0 => h.nul (hu.subset h0), fun m hm => h.run m (hm.trans hu)⟩

theorem Readable.isStop_eq {S : List UInt8} (h : Readable S) {b : UInt8} (hb : b ∈ S) :
    isStop b = isEol b := by
  have : b ≠ 0 := ne_of_mem_of_not_mem hb h.nul
  rw [isStop]
  simp [this]

/-- **Draining** returns the complete lines and keeps the rest. -/
theorem drain_lines (h : Holds s taken u) (hu : Readable u) (ls : List (List UInt8)) :
    ∃ s', drain (s, ls) = some (s', ls ++ (cut (toks isEol false u)).1) ∧
      Holds s' [] (cut (toks isEol false u)).2 ∧ s'.fd = s.fd := by
  let I : DucSock × List (List UInt8) → Prop := fun p => p.1.fd = s.fd ∧
    ∃ k v done, Holds p.1 k v ∧ Readable v ∧ p.2 = ls ++ done ∧
      cut (toks isEol false u) = (done ++ (cut (toks isEol false v)).1, (cut (toks isEol false v)).2)
  have hbody : ∀ p, I p →
      (∃ p', drainBody p = some (.inl p') ∧ I p' ∧ p'.1.ilen - p'.1.llen < p.1.ilen - p.1.llen) ∨
      ∃ p', drainBody p = some (.inr p') ∧ p'.1.fd = s.fd ∧
        p'.2 = ls ++ (cut (toks isEol false u)).1 ∧ Holds p'.1 [] (cut (toks isEol false u)).2 := by
    rintro ⟨t, out⟩ ⟨hfd, k, v, done, hv, hr, hout, hcut⟩
    replace hv : Holds t k v := hv
    replace hout : out = ls ++ done := hout
    have hlen : (∀ b ∈ v, isStop b = false) → v.length < BUFLENRCV - 1 := fun hstop =>
      Nat.lt_succ_of_le (hr.run v List.infix_rfl fun b hb => hr.isStop_eq hb ▸ hstop b hb)
    have hnext : nextLine isStop isEol v = nextLine isEol isEol v :=
      nextLine_congr fun b hb => hr.isStop_eq hb
    rcases getline_nextLine hv hlen with ⟨hnone, t', hg, ht', hfd'⟩ |
      ⟨l, r, e, hsome, hl, t', hg, ht', hfd'⟩
    · rw [hnext] at hnone
      rw [cut_toks_of_none hnone, List.append_nil] at hcut
      refine Or.inr ⟨(t', out), by simp [drainBody, hg, lineText], hfd'.trans hfd, ?_, ?_⟩
      · rw [hcut]; exact hout
      · rw [hcut]; exact ht'
    · rw [hnext] at hsome
      have htext : cstr t'.buf 0 = some l := cstr_line ht' hl 0 (Nat.zero_le _)
      have hlt := nextLine_length hsome
      refine Or.inl ⟨(t', out ++ [l]), by simp [drainBody, hg, lineText, htext],
        ⟨hfd'.trans hfd, _, r, done ++ [l], ht', hr.part (nextLine_suffix hsome).isInfix, ?_, ?_⟩, ?_⟩
      · change out ++ [l] = _
        rw [hout, List.append_assoc]
      · rw [hcut, cut_toks_nextLine hsome]; simp
      · simp only [hv.ilen_eq, hv.llen_eq, ht'.ilen_eq, ht'.llen_eq, Nat.add_sub_cancel_left]
        omega
  obtain ⟨p', hp', hfd, hout, hhold⟩ := loop_total I (fun p => p.1.ilen - p.1.llen) _ hbody _ (s, ls)
    ⟨rfl, taken, u, [], h, hu, by simp, by simp⟩ (Nat.lt_succ_self _)
  exact ⟨p'.1, by rw [drain, hp', ← hout], hhold, hfd⟩

/-- **Reading a stream in pieces is `feed`.** -/
theorem readPieces_feed (hs : s.Fresh) {cs : List (List UInt8)} (hcs : Readable cs.flatten)
    (hfit : Along readStep Fits (s, []) cs) :
    ∃ s', runs readStep (s, []) cs = some (s', (feed isEol cs).1) ∧
      Holds s' [] (feed isEol cs).2 ∧ s'.fd ≠ -1 := by
  induction cs using List.reverseRecOn with
  | nil => exact ⟨s, rfl, holds_nil hs.2.1 hs.2.2, hs.1⟩
  | append_singleton cs c ih =>
    rw [List.flatten_append, List.flatten_singleton] at hcs
    obtain ⟨s₁, hrun, hs₁, hfd⟩ := ih (hcs.part (List.prefix_append _ _).isInfix) hfit.initial
    have hc : Fits (s₁, (feed isEol cs).1) c := (hfit.last hrun)
    obtain ⟨s₂, hrecv, hs₂, hfd₂⟩ := recv_holds hs₁ hfd hc.1 hc.2
    obtain ⟨p, hp⟩ : (feed isEol cs).2 <:+ cs.flatten := feed_suffix cs
    have hread : Readable ((feed isEol cs).2 ++ c) :=
      hcs.part ⟨p, [], by rw [List.append_nil, ← List.append_assoc, hp]⟩
    obtain ⟨s₃, hdrain, hs₃, hfd₃⟩ := drain_lines hs₂ hread (feed isEol cs).1
    refine ⟨s₃, ?_, ?_, ?_⟩
    · simp [runs_append, hrun, runs_cons, readStep, hrecv, hdrain, feed_concat]
    · rw [feed_concat]; exact hs₃
    · rw [hfd₃, hfd₂]; exact hfd

/-- **Packet boundaries.** Two ways of cutting a stream into packets give the same lines just when
they cut every run of line ends equally often. -/
theorem pieces_lines_iff {t : DucSock} (hs : s.Fresh) (ht : t.Fresh) {S : List UInt8}
    (hS : Readable S) {cs ds : List (List UInt8)} (hcs : cs.flatten = S) (hds : ds.flatten = S)
    (hc : Along readStep Fits (s, []) cs) (hd : Along readStep Fits (t, []) ds) :
    (∃ p q, runs readStep (s, []) cs = some p ∧ runs readStep (t, []) ds = some q ∧ p.2 = q.2) ↔
      ∀ k, innerCuts isEol k cs = innerCuts isEol k ds := by
  subst hcs
  obtain ⟨s', hsrun, -⟩ := readPieces_feed hs hS hc
  obtain ⟨t', htrun, -⟩ := readPieces_feed ht (hds ▸ hS) hd
  have hne : ∀ p c, Fits p c → c ≠ [] := fun p c h => h.1
  rw [← feed_eq_iff (hc.forall_mem hne hsrun) (hd.forall_mem hne htrun) hds.symm]
  constructor
  · rintro ⟨p, q, hp, hq, hpq⟩
    obtain rfl := Option.some.inj (hsrun.symm.trans hp)
    obtain rfl := Option.some.inj (htrun.symm.trans hq)
    exact hpq
  · exact fun h => ⟨_, _, hsrun, htrun, h⟩

/-- A text and its two cuts, one of them inside a CRLF. -/
def crlfText : List UInt8 := [97, CR, LF]

/-- **A packet boundary inside a CRLF** gives an empty line. -/
theorem pieces_lines_crlf : Readable crlfText ∧ [crlfText].flatten = crlfText ∧
    [[97, CR], [LF]].flatten = crlfText ∧ Along readStep Fits (freshSock, []) [crlfText] ∧
    Along readStep Fits (freshSock, []) [[97, CR], [LF]] ∧
    (runs readStep (freshSock, []) [crlfText]).map Prod.snd = some [[97]] ∧
    (runs readStep (freshSock, []) [[97, CR], [LF]]).map Prod.snd = some [[97], []] :=
  ⟨⟨by decide, fun m hm _ => hm.length_le.trans (by decide)⟩, rfl, rfl, by decide +kernel,
    by decide +kernel, by decide +kernel, by decide +kernel⟩

/-- The theorem at a text cut in the middle of its line. -/
theorem pieces_lines_iff_cut : ∃ p q, runs readStep (freshSock, []) [[97, 98, LF]] = some p ∧
    runs readStep (freshSock, []) [[97], [98, LF]] = some q ∧ p.2 = q.2 :=
  (pieces_lines_iff freshSock_fresh freshSock_fresh (S := [97, 98, LF])
    ⟨by decide, fun m hm _ => hm.length_le.trans (by decide)⟩ rfl rfl (by decide +kernel)
    (by decide +kernel)).2 fun k => by
      simp [innerCuts, show endsEol isEol [97] = false from rfl]

end Dudlc
