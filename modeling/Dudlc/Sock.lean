import Dudlc.Lib.Lines
import Dudlc.Lib.Loop
import Dudlc.Lib.Mem

/-!
# The socket and its receive buffer

The connection of `sock.c`: bytes are appended at `ilen`, a line is terminated in place, and the
consumed prefix of length `llen` is removed by the next call. Every access to `buf` is checked:
an access outside it makes the operation `none`.

* `DucSock`, `freeline`, `ducSockRecv`, `ducSockGetline`, `ducSockDisconnect`.
* `Holds`: the buffer holds a consumed prefix and unread bytes.
* `freeline_holds`, `recv_holds`, `getline_of_none`, `getline_of_full`, `getline_of_some`: what each
  operation does to them. `ducSockGetline` is `nextLine` on the unread bytes, unless these fill
  the buffer without a line end.
-/

namespace Dudlc

open Lib

/-- `BUFLENRCV` -/
abbrev BUFLENRCV : ℕ := 2048

/-- Line feed. -/
abbrev LF : UInt8 := 10

/-- Carriage return. -/
abbrev CR : UInt8 := 13

/-- The bytes `duc_sock_getline` skips between lines. -/
def isEol (b : UInt8) : Bool := b ∈ [LF, CR]

/-- The bytes at which `duc_sock_getline` ends a line: the scan is a C string scan. -/
def isStop (b : UInt8) : Bool := b == 0 || isEol b

/-- `t_duc_sock`. The descriptor is `-1` while the socket is closed. -/
structure DucSock where
  fd : ℤ
  buf : Block UInt8 BUFLENRCV
  ilen : ℕ
  llen : ℕ
  deriving DecidableEq

/-- The number of bytes `duc_sock_recv` asks for. -/
def DucSock.room (s : DucSock) : ℕ := BUFLENRCV - s.ilen - 1

/-- `duc_sock_disconnect` -/
def ducSockDisconnect (s : DucSock) : DucSock :=
  if s.fd < 0 then s else { s with fd := -1, ilen := 0, llen := 0 }

/-- `freeline`. The length of the `memmove` is unsigned: a negative difference leaves the buffer. -/
def freeline (s : DucSock) : Option DucSock :=
  if s.llen = 0 then some s
  else if s.ilen < s.llen then none
  else do
    let buf ← s.buf.memmove 0 s.llen (s.ilen - s.llen)
    let buf ← buf.set (s.ilen - s.llen) 0
    return { s with buf := buf, ilen := s.ilen - s.llen, llen := 0 }

/-- `duc_sock_recv`, where `got` is what `recv` returns: `none` for an error, no bytes at the end of
the stream. -/
def ducSockRecv (s : DucSock) (got : Option (List UInt8)) : Option (ℤ × DucSock) :=
  if s.fd = -1 then some (-1, s)
  else match got with
    | none => some (-1, s)
    | some [] => some (-1, ducSockDisconnect s)
    | some bs => do
      let buf ← s.buf.blit s.ilen bs
      let buf ← buf.set (s.ilen + bs.length) 0
      return (0, { s with buf := buf, ilen := s.ilen + bs.length })

/-- `duc_sock_getline`. The result is `NULL` or the line's index in `buf`. -/
def ducSockGetline (s : DucSock) : Option (Option ℕ × DucSock) := do
  let s ← freeline s
  if s.ilen = 0 then return (none, s)
  let llen ← strcspn [LF, CR] s.buf 0
  if llen = s.ilen ∧ llen < BUFLENRCV - 1 then return (none, { s with llen := 0 })
  let buf ← s.buf.set llen 0
  let skip ← strspn [LF, CR] buf (llen + 1)
  return (some 0, { s with buf := buf, llen := llen + 1 + skip })

/-! ## What the buffer holds -/

/-- The buffer holds the consumed bytes `taken` and behind them the unread bytes `u`, followed by a
NUL unless it is empty. -/
structure Holds (s : DucSock) (taken u : List UInt8) : Prop where
  llen_eq : s.llen = taken.length
  ilen_eq : s.ilen = taken.length + u.length
  cells_eq : ∃ x junk, s.buf.cells = taken ++ (u ++ x :: junk) ∧ (taken ++ u ≠ [] → x = 0)

variable {s : DucSock} {taken u : List UInt8}

/-- A socket that has just been connected. -/
def DucSock.Fresh (s : DucSock) : Prop := s.fd ≠ -1 ∧ s.ilen = 0 ∧ s.llen = 0

/-- A freshly connected socket. -/
def freshSock : DucSock := ⟨3, Block.fill _ 0, 0, 0⟩

theorem freshSock_fresh : freshSock.Fresh := ⟨by decide, rfl, rfl⟩

theorem holds_nil (hi : s.ilen = 0) (hl : s.llen = 0) : Holds s [] [] := by
  refine ⟨hl, hi, ?_⟩
  rcases h : s.buf.cells with _ | ⟨x, junk⟩
  · have := s.buf.size
    rw [h] at this
    cases this
  · exact ⟨x, junk, rfl, fun h => absurd rfl h⟩

theorem Holds.length_lt (h : Holds s taken u) : taken.length + u.length < BUFLENRCV := by
  obtain ⟨x, junk, hc, -⟩ := h.cells_eq
  rw [← s.buf.size, hc]
  simp only [List.length_append, List.length_cons]
  omega

theorem Holds.ilen_lt (h : Holds s taken u) : s.ilen < BUFLENRCV := h.ilen_eq ▸ h.length_lt

theorem Holds.llen_le (h : Holds s taken u) : s.llen ≤ s.ilen := by
  rw [h.llen_eq, h.ilen_eq]; omega

theorem Holds.terminated (h : Holds s taken u) (hne : s.ilen ≠ 0) :
    s.buf.cells[s.ilen]? = some 0 := by
  obtain ⟨x, junk, hc, hx⟩ := h.cells_eq
  have hne : taken ++ u ≠ [] := by
    intro hn
    rw [List.append_eq_nil_iff] at hn
    rw [h.ilen_eq, hn.1, hn.2] at hne
    exact hne rfl
  rw [hc, h.ilen_eq, ← List.append_assoc, ← List.length_append, List.getElem?_append_right le_rfl,
    Nat.sub_self, hx hne]
  rfl

/-- **`freeline` drops the consumed bytes.** -/
theorem freeline_holds (h : Holds s taken u) :
    ∃ s', freeline s = some s' ∧ Holds s' [] u ∧ s'.fd = s.fd ∧
      (s.buf.cells[s.ilen]? = some 0 → s'.buf.cells[s'.ilen]? = some 0) := by
  obtain ⟨x, junk, hc, hx⟩ := h.cells_eq
  rcases ht : taken with _ | ⟨y, t⟩
  · subst ht
    exact ⟨s, if_pos h.llen_eq, h, rfl, id⟩
  · have hl : s.llen ≠ 0 := by rw [h.llen_eq, ht]; simp
    have hle : ¬ s.ilen < s.llen := not_lt.2 h.llen_le
    have hu : s.ilen - s.llen = u.length := by rw [h.ilen_eq, h.llen_eq]; omega
    obtain ⟨buf, hmove, hcells⟩ := Block.memmove_append hc
    obtain ⟨z, junk', hjunk⟩ : ∃ z junk', (taken ++ (u ++ x :: junk)).drop u.length = z :: junk' := by
      refine List.exists_cons_of_ne_nil fun hn => ?_
      have := congrArg List.length hn
      simp only [List.length_drop, List.length_append, List.length_cons, List.length_nil] at this
      omega
    rw [hjunk] at hcells
    obtain ⟨buf', hset, hcells'⟩ := Block.set_append (y := 0) hcells
    refine ⟨{ s with buf := buf', ilen := u.length, llen := 0 }, ?_,
      ⟨rfl, (Nat.zero_add _).symm, 0, junk', hcells', fun _ => rfl⟩, rfl, fun _ => ?_⟩
    · rw [freeline, if_neg hl, if_neg hle, hu, h.llen_eq, hmove]
      simp [hset]
    · change buf'.cells[u.length]? = some 0
      rw [hcells', List.getElem?_append_right le_rfl, Nat.sub_self]
      rfl

/-- **`duc_sock_recv` appends what arrives.** -/
theorem recv_holds (h : Holds s taken u) (hfd : s.fd ≠ -1) {bs : List UInt8} (hne : bs ≠ [])
    (hroom : bs.length ≤ s.room) :
    ∃ s', ducSockRecv s (some bs) = some (0, s') ∧ Holds s' taken (u ++ bs) ∧ s'.fd = s.fd := by
  obtain ⟨x, junk, hc, -⟩ := h.cells_eq
  have hlt := h.length_lt
  have hlen : (x :: junk).length = BUFLENRCV - s.ilen := by
    have := s.buf.size
    rw [hc] at this
    simp only [List.length_append] at this
    rw [h.ilen_eq]
    omega
  have hfit : bs.length < (x :: junk).length := by
    rw [DucSock.room] at hroom
    have := h.ilen_lt
    omega
  obtain ⟨old, y, junk', hj, hold⟩ :
      ∃ old y junk', x :: junk = old ++ y :: junk' ∧ old.length = bs.length := by
    refine ⟨(x :: junk).take bs.length, (x :: junk)[bs.length], (x :: junk).drop (bs.length + 1),
      ?_, by rw [List.length_take]; omega⟩
    rw [← List.drop_eq_getElem_cons hfit, List.take_append_drop]
  have hcat : s.buf.cells = (taken ++ u) ++ (old ++ y :: junk') := by
    rw [hc, hj, List.append_assoc]
  have hi : s.ilen = (taken ++ u).length := by rw [h.ilen_eq, List.length_append]
  obtain ⟨buf, hblit, hcells⟩ := Block.blit_append hcat hold
  rw [← List.append_assoc] at hcells
  obtain ⟨buf', hset, hcells'⟩ := Block.set_append (y := 0) hcells
  replace hset : buf.set (s.ilen + bs.length) 0 = some buf' := by
    rwa [List.length_append, ← hi] at hset
  obtain ⟨b, bs, rfl⟩ := List.exists_cons_of_ne_nil hne
  refine ⟨{ s with buf := buf', ilen := s.ilen + (b :: bs).length }, ?_,
    ⟨h.llen_eq, ?_, 0, junk', ?_, fun _ => rfl⟩, rfl⟩
  · unfold ducSockRecv
    rw [← hi] at hblit
    simp only [if_neg hfd, hblit, hset, Option.bind_eq_bind, Option.bind_some, Option.pure_def]
  · simp only [h.ilen_eq, List.length_append]; omega
  · simpa using hcells'

/-! ## Lines -/

theorem isEol_iff {b : UInt8} : isEol b = true ↔ b = LF ∨ b = CR := by simp [isEol]

theorem isEol_ne_zero {b : UInt8} (h : isEol b = true) : b ≠ 0 := by
  rintro rfl
  cases h

theorem isStop_eq (b : UInt8) : (b ≠ 0 && b ∉ [LF, CR]) = !isStop b := by
  rw [isStop, isEol]
  by_cases h : b = 0 <;> simp [h]

theorem isStop_zero : isStop 0 = true := rfl

theorem not_mem_of_not_isStop {l : List UInt8} (hl : ∀ b ∈ l, isStop b = false) : 0 ∉ l :=
  fun h => by simpa [isStop_zero] using hl 0 h

theorem strcspn_line {m : Block UInt8 BUFLENRCV} {l r : List UInt8} {c : UInt8}
    (h : m.cells = l ++ c :: r) (hl : ∀ b ∈ l, isStop b = false) (hc : isStop c = true) :
    strcspn [LF, CR] m 0 = some l.length := by
  rw [strcspn, show (fun b : UInt8 => b ≠ 0 && b ∉ [LF, CR]) = fun b => !isStop b from
    funext isStop_eq]
  exact Block.span_append (a := []) h (fun b hb => by simpa using hl b hb) (by simpa using hc)

theorem strspn_eol {m : Block UInt8 BUFLENRCV} {a r junk : List UInt8}
    (h : m.cells = a ++ (r ++ 0 :: junk)) :
    strspn [LF, CR] m a.length = some (r.takeWhile isEol).length := by
  have hp : ∀ b ∈ r.takeWhile isEol, (b ≠ 0 && b ∈ [LF, CR]) = true := by
    intro b hb
    have hb : isEol b = true := List.mem_takeWhile_imp hb
    simpa [isEol_ne_zero hb] using isEol_iff.1 hb
  rcases hd : r.dropWhile isEol with _ | ⟨c, q⟩
  · rw [List.dropWhile_eq_nil_iff] at hd
    have ht : r.takeWhile isEol = r := List.takeWhile_eq_self_iff.2 hd
    rw [ht] at hp ⊢
    exact Block.span_append h hp (by decide)
  · have hc : isEol c = false := by
      have := List.head_dropWhile_not isEol (hd ▸ List.cons_ne_nil c q)
      simpa [hd] using this
    refine Block.span_append (x := c) (r := q ++ 0 :: junk) ?_ hp ?_
    · rw [h]
      conv_lhs => rw [← List.takeWhile_append_dropWhile (p := isEol) (l := r), hd]
      simp
    · rw [Bool.and_eq_false_iff]
      exact Or.inr hc

theorem getline_eq (h : freeline s = some s') (hne : s'.ilen ≠ 0) :
    ducSockGetline s = (strcspn [LF, CR] s'.buf 0).bind fun llen =>
      if llen = s'.ilen ∧ llen < BUFLENRCV - 1 then some (none, { s' with llen := 0 })
      else (s'.buf.set llen 0).bind fun buf => (strspn [LF, CR] buf (llen + 1)).bind fun skip =>
        some (some 0, { s' with buf := buf, llen := llen + 1 + skip }) := by
  simp only [ducSockGetline, h, Option.bind_eq_bind, Option.bind_some, Option.pure_def, if_neg hne]

/-- **No line yet.** -/
theorem getline_of_none (h : Holds s taken u) (hu : ∀ b ∈ u, isStop b = false)
    (hlen : u.length < BUFLENRCV - 1) :
    ∃ s', ducSockGetline s = some (none, s') ∧ Holds s' [] u ∧ s'.fd = s.fd ∧
      (s.buf.cells[s.ilen]? = some 0 → s'.buf.cells[s'.ilen]? = some 0) := by
  obtain ⟨s', hfree, hs', hfd, hnul⟩ := freeline_holds h
  have hi : s'.ilen = u.length := by rw [hs'.ilen_eq]; simp
  by_cases hne : s'.ilen = 0
  · refine ⟨s', ?_, hs', hfd, hnul⟩
    simp only [ducSockGetline, hfree, Option.bind_eq_bind, Option.bind_some, Option.pure_def,
      if_pos hne]
  · obtain ⟨x, junk, hc, hx⟩ := hs'.cells_eq
    obtain rfl : x = 0 := hx fun hn => hne (by rw [hi, show u = [] from hn]; rfl)
    have hl0 : { s' with llen := 0 } = s' := by
      have := hs'.llen_eq
      cases s'
      simp_all
    refine ⟨s', ?_, hs', hfd, hnul⟩
    rw [getline_eq hfree hne, strcspn_line hc hu isStop_zero, Option.bind_some, if_pos ⟨hi.symm, hlen⟩,
      hl0]

/-- **A line.** The line `l` stands terminated at the front of the buffer, and the line ends behind
it are consumed with it. -/
theorem getline_of_some {l r : List UInt8} {c : UInt8} (h : Holds s taken (l ++ c :: r))
    (hl : ∀ b ∈ l, isStop b = false) (hc : isStop c = true) :
    ∃ s', ducSockGetline s = some (some 0, s') ∧
      Holds s' (l ++ 0 :: r.takeWhile isEol) (r.dropWhile isEol) ∧ s'.fd = s.fd := by
  obtain ⟨s', hfree, hs', hfd, -⟩ := freeline_holds h
  have hi : s'.ilen = l.length + 1 + r.length := by
    rw [hs'.ilen_eq]; simp only [List.length_append, List.length_cons, List.length_nil]; omega
  obtain ⟨x, junk, hcells, hx⟩ := hs'.cells_eq
  obtain rfl : x = 0 := hx (by simp)
  have hcells : s'.buf.cells = l ++ c :: (r ++ 0 :: junk) := by simpa using hcells
  obtain ⟨buf, hset, hbuf⟩ := Block.set_append (y := 0) hcells
  have hbuf : buf.cells = (l ++ [0]) ++ (r ++ 0 :: junk) := by simpa using hbuf
  have hskip : strspn [LF, CR] buf (l.length + 1) = some (r.takeWhile isEol).length := by
    have := strspn_eol hbuf
    rwa [List.length_append, List.length_singleton] at this
  have hr : r.takeWhile isEol ++ r.dropWhile isEol = r := List.takeWhile_append_dropWhile
  have hrl := congrArg List.length hr
  rw [List.length_append] at hrl
  refine ⟨{ s' with buf := buf, llen := l.length + 1 + (r.takeWhile isEol).length }, ?_,
    ⟨?_, ?_, 0, junk, ?_, fun _ => rfl⟩, hfd⟩
  · rw [getline_eq hfree (by omega), strcspn_line hcells hl hc, Option.bind_some,
      if_neg (by omega), hset, Option.bind_some, hskip, Option.bind_some]
  · simp only [List.length_append, List.length_cons]; omega
  · simp only [List.length_append, List.length_cons]; omega
  · simp only [hbuf, List.append_assoc, List.cons_append, List.nil_append]
    rw [← List.append_assoc (List.takeWhile isEol r), hr]

/-- **A full buffer without a line end.** The scan for line ends starts behind the buffer. -/
theorem getline_of_full (h : Holds s taken u) (hu : ∀ b ∈ u, isStop b = false)
    (hlen : u.length = BUFLENRCV - 1) : ducSockGetline s = none := by
  obtain ⟨s', hfree, hs', -, -⟩ := freeline_holds h
  have hi : s'.ilen = u.length := by rw [hs'.ilen_eq]; simp
  obtain ⟨x, junk, hc, hx⟩ := hs'.cells_eq
  obtain rfl : x = 0 := hx fun hn => by
    rw [show u = [] from hn] at hlen
    simp at hlen
  obtain ⟨buf, hset, -⟩ := Block.set_append (y := 0) (a := u) (by simpa using hc)
  have hne : s'.ilen ≠ 0 := by rw [hi, hlen]; decide
  rw [getline_eq hfree hne, strcspn_line hc hu isStop_zero, Option.bind_some,
    if_neg (by omega), hset, Option.bind_some]
  have hend : BUFLENRCV ≤ u.length + 1 := by omega
  rw [strspn, Block.span_none hend, Option.bind_none]

/-- **`duc_sock_getline` is `nextLine` on the unread bytes.** -/
theorem getline_nextLine (h : Holds s taken u) (hlen : (∀ b ∈ u, isStop b = false) → u.length < BUFLENRCV - 1) :
    (nextLine isStop isEol u = none ∧
      ∃ s', ducSockGetline s = some (none, s') ∧ Holds s' [] u ∧ s'.fd = s.fd) ∨
    ∃ l r e, nextLine isStop isEol u = some (l, r) ∧ 0 ∉ l ∧
      ∃ s', ducSockGetline s = some (some 0, s') ∧ Holds s' (l ++ 0 :: e) r ∧ s'.fd = s.fd := by
  rcases split_first isStop u with hu | ⟨l, c, r, rfl, hl, hc⟩
  · obtain ⟨s', hg, hs', hfd, -⟩ := getline_of_none h hu (hlen hu)
    exact Or.inl ⟨nextLine_of_none hu, s', hg, hs', hfd⟩
  · obtain ⟨s', hg, hs', hfd⟩ := getline_of_some h hl hc
    exact Or.inr ⟨l, r.dropWhile isEol, r.takeWhile isEol, nextLine_append hl hc,
      not_mem_of_not_isStop hl, s', hg, hs', hfd⟩

theorem cstr_line {l e r : List UInt8} (h : Holds s (l ++ 0 :: e) r) (hl : 0 ∉ l) (k : ℕ)
    (hk : k ≤ l.length) : cstr s.buf k = some (l.drop k) := by
  obtain ⟨x, junk, hc, -⟩ := h.cells_eq
  have hcells : s.buf.cells = l.take k ++ (l.drop k ++ 0 :: (e ++ (r ++ x :: junk))) := by
    rw [← List.append_assoc, List.take_append_drop, hc]
    simp
  have := cstr_append hcells fun h0 => hl (List.mem_of_mem_drop h0)
  rwa [List.length_take, Nat.min_eq_left hk] at this

end Dudlc
