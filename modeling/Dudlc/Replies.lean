import Dudlc.Send
import Dudlc.Stream

/-!
# Replies and broadcasts

* `IsReply`, `replyLines`: a reply, and the lines of a stream that are no broadcasts.
* `Moved`: how far the session has read.
* `rlast_arrived`, `collect_arrived`: `_duc_rlast` and the loop of `_duc_it_newv` on a reply of which all
  or only the beginning arrives.
* `Helper.answer`: what a command helper makes of a reply; `runCmd_answer`.
* **`replies_match_iff`**: every command of a session is answered by its own reply, unless a text fills
  the buffer of `_duc_vsend`.
-/

namespace Dudlc

open Lib

variable {ρ : Type} {ev : Handlers} {w w' v : World} {ls ms rep got more : List (List UInt8)}
  {l part c : List UInt8}

/-! ## Replies -/

/-- The lines of a reply with the code `c`: all but the last have a `-` behind the code. -/
inductive IsReply (c : List UInt8) : List (List UInt8) → Prop
  | last {l : List UInt8} : l.take 3 = c → l[3]? ≠ some 45 → IsReply c [l]
  | more {l : List UInt8} {ls : List (List UInt8)} :
      l.take 3 = c → l[3]? = some 45 → IsReply c ls → IsReply c (l :: ls)

/-- The lines of a stream that are no broadcasts. -/
def replyLines (ls : List (List UInt8)) : List (List UInt8) := ls.filter fun l => !isBcast l

theorem IsReply.ne_nil (h : IsReply c rep) : rep ≠ [] := by cases h <;> exact List.cons_ne_nil _ _

theorem IsReply.code (h : IsReply c (l :: rep)) : l.take 3 = c := by cases h <;> assumption

theorem IsReply.rest (h : IsReply c (l :: rep)) :
    (l[3]? = some 45 ∧ IsReply c rep) ∨ (l[3]? ≠ some 45 ∧ rep = []) := by
  cases h with
  | last _ h => exact Or.inr ⟨h, rfl⟩
  | more _ h hrep => exact Or.inl ⟨h, hrep⟩

theorem replyLines_cons (h : replyLines ls = l :: more) : ∃ bs rest, ls = bs ++ l :: rest ∧
    (∀ b ∈ bs, isBcast b = true) ∧ isBcast l = false ∧ replyLines rest = more := by
  obtain ⟨bs, rest, rfl, hbs, hl, hrest⟩ := List.filter_eq_cons_iff.1 h
  exact ⟨bs, rest, rfl, fun b hb => by simpa using hbs b hb, by simpa using hl, hrest⟩

theorem replyLines_nil (h : replyLines ls = []) : ∀ b ∈ ls, isBcast b = true := by
  simpa [replyLines] using h

/-! ## How far the session has read -/

/-- From `w` to `w'` the lines before `ls'` have been read and the broadcasts among them dispatched. -/
structure Moved (w : World) (ls : List (List UInt8)) (w' : World) (ls' : List (List UInt8)) : Prop where
  fd : w'.con.fd = w.con.fd
  sends : w'.sends = w.sends
  sent : w'.sent = w.sent
  log : ∃ used, ls = used ++ ls' ∧ w'.log = w.log ++ (used.filter isBcast).map .bcast
  /-- The last line that has been read is a reply line. -/
  stops : ls' = ls ∨ ∃ used l, ls = used ++ l :: ls' ∧ isBcast l = false

theorem Moved.refl (w : World) (ls : List (List UInt8)) : Moved w ls w ls :=
  ⟨rfl, rfl, rfl, ⟨[], by simp⟩, Or.inl rfl⟩

theorem Moved.trans (h : Moved w ls w' ms) {ns : List (List UInt8)} (h' : Moved w' ms v ns) :
    Moved w ls v ns := by
  obtain ⟨used, rfl, hlog⟩ := h.log
  obtain ⟨used', rfl, hlog'⟩ := h'.log
  refine ⟨h'.fd.trans h.fd, h'.sends.trans h.sends, h'.sent.trans h.sent, ⟨used ++ used', by simp, ?_⟩, ?_⟩
  · rw [hlog', hlog, List.filter_append, List.map_append, List.append_assoc]
  · rcases h'.stops with hs | ⟨us, l, hs, hl⟩
    · rw [← hs] at h ⊢
      exact h.stops
    · exact Or.inr ⟨used ++ us, l, by rw [hs, List.append_assoc], hl⟩

theorem moved_line {bs rest : List (List UInt8)} (hbs : ∀ b ∈ bs, isBcast b = true)
    (hl : isBcast l = false) {con : DucSock} (hfd : con.fd = w.con.fd) (recvs : List Recv)
    (rooms : List ℕ) : Moved w (bs ++ l :: rest) ((w.after bs con recvs rooms).took l) rest := by
  refine ⟨hfd, rfl, rfl, ⟨bs ++ [l], by simp, ?_⟩, Or.inr ⟨bs, l, rfl, hl⟩⟩
  rw [List.filter_append, List.filter_eq_self.2 hbs, List.filter_singleton, hl]
  simp [World.took, World.after]

/-! ## Whole and broken replies -/

/-- Of the reply `rep` the lines `got` arrive: all of them, and then `more`, or only the first ones. -/
def Arrives (ev : Handlers) (rep got more : List (List UInt8)) : Prop :=
  got = rep ∨ (got <+: rep ∧ more = [] ∧ ev.Returns)

theorem Arrives.tail {k : List UInt8} (h : Arrives ev (l :: rep) (k :: got) more) :
    k = l ∧ Arrives ev rep got more := by
  rcases h with h | ⟨h, hm, hr⟩
  · obtain ⟨rfl, rfl⟩ := List.cons.inj h
    exact ⟨rfl, Or.inl rfl⟩
  · obtain ⟨rfl, hpre⟩ := List.cons_prefix_cons.1 h
    exact ⟨rfl, Or.inr ⟨hpre, hm, hr⟩⟩

/-- The session has read a whole reply with the code `c` and the last line `l`. -/
structure ReadReply (w : World) (ls : List (List UInt8)) (part : List UInt8)
    (more : List (List UInt8)) (w' : World) : Prop where
  inreply : w'.inreply = false
  stream : ∃ ls', Stream w' ls' part ∧ replyLines ls' = more ∧ Moved w ls w' ls'

theorem ReadReply.of_moved (h : Moved w ls v ms) (h' : ReadReply v ms part more w') :
    ReadReply w ls part more w' := by
  obtain ⟨ls', hs, hr, hm⟩ := h'.stream
  exact ⟨h'.inreply, ls', hs, hr, h.trans hm⟩

theorem rnext_arrived (ev : Handlers) (hin : w.inreply = true) (hc : w.code = [] ∨ w.code = l.take 3)
    (hls : replyLines ls = l :: more) (h : Stream w ls part) :
    ∃ w' ls', ducRnext ev w = some (0, w') ∧ w'.rline = some (l.drop 4) ∧ Stream w' ls' part ∧
      replyLines ls' = more ∧ Moved w ls w' ls' ∧ w'.code = l.take 3 ∧
      w'.inreply = decide (l[3]? = some 45) := by
  obtain ⟨bs, rest, rfl, hbs, hl, hrest⟩ := replyLines_cons hls
  obtain ⟨con, recvs, rooms, hr, ht, hs⟩ := rnext_line ev hin hc hbs hl h
  have hfd : con.fd = w.con.fd := by
    obtain ⟨v, -, ⟨-, rfl, hfd⟩ | ⟨h, -⟩⟩ := ducRnext_onward hr
    · exact hfd
    · cases h
  exact ⟨_, rest, hr, ht, hs, hrest, moved_line hbs hl hfd recvs rooms, rfl, rfl⟩

theorem rnext_lost (hev : ev.Returns) (hin : w.inreply = true) (hls : replyLines ls = [])
    (h : Stream w ls part) : ∃ w', ducRnext ev w = some (-1, w') := by
  obtain ⟨con, recvs, rooms, hr⟩ := rnext_end ev hin (replyLines_nil hls) h
  obtain ⟨w', hw'⟩ := hev { w.after ls con recvs rooms with
    line := none, inreply := false, code := [], con := ducSockDisconnect con,
    log := (w.after ls con recvs rooms).log ++ [.disconnect] }
  exact ⟨w', by rw [hr]; exact congrArg _ hw'⟩

/-- **`_duc_rlast`** reads the rest of a reply, or finds the connection closed. -/
theorem rlast_arrived (hrep : IsReply c rep) (hgot : Arrives ev rep got more)
    (hin : w.inreply = true) (hc : w.code = [] ∨ w.code = c) (hls : replyLines ls = got ++ more)
    (h : Stream w ls part) :
    ∃ r w', ducRlast ev w = some (r, w') ∧
      (got = rep → r = 0 ∧ w'.code = c ∧ w'.rline = some ((rep.getLastD []).drop 4) ∧
        ReadReply w ls part more w') := by
  induction rep generalizing w ls got with
  | nil => exact absurd rfl hrep.ne_nil
  | cons l rep ih =>
    cases got with
    | nil =>
      rcases hgot with hgot | ⟨-, rfl, hev⟩
      · cases hgot
      · obtain ⟨w', hw'⟩ := rnext_lost hev hin hls h
        exact ⟨-1, w', rlast_lost (x := some w') hw', fun h => absurd h.symm (List.cons_ne_nil _ _)⟩
    | cons k got =>
      obtain ⟨rfl, htail⟩ := hgot.tail
      rw [← hrep.code] at hc
      obtain ⟨w', ls', hr, ht, hs, hmore, hm, hcode, hin'⟩ := rnext_arrived ev hin hc hls h
      rw [rlast_step hr]
      rcases hrep.rest with ⟨hdash, hrep'⟩ | ⟨hdash, rfl⟩
      · rw [decide_eq_true hdash] at hin'
        obtain ⟨r, u, hl, hu⟩ := ih hrep' htail hin' (Or.inr (hcode.trans hrep.code)) hmore hs
        refine ⟨r, u, hl, fun heq => ?_⟩
        obtain ⟨rfl, hcode, hline, hread⟩ := hu (List.cons.inj heq).2
        obtain ⟨m, ms, rfl⟩ := List.exists_cons_of_ne_nil hrep'.ne_nil
        exact ⟨rfl, hcode, hline, hread.of_moved hm⟩
      · have hnot : w'.inreply = false := by rw [hin', decide_eq_false hdash]
        refine ⟨0, w', rlast_done hnot, fun heq => ?_⟩
        obtain rfl := (List.cons.inj heq).2
        exact ⟨rfl, hcode.trans hrep.code, ht, hnot, ls', hs, hmore, hm⟩

/-- The records of the lines, unless one is not converted completely. -/
def itRecords (conv : Converter ρ) (texts : List (List UInt8)) : Option (List (Option ρ)) :=
  if ∀ t ∈ texts, (conv t).2 = 0 then some (texts.map fun t => (conv t).1) else none

theorem itRecords_cons (conv : Converter ρ) {t : List UInt8} (ht : (conv t).2 = 0)
    (rows : List (Option ρ)) (texts : List (List UInt8)) :
    (itRecords conv (t :: texts)).map (rows ++ ·) =
      (itRecords conv texts).map (rows ++ [(conv t).1] ++ ·) := by
  simp only [itRecords, List.forall_mem_cons, ht, true_and]
  split_ifs <;> simp

/-- **The loop of `_duc_it_newv`** converts what arrives of a reply from the line `l` on. -/
theorem collect_arrived (conv : Converter ρ) (rows : List (Option ρ)) (hrep : IsReply c (l :: rep))
    (hgot : Arrives ev rep got more) (ht : w.rline = some (l.drop 4)) (hcode : w.code = c)
    (hin : w.inreply = decide (l[3]? = some 45)) (hls : replyLines ls = got ++ more)
    (h : Stream w ls part) :
    ∃ w', itCollect ev conv (w, rows) = some
        ((itRecords conv ((l :: got).map (List.drop 4))).map fun rs => ⟨rows ++ rs⟩, w') ∧
      (got = rep → ReadReply w ls part more w') := by
  induction rep generalizing w ls got l rows with
  | nil =>
    have hdash : l[3]? ≠ some 45 := by
      rcases hrep.rest with ⟨-, h⟩ | ⟨h, -⟩
      · exact absurd rfl h.ne_nil
      · exact h
    have hnot : w.inreply = false := by rw [hin, decide_eq_false hdash]
    have hread : ∀ got, got = [] → replyLines ls = got ++ more → ReadReply w ls part more w := by
      rintro got rfl hls
      exact ⟨hnot, ls, h, hls, Moved.refl w ls⟩
    obtain rfl : got = [] := by
      rcases hgot with h | ⟨h, -⟩
      · exact h
      · exact List.prefix_nil.1 h
    by_cases hconv : (conv (l.drop 4)).2 = 0
    · have hr : ducRnext ev w = some (-2, w) := by simp [ducRnext, hnot]
      refine ⟨w, ?_, fun _ => hread [] rfl hls⟩
      rw [collect_end ht hconv hr (by decide)]
      simp [itRecords, hconv]
    · refine ⟨w, ?_, fun _ => hread [] rfl hls⟩
      rw [collect_stop ht hconv, rlast_done hnot]
      simp [itRecords, hconv]
  | cons m rep ih =>
    rcases hrep.rest with ⟨hdash, hrep'⟩ | ⟨-, h⟩
    swap
    · cases h
    have hin : w.inreply = true := by rw [hin, decide_eq_true hdash]
    by_cases hconv : (conv (l.drop 4)).2 = 0
    · cases got with
      | nil =>
        rcases hgot with hgot | ⟨-, rfl, hev⟩
        · cases hgot
        · obtain ⟨w', hw'⟩ := rnext_lost hev hin hls h
          refine ⟨w', ?_, fun h => absurd h.symm (List.cons_ne_nil _ _)⟩
          rw [collect_end ht hconv hw' (by decide)]
          simp [itRecords, hconv]
      | cons k got =>
        obtain ⟨rfl, htail⟩ := hgot.tail
        obtain ⟨w', ls', hr, ht', hs, hmore, hm, hcode', hin'⟩ := rnext_arrived ev hin
          (Or.inr (hcode.trans hrep'.code.symm)) hls h
        obtain ⟨u, hu, hread⟩ := ih (rows ++ [(conv (l.drop 4)).1]) hrep' htail ht' (hcode'.trans hrep'.code) hin' hmore hs
        refine ⟨u, ?_, fun heq => (hread (List.cons.inj heq).2).of_moved hm⟩
        rw [collect_step ht hconv hr, hu, List.map_cons, List.map_cons]
        have := itRecords_cons conv hconv rows ((k :: got).map (List.drop 4))
        simp only [List.map_cons] at this ⊢
        have hmap : ∀ (o : Option (List (Option ρ))) (q : List (Option ρ)),
            o.map (fun rs => (⟨q ++ rs⟩ : DucIter ρ)) = (o.map (q ++ ·)).map DucIter.mk := by
          intro o q
          cases o <;> rfl
        rw [hmap, hmap, this]
    · obtain ⟨r, w', hl, hu⟩ := rlast_arrived hrep' hgot hin (Or.inr hcode) hls h
      refine ⟨w', ?_, fun heq => (hu heq).2.2.2⟩
      rw [collect_stop ht hconv, hl]
      simp [itRecords, hconv]

/-! ## Commands and their replies -/

/-- What a helper returns when it gets no reply. -/
def Helper.fail : Helper ρ → Result ρ
  | .cmd | .succ | .int => .num (-1)
  | .string => .text none
  | .conv _ => .row none
  | .it _ => .list none

/-- What a helper makes of a reply: of its code and of the text of its last line or of all lines. -/
def Helper.answer (h : Helper ρ) (rep : List (List UInt8)) : Result ρ :=
  let code := rep.head?.bind List.head?
  let text := (rep.getLastD []).drop 4
  match h with
  | .cmd => .num 0
  | .succ => .num (if code = some 50 ∨ code = some 51 then 0 else -1)
  | .string => .text (if code = some 50 then some text else none)
  | .int => .num (if code = some 50 then atoi text else -1)
  | .conv f => .row (if code = some 50 then (f text).1 else none)
  | .it f => .list (if code = some 53 then none
      else (itRecords f (rep.map (List.drop 4))).map DucIter.mk)

/-- The text of a command. -/
def Cmd.text (c : Cmd ρ) : Option (List UInt8) := format c.fmt.bytes c.args

/-- Every `send` takes a whole command. -/
def World.SendsAll (w : World) : Prop := ∀ x ∈ w.sends, ∃ n, x = some n ∧ BUFLENLINE ≤ n

theorem World.SendsAll.takes (h : w.SendsAll) {t : List UInt8} (ht : t.length < BUFLENLINE - 1) :
    w.takes (t ++ [LF]) = some (t ++ [LF]) := by
  unfold World.takes
  rcases hs : w.sends with _ | ⟨x, ss⟩
  · rfl
  · obtain ⟨n, rfl, hn⟩ := h x (hs ▸ List.mem_cons_self)
    simp only [Option.some.injEq, List.take_eq_self_iff, List.length_append, List.length_singleton]
    omega

/-- The world after a command has been sent. -/
def World.asked (w : World) (t : List UInt8) : World :=
  { w with code := [], line := none, inreply := true, sends := w.sends.tail,
           sent := w.sent ++ [t ++ [LF]] }

theorem ducVsend_asked {fmt : Cstr} {ap : List Arg} {t : List UInt8} (hw : w.Idle) (hs : w.SendsAll)
    (ht : format fmt.bytes ap = some t) (hlen : t.length < BUFLENLINE - 1) :
    ducVsend ev w fmt ap = some (0, w.asked t) := by
  rw [ducVsend_idle hw, vsendBuf_eq ht hlen, Option.bind_some]
  exact vsendSend_some hw.fd (hs.takes hlen)

theorem Stream.asked (h : Stream w ls part) (t : List UInt8) : Stream (w.asked t) ls part :=
  ⟨h.fd, h.holds, h.lines, h.part_free, h.part_len⟩

theorem IsReply.head (h : IsReply c rep) : c.head? = rep.head?.bind List.head? := by
  obtain ⟨l, ls, rfl⟩ := List.exists_cons_of_ne_nil h.ne_nil
  rw [← h.code]
  cases l <;> rfl

theorem cmdBody_reply {α : Type} (ev : Handlers) (fail a : α) (done : World → Option α) {fmt : Cstr} {ap : List Arg}
    {t : List UInt8} (hw : w.Idle) (hs : w.SendsAll) (ht : format fmt.bytes ap = some t)
    (hlen : t.length < BUFLENLINE - 1) (hrep : IsReply c rep) (hls : replyLines ls = rep ++ more)
    (h : Stream w ls part) (hdone : ∀ v : World, v.rcode = rep.head?.bind List.head? →
      v.rline = some ((rep.getLastD []).drop 4) → done v = some a) :
    ∃ w', cmdBody ev (ducOpen ev) fail done w fmt ap = some (a, w') ∧
      ReadReply (w.asked t) ls part more w' := by
  obtain ⟨r, w', hl, hu⟩ := rlast_arrived (w := w.asked t) hrep (Or.inl rfl : Arrives ev rep rep more) rfl (Or.inl rfl) hls
    (h.asked t)
  obtain ⟨rfl, hcode, hline, hread⟩ := hu rfl
  have hd := hdone w' (by rw [World.rcode, hcode, hrep.head]) hline
  have hv : vsendBody ev (ducOpen ev) w fmt ap = some (0, w.asked t) := ducVsend_asked hw hs ht hlen
  refine ⟨w', ?_, hread⟩
  simp only [cmdBody, hv, hl, hd, Option.bind_eq_bind, Option.bind_some, ne_eq, not_true_eq_false,
    if_false, Option.pure_def]

theorem itNewv_arrived (ev : Handlers) (conv : Converter ρ) {fmt : Cstr} {ap : List Arg} {t : List UInt8} (hw : w.Idle)
    (hs : w.SendsAll) (ht : format fmt.bytes ap = some t) (hlen : t.length < BUFLENLINE - 1)
    (hrep : IsReply c rep) (hgot : Arrives ev rep got more) (hls : replyLines ls = got ++ more)
    (h : Stream w ls part) :
    ∃ w', ducItNewv ev conv w fmt ap = some
        ((if got = [] ∨ rep.head?.bind List.head? = some 53 then none
          else (itRecords conv (got.map (List.drop 4))).map DucIter.mk), w') ∧
      (got = rep → ReadReply (w.asked t) ls part more w') := by
  have hv : ducVsend ev w fmt ap = _ := ducVsend_asked hw hs ht hlen
  obtain ⟨l, rep, rfl⟩ := List.exists_cons_of_ne_nil hrep.ne_nil
  cases got with
  | nil =>
    rcases hgot with hgot | ⟨-, rfl, hev⟩
    · cases hgot
    · obtain ⟨w', hw'⟩ := rnext_lost (w := w.asked t) hev rfl hls (h.asked t)
      refine ⟨w', ?_, fun h => absurd h.symm (List.cons_ne_nil _ _)⟩
      simp only [ducItNewv, hv, hw', Option.bind_eq_bind, Option.bind_some, ne_eq,
        not_true_eq_false, if_false, true_or, if_true, Option.pure_def]
      rfl
  | cons k got =>
    obtain ⟨rfl, htail⟩ := hgot.tail
    obtain ⟨w₁, ls₁, hr, hline, hs₁, hmore, hm, hcode, hin⟩ := rnext_arrived ev
      (w := w.asked t) rfl (Or.inl rfl) hls (h.asked t)
    rw [hrep.code] at hcode
    obtain ⟨b, c', rfl⟩ : ∃ b c', c = b :: c' := by
      refine List.exists_cons_of_ne_nil fun hnil => ?_
      have hk : k ∈ replyLines ls := by rw [hls]; simp
      have hmin := (h.lines k (List.mem_of_mem_filter hk)).min
      have := congrArg List.length (hrep.code.trans hnil)
      rw [List.length_take, List.length_nil] at this
      omega
    have hb : (k :: rep).head?.bind List.head? = some b := hrep.head.symm
    have hrc : w₁.rcode = some b := by rw [World.rcode, hcode]; rfl
    by_cases h5 : b = 53
    · subst h5
      have hmain : ∃ r w', ducRlast ev w₁ = some (r, w') ∧
          (got = rep → ReadReply w₁ ls₁ part more w') := by
        rcases hrep.rest with ⟨hdash, hrep'⟩ | ⟨hdash, rfl⟩
        · rw [decide_eq_true hdash] at hin
          obtain ⟨r, w', hl, hu⟩ := rlast_arrived hrep' htail hin (Or.inr hcode) hmore hs₁
          exact ⟨r, w', hl, fun heq => (hu heq).2.2.2⟩
        · rw [decide_eq_false hdash] at hin
          refine ⟨0, w₁, rlast_done hin, ?_⟩
          rintro rfl
          exact ⟨hin, ls₁, hs₁, hmore, Moved.refl _ _⟩
      obtain ⟨r, w', hl, hread⟩ := hmain
      refine ⟨w', ?_, fun heq => (hread (List.cons.inj heq).2).of_moved hm⟩
      simp only [ducItNewv, hv, hr, hrc, hl, hb, Option.bind_eq_bind, Option.bind_some, ne_eq,
        not_true_eq_false, if_false, or_true, if_true, Option.pure_def]
    · obtain ⟨w', hcol, hread⟩ := collect_arrived conv [] hrep htail hline hcode hin
        hmore hs₁
      refine ⟨w', ?_, fun heq => (hread (List.cons.inj heq).2).of_moved hm⟩
      have hne : ¬ (k :: got = [] ∨ (k :: rep).head?.bind List.head? = some 53) := by
        rw [hb]
        simp [h5]
      simp only [ducItNewv, hv, hr, hrc, h5, if_neg hne, hcol, Option.bind_eq_bind, Option.bind_some,
        ne_eq, not_true_eq_false, if_false, List.nil_append]

/-- **A command is answered by the next reply.** -/
theorem runCmd_answer (ev : Handlers) {cmd : Cmd ρ} {t : List UInt8} (hw : w.Idle) (hs : w.SendsAll)
    (ht : cmd.text = some t) (hlen : t.length < BUFLENLINE - 1) (hrep : IsReply c rep)
    (hls : replyLines ls = rep ++ more) (h : Stream w ls part) :
    ∃ w', runCmd ev w cmd = some (cmd.helper.answer rep, w') ∧
      ReadReply (w.asked t) ls part more w' := by
  obtain ⟨helper, fmt, args⟩ := cmd
  have hne : rep.head?.bind List.head? ≠ none := by
    obtain ⟨l, rep, rfl⟩ := List.exists_cons_of_ne_nil hrep.ne_nil
    have hl : l ∈ replyLines ls := by rw [hls]; simp
    have hmin := (h.lines l (List.mem_of_mem_filter hl)).min
    obtain ⟨b, l, rfl⟩ := List.exists_cons_of_ne_nil (List.ne_nil_of_length_pos
      (show 0 < l.length by omega))
    simp
  obtain ⟨b, hb⟩ := Option.ne_none_iff_exists'.1 hne
  cases helper with
  | cmd =>
    obtain ⟨w', hr, hread⟩ := cmdBody_reply ev (-1 : ℤ) 0 (fun _ => some 0) hw hs ht hlen hrep hls h
      fun _ _ _ => rfl
    exact ⟨w', by simp only [runCmd, ducCmd, hr]; rfl, hread⟩
  | succ =>
    obtain ⟨w', hr, hread⟩ := cmdBody_reply ev (-1 : ℤ) (if b = 50 ∨ b = 51 then 0 else -1) succDone
      hw hs ht hlen hrep hls h fun v hc _ => by
        simp only [succDone, hc, hb, Option.bind_eq_bind, Option.bind_some, Option.pure_def]
        split_ifs <;> rfl
    exact ⟨w', by simp [runCmd, ducCmdSucc, hr, Helper.answer, hb], hread⟩
  | string =>
    obtain ⟨w', hr, hread⟩ := cmdBody_reply ev none
      (if b = 50 then some ((rep.getLastD []).drop 4) else none) stringDone
      hw hs ht hlen hrep hls h fun v hc hl => by
        simp only [stringDone, hc, hb, hl, Option.bind_eq_bind, Option.bind_some, Option.pure_def]
        split_ifs <;> rfl
    exact ⟨w', by simp [runCmd, ducCmdString, hr, Helper.answer, hb], hread⟩
  | int =>
    obtain ⟨w', hr, hread⟩ := cmdBody_reply ev (-1)
      (if b = 50 then atoi ((rep.getLastD []).drop 4) else -1) intDone
      hw hs ht hlen hrep hls h fun v hc hl => by
        simp only [intDone, hc, hb, hl, Option.bind_eq_bind, Option.bind_some, Option.pure_def]
        split_ifs <;> rfl
    exact ⟨w', by simp [runCmd, ducCmdInt, hr, Helper.answer, hb], hread⟩
  | conv f =>
    obtain ⟨w', hr, hread⟩ := cmdBody_reply ev none
      (if b = 50 then (f ((rep.getLastD []).drop 4)).1 else none) (convDone f)
      hw hs ht hlen hrep hls h fun v hc hl => by
        simp only [convDone, hc, hb, hl, Option.bind_eq_bind, Option.bind_some, Option.pure_def]
        split_ifs <;> rfl
    exact ⟨w', by simp [runCmd, ducCmdConv, hr, Helper.answer, hb], hread⟩
  | it f =>
    obtain ⟨w', hr, hread⟩ := itNewv_arrived ev f hw hs ht hlen hrep (Or.inl rfl) hls h
    refine ⟨w', ?_, hread rfl⟩
    simp only [runCmd, hr, Helper.answer, hrep.ne_nil, false_or]
    rfl

/-! ## Sequences of commands -/

/-- Commands one after the other. -/
def runCmds (ev : Handlers) : World → List (Cmd ρ) → Option (List (Result ρ) × World)
  | w, [] => some ([], w)
  | w, c :: cs => do
    let (r, w) ← runCmd ev w c
    let (rs, w) ← runCmds ev w cs
    return (r :: rs, w)

/-- The length test of `_duc_vsend` lets the command through. -/
def Cmd.Sent (c : Cmd ρ) : Prop := ∃ t, c.text = some t ∧ t.length ≤ BUFLENLINE - 1

/-- `_duc_vsend` refuses the command. -/
def Cmd.Long (c : Cmd ρ) : Prop := ∃ t, c.text = some t ∧ BUFLENLINE - 1 < t.length

/-- The text of the command is as long as the length test of `_duc_vsend` allows. -/
def Cmd.AtEdge (c : Cmd ρ) : Prop := ∃ t, c.text = some t ∧ t.length = BUFLENLINE - 1

/-- The commands `cs` get the replies `reps` and give the results `rs`: each command that is not refused
gets the next reply, and its result is made of this reply alone. -/
inductive Matched : List (Cmd ρ) → List (List (List UInt8)) → List (Result ρ) → Prop
  | nil : Matched [] [] []
  | sent {c : Cmd ρ} {cs rep reps rs} :
      c.Sent → Matched cs reps rs → Matched (c :: cs) (rep :: reps) (c.helper.answer rep :: rs)
  | refused {c : Cmd ρ} {cs reps rs} :
      c.Long → Matched cs reps rs → Matched (c :: cs) reps (c.helper.fail :: rs)

theorem Cmd.Long.not_edge {cmd : Cmd ρ} (h : cmd.Long) : ¬ cmd.AtEdge := by
  rintro ⟨t, ht, hlen⟩
  obtain ⟨t', ht', hlen'⟩ := h
  obtain rfl : t = t' := Option.some.inj (ht.symm.trans ht')
  omega

theorem Cmd.Sent.short {cmd : Cmd ρ} (h : cmd.Sent) (hne : ¬ cmd.AtEdge) :
    ∃ t, cmd.text = some t ∧ t.length < BUFLENLINE - 1 := by
  obtain ⟨t, ht, hle⟩ := h
  exact ⟨t, ht, lt_of_le_of_ne hle fun heq => hne ⟨t, ht, heq⟩⟩

theorem runCmd_long (ev : Handlers) {cmd : Cmd ρ} (hw : w.Idle) (h : cmd.Long) :
    runCmd ev w cmd = some (cmd.helper.fail, w) := by
  obtain ⟨t, ht, hlen⟩ := h
  have hv : ducVsend ev w cmd.fmt cmd.args = some (-1, w) := by
    rw [ducVsend_idle hw, vsendBuf_long ht hlen, Option.bind_some]
  have hcmd : ∀ {α : Type} (fail : α) (done : World → Option α),
      cmdBody ev (ducOpen ev) fail done w cmd.fmt cmd.args = some (fail, w) := by
    intro α fail done
    have hv' : vsendBody ev (ducOpen ev) w cmd.fmt cmd.args = some (-1, w) := hv
    simp [cmdBody, hv']
  obtain ⟨helper, fmt, args⟩ := cmd
  cases helper <;> simp only [runCmd, ducCmd, ducCmdSucc, ducCmdString, ducCmdInt, ducCmdConv, hcmd]
  case it f => simp [ducItNewv, hv, Helper.fail]
  all_goals rfl

theorem runCmd_edge (ev : Handlers) {cmd : Cmd ρ} (hw : w.Idle) (h : cmd.AtEdge) :
    runCmd ev w cmd = none := by
  obtain ⟨t, ht, hlen⟩ := h
  have hv : ducVsend ev w cmd.fmt cmd.args = none := by
    rw [ducVsend_idle hw, vsendBuf_edge ht hlen, Option.bind_none]
  have hcmd : ∀ {α : Type} (fail : α) (done : World → Option α),
      cmdBody ev (ducOpen ev) fail done w cmd.fmt cmd.args = none := by
    intro α fail done
    have hv' : vsendBody ev (ducOpen ev) w cmd.fmt cmd.args = none := hv
    simp [cmdBody, hv']
  obtain ⟨helper, fmt, args⟩ := cmd
  cases helper <;> simp only [runCmd, ducCmd, ducCmdSucc, ducCmdString, ducCmdInt, ducCmdConv, hcmd]
  case it f => simp [ducItNewv, hv]
  all_goals rfl

/-- The session between two commands: `reps` are the replies to come. -/
structure Between (w : World) (ls : List (List UInt8)) (part : List UInt8)
    (reps : List (List (List UInt8))) : Prop where
  idle : w.Idle
  sends : w.SendsAll
  stream : Stream w ls part
  lines : replyLines ls = reps.flatten
  replies : ∀ rep ∈ reps, ∃ c, IsReply c rep

theorem runCmd_between (ev : Handlers) {cmd : Cmd ρ} {t : List UInt8} (ht : cmd.text = some t)
    (hlen : t.length < BUFLENLINE - 1) {reps : List (List (List UInt8))}
    (h : Between w ls part (rep :: reps)) :
    ∃ w' ls', runCmd ev w cmd = some (cmd.helper.answer rep, w') ∧ Between w' ls' part reps ∧
      Moved (w.asked t) ls w' ls' := by
  obtain ⟨code, hrep⟩ := h.replies rep List.mem_cons_self
  have hls : replyLines ls = rep ++ reps.flatten := by rw [h.lines, List.flatten_cons]
  obtain ⟨w', hw', hread⟩ := runCmd_answer ev h.idle h.sends ht hlen hrep hls h.stream
  obtain ⟨ls', hs, hmore, hmoved⟩ := hread.stream
  refine ⟨w', ls', hw', ⟨⟨hs.fd, hread.inreply⟩, fun x hx => ?_, hs, hmore, fun rep' hrep' => ?_⟩,
    hmoved⟩
  · rw [hmoved.sends] at hx
    exact h.sends x (List.mem_of_mem_tail hx)
  · exact h.replies rep' (List.mem_cons_of_mem rep hrep')

/-- **Commands are answered by their own replies**, whatever broadcasts and packets come. After all
of them no reply is due and the replies that follow are still to be read. -/
theorem runCmds_matched (ev : Handlers) {cs : List (Cmd ρ)} {rs : List (Result ρ)}
    {reps rest : List (List (List UInt8))} (hm : Matched cs reps rs) (hedge : ∀ c ∈ cs, ¬ c.AtEdge)
    (h : Between w ls part (reps ++ rest)) :
    ∃ w' ls', runCmds ev w cs = some (rs, w') ∧ Between w' ls' part rest ∧
      ∃ used, ls = used ++ ls' ∧ w'.log = w.log ++ (used.filter isBcast).map .bcast := by
  induction hm generalizing w ls with
  | nil => exact ⟨w, ls, rfl, h, [], rfl, by simp⟩
  | @sent c cs rep reps rs hc _ ih =>
    obtain ⟨hne, hcs⟩ := List.forall_mem_cons.1 hedge
    obtain ⟨t, ht, hlen⟩ := hc.short hne
    rw [List.cons_append] at h
    obtain ⟨v, ms, hv, hb, hmoved⟩ := runCmd_between ev ht hlen h
    obtain ⟨w', ls', hw', hbet, used', rfl, hlog'⟩ := ih hcs hb
    obtain ⟨used, rfl, hlog⟩ := hmoved.log
    refine ⟨w', ls', by simp [runCmds, hv, hw'], hbet, used ++ used', by simp, ?_⟩
    rw [hlog', hlog, List.filter_append, List.map_append, ← List.append_assoc]
    rfl
  | @refused c cs reps rs hc _ ih =>
    obtain ⟨w', ls', hw', hbet, hlog⟩ := ih (List.forall_mem_cons.1 hedge).2 h
    exact ⟨w', ls', by simp [runCmds, runCmd_long ev h.idle hc, hw'], hbet, hlog⟩

theorem runCmds_edge (ev : Handlers) {cs : List (Cmd ρ)} {rs : List (Result ρ)}
    {reps rest : List (List (List UInt8))} (hm : Matched cs reps rs) (hedge : ∃ c ∈ cs, c.AtEdge)
    (h : Between w ls part (reps ++ rest)) : runCmds ev w cs = none := by
  induction hm generalizing w ls with
  | nil => simp at hedge
  | @sent c cs rep reps rs hc _ ih =>
    by_cases hne : c.AtEdge
    · simp [runCmds, runCmd_edge ev h.idle hne]
    · obtain ⟨t, ht, hlen⟩ := hc.short hne
      rw [List.cons_append] at h
      obtain ⟨v, ms, hv, hb, -⟩ := runCmd_between ev ht hlen h
      have hnone := ih (((List.exists_mem_cons_iff _ _ _).1 hedge).resolve_left hne) hb
      simp only [runCmds, hv, hnone, Option.bind_eq_bind, Option.bind_some, Option.bind_none]
  | @refused c cs reps rs hc _ ih =>
    have hcs := ((List.exists_mem_cons_iff _ _ _).1 hedge).resolve_left hc.not_edge
    simp [runCmds, runCmd_long ev h.idle hc, ih hcs h]

/-- **Requests and replies match.** On a new connection, let the stream that `recv` returns, in whatever
pieces, consist of whole lines: the replies to the commands in their order and perhaps further ones,
with broadcasts anywhere between their lines. The result of every command is made of its own reply
alone, no reply is due after the commands and what is unread begins with the next reply, just when no
command text is one byte too long for the buffer of `_duc_vsend` and still passes its test. -/
theorem replies_match_iff (ev : Handlers) (hfresh : w.con.Fresh) (hin : w.inreply = false)
    (hsends : w.SendsAll) {lines : List (List UInt8)}
    (hstream : incoming w.recvs = wire LF lines ++ part) (hlines : ∀ l ∈ lines, WireLine 4 l)
    (hpart : (∀ b ∈ part, isStop b = false) ∧ part.length ≤ 2046)
    {reps rest : List (List (List UInt8))} (hreps : ∀ rep ∈ reps ++ rest, ∃ c, IsReply c rep)
    (hall : replyLines lines = (reps ++ rest).flatten) {cs : List (Cmd ρ)} {rs : List (Result ρ)}
    (hm : Matched cs reps rs) :
    (∃ w' ls', runCmds ev w cs = some (rs, w') ∧ w'.inreply = false ∧ w'.con.fd ≠ -1 ∧
      Stream w' ls' part ∧ replyLines ls' = rest.flatten ∧
      ∃ used, lines = used ++ ls' ∧ w'.log = w.log ++ (used.filter isBcast).map .bcast) ↔
      ∀ c ∈ cs, ∀ t, c.text = some t → t.length ≠ BUFLENLINE - 1 := by
  have hb : Between w lines part (reps ++ rest) :=
    ⟨⟨hfresh.1, hin⟩, hsends, ⟨hfresh.1, ⟨[], [], holds_nil hfresh.2.1 hfresh.2.2, hstream⟩, hlines,
      hpart.1, hpart.2⟩, hall, hreps⟩
  constructor
  · rintro ⟨w', ls', hrun, -⟩ c hc t ht hlen
    rw [runCmds_edge ev hm ⟨c, hc, t, ht, hlen⟩ hb] at hrun
    cases hrun
  · intro hno
    obtain ⟨w', ls', hrun, hbet, hlog⟩ := runCmds_matched ev hm
      (fun c hc ⟨t, ht, hlen⟩ => hno c hc t ht hlen) hb
    exact ⟨w', ls', hrun, hbet.idle.inreply, hbet.idle.fd, hbet.stream, hbet.lines, hlog⟩

/-- A query and its reply, cut in the middle and behind a broadcast. -/
theorem replies_match_gap : ∃ w' ls',
    runCmds .passive (idleWorld [some (Cstr.lit "640 x\n250 1").bytes, some (Cstr.lit "7\n").bytes] [])
      [(⟨.int, .lit "gap", []⟩ : Cmd Unit)] = some ([.num 17], w') ∧ w'.inreply = false ∧
    w'.con.fd ≠ -1 ∧ Stream w' ls' [] ∧ replyLines ls' = ([] : List (List (List UInt8))).flatten ∧
    ∃ used, [(Cstr.lit "640 x").bytes, (Cstr.lit "250 17").bytes] = used ++ ls' ∧
      w'.log = [] ++ (used.filter isBcast).map .bcast :=
  (replies_match_iff .passive freshSock_fresh rfl (fun _ h => by cases h) (by decide)
    (show ∀ l ∈ [(Cstr.lit "640 x").bytes, (Cstr.lit "250 17").bytes], WireLine 4 l by decide)
    ⟨fun _ h => (List.not_mem_nil h).elim, by decide⟩
    (show ∀ rep ∈ [[(Cstr.lit "250 17").bytes]] ++ [], ∃ c, IsReply c rep from fun rep hrep => by
      obtain rfl := List.mem_singleton.1 hrep
      exact ⟨_, .last rfl (by decide)⟩)
    (by decide) (.sent ⟨(Cstr.lit "gap").bytes, rfl, by decide⟩ .nil)).2 fun c hc t ht => by
      obtain rfl := List.mem_singleton.1 hc
      obtain rfl := Option.some.inj ht
      decide

/-- The command that gives the track 1 a name of 2032 letters. -/
def longRename : Cmd Unit := ⟨.succ, .lit "tracksetname %d %s", [.int 1, .str (longName 2032)]⟩

/-- **A command without a result**: its text has 2047 bytes, and the server would answer it. -/
theorem replies_unmatched : (idleWorld [some (Cstr.lit "210 ok\n").bytes] []).con.Fresh ∧
    (idleWorld [some (Cstr.lit "210 ok\n").bytes] []).SendsAll ∧
    incoming (idleWorld [some (Cstr.lit "210 ok\n").bytes] []).recvs =
      wire LF [(Cstr.lit "210 ok").bytes] ++ [] ∧
    WireLine 4 (Cstr.lit "210 ok").bytes ∧ IsReply (Cstr.lit "210").bytes [(Cstr.lit "210 ok").bytes] ∧
    Matched [longRename] [[(Cstr.lit "210 ok").bytes]] [.num 0] ∧
    ¬ ∃ w' ls', runCmds .passive (idleWorld [some (Cstr.lit "210 ok\n").bytes] []) [longRename] =
        some ([.num 0], w') ∧ w'.inreply = false ∧ w'.con.fd ≠ -1 ∧ Stream w' ls' [] ∧
      replyLines ls' = ([] : List (List (List UInt8))).flatten ∧
      ∃ used, [(Cstr.lit "210 ok").bytes] = used ++ ls' ∧
        w'.log = [] ++ (used.filter isBcast).map .bcast := by
  have htext : ∃ t, longRename.text = some t ∧ t.length = BUFLENLINE - 1 :=
    ⟨(Cstr.lit "tracksetname 1 ").bytes ++ (longName 2032).bytes, by decide +kernel, by decide +kernel⟩
  refine ⟨freshSock_fresh, (fun _ h => by cases h), by decide, by decide, .last rfl (by decide),
    .sent (htext.imp fun t h => ⟨h.1, h.2.le⟩) .nil, ?_⟩
  rintro ⟨w', ls', hrun, -⟩
  rw [runCmds, runCmd_edge .passive (idleWorld_idle _ _) htext] at hrun
  cases hrun

end Dudlc
