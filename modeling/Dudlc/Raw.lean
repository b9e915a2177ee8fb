import Dudlc.Client
import Dudlc.Closed

/-!
# The raw command

* `Handlers.KeepSettled`, `runs_settled`: between the calls of a session no reply is due.
* `Message`, `rawMessages`: `c_raw` and what it prints.
* `Transmits`, `transmits_iff`: when the line is sent as it is; the user's line is taken for a format.
* `rawLoop_arrived`: the loop prints the lines of a reply that arrive; `op_raw`: its result is that of the
  client's raw operation.
* **`transparent_iff`**: when `raw` transmits the line and reports what comes back. It does not if the line
  has a `%`, or could not be sent: the loop ends as behind a whole reply then.
-/

namespace Dudlc

open Lib

variable {ρ : Type} {ev : Handlers} {w w' w₁ v : World} {r : ℤ} {fmt : Cstr} {ap : List Arg}
  {open_ : World → Option (ℤ × World)} {ls rep got more : List (List UInt8)} {c part t : List UInt8}

/-! ## No reply is due -/

/-- Handlers that leave no reply due. -/
structure Handlers.KeepSettled (ev : Handlers) : Prop where
  connect : ∀ w w' : World, w.inreply = false → ev.connect w = some w' → w'.inreply = false
  disconnect : ev.Settles

theorem Handlers.keepSettled_passive : Handlers.passive.KeepSettled :=
  ⟨fun _ _ h hw => Option.some.inj hw ▸ h, Handlers.settles_passive⟩

theorem close_settled (hev : ev.Settles) (h : ducClose ev w = some v) : v.inreply = false := by
  obtain ⟨v', hv', hin⟩ := close_settles hev w
  exact Option.some.inj (hv'.symm.trans h) ▸ hin

theorem rnext_settled (hev : ev.Settles) (h : ducRnext ev w = some (r, v)) (hr : r ≠ 0) :
    v.inreply = false := by
  obtain ⟨u, -, ⟨h1, rfl, -⟩ | ⟨-, hc⟩⟩ := ducRnext_onward h
  · rcases ducRnext_cases h with ⟨hin, -, rfl⟩ | ⟨-, -, rfl⟩ | ⟨_, _, _, -, -, ⟨-, -, rfl, -⟩ | ⟨-, rfl, -⟩⟩
    · exact hin
    · exact absurd rfl h1
    · exact absurd rfl h1
    · exact absurd rfl hr
  · exact close_settled hev hc

theorem rlast_settled (hev : ev.Settles) (h : ducRlast ev w = some (r, v)) : v.inreply = false :=
  ducRlast_rule (I := fun _ => True) (Q := fun _ u => u.inreply = false) trivial (fun _ _ _ _ => trivial)
    (fun _ _ hin => hin) (fun _ _ _ hr => rnext_settled hev hr (by decide)) h

theorem vsend_settled (hev : ev.Settles) (hopen : ∀ q v, open_ w = some (q, v) → v.inreply = false)
    (hin : w.inreply = false) (h : vsendBody ev open_ w fmt ap = some (r, v)) (hr : r ≠ 0) :
    v.inreply = false := by
  rcases vsendBody_cases h with ⟨-, -, rfl⟩ | ⟨-, q, ho, -⟩ | ⟨w₁, cmd, -, ho, -, ⟨-, -, rfl⟩ | ⟨t, -, hs⟩⟩
  · exact hin
  · exact hopen q v ho
  · exact hopen 0 v ho
  · obtain ⟨q, w₂, -, ⟨-, h0, -⟩ | ⟨-, -, hc⟩⟩ := vsendSend_cases hs
    · exact absurd h0 hr
    · exact close_settled hev hc

theorem cmdBody_settled {α : Type} {fail a : α} {done : World → Option α} (hev : ev.Settles)
    (hopen : ∀ q v, open_ w = some (q, v) → v.inreply = false) (hin : w.inreply = false)
    (h : cmdBody ev open_ fail done w fmt ap = some (a, v)) : v.inreply = false := by
  rcases cmdBody_cases h with ⟨q, hv, hq, -⟩ | ⟨w₁, -, ⟨q, hl, -⟩ | ⟨hl, -⟩⟩
  · exact vsend_settled hev hopen hin hv hq
  · exact rlast_settled hev hl
  · exact rlast_settled hev hl

theorem auth_settled (hev : ev.Settles) (hin : w.inreply = false) (h : authBody ev stayOpen w = some (r, v)) :
    v.inreply = false := by
  have hstay : ∀ u : World, u.inreply = false → ∀ q v, stayOpen u = some (q, v) → v.inreply = false := by
    intro u hu q v hs
    unfold stayOpen at hs
    split_ifs at hs
    exact (Prod.mk.inj (Option.some.inj hs)).2 ▸ hu
  rcases authBody_cases h with ⟨-, rfl⟩ | ⟨user, pass, q, w₁, -, -, hu, ⟨-, -, rfl⟩ | ⟨q', -, hp, -⟩⟩
  · exact hin
  · exact cmdBody_settled hev (hstay w hin) hin hu
  · have hw₁ := cmdBody_settled hev (hstay w hin) hin hu
    exact cmdBody_settled hev (hstay w₁ hw₁) hw₁ hp

theorem open_settled (hev : ev.KeepSettled) (hin : w.inreply = false) (h : ducOpen ev w = some (r, v)) :
    v.inreply = false := by
  rcases ducOpen_cases h with ⟨-, -, rfl⟩ | ⟨q, w₁, hfd, hc, hor⟩
  · exact hin
  rcases hor with ⟨hq, -, rfl⟩ | ⟨ok, w₂, -, hello, hor⟩
  · rcases connect_cases hfd hc with ⟨-, ds, rfl | rfl⟩ | ⟨h0, -⟩
    · exact hin
    · exact hin
    · exact absurd h0 hq
  have hw₂ : w₂.inreply = false := by
    obtain ⟨q, u, hl, hor⟩ := helloBody_cases hello
    have hu := rlast_settled hev.disconnect hl
    rcases hor with ⟨-, -, rfl⟩ | ⟨-, -, rfl⟩ | ⟨major, minor, -, ⟨-, -, rfl⟩ | ⟨-, -, -, rfl⟩ | ⟨p, -, ha, -⟩⟩
    · exact hu
    · exact hu
    · exact hu
    · exact hu
    · exact auth_settled hev.disconnect (w := { u with vmajor := major, vminor := minor }) hu ha
  rcases hor with ⟨-, -, hconnect⟩ | ⟨-, -, rfl⟩
  · exact hev.connect { w₂ with log := w₂.log ++ [.connect] } v hw₂ hconnect
  · exact hw₂

theorem it_settled {conv : Converter ρ} {it : Option (DucIter ρ)} (hev : ev.KeepSettled) (hin : w.inreply = false)
    (h : ducItNewv ev conv w fmt ap = some (it, v)) : v.inreply = false := by
  rcases ducItNewv_cases h with ⟨q, hv, hq, -⟩ | ⟨w₁, r, w₂, -, hr, hor⟩
  · exact vsend_settled hev.disconnect (fun _ _ ho => open_settled hev hin ho) hin hv hq
  rcases hor with ⟨hr0, -, rfl⟩ | ⟨-, -, -, q, hl⟩ | ⟨-, hcoll⟩
  · exact rnext_settled hev.disconnect hr hr0
  · exact rlast_settled hev.disconnect hl
  · exact itCollect_rule (I := fun _ => True) (Q := fun u => u.inreply = false) trivial (fun _ _ _ _ => trivial)
      (fun _ _ _ _ hr hneg => rnext_settled hev.disconnect hr hneg.ne)
      (fun _ _ _ _ hl => rlast_settled hev.disconnect hl) hcoll

theorem pollLoop_settled (hev : ev.Settles) (hin : w.inreply = false) (h : pollLoop ev w = some v) :
    v.inreply = false :=
  pollLoop_rule (I := fun u => u.inreply = false) (Q := fun u => u.inreply = false) hin
    (fun _ _ _ _ hu _ _ _ _ => hu) (fun _ _ _ _ hu _ _ _ _ => hu) (fun _ _ hu _ => hu)
    (fun _ _ _ _ _ _ _ _ _ hc => close_settled hev hc) h

/-- **No call returns with a reply due.** -/
theorem callStep_settled {c : Call ρ} (hev : ev.KeepSettled) (hin : w.inreply = false)
    (h : callStep ev w c = some v) : v.inreply = false := by
  cases c with
  | «open» =>
    obtain ⟨⟨r, u⟩, ho, rfl⟩ := Option.map_eq_some_iff.1 h
    exact open_settled hev hin ho
  | close => exact close_settled hev.disconnect h
  | setauth user pass => exact Option.some.inj h ▸ hin
  | poll =>
    obtain ⟨r, w₁, ho, ⟨-, rfl⟩ | ⟨q, w₂, -, hr, hor⟩⟩ := ducPoll_cases h
    · exact open_settled hev hin ho
    have hw₂ : w₂.inreply = false := (recv_cases hr).2.1.2.2.1.trans (open_settled hev hin ho)
    rcases hor with ⟨-, w₃, hc, hloop⟩ | ⟨-, hloop⟩
    · exact pollLoop_settled hev.disconnect (close_settled hev.disconnect hc) hloop
    · exact pollLoop_settled hev.disconnect hw₂ hloop
  | cmd c =>
    obtain ⟨⟨res, u⟩, hrun, rfl⟩ := Option.map_eq_some_iff.1 h
    have hopen : ∀ q v, ducOpen ev w = some (q, v) → v.inreply = false := fun _ _ ho => open_settled hev hin ho
    obtain ⟨helper, fmt, args⟩ := c
    cases helper with
    | it f =>
      obtain ⟨⟨it, u'⟩, hi, heq⟩ := Option.map_eq_some_iff.1 hrun
      exact (Prod.mk.inj heq).2 ▸ it_settled hev hin hi
    | _ =>
      obtain ⟨⟨a, u'⟩, hb, heq⟩ := Option.map_eq_some_iff.1 hrun
      exact (Prod.mk.inj heq).2 ▸ cmdBody_settled hev.disconnect hopen hin hb

/-- **Between the calls of a session no reply is due.** -/
theorem runs_settled (hev : ev.KeepSettled) (dials : List Dial) {calls : List (Call ρ)}
    (h : runs (callStep ev) (newWorld dials) calls = some w) : w.inreply = false :=
  runs_keep (I := fun u : World => u.inreply = false) (fun _ _ _ hu hs => callStep_settled hev hu hs) rfl h

/-! ## The command -/

/-- What `c_raw` prints: the text of a line, and the code behind the reply, which may be `NULL`. -/
inductive Message
  | line (text : List UInt8)
  | code (c : Option (List UInt8))
  deriving DecidableEq

/-- `_duc_rcode` as a string, `none` for `NULL`. -/
def World.codeText (w : World) : Option (List UInt8) := if w.code = [] then none else some w.code

/-- One round of the loop in `c_raw`. -/
def rawBody (ev : Handlers) (p : World × List Message) :
    Option (World × List Message ⊕ ℤ × World × List Message) := do
  let (r, w) ← ducRnext ev p.1
  if r = 0 then return .inl (w, p.2 ++ [.line (← w.rline)])
  else return .inr (r, w, p.2)

/-- `c_raw`: its result and what it prints. -/
def rawMessages (ev : Handlers) (w : World) (line : Cstr) : Option ((ℤ × List Message) × World) := do
  let (_, w) ← ducVsend ev w line []
  let (r, w, ms) ← loop (rawBody ev) (pending w + 1) (w, [])
  if r = -1 then return ((-1, ms), w)
  else return ((0, ms ++ [.code w.codeText]), w)

/-! ## The line -/

/-- The line is transmitted: its bytes and one line feed, behind what connecting sends. -/
def Transmits (ev : Handlers) (w : World) (line : Cstr) : Prop :=
  ∃ w₁ w₂, ducOpen ev w = some (0, w₁) ∧ ducVsend ev w line [] = some (0, w₂) ∧
    w₂.sent = w₁.sent ++ [line.bytes ++ [LF]]

/-- `_duc_vsend` does not send the line. -/
def Unsent (ev : Handlers) (w : World) (line : Cstr) : Prop :=
  ∃ r w₁, ducVsend ev w line [] = some (r, w₁) ∧ r ≠ 0

/-- The connection is or can be opened, and `send` takes the whole line. -/
def Sendable (ev : Handlers) (w : World) (line : Cstr) : Prop :=
  ∃ w₁, ducOpen ev w = some (0, w₁) ∧ w₁.takes (line.bytes ++ [LF]) = some (line.bytes ++ [LF])

theorem ducVsend_opened (hin : w.inreply = false) (ho : ducOpen ev w = some (0, w₁)) :
    ducVsend ev w fmt ap = (vsendBuf fmt ap).bind fun cmd =>
      match cmd with
      | none => some (-1, w₁)
      | some cmd => vsendSend ev w₁ cmd := by
  rw [ducVsend, vsendBody, hin, ho]
  rfl

theorem takes_initial {cmd took : List UInt8} (h : w.takes cmd = some took) : took <+: cmd := by
  unfold World.takes at h
  rcases hs : w.sends with _ | ⟨_ | n, ss⟩ <;> simp only [hs] at h
  · exact Option.some.inj h ▸ List.prefix_refl _
  · cases h
  · exact Option.some.inj h ▸ List.take_prefix n cmd

variable {line : Cstr}

theorem ducVsend_plain (hin : w.inreply = false) (hlen : line.bytes.length < BUFLENLINE - 1)
    (hpercent : 37 ∉ line.bytes) (ho : ducOpen ev w = some (0, w₁)) (hfd : w₁.con.fd ≠ -1)
    (htakes : w₁.takes (line.bytes ++ [LF]) = some (line.bytes ++ [LF])) :
    ducVsend ev w line [] = some (0, w₁.asked line.bytes) := by
  rw [ducVsend_opened hin ho, vsendBuf_eq (format_self [] hpercent) hlen, Option.bind_some]
  exact vsendSend_some hfd htakes

/-- **When the line is transmitted.** -/
theorem transmits_iff (hev : ev.Settles) (hin : w.inreply = false) (hlen : line.bytes.length < BUFLENLINE - 1)
    (hfd : ∀ w₁, ducOpen ev w = some (0, w₁) → w₁.con.fd ≠ -1) :
    Transmits ev w line ↔ 37 ∉ line.bytes ∧ Sendable ev w line := by
  constructor
  · rintro ⟨w₁, w₂, ho, hv, hsent⟩
    rw [ducVsend_opened hin ho] at hv
    rcases ht : format line.bytes [] with _ | t
    · simp [vsendBuf, ht] at hv
    obtain ⟨hle, hplain⟩ := format_noArgs ht
    rw [vsendBuf_eq ht (by omega)] at hv
    change vsendSend ev w₁ (t ++ [LF]) = some (0, w₂) at hv
    rcases htook : w₁.takes (t ++ [LF]) with _ | took
    · obtain ⟨w', hw', -⟩ := vsendSend_none hev (hfd w₁ ho) htook
      cases hw'.symm.trans hv
    rw [vsendSend_some (hfd w₁ ho) htook] at hv
    obtain ⟨-, rfl⟩ := Prod.mk.inj (Option.some.inj hv)
    obtain rfl : took = line.bytes ++ [LF] := by simpa using hsent
    have hshort := (takes_initial htook).length_le
    simp only [List.length_append, List.length_singleton] at hshort
    have hpercent : 37 ∉ line.bytes := hplain (by omega)
    obtain rfl : line.bytes = t := Option.some.inj ((format_self [] hpercent).symm.trans ht)
    exact ⟨hpercent, w₁, ho, htook⟩
  · rintro ⟨hpercent, w₁, ho, htakes⟩
    exact ⟨w₁, _, ho, ducVsend_plain hin hlen hpercent ho (hfd w₁ ho) htakes, rfl⟩

/-! ## The loop -/

theorem raw_step {ms : List Message} (h : ducRnext ev w = some (0, w')) (ht : w'.rline = some t) :
    loop (rawBody ev) (pending w + 1) (w, ms) =
      loop (rawBody ev) (pending w' + 1) (w', ms ++ [.line t]) := by
  have hb : rawBody ev (w, ms) = some (.inl (w', ms ++ [.line t])) := by simp [rawBody, h, ht]
  rw [loop_succ_inl hb]
  refine loop_fuel (fun p => pending p.1) (fun p q hq => ?_) _ _ _ (rnext_pending h) (Nat.lt_succ_self _)
  simp only [rawBody, Option.bind_eq_bind, Option.bind_eq_some_iff, Option.pure_def] at hq
  obtain ⟨⟨r, u⟩, hr, hq⟩ := hq
  split_ifs at hq with h0
  · obtain ⟨t, -, hq⟩ := Option.bind_eq_some_iff.1 hq
    obtain rfl : r = 0 := h0
    obtain rfl := Sum.inl.inj (Option.some.inj hq)
    exact rnext_pending hr
  · cases hq

theorem raw_end {ms : List Message} (h : ducRnext ev w = some (r, w')) (hr : r ≠ 0) :
    loop (rawBody ev) (pending w + 1) (w, ms) = some (r, w', ms) :=
  loop_succ_inr (by simp [rawBody, h, hr])

/-- **The lines that arrive are printed.** Behind the last line of the reply the loop ends with -2, and where
the reply breaks off with -1. -/
theorem rawLoop_arrived (hev : ev.Settles) (ms : List Message) (hrep : IsReply c rep) (hgot : got <+: rep)
    (hmore : got = rep ∨ more = []) (hin : w.inreply = true) (hc : w.code = [] ∨ w.code = c)
    (hls : replyLines ls = got ++ more) (h : Stream w ls part) :
    ∃ r w', loop (rawBody ev) (pending w + 1) (w, ms) =
        some (r, w', ms ++ got.map fun l => .line (l.drop 4)) ∧
      (got = rep → r = -2 ∧ w'.code = c) ∧ (got ≠ rep → r = -1) := by
  induction rep generalizing w ls got ms with
  | nil => exact absurd rfl hrep.ne_nil
  | cons l rep ih =>
    cases got with
    | nil =>
      obtain rfl : more = [] := hmore.resolve_left (List.cons_ne_nil l rep).symm
      obtain ⟨con, recvs, rooms, hr⟩ := rnext_end ev hin (replyLines_nil hls) h
      obtain ⟨w', hc', -⟩ := close_settles hev (w.after ls con recvs rooms)
      rw [hc'] at hr
      exact ⟨-1, w', by simp [raw_end hr (by decide)], fun h => absurd h.symm (List.cons_ne_nil l rep), fun _ => rfl⟩
    | cons k got =>
      obtain ⟨rfl, hpre⟩ := List.cons_prefix_cons.1 hgot
      rw [← hrep.code] at hc
      obtain ⟨w', ls', hr, ht, hs, hls', -, hcode, hin'⟩ := rnext_arrived ev hin hc hls h
      rw [raw_step hr ht]
      have hmore : got = rep ∨ more = [] := hmore.imp (fun heq => (List.cons.inj heq).2) id
      have hcons : k :: got = k :: rep ↔ got = rep := by simp
      rw [hcons, ne_eq, hcons, List.map_cons, List.append_cons ms (.line (k.drop 4)) (got.map _)]
      rcases hrep.rest with ⟨hdash, hrep'⟩ | ⟨hdash, rfl⟩
      · exact ih _ hrep' hpre hmore (hin'.trans (decide_eq_true hdash)) (Or.inr (hcode.trans hrep.code)) hls' hs
      · obtain rfl := List.prefix_nil.1 hpre
        have hend : ducRnext ev w' = some (-2, w') := by simp [ducRnext, hin', hdash]
        rw [raw_end hend (by decide)]
        exact ⟨-2, w', by simp, fun _ => ⟨rfl, hcode.trans hrep.code⟩, fun h => absurd rfl h⟩

theorem rnext_text (h : ducRnext ev w = some (0, w')) : ∃ t, w'.rline = some t := by
  have hloop : ∀ {i l u}, rnextLoop ev w = some (some (i, l), u) → cstr u.con.buf i = some l ∧ 4 ≤ l.length := by
    intro i l u hu
    refine loop_partial (fun _ => True) (fun b : Option (ℕ × List UInt8) × World =>
      ∀ i l, b.1 = some (i, l) → cstr b.2.con.buf i = some l ∧ 4 ≤ l.length) (fun _ _ _ _ => trivial) ?_ _ w _
      trivial hu i l rfl
    rintro u b - hb i l hil
    rcases rnextBody_cases hb with ⟨j, t, con, -, ht, h⟩ | ⟨con, r, w₁, -, -, h⟩
    · rcases h with ⟨-, _, -, h⟩ | ⟨hlen, -, h⟩ | ⟨-, -, h⟩ <;> cases h
      · cases hil
      · cases hil
        exact ⟨ht, hlen⟩
    · rcases h with ⟨-, _, -, h⟩ | ⟨-, h⟩ <;> cases h
      cases hil
  rcases ducRnext_cases h with ⟨-, h, -⟩ | ⟨-, -, h⟩ | ⟨i, l, u, -, hu, ⟨-, -, h, -⟩ | ⟨-, -, rfl⟩⟩
  · cases h
  · cases h
  · cases h
  · obtain ⟨ht, hlen⟩ := hloop hu
    exact ⟨l.drop 4, cstr_drop ht hlen⟩

theorem rawLoop_rlast (ev : Handlers) (w : World) (ms : List Message) :
    (loop (rawBody ev) (pending w + 1) (w, ms)).map (fun p => (p.1, p.2.1)) =
      loop (rlastBody ev) (pending w + 1) w := by
  generalize pending w + 1 = n
  induction n generalizing w ms with
  | zero => rfl
  | succ n ih =>
    rcases hr : ducRnext ev w with _ | ⟨r, u⟩
    · have hb : rawBody ev (w, ms) = none := by simp [rawBody, hr]
      have hl : rlastBody ev w = none := by simp [rlastBody, hr]
      rw [loop_succ_none hb, loop_succ_none hl]
      rfl
    by_cases h0 : r = 0
    · subst h0
      obtain ⟨t, ht⟩ := rnext_text hr
      have hb : rawBody ev (w, ms) = some (.inl (u, ms ++ [.line t])) := by simp [rawBody, hr, ht]
      have hl : rlastBody ev w = some (.inl u) := by simp [rlastBody, hr]
      rw [loop_succ_inl hb, loop_succ_inl hl]
      exact ih u _
    · have hb : rawBody ev (w, ms) = some (.inr (r, u, ms)) := by simp [rawBody, hr, h0]
      have hl : rlastBody ev w = some (.inr (r, u)) := by simp [rlastBody, hr, h0]
      rw [loop_succ_inr hb, loop_succ_inr hl]
      rfl

/-- **`c_raw` among the calls of a client** is this command without what it prints. -/
theorem op_raw (ev : Handlers) (line : Cstr) (w : World) :
    World.op ev (.raw line) w = (rawMessages ev w line).map fun p => (p.1.1, p.2) := by
  have hop : World.op ev (.raw line) w = (ducVsend ev w line []).bind fun p => ducRlast ev p.2 := rfl
  rw [hop, rawMessages]
  rcases ducVsend ev w line [] with _ | ⟨q, u⟩
  · rfl
  have hloop := rawLoop_rlast ev u []
  simp only [Option.bind_eq_bind, Option.bind_some, ducRlast, Option.pure_def, ← hloop]
  rcases loop (rawBody ev) (pending u + 1) (u, []) with _ | ⟨r, v, ms⟩
  · rfl
  · simp only [Option.map_some, Option.bind_some]
    split_ifs <;> rfl

/-! ## Transparency -/

/-- What `c_raw` prints when `got` arrives of the reply `rep` with the code `c`. -/
def replyMessages (c : List UInt8) (rep got : List (List UInt8)) : List Message :=
  got.map (fun l => .line (l.drop 4)) ++ if got = rep then [.code (some c)] else []

/-- **`raw` is transparent**: it transmits the line, prints the text of every line that arrives of the reply
and, behind the last one, the code, and fails when the reply breaks off; or the line could not be sent, and it
fails. -/
def Transparent (ev : Handlers) (w : World) (line : Cstr) (c : List UInt8) (rep got : List (List UInt8)) :
    Prop :=
  ∃ r ms w', rawMessages ev w line = some ((r, ms), w') ∧
    ((Transmits ev w line ∧ ms = replyMessages c rep got ∧ r = if got = rep then 0 else -1) ∨
      (Unsent ev w line ∧ r = -1))

/-- **A line that is not sent** is no failure: the loop ends at once with -2. -/
theorem raw_unsent (hev : ev.KeepSettled) (hin : w.inreply = false) (h : ducVsend ev w line [] = some (r, v))
    (hr : r ≠ 0) : rawMessages ev w line = some ((0, [.code v.codeText]), v) := by
  have hidle : v.inreply = false :=
    vsend_settled hev.disconnect (fun _ _ ho => open_settled hev hin ho) hin h hr
  have hend : ducRnext ev v = some (-2, v) := by simp [ducRnext, hidle]
  simp [rawMessages, h, raw_end hend (by decide)]

theorem Stream.code_ne_nil (h : Stream w ls part) (hrep : IsReply c rep) (hls : replyLines ls = rep ++ more) :
    c ≠ [] := by
  obtain ⟨l, rep, rfl⟩ := List.exists_cons_of_ne_nil hrep.ne_nil
  have hl : l ∈ replyLines ls := by rw [hls]; simp
  have hmin := (h.lines l (List.mem_of_mem_filter hl)).min
  intro hnil
  have hlen := congrArg List.length (hrep.code.trans hnil)
  rw [List.length_take, List.length_nil] at hlen
  omega

theorem raw_sent (hev : ev.Settles) (hv : ducVsend ev w line [] = some (0, v)) (hin : v.inreply = true)
    (hcode : v.code = []) (hrep : IsReply c rep) (hgot : got <+: rep) (hmore : got = rep ∨ more = [])
    (hls : replyLines ls = got ++ more) (h : Stream v ls part) :
    ∃ w', rawMessages ev w line =
      some ((if got = rep then 0 else -1, replyMessages c rep got), w') := by
  obtain ⟨r, w', hloop, hwhole, hlost⟩ := rawLoop_arrived hev [] hrep hgot hmore hin (Or.inl hcode) hls h
  refine ⟨w', ?_⟩
  rw [List.nil_append] at hloop
  by_cases heq : got = rep
  · obtain ⟨rfl, hc⟩ := hwhole heq
    have hne : c ≠ [] := h.code_ne_nil hrep (heq ▸ hls)
    have htext : w'.codeText = some c := by rw [World.codeText, hc, if_neg hne]
    simp [rawMessages, hv, hloop, replyMessages, heq, htext]
  · obtain rfl := hlost heq
    simp [rawMessages, hv, hloop, replyMessages, heq]

/-- **When `raw` is transparent.** On a session between its calls, for a line that fits into the send buffer
and a server that answers with the reply `rep`, of which `got` arrives, and with broadcasts anywhere: just when
the line has no `%`, the connection is or can be opened, and `send` takes the whole line. -/
theorem transparent_iff (hev : ev.KeepSettled) (hin : w.inreply = false)
    (hlen : line.bytes.length < BUFLENLINE - 1) (hrep : IsReply c rep) (hgot : got <+: rep)
    (hmore : got = rep ∨ more = [])
    (hserver : ∀ w₁, ducOpen ev w = some (0, w₁) → ∃ ls part, Stream w₁ ls part ∧ replyLines ls = got ++ more) :
    Transparent ev w line c rep got ↔ 37 ∉ line.bytes ∧ Sendable ev w line := by
  have hfd : ∀ w₁, ducOpen ev w = some (0, w₁) → w₁.con.fd ≠ -1 := by
    intro w₁ ho
    obtain ⟨ls, part, hs, -⟩ := hserver w₁ ho
    exact hs.fd
  rw [← transmits_iff hev.disconnect hin hlen hfd]
  constructor
  · rintro ⟨r, ms, w', hrun, ⟨ht, -⟩ | ⟨⟨q, v, hv, hq⟩, rfl⟩⟩
    · exact ht
    · cases (raw_unsent hev hin hv hq).symm.trans hrun
  · intro ht
    obtain ⟨hpercent, w₁, ho, htakes⟩ := (transmits_iff hev.disconnect hin hlen hfd).1 ht
    obtain ⟨ls, part, hs, hls⟩ := hserver w₁ ho
    obtain ⟨w', hrun⟩ := raw_sent hev.disconnect (ducVsend_plain hin hlen hpercent ho (hfd w₁ ho) htakes) rfl rfl
      hrep hgot hmore hls (hs.asked line.bytes)
    exact ⟨_, _, w', hrun, Or.inl ⟨ht, rfl, rfl⟩⟩

/-- A reply of two lines. -/
def helpReply : List (List UInt8) := [(Cstr.lit "220-raw").bytes, (Cstr.lit "220 help").bytes]

theorem helpReply_reply : IsReply (Cstr.lit "220").bytes helpReply := .more rfl rfl (.last rfl (by decide))

/-- **Two lines that `raw` does not treat so.** Of `help 100%%` one `%` is sent, and where `send` fails the result
is that of a success. -/
theorem not_transparent : IsReply (Cstr.lit "220").bytes helpReply ∧
    ¬ Transparent .passive (idleWorld [some (wire LF helpReply)] []) (.lit "help 100%%") (Cstr.lit "220").bytes
      helpReply helpReply ∧
    ¬ Transparent .passive (idleWorld [] [none]) (.lit "help") (Cstr.lit "220").bytes helpReply [] := by
  refine ⟨helpReply_reply, ?_, ?_⟩
  · have hsends : (ducVsend .passive (idleWorld [some (wire LF helpReply)] []) (.lit "help 100%%") []).map
        (fun p => (p.1, p.2.sent)) = some (0, [(Cstr.lit "help 100%\n").bytes]) := by decide +kernel
    rintro ⟨r, ms, w', -, ⟨⟨w₁, w₂, ho, hv, hsent⟩, -⟩ | ⟨⟨q, v, hv, hq⟩, -⟩⟩
    · obtain ⟨-, rfl⟩ := Prod.mk.inj (Option.some.inj ((ducOpen_open freshSock_fresh.1).symm.trans ho))
      rw [hv, Option.map_some, hsent] at hsends
      have hne : (Cstr.lit "help 100%%").bytes ++ [LF] ≠ (Cstr.lit "help 100%\n").bytes := by decide +kernel
      exact hne (List.cons.inj (Prod.mk.inj (Option.some.inj hsends)).2).1
    · rw [hv] at hsends
      exact hq (Prod.mk.inj (Option.some.inj hsends)).1
  · have hfails : (rawMessages .passive (idleWorld [] [none]) (.lit "help")).map (fun p => p.1) =
        some (0, [.code none]) := by decide +kernel
    have hsends : (ducVsend .passive (idleWorld [] [none]) (.lit "help") []).map Prod.fst = some (-1) := by
      decide +kernel
    rintro ⟨r, ms, w', hrun, ⟨⟨w₁, w₂, -, hv, -⟩, -⟩ | ⟨-, rfl⟩⟩
    · rw [hv] at hsends
      cases hsends
    · rw [hrun] at hfails
      cases hfails

/-- The theorem at a reply of two lines with a broadcast between them. -/
theorem transparent_iff_help : Transparent .passive
    (idleWorld [some (Cstr.lit "220-raw\n640 x\n22").bytes, some (Cstr.lit "0 help\n").bytes] []) (.lit "help")
    (Cstr.lit "220").bytes helpReply helpReply := by
  have hwhole : helpReply = helpReply ∨ ([] : List (List UInt8)) = [] := Or.inl rfl
  refine (transparent_iff Handlers.keepSettled_passive rfl (by decide) helpReply_reply (List.prefix_refl _)
    hwhole fun w₁ ho => ?_).2 ⟨by decide +kernel, _, ducOpen_open freshSock_fresh.1, rfl⟩
  obtain ⟨-, rfl⟩ := Prod.mk.inj (Option.some.inj ((ducOpen_open freshSock_fresh.1).symm.trans ho))
  refine ⟨[(Cstr.lit "220-raw").bytes, (Cstr.lit "640 x").bytes, (Cstr.lit "220 help").bytes], [],
    ⟨freshSock_fresh.1, ⟨[], [], holds_nil rfl rfl, rfl⟩, ?_, nofun, by decide⟩, by decide +kernel⟩
  exact show ∀ l ∈ [(Cstr.lit "220-raw").bytes, (Cstr.lit "640 x").bytes, (Cstr.lit "220 help").bytes],
    WireLine 4 l by decide +kernel

end Dudlc
