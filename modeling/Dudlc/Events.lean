import Dudlc.Formats
import Dudlc.Hangup
import Dudlc.Memory

/-!
# Events of the server

A broadcast line has a code and a record, a number or a text. `_duc_bcast` takes the code apart, parses what is
behind it in the memory of the line, and calls the handler of the event.

* `Notice`, `ducBcastAt` and its kind: the event that a line raises.
* `handlers`, `ducBcastAt_table`: the nested switches are a table of codes.
* `Notice.Says`: how an event is announced.
* **`bcast_exact`**: a line raises the event that it announces, and none with another code.
* **`announcements_raised`**: the events of a stream, over any run of commands and `duc_poll`.
* `ducBcastHeap`: the records of broadcasts in dynamic memory; `restores_bcast`.
-/

namespace Dudlc

open Lib Lib.HeapM Lib.Assn

/-- A call of a handler in `duc_events`, but for those of the connection. -/
inductive Notice
  | login (c : DucClient)
  | logout (c : DucClient)
  | kicked
  | nexttrack (t : DucTrack)
  | stopped
  | paused
  | resumed
  | random (r : ℤ)
  | elapsed (r : ℤ)
  | filter (t : List UInt8)
  | sleep (r : ℤ)
  | queuefetch (q : DucQueue)
  | queueadd (q : DucQueue)
  | queuedel (q : DucQueue)
  | queueclear
  | tagchange (t : DucTag)
  | tagdel (t : DucTag)
  | bcast (line : List UInt8)
  deriving DecidableEq

/-! ## Dispatch -/

/-- The event that the line at an index of the memory raises, if any. It has no result when a parser leaves the
memory. -/
abbrev Dispatch := (n : ℕ) → Block UInt8 n → ℕ → Option (Option Notice)

/-- An event with a record. A malformed record raises none. -/
def withRecord {α : Type} (p : Reader α) (f : α → Notice) : Dispatch := fun n m line => do
  let (a, _) ← p n m (line + 4)
  return a.map f

/-- An event with a number. -/
def withNumber (f : ℤ → Notice) : Dispatch := fun _ m line => (cstr m (line + 4)).map fun t => some (f (atoi t))

/-- An event with the text behind the code. -/
def withText (f : List UInt8 → Notice) : Dispatch := fun _ m line => (cstr m (line + 4)).map fun t => some (f t)

/-- The event for a line that has no other. -/
def withLine : Dispatch := fun _ m line => (cstr m line).map fun l => some (.bcast l)

/-- `_duc_bcast_client` -/
def ducBcastClientAt : Dispatch := fun n m line => do
  let c ← m.cells[line + 2]?
  if c = 48 then withRecord ducClientParse .login n m line
  else if c = 49 then withRecord ducClientParse .logout n m line
  else if c = 50 then return some .kicked
  else withLine n m line

/-- `_duc_bcast_newtrack` -/
def ducBcastNewtrackAt : Dispatch := withRecord ducTrackParse .nexttrack

/-- `_duc_bcast_player` -/
def ducBcastPlayerAt : Dispatch := fun n m line => do
  let c ← m.cells[line + 2]?
  if c = 48 then ducBcastNewtrackAt n m line
  else if c = 49 then return some .stopped
  else if c = 50 then return some .paused
  else if c = 51 then return some .resumed
  else if c = 54 then withNumber .random n m line
  else if c = 55 then withNumber .elapsed n m line
  else withLine n m line

/-- `_duc_bcast_random` -/
def ducBcastRandomAt : Dispatch := fun n m line => do
  let c ← m.cells[line + 2]?
  if c = 48 then withText .filter n m line
  else if c = 49 then withNumber .sleep n m line
  else withLine n m line

/-- `_duc_bcast_queue` -/
def ducBcastQueueAt : Dispatch := fun n m line => do
  let c ← m.cells[line + 2]?
  if c = 48 then withRecord ducQueueParse .queuefetch n m line
  else if c = 49 then withRecord ducQueueParse .queueadd n m line
  else if c = 50 then withRecord ducQueueParse .queuedel n m line
  else if c = 51 then return some .queueclear
  else withLine n m line

/-- `_duc_bcast_tag` -/
def ducBcastTagAt : Dispatch := fun n m line => do
  let c ← m.cells[line + 2]?
  if c = 48 then withRecord ducTagParse .tagchange n m line
  else if c = 49 then withRecord ducTagParse .tagdel n m line
  else withLine n m line

/-- `_duc_bcast` -/
def ducBcastAt : Dispatch := fun n m line => do
  let c ← m.cells[line + 1]?
  if c = 51 then ducBcastClientAt n m line
  else if c = 52 then ducBcastPlayerAt n m line
  else if c = 53 then ducBcastRandomAt n m line
  else if c = 54 then ducBcastQueueAt n m line
  else if c = 55 then ducBcastTagAt n m line
  else withLine n m line

/-! ## The table of codes -/

/-- The events with a code of their own. -/
def handlers : List (List UInt8 × Dispatch) := [
  ([54, 51, 48], withRecord ducClientParse .login),
  ([54, 51, 49], withRecord ducClientParse .logout),
  ([54, 51, 50], fun _ _ _ => some (some .kicked)),
  ([54, 52, 48], withRecord ducTrackParse .nexttrack),
  ([54, 52, 49], fun _ _ _ => some (some .stopped)),
  ([54, 52, 50], fun _ _ _ => some (some .paused)),
  ([54, 52, 51], fun _ _ _ => some (some .resumed)),
  ([54, 52, 54], withNumber .random),
  ([54, 52, 55], withNumber .elapsed),
  ([54, 53, 48], withText .filter),
  ([54, 53, 49], withNumber .sleep),
  ([54, 54, 48], withRecord ducQueueParse .queuefetch),
  ([54, 54, 49], withRecord ducQueueParse .queueadd),
  ([54, 54, 50], withRecord ducQueueParse .queuedel),
  ([54, 54, 51], fun _ _ _ => some (some .queueclear)),
  ([54, 55, 48], withRecord ducTagParse .tagchange),
  ([54, 55, 49], withRecord ducTagParse .tagdel)]

variable {n i : ℕ} {m : Block UInt8 n} {l : List UInt8} {q : Notice}

theorem cstr_getElem? {k : ℕ} (h : cstr m i = some l) (hk : k ≤ l.length) :
    m.cells[i + k]? = (l ++ [0])[k]? := by
  obtain ⟨pre, after, hcells, rfl, -⟩ := cstr_split h
  rw [hcells, List.getElem?_append_right (Nat.le_add_right ..), Nat.add_sub_cancel_left,
    show l ++ 0 :: after = (l ++ [0]) ++ after by simp, List.getElem?_append_left (by simpa using hk)]

theorem ducBcastAt_table (h : cstr m i = some l) (h6 : l.head? = some 54) :
    ducBcastAt n m i = ((handlers.lookup (l.take 3)).getD withLine) n m i := by
  obtain ⟨t, rfl⟩ : ∃ t, l = 54 :: t := by
    cases l with
    | nil => cases h6
    | cons a t => exact ⟨t, by rw [Option.some.inj h6]⟩
  have h1 := cstr_getElem? (k := 1) h (by simp)
  rcases t with _ | ⟨b, _ | ⟨c, t⟩⟩
  · have h1 : m.cells[i + 1]? = some 0 := h1
    simp [ducBcastAt, h1, handlers, List.lookup]
  · have h1 : m.cells[i + 1]? = some b := h1
    have h2 : m.cells[i + 2]? = some 0 := cstr_getElem? (k := 2) h (by simp)
    simp [ducBcastAt, ducBcastClientAt, ducBcastPlayerAt, ducBcastRandomAt, ducBcastQueueAt, ducBcastTagAt, h1, h2,
      handlers, List.lookup]
  · have h1 : m.cells[i + 1]? = some b := h1
    have h2 : m.cells[i + 2]? = some c := cstr_getElem? (k := 2) h (by simp)
    have hkey : ∀ x y : UInt8, ([54, b, c] == [54, x, y]) = (b == x && c == y) := by
      intro x y
      simp
    simp only [ducBcastAt, ducBcastClientAt, ducBcastPlayerAt, ducBcastNewtrackAt, ducBcastRandomAt, ducBcastQueueAt,
      ducBcastTagAt, h1, h2, handlers, List.take_succ_cons, List.take_zero, List.lookup, hkey, Option.bind_some, bind,
      pure]
    split_ifs <;> simp [beq_false_of_ne, *]

/-! ## Announcements -/

namespace Notice

/-- The code of an event. -/
def code : Notice → List UInt8
  | login _ => [54, 51, 48]
  | logout _ => [54, 51, 49]
  | kicked => [54, 51, 50]
  | nexttrack _ => [54, 52, 48]
  | stopped => [54, 52, 49]
  | paused => [54, 52, 50]
  | resumed => [54, 52, 51]
  | random _ => [54, 52, 54]
  | elapsed _ => [54, 52, 55]
  | filter _ => [54, 53, 48]
  | sleep _ => [54, 53, 49]
  | queuefetch _ => [54, 54, 48]
  | queueadd _ => [54, 54, 49]
  | queuedel _ => [54, 54, 50]
  | queueclear => [54, 54, 51]
  | tagchange _ => [54, 55, 48]
  | tagdel _ => [54, 55, 49]
  | bcast l => l.take 3

/-- What stands behind the code and a separator, for the events that read it. -/
def payload : Notice → Option (List UInt8)
  | login c | logout c => some (encode escape c.values)
  | nexttrack t => some (encode escape t.values)
  | random r | elapsed r | sleep r => some (decimalInt r)
  | filter t => some t
  | queuefetch q | queueadd q | queuedel q => some (encode escape q.values)
  | tagchange t | tagdel t => some (encode escape t.values)
  | kicked | stopped | paused | resumed | queueclear | bcast _ => none

/-- What a payload can carry: numbers that fit in `int`, and texts that are C strings. -/
def Fits : Notice → Prop
  | login c | logout c => ∀ v ∈ c.values, v.Fits
  | nexttrack t => ∀ v ∈ t.values, v.Fits
  | random r | elapsed r | sleep r => -2 ^ 31 ≤ r ∧ r < 2 ^ 31
  | queuefetch q | queueadd q | queuedel q => ∀ v ∈ q.values, v.Fits
  | tagchange t | tagdel t => ∀ v ∈ t.values, v.Fits
  | _ => True

/-- The line announces the event. Lines under codes that no event has announce themselves. -/
def Says (l : List UInt8) : Notice → Prop
  | bcast t => t = l ∧ l.head? = some 54 ∧ handlers.lookup (l.take 3) = none
  | q => l.take 3 = q.code ∧ 4 ≤ l.length ∧ q.Fits ∧ ∀ t ∈ q.payload, l.drop 4 = t

end Notice

theorem withRecord_raises {α : Type} {p : Reader α} {f : α → Notice} (h : withRecord p f n m i = some (some q)) :
    ∃ a, q = f a := by
  obtain ⟨⟨a, e⟩, -, hq⟩ := Option.bind_eq_some_iff.1 h
  obtain ⟨a, -, rfl⟩ := Option.map_eq_some_iff.1 (Option.some.inj hq)
  exact ⟨a, rfl⟩

theorem withNumber_raises {f : ℤ → Notice} (h : withNumber f n m i = some (some q)) : ∃ r, q = f r := by
  obtain ⟨t, -, hq⟩ := Option.map_eq_some_iff.1 h
  exact ⟨_, (Option.some.inj hq).symm⟩

theorem withText_raises {f : List UInt8 → Notice} (h : withText f n m i = some (some q)) : ∃ t, q = f t := by
  obtain ⟨t, -, hq⟩ := Option.map_eq_some_iff.1 h
  exact ⟨t, (Option.some.inj hq).symm⟩

theorem handlers_code : ∀ e ∈ handlers, ∀ q, e.2 n m i = some (some q) → q.code = e.1 := by
  simp only [handlers, List.forall_mem_cons, Option.some.injEq, List.not_mem_nil, false_implies, implies_true, and_true,
    forall_eq']
  refine ⟨?_, ?_, rfl, ?_, rfl, rfl, rfl, ?_, ?_, ?_, ?_, ?_, ?_, ?_, rfl, ?_, ?_⟩ <;> intro q hq
  all_goals first
    | exact (withRecord_raises hq).elim fun _ h => h ▸ rfl
    | exact (withNumber_raises hq).elim fun _ h => h ▸ rfl
    | exact (withText_raises hq).elim fun _ h => h ▸ rfl

theorem ducBcastAt_code {c : List UInt8} {d : Dispatch} (h : cstr m i = some l) (hc : l.take 3 = c)
    (hd : handlers.lookup c = some d) (h6 : c.head? = some 54) : ducBcastAt n m i = d n m i := by
  have hhead : l.head? = some 54 := by rw [← h6, ← hc, List.head?_take, if_neg (by decide)]
  rw [ducBcastAt_table h hhead, hc, hd, Option.getD_some]

theorem record_says {α : Type} {p : Reader α} {ks : List Field} {values : α → List Value} {f : α → Notice} {a : α}
    {c : List UInt8} (hp : Fills (unescape false) p ks [] values) (hinj : Function.Injective values)
    (hks : (values a).map Value.field = ks) (hd : handlers.lookup c = some (withRecord p f)) (h6 : c.head? = some 54)
    (h : cstr m i = some l) (hq : l.take 3 = c ∧ 4 ≤ l.length ∧ (∀ v ∈ values a, v.Fits) ∧
      ∀ t ∈ some (encode escape (values a)), l.drop 4 = t) : ducBcastAt n m i = some (some (f a)) := by
  obtain ⟨hc, h4, hfits, hl⟩ := hq
  obtain ⟨pre, after, hcells, hpre, -⟩ := cstr_split (cstr_drop h h4)
  have hread := hp.reads_encoded undoes_escape hinj hks hfits [] List.not_mem_nil (Or.inl rfl) n m pre after
    (by rw [hcells, hl _ rfl, List.append_nil])
  rw [hpre] at hread
  rw [ducBcastAt_code h hc hd h6]
  simp [withRecord, hread]

theorem number_says {r : ℤ} {f : ℤ → Notice} {c : List UInt8} (hd : handlers.lookup c = some (withNumber f))
    (h6 : c.head? = some 54) (h : cstr m i = some l)
    (hq : l.take 3 = c ∧ 4 ≤ l.length ∧ (-2 ^ 31 ≤ r ∧ r < 2 ^ 31) ∧ ∀ t ∈ some (decimalInt r), l.drop 4 = t) :
    ducBcastAt n m i = some (some (f r)) := by
  obtain ⟨hc, h4, hr, hl⟩ := hq
  have hscan := strtol_decimalInt (z := r) (r := []) (by unfold LONG_MAX; omega) (by unfold LONG_MAX; omega)
    fun b hb => by cases hb
  rw [List.append_nil] at hscan
  rw [ducBcastAt_code h hc hd h6, withNumber, cstr_drop h h4, Option.map_some, hl _ rfl, atoi, hscan, toInt_eq hr]

theorem bcast_says (h : cstr m i = some l) (hq : q.Says l) : ducBcastAt n m i = some (some q) := by
  cases q with
  | bcast t =>
    obtain ⟨rfl, h6, hnone⟩ := hq
    rw [ducBcastAt_table h h6, hnone, Option.getD_none, withLine, h, Option.map_some]
  | kicked | stopped | paused | resumed | queueclear => exact ducBcastAt_code h hq.1 rfl rfl
  | login c | logout c => exact record_says fills_client DucClient.values_injective rfl rfl rfl h hq
  | nexttrack t => exact record_says fills_track DucTrack.values_injective rfl rfl rfl h hq
  | queuefetch q | queueadd q | queuedel q =>
    exact record_says fills_queue DucQueue.values_injective rfl rfl rfl h hq
  | tagchange t | tagdel t => exact record_says fills_tag DucTag.values_injective rfl rfl rfl h hq
  | random r | elapsed r | sleep r => exact number_says rfl rfl h hq
  | filter t =>
    obtain ⟨hc, h4, -, hl⟩ := hq
    rw [ducBcastAt_code (d := withText .filter) h hc rfl rfl, withText, cstr_drop h h4, Option.map_some, hl _ rfl]

/-- **A broadcast raises its event**: the one that it announces, wherever the line stands, and none with
another code. -/
theorem bcast_exact (h : cstr m i = some l) :
    (∀ q : Notice, q.Says l → ducBcastAt n m i = some (some q)) ∧
    (∀ q, l.head? = some 54 → ducBcastAt n m i = some (some q) → q.code = l.take 3) := by
  refine ⟨fun q => bcast_says h, fun q h6 hq => ?_⟩
  rw [ducBcastAt_table h h6] at hq
  cases hd : handlers.lookup (l.take 3) with
  | none =>
    rw [hd, Option.getD_none, withLine, h, Option.map_some] at hq
    exact Option.some.inj (Option.some.inj hq) ▸ rfl
  | some d =>
    rw [hd, Option.getD_some] at hq
    obtain ⟨pre, post, heq, -⟩ := List.lookup_eq_some_iff.1 hd
    exact handlers_code (l.take 3, d) (heq ▸ by simp) q hq

/-- A user who logs in. -/
def newcomer : DucClient where
  id := 7
  addr := (Cstr.lit "::1").bytes
  user := { id := 3, name := (Cstr.lit "jo").bytes, right := 2 }

/-- The theorem for this user, with a line behind it in memory. -/
theorem bcast_newcomer :
    ducBcastAt _ ⟨(Cstr.lit "630 7\t::1\t3\tjo\t2").bytes ++ 0 :: (Cstr.lit "642 paused").bytes, rfl⟩ 0 =
      some (some (.login newcomer)) :=
  (bcast_exact (l := (Cstr.lit "630 7\t::1\t3\tjo\t2").bytes) (cstr_append (a := []) rfl (by decide))).1
    (.login newcomer) ⟨by decide, by decide, show ∀ v ∈ newcomer.values, v.Fits by decide,
      fun t ht => Option.some.inj ht ▸ by decide⟩

/-! ## Runs -/

section Runs

variable {ρ : Type} {ev : Handlers} {w v : World} {ls : List (List UInt8)} {part : List UInt8} {calls : List (Call ρ)}
  {qs : List Notice}

/-- The handlers take the event for the notice, wherever its line stands. -/
def Tells (e : Event) (q : Notice) : Prop :=
  ∃ l, e = .bcast l ∧ ∀ (n : ℕ) (m : Block UInt8 n) (i : ℕ), cstr m i = some l → ducBcastAt n m i = some (some q)

theorem says_tells (h : List.Forall₂ Notice.Says ls qs) : List.Forall₂ Tells (ls.map .bcast) qs := by
  rw [List.forall₂_map_left_iff]
  exact h.imp fun l q hq => ⟨l, rfl, fun n m i hm => bcast_says hm hq⟩

theorem runs_still (hev : ev.Quiet) (ht : w.con.Tidy) (h : Stream w ls part) (he : Ending w.recvs)
    (hon : Along (callStep ev) OnStream w calls) (hrun : runs (callStep ev) w calls = some v) (hfd : v.con.fd ≠ -1) :
    Still w ls part v := by
  induction calls generalizing w ls with
  | nil =>
    obtain rfl := Option.some.inj hrun
    exact Still.refl h he ht
  | cons c calls ih =>
    rw [runs_cons, Option.bind_eq_some_iff] at hrun
    obtain ⟨u, hstep, hrun⟩ := hrun
    have hopen : u.con.fd ≠ -1 := by
      intro hu
      cases calls with
      | nil => exact hfd (Option.some.inj hrun ▸ hu)
      | cons d ds => exact (hon.2 u hstep).1.2 hu
    have hkeep : ¬ c.LosesNews w := fun hlose => hopen (callStep_loses hev ht h he hlose hstep).1
    cases callStep_came hev ht h he hon.1.1 hkeep hstep with
    | still hstill =>
      obtain ⟨used, ms, hls, hlog, hs, he, ht⟩ := hstill
      exact (ih ht hs he (hon.2 u hstep) hrun).read hls hlog
    | torn hu => exact absurd hu hopen
    | ended hu => exact absurd hu hopen

/-- **Every announcement is raised once, in order.** On a connection whose broadcasts announce events, the events
that any commands and calls of `duc_poll` raise are the first ones announced, and the others are still unread. When
the server hangs up and no `duc_poll` loses what is in the buffer, all of them have been raised. -/
theorem announcements_raised (hev : ev.Quiet) (ht : w.con.Tidy) (h : Stream w ls part) (he : Ending w.recvs)
    (hon : Along (callStep ev) OnStream w calls) (hrun : runs (callStep ev) w calls = some v)
    (hq : List.Forall₂ Notice.Says (ls.filter isBcast) qs) :
    (v.con.fd ≠ -1 → ∃ k evs ms, v.log = w.log ++ evs ∧ List.Forall₂ Tells evs (qs.take k) ∧
      Stream v ms part ∧ List.Forall₂ Notice.Says (ms.filter isBcast) (qs.drop k)) ∧
    (v.recvs = [] → Along (callStep ev) (fun w c => ¬ c.LosesNews w) w calls →
      ∃ evs d, v.log = w.log ++ evs ++ List.replicate (d + 1) .disconnect ∧ List.Forall₂ Tells evs qs) := by
  refine ⟨fun hfd => ?_, fun hend hall => ?_⟩
  · obtain ⟨used, ms, rfl, hlog, hs, -⟩ := runs_still hev ht h he hon hrun hfd
    rw [List.filter_append] at hq
    have htake := List.forall₂_take (used.filter isBcast).length hq
    have hdrop := List.forall₂_drop (used.filter isBcast).length hq
    rw [List.take_left] at htake
    rw [List.drop_left] at hdrop
    exact ⟨_, _, ms, hlog, says_tells htake, hs, hdrop⟩
  · obtain ⟨d, hlog⟩ := (quiet_delivered_iff hev ht h he hon hrun hend).2.2 hall
    exact ⟨_, d, hlog, says_tells hq⟩

/-- The theorem where the server pauses and hangs up. -/
theorem announcements_raised_paused : ∃ v evs d,
    runs (callStep .passive) (hangupWorld "642 paused\n") [.poll, (.poll : Call Unit)] = some v ∧
    v.log = [] ++ evs ++ List.replicate (d + 1) .disconnect ∧ List.Forall₂ Tells evs [.paused] := by
  have hstep : ((callStep .passive (hangupWorld "642 paused\n") (.poll : Call Unit)).map
      fun w => (w.con.fd, newsIn w.con.unread)) = some (3, []) := by decide +kernel
  have hend : ((runs (callStep .passive) (hangupWorld "642 paused\n") [.poll, (.poll : Call Unit)]).map
      fun w => w.recvs) = some [] := by decide +kernel
  have hmid : ∀ w₁, callStep .passive (hangupWorld "642 paused\n") (.poll : Call Unit) = some w₁ →
      w₁.con.fd = 3 ∧ newsIn w₁.con.unread = [] := by
    intro w₁ hw₁
    rw [hw₁, Option.map_some, Option.some.injEq] at hstep
    exact Prod.mk.inj hstep
  obtain ⟨v, hv, hrecvs⟩ := Option.map_eq_some_iff.1 hend
  obtain ⟨ht, hs, he⟩ := hangup_stream (p := "642 paused\n") (by decide) [(Cstr.lit "642 paused").bytes] (by decide)
    (by decide)
  have hon : Along (callStep .passive) OnStream (hangupWorld "642 paused\n") [.poll, (.poll : Call Unit)] :=
    ⟨⟨trivial, hs.fd⟩, fun w₁ hw₁ => ⟨⟨trivial, by rw [(hmid w₁ hw₁).1]; decide⟩, fun _ _ => trivial⟩⟩
  have hkeep : Along (callStep .passive) (fun w c => ¬ c.LosesNews w) (hangupWorld "642 paused\n")
      [.poll, (.poll : Call Unit)] :=
    ⟨fun hlose => absurd hlose.1 (by decide), fun w₁ hw₁ =>
      ⟨fun hlose => hlose.2 (hmid w₁ hw₁).2, fun _ _ => trivial⟩⟩
  have hsays : List.Forall₂ Notice.Says ([(Cstr.lit "642 paused").bytes].filter isBcast) [.paused] :=
    .cons ⟨by decide, by decide, trivial, fun t ht => by cases ht⟩ .nil
  obtain ⟨evs, d, hlog, hevs⟩ := (announcements_raised Handlers.quiet_passive ht hs he hon hv hsays).2 hrecvs hkeep
  exact ⟨v, evs, d, hv, hlog, hevs⟩

end Runs

/-! ## Records of broadcasts -/

/-- A broadcast in dynamic memory. -/
abbrev HeapDispatch := (n : ℕ) → Block UInt8 n → ℕ → HeapM Cell Unit

/-- The record is parsed for the handler, and released behind it. -/
def recordHeap (k : RowType) : HeapDispatch := fun n m line => do
  let x ← k.parse n m (line + 4)
  if x.1 = 0 then return () else k.free x.1

/-- The handler gets a number or a text. -/
def textHeap : HeapDispatch := fun _ m line => do
  let _ ← look (cstr m (line + 4))
  return ()

/-- `_duc_bcast_client` -/
def ducBcastClientHeap : HeapDispatch := fun n m line => do
  let c ← look m.cells[line + 2]?
  if c = 48 ∨ c = 49 then recordHeap .client n m line else return ()

/-- `_duc_bcast_player` -/
def ducBcastPlayerHeap : HeapDispatch := fun n m line => do
  let c ← look m.cells[line + 2]?
  if c = 48 then recordHeap .track n m line
  else if c = 54 ∨ c = 55 then textHeap n m line
  else return ()

/-- `_duc_bcast_random` -/
def ducBcastRandomHeap : HeapDispatch := fun n m line => do
  let c ← look m.cells[line + 2]?
  if c = 48 ∨ c = 49 then textHeap n m line else return ()

/-- `_duc_bcast_queue` -/
def ducBcastQueueHeap : HeapDispatch := fun n m line => do
  let c ← look m.cells[line + 2]?
  if c = 48 ∨ c = 49 ∨ c = 50 then recordHeap .queue n m line else return ()

/-- `_duc_bcast_tag` -/
def ducBcastTagHeap : HeapDispatch := fun n m line => do
  let c ← look m.cells[line + 2]?
  if c = 48 ∨ c = 49 then recordHeap .tag n m line else return ()

/-- `_duc_bcast` -/
def ducBcastHeap : HeapDispatch := fun n m line => do
  let c ← look m.cells[line + 1]?
  if c = 51 then ducBcastClientHeap n m line
  else if c = 52 then ducBcastPlayerHeap n m line
  else if c = 53 then ducBcastRandomHeap n m line
  else if c = 54 then ducBcastQueueHeap n m line
  else if c = 55 then ducBcastTagHeap n m line
  else return ()

/-- A program that leaves the memory as it found it. -/
def Restores {α : Type} (c : HeapM Cell α) : Prop := Triple 1 c fun _ _ => 1

theorem Restores.pure {α : Type} (a : α) : Restores (pure a) := Triple.pure le_rfl

theorem restores_record (k : RowType) : Restores (recordHeap k n m i) := by
  refine (k.allocates.parses n m (i + 4)).bind fun x b => Triple.sup ?_ (Triple.iSup fun a => Triple.fact fun _ => ?_)
  · rw [← mul_one (fact _)]
    refine Triple.fact fun hx => ?_
    rw [if_pos hx.1]
    exact Restores.pure _
  · split_ifs with hx
    · rw [hx, k.allocates.ne_null]
      exact Triple.bot
    · exact (k.allocates.frees a x.1).post fun _ _ => mul_le_of_le_one_left' fact_le_one

theorem restores_text : Restores (textHeap n m i) := triple_look fun _ _ => Restores.pure _

/-- **A broadcast** leaves the memory as it found it. -/
theorem restores_bcast : Restores (ducBcastHeap n m i) := by
  refine triple_look fun c _ => ?_
  split_ifs <;> first | exact Restores.pure _ | refine triple_look fun d _ => ?_
  all_goals
    split_ifs <;> first | exact Restores.pure _ | exact restores_record _ | exact restores_text

end Dudlc
