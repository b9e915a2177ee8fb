import Dudlc.TagLine

/-!
# Durations

The places that print a duration: a track in `dfmt_track`, the sum of the queue and the elapsed time in
`command.c`, and the lists and the player of the GTK client.

* `clockLine`, `cQueuesumLine`, `cElapsedLine`; `cellfuncDuration`, `timeFmt`.
* `readClock`: the seconds that a text with colons denotes.
* `TrackPrints`, `ClockShown`: what `dfmt_track` and the handlers print.
* `track_denotes_iff`, `clockShown_iff`, `timeFmt_denotes`, `cell_denotes`: when a text denotes its duration.
* **`durations_iff`**: when all texts do.
-/

namespace Dudlc

open Lib

/-! ## Printing -/

/-- `c_queuesum` and `c_elapsed`: a number of seconds as the time of a day; the return value and the message. -/
def clockLine (c : Clib) (msg : Cstr) (p : Client ℤ) : Client (ℤ × Option (List UInt8)) := do
  let dur ← p
  if dur < 0 then return (-1, none)
  else
    let (_, buf) ← Prog.ofOption (strftime c (.fill 10 0 : Block UInt8 10) 0 10 (.lit "%H:%M:%S") (c.gmtime dur))
    return (0, some (← Prog.ofOption (do sprintf msg [field (← cstr buf 0)])))

/-- `c_queuesum` -/
def cQueuesumLine (c : Clib) := clockLine c (.lit "duration: %s\n") ducCmdQueuesum

/-- `c_elapsed` -/
def cElapsedLine (c : Clib) := clockLine c (.lit "elapsed: %s\n") ducCmdElapsed

/-- `cellfunc_duration`: the text of the cell. -/
def cellfuncDuration (c : Clib) (duration : ℤ) : Option (List UInt8) := do
  let (_, buf) ← snprintf c (.fill 100 0 : Block UInt8 100) 0 100 (.lit "%d:%02d")
    [.int (duration.tdiv 60), .int (duration.tmod 60)]
  cstr buf 0

/-- `time_fmt` -/
def timeFmt (value : ℤ) : Option (List UInt8) :=
  sprintf (.lit "%d:%02d") [.int (value.tdiv 60), .int (value.tmod 60)]

/-! ## Reading -/

/-- The seconds that a text denotes: numbers with colons between them, each worth 60 of the next. -/
def readClock (t : List UInt8) : Option ℤ :=
  (t.splitOn 58).foldlM (fun v p => if p ≠ [] ∧ p.all isdigit then some (60 * v + digitsVal p) else none) 0

/-- What `dfmt_track` prints in front of the duration. -/
def trackFront (c : Clib) (w : Fonts) (t : DucTrack) : Option (List UInt8) := do
  sprintf (.lit "%7s %s%-18.18s%s ")
    [.str (← dfmtTrackid c t.album.id t.albumnr), w.bf, field t.album.album, w.nf]

/-- What `dfmt_track` prints behind the duration. -/
def trackBack (w : Fonts) (t : DucTrack) : Option (List UInt8) :=
  sprintf (.lit " %s%-16.16s%s %-29s") [w.bf, field t.artist.artist, w.nf, field t.title]

/-- `dfmt_track` prints this text for the duration, as far as the line fits into the buffer. -/
def TrackPrints (c : Clib) (w : Fonts) (t : DucTrack) (x : List UInt8) : Prop :=
  ∃ a b, trackFront c w t = some a ∧ trackBack w t = some b ∧
    ∀ n (buf : Block UInt8 (n + 1)), ∃ buf', dfmtTrack c w buf 0 (n + 1) t = some buf' ∧
      cstr buf' 0 = some ((a ++ (x ++ b)).take n)

/-- For every server that answers a request with a number of seconds, a handler shows a text that denotes it. -/
def ClockShown (p : Client (ℤ × Option (List UInt8))) (fmt msg : Cstr) (d : ℤ) : Prop :=
  ∀ (sv : Server) sent rep, sv.answer sent ⟨fmt, []⟩ = some rep → Grants rep [decimalInt d] →
    ∃ x sent', p.run sv.op sent = some ((0, some (msg.bytes ++ (x ++ [LF]))), sent') ∧ readClock x = some d

variable {c : Clib} {w : Fonts} {t : DucTrack} {d : ℤ} {p q r x : List UInt8}

/-- A number between colons. -/
def AllDigits (p : List UInt8) : Prop := p ≠ [] ∧ ∀ b ∈ p, isdigit b = true

theorem readClock_intercalate {ps : List (List UInt8)} (hne : ps ≠ []) (hps : ∀ p ∈ ps, AllDigits p) :
    readClock ([58].intercalate ps) = some (ps.foldl (fun v p => 60 * v + (digitsVal p : ℤ)) 0) := by
  have hfold : ∀ v : ℤ, ps.foldlM (fun v p => if p ≠ [] ∧ p.all isdigit then some (60 * v + (digitsVal p : ℤ)) else none) v =
      some (ps.foldl (fun v p => 60 * v + (digitsVal p : ℤ)) v) := by
    clear hne
    induction ps with
    | nil => exact fun v => rfl
    | cons p ps ih =>
      intro v
      obtain ⟨hp, hdigits⟩ := hps p List.mem_cons_self
      rw [List.foldlM_cons, if_pos ⟨hp, List.all_eq_true.2 hdigits⟩]
      exact ih (fun q hq => hps q (List.mem_cons_of_mem p hq)) _
  rw [readClock, List.splitOn_intercalate 58 _ hne, hfold]
  exact fun p hp h58 => absurd ((hps p hp).2 58 h58) (by decide)

theorem readClock_two (hp : AllDigits p) (hq : AllDigits q) :
    readClock (p ++ 58 :: q) = some (60 * digitsVal p + digitsVal q : ℤ) := by
  have hread := readClock_intercalate (List.cons_ne_nil p [q]) (by simp [hp, hq])
  simpa using hread

theorem readClock_three (hp : AllDigits p) (hq : AllDigits q) (hr : AllDigits r) :
    readClock (p ++ 58 :: (q ++ 58 :: r)) = some (60 * (60 * digitsVal p + digitsVal q) + digitsVal r : ℤ) := by
  have hread := readClock_intercalate (List.cons_ne_nil p [q, r]) (by simp [hp, hq, hr])
  simpa using hread

theorem allDigits_decimal (n : ℕ) : AllDigits (decimal n) := ⟨decimal_ne_nil n, decimal_isdigit n⟩

theorem allDigits_two {n : ℕ} (hn : n < 100) : AllDigits (two n) := by
  refine ⟨List.cons_ne_nil _ _, fun b hb => ?_⟩
  rcases List.mem_pair.1 hb with rfl | rfl
  · exact (digit_lt _ (by omega)).1
  · exact (digit_lt _ (by omega)).1

theorem digitsVal_two {n : ℕ} (hn : n < 100) : digitsVal (two n) = n := by
  have htens := (digit_lt (n / 10) (by omega)).2
  have hones := (digit_lt (n % 10) (by omega)).2
  simp only [digitsVal, two, List.foldl_cons, List.foldl_nil, htens, hones]
  omega

theorem readClock_minutesText (c : Clib) (d : ℤ) : readClock (minutesText (c.gmtime d)) = some (d % 3600) := by
  have hmin := c.gmtime_min d
  have hsec := c.gmtime_sec d
  rw [minutesText, readClock_two (allDigits_two (by omega)) (allDigits_two (by omega)), digitsVal_two (by omega),
    digitsVal_two (by omega)]
  exact congrArg some (by omega)

theorem readClock_clockText (c : Clib) (d : ℤ) : readClock (clockText (c.gmtime d)) = some (d % 86400) := by
  have hhour := c.gmtime_hour d
  have hmin := c.gmtime_min d
  have hsec := c.gmtime_sec d
  rw [clockText, minutesText, readClock_three (allDigits_two (by omega)) (allDigits_two (by omega))
    (allDigits_two (by omega)), digitsVal_two (by omega), digitsVal_two (by omega), digitsVal_two (by omega)]
  exact congrArg some (by omega)

/-! ## Tracks -/

theorem sprintf_track (id bf album nf tim artist title : Cstr) : ∃ a b,
    sprintf (.lit "%7s %s%-18.18s%s ") [.str id, .str bf, .str album, .str nf] = some a ∧
    sprintf (.lit " %s%-16.16s%s %-29s") [.str bf, .str artist, .str nf, .str title] = some b ∧
    sprintf (.lit "%7s %s%-18.18s%s %-5.5s %s%-16.16s%s %-29s") [.str id, .str bf, .str album, .str nf, .str tim,
      .str bf, .str artist, .str nf, .str title] =
      some (a ++ (Spec.str { left := true, width := 5, prec := some 5 } tim ++ b)) := by
  refine ⟨Spec.str { width := 7 } id ++ 32 :: (Spec.str {} bf ++
      (Spec.str { left := true, width := 18, prec := some 18 } album ++ (Spec.str {} nf ++ [32]))),
    32 :: (Spec.str {} bf ++ (Spec.str { left := true, width := 16, prec := some 16 } artist ++
      (Spec.str {} nf ++ 32 :: (Spec.str { left := true, width := 29 } title ++ [])))), rfl, rfl, ?_⟩
  simp only [List.append_assoc, List.cons_append, List.nil_append]
  rfl

theorem spec_minutes (tm : Tm) : Spec.str { left := true, width := 5, prec := some 5 } (.ofBytes (minutesText tm)) =
    minutesText tm := by
  rw [Cstr.ofBytes_eq (minutesText_free tm)]
  simp [Spec.str, Spec.pad, length_minutesText]

theorem trackPrints_minutes (c : Clib) (w : Fonts) (t : DucTrack) :
    TrackPrints c w t (minutesText (c.gmtime t.duration)) := by
  obtain ⟨id, hid⟩ := dfmtTrackid_some (c := c) t.album.id t.albumnr
  obtain ⟨a, b, ha, hb, htext⟩ := sprintf_track id (w.dfmtBf.getD (.lit "")) (.ofBytes t.album.album)
    (w.dfmtNf.getD (.lit "")) (.ofBytes (minutesText (c.gmtime t.duration))) (.ofBytes t.artist.artist) (.ofBytes t.title)
  rw [spec_minutes] at htext
  refine ⟨a, b, by rw [trackFront, hid]; exact ha, hb, fun n buf => ?_⟩
  obtain ⟨tim, htim, hs⟩ := minutes_tim (c := c) t.duration (.fill 10 0)
  obtain ⟨buf', hbuf, htake⟩ := snprintf_text c (m := buf) htext (sprintf_free htext) (Nat.succ_ne_zero n)
  refine ⟨buf', ?_, htake⟩
  rw [dfmtTrack, htim, Option.bind_eq_bind, Option.bind_some]
  dsimp only
  rw [hid, hs]
  change (snprintf c buf 0 (n + 1) _ _).bind _ = _
  rw [Fonts.bf, Fonts.nf, field, field, field, field, hbuf]
  rfl

theorem TrackPrints.unique {y : List UInt8} (hx : TrackPrints c w t x) (hy : TrackPrints c w t y) : x = y := by
  obtain ⟨a, b, ha, hb, hx⟩ := hx
  obtain ⟨a', b', ha', hb', hy⟩ := hy
  obtain rfl := Option.some.inj (ha.symm.trans ha')
  obtain rfl := Option.some.inj (hb.symm.trans hb')
  -- a buffer that holds both lines
  set n := (a ++ (x ++ b)).length + (a ++ (y ++ b)).length with hn
  obtain ⟨buf, hbuf, htext⟩ := hx n (.fill (n + 1) 0)
  obtain ⟨buf', hbuf', htext'⟩ := hy n (.fill (n + 1) 0)
  obtain rfl := Option.some.inj (hbuf.symm.trans hbuf')
  rw [List.take_of_length_le (by omega)] at htext htext'
  have heq := Option.some.inj (htext.symm.trans htext')
  exact List.append_cancel_right (List.append_cancel_left heq)

/-- **`dfmt_track` prints what denotes the duration** of tracks of less than an hour. -/
theorem track_denotes_iff (h0 : 0 ≤ t.duration) :
    (∃ x, TrackPrints c w t x ∧ readClock x = some t.duration) ↔ t.duration < 3600 := by
  have hread := readClock_minutesText c t.duration
  constructor
  · rintro ⟨x, hx, hdenotes⟩
    rw [hx.unique (trackPrints_minutes c w t), hread] at hdenotes
    have := Option.some.inj hdenotes
    omega
  · intro hd
    exact ⟨_, trackPrints_minutes c w t, by rw [hread, Int.emod_eq_of_lt h0 hd]⟩

/-! ## The queue and the elapsed time -/

section Clock

variable {σ : Type} {h : ∀ {β : Type}, Op β → σ → Option (β × σ)} {s s' : σ} {fmt msg txt : Cstr} {p : Client ℤ}

theorem clockLine_run (hmsg : ∀ t, sprintf txt [field t] = some (msg.bytes ++ ((Cstr.ofBytes t).bytes ++ [LF])))
    (hp : p.run h s = some (d, s')) : (clockLine c txt p).run h s =
      some (if d < 0 then (-1, none) else (0, some (msg.bytes ++ (clockText (c.gmtime d) ++ [LF]))), s') := by
  obtain ⟨m', hm', hs⟩ := strftime_text c (m := Block.fill 10 0) (timeText_clock (c.gmtime d)) (clockText_free _)
    (by rw [length_clockText]; decide)
  rw [clockLine, Prog.run_bind, hp, Option.bind_some, Prog.run_ite]
  split_ifs with hneg
  · rfl
  rw [Prog.run_bind, Prog.run_ofOption, hm', Option.map_some, Option.bind_some]
  dsimp only
  rw [Prog.run_bind, Prog.run_ofOption, hs, Option.bind_eq_bind, Option.bind_some, hmsg,
    Cstr.ofBytes_eq (clockText_free _)]
  rfl

theorem sprintf_duration (t : List UInt8) : sprintf (.lit "duration: %s\n") [field t] =
    some ((Cstr.lit "duration: ").bytes ++ ((Cstr.ofBytes t).bytes ++ [LF])) := by
  rw [← Spec.str_plain (.ofBytes t)]
  rfl

theorem sprintf_elapsed (t : List UInt8) : sprintf (.lit "elapsed: %s\n") [field t] =
    some ((Cstr.lit "elapsed: ").bytes ++ ((Cstr.ofBytes t).bytes ++ [LF])) := by
  rw [← Spec.str_plain (.ofBytes t)]
  rfl

theorem clockLine_fst (hmsg : ∀ t, sprintf txt [field t] = some (msg.bytes ++ ((Cstr.ofBytes t).bytes ++ [LF]))) :
    ((clockLine c txt p).run h s).map (fun r => (r.1.1, r.2)) = (showingNum p).run h s := by
  rw [showingNum, Prog.run_bind]
  rcases hp : p.run h s with _ | ⟨d, s'⟩
  · rw [clockLine, Prog.run_bind, hp]
    rfl
  · rw [clockLine_run hmsg hp, Option.bind_some, Prog.run_ite]
    split_ifs <;> rfl

theorem cQueuesumLine_fst (addr : ArgVal → ℕ) (argv : List ArgVal) :
    ((cQueuesumLine c).run h s).map (fun r => (r.1.1, r.2)) = (cQueuesum addr argv).run h s :=
  clockLine_fst sprintf_duration

theorem cElapsedLine_fst (addr : ArgVal → ℕ) (argv : List ArgVal) :
    ((cElapsedLine c).run h s).map (fun r => (r.1.1, r.2)) = (cElapsed addr argv).run h s :=
  clockLine_fst sprintf_elapsed

/-- **A time of the day denotes the duration** when that is less than a day. -/
theorem clockShown_iff (hmsg : ∀ t, sprintf txt [field t] = some (msg.bytes ++ ((Cstr.ofBytes t).bytes ++ [LF])))
    (h0 : 0 ≤ d) (hmax : d ≤ INT_MAX) : ClockShown (clockLine c txt (askInt fmt [])) fmt msg d ↔ d < 86400 := by
  have hread := readClock_clockText c d
  have hint : -2 ^ 31 ≤ d ∧ d < 2 ^ 31 := ⟨by omega, by simp only [INT_MAX] at hmax; omega⟩
  constructor
  · intro hshown
    obtain ⟨x, sent', hrun, hdenotes⟩ := hshown ⟨3, fun _ _ => some (grant [decimalInt d])⟩ [] _ rfl
      (grants_grant _ (List.cons_ne_nil _ _))
    rw [clockLine_run hmsg (askInt_grants rfl (grants_grant _ (List.cons_ne_nil _ _)) hint), if_neg (by omega)] at hrun
    obtain ⟨hline, -⟩ := Prod.mk.inj (Option.some.inj hrun)
    have hx := List.append_cancel_right (List.append_cancel_left (Option.some.inj (Prod.mk.inj hline).2))
    rw [← hx, hread] at hdenotes
    have := Option.some.inj hdenotes
    omega
  · intro hd sv sent rep hrep hgrants
    refine ⟨clockText (c.gmtime d), sent ++ [⟨fmt, []⟩], ?_, by rw [hread, Int.emod_eq_of_lt h0 hd]⟩
    rw [clockLine_run hmsg (askInt_grants hrep hgrants hint), if_neg (by omega)]

end Clock

/-! ## The GTK client -/

theorem sprintf_minutes (a b : ℤ) : sprintf (.lit "%d:%02d") [.int a, .int b] =
    some (decimalInt a ++ 58 :: Spec.num { zero := true, width := 2 } b) := by
  have h : sprintf (.lit "%d:%02d") [.int a, .int b] =
      some (Spec.num {} a ++ 58 :: (Spec.num { zero := true, width := 2 } b ++ [])) := rfl
  rw [h, Spec.num_plain, List.append_nil]

theorem spec_two {z : ℤ} (h0 : 0 ≤ z) (hz : z < 60) : Spec.num { zero := true, width := 2 } z = two z.toNat := by
  have hall : ∀ n : ℕ, n < 60 → Spec.num { zero := true, width := 2 } (n : ℤ) = two n := by decide +kernel
  obtain ⟨n, rfl⟩ := Int.eq_ofNat_of_zero_le h0
  exact hall n (by omega)

/-- **The player shows what denotes the duration.** -/
theorem timeFmt_denotes (h0 : 0 ≤ d) : ∃ x, timeFmt d = some x ∧ readClock x = some d := by
  refine ⟨_, sprintf_minutes _ _, ?_⟩
  rw [Int.tdiv_eq_ediv_of_nonneg h0, Int.tmod_eq_emod_of_nonneg h0, spec_two (by omega) (by omega), decimalInt,
    if_neg (by omega), readClock_two (allDigits_decimal _) (allDigits_two (by omega)), digitsVal_decimal,
    digitsVal_two (by omega)]
  exact congrArg some (by omega)

theorem cellfuncDuration_eq (c : Clib) (h0 : 0 ≤ d) (hmax : d ≤ INT_MAX) : cellfuncDuration c d = timeFmt d := by
  have htext := sprintf_minutes (d.tdiv 60) (d.tmod 60)
  have hdiv := Int.tdiv_eq_ediv_of_nonneg h0 (b := 60)
  have hmod := Int.tmod_eq_emod_of_nonneg h0 (b := 60)
  obtain ⟨m', hm', hs⟩ := snprintf_text c (m := Block.fill 100 0) htext (sprintf_free htext) (by decide)
  have hlen := length_decimalInt_le (z := d.tdiv 60) (by omega) (by simp only [INT_MAX] at hmax ⊢; omega)
  rw [cellfuncDuration, hm', Option.bind_eq_bind, Option.bind_some, timeFmt, htext]
  dsimp only
  rw [hs, List.take_of_length_le]
  rw [spec_two (by omega) (by omega), List.length_append, List.length_cons, two, List.length_cons, List.length_singleton]
  omega

/-! ## All of them -/

/-- What is printed for the duration of a track, for a queue of that length, and for that time of play. -/
structure Denoted (c : Clib) (w : Fonts) (t : DucTrack) : Prop where
  track : ∃ x, TrackPrints c w t x ∧ readClock x = some t.duration
  queuesum : ClockShown (cQueuesumLine c) (.lit "queuesum") (.lit "duration: ") t.duration
  elapsed : ClockShown (cElapsedLine c) (.lit "elapsed") (.lit "elapsed: ") t.duration
  cell : ∃ x, cellfuncDuration c t.duration = some x ∧ readClock x = some t.duration
  playbox : ∃ x, timeFmt t.duration = some x ∧ readClock x = some t.duration

/-- **Every printed text denotes the duration** just when it is less than an hour. -/
theorem durations_iff (c : Clib) (w : Fonts) (t : DucTrack) (h0 : 0 ≤ t.duration) (hmax : t.duration ≤ INT_MAX) :
    Denoted c w t ↔ t.duration < 3600 := by
  refine ⟨fun h => (track_denotes_iff h0).1 h.track, fun hd => ?_⟩
  have hday : t.duration < 86400 := by omega
  exact ⟨(track_denotes_iff h0).2 hd, (clockShown_iff sprintf_duration h0 hmax).2 hday,
    (clockShown_iff sprintf_elapsed h0 hmax).2 hday, by
      rw [cellfuncDuration_eq c h0 hmax]
      exact timeFmt_denotes h0, timeFmt_denotes h0⟩

/-- The theorem at a track of a minute. -/
theorem durations_iff_minute : Denoted .glibc {} plainTrack :=
  (durations_iff .glibc {} plainTrack (by decide) (by decide)).2 (by decide)

/-- **The hour is lost.** A track of an hour is printed like one of no length; the GTK client prints sixty minutes. -/
theorem not_denoted : ¬ Denoted .glibc {} { plainTrack with duration := 3600 } ∧
    TrackPrints .glibc {} { plainTrack with duration := 3600 } (Cstr.lit "00:00").bytes ∧
    timeFmt 3600 = some (Cstr.lit "60:00").bytes := by
  refine ⟨fun h => ?_, trackPrints_minutes _ _ { plainTrack with duration := 3600 }, by decide⟩
  have := (track_denotes_iff (by decide)).1 h.track
  exact absurd this (by decide)

end Dudlc
