import Dudlc.Lib.Printf
import Dudlc.Records

/-!
# The texts of records

`formatter.c`: tracks, queue entries and the history in a buffer of the caller.

* `Fonts`; `dfmtTrackid`, `minutes`, `isotime`, `isotimestamp`, `dfmtTrack`, `dfmtTrackhead`.
* `Formatted`; `dfmtQueue`, `dfmtQueuehead`, `dfmtHistory`, `dfmtHistoryhead`.
* `dfmtTrackid_eq`, `minutes_text`, `dfmtTrack_within`.
* **`formatted_iff`**: when the texts of the queue and the history stay in their buffer.
-/

namespace Dudlc

open Lib

/-! ## Tracks -/

/-- `dfmt_bf` and `dfmt_nf` -/
structure Fonts where
  dfmtBf : Option Cstr := none
  dfmtNf : Option Cstr := none

/-- `BF` -/
def Fonts.bf (w : Fonts) : Arg := .str (w.dfmtBf.getD (.lit ""))

/-- `NF` -/
def Fonts.nf (w : Fonts) : Arg := .str (w.dfmtNf.getD (.lit ""))

/-- A text of a record, as a string. -/
def field (t : List UInt8) : Arg := .str (.ofBytes t)

variable {n : ℕ} (c : Clib) (w : Fonts)

/-- `isotime`, at an index of the buffer. -/
def isotime (m : Block UInt8 n) (i max : ℕ) (time : ℤ) : Option (ℕ × Block UInt8 n) :=
  strftime c m i max (.lit "%H:%M:%S") (c.localtime time)

/-- `minutes` -/
def minutes (m : Block UInt8 n) (i max : ℕ) (time : ℤ) : Option (ℕ × Block UInt8 n) :=
  strftime c m i max (.lit "%M:%S") (c.gmtime time)

/-- `isotimestamp` -/
def isotimestamp (m : Block UInt8 n) (i max : ℕ) (time : ℤ) : Option (ℕ × Block UInt8 n) :=
  strftime c m i max (.lit "%Y-%m-%d %H:%M:%S") (c.localtime time)

/-- `dfmt_trackid` -/
def dfmtTrackid (albumid nr : ℤ) : Option Cstr := do
  let (_, buf) ← snprintf c (.fill 40 0) 0 40 (.lit "%d/%d") [.int albumid, .int nr]
  return .ofBytes (← cstr buf 0)

/-- `dfmt_trackhead(buf + i, len)` -/
def dfmtTrackhead (buf : Block UInt8 n) (i len : ℕ) : Option (Block UInt8 n) := do
  let (_, buf) ← snprintf c buf i len (.lit "%7.7s %-18.18s %-5.5s %-16.16s %-29s")
    [.str (.lit "alb/nr"), .str (.lit "album"), .str (.lit "dur"), .str (.lit "artist"), .str (.lit "title")]
  return buf

/-- `dfmt_track(buf + i, len, t)` -/
def dfmtTrack (buf : Block UInt8 n) (i len : ℕ) (t : DucTrack) : Option (Block UInt8 n) := do
  let (_, tim) ← minutes c (.fill 10 0 : Block UInt8 10) 0 10 t.duration
  let (_, buf) ← snprintf c buf i len (.lit "%7s %s%-18.18s%s %-5.5s %s%-16.16s%s %-29s")
    [.str (← dfmtTrackid c t.album.id t.albumnr), w.bf, field t.album.album, w.nf, field (← cstr tim 0),
      w.bf, field t.artist.artist, w.nf, field t.title]
  return buf

/-! ## The queue and the history -/

/-- A text in a buffer: whether there is a result, or `NULL`; the buffer; and the values of `l` where
`len - l` is computed. -/
structure Formatted (n : ℕ) where
  ok : Bool
  buf : Block UInt8 n
  offs : List ℕ

variable {len : ℕ}

/-- `dfmt_queuehead` -/
def dfmtQueuehead (buf : Block UInt8 len) : Option (Formatted len) := do
  let (r, buf) ← snprintf c buf 0 len (.lit "%4.4s %-10s %-8.8s ")
    [.str (.lit "id"), .str (.lit "user"), .str (.lit "queued")]
  let l := uint r
  if l > len then return ⟨false, buf, []⟩
  return ⟨true, ← dfmtTrackhead c buf l (uint (len - l)), [l]⟩

/-- `dfmt_queue` -/
def dfmtQueue (buf : Block UInt8 len) (q : DucQueue) : Option (Formatted len) := do
  let (r, buf) ← snprintf c buf 0 len (.lit "%4d %-10s ") [.int q.id, field q.user.name]
  let l := uint r
  if l > len then return ⟨false, buf, []⟩
  let (k, buf) ← isotime c buf l (uint (len - l)) q.queued
  let l' := uint (l + k)
  if uint (l' + 2) > len then return ⟨false, buf, [l]⟩
  let buf ← buf.set l' 32
  let l'' := uint (l' + 1)
  let buf ← buf.set l'' 0
  return ⟨true, ← dfmtTrack c w buf l'' (uint (len - l'')) q.track, [l, l'']⟩

/-- `dfmt_historyhead` -/
def dfmtHistoryhead (buf : Block UInt8 len) : Option (Formatted len) := do
  let (r, buf) ← snprintf c buf 0 len (.lit "%-19.19s %-10s ") [.str (.lit "played"), .str (.lit "user")]
  let l := uint r
  if l > len then return ⟨false, buf, []⟩
  return ⟨true, ← dfmtTrackhead c buf l (uint (len - l)), [l]⟩

/-- `dfmt_history` -/
def dfmtHistory (buf : Block UInt8 len) (q : DucHistory) : Option (Formatted len) := do
  let (k, buf) ← isotimestamp c buf 0 len q.played
  let l := uint k
  if uint (l + 2) > len then return ⟨false, buf, []⟩
  let (r, buf) ← snprintf c buf l (uint (len - l)) (.lit " %-10s ") [field q.user.name]
  let l' := uint (l + r)
  if l' > len then return ⟨false, buf, [l]⟩
  return ⟨true, ← dfmtTrack c w buf l' (uint (len - l')) q.track, [l, l']⟩

variable {c w}

/-! ## The pieces -/

theorem two_free {n : ℕ} (hn : n < 100) : 0 ∉ two n := by
  rw [two, List.mem_pair, not_or]
  exact ⟨(digit_ne_zero (by omega)).symm, (digit_ne_zero (by omega)).symm⟩

/-- The minutes and seconds of a time. -/
def minutesText (tm : Tm) : List UInt8 := two tm.min ++ 58 :: two tm.sec

/-- The hours, minutes and seconds of a time. -/
def clockText (tm : Tm) : List UInt8 := two tm.hour ++ 58 :: minutesText tm

theorem timeText_minutes (tm : Tm) : timeText (Cstr.lit "%M:%S").bytes tm = some (minutesText tm) := rfl

theorem timeText_clock (tm : Tm) : timeText (Cstr.lit "%H:%M:%S").bytes tm = some (clockText tm) := rfl

theorem minutesText_free (tm : Tm) : 0 ∉ minutesText tm := by
  simp only [minutesText, List.mem_append, List.mem_cons, not_or]
  exact ⟨two_free (by omega), by decide, two_free (by omega)⟩

theorem clockText_free (tm : Tm) : 0 ∉ clockText tm := by
  simp only [clockText, List.mem_append, List.mem_cons, not_or]
  exact ⟨two_free (by omega), by decide, minutesText_free tm⟩

theorem length_minutesText (tm : Tm) : (minutesText tm).length = 5 := rfl

theorem length_clockText (tm : Tm) : (clockText tm).length = 8 := rfl

theorem sprintf_trackid (a b : ℤ) : sprintf (.lit "%d/%d") [.int a, .int b] =
    some (decimalInt a ++ 47 :: decimalInt b) := by
  have h : sprintf (.lit "%d/%d") [.int a, .int b] = some (Spec.num {} a ++ 47 :: (Spec.num {} b ++ [])) := rfl
  rw [h, Spec.num_plain, Spec.num_plain, List.append_nil]

theorem trackid_free (a b : ℤ) : 0 ∉ decimalInt a ++ 47 :: decimalInt b := by
  simp only [List.mem_append, List.mem_cons, not_or]
  exact ⟨not_mem_decimalInt (by decide) (by decide) a, by decide, not_mem_decimalInt (by decide) (by decide) b⟩

theorem dfmtTrackid_some (a b : ℤ) : ∃ s, dfmtTrackid c a b = some s := by
  obtain ⟨m', hm', hs⟩ := snprintf_text c (m := Block.fill 40 0) (sprintf_trackid a b) (trackid_free a b)
    (by decide)
  refine ⟨.ofBytes ((decimalInt a ++ 47 :: decimalInt b).take (40 - 1)), ?_⟩
  rw [dfmtTrackid, hm', Option.bind_eq_bind, Option.bind_some]
  dsimp only
  rw [hs]
  rfl

theorem dfmtTrackid_eq {a b : ℤ} (ha : -2 ^ 31 ≤ a ∧ a ≤ INT_MAX) (hb : -2 ^ 31 ≤ b ∧ b ≤ INT_MAX) :
    dfmtTrackid c a b = some ⟨decimalInt a ++ 47 :: decimalInt b, trackid_free a b⟩ := by
  obtain ⟨m', hm', hs⟩ := snprintf_text c (m := Block.fill 40 0) (sprintf_trackid a b) (trackid_free a b)
    (by decide)
  have hla := length_decimalInt_le ha.1 ha.2
  have hlb := length_decimalInt_le hb.1 hb.2
  rw [List.take_of_length_le (by rw [List.length_append, List.length_cons]; omega)] at hs
  rw [dfmtTrackid, hm', Option.bind_eq_bind, Option.bind_some]
  dsimp only
  rw [hs]
  exact congrArg some (Cstr.ofBytes_eq (trackid_free a b))

theorem minutes_tim (time : ℤ) (m : Block UInt8 10) : ∃ m', minutes c m 0 10 time = some (5, m') ∧
    cstr m' 0 = some (minutesText (c.gmtime time)) :=
  strftime_text c (timeText_minutes _) (minutesText_free _) (by rw [length_minutesText]; decide)

theorem dfmtTrackhead_within (buf : Block UInt8 n) {i len : ℕ} (hi : i + len ≤ n) :
    ∃ m', dfmtTrackhead c buf i len = some m' ∧ (len ≠ 0 → 0 ∈ m'.cells) ∧ (len = 0 → m' = buf) := by
  obtain ⟨t, ht⟩ : ∃ t, sprintf (.lit "%7.7s %-18.18s %-5.5s %-16.16s %-29s") [.str (.lit "alb/nr"),
    .str (.lit "album"), .str (.lit "dur"), .str (.lit "artist"), .str (.lit "title")] = some t := ⟨_, rfl⟩
  obtain ⟨m', hm', hout⟩ := snprintf_within c (m := buf) ht hi
  exact ⟨m', by rw [dfmtTrackhead, hm']; rfl, hout⟩

theorem dfmtTrack_within (w : Fonts) (buf : Block UInt8 n) {i len : ℕ} (hi : i + len ≤ n) (t : DucTrack) :
    ∃ m', dfmtTrack c w buf i len t = some m' ∧ (len ≠ 0 → 0 ∈ m'.cells) ∧ (len = 0 → m' = buf) := by
  obtain ⟨tim, htim, hs⟩ := minutes_tim (c := c) t.duration (.fill 10 0)
  obtain ⟨id, hid⟩ := dfmtTrackid_some (c := c) t.album.id t.albumnr
  obtain ⟨s, ht⟩ : ∃ s, sprintf (.lit "%7s %s%-18.18s%s %-5.5s %s%-16.16s%s %-29s") [.str id, w.bf,
    field t.album.album, w.nf, field (minutesText (c.gmtime t.duration)), w.bf, field t.artist.artist, w.nf,
    field t.title] = some s := ⟨_, rfl⟩
  obtain ⟨m', hm', hout⟩ := snprintf_within c (m := buf) ht hi
  refine ⟨m', ?_, hout⟩
  rw [dfmtTrack, htim, Option.bind_eq_bind, Option.bind_some]
  dsimp only
  rw [hid, hs]
  change (snprintf c buf i len _ _).bind _ = _
  rw [hm']
  rfl

/-! ## The buffer -/

/-- All stores are in the buffer; where `len - l` is computed, `l` is at most `len`; and a result ends with a
NUL in the buffer. -/
def Safe (r : Option (Formatted len)) : Prop :=
  ∃ x, r = some x ∧ (∀ l ∈ x.offs, l ≤ len) ∧ (x.ok = true → 0 ∈ x.buf.cells)

/-- The text in front of the time in `dfmt_queue`. -/
def queueHead (q : DucQueue) : List UInt8 :=
  Spec.num { width := 4 } q.id ++ 32 :: (Spec.str { left := true, width := 10 } (.ofBytes q.user.name) ++ [32])

theorem sprintf_queue (q : DucQueue) :
    sprintf (.lit "%4d %-10s ") [.int q.id, field q.user.name] = some (queueHead q) := rfl

theorem safe_null {buf : Block UInt8 len} {offs : List ℕ} (h : ∀ l ∈ offs, l ≤ len) :
    Safe (some ⟨false, buf, offs⟩) := ⟨_, rfl, h, nofun⟩

theorem safe_tail {buf : Block UInt8 len} {l : ℕ} {offs : List ℕ} (hoffs : ∀ l ∈ offs, l ≤ len)
    {r : Option (Block UInt8 len)} (hnul : l = len → 0 ∈ buf.cells)
    (hr : ∃ m', r = some m' ∧ (len - l ≠ 0 → 0 ∈ m'.cells) ∧ (len - l = 0 → m' = buf)) (hl : l ≤ len) :
    Safe (r.bind fun m' => some ⟨true, m', offs⟩) := by
  obtain ⟨m', rfl, hpos, hzero⟩ := hr
  refine ⟨_, rfl, hoffs, fun _ => ?_⟩
  by_cases hend : len - l = 0
  · rw [hzero hend]
    exact hnul (by omega)
  · exact hpos hend

theorem uint_printed_pos (c : Clib) {t : List UInt8} (ht : t ≠ []) : 0 < uint (c.printed t) := by
  have hlen := List.length_pos_of_ne_nil ht
  have hmax : INT_MAX = 2 ^ 31 - 1 := rfl
  unfold uint
  rcases c.printed_spec t with ⟨heq, hle⟩ | ⟨hlo, hneg⟩
  · omega
  · omega

theorem safe_after {f : Cstr} {as : List Arg} {t : List UInt8} (hlen : len < 2 ^ 32) (buf : Block UInt8 len)
    (ht : sprintf f as = some t) (hne : t ≠ []) {tail : Block UInt8 len → ℕ → ℕ → Option (Block UInt8 len)}
    (htail : ∀ (m : Block UInt8 len) (i k : ℕ), i + k ≤ len →
      ∃ m', tail m i k = some m' ∧ (k ≠ 0 → 0 ∈ m'.cells) ∧ (k = 0 → m' = m)) :
    Safe ((snprintf c buf 0 len f as).bind fun p =>
      if uint p.1 > len then some ⟨false, p.2, []⟩
      else (tail p.2 (uint p.1) (uint (len - uint p.1))).bind fun m' => some ⟨true, m', [uint p.1]⟩) := by
  obtain ⟨m, hm, hpos, -⟩ := snprintf_within c (m := buf) (i := 0) ht (Nat.zero_add len).le
  have hprinted := uint_printed_pos c hne
  rw [hm, Option.bind_some]
  dsimp only
  split_ifs with hover
  · exact safe_null (List.forall_mem_nil _)
  have hl : uint (c.printed t) ≤ len := not_lt.1 hover
  rw [uint_sub hlen hl]
  exact safe_tail (List.forall_mem_singleton.2 hl) (fun _ => hpos (by omega)) (htail m _ _ (by omega)) hl

theorem dfmtQueuehead_safe (hlen : len < 2 ^ 32) (buf : Block UInt8 len) : Safe (dfmtQueuehead c buf) :=
  safe_after hlen buf (show sprintf (.lit "%4.4s %-10s %-8.8s ")
      [.str (.lit "id"), .str (.lit "user"), .str (.lit "queued")] =
    some (Cstr.lit "  id user       queued   ").bytes by decide +kernel) (by decide)
    (fun m _ _ => dfmtTrackhead_within m)

theorem dfmtHistoryhead_safe (hlen : len < 2 ^ 32) (buf : Block UInt8 len) : Safe (dfmtHistoryhead c buf) :=
  safe_after hlen buf (show sprintf (.lit "%-19.19s %-10s ") [.str (.lit "played"), .str (.lit "user")] =
    some (Cstr.lit "played              user       ").bytes by decide +kernel) (by decide)
    (fun m _ _ => dfmtTrackhead_within m)

theorem dfmtHistory_safe (w : Fonts) (hlen : len < 2 ^ 32) (buf : Block UInt8 len) (q : DucHistory) :
    Safe (dfmtHistory c w buf q) := by
  obtain ⟨s, hs⟩ : ∃ s, timeText (Cstr.lit "%Y-%m-%d %H:%M:%S").bytes (c.localtime q.played) = some s := ⟨_, rfl⟩
  obtain ⟨m, hm⟩ := strftime_within c (m := buf) (i := 0) hs (Nat.zero_add len).le
  obtain ⟨t, ht⟩ : ∃ t, sprintf (.lit " %-10s ") [field q.user.name] = some t := ⟨_, rfl⟩
  set k := if s.length < len then s.length else 0 with hk
  have hkle : k ≤ len := by
    rw [hk]
    split_ifs <;> omega
  rw [dfmtHistory, isotimestamp, hm, Option.bind_eq_bind, Option.bind_some]
  dsimp only
  rw [uint_natCast (hkle.trans_lt hlen)]
  split_ifs with hshort
  · exact safe_null (List.forall_mem_nil _)
  have hpos : 0 < len := by
    by_contra h0
    obtain rfl : len = 0 := by omega
    exact hshort (by rw [Nat.le_zero.1 hkle]; decide)
  have hklt : k < len := by
    rw [hk]
    split_ifs with hfits
    · exact hfits
    · exact hpos
  rw [uint_sub hlen hkle]
  obtain ⟨m', hm', hnul, -⟩ := snprintf_within c (m := m) ht (show k + (len - k) ≤ len by omega)
  rw [hm', Option.bind_eq_bind, Option.bind_some]
  dsimp only
  split_ifs with hover
  · exact safe_null (List.forall_mem_singleton.2 hkle)
  have hl : uint (k + c.printed t) ≤ len := not_lt.1 hover
  rw [uint_sub hlen hl]
  exact safe_tail (List.forall_mem_cons.2 ⟨hkle, List.forall_mem_singleton.2 hl⟩) (fun _ => hnul (by omega))
    (dfmtTrack_within w m' (by omega) q.track) hl

/-- `snprintf` reports an error for the text in front of the time, and `l + 2` or what follows it leaves the
range of an `unsigned int`. -/
def Wraps (c : Clib) (len : ℕ) (q : DucQueue) : Prop :=
  let r := c.printed (queueHead q)
  (r = -1 ∧ len = 2 ^ 32 - 1) ∨ (r = -2 ∧ 2 ^ 32 - 2 ≤ len) ∨ (r = -10 ∧ len = 2 ^ 32 - 1)

theorem set_two {m : Block UInt8 len} {l : ℕ} (hl : l + 2 ≤ len) :
    ∃ m' m'', m.set l 32 = some m' ∧ m'.set (l + 1) 0 = some m'' :=
  ⟨_, _, if_pos (by omega), if_pos (by omega)⟩

theorem wraps_iff (hlen : len < 2 ^ 32) {q : DucQueue} {l : ℕ}
    (hl : l = uint (c.printed (queueHead q)) + if 8 < len - uint (c.printed (queueHead q)) then 8 else 0) :
    Wraps c len q ↔ uint (c.printed (queueHead q)) ≤ len ∧ uint (l + 2) ≤ len ∧ len < l + 2 := by
  have hspec := c.printed_spec (queueHead q)
  have hmax : INT_MAX = 2 ^ 31 - 1 := rfl
  unfold Wraps
  dsimp only
  generalize c.printed (queueHead q) = r at *
  have hr : uint r = (r % 2 ^ 32).toNat := rfl
  have h2 : uint (l + 2) = ((l + 2 : ℤ) % 2 ^ 32).toNat := rfl
  split_ifs at hl <;> omega

theorem dfmtQueue_safe_iff (w : Fonts) (hlen : len < 2 ^ 32) (buf : Block UInt8 len) (q : DucQueue) :
    Safe (dfmtQueue c w buf q) ↔ ¬ Wraps c len q := by
  obtain ⟨m, hm, -⟩ := snprintf_within c (m := buf) (i := 0) (sprintf_queue q) (Nat.zero_add len).le
  rw [dfmtQueue, hm, Option.bind_eq_bind, Option.bind_some]
  dsimp only
  have hwraps := wraps_iff (c := c) (q := q) hlen rfl
  generalize c.printed (queueHead q) = r at *
  split_ifs with hover
  · exact iff_of_true (safe_null (List.forall_mem_nil _)) fun h => not_le.2 hover (hwraps.1 h).1
  have hr : uint r ≤ len := not_lt.1 hover
  obtain ⟨m₁, hm₁⟩ := strftime_within c (m := m) (timeText_clock (c.localtime q.queued))
    (show uint r + (len - uint r) ≤ len by omega)
  rw [length_clockText] at hm₁
  rw [uint_sub hlen hr, isotime, hm₁, Option.bind_eq_bind, Option.bind_some]
  dsimp only
  set l := uint r + if 8 < len - uint r then 8 else 0 with hl'
  have hl : l ≤ len := by
    rw [hl']
    split_ifs <;> omega
  have hcast : ((uint r : ℤ) + ((if 8 < len - uint r then 8 else 0 : ℕ) : ℤ)) = (l : ℤ) := by rw [hl']; push_cast; rfl
  rw [hcast, uint_natCast (hl.trans_lt hlen)]
  clear_value l
  split_ifs with hshort
  · exact iff_of_true (safe_null (List.forall_mem_singleton.2 hr)) fun h => not_le.2 hshort (hwraps.1 h).2.1
  by_cases hfits : l + 2 ≤ len
  · -- there is room for the blank and the NUL
    obtain ⟨m₂, m₃, hm₂, hm₃⟩ := set_two (m := m₁) hfits
    have h1 : uint (l + 1) = l + 1 := by rw [← Nat.cast_succ, uint_natCast (by omega)]
    rw [hm₂, Option.bind_eq_bind, Option.bind_some, h1, hm₃, Option.bind_some,
      uint_sub hlen (by omega)]
    refine iff_of_true (safe_tail ?_ (by omega) (dfmtTrack_within w m₃ (by omega) q.track) (by omega)) fun h =>
      not_lt.2 hfits (hwraps.1 h).2.2
    exact List.forall_mem_cons.2 ⟨hr, List.forall_mem_singleton.2 (by omega)⟩
  · -- `l + 2` has wrapped: one of the two bytes is behind the buffer
    refine iff_of_false ?_ (not_not.2 (hwraps.2 ⟨hr, not_lt.1 hshort, not_le.1 hfits⟩))
    rintro ⟨x, hx, -⟩
    obtain ⟨m₂, hm₂, hx⟩ := Option.bind_eq_some_iff.1 hx
    obtain ⟨m₃, hm₃, -⟩ := Option.bind_eq_some_iff.1 hx
    have hin : l < len := by
      by_contra hout
      rw [Block.set_none (by omega)] at hm₂
      cases hm₂
    have h1 : uint (l + 1) = l + 1 := by rw [← Nat.cast_succ, uint_natCast (by omega)]
    rw [h1, Block.set_none (by omega)] at hm₃
    cases hm₃

/-- **The texts of the queue and the history stay in their buffer**, and `l` does, for every length of the
buffer and every record, just when `l + 2` in `dfmt_queue` does not wrap: `snprintf` does not report the error
-1 or -10 for a buffer of UINT_MAX bytes, or the error -2 for one of UINT_MAX - 1 bytes or more. -/
theorem formatted_iff (c : Clib) (w : Fonts) (len : UInt32) (buf : Block UInt8 len.toNat) (q : DucQueue)
    (h : DucHistory) :
    (Safe (dfmtQueue c w buf q) ∧ Safe (dfmtQueuehead c buf) ∧ Safe (dfmtHistory c w buf h) ∧
      Safe (dfmtHistoryhead c buf)) ↔ ¬ Wraps c len.toNat q := by
  have hlen : len.toNat < 2 ^ 32 := len.toNat_lt
  rw [dfmtQueue_safe_iff w hlen]
  exact and_iff_left ⟨dfmtQueuehead_safe hlen buf, dfmtHistory_safe w hlen buf h, dfmtHistoryhead_safe hlen buf⟩

/-- A queue entry of a user whose name has `k` bytes. -/
def longUser (k : ℕ) : DucQueue :=
  ⟨1, 0, ⟨1, List.replicate k 97, 0⟩, ⟨1, ⟨1, [97], ⟨1, [97]⟩, 0⟩, 1, [97], ⟨1, [97]⟩, 60⟩⟩

theorem length_queueHead (q : DucQueue) (h : 0 ∉ q.user.name) : q.user.name.length ≤ (queueHead q).length := by
  rw [queueHead, Cstr.ofBytes_eq h]
  simp only [Spec.str, Spec.pad, if_true, List.length_append, List.length_cons]
  omega

/-- **A buffer of UINT_MAX bytes is left** where the user's name is longer than INT_MAX: `snprintf` reports an
error, and `l + 2` is 1. -/
theorem not_formatted : ¬ Safe (dfmtQueue .glibc {} (.fill (2 ^ 32 - 1) 0) (longUser (2 ^ 31))) := by
  have hfree : 0 ∉ (longUser (2 ^ 31)).user.name := fun h => absurd (List.eq_of_mem_replicate h) (by decide)
  have hlen := length_queueHead _ hfree
  have hname : (longUser (2 ^ 31)).user.name.length = 2 ^ 31 := List.length_replicate
  rw [dfmtQueue_safe_iff _ (by omega), not_not]
  exact Or.inl ⟨glibc_printed (by omega), rfl⟩

end Dudlc
