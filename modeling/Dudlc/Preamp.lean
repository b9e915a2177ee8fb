import Dudlc.Arguments
import Dudlc.Catalogue
import Dudlc.CommandLine

/-!
# The pre-amplification

`rgpreampset` sets it and `rgpreamp` shows it. The value passes an `int` on its way to the server, and another
one on its way back.

* `cRgpreampLine`: the handler with its message; `cRgpreampLine_fst`.
* `Keeps`: a server that stores the value.
* `Shown`: the value is sent, and shown.
* `setLine_run`, `cRgpreampLine_run`: what is sent, and what is shown.
* **`shown_iff`**: the values for which both happen.
-/

namespace Dudlc

open Lib

/-- `c_rgpreamp`: the return value and the message. -/
def cRgpreampLine : Client (ℤ × Option (List UInt8)) := do
  let x ← ducCmdRgpreamp
  if x < 0 then return (-1, none)
  else
    return (0, some (← Prog.ofOption (format (Cstr.lit "replaygain pre-amplification: %f dB\n").bytes [.dbl x])))

/-- The command line with a value. -/
def setLine (d : DecimalText) : Cstr :=
  ⟨(Cstr.lit "rgpreampset ").bytes ++ d.text, List.not_mem_append (Cstr.lit "rgpreampset ").free d.free⟩

/-- The text of the value in a request of `rgpreampset`. -/
def setText (q : Request) : Option (List UInt8) :=
  match q.args with
  | [.dbl x] => if q.fmt = .lit "rgpreampset %f" then some (fixed6 x) else none
  | _ => none

/-- The value in a request of `rgpreampset`, as the server reads it. -/
def setValue (q : Request) : Option ℚ := (setText q).map fun t => (strtod t).1

/-- The server grants `rgpreampset`, and answers `rgpreamp` with the last value it has been sent. -/
structure Keeps (sv : Server) : Prop where
  set : ∀ sent x, ∃ rep t, sv.answer sent ⟨.lit "rgpreampset %f", [.dbl x]⟩ = some rep ∧ Grants rep [t]
  get : ∀ sent v, (sent.filterMap setValue).getLast? = some v →
    ∃ rep, ∃ t : Cstr, sv.answer sent ⟨.lit "rgpreamp", []⟩ = some rep ∧ Grants rep [t.bytes] ∧ (strtod t.bytes).1 = v

/-- `rgpreampset d` sends the value of `d`, and `rgpreamp` shows it; both handlers return 0. -/
def Shown (sv : Server) (addr : ArgVal → ℕ) (sent : List Request) (d : DecimalText) : Prop :=
  ∃ x y sent', (cmdEnd addr (setLine d)).run sv.op sent =
      some (.ran 0, sent ++ [⟨.lit "rgpreampset %f", [.dbl x]⟩]) ∧ (strtod (fixed6 x)).1 = d.value ∧
    cRgpreampLine.run sv.op (sent ++ [⟨.lit "rgpreampset %f", [.dbl x]⟩]) =
      some ((0, some ((Cstr.lit "replaygain pre-amplification: ").bytes ++ (y ++ (Cstr.lit " dB\n").bytes))), sent') ∧
    (strtod y).1 = d.value

variable {sv : Server} {addr : ArgVal → ℕ} {sent : List Request} {d : DecimalText} {σ : Type}
  {h : ∀ {β : Type}, Op β → σ → Option (β × σ)} {s : σ}

theorem cRgpreampLine_fst (addr : ArgVal → ℕ) (argv : List ArgVal) :
    (cRgpreampLine.run h s).map (fun r => (r.1.1, r.2)) = (cRgpreamp addr argv).run h s := by
  rw [cRgpreampLine, cRgpreamp, Prog.run_bind, Prog.run_bind]
  rcases ducCmdRgpreamp.run h s with _ | ⟨x, s'⟩
  · rfl
  · rw [Option.bind_some, Option.bind_some, Prog.run_ite, Prog.run_ite]
    split_ifs <;> rfl

/-! ## Setting -/

theorem valDouble_text (d : DecimalText) :
    valDouble ⟨d.text, d.free⟩ = Prog.ofOption (dblInt d.value) >>= fun z => pure (z, d.text.length) := by
  rw [valDouble, d.strtod_text, dblInt]
  dsimp only
  split_ifs <;> rfl

theorem argParse_setLine (d : DecimalText) :
    argParse ⟨.lit "rgpreampset", none, cRgpreampset, argsDecibel⟩ ((setLine d).drop 11) =
      Prog.ofOption (dblInt d.value) >>= fun z => pure (some [.int z]) := by
  have hskip : skipSpace ((setLine d).drop 11) = ⟨d.text, d.free⟩ := by
    have hblank : (((setLine d).drop 11).bytes.takeWhile isspace).length = 1 := by
      change ((32 :: d.text).takeWhile isspace).length = 1
      rw [List.takeWhile_cons, d.spaces]
      rfl
    rw [skipSpace, hblank]
    rfl
  have hne : (⟨d.text, d.free⟩ : Cstr).bytes ≠ [] := List.ne_nil_of_length_pos d.length_pos
  have hparse : argDecibel.parse ⟨d.text, d.free⟩ =
      Prog.ofOption (dblInt d.value) >>= fun z => pure (.int z, d.text.length) := by
    change (valDouble _ >>= fun r => pure (ArgVal.int r.1, r.2)) = _
    rw [valDouble_text]
    cases dblInt d.value <;> rfl
  rcases hz : dblInt d.value with _ | z
  · rw [hz] at hparse
    rw [argParse, argsDecibel, argLoop_cons, hskip, if_neg hne, hparse]
    rfl
  · rw [hz] at hparse
    have htakes : Takes [argDecibel] ((setLine d).drop 11) [.int z] [] ((⟨d.text, d.free⟩ : Cstr).drop d.text.length) := by
      refine .arg (by rwa [hskip]) (by rw [hskip]; exact hparse) d.length_pos.ne' (Or.inl ?_) ?_
      · rw [hskip]
        simp [Cstr.byte]
      · rw [hskip]
        exact .none [] _
    have hrest : ((⟨d.text, d.free⟩ : Cstr).drop d.text.length).bytes = [] := List.drop_length
    rw [argParse, argsDecibel, htakes.argLoop 0 []]
    change (if _ ≠ [] then _ else _) = _
    rw [hrest]
    rfl

theorem cmdEnd_setLine (addr : ArgVal → ℕ) (d : DecimalText) : cmdEnd addr (setLine d) =
    Prog.ofOption (dblInt d.value) >>= fun z => ducCmdRgpreampset z >>= fun r => pure (.ran r) := by
  change argParse ⟨.lit "rgpreampset", none, cRgpreampset, argsDecibel⟩ ((setLine d).drop 11) >>= _ = _
  rw [argParse_setLine]
  cases dblInt d.value <;> rfl

theorem Keeps.set_run (hsv : Keeps sv) (sent : List Request) (x : ℚ) :
    (ducCmdRgpreampset x).run sv.op sent = some (0, sent ++ [⟨.lit "rgpreampset %f", [.dbl x]⟩]) := by
  obtain ⟨rep, t, hrep, hgrants⟩ := hsv.set sent x
  exact askSucc_grants hrep hgrants

theorem Keeps.setLine_run (hsv : Keeps sv) (addr : ArgVal → ℕ) (sent : List Request) (d : DecimalText) :
    (cmdEnd addr (setLine d)).run sv.op sent =
      (dblInt d.value).map fun z => (.ran 0, sent ++ [⟨.lit "rgpreampset %f", [.dbl z]⟩]) := by
  rw [cmdEnd_setLine, Prog.run_bind, Prog.run_ofOption]
  rcases dblInt d.value with _ | z
  · rfl
  · rw [Option.map_some, Option.bind_some, Prog.run_bind, hsv.set_run]
    rfl

/-! ## Showing -/

theorem format_preamp (x : ℚ) : format (Cstr.lit "replaygain pre-amplification: %f dB\n").bytes [.dbl x] =
    some ((Cstr.lit "replaygain pre-amplification: ").bytes ++ (fixed6 x ++ (Cstr.lit " dB\n").bytes)) := by
  have hsplit : (Cstr.lit "replaygain pre-amplification: %f dB\n").bytes =
      (Cstr.lit "replaygain pre-amplification: ").bytes ++ 37 :: 102 :: (Cstr.lit " dB\n").bytes := by decide
  rw [hsplit, format_append (by decide), format, format_self [] (by decide)]
  rfl

theorem Keeps.line_run (hsv : Keeps sv) (sent : List Request) {z : ℤ} (hlo : -2 ^ 31 ≤ z) (hhi : z ≤ INT_MAX) :
    ∃ sent', cRgpreampLine.run sv.op (sent ++ [⟨.lit "rgpreampset %f", [.dbl z]⟩]) =
      some (if z < 0 then (-1, none) else (0, some ((Cstr.lit "replaygain pre-amplification: ").bytes ++
        (fixed6 z ++ (Cstr.lit " dB\n").bytes))), sent') := by
  set q : Request := ⟨.lit "rgpreampset %f", [.dbl z]⟩ with hq
  have hlast : ((sent ++ [q]).filterMap setValue).getLast? = some (z : ℚ) := by
    have hset : setValue q = some (strtod (fixed6 z)).1 := by simp [hq, setValue, setText]
    rw [List.filterMap_append, List.filterMap_cons, hset, fixed6_int]
    simp
  obtain ⟨rep, t, hrep, hgrants, ht⟩ := hsv.get _ _ hlast
  refine ⟨sent ++ [q] ++ [⟨.lit "rgpreamp", []⟩], ?_⟩
  rw [cRgpreampLine, ducCmdRgpreamp, Prog.run_bind, Prog.run_bind, askDouble_grants hrep hgrants, Option.bind_some,
    Prog.run_ofOption, ht, dblInt_int hlo hhi, Option.map_some, Option.bind_some, Prog.run_ite]
  split_ifs
  · rfl
  · rw [Prog.run_bind, Prog.run_ofOption, format_preamp]
    rfl

theorem Keeps.shown_value (hsv : Keeps sv) (h : Shown sv addr sent d) :
    ∃ z, dblInt d.value = some z ∧ (z : ℚ) = d.value ∧ 0 ≤ z := by
  obtain ⟨x, y, sent', hset, hsent, hget, -⟩ := h
  rw [hsv.setLine_run] at hset
  obtain ⟨z, hz, heq⟩ := Option.map_eq_some_iff.1 hset
  obtain ⟨hlo, hhi⟩ := dblInt_some hz
  obtain rfl : (z : ℚ) = x := by
    have hlast := congrArg List.getLast? (Prod.mk.inj heq).2
    simpa using hlast
  rw [fixed6_int] at hsent
  obtain ⟨sent'', hline⟩ := hsv.line_run sent hlo hhi
  rw [hline] at hget
  refine ⟨z, hz, hsent, not_lt.1 fun hneg => ?_⟩
  rw [if_pos hneg] at hget
  cases hget

/-- **The value is sent and shown** just when it is a whole number that an `int` holds, and is not negative. -/
theorem shown_iff (hsv : Keeps sv) (addr : ArgVal → ℕ) (sent : List Request) (d : DecimalText) :
    Shown sv addr sent d ↔ ∃ n : ℕ, d.value = n ∧ n ≤ INT_MAX := by
  constructor
  · intro h
    obtain ⟨z, hz, hvalue, h0⟩ := hsv.shown_value h
    refine ⟨z.toNat, ?_, by rw [Int.toNat_of_nonneg h0]; exact (dblInt_some hz).2⟩
    rw [← hvalue, ← Int.cast_natCast, Int.toNat_of_nonneg h0]
  · rintro ⟨n, hvalue, hn⟩
    have hvalue : d.value = ((n : ℤ) : ℚ) := hvalue
    have hlo : -2 ^ 31 ≤ (n : ℤ) := by omega
    obtain ⟨sent', hline⟩ := hsv.line_run sent hlo hn
    rw [if_neg (by omega)] at hline
    refine ⟨(n : ℤ), _, sent', ?_, by rw [fixed6_int, hvalue], hline, by rw [fixed6_int, hvalue]⟩
    rw [hsv.setLine_run, hvalue, dblInt_int hlo hn]
    rfl

/-- A server that keeps the text of the last value. -/
def preampServer : Server where
  fd := 3
  answer sent q := some (grant [if q.fmt = .lit "rgpreamp" then ((sent.filterMap setText).getLast?).getD [] else []])

theorem setText_free {q : Request} {t : List UInt8} (ht : setText q = some t) : 0 ∉ t := by
  unfold setText at ht
  split at ht
  · split_ifs at ht
    rw [← Option.some.inj ht]
    exact not_mem_fixed6 (by decide) (by decide) (by decide) _
  · cases ht

theorem preampServer_keeps : Keeps preampServer where
  set sent x := ⟨_, [], rfl, grants_grant [[]] (List.cons_ne_nil _ _)⟩
  get sent v hlast := by
    have hmap : sent.filterMap setValue = (sent.filterMap setText).map fun t => (strtod t).1 :=
      (List.map_filterMap ..).symm
    rw [hmap, List.getLast?_map] at hlast
    obtain ⟨t, ht, hv⟩ := Option.map_eq_some_iff.1 hlast
    obtain ⟨q, -, hq⟩ := List.mem_filterMap.1 (List.mem_of_getLast? ht)
    refine ⟨_, ⟨t, setText_free hq⟩, rfl, ?_, hv⟩
    rw [if_pos rfl, ht]
    exact grants_grant [t] (List.cons_ne_nil _ _)

/-- The number 6. -/
def sixDb : DecimalText :=
  ⟨.none, [54], none, List.forall_mem_singleton.2 rfl, List.forall_mem_nil _, Or.inl (List.cons_ne_nil _ _)⟩

/-- The theorem at a whole number. -/
theorem shown_iff_six : Shown preampServer (fun _ => 0) [] sixDb :=
  (shown_iff preampServer_keeps _ [] sixDb).2 ⟨6, by decide +kernel, by decide⟩

/-- The number 0.5. -/
def halfDb : DecimalText :=
  ⟨.none, [48], some [53], List.forall_mem_singleton.2 rfl, List.forall_mem_singleton.2 rfl, Or.inl (List.cons_ne_nil _ _)⟩

/-- The number -3. -/
def minusDb : DecimalText :=
  ⟨.minus, [51], none, List.forall_mem_singleton.2 rfl, List.forall_mem_nil _, Or.inl (List.cons_ne_nil _ _)⟩

/-- **Fractions and negative values are lost.** A half is sent as 0, and -3 is not shown. -/
theorem preamp_lost : ¬ Shown preampServer (fun _ => 0) [] halfDb ∧ ¬ Shown preampServer (fun _ => 0) [] minusDb := by
  constructor
  · intro h
    obtain ⟨z, hz, hvalue, -⟩ := preampServer_keeps.shown_value h
    obtain rfl : 0 = z := Option.some.inj ((show dblInt halfDb.value = some 0 by decide +kernel).symm.trans hz)
    exact absurd hvalue (by decide +kernel)
  · intro h
    obtain ⟨z, hz, -, h0⟩ := preampServer_keeps.shown_value h
    obtain rfl : -3 = z := Option.some.inj ((show dblInt minusDb.value = some (-3) by decide +kernel).symm.trans hz)
    exact absurd h0 (by decide)

end Dudlc
