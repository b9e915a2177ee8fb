import Dudlc.Calls

/-!
# Handlers that call the library

A handler may call the library itself, and these calls may call handlers again.

* `Script`, `Reactions`: what the handlers do with the session; `Reactions.handlers`: the handlers with
  a bounded number of calls under way at once.
* `Handlers.Within`: handlers that return more often; `rlast_within`, `open_within`, `poll_within`,
  `runCmd_within`: with them the calls return what they returned before.
* **`callStep_within`**: so does every call of a client.
-/

namespace Dudlc

open Lib

variable {ρ : Type} {ev ev' : Handlers}

/-! ## What handlers do -/

/-- A number of calls, each chosen by what the calls before it have left. -/
inductive Script (ρ : Type)
  | done
  | call (c : Call ρ) (next : World → Script ρ)

/-- The calls are made one after the other. -/
def Script.run (step : World → Call ρ → Option World) : Script ρ → World → Option World
  | .done, w => some w
  | .call c next, w => (step w c).bind fun v => (next v).run step v

/-- What the two handlers do with the session they are called for. -/
structure Reactions (ρ : Type) where
  connect : World → Script ρ
  disconnect : World → Script ρ

/-- Handlers that make the calls with `step`. -/
def Reactions.through (p : Reactions ρ) (step : World → Call ρ → Option World) : Handlers where
  connect w := (p.connect w).run step w
  disconnect w := (p.disconnect w).run step w

/-- Handlers that do not return. -/
def Handlers.stuck : Handlers := ⟨fun _ => none, fun _ => none⟩

/-- The handlers, with less than `n` of their calls under way at once. -/
def Reactions.handlers (p : Reactions ρ) : ℕ → Handlers
  | 0 => .stuck
  | n + 1 => p.through (callStep (p.handlers n))

/-! ## Handlers that return more often -/

/-- Where `ev` returns, `ev'` does the same. -/
structure Handlers.Within (ev ev' : Handlers) : Prop where
  connect : ∀ w, Below (ev.connect w) (ev'.connect w)
  disconnect : ∀ w, Below (ev.disconnect w) (ev'.disconnect w)

theorem Handlers.within_stuck (ev : Handlers) : Handlers.stuck.Within ev :=
  ⟨fun _ => below_none _, fun _ => below_none _⟩

section Within

variable (h : ev.Within ev')

include h

theorem close_within (w : World) : Below (ducClose ev w) (ducClose ev' w) := h.disconnect _

theorem rnextLoop_within (w : World) : Below (rnextLoop ev w) (rnextLoop ev' w) := by
  refine loop_below (fun u => below_bind (below_refl _) ?_) _ w
  rintro ⟨_ | i, con⟩
  · refine below_bind (below_refl _) fun p => ?_
    exact below_ite (below_bind (close_within h _) fun _ => below_refl _) (below_refl _)
  · refine below_bind (below_refl _) fun l => ?_
    exact below_ite (below_bind (close_within h _) fun _ => below_refl _) (below_refl _)

theorem rnext_within (w : World) : Below (ducRnext ev w) (ducRnext ev' w) := by
  refine below_ite (below_refl _) (below_bind (rnextLoop_within h w) ?_)
  rintro ⟨_ | ⟨i, l⟩, w₁⟩
  · exact below_refl _
  · refine below_ite (below_ite ?_ (below_refl _)) (below_refl _)
    exact below_bind (close_within h _) fun _ => below_refl _

theorem rlast_within (w : World) : Below (ducRlast ev w) (ducRlast ev' w) :=
  below_bind (loop_below (fun u => below_bind (rnext_within h u) fun _ => below_refl _) _ w)
    fun _ => below_refl _

theorem vsendSend_within (w : World) (cmd : List UInt8) :
    Below (vsendSend ev w cmd) (vsendSend ev' w cmd) := by
  unfold vsendSend
  split
  · exact below_refl _
  · exact below_bind (close_within h _) fun _ => below_refl _

variable {open_ open' : World → Option (ℤ × World)} (ho : ∀ w, Below (open_ w) (open' w))

include ho

theorem vsendBody_within (w : World) (fmt : Cstr) (ap : List Arg) :
    Below (vsendBody ev open_ w fmt ap) (vsendBody ev' open' w fmt ap) := by
  refine below_ite (below_refl _) (below_bind (ho w) fun p => below_ite (below_refl _) ?_)
  refine below_bind (below_refl _) ?_
  rintro (_ | cmd)
  · exact below_refl _
  · exact vsendSend_within h _ cmd

theorem cmdBody_within {α : Type} (fail : α) (done : World → Option α) (w : World) (fmt : Cstr)
    (ap : List Arg) :
    Below (cmdBody ev open_ fail done w fmt ap) (cmdBody ev' open' fail done w fmt ap) := by
  refine below_bind (vsendBody_within h ho w fmt ap) fun p => below_ite (below_refl _) ?_
  exact below_bind (rlast_within h _) fun q => below_refl _

theorem authBody_within (w : World) : Below (authBody ev open_ w) (authBody ev' open' w) := by
  unfold authBody
  rcases w.user, w.pass with ⟨_ | user, _ | pass⟩
  · exact below_refl _
  · exact below_refl _
  · exact below_refl _
  · refine below_bind (cmdBody_within h ho _ _ _ _ _) fun p => below_ite (below_refl _) ?_
    exact below_bind (cmdBody_within h ho _ _ _ _ _) fun q => below_refl _

theorem helloBody_within (w : World) : Below (helloBody ev open_ w) (helloBody ev' open' w) := by
  refine below_bind (rlast_within h _) fun p => below_ite (below_refl _) ?_
  refine below_ite (below_refl _) (below_bind (below_refl _) fun s => below_ite (below_refl _) ?_)
  refine below_ite (below_refl _) (below_ite ?_ (below_refl _))
  exact below_bind (authBody_within h ho _) fun q => below_refl _

end Within

theorem open_within (h : ev.Within ev') (w : World) : Below (ducOpen ev w) (ducOpen ev' w) := by
  refine below_ite (below_refl _) (below_ite (below_refl _) ?_)
  refine below_bind (helloBody_within h (fun _ => below_refl _) _) fun p => below_ite ?_ (below_refl _)
  exact below_bind (h.connect _) fun _ => below_refl _

theorem pollLoop_within (h : ev.Within ev') (w : World) : Below (pollLoop ev w) (pollLoop ev' w) := by
  refine loop_below (fun u => below_bind (below_refl _) ?_) _ w
  rintro ⟨_ | i, con⟩
  · exact below_refl _
  · refine below_bind (below_refl _) fun l => below_ite ?_ (below_refl _)
    exact below_bind (close_within h _) fun _ => below_refl _

theorem poll_within (h : ev.Within ev') (w : World) : Below (ducPoll ev w) (ducPoll ev' w) := by
  refine below_bind (open_within h w) fun p => below_ite (below_refl _) ?_
  refine below_bind (below_refl _) fun q => below_ite ?_ (pollLoop_within h _)
  exact below_bind (close_within h _) fun u => pollLoop_within h u

theorem itCollect_within (h : ev.Within ev') (conv : Converter ρ) (p : World × List (Option ρ)) :
    Below (itCollect ev conv p) (itCollect ev' conv p) := by
  refine below_bind (loop_below (fun q => ?_) _ p) ?_
  · unfold itBody
    split
    · exact below_refl _
    · refine below_bind (below_refl _) fun t => below_ite (below_refl _) ?_
      exact below_bind (rnext_within h _) fun _ => below_refl _
  · rintro ⟨_ | rows, w₁⟩
    · exact below_bind (rlast_within h _) fun _ => below_refl _
    · exact below_refl _

theorem itNewv_within (h : ev.Within ev') (conv : Converter ρ) (w : World) (fmt : Cstr) (ap : List Arg) :
    Below (ducItNewv ev conv w fmt ap) (ducItNewv ev' conv w fmt ap) := by
  refine below_bind (vsendBody_within h (open_within h) w fmt ap) fun p => below_ite (below_refl _) ?_
  refine below_bind (rnext_within h _) fun q => below_ite (below_refl _) ?_
  refine below_bind (below_refl _) fun c => below_ite ?_ (itCollect_within h conv _)
  exact below_bind (rlast_within h _) fun _ => below_refl _

theorem runCmd_within (h : ev.Within ev') (w : World) (c : Cmd ρ) :
    Below (runCmd ev w c) (runCmd ev' w c) := by
  obtain ⟨helper, fmt, args⟩ := c
  cases helper with
  | it f => exact below_map _ (itNewv_within h f w fmt args)
  | _ => exact below_map _ (cmdBody_within h (open_within h) _ _ w fmt args)

/-- **Handlers that return more often** change no call that has returned. -/
theorem callStep_within (h : ev.Within ev') (w : World) (c : Call ρ) :
    Below (callStep ev w c) (callStep ev' w c) := by
  cases c with
  | «open» => exact below_map _ (open_within h w)
  | close => exact close_within h w
  | poll => exact poll_within h w
  | setauth user pass => exact below_refl _
  | cmd c => exact below_map _ (runCmd_within h w c)

theorem Script.run_within {step step' : World → Call ρ → Option World}
    (h : ∀ w c, Below (step w c) (step' w c)) (s : Script ρ) (w : World) :
    Below (s.run step w) (s.run step' w) := by
  induction s generalizing w with
  | done => exact below_refl _
  | call c next ih => exact below_bind (h w c) fun v => ih v v

theorem Reactions.through_within (p : Reactions ρ) {step step' : World → Call ρ → Option World}
    (h : ∀ w c, Below (step w c) (step' w c)) : (p.through step).Within (p.through step') :=
  ⟨fun w => (p.connect w).run_within h w, fun w => (p.disconnect w).run_within h w⟩

end Dudlc
