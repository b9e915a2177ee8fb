import Dudlc.Closed

/-!
# Where a disconnect handler is called

* `Handlers.hold`: handlers that do nothing when the connection is closed.
* `Relays`: with any other handler a computation is the same, or closes the connection once and returns
  what the handler makes of it.
* `relays_close`, `Relays.bind`, `loop_relays`: closing, going on, loops.
* `rlast_relays`, `itNewv_relays`, `hello_relays`, `pollLoop_relays`: reading and sending relay.
* **`runCmd_relays`**: so do the commands.
-/

namespace Dudlc

open Lib

variable {ρ α : Type} {ev : Handlers} {w u v : World} {fd : ℤ} {fmt : Cstr} {ap : List Arg}

/-- The same handlers, except that nothing is done when the connection is closed. -/
def Handlers.hold (ev : Handlers) : Handlers := ⟨ev.connect, some⟩

theorem Handlers.hold_quiet (ev : Handlers) : ev.hold.Quiet := fun _ => rfl

/-- The result `y` is that of the computation with handlers that hold, `x`, on the descriptor `fd`; or
`x` closes the connection, and `y` makes of what the handler leaves what `x` makes of the closed session,
in a `bad` way. -/
def Relays {β : Type} (ev : Handlers) (fd : ℤ) (state : β → World) (bad : (World → β) → Prop)
    (x y : Option β) : Prop :=
  (y = x ∧ ∀ b, x = some b → (state b).con.fd = fd ∧ (state b).con.Tidy) ∨
    ∃ (k : World → β) (u : World),
      bad k ∧ u.con.Tidy ∧ x = some (k u.closed) ∧ y = (ev.disconnect u.closed).map k

section Relays

variable {β γ σ : Type} {state : β → World} {state' : γ → World} {bad : (World → β) → Prop}
  {bad' : (World → γ) → Prop} {x y : Option β}

theorem relays_none : Relays ev fd state bad none none := Or.inl ⟨rfl, fun _ h => by cases h⟩

theorem relays_some {b : β} (hfd : (state b).con.fd = fd) (ht : (state b).con.Tidy) :
    Relays ev fd state bad (some b) (some b) :=
  Or.inl ⟨rfl, fun _ h => Option.some.inj h ▸ ⟨hfd, ht⟩⟩

theorem relays_ite {p : Prop} [Decidable p] {x' y' : Option β} (h : p → Relays ev fd state bad x y)
    (h' : ¬ p → Relays ev fd state bad x' y') :
    Relays ev fd state bad (if p then x else x') (if p then y else y') := by
  split_ifs with hp
  · exact h hp
  · exact h' hp

theorem Relays.held {b : β} (h : Relays ev fd state bad x y) (hk : ∀ k, bad k → ∀ v, state (k v) = v)
    (hx : x = some b) (hopen : (state b).con.fd ≠ -1) : y = some b := by
  rcases h with ⟨rfl, -⟩ | ⟨k, u, hbad, htu, hx', -⟩
  · exact hx
  · obtain rfl := Option.some.inj (hx'.symm.trans hx)
    rw [hk k hbad] at hopen
    exact absurd (disconnect_fd htu) hopen

theorem Relays.alike {ev' : Handlers} {y' : Option β} {k : World → β}
    (h : Relays ev fd state (fun l => l = k) x y) (h' : Relays ev' fd state (fun l => l = k) x y')
    (hk : ∀ v, state (k v) = v) (hopen : fd ≠ -1)
    (hev : ∀ u : World, u.con.Tidy → x = some (k u.closed) → ev.disconnect u.closed = ev'.disconnect u.closed) :
    y = y' := by
  have hclosed : ∀ u : World, u.con.Tidy → x = some (k u.closed) →
      ¬ ∀ b, x = some b → (state b).con.fd = fd ∧ (state b).con.Tidy := by
    intro u htu hx hall
    have hfd := (hall _ hx).1
    rw [hk] at hfd
    exact hopen (hfd.symm.trans (disconnect_fd htu))
  rcases h with ⟨hy, hall⟩ | ⟨_, u, rfl, htu, hx, hy⟩ <;>
    rcases h' with ⟨hy', hall'⟩ | ⟨_, u', rfl, htu', hx', hy'⟩
  · exact hy.trans hy'.symm
  · exact absurd hall (hclosed u' htu' hx')
  · exact absurd hall' (hclosed u htu hx)
  · have hu : u.closed = u'.closed := by
      rw [← hk u.closed, ← hk u'.closed, Option.some.inj (hx.symm.trans hx')]
    rw [hy, hy', hev u htu hx, hu]

theorem relays_close (k : World → β) (hk : bad k) (ht : w.con.Tidy) :
    Relays ev fd state bad ((ducClose ev.hold w).bind fun v => some (k v))
      ((ducClose ev w).bind fun v => some (k v)) := by
  refine Or.inr ⟨k, w, hk, ht, rfl, ?_⟩
  rw [Option.map_eq_bind]
  rfl

theorem Relays.bind {f g : β → Option γ} (h : Relays ev fd state bad x y)
    (hgood : ∀ b, (state b).con.fd = fd → (state b).con.Tidy → Relays ev fd state' bad' (f b) (g b))
    (hbad : ∀ k, bad k → ∃ k', bad' k' ∧ ∀ v, f (k v) = some (k' v) ∧ g (k v) = some (k' v)) :
    Relays ev fd state' bad' (x.bind f) (y.bind g) := by
  rcases h with ⟨rfl, hx⟩ | ⟨k, u, hk, htu, rfl, rfl⟩
  · rcases y with _ | b
    · exact relays_none
    · exact hgood b (hx b rfl).1 (hx b rfl).2
  · obtain ⟨k', hk', hfg⟩ := hbad k hk
    refine Or.inr ⟨k', u, hk', htu, (hfg _).1, ?_⟩
    rw [Option.bind_map, Option.map_eq_bind]
    exact congrArg _ (funext fun v => (hfg v).2)

/-- **Loops** whose rounds relay. -/
theorem loop_relays {body body' : σ → Option (σ ⊕ β)} (I : σ → Prop)
    (hbody : ∀ s, I s →
      (body' s = body s ∧ (∀ s', body s = some (.inl s') → I s') ∧
        ∀ b, body s = some (.inr b) → (state b).con.fd = fd ∧ (state b).con.Tidy) ∨
      ∃ (k : World → β) (u : World), bad k ∧ u.con.Tidy ∧ body s = some (.inr (k u.closed)) ∧
        body' s = (ev.disconnect u.closed).map fun v => .inr (k v)) (n : ℕ) {s : σ} (hs : I s) :
    Relays ev fd state bad (loop body n s) (loop body' n s) := by
  induction n generalizing s with
  | zero => exact relays_none
  | succ n ih =>
    rcases hbody s hs with ⟨heq, hmore, hdone⟩ | ⟨k, u, hk, htu, hx, hy⟩
    · rcases hb : body s with _ | s' | b
      · rw [loop_succ_none hb, loop_succ_none (heq.trans hb)]
        exact relays_none
      · rw [loop_succ_inl hb, loop_succ_inl (heq.trans hb)]
        exact ih (hmore s' hb)
      · rw [loop_succ_inr hb, loop_succ_inr (heq.trans hb)]
        exact relays_some (hdone b hb).1 (hdone b hb).2
    · rw [loop_succ_inr hx]
      refine Or.inr ⟨k, u, hk, htu, rfl, ?_⟩
      rcases hd : ev.disconnect u.closed with _ | v <;> rw [hd] at hy
      · exact loop_succ_none hy
      · exact loop_succ_inr hy

end Relays

/-! ## Reading -/

theorem rnextLoop_relays (ht : w.con.Tidy) :
    Relays ev w.con.fd Prod.snd (fun k => k = Prod.mk none) (rnextLoop ev.hold w) (rnextLoop ev w) := by
  refine loop_relays (fun u : World => u.con.fd = w.con.fd ∧ u.con.Tidy) ?_ _ ⟨rfl, ht⟩
  rintro u ⟨hfd, htu⟩
  simp only [rnextBody, Option.bind_eq_bind, Option.pure_def]
  have hclose : ∀ u' : World, u'.con.Tidy →
      ∃ (k : World → Option (ℕ × List UInt8) × World) (v : World), k = Prod.mk none ∧ v.con.Tidy ∧
        ((ducClose ev.hold u').bind fun w => some (.inr (none, w))) = some (Sum.inr (α := World) (k v.closed)) ∧
        ((ducClose ev u').bind fun w => some (Sum.inr (α := World) (none, w))) =
          (ev.disconnect v.closed).map fun w => .inr (k w) := by
    intro u' htu'
    refine ⟨_, u', rfl, htu', rfl, ?_⟩
    rw [Option.map_eq_bind]
    rfl
  rcases hg : ducSockGetline u.con with _ | ⟨_ | i, con⟩
  · exact Or.inl ⟨rfl, fun _ h => (by cases h), fun _ h => by cases h⟩
  · have hfd' := (getline_fd hg).1.trans hfd
    have ht' := getline_tidy hg htu
    simp only [Option.bind_some]
    rcases hr : World.recv { u with con := con } with _ | ⟨r, u'⟩
    · exact Or.inl ⟨rfl, fun _ h => (by cases h), fun _ h => by cases h⟩
    obtain ⟨hor, -, -, htidy, -⟩ := recv_cases hr
    by_cases h0 : r = 0
    · simp only [Option.bind_some, h0, ne_eq, not_true_eq_false, if_false]
      refine Or.inl ⟨trivial, fun s' h => ?_, fun _ h => by cases h⟩
      obtain rfl := Sum.inl.inj (Option.some.inj h)
      rcases hor with ⟨-, hor⟩ | h1
      · exact ⟨hor.trans hfd', htidy ht'⟩
      · omega
    · simp only [Option.bind_some, h0, ne_eq, not_false_eq_true, if_true]
      exact Or.inr (hclose u' (htidy ht'))
  · have hfd' := (getline_fd hg).1.trans hfd
    have ht' := getline_tidy hg htu
    simp only [Option.bind_some]
    rcases hl : cstr con.buf i with _ | l
    · exact Or.inl ⟨rfl, fun _ h => (by cases h), fun _ h => by cases h⟩
    simp only [Option.bind_some]
    split_ifs
    · exact Or.inr (hclose { u with con := con } ht')
    · refine Or.inl ⟨rfl, fun _ h => (by cases h), fun b h => ?_⟩
      obtain rfl := Sum.inr.inj (Option.some.inj h)
      exact ⟨hfd', ht'⟩
    · refine Or.inl ⟨rfl, fun s' h => ?_, fun _ h => by cases h⟩
      obtain rfl := Sum.inl.inj (Option.some.inj h)
      exact ⟨hfd', ht'⟩

theorem rnext_relays (ev : Handlers) (ht : w.con.Tidy) :
    Relays ev w.con.fd Prod.snd (fun k => k = Prod.mk (-1)) (ducRnext ev.hold w) (ducRnext ev w) := by
  unfold ducRnext
  split_ifs with hin
  · exact relays_some rfl ht
  simp only [Option.bind_eq_bind, Option.pure_def]
  refine (rnextLoop_relays ht).bind ?_ ?_
  · rintro ⟨_ | ⟨i, l⟩, v⟩ hfd htv
    · exact relays_some hfd htv
    · simp only
      split_ifs
      · exact relays_close (w := { v with line := some (i + 4) }) (Prod.mk (-1)) rfl htv
      all_goals exact relays_some hfd htv
  · rintro _ rfl
    exact ⟨_, rfl, fun _ => ⟨rfl, rfl⟩⟩

theorem rlast_relays (ht : w.con.Tidy) :
    Relays ev w.con.fd Prod.snd (fun k => k = Prod.mk (-1)) (ducRlast ev.hold w) (ducRlast ev w) := by
  have hloop : Relays ev w.con.fd Prod.snd (fun k : World → ℤ × World => k = Prod.mk (-1))
      (loop (rlastBody ev.hold) (pending w + 1) w) (loop (rlastBody ev) (pending w + 1) w) := by
    refine loop_relays (fun u : World => u.con.fd = w.con.fd ∧ u.con.Tidy) ?_ _ ⟨rfl, ht⟩
    rintro u ⟨hfd, htu⟩
    rcases rnext_relays ev htu with ⟨heq, hx⟩ | ⟨_, v, rfl, htv, hx, hy⟩
    · simp only [rlastBody, heq, Option.bind_eq_bind, Option.pure_def]
      refine Or.inl ⟨trivial, fun s' h => ?_, fun b h => ?_⟩
      all_goals
        obtain ⟨⟨r, u'⟩, hr, h⟩ := Option.bind_eq_some_iff.1 h
        obtain ⟨hfd', ht'⟩ := hx _ hr
        split_ifs at h <;> cases h
        exact ⟨hfd'.trans hfd, ht'⟩
    · refine Or.inr ⟨_, v, rfl, htv, ?_, ?_⟩
      · simp [rlastBody, hx]
      · rw [rlastBody, hy]
        cases ev.disconnect v.closed <;> rfl
  unfold ducRlast
  simp only [Option.bind_eq_bind, Option.pure_def]
  refine hloop.bind ?_ ?_
  · rintro ⟨r, v⟩ hfd htv
    dsimp only
    split_ifs <;> exact relays_some hfd htv
  · rintro _ rfl
    exact ⟨_, rfl, fun _ => ⟨rfl, rfl⟩⟩

/-! ## Commands -/

theorem vsendSend_relays {cmd : List UInt8} (ht : w.con.Tidy) :
    Relays ev w.con.fd Prod.snd (fun k => k = Prod.mk (-1)) (vsendSend ev.hold w cmd)
      (vsendSend ev w cmd) := by
  unfold vsendSend
  rcases hs : w.unreplied.send cmd with ⟨q, u⟩
  obtain ⟨_, _, rfl⟩ := send_eq hs
  by_cases hq : q = 0
  · subst hq
    exact relays_some rfl ht
  · simp only [Option.bind_eq_bind, Option.pure_def]
    exact relays_close _ rfl (by exact ht)

section Open

variable {f g : World → Option (ℤ × World)}

theorem vsend_relays_due (hin : w.inreply = true) (ht : w.con.Tidy) :
    Relays ev w.con.fd Prod.snd (fun k => k = Prod.mk (-1)) (vsendBody ev.hold f w fmt ap)
      (vsendBody ev g w fmt ap) := by
  rw [vsendBody, vsendBody, if_pos hin, if_pos hin]
  exact relays_some rfl ht

theorem vsend_relays_opened (hin : w.inreply = false) (hf : f w = some (0, u)) (hg : g w = some (0, u))
    (ht : u.con.Tidy) : Relays ev u.con.fd Prod.snd (fun k => k = Prod.mk (-1))
      (vsendBody ev.hold f w fmt ap) (vsendBody ev g w fmt ap) := by
  simp only [vsendBody, hin, hf, hg, Bool.false_eq_true, if_false, Option.bind_eq_bind, Option.bind_some,
    ne_eq, not_true_eq_false, Option.pure_def]
  rcases vsendBuf fmt ap with _ | _ | cmd
  · exact relays_none
  · exact relays_some rfl ht
  · exact vsendSend_relays ht

theorem vsend_relays (hf : f w = some (0, w)) (hg : g w = some (0, w)) (ht : w.con.Tidy) :
    Relays ev w.con.fd Prod.snd (fun k => k = Prod.mk (-1)) (vsendBody ev.hold f w fmt ap)
      (vsendBody ev g w fmt ap) := by
  cases hin : w.inreply with
  | true => exact vsend_relays_due hin ht
  | false => exact vsend_relays_opened hin hf hg ht

theorem cmdBody_relays {α : Type} {fail : α} {done : World → Option α}
    (hv : Relays ev fd Prod.snd (fun k => k = Prod.mk (-1)) (vsendBody ev.hold f w fmt ap)
      (vsendBody ev g w fmt ap)) :
    Relays ev fd Prod.snd (fun k => k = Prod.mk fail) (cmdBody ev.hold f fail done w fmt ap)
      (cmdBody ev g fail done w fmt ap) := by
  unfold cmdBody
  simp only [Option.bind_eq_bind, Option.pure_def]
  refine hv.bind ?_ ?_
  · rintro ⟨r, u⟩ hfd htu
    dsimp only at hfd ⊢
    split_ifs
    · exact relays_some hfd htu
    rw [← hfd]
    refine (rlast_relays htu).bind ?_ ?_
    · rintro ⟨q, v⟩ hfd' htv
      dsimp only at hfd' ⊢
      split_ifs
      · exact relays_some hfd' htv
      · rcases done v with _ | a
        · exact relays_none
        · exact relays_some hfd' htv
    · rintro _ rfl
      exact ⟨_, rfl, fun _ => ⟨rfl, rfl⟩⟩
  · rintro _ rfl
    exact ⟨_, rfl, fun _ => ⟨rfl, rfl⟩⟩

end Open

/-- A result beside which the session is as the handler leaves it. -/
def Beside (k : World → α × World) : Prop := ∃ a, k = Prod.mk a

theorem Beside.snd {k : World → α × World} (h : Beside k) (v : World) : (k v).2 = v := by
  obtain ⟨a, rfl⟩ := h
  rfl

theorem collect_relays {conv : Converter ρ} {rows : List (Option ρ)} (ht : w.con.Tidy) :
    Relays ev w.con.fd Prod.snd Beside (itCollect ev.hold conv (w, rows)) (itCollect ev conv (w, rows)) := by
  have hloop : Relays ev w.con.fd Prod.snd
      (fun k : World → Option (List (Option ρ)) × World => ∃ us, k = Prod.mk (some us))
      (loop (itBody ev.hold conv) (pending w + 1) (w, rows))
      (loop (itBody ev conv) (pending w + 1) (w, rows)) := by
    refine loop_relays (fun p : World × List (Option ρ) => p.1.con.fd = w.con.fd ∧ p.1.con.Tidy) ?_ _
      ⟨rfl, ht⟩
    rintro ⟨u, us⟩ ⟨hfd, htu⟩
    have hdone : ∀ b : Option (List (Option ρ)) × World, b.2 = u → b.2.con.fd = w.con.fd ∧ b.2.con.Tidy := by
      rintro b rfl
      exact ⟨hfd, htu⟩
    unfold itBody
    rcases hl : u.line with _ | i
    · exact Or.inl ⟨rfl, fun _ h => (by cases h), fun b h =>
        hdone b (Sum.inr.inj (Option.some.inj h) ▸ rfl)⟩
    simp only [Option.bind_eq_bind, Option.pure_def]
    rcases hline : u.rline with _ | t
    · exact Or.inl ⟨rfl, fun _ h => (by cases h), fun _ h => by cases h⟩
    simp only [Option.bind_some]
    split_ifs
    · exact Or.inl ⟨rfl, fun _ h => (by cases h), fun b h =>
        hdone b (Sum.inr.inj (Option.some.inj h) ▸ rfl)⟩
    rcases rnext_relays ev htu with ⟨heq, hx⟩ | ⟨_, v, rfl, htv, hx, hy⟩
    · rw [heq]
      refine Or.inl ⟨rfl, fun s' h => ?_, fun b h => ?_⟩
      all_goals
        obtain ⟨⟨r, u'⟩, hr, h⟩ := Option.bind_eq_some_iff.1 h
        obtain ⟨hfd', ht'⟩ := hx _ hr
        split_ifs at h <;> cases h
        exact ⟨hfd'.trans hfd, ht'⟩
    · refine Or.inr ⟨_, v, ⟨us ++ [(conv t).1], rfl⟩, htv, ?_, ?_⟩
      · simp [hx]
      · rw [hy]
        cases ev.disconnect v.closed <;> rfl
  unfold itCollect
  simp only [Option.bind_eq_bind, Option.pure_def]
  refine hloop.bind ?_ ?_
  · rintro ⟨_ | us, v⟩ hfd htv
    · dsimp only at hfd ⊢
      rw [← hfd]
      refine (rlast_relays htv).bind ?_ ?_
      · rintro ⟨q, u⟩ hfd' htu
        exact relays_some hfd' htu
      · rintro _ rfl
        exact ⟨_, ⟨none, rfl⟩, fun _ => ⟨rfl, rfl⟩⟩
    · exact relays_some hfd htv
  · rintro _ ⟨us, rfl⟩
    exact ⟨_, ⟨some ⟨us⟩, rfl⟩, fun _ => ⟨rfl, rfl⟩⟩

theorem itNewv_relays {conv : Converter ρ}
    (hv : Relays ev fd Prod.snd (fun k => k = Prod.mk (-1)) (vsendBody ev.hold (ducOpen ev.hold) w fmt ap)
      (vsendBody ev (ducOpen ev) w fmt ap)) :
    Relays ev fd Prod.snd Beside (ducItNewv ev.hold conv w fmt ap) (ducItNewv ev conv w fmt ap) := by
  unfold ducItNewv ducVsend
  simp only [Option.bind_eq_bind, Option.pure_def]
  refine hv.bind ?_ ?_
  · rintro ⟨r, u⟩ hfd htu
    dsimp only at hfd ⊢
    split_ifs
    · exact relays_some hfd htu
    rw [← hfd]
    refine (rnext_relays ev htu).bind ?_ ?_
    · rintro ⟨q, v⟩ hfd' htv
      dsimp only at hfd' ⊢
      split_ifs
      · exact relays_some hfd' htv
      rcases v.rcode with _ | c
      · exact relays_none
      simp only [Option.bind_some]
      rw [← hfd']
      split_ifs
      · refine (rlast_relays htv).bind ?_ ?_
        · rintro ⟨p, u'⟩ hfd₂ htu'
          exact relays_some hfd₂ htu'
        · rintro _ rfl
          exact ⟨_, ⟨none, rfl⟩, fun _ => ⟨rfl, rfl⟩⟩
      · exact collect_relays htv
    · rintro _ rfl
      exact ⟨_, ⟨none, rfl⟩, fun _ => ⟨rfl, rfl⟩⟩
  · rintro _ rfl
    exact ⟨_, ⟨none, rfl⟩, fun _ => ⟨rfl, rfl⟩⟩

/-- **Every command helper** relays when its `_duc_vsend` does. -/
theorem runCmd_relays (c : Cmd ρ)
    (hv : Relays ev fd Prod.snd (fun k => k = Prod.mk (-1))
      (vsendBody ev.hold (ducOpen ev.hold) w c.fmt c.args) (vsendBody ev (ducOpen ev) w c.fmt c.args)) :
    Relays ev fd Prod.snd Beside (runCmd ev.hold w c) (runCmd ev w c) := by
  have hmap : ∀ {α : Type} {x y : Option (α × World)} {bad : (World → α × World) → Prop} (m : α → Result ρ),
      (∀ k, bad k → Beside k) → Relays ev fd Prod.snd bad x y →
      Relays ev fd Prod.snd Beside (x.map (Prod.map m id)) (y.map (Prod.map m id)) := by
    intro α x y bad m hbad h
    simp only [Option.map_eq_bind]
    refine h.bind (fun b hfd htb => relays_some hfd htb) fun k hk => ?_
    obtain ⟨a, rfl⟩ := hbad k hk
    exact ⟨_, ⟨m a, rfl⟩, fun _ => ⟨rfl, rfl⟩⟩
  obtain ⟨helper, fmt, args⟩ := c
  cases helper with
  | it f => exact hmap _ (fun _ => id) (itNewv_relays hv)
  | _ => exact hmap _ (fun _ hk => ⟨_, hk⟩) (cmdBody_relays hv)

theorem callStep_relays (ev : Handlers) (c : Cmd ρ)
    (hv : Relays ev fd Prod.snd (fun k => k = Prod.mk (-1))
      (vsendBody ev.hold (ducOpen ev.hold) w c.fmt c.args) (vsendBody ev (ducOpen ev) w c.fmt c.args)) :
    Relays ev fd id (fun k => k = id) (callStep ev.hold w (.cmd c)) (callStep ev w (.cmd c)) := by
  simp only [callStep, Option.map_eq_bind]
  refine (runCmd_relays c hv).bind (fun b hfd htb => relays_some hfd htb) fun k hk => ?_
  exact ⟨id, rfl, fun v => ⟨congrArg some (hk.snd v), congrArg some (hk.snd v)⟩⟩

/-! ## Connecting -/

theorem auth_relays (hopen : w.con.fd ≠ -1) (ht : w.con.Tidy) :
    Relays ev w.con.fd Prod.snd (fun k => k = Prod.mk (-1)) (authBody ev.hold stayOpen w)
      (authBody ev stayOpen w) := by
  have hstay : ∀ {v : World}, v.con.fd ≠ -1 → stayOpen v = some (0, v) := fun h => if_pos h
  unfold authBody
  rcases w.user, w.pass with ⟨_ | user, _ | pass⟩
  · exact relays_some rfl ht
  · exact relays_some rfl ht
  · exact relays_some rfl ht
  simp only [Option.bind_eq_bind, Option.pure_def]
  refine (cmdBody_relays (vsend_relays (hstay hopen) (hstay hopen) ht)).bind ?_ ?_
  · rintro ⟨r, u⟩ hfd htu
    dsimp only at hfd ⊢
    split_ifs
    · exact relays_some hfd htu
    have hopen' : u.con.fd ≠ -1 := fun h => hopen (hfd.symm.trans h)
    rw [← hfd]
    refine (cmdBody_relays (vsend_relays (hstay hopen') (hstay hopen') htu)).bind ?_ ?_
    · rintro ⟨q, v⟩ hfd' htv
      dsimp only at hfd' ⊢
      split_ifs <;> exact relays_some hfd' htv
    · rintro _ rfl
      exact ⟨_, rfl, fun _ => ⟨rfl, rfl⟩⟩
  · rintro _ rfl
    exact ⟨_, rfl, fun _ => ⟨rfl, rfl⟩⟩

theorem hello_relays (ev : Handlers) (hopen : w.con.fd ≠ -1) (ht : w.con.Tidy) :
    Relays ev w.con.fd Prod.snd (fun k => k = Prod.mk false) (helloBody ev.hold stayOpen w)
      (helloBody ev stayOpen w) := by
  unfold helloBody
  simp only [Option.bind_eq_bind, Option.pure_def]
  refine (rlast_relays (w := { w with inreply := true }) ht).bind ?_ ?_
  · rintro ⟨r, u⟩ hfd htu
    dsimp only at hfd ⊢
    refine relays_ite (fun _ => relays_some hfd htu) fun _ => relays_ite (fun _ => relays_some hfd htu) fun _ => ?_
    rcases u.rline with _ | s
    · exact relays_none
    simp only [Option.bind_some]
    refine relays_ite (fun _ => relays_some hfd htu) fun _ => relays_ite (fun _ => relays_some hfd htu) fun _ => ?_
    refine relays_ite (fun _ => ?_) fun _ => relays_some hfd htu
    rw [← hfd]
    refine (auth_relays (w := { u with vmajor := (helloVersion (s.drop 5)).1, vminor := (helloVersion (s.drop 5)).2 })
      (fun h => hopen (hfd.symm.trans h)) htu).bind ?_ ?_
    · rintro ⟨q, v⟩ hfd' htv
      exact relays_some hfd' htv
    · rintro _ rfl
      exact ⟨_, rfl, fun _ => ⟨rfl, rfl⟩⟩
  · rintro _ rfl
    exact ⟨_, rfl, fun _ => ⟨rfl, rfl⟩⟩

/-! ## Polling -/

theorem pollLoop_relays (ev : Handlers) (ht : w.con.Tidy) :
    Relays ev w.con.fd id (fun k => k = id) (pollLoop ev.hold w) (pollLoop ev w) := by
  refine loop_relays (fun u : World => u.con.fd = w.con.fd ∧ u.con.Tidy) ?_ _ ⟨rfl, ht⟩
  rintro u ⟨hfd, htu⟩
  simp only [pollBody, Option.bind_eq_bind, Option.pure_def]
  rcases hg : ducSockGetline u.con with _ | ⟨l, con⟩
  · exact Or.inl ⟨rfl, fun _ h => (by cases h), fun _ h => by cases h⟩
  have hcon : con.fd = w.con.fd ∧ con.Tidy := ⟨(getline_fd hg).1.trans hfd, getline_tidy hg htu⟩
  rcases l with _ | i
  · exact Or.inl ⟨rfl, fun _ h => (by cases h), fun b h => Sum.inr.inj (Option.some.inj h) ▸ hcon⟩
  simp only [Option.bind_some]
  rcases hl : cstr con.buf i with _ | l
  · exact Or.inl ⟨rfl, fun _ h => (by cases h), fun _ h => by cases h⟩
  simp only [Option.bind_some]
  split_ifs
  · refine Or.inr ⟨id, { u with con := con }, rfl, hcon.2, rfl, ?_⟩
    rw [Option.map_eq_bind]
    rfl
  all_goals
    exact Or.inl ⟨rfl, fun s' h => Sum.inl.inj (Option.some.inj h) ▸ hcon, fun _ h => by cases h⟩

end Dudlc
