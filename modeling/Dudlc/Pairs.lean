import Dudlc.Handover

/-!
# Connect and disconnect events

* `conEvents`, `turn`, `Paired`: the connection events of a session come in turn.
* `Stays`, `Drops`: reading and sending raise no connection event, or close the connection and raise
  one; `rlast_outcome`, `cmdBody_outcome`, `itNewv_outcome`, `hello_outcome`.
* `open_outcome`, `callStep_outcome`: what a call raises.
* **`paired_iff`**: the events of a run pair up just when no call closes a closed session and no
  connection is lost between the hello message and the end of the login.
-/

namespace Dudlc

open Lib

variable {ρ : Type} {w w₁ v : World} {r : ℤ} {log es : List Event}
  {open_ : World → Option (ℤ × World)} {fmt : Cstr} {ap : List Arg}

/-! ## Events that come in turn -/

def Event.isCon : Event → Bool
  | .connect => true
  | .disconnect => true
  | .bcast _ => false

/-- The connection events. -/
def conEvents (log : List Event) : List Event := log.filter Event.isCon

/-- The sequence connect, disconnect, connect, … -/
def turn (i : ℕ) : Event := if i % 2 = 0 then .connect else .disconnect

/-- The connection events are a beginning of the sequence. -/
def Paired (log : List Event) : Prop := ∃ n, conEvents log = (List.range n).map turn

/-- They are, and the last one says whether the connection is `up`. -/
def PairedTo (log : List Event) (up : Prop) : Prop :=
  ∃ n, conEvents log = (List.range n).map turn ∧ (up ↔ n % 2 = 1)

theorem PairedTo.paired {up : Prop} (h : PairedTo log up) : Paired log := by
  obtain ⟨n, hn, -⟩ := h
  exact ⟨n, hn⟩

theorem conEvents_append (log es : List Event) :
    conEvents (log ++ es) = conEvents log ++ conEvents es := List.filter_append _ _

theorem conEvents_bcasts (bs : List (List UInt8)) : conEvents (bs.map .bcast) = [] := by
  rw [conEvents, List.filter_eq_nil_iff]
  intro e he
  obtain ⟨b, -, rfl⟩ := List.mem_map.1 he
  exact Bool.false_ne_true

theorem Paired.initial (h : Paired es) (hlog : conEvents log <+: conEvents es) : Paired log := by
  obtain ⟨n, hn⟩ := h
  refine ⟨min (conEvents log).length n, ?_⟩
  rw [← List.take_range, List.map_take, ← hn]
  exact List.prefix_iff_eq_take.1 hlog

theorem PairedTo.connect {up : Prop} (h : PairedTo log up) (hup : ¬ up) {log' : List Event}
    (hlog : conEvents log' = conEvents log ++ [.connect]) : PairedTo log' True := by
  obtain ⟨n, hn, hodd⟩ := h
  have heven : n % 2 = 0 := by
    have := mt hodd.2 hup
    omega
  refine ⟨n + 1, ?_, iff_of_true trivial (by omega)⟩
  rw [hlog, hn, List.range_succ, List.map_append, List.map_singleton, turn, if_pos heven]

theorem PairedTo.disconnect {up : Prop} (h : PairedTo log up) (hup : up) {log' : List Event}
    (hlog : conEvents log' = conEvents log ++ [.disconnect]) : PairedTo log' False := by
  obtain ⟨n, hn, hodd⟩ := h
  have hn1 := hodd.1 hup
  refine ⟨n + 1, ?_, iff_of_false id (by omega)⟩
  rw [hlog, hn, List.range_succ, List.map_append, List.map_singleton, turn, if_neg (by omega)]

theorem PairedTo.out_of_turn {up : Prop} (h : PairedTo log up) (hup : ¬ up) {log' : List Event}
    (hlog : conEvents log' = conEvents log ++ [.disconnect]) : ¬ Paired log' := by
  rintro ⟨m, hm⟩
  obtain ⟨n, hn, hodd⟩ := h
  rw [hlog, hn] at hm
  have hlen := congrArg List.length hm
  simp only [List.length_append, List.length_map, List.length_range, List.length_singleton] at hlen
  rw [← hlen, List.range_succ, List.map_append, List.map_singleton] at hm
  have heven : n % 2 = 0 := by
    have := mt hodd.2 hup
    omega
  have hlast := List.append_cancel_left hm
  rw [turn, if_pos heven] at hlast
  cases hlast

/-! ## Reading and sending -/

/-- The connection stays as it is, and no connection event is raised. -/
structure Stays (w v : World) : Prop where
  tidy : v.con.Tidy
  fd : v.con.fd = w.con.fd
  con : conEvents v.log = conEvents w.log

/-- The connection is closed, and this is reported. -/
structure Drops (w v : World) : Prop where
  tidy : v.con.Tidy
  fd : v.con.fd = -1
  con : conEvents v.log = conEvents w.log ++ [.disconnect]

theorem Stays.refl (h : w.con.Tidy) : Stays w w := ⟨h, rfl, rfl⟩

theorem Stays.trans (h : Stays w w₁) (h' : Stays w₁ v) : Stays w v :=
  ⟨h'.tidy, h'.fd.trans h.fd, h'.con.trans h.con⟩

theorem Stays.drops (h : Stays w w₁) (h' : Drops w₁ v) : Drops w v := ⟨h'.tidy, h'.fd, h.con ▸ h'.con⟩

theorem Stays.bcast (h : Stays w v) (l : List UInt8) : Stays w (ducBcast v l) := by
  refine ⟨h.tidy, h.fd, ?_⟩
  rw [show (ducBcast v l).log = v.log ++ [l].map .bcast from rfl, conEvents_append, conEvents_bcasts,
    List.append_nil, h.con]

theorem Onward.conEvents (h : Onward w v) : conEvents v.log = conEvents w.log := by
  obtain ⟨bs, hbs⟩ := h.log
  rw [hbs, conEvents_append, conEvents_bcasts, List.append_nil]

theorem close_drops (ht : w.con.Tidy) (h : ducClose .passive w = some v) : Drops w v := by
  rw [close_passive] at h
  obtain rfl := Option.some.inj h
  exact ⟨disconnect_tidy ht, disconnect_fd ht, conEvents_append _ _⟩

theorem rnext_outcome (ht : w.con.Tidy) (h : ducRnext .passive w = some (r, v)) :
    (r ≠ -1 ∧ Stays w v) ∨ (r = -1 ∧ Drops w v) := by
  obtain ⟨u, hu, ⟨hr, rfl, hfd⟩ | ⟨hr, hc⟩⟩ := ducRnext_onward h
  · exact Or.inl ⟨hr, hu.tidy ht, hfd, hu.conEvents⟩
  · have hd := close_drops (hu.tidy ht) hc
    exact Or.inr ⟨hr, hd.tidy, hd.fd, hu.conEvents ▸ hd.con⟩

/-- **`_duc_rlast`** -/
theorem rlast_outcome (ht : w.con.Tidy) (h : ducRlast .passive w = some (r, v)) :
    (r = 0 ∧ Stays w v) ∨ (r = -1 ∧ Drops w v) := by
  obtain ⟨u, hu, ⟨hr, rfl, hfd⟩ | ⟨hr, hc⟩⟩ := ducRlast_onward h
  · exact Or.inl ⟨hr, hu.tidy ht, hfd, hu.conEvents⟩
  · have hd := close_drops (hu.tidy ht) hc
    exact Or.inr ⟨hr, hd.tidy, hd.fd, hu.conEvents ▸ hd.con⟩

theorem vsendSend_outcome {cmd : List UInt8} (ht : w.con.Tidy)
    (h : vsendSend .passive w cmd = some (r, v)) : (r = 0 ∧ Stays w v) ∨ (r = -1 ∧ Drops w v) := by
  obtain ⟨q, u, hs, hor⟩ := vsendSend_cases h
  obtain ⟨_, _, rfl⟩ := send_eq hs
  rcases hor with ⟨-, rfl, rfl⟩ | ⟨-, rfl, hc⟩
  · exact Or.inl ⟨rfl, ht, rfl, rfl⟩
  · have hd := close_drops (by exact ht) hc
    exact Or.inr ⟨rfl, hd.tidy, hd.fd, hd.con⟩

/-- Where a command gets: it is refused, cannot connect, or stays on or drops the connection. -/
def Outcome (open_ : World → Option (ℤ × World)) (w v : World) : Prop :=
  (w.inreply = true ∧ v = w) ∨ (w.inreply = false ∧ ∃ q, q ≠ 0 ∧ open_ w = some (q, v)) ∨
    (w.inreply = false ∧ ∃ u, open_ w = some (0, u) ∧ (u.con.Tidy → Stays u v ∨ Drops u v))

theorem vsend_outcome (h : vsendBody .passive open_ w fmt ap = some (r, v)) :
    (r = 0 ∧ w.inreply = false ∧ ∃ u, open_ w = some (0, u) ∧ (u.con.Tidy → Stays u v)) ∨
      (r ≠ 0 ∧ Outcome open_ w v) := by
  rcases vsendBody_cases h with ⟨hin, rfl, rfl⟩ | ⟨hin, q, ho, hq, rfl⟩ | ⟨u, cmd, hin, ho, -, hor⟩
  · exact Or.inr ⟨by decide, Or.inl ⟨hin, rfl⟩⟩
  · exact Or.inr ⟨by decide, Or.inr (Or.inl ⟨hin, q, hq, ho⟩)⟩
  · rcases hor with ⟨-, rfl, rfl⟩ | ⟨t, -, hs⟩
    · exact Or.inr ⟨by decide, Or.inr (Or.inr ⟨hin, v, ho, fun ht => Or.inl (.refl ht)⟩)⟩
    · by_cases hr : r = 0
      · refine Or.inl ⟨hr, hin, u, ho, fun ht => ?_⟩
        rcases vsendSend_outcome ht hs with ⟨-, hst⟩ | ⟨h1, -⟩
        · exact hst
        · omega
      · refine Or.inr ⟨hr, Or.inr (Or.inr ⟨hin, u, ho, fun ht => ?_⟩)⟩
        exact (vsendSend_outcome ht hs).imp And.right And.right

/-- **The helpers that look at the last line.** On a connection that is open it succeeds only where the
connection stays. -/
theorem cmdBody_outcome {α : Type} {fail a : α} {done : World → Option α}
    (h : cmdBody .passive open_ fail done w fmt ap = some (a, v)) :
    Outcome open_ w v ∧ (a ≠ fail → ∀ u, open_ w = some (0, u) → u.con.Tidy → Stays u v) := by
  rcases cmdBody_cases h with ⟨q, hv, hq, rfl⟩ | ⟨w₁, hv, hl⟩
  · rcases vsend_outcome hv with ⟨h0, -⟩ | ⟨-, hout⟩
    · exact absurd h0 hq
    · exact ⟨hout, fun hne => absurd rfl hne⟩
  rcases vsend_outcome hv with ⟨-, hin, u, ho, hst⟩ | ⟨h0, -⟩
  · refine ⟨Or.inr (Or.inr ⟨hin, u, ho, fun ht => ?_⟩), fun hne u' ho' ht => ?_⟩
    · have hw₁ := hst ht
      rcases hl with ⟨q, hl, -⟩ | ⟨hl, -⟩
      · rcases rlast_outcome hw₁.tidy hl with ⟨-, hs⟩ | ⟨-, hd⟩
        · exact Or.inl (hw₁.trans hs)
        · exact Or.inr (hw₁.drops hd)
      · rcases rlast_outcome hw₁.tidy hl with ⟨-, hs⟩ | ⟨h1, -⟩
        · exact Or.inl (hw₁.trans hs)
        · cases h1
    · obtain ⟨-, rfl⟩ := Prod.mk.inj (Option.some.inj (ho.symm.trans ho'))
      have hw₁ := hst ht
      rcases hl with ⟨q, -, -, rfl⟩ | ⟨hl, -⟩
      · exact absurd rfl hne
      · rcases rlast_outcome hw₁.tidy hl with ⟨-, hs⟩ | ⟨h1, -⟩
        · exact hw₁.trans hs
        · cases h1
  · exact absurd rfl h0

theorem collect_outcome {conv : Converter ρ} {rows : List (Option ρ)} {it : Option (DucIter ρ)}
    (ht : w.con.Tidy) (h : itCollect .passive conv (w, rows) = some (it, v)) : Stays w v ∨ Drops w v := by
  refine itCollect_rule (I := Stays w) (Q := fun v => Stays w v ∨ Drops w v) (.refl ht) ?_ ?_ ?_ h
  · intro u u' hu hr
    rcases rnext_outcome hu.tidy hr with ⟨-, hs⟩ | ⟨h1, -⟩
    · exact hu.trans hs
    · cases h1
  · intro u r u' hu hr _
    rcases rnext_outcome hu.tidy hr with ⟨-, hs⟩ | ⟨-, hd⟩
    · exact Or.inl (hu.trans hs)
    · exact Or.inr (hu.drops hd)
  · intro u r u' hu hl
    rcases rlast_outcome hu.tidy hl with ⟨-, hs⟩ | ⟨-, hd⟩
    · exact Or.inl (hu.trans hs)
    · exact Or.inr (hu.drops hd)

theorem itNewv_outcome {conv : Converter ρ} {it : Option (DucIter ρ)}
    (h : ducItNewv .passive conv w fmt ap = some (it, v)) : Outcome (ducOpen .passive) w v := by
  rcases ducItNewv_cases h with ⟨q, hv, hq, -⟩ | ⟨w₁, r, w₂, hv, hr, hor⟩
  · rcases vsend_outcome hv with ⟨h0, -⟩ | ⟨-, hout⟩
    · exact absurd h0 hq
    · exact hout
  rcases vsend_outcome hv with ⟨-, hin, u, ho, hst⟩ | ⟨h0, -⟩
  · refine Or.inr (Or.inr ⟨hin, u, ho, fun ht => ?_⟩)
    have hw₁ := hst ht
    rcases rnext_outcome hw₁.tidy hr with ⟨-, hs⟩ | ⟨h1, hd⟩
    · have hs₂ := hw₁.trans hs
      rcases hor with ⟨-, -, rfl⟩ | ⟨-, -, -, q, hl⟩ | ⟨-, hcoll⟩
      · exact Or.inl hs₂
      · exact ((rlast_outcome hs₂.tidy hl).imp And.right And.right).imp hs₂.trans hs₂.drops
      · exact (collect_outcome hs₂.tidy hcoll).imp hs₂.trans hs₂.drops
    · rcases hor with ⟨-, -, rfl⟩ | ⟨h0, -⟩ | ⟨h0, -⟩
      · exact Or.inr (hw₁.drops hd)
      · omega
      · omega
  · exact absurd rfl h0

/-- **Every command helper.** -/
theorem runCmd_outcome {c : Cmd ρ} {res : Result ρ} (h : runCmd .passive w c = some (res, v)) :
    Outcome (ducOpen .passive) w v := by
  obtain ⟨helper, fmt, args⟩ := c
  cases helper with
  | it f =>
    obtain ⟨⟨it, u⟩, hi, heq⟩ := Option.map_eq_some_iff.1 h
    exact (Prod.mk.inj heq).2 ▸ itNewv_outcome hi
  | _ =>
    obtain ⟨⟨a, u⟩, hb, heq⟩ := Option.map_eq_some_iff.1 h
    exact (Prod.mk.inj heq).2 ▸ (cmdBody_outcome hb).1

/-! ## Connecting -/

theorem stayOpen_eq {q : ℤ} {u : World} (h : stayOpen w = some (q, u)) : q = 0 ∧ u = w := by
  unfold stayOpen at h
  split_ifs at h
  obtain ⟨rfl, rfl⟩ := Prod.mk.inj (Option.some.inj h)
  exact ⟨rfl, rfl⟩

theorem Outcome.stayOpen (h : Outcome stayOpen w v) (ht : w.con.Tidy) : Stays w v ∨ Drops w v := by
  rcases h with ⟨-, rfl⟩ | ⟨-, q, hq, ho⟩ | ⟨-, u, ho, hor⟩
  · exact Or.inl (.refl ht)
  · exact absurd (stayOpen_eq ho).1 hq
  · obtain ⟨-, rfl⟩ := stayOpen_eq ho
    exact hor ht

theorem auth_outcome (ht : w.con.Tidy) (h : authBody .passive stayOpen w = some (r, v)) :
    Stays w v ∨ (r ≠ 0 ∧ Drops w v) := by
  have hcmd : ∀ {u u' : World} {q : ℤ} {fmt : Cstr} {ap : List Arg}, u.con.Tidy →
      cmdBody .passive stayOpen (-1) succDone u fmt ap = some (q, u') →
      Stays u u' ∨ (q = -1 ∧ Drops u u') := by
    intro u u' q fmt ap hu hc
    obtain ⟨hout, hsucc⟩ := cmdBody_outcome hc
    by_cases hq : q = -1
    · exact (hout.stayOpen hu).imp id fun hd => ⟨hq, hd⟩
    · by_cases hopen : u.con.fd = -1
      · rcases cmdBody_cases hc with ⟨_, -, -, h1⟩ | ⟨_, hv, -⟩
        · exact absurd h1 hq
        · rcases vsend_outcome hv with ⟨-, -, u₁, ho, -⟩ | ⟨h0, -⟩
          · rw [stayOpen, if_neg (not_not.2 hopen)] at ho
            cases ho
          · exact absurd rfl h0
      · exact Or.inl (hsucc hq u (if_pos hopen) hu)
  rcases authBody_cases h with ⟨-, rfl⟩ | ⟨user, pass, q, w₁, -, -, hu, hor⟩
  · exact Or.inl (.refl ht)
  have hw₁ := hcmd ht hu
  rcases hor with ⟨-, rfl, rfl⟩ | ⟨q', rfl, hp, hor⟩
  · exact hw₁.imp id fun hd => ⟨by decide, hd.2⟩
  rcases hw₁ with hs | ⟨h1, -⟩
  · rcases hcmd hs.tidy hp with hs' | ⟨h1, hd⟩
    · exact Or.inl (hs.trans hs')
    · rcases hor with ⟨-, rfl⟩ | ⟨h0, -⟩
      · exact Or.inr ⟨by decide, hs.drops hd⟩
      · omega
  · cases h1

theorem hello_outcome {ok : Bool} (ht : w.con.Tidy) (h : helloBody .passive stayOpen w = some (ok, v)) :
    Stays w v ∨ (ok = false ∧ Drops w v) := by
  obtain ⟨q, w₁, hl, hor⟩ := helloBody_cases h
  rcases rlast_outcome (w := { w with inreply := true }) ht hl with ⟨h0, hs⟩ | ⟨h1, hd⟩
  · have hs₁ : Stays w w₁ := ⟨hs.tidy, hs.fd, hs.con⟩
    rcases hor with ⟨-, -, rfl⟩ | ⟨-, -, rfl⟩ | ⟨major, minor, -, hor⟩
    · exact Or.inl hs₁
    · exact Or.inl hs₁
    have hs₂ : Stays w { w₁ with vmajor := major, vminor := minor } := ⟨hs₁.tidy, hs₁.fd, hs₁.con⟩
    rcases hor with ⟨-, -, rfl⟩ | ⟨-, -, -, rfl⟩ | ⟨r, -, ha, hok⟩
    · exact Or.inl hs₂
    · exact Or.inl hs₂
    · rcases auth_outcome hs₂.tidy ha with hs₃ | ⟨hr, hd⟩
      · exact Or.inl (hs₂.trans hs₃)
      · exact Or.inr ⟨Bool.eq_false_iff.2 fun h => hr (hok.1 h), hs₂.drops hd⟩
  · rcases hor with ⟨-, hok, rfl⟩ | ⟨h0, -⟩ | ⟨_, _, h0, -⟩
    · exact Or.inr ⟨hok, hd.tidy, hd.fd, hd.con⟩
    · omega
    · omega

/-- `duc_open` loses its new connection while it reads the hello message or logs in. -/
def LosesHello (w : World) : Prop :=
  w.con.fd = -1 ∧ ∃ w₁ w₂, ducSockConnect w = (0, w₁) ∧
    helloBody .passive stayOpen w₁ = some (false, w₂) ∧ w₂.con.fd = -1

/-- A new connection is made, and this is reported. -/
structure Makes (w v : World) : Prop where
  tidy : v.con.Tidy
  was : w.con.fd = -1
  fd : v.con.fd ≠ -1
  con : conEvents v.log = conEvents w.log ++ [.connect]

/-- **`duc_open`** -/
theorem open_outcome (ht : w.con.Tidy) (h : ducOpen .passive w = some (r, v)) :
    (LosesHello w ∧ r ≠ 0 ∧ Drops w v) ∨
      (¬ LosesHello w ∧ ((r = 0 ∧ w.con.fd ≠ -1 ∧ v = w) ∨ (r = 0 ∧ Makes w v) ∨ (r ≠ 0 ∧ Stays w v))) := by
  rcases ducOpen_cases h with ⟨hfd, rfl, rfl⟩ | ⟨q, w₁, hfd, hc, hor⟩
  · exact Or.inr ⟨fun hl => hfd hl.1, Or.inl ⟨rfl, hfd, rfl⟩⟩
  have ht₁ : w₁.con.Tidy := connect_tidy hfd ht hc
  rcases connect_cases hfd hc with ⟨rfl, ds, hfail⟩ | ⟨rfl, hmade⟩
  · rcases hor with ⟨-, rfl, rfl⟩ | ⟨-, -, h0, -⟩
    · refine Or.inr ⟨?_, Or.inr (Or.inr ⟨by decide, ?_⟩)⟩
      · rintro ⟨-, _, _, hc', -⟩
        rw [hc] at hc'
        cases hc'
      · rcases hfail with rfl | rfl <;> exact ⟨ht₁, rfl, rfl⟩
    · cases h0
  have hopen : w₁.con.fd ≠ -1 := connect_open hfd hc
  have hlog : w₁.log = w.log := by
    obtain ⟨fd, rs, ss, ds, -, rfl⟩ := hmade
    rfl
  rcases hor with ⟨h0, -⟩ | ⟨ok, w₂, -, hello, hor⟩
  · exact absurd rfl h0
  have hloses : LosesHello w ↔ ok = false ∧ w₂.con.fd = -1 := by
    refine ⟨fun hl => ?_, fun hl => ⟨hfd, w₁, w₂, hc, hl.1 ▸ hello, hl.2⟩⟩
    obtain ⟨-, w₁', u, hc', hu, hfd'⟩ := hl
    obtain ⟨-, rfl⟩ := Prod.mk.inj (hc.symm.trans hc')
    obtain ⟨rfl, rfl⟩ := Prod.mk.inj (Option.some.inj (hello.symm.trans hu))
    exact ⟨rfl, hfd'⟩
  rw [hloses]
  rcases hello_outcome ht₁ hello with hs | ⟨rfl, hd⟩
  · have hopen₂ : w₂.con.fd ≠ -1 := fun h' => hopen (hs.fd.symm.trans h')
    refine Or.inr ⟨fun hl => hopen₂ hl.2, Or.inr ?_⟩
    rcases hor with ⟨-, rfl, hconnect⟩ | ⟨-, rfl, rfl⟩
    · obtain rfl := Option.some.inj hconnect
      refine Or.inl ⟨rfl, hs.tidy, hfd, hopen₂, ?_⟩
      change conEvents (w₂.log ++ [.connect]) = _
      rw [conEvents_append, hs.con, hlog]
      rfl
    · refine Or.inr ⟨by decide, disconnect_tidy hs.tidy, ?_, hs.con.trans (by rw [hlog])⟩
      exact (disconnect_fd hs.tidy).trans hfd.symm
  · rcases hor with ⟨h1, -⟩ | ⟨-, rfl, rfl⟩
    · cases h1
    have hsame : ducSockDisconnect w₂.con = w₂.con := by
      rw [ducSockDisconnect, if_pos (by rw [hd.fd]; decide)]
    refine Or.inl ⟨⟨rfl, hd.fd⟩, by decide, ?_⟩
    rw [hsame]
    exact ⟨hd.tidy, hd.fd, hlog ▸ hd.con⟩

/-! ## Calls -/

/-- What a call raises: nothing, an end, a new connection, or a new connection that ends. -/
inductive Raises (w v : World) : Prop
  | stays : Stays w v → Raises w v
  | drops : w.con.fd ≠ -1 → Drops w v → Raises w v
  | makes : Makes w v → Raises w v
  | fails {u : World} : Makes w u → Drops u v → Raises w v

theorem Raises.tidy (h : Raises w v) : v.con.Tidy := by
  cases h with
  | stays h => exact h.tidy
  | drops _ h => exact h.tidy
  | makes h => exact h.tidy
  | fails _ h => exact h.tidy

theorem Raises.paired (h : Raises w v) (hp : PairedTo w.log (w.con.fd ≠ -1)) :
    PairedTo v.log (v.con.fd ≠ -1) := by
  have hup : ∀ {log : List Event} {p q : Prop}, (p ↔ q) → PairedTo log p → PairedTo log q := by
    rintro log p q hpq ⟨n, hn, hodd⟩
    exact ⟨n, hn, hpq.symm.trans hodd⟩
  have hmakes : ∀ {u : World}, Makes w u → PairedTo u.log True := fun hm =>
    hp.connect (fun hne => hne hm.was) hm.con
  cases h with
  | stays h =>
    obtain ⟨n, hn, hodd⟩ := hp
    exact ⟨n, h.con.trans hn, h.fd ▸ hodd⟩
  | drops hne h => exact hup (iff_of_false id fun hv => hv h.fd) (hp.disconnect hne h.con)
  | makes h => exact hup (iff_of_true trivial h.fd) (hmakes h)
  | fails hm h =>
    exact hup (iff_of_false id fun hv => hv h.fd) ((hmakes hm).disconnect trivial h.con)

theorem raises_open {u : World} (ho : (w.con.fd ≠ -1 ∧ u = w) ∨ Makes w u) (h : Stays u v ∨ Drops u v) :
    Raises w v := by
  rcases ho with ⟨hne, rfl⟩ | hm
  · rcases h with hs | hd
    · exact .stays hs
    · exact .drops hne hd
  · rcases h with hs | hd
    · exact .makes ⟨hs.tidy, hm.was, hs.fd ▸ hm.fd, hs.con.trans hm.con⟩
    · exact .fails hm hd

theorem opened_outcome (ht : w.con.Tidy) (ho : ducOpen .passive w = some (r, u)) (hfail : r ≠ 0 → v = u)
    (hgo : r = 0 → u.con.Tidy → Stays u v ∨ Drops u v) :
    (LosesHello w ∧ w.con.fd = -1 ∧ Drops w v) ∨ (¬ LosesHello w ∧ Raises w v) := by
  rcases open_outcome ht ho with ⟨hl, hr, hd⟩ | ⟨hl, hopened⟩
  · exact Or.inl ⟨hl, hl.1, hfail hr ▸ hd⟩
  refine Or.inr ⟨hl, ?_⟩
  rcases hopened with ⟨hr, hne, rfl⟩ | ⟨hr, hm⟩ | ⟨hr, hs⟩
  · exact raises_open (Or.inl ⟨hne, rfl⟩) (hgo hr ht)
  · exact raises_open (Or.inr hm) (hgo hr hm.tidy)
  · exact .stays (hfail hr ▸ hs)

theorem pollLoop_outcome (ht : w.con.Tidy) (h : pollLoop .passive w = some v) : Stays w v ∨ Drops w v := by
  have hset : ∀ {u : World} {l con}, Stays w u → ducSockGetline u.con = some (l, con) →
      Stays w { u with con := con } := fun hu hg =>
    ⟨getline_tidy hg hu.tidy, (getline_fd hg).1.trans hu.fd, hu.con⟩
  refine pollLoop_rule (I := Stays w) (Q := fun v => Stays w v ∨ Drops w v) (.refl ht) ?_ ?_ ?_ ?_ h
  · intro u i t con hu hg _ _ _
    exact hset hu hg
  · intro u i t con hu hg _ _ _
    exact (hset hu hg).bcast t
  · intro u con hu hg
    exact Or.inl (hset hu hg)
  · intro u i t con u' hu hg _ _ hc
    exact Or.inr ((hset hu hg).drops (close_drops (hset hu hg).tidy hc))

theorem pollRest_outcome {u : World} (ht : w.con.Tidy) (hr : w.recv = some (r, u))
    (h : (r ≠ 0 ∧ ∃ u', ducClose .passive u = some u' ∧ pollLoop .passive u' = some v) ∨
      (r = 0 ∧ pollLoop .passive u = some v)) : Stays w v ∨ Drops w v := by
  obtain ⟨hor, -, ⟨-, -, -, hlog⟩, htidy, -⟩ := recv_cases hr
  have htu := htidy ht
  rcases h with ⟨-, u', hc, hloop⟩ | ⟨h0, hloop⟩
  · obtain rfl := Option.some.inj hc
    rw [pollLoop_closed (disconnect_tidy htu) (disconnect_fd htu)] at hloop
    obtain rfl := Option.some.inj hloop
    have hd := close_drops htu hc
    exact Or.inr ⟨hd.tidy, hd.fd, hd.con.trans (by rw [hlog])⟩
  · have hu : Stays w u := by
      rcases hor with ⟨-, hfd⟩ | h1
      · exact ⟨htu, hfd, by rw [hlog]⟩
      · omega
    exact (pollLoop_outcome htu hloop).imp hu.trans hu.drops

/-- The call closes a closed session, or loses a connection before it is reported. -/
def Call.Slips (w : World) : Call ρ → Prop
  | .close => w.con.fd = -1
  | c => c.Opens w ∧ LosesHello w

/-- **A call** raises events in turn, or slips and reports the end of a connection that it did not
report. -/
theorem callStep_outcome {c : Call ρ} (ht : w.con.Tidy) (h : callStep .passive w c = some v) :
    (c.Slips w ∧ w.con.fd = -1 ∧ Drops w v) ∨ (¬ c.Slips w ∧ Raises w v) := by
  cases c with
  | «open» =>
    obtain ⟨⟨r, u⟩, ho, rfl⟩ := Option.map_eq_some_iff.1 h
    exact (opened_outcome ht ho (fun _ => rfl) fun _ hu => Or.inl (.refl hu)).imp
      (fun hl => ⟨⟨trivial, hl.1⟩, hl.2⟩) fun hn => ⟨fun hs => hn.1 hs.2, hn.2⟩
  | close =>
    have hd := close_drops ht h
    by_cases hfd : w.con.fd = -1
    · exact Or.inl ⟨hfd, hfd, hd⟩
    · exact Or.inr ⟨hfd, .drops hfd hd⟩
  | setauth user pass =>
    obtain rfl := Option.some.inj h
    exact Or.inr ⟨fun hs => hs.1, .stays ⟨ht, rfl, rfl⟩⟩
  | cmd c =>
    obtain ⟨⟨res, u⟩, hrun, rfl⟩ := Option.map_eq_some_iff.1 h
    rcases runCmd_outcome hrun with ⟨hin, rfl⟩ | ⟨hin, q, hq, ho⟩ | ⟨hin, w₁, ho, hor⟩
    · refine Or.inr ⟨fun hs => ?_, .stays (.refl ht)⟩
      exact Bool.false_ne_true (hs.1.symm.trans hin)
    · exact (opened_outcome ht ho (fun _ => rfl) fun h0 => absurd h0 hq).imp
        (fun hl => ⟨⟨hin, hl.1⟩, hl.2⟩) fun hn => ⟨fun hs => hn.1 hs.2, hn.2⟩
    · exact (opened_outcome ht ho (fun h0 => absurd rfl h0) fun _ => hor).imp
        (fun hl => ⟨⟨hin, hl.1⟩, hl.2⟩) fun hn => ⟨fun hs => hn.1 hs.2, hn.2⟩
  | poll =>
    obtain ⟨r, w₁, ho, hor⟩ := ducPoll_cases h
    refine (opened_outcome ht ho (fun hr => ?_) fun hr hw₁ => ?_).imp
      (fun hl => ⟨⟨trivial, hl.1⟩, hl.2⟩) fun hn => ⟨fun hs => hn.1 hs.2, hn.2⟩
    · rcases hor with ⟨-, hv⟩ | ⟨_, _, h0, -⟩
      · exact hv
      · exact absurd h0 hr
    · rcases hor with ⟨h0, -⟩ | ⟨q, w₂, -, hrecv, hor⟩
      · exact absurd hr h0
      · exact pollRest_outcome hw₁ hrecv hor

/-! ## Runs -/

theorem Raises.extends (h : Raises w v) : conEvents w.log <+: conEvents v.log := by
  cases h with
  | stays h => rw [h.con]
  | drops _ h => exact ⟨_, h.con.symm⟩
  | makes h => exact ⟨_, h.con.symm⟩
  | fails hm h => exact ⟨_, by rw [← List.append_assoc, ← hm.con, h.con]⟩

theorem callStep_extends {c : Call ρ} (ht : w.con.Tidy) (h : callStep .passive w c = some v) :
    v.con.Tidy ∧ conEvents w.log <+: conEvents v.log := by
  rcases callStep_outcome ht h with ⟨-, -, hd⟩ | ⟨-, hr⟩
  · exact ⟨hd.tidy, ⟨_, hd.con.symm⟩⟩
  · exact ⟨hr.tidy, hr.extends⟩

theorem runs_extends {calls : List (Call ρ)} (ht : w.con.Tidy)
    (h : runs (callStep .passive) w calls = some v) : conEvents w.log <+: conEvents v.log := by
  refine (runs_keep (I := fun u : World => u.con.Tidy ∧ conEvents w.log <+: conEvents u.log) ?_
    ⟨ht, List.prefix_refl _⟩ h).2
  rintro u c u' ⟨htu, hu⟩ hstep
  obtain ⟨htu', hu'⟩ := callStep_extends htu hstep
  exact ⟨htu', hu.trans hu'⟩

theorem runs_paired {calls : List (Call ρ)} (ht : w.con.Tidy) (hp : PairedTo w.log (w.con.fd ≠ -1))
    (h : runs (callStep .passive) w calls = some v) :
    Paired v.log ↔ Along (callStep .passive) (fun w c => ¬ c.Slips w) w calls := by
  induction calls generalizing w with
  | nil =>
    obtain rfl := Option.some.inj h
    exact iff_of_true hp.paired trivial
  | cons c calls ih =>
    rw [runs_cons, Option.bind_eq_some_iff] at h
    obtain ⟨u, hstep, h⟩ := h
    rcases callStep_outcome ht hstep with ⟨hslip, hfd, hd⟩ | ⟨hkeep, hr⟩
    · refine iff_of_false (fun hv => ?_) fun hall => hall.1 hslip
      exact hp.out_of_turn (fun hne => hne hfd) hd.con (hv.initial (runs_extends hd.tidy h))
    · rw [ih hr.tidy (hr.paired hp) h]
      exact ⟨fun hall => ⟨hkeep, fun s hs => Option.some.inj (hstep.symm.trans hs) ▸ hall⟩,
        fun hall => hall.2 u hstep⟩

/-- **Connect and disconnect events pair up** in a run of calls of a new session just when no call of it
is a `duc_close` of a closed session or opens a connection that is lost before the login is done. -/
theorem paired_iff (dials : List Dial) {calls : List (Call ρ)}
    (h : runs (callStep .passive) (newWorld dials) calls = some w) :
    Paired w.log ↔ Along (callStep .passive) (fun w c => ¬ c.Slips w) (newWorld dials) calls :=
  runs_paired (newWorld_tidy dials).con ⟨0, rfl, iff_of_false (fun hne => hne rfl) (by decide)⟩ h

/-- **A disconnect without a connect.** `duc_close` raises it on a session that was never opened, and
`duc_open` on a connection that the server ends before its hello message. -/
theorem disconnect_unpaired :
    (∃ w, runs (callStep .passive) (newWorld []) [(.close : Call Unit)] = some w ∧
      w.log = [.disconnect] ∧ ¬ Paired w.log) ∧
    ∃ w, runs (callStep .passive) (newWorld [.made 3 [] []]) [(.open : Call Unit)] = some w ∧
      w.log = [.disconnect] ∧ ¬ Paired w.log := by
  have hnew : PairedTo [] False := ⟨0, rfl, iff_of_false id (by decide)⟩
  have hunpaired : ¬ Paired [.disconnect] := hnew.out_of_turn id rfl
  have hopen : ((runs (callStep .passive) (newWorld [.made 3 [] []]) [(.open : Call Unit)]).map
      fun w => w.log) = some [.disconnect] := by decide +kernel
  obtain ⟨w, hw, hlog⟩ := Option.map_eq_some_iff.1 hopen
  exact ⟨⟨_, rfl, rfl, hunpaired⟩, w, hw, hlog, hlog ▸ hunpaired⟩

/-- The theorem at a session that is opened, closed by the server and opened again. -/
theorem paired_iff_again : ∃ w, runs (callStep .passive)
    (newWorld [greeting "220 dudld 1 2\n", greeting "220 dudld 1 2\n"]) [(.open : Call Unit), .poll, .open] =
      some w ∧ Along (callStep .passive) (fun w c => ¬ c.Slips w)
    (newWorld [greeting "220 dudld 1 2\n", greeting "220 dudld 1 2\n"]) [(.open : Call Unit), .poll, .open] := by
  have hrun : ((runs (callStep .passive) (newWorld [greeting "220 dudld 1 2\n", greeting "220 dudld 1 2\n"])
      [(.open : Call Unit), .poll, .open]).map fun w => w.log) =
      some [.connect, .disconnect, .connect] := by decide +kernel
  obtain ⟨w, hw, hlog⟩ := Option.map_eq_some_iff.1 hrun
  exact ⟨w, hw, (paired_iff _ hw).1 ⟨3, by rw [hlog]; decide⟩⟩

end Dudlc
