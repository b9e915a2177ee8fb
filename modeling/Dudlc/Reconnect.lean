import Dudlc.Behind
import Dudlc.Pairs

/-!
# Reconnecting from the disconnect handler

`cb_disc` of `cli/events.c` calls `duc_open` when the connection is closed. `duc_open` calls `duc_close`, and
with it `cb_disc` again, when the new connection is lost before the login is done; all its other failures
leave the handler alone.

* `cbDisc`, `NestsAtMost`: the handler, and how many of its attempts are under way at once.
* `Kept`, `Carries`: reading makes no attempts, and attempts are made in turn.
* `Dropped`, `losesHello_iff`: which connections are lost depends on the credentials alone.
* `open_alike`, `open_deep`: one attempt more for each connection that is lost.
* **`nests_iff`**: the calls of a session nest at most `n + 1` attempts just when at most `n` connections in
  a row are lost.
-/

namespace Dudlc

open Lib

variable {ρ : Type} {ev ev' : Handlers} {w u v : World} {r : ℤ} {n : ℕ}

/-- The handlers of the command line client, `cb_conn` and `cb_disc`. What `cb_disc` does when it is called
with `n` of its attempts under way is `deep`. -/
def cbDisc (deep : World → Option World) : ℕ → Handlers
  | 0 => ⟨some, deep⟩
  | n + 1 => (cbDisc deep n).again

/-- The call has at most `n` attempts of `cb_disc` under way at once: what a further one does makes no
difference. -/
def NestsAtMost (n : ℕ) (w : World) (c : Call ρ) : Prop :=
  ∀ deep deep', callStep (cbDisc deep n) w c = callStep (cbDisc deep' n) w c

theorem cbDisc_connect (deep : World → Option World) (n : ℕ) : (cbDisc deep n).connect = some := by
  induction n with
  | zero => rfl
  | succ n ih => exact ih

theorem cbDisc_hold (deep : World → Option World) (n : ℕ) : (cbDisc deep n).hold = .passive :=
  congrArg (fun connect => Handlers.mk connect some) (cbDisc_connect deep n)

theorem cbDisc_disconnect (deep : World → Option World) (n : ℕ) (w : World) :
    (cbDisc deep (n + 1)).disconnect w = (ducOpen (cbDisc deep n) w).map Prod.snd := rfl

/-! ## What reading and connecting keep -/

/-- The credentials and the attempts to come are the same. -/
structure Kept (w v : World) : Prop where
  user : v.user = w.user
  pass : v.pass = w.pass
  dials : v.dials = w.dials
  tidy : w.con.Tidy → v.con.Tidy

theorem Kept.refl (w : World) : Kept w w := ⟨rfl, rfl, rfl, id⟩

theorem Kept.trans (h : Kept w u) (h' : Kept u v) : Kept w v :=
  ⟨h'.user.trans h.user, h'.pass.trans h.pass, h'.dials.trans h.dials, h'.tidy ∘ h.tidy⟩

theorem Onward.kept (h : Onward w v) : Kept w v := ⟨h.user, h.pass, h.dials, h.tidy⟩

theorem kept_closed (w : World) : Kept w w.closed := ⟨rfl, rfl, rfl, disconnect_tidy⟩

theorem close_kept (h : ducClose .passive w = some v) : Kept w v := by
  rw [close_passive] at h
  exact Option.some.inj h ▸ kept_closed w

theorem kept_keeps : Handlers.passive.Keeps Kept where
  refl := Kept.refl
  trans := Kept.trans
  rnext h := by
    obtain ⟨v, hv, ⟨-, rfl, -⟩ | ⟨-, hc⟩⟩ := ducRnext_onward h
    · exact hv.kept
    · exact hv.kept.trans (close_kept hc)
  send {w cmd r v} h := by
    obtain ⟨q, w₁, hs, hor⟩ := vsendSend_cases h
    obtain ⟨ss, sent, rfl⟩ := send_eq hs
    rcases hor with ⟨-, -, rfl⟩ | ⟨-, -, hc⟩
    · exact ⟨rfl, rfl, rfl, id⟩
    · exact Kept.trans (u := { w.unreplied with sends := ss, sent }) ⟨rfl, rfl, rfl, id⟩ (close_kept hc)
  version _ _ _ := ⟨rfl, rfl, rfl, id⟩

theorem pollLoop_kept (h : pollLoop .passive w = some v) : Kept w v := by
  have hset : ∀ {u : World} {l con}, Kept w u → ducSockGetline u.con = some (l, con) →
      Kept w { u with con := con } := fun hu hg =>
    ⟨hu.user, hu.pass, hu.dials, fun ht => getline_tidy hg (hu.tidy ht)⟩
  refine pollLoop_rule (I := Kept w) (Q := Kept w) (Kept.refl w) ?_ ?_ ?_ ?_ h
  · intro u i t con hu hg _ _ _
    exact hset hu hg
  · intro u i t con hu hg _ _ _
    exact (hset hu hg).trans (onward_bcast _ t).kept
  · intro u con hu hg
    exact hset hu hg
  · intro u i t con v hu hg _ _ hc
    exact (hset hu hg).trans (close_kept hc)

/-- The credentials are the same, and attempts may have been made. -/
structure Carries (w v : World) : Prop where
  user : v.user = w.user
  pass : v.pass = w.pass
  dials : v.dials <:+ w.dials
  tidy : w.con.Tidy → v.con.Tidy

theorem Kept.carries (h : Kept w v) : Carries w v := ⟨h.user, h.pass, h.dials ▸ List.suffix_refl _, h.tidy⟩

theorem Carries.trans (h : Carries w u) (h' : Carries u v) : Carries w v :=
  ⟨h'.user.trans h.user, h'.pass.trans h.pass, h'.dials.trans h.dials, h'.tidy ∘ h.tidy⟩

theorem connect_dials (hfd : w.con.fd = -1) (h : ducSockConnect w = (r, v)) : v.dials = w.dials.tail := by
  unfold ducSockConnect at h
  rw [if_neg (not_not.2 hfd)] at h
  rcases hd : w.dials with _ | ⟨_ | _ | ⟨fd, rs, ss⟩, ds⟩ <;> simp only [hd] at h <;>
    obtain ⟨-, rfl⟩ := Prod.mk.inj h
  · exact hd
  all_goals rfl

theorem connect_carries (hfd : w.con.fd = -1) (h : ducSockConnect w = (r, v)) : Carries w v := by
  have hdials : v.dials <:+ w.dials := connect_dials hfd h ▸ List.tail_suffix _
  rcases connect_cases hfd h with ⟨-, ds, rfl | rfl⟩ | ⟨-, fd, rs, ss, ds, -, rfl⟩
  all_goals exact ⟨rfl, rfl, hdials, fun ht => connect_tidy hfd ht h⟩

/-! ## Lost connections -/

/-- Handlers that never return when the connection is closed. -/
def Handlers.mute : Handlers := ⟨some, fun _ => none⟩

theorem Handlers.steady_mute : Handlers.mute.Steady := fun _ _ => .none

theorem losesHello_mute (ht : w.con.Tidy) (hfd : w.con.fd = -1) (hc : ducSockConnect w = (0, u)) :
    LosesHello w ↔ (helloBody .passive stayOpen u).isSome ∧ helloBody .mute stayOpen u = none := by
  have hopen := connect_open hfd hc
  have hloses : LosesHello w ↔ ∃ v, helloBody .passive stayOpen u = some (false, v) ∧ v.con.fd = -1 := by
    constructor
    · rintro ⟨-, u', v, hc', hello, hv⟩
      obtain ⟨-, rfl⟩ := Prod.mk.inj (hc.symm.trans hc')
      exact ⟨v, hello, hv⟩
    · rintro ⟨v, hello, hv⟩
      exact ⟨hfd, u, v, hc, hello, hv⟩
  rw [hloses]
  rcases hello_relays .mute hopen (connect_tidy hfd ht hc) with ⟨heq, hx⟩ | ⟨_, v, rfl, htv, hx, hy⟩
  · refine iff_of_false ?_ ?_
    · rintro ⟨v, hello, hv⟩
      exact hopen ((hx _ hello).1.symm.trans hv)
    · rintro ⟨hsome, hnone⟩
      have hpassive : helloBody .passive stayOpen u = none := heq.symm.trans hnone
      rw [hpassive] at hsome
      cases hsome
  · exact iff_of_true ⟨_, hx, disconnect_fd htv⟩ ⟨Option.isSome_of_eq_some hx, hy⟩

theorem losesHello_twin (h : SameAttempt w v) (hw : w.con.Tidy) (hv : v.con.Tidy) :
    LosesHello w ↔ LosesHello v := by
  have hnone : ∀ {α β : Type} {P : α → β → Prop} {x : Option α} {y : Option β}, Option.Rel P x y →
      (x.isSome ↔ y.isSome) ∧ (x = none ↔ y = none) := by
    rintro α β P x y (hxy | _) <;> simp
  rcases connect_twin h with ⟨w₁, v₁, hw₁, hv₁, htwin⟩ | ⟨w₁, v₁, hw₁, hv₁⟩
  · rw [losesHello_mute hw h.closed.1 hw₁, losesHello_mute hv h.closed.2 hv₁]
    exact and_congr (hnone (hello_twin Handlers.returns_passive.steady htwin)).1
      (hnone (hello_twin Handlers.steady_mute htwin)).2
  · refine iff_of_false ?_ ?_
    · rintro ⟨-, _, _, hc, -⟩
      cases hw₁.symm.trans hc
    · rintro ⟨-, _, _, hc, -⟩
      cases hv₁.symm.trans hc

/-- With these credentials the connection is lost before the login is done. -/
def Dropped (user pass : Option Cstr) (d : Dial) : Prop := LosesHello { newWorld [d] with user, pass }

/-- **Whether the next connection is lost** depends on it and on the credentials. -/
theorem losesHello_iff (ht : w.Tidy) (hfd : w.con.fd = -1) :
    LosesHello w ↔ ∃ d ds, w.dials = d :: ds ∧ Dropped w.user w.pass d := by
  rcases hd : w.dials with _ | ⟨d, ds⟩
  · refine iff_of_false ?_ (by simp)
    rintro ⟨-, _, _, hc, -⟩
    simp [ducSockConnect, hfd, hd] at hc
  · have hsame : SameAttempt w { newWorld [d] with user := w.user, pass := w.pass } := by
      obtain ⟨hin, hcode, hline⟩ := ht.closed hfd
      exact ⟨⟨hfd, rfl⟩, ⟨ht.con.empty hfd, rfl, rfl⟩, rfl, rfl, hin, hcode, hline, by rw [hd]; rfl⟩
    rw [losesHello_twin hsame ht.con (newWorld_tidy [d]).con]
    exact ⟨fun h => ⟨d, ds, rfl, h⟩, by rintro ⟨_, _, ⟨⟩, h⟩; exact h⟩

/-! ## Nested attempts -/

theorem hello_kept {ok : Bool} (h : helloBody .passive stayOpen w = some (ok, v)) : Kept w v := by
  have hv := kept_keeps.hello h
  exact ⟨hv.user, hv.pass, hv.dials, hv.tidy⟩

theorem closed_tidy (ht : u.con.Tidy) : u.closed.Tidy := ⟨disconnect_tidy ht, fun _ => ⟨rfl, rfl, rfl⟩⟩

/-- `duc_open` gives up, and closes what the handler leaves. -/
def gaveUp (w : World) : ℤ × World := (-1, { w with con := ducSockDisconnect w.con })

/-- **`duc_open`** does not need the handler, or calls it for the connection that it has lost and then gives
up. -/
theorem open_split (ht : w.con.Tidy) :
    (¬ LosesHello w ∧ ∀ ev : Handlers, ev.hold = .passive → ducOpen ev w = ducOpen .passive w) ∨
      (LosesHello w ∧ ∃ u : World, u.Tidy ∧ u.con.fd = -1 ∧ (u.user = w.user ∧ u.pass = w.pass ∧
        u.dials = w.dials.tail) ∧
        ∀ ev : Handlers, ev.hold = .passive → ducOpen ev w = (ev.disconnect u).map gaveUp) := by
  by_cases hfd : w.con.fd = -1
  swap
  · exact Or.inl ⟨fun h => hfd h.1, fun ev _ => by rw [ducOpen, ducOpen, openBody, openBody, if_pos hfd, if_pos hfd]⟩
  have hopen : ∀ ev, ducOpen ev w = openBody ev stayOpen w := fun _ => rfl
  simp only [hopen, openBody, if_neg (not_not.2 hfd)]
  rcases hc : ducSockConnect w with ⟨q, w₁⟩
  by_cases hq : q = 0
  swap
  · refine Or.inl ⟨?_, fun ev _ => by simp only [if_pos hq]⟩
    rintro ⟨-, _, _, hc', -⟩
    exact hq (Prod.mk.inj (hc.symm.trans hc')).1
  subst hq
  have hw₁ := connect_open hfd hc
  have ht₁ := connect_tidy hfd ht hc
  simp only [ne_eq, not_true_eq_false, if_false]
  by_cases hl : LosesHello w
  · obtain ⟨-, w₁', v, hc', hello, hv⟩ := id hl
    obtain ⟨-, rfl⟩ := Prod.mk.inj (hc.symm.trans hc')
    have hlost : ∀ ev : Handlers, ev.hold = .passive →
        helloBody ev stayOpen w₁ = (ev.disconnect v).map (Prod.mk false) ∧ ∃ u : World, u.con.Tidy ∧ v = u.closed := by
      intro ev hev
      have hr := hello_relays ev hw₁ ht₁
      rw [hev] at hr
      rcases hr with ⟨-, hx⟩ | ⟨_, u, rfl, htu, hx, hy⟩
      · exact absurd ((hx _ hello).1.symm.trans hv) hw₁
      · obtain ⟨-, rfl⟩ := Prod.mk.inj (Option.some.inj (hello.symm.trans hx))
        exact ⟨hy, u, htu, rfl⟩
    obtain ⟨u, htu, rfl⟩ := (hlost .passive rfl).2
    have hkept := hello_kept hello
    have hcarry := connect_carries hfd hc
    refine Or.inr ⟨hl, u.closed, closed_tidy htu, hv, ⟨hkept.user.trans hcarry.user,
      hkept.pass.trans hcarry.pass, hkept.dials.trans (connect_dials hfd hc)⟩, fun ev hev => ?_⟩
    rw [(hlost ev hev).1]
    cases ev.disconnect u.closed <;> rfl
  · refine Or.inl ⟨hl, fun ev hev => ?_⟩
    have hr := hello_relays ev hw₁ ht₁
    have hconnect : ev.connect = some := congrArg Handlers.connect hev
    rw [hev] at hr
    rcases hr with ⟨heq, -⟩ | ⟨_, u, rfl, htu, hx, -⟩
    · rw [heq, hconnect]
      rfl
    · exact absurd ⟨hfd, w₁, _, hc, hx, disconnect_fd htu⟩ hl

theorem carries_keeps : Handlers.passive.Keeps Carries where
  refl w := (Kept.refl w).carries
  trans := Carries.trans
  rnext h := (kept_keeps.rnext h).carries
  send h := (kept_keeps.send h).carries
  version w major minor := (kept_keeps.version w major minor).carries

theorem gaveUp_carries (w : World) : Carries w (gaveUp w).2 := ⟨rfl, rfl, List.suffix_refl _, disconnect_tidy⟩

theorem passive_open_carries (h : ducOpen .passive w = some (r, v)) : Carries w v := by
  rcases ducOpen_cases h with ⟨-, -, rfl⟩ | ⟨q, w₁, hfd, hc, hor⟩
  · exact (Kept.refl v).carries
  have hw₁ := connect_carries hfd hc
  rcases hor with ⟨-, -, rfl⟩ | ⟨ok, w₂, -, hello, hor⟩
  · exact hw₁
  have hw₂ := hw₁.trans (hello_kept hello).carries
  rcases hor with ⟨-, -, hconnect⟩ | ⟨-, -, rfl⟩
  · exact Option.some.inj hconnect ▸ ⟨hw₂.user, hw₂.pass, hw₂.dials, hw₂.tidy⟩
  · exact hw₂.trans (gaveUp_carries w₂)

theorem open_carries (ht : w.con.Tidy) (h : ducOpen (cbDisc some n) w = some (r, v)) : Carries w v := by
  induction n generalizing w r v with
  | zero => exact passive_open_carries h
  | succ n ih =>
    rcases open_split ht with ⟨-, hsame⟩ | ⟨-, u, htu, -, ⟨huser, hpass, hdials⟩, hlost⟩
    · rw [hsame _ (cbDisc_hold some (n + 1))] at h
      exact passive_open_carries h
    · rw [hlost _ (cbDisc_hold some (n + 1)), cbDisc_disconnect, Option.map_map] at h
      obtain ⟨⟨q, v'⟩, ho, h⟩ := Option.map_eq_some_iff.1 h
      obtain ⟨-, rfl⟩ := Prod.mk.inj h
      have hu : Carries w u := ⟨huser, hpass, hdials ▸ List.tail_suffix _, fun _ => htu.con⟩
      exact (hu.trans (ih htu.con ho)).trans (gaveUp_carries v')

/-- **One nested attempt more for each lost connection.** With at most `n` lost connections next, it does not
matter what the handler does when `n` more attempts are under way. -/
theorem open_alike (deep deep' : World → Option World) (ht : w.Tidy) (hfd : w.con.fd = -1)
    (hls : ∀ ls, ls <+: w.dials → (∀ d ∈ ls, Dropped w.user w.pass d) → ls.length ≤ n) :
    ducOpen (cbDisc deep n) w = ducOpen (cbDisc deep' n) w := by
  induction n generalizing w with
  | zero =>
    rcases open_split ht.con with ⟨-, hsame⟩ | ⟨hloses, -⟩
    · rw [hsame _ (cbDisc_hold deep 0), hsame _ (cbDisc_hold deep' 0)]
    · obtain ⟨d, ds, hd, hlost⟩ := (losesHello_iff ht hfd).1 hloses
      have h0 := hls [d] (hd ▸ List.prefix_append [d] ds) (List.forall_mem_singleton.2 hlost)
      exact absurd h0 (Nat.not_succ_le_zero 0)
  | succ n ih =>
    rcases open_split ht.con with ⟨-, hsame⟩ | ⟨hloses, u, htu, hu, ⟨huser, hpass, hdials⟩, hev⟩
    · rw [hsame _ (cbDisc_hold deep _), hsame _ (cbDisc_hold deep' _)]
    obtain ⟨d, ds, hd, hlost⟩ := (losesHello_iff ht hfd).1 hloses
    rw [hev _ (cbDisc_hold deep _), hev _ (cbDisc_hold deep' _), cbDisc_disconnect, cbDisc_disconnect]
    have hnext : ducOpen (cbDisc deep n) u = ducOpen (cbDisc deep' n) u := by
      refine ih htu hu fun ls hpre hall => ?_
      rw [hdials, hd] at hpre
      rw [huser, hpass] at hall
      exact Nat.le_of_succ_le_succ (hls (d :: ls) (hd ▸ List.cons_prefix_cons.2 ⟨rfl, hpre⟩)
        (List.forall_mem_cons.2 ⟨hlost, hall⟩))
    rw [hnext]

theorem open_lost {d : Dial} {ls : List Dial} (ht : w.Tidy) (hfd : w.con.fd = -1) (hpre : d :: ls <+: w.dials)
    (hlost : Dropped w.user w.pass d) : ∃ u : World, u.Tidy ∧ u.con.fd = -1 ∧ (u.user = w.user ∧ u.pass = w.pass ∧
      ls <+: u.dials) ∧ ∀ ev : Handlers, ev.hold = .passive → ducOpen ev w = (ev.disconnect u).map gaveUp := by
  obtain ⟨ds, hd, hpre⟩ := List.cons_prefix_iff.1 hpre
  rcases open_split ht.con with ⟨hno, -⟩ | ⟨-, u, htu, hu, ⟨huser, hpass, hdials⟩, hev⟩
  · exact absurd ((losesHello_iff ht hfd).2 ⟨d, ds, hd, hlost⟩) hno
  · rw [hd, List.tail_cons] at hdials
    exact ⟨u, htu, hu, ⟨huser, hpass, hdials ▸ hpre⟩, hev⟩

theorem open_deep {ls : List Dial} (ht : w.Tidy) (hfd : w.con.fd = -1) (hpre : ls <+: w.dials)
    (hall : ∀ d ∈ ls, Dropped w.user w.pass d) (hlen : ls.length = n + 1) :
    ducOpen (cbDisc (fun _ => none) n) w = none ∧ ∃ p, ducOpen (cbDisc some n) w = some p := by
  induction n generalizing w ls with
  | zero =>
    obtain ⟨d, rfl⟩ := List.length_eq_one_iff.1 hlen
    obtain ⟨u, -, -, -, hev⟩ := open_lost ht hfd hpre (hall d (List.mem_singleton_self d))
    rw [hev _ (cbDisc_hold _ 0), hev _ (cbDisc_hold _ 0)]
    exact ⟨rfl, _, rfl⟩
  | succ n ih =>
    obtain ⟨d, ls, rfl⟩ := List.exists_cons_of_length_eq_add_one hlen
    obtain ⟨hlost, hall⟩ := List.forall_mem_cons.1 hall
    obtain ⟨u, htu, hu, ⟨huser, hpass, hdials⟩, hev⟩ := open_lost ht hfd hpre hlost
    rw [← huser, ← hpass] at hall
    obtain ⟨hnone, p, hsome⟩ := ih htu hu hdials hall (Nat.succ.inj hlen)
    rw [hev _ (cbDisc_hold _ _), hev _ (cbDisc_hold _ _), cbDisc_disconnect, cbDisc_disconnect, hnone, hsome]
    exact ⟨rfl, _, rfl⟩

/-! ## Calls -/

/-- At most `n` connections in a row are lost. -/
def DroppedAtMost (n : ℕ) (user pass : Option Cstr) (ds : List Dial) : Prop :=
  ∀ ls, ls <:+: ds → (∀ d ∈ ls, Dropped user pass d) → ls.length ≤ n

/-- At most `n` of the connections to come in a row are lost. -/
def Calm (n : ℕ) (w : World) : Prop := DroppedAtMost n w.user w.pass w.dials

theorem Carries.calm (h : Carries w v) (hw : Calm n w) : Calm n v := by
  intro ls hls hall
  rw [h.user, h.pass] at hall
  exact hw ls (hls.trans h.dials.isInfix) hall

theorem handler_alike (deep deep' : World → Option World) (ht : u.Tidy) (hfd : u.con.fd = -1) (hu : Calm n u) :
    (cbDisc deep (n + 1)).disconnect u = (cbDisc deep' (n + 1)).disconnect u := by
  rw [cbDisc_disconnect, cbDisc_disconnect, open_alike deep deep' ht hfd fun ls hls => hu ls hls.isInfix]

theorem close_alike (deep deep' : World → Option World) (ht : w.con.Tidy) (hw : Calm n w) :
    ducClose (cbDisc deep (n + 1)) w = ducClose (cbDisc deep' (n + 1)) w :=
  handler_alike deep deep' (closed_tidy ht) (disconnect_fd ht) ((kept_closed w).carries.calm hw)

theorem ducOpen_alike (deep deep' : World → Option World) (ht : w.con.Tidy) (hw : Calm n w) :
    ducOpen (cbDisc deep (n + 1)) w = ducOpen (cbDisc deep' (n + 1)) w := by
  rcases open_split ht with ⟨-, hsame⟩ | ⟨-, u, htu, hu, ⟨huser, hpass, hdials⟩, hev⟩
  · rw [hsame _ (cbDisc_hold _ _), hsame _ (cbDisc_hold _ _)]
  · have hcarry : Carries w u := ⟨huser, hpass, hdials ▸ List.tail_suffix _, fun _ => htu.con⟩
    rw [hev _ (cbDisc_hold _ _), hev _ (cbDisc_hold _ _), handler_alike deep deep' htu hu (hcarry.calm hw)]

theorem open_success (ht : w.con.Tidy) (hev : ev.hold = .passive) (h : ducOpen ev w = some (0, v)) :
    ducOpen .passive w = some (0, v) ∧ v.con.fd ≠ -1 := by
  rcases open_split ht with ⟨-, hsame⟩ | ⟨-, u, -, -, -, hlost⟩
  · rw [hsame ev hev] at h
    refine ⟨h, ?_⟩
    rcases open_outcome ht h with ⟨-, h0, -⟩ | ⟨-, ⟨-, hfd, rfl⟩ | ⟨-, hm⟩ | ⟨h0, -⟩⟩
    · exact absurd rfl h0
    · exact hfd
    · exact hm.fd
    · exact absurd rfl h0
  · rw [hlost ev hev] at h
    obtain ⟨v', -, h⟩ := Option.map_eq_some_iff.1 h
    cases (Prod.mk.inj h).1

theorem runCmd_unsent {c : Cmd ρ}
    (h : vsendBody ev (ducOpen ev) w c.fmt c.args = vsendBody ev' (ducOpen ev') w c.fmt c.args)
    (hno : ∀ v, vsendBody ev (ducOpen ev) w c.fmt c.args ≠ some (0, v)) : runCmd ev w c = runCmd ev' w c := by
  obtain ⟨helper, fmt, args⟩ := c
  have hcmd : ∀ {α : Type} (fail : α) (done : World → Option α),
      cmdBody ev (ducOpen ev) fail done w fmt args = cmdBody ev' (ducOpen ev') fail done w fmt args := by
    intro α fail done
    unfold cmdBody
    rw [← h]
    rcases hv : vsendBody ev (ducOpen ev) w fmt args with _ | ⟨r, v⟩
    · rfl
    · have hr : r ≠ 0 := fun h0 => hno v (h0 ▸ hv)
      simp only [Option.bind_eq_bind, Option.bind_some, if_pos hr]
  cases helper with
  | it f =>
    have hit : ducItNewv ev f w fmt args = ducItNewv ev' f w fmt args := by
      unfold ducItNewv ducVsend
      rw [← h]
      rcases hv : vsendBody ev (ducOpen ev) w fmt args with _ | ⟨r, v⟩
      · rfl
      · have hr : r ≠ 0 := fun h0 => hno v (h0 ▸ hv)
        simp only [Option.bind_eq_bind, Option.bind_some, if_pos hr]
    simp only [runCmd, hit]
  | _ => simp only [runCmd, ducCmd, ducCmdSucc, ducCmdString, ducCmdInt, ducCmdConv, hcmd]

theorem callCmd_alike (deep deep' : World → Option World) {c : Cmd ρ} (ht : w.con.Tidy) (hw : Calm n w) :
    callStep (cbDisc deep (n + 1)) w (.cmd c) = callStep (cbDisc deep' (n + 1)) w (.cmd c) := by
  have hunsent : ∀ {x : Option (ℤ × World)}, (∀ v, x ≠ some (0, v)) →
      (∀ deep, vsendBody (cbDisc deep (n + 1)) (ducOpen (cbDisc deep (n + 1))) w c.fmt c.args = x) →
      callStep (cbDisc deep (n + 1)) w (.cmd c) = callStep (cbDisc deep' (n + 1)) w (.cmd c) := by
    intro x hx hv
    rw [callStep, callStep, runCmd_unsent ((hv deep).trans (hv deep').symm) fun v => hv deep ▸ hx v]
  cases hin : w.inreply with
  | true => exact hunsent (x := some (-1, w)) (by simp) fun deep => by rw [vsendBody, if_pos hin]
  | false =>
    have ho : ∀ deep'', ducOpen (cbDisc deep'' (n + 1)) w = ducOpen (cbDisc deep (n + 1)) w :=
      fun deep'' => ducOpen_alike deep'' deep ht hw
    rcases hopen : ducOpen (cbDisc deep (n + 1)) w with _ | ⟨r, w₁⟩
    · exact hunsent (x := none) (by simp) fun deep'' => by simp [vsendBody, hin, ho, hopen]
    by_cases hr : r = 0
    swap
    · exact hunsent (x := some (-1, w₁)) (by simp) fun deep'' => by simp [vsendBody, hin, ho, hopen, hr]
    subst hr
    obtain ⟨hpassive, hfd⟩ := open_success ht (cbDisc_hold deep (n + 1)) hopen
    have hw₁ := passive_open_carries hpassive
    have hrelays : ∀ deep'', Relays (cbDisc deep'' (n + 1)) w₁.con.fd id (fun k => k = id)
        (callStep .passive w (.cmd c)) (callStep (cbDisc deep'' (n + 1)) w (.cmd c)) := by
      intro deep''
      have h := callStep_relays (cbDisc deep'' (n + 1)) c (vsend_relays_opened hin
        (by rw [cbDisc_hold]; exact hpassive) ((ho deep'').trans hopen) (hw₁.tidy ht))
      rwa [cbDisc_hold] at h
    refine (hrelays deep).alike (hrelays deep') (fun _ => rfl) hfd fun u htu hu => ?_
    obtain ⟨⟨res, u'⟩, hrun, hclosed⟩ := Option.map_eq_some_iff.1 hu
    have hcarry := carries_keeps.runCmd (fun q v _ ho => passive_open_carries ho) hrun
    rw [show u' = u.closed from hclosed] at hcarry
    exact handler_alike deep deep' (closed_tidy htu) (disconnect_fd htu) (hcarry.calm hw)

theorem pollLoop_alike (deep deep' : World → Option World) (ht : w.con.Tidy) (hw : Calm n w) :
    pollLoop (cbDisc deep (n + 1)) w = pollLoop (cbDisc deep' (n + 1)) w := by
  by_cases hfd : w.con.fd = -1
  · rw [pollLoop_closed ht hfd, pollLoop_closed ht hfd]
  have hrelays : ∀ deep, Relays (cbDisc deep (n + 1)) w.con.fd id (fun k => k = id) (pollLoop .passive w)
      (pollLoop (cbDisc deep (n + 1)) w) := by
    intro deep
    have h := pollLoop_relays (cbDisc deep (n + 1)) ht
    rwa [cbDisc_hold] at h
  refine (hrelays deep).alike (hrelays deep') (fun _ => rfl) hfd fun u htu hu => ?_
  exact handler_alike deep deep' (closed_tidy htu) (disconnect_fd htu) ((pollLoop_kept hu).carries.calm hw)

theorem ducPoll_alike (deep deep' : World → Option World) (ht : w.con.Tidy) (hw : Calm n w) :
    ducPoll (cbDisc deep (n + 1)) w = ducPoll (cbDisc deep' (n + 1)) w := by
  unfold ducPoll
  rw [ducOpen_alike deep deep' ht hw]
  refine Option.bind_congr ?_
  rintro ⟨r, w₁⟩ ho
  have hw₁ : Carries w w₁ := open_carries ht ((ducOpen_alike deep' some ht hw).symm.trans ho)
  dsimp only
  split_ifs
  · rfl
  refine Option.bind_congr ?_
  rintro ⟨q, w₂⟩ hr
  obtain ⟨-, ⟨huser, hpass, -⟩, ⟨hdials, -⟩, htidy, -⟩ := recv_cases hr
  have hw₂ : Carries w w₂ := hw₁.trans ⟨huser, hpass, hdials ▸ List.suffix_refl _, htidy⟩
  dsimp only
  split_ifs
  · rw [close_alike deep deep' (hw₂.tidy ht) (hw₂.calm hw)]
    refine Option.bind_congr ?_
    intro v hc
    have hclosed : Carries w w₂.closed := hw₂.trans (kept_closed w₂).carries
    have hv : Carries w v := by
      rw [close_alike deep' some (hw₂.tidy ht) (hw₂.calm hw)] at hc
      obtain ⟨⟨r, u⟩, ho, rfl⟩ := Option.map_eq_some_iff.1 hc
      exact hclosed.trans (open_carries (hclosed.tidy ht) ho)
    exact pollLoop_alike deep deep' (hv.tidy ht) (hv.calm hw)
  · exact pollLoop_alike deep deep' (hw₂.tidy ht) (hw₂.calm hw)

theorem close_deep {ls : List Dial} (ht : w.con.Tidy) (hpre : ls <+: w.dials)
    (hall : ∀ d ∈ ls, Dropped w.user w.pass d) : ¬ NestsAtMost ls.length w (.close : Call ρ) := by
  intro h
  have hsame := h (fun _ => none) some
  rcases hn : ls.length with _ | n <;> rw [hn] at hsame
  · cases hsame
  obtain ⟨hnone, p, hsome⟩ := open_deep (closed_tidy ht) (disconnect_fd ht) hpre hall hn
  change (ducOpen _ w.closed).map Prod.snd = (ducOpen _ w.closed).map Prod.snd at hsame
  rw [hnone, hsome] at hsame
  cases hsame

/-- **How deep reconnecting nests.** For a session with these credentials, on a network whose connection
attempts lead to `ds`: all its calls, in all states, have at most `n + 1` attempts of `cb_disc` under way at
once just when at most `n` connections in a row are lost before the login is done. -/
theorem nests_iff (n : ℕ) (user pass : Option Cstr) (ds : List Dial) :
    (∀ (w : World) (c : Call ρ), w.con.Tidy → w.user = user → w.pass = pass → w.dials <:+ ds →
      NestsAtMost (n + 1) w c) ↔ DroppedAtMost n user pass ds := by
  constructor
  · rintro h ls ⟨pre, post, rfl⟩ hall
    by_contra hlen
    have hn : (ls.take (n + 1)).length = n + 1 := by
      rw [List.length_take]
      omega
    have hdeep := close_deep (ρ := ρ) (w := { newWorld (ls ++ post) with user, pass }) (newWorld_tidy []).con
      ((List.take_prefix (n + 1) ls).trans (List.prefix_append _ _)) fun d hd => hall d (List.mem_of_mem_take hd)
    rw [hn] at hdeep
    exact hdeep (h _ _ (newWorld_tidy []).con rfl rfl ⟨pre, (List.append_assoc _ _ _).symm⟩)
  · rintro h w c ht rfl rfl hds deep deep'
    have hw : Calm n w := fun ls hls => h ls (hls.trans hds.isInfix)
    cases c with
    | «open» =>
      rw [callStep, callStep, ducOpen_alike deep deep' ht hw]
    | close => exact close_alike deep deep' ht hw
    | poll => exact ducPoll_alike deep deep' ht hw
    | setauth user pass => rfl
    | cmd c => exact callCmd_alike deep deep' ht hw

/-- **No bound holds for all servers.** On a server that accepts and drops every new connection, `duc_close`
nests one attempt more for each of them. -/
theorem not_nests : ¬ ∃ n, ∀ ds, NestsAtMost n (newWorld ds) (.close : Call Unit) := by
  rintro ⟨n, h⟩
  have hlost : Dropped none none (.made 3 [] []) := by
    refine (losesHello_mute (newWorld_tidy _).con rfl rfl).2 ?_
    decide +kernel
  have hdeep := close_deep (ρ := Unit) (newWorld_tidy []).con (List.prefix_refl (List.replicate n (Dial.made 3 [] [])))
    (w := newWorld (List.replicate n (Dial.made 3 [] []))) fun d hd => List.eq_of_mem_replicate hd ▸ hlost
  rw [List.length_replicate] at hdeep
  exact hdeep (h _)

end Dudlc
