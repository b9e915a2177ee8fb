import Dudlc.Commands

/-!
# Walks over id lists

`idl_iterate` walks over a list with the cursor that is in the list. Two walks can be nested, and the
inner list is walked again for every id of the outer one.

* `TIdlist`, `idlCur`, `idlBegin`, `idlNext`, `idlIterateAt`: lists with cursors, in a memory.
* **`idlIterateAt_eq`**: the walk with the cursor is `idlIterate`.
* `forEach`, `idlIterate_eq`: the ids that are walked over.
* `tracktagAt`: `c_tracktagadd` and `c_tracktagdel` with the cursors of their lists.
* **`tagging_covers`**: the requests are those of all pairs, or up to the one that loses the connection.
-/

namespace Dudlc

open Lib

/-! ## Lists with cursors -/

/-- `t_idlist` -/
structure TIdlist where
  ids : List ℤ
  cur : ℕ
  deriving DecidableEq

/-- `idl_cur` -/
def idlCur (idl : TIdlist) : ℤ := idl.ids.getD idl.cur (-1)

/-- `idl_begin`, up to the call of `idl_cur`. -/
def idlBegin (idl : TIdlist) : TIdlist := { idl with cur := 0 }

/-- `idl_next`, up to the call of `idl_cur`. -/
def idlNext (idl : TIdlist) : TIdlist := { idl with cur := idl.cur + 1 }

section Memory

variable {ι : Type} [DecidableEq ι]

/-- The lists that pointers point to. -/
abbrev Lists (ι : Type) := ι → TIdlist

/-- A change of the list at `p`. -/
def Lists.modify (m : Lists ι) (p : ι) (f : TIdlist → TIdlist) : Lists ι := Function.update m p (f (m p))

@[simp] theorem Lists.modify_same (m : Lists ι) (p : ι) (f : TIdlist → TIdlist) : m.modify p f p = f (m p) :=
  Function.update_self ..

@[simp] theorem Lists.modify_other (m : Lists ι) {p q : ι} (h : q ≠ p) (f : TIdlist → TIdlist) :
    m.modify p f q = m q := Function.update_of_ne h ..

/-- One round of the loop in `idl_iterate`. -/
def iterateBody (p : ι) (func : ℤ → Lists ι → Client (ℤ × Lists ι)) (m : Lists ι) :
    Client (Lists ι ⊕ ℤ × Lists ι) := do
  let id := idlCur (m p)
  if id < 0 then return .inr (0, m)
  let (r, m) ← func id m
  if r = -1 then
    if (← Prog.ask .fd) < 0 then return .inr (-1, m)
    else return .inl (m.modify p idlNext)
  else return .inl (m.modify p idlNext)

/-- `idl_iterate` over the list at `p`. -/
def idlIterateAt (p : ι) (func : ℤ → Lists ι → Client (ℤ × Lists ι)) (m : Lists ι) : Client (ℤ × Lists ι) :=
  Prog.loop (iterateBody p func) ((m p).ids.length + 1) (m.modify p idlBegin)

/-- The function does as `f` says wherever `I` holds, keeps `I`, and leaves the list at `p` alone. -/
structure Does (p : ι) (I : Lists ι → Prop) (func : ℤ → Lists ι → Client (ℤ × Lists ι))
    (f : ℤ → Client ℤ) : Prop where
  fst : ∀ id m, I m → Prod.fst <$> func id m = f id
  keeps : ∀ id m, I m → (func id m).Always fun r => I r.2 ∧ r.2 p = m p
  cursor : ∀ m g, (∀ idl : TIdlist, (g idl).ids = idl.ids) → I m → I (m.modify p g)

variable {p : ι} {I : Lists ι → Prop} {func : ℤ → Lists ι → Client (ℤ × Lists ι)} {f : ℤ → Client ℤ}
  {m : Lists ι}

theorem idlCur_eq {idl : TIdlist} {ids pre : List ℤ} (h : idl.ids = pre ++ ids) (hc : idl.cur = pre.length) :
    idlCur idl = ids.headD (-1) := by
  rw [idlCur, h, hc, List.getD_eq_getElem?_getD, List.getElem?_append_right le_rfl, Nat.sub_self]
  cases ids <;> rfl

theorem iterate_ends {id : ℤ} (hid : id < 0) (hcur : idlCur (m p) = id) (n : ℕ) :
    Prog.loop (iterateBody p func) (n + 1) m = pure (0, m) := by
  have hbody : iterateBody p func m = pure (.inr (0, m)) := by
    simp only [iterateBody, hcur, if_pos hid]
  rw [Prog.loop, hbody]
  rfl

theorem iterate_next {id : ℤ} (hid : ¬ id < 0) (hcur : idlCur (m p) = id) (n : ℕ) :
    Prog.loop (iterateBody p func) (n + 1) m = func id m >>= fun r =>
      if r.1 = -1 then Prog.ask .fd >>= fun fd =>
        if fd < 0 then pure (-1, r.2) else Prog.loop (iterateBody p func) n (r.2.modify p idlNext)
      else Prog.loop (iterateBody p func) n (r.2.modify p idlNext) := by
  have hbody : iterateBody p func m = func id m >>= fun r =>
      if r.1 = -1 then Prog.ask .fd >>= fun fd =>
        if fd < 0 then pure (.inr (-1, r.2)) else pure (.inl (r.2.modify p idlNext))
      else pure (.inl (r.2.modify p idlNext)) := by
    simp only [iterateBody, hcur, if_neg hid]
  rw [Prog.loop, hbody, Prog.bind_assoc]
  congr 1
  funext r
  split_ifs
  · rw [Prog.bind_assoc]
    congr 1
    funext fd
    split_ifs <;> rfl
  · rfl

theorem iterate_loop (h : Does p I func f) (ids pre : List ℤ) {n : ℕ} (hn : ids.length < n) (hm : I m)
    (hids : (m p).ids = pre ++ ids) (hcur : (m p).cur = pre.length) :
    Prod.fst <$> Prog.loop (iterateBody p func) n m = idlIterate f ids ∧
      (Prog.loop (iterateBody p func) n m).Always fun r => I r.2 := by
  induction ids generalizing pre m n with
  | nil =>
    obtain ⟨n, rfl⟩ := Nat.exists_eq_add_of_le' (Nat.one_le_of_lt hn)
    have hend : idlCur (m p) = -1 := idlCur_eq hids hcur
    rw [iterate_ends (by decide) hend]
    exact ⟨rfl, hm⟩
  | cons id ids ih =>
    obtain ⟨n, rfl⟩ := Nat.exists_eq_add_of_le' (Nat.one_le_of_lt hn)
    have hid := idlCur_eq hids hcur
    by_cases hneg : id < 0
    · rw [iterate_ends hneg hid, idlIterate, if_pos hneg]
      exact ⟨rfl, hm⟩
    rw [iterate_next hneg hid, idlIterate, if_neg hneg]
    have hkeeps := h.keeps id m hm
    have hrest (r : ℤ × Lists ι) (hr : I r.2 ∧ r.2 p = m p) :=
      ih (pre ++ [id]) (m := r.2.modify p idlNext) (n := n) (by simpa using hn)
        (h.cursor _ _ (fun _ => rfl) hr.1) (by simp [idlNext, hr.2, hids]) (by simp [idlNext, hr.2, hcur])
    constructor
    · refine Prog.map_bind_fst (I := fun m' => I m' ∧ m' p = m p) (h.fst id m hm) hkeeps fun r hr => ?_
      split_ifs with hfail
      · rw [Prog.map_bind]
        congr 1
        funext fd
        split_ifs
        · rfl
        · exact (hrest r hr).1
      · exact (hrest r hr).1
    · refine Prog.Always.bind hkeeps fun r hr => ?_
      split_ifs with hfail
      · refine Prog.Always.bind (Prog.always_true _) fun fd _ => ?_
        split_ifs
        · exact hr.1
        · exact (hrest r hr).2
      · exact (hrest r hr).2

/-- **The walk with the cursor** calls the function for the same ids. -/
theorem idlIterateAt_eq (h : Does p I func f) (hm : I m) :
    Prod.fst <$> idlIterateAt p func m = idlIterate f (m p).ids ∧
      (idlIterateAt p func m).Always fun r => I r.2 :=
  iterate_loop h (m p).ids [] (Nat.lt_succ_self _) (h.cursor _ _ (fun _ => rfl) hm) (by simp [idlBegin])
    (by simp [idlBegin])

/-! ## Tagging -/

/-- `c_tracktagadd` and `c_tracktagdel`: the list of tags is walked over for every track. -/
def tracktagAt (req : ℤ → ℤ → Client ℤ) (tracks tags : ι) (m : Lists ι) : Client (ℤ × Lists ι) :=
  idlIterateAt tracks (fun id => idlIterateAt tags fun tag m => do return (← req id tag, m)) m

/-- `c_tracktagadd` -/
def tracktagaddAt (tracks tags : ι) (m : Lists ι) : Client (ℤ × Lists ι) :=
  tracktagAt ducCmdTracktagadd tracks tags m

/-- `c_tracktagdel` -/
def tracktagdelAt (tracks tags : ι) (m : Lists ι) : Client (ℤ × Lists ι) :=
  tracktagAt ducCmdTracktagdel tracks tags m

/-- **The cursors do not get into each other's way.** -/
theorem tracktagAt_eq (req : ℤ → ℤ → Client ℤ) {tracks tags : ι} (hne : tracks ≠ tags) (m : Lists ι) :
    Prod.fst <$> tracktagAt req tracks tags m =
      idlIterate (fun id => idlIterate (req id) (m tags).ids) (m tracks).ids := by
  have hinner (id : ℤ) (t : TIdlist) : Does tags (fun m' => m' tracks = t ∧ (m' tags).ids = (m tags).ids)
      (fun tag m => do return (← req id tag, m)) (req id) := by
    refine ⟨fun tag m' _ => ?_, fun tag m' hm' => ?_, fun m' g hg hm' => ?_⟩
    · rw [Prog.map_bind]
      exact Prog.bind_pure _
    · exact Prog.Always.bind (Prog.always_true _) fun r _ => ⟨hm', rfl⟩
    · exact ⟨by simp [hne, hm'.1], by simp [hg, hm'.2]⟩
  have houter : Does tracks (fun m' => (m' tags).ids = (m tags).ids)
      (fun id => idlIterateAt tags fun tag m => do return (← req id tag, m))
      fun id => idlIterate (req id) (m tags).ids := by
    refine ⟨fun id m' hm' => ?_, fun id m' hm' => ?_, fun m' g _ hm' => ?_⟩
    · rw [(idlIterateAt_eq (hinner id (m' tracks)) ⟨rfl, hm'⟩).1, hm']
    · exact (idlIterateAt_eq (hinner id (m' tracks)) ⟨rfl, hm'⟩).2.mono fun r hr => ⟨hr.2, hr.1⟩
    · simpa [hne.symm] using hm'
  exact (idlIterateAt_eq houter rfl).1

theorem tracktagaddAt_eq (addr : ArgVal → ℕ) {tracks tags : ι} (hne : tracks ≠ tags) (m : Lists ι) :
    Prod.fst <$> tracktagaddAt tracks tags m =
      cTracktagadd addr [.idl (m tracks).ids, .idl (m tags).ids] := tracktagAt_eq _ hne m

theorem tracktagdelAt_eq (addr : ArgVal → ℕ) {tracks tags : ι} (hne : tracks ≠ tags) (m : Lists ι) :
    Prod.fst <$> tracktagdelAt tracks tags m =
      cTracktagdel addr [.idl (m tracks).ids, .idl (m tags).ids] := tracktagAt_eq _ hne m

end Memory

/-! ## The ids that are walked over -/

/-- The function is called for every id, as long as the connection stays up. -/
def forEach (func : ℤ → Client ℤ) : List ℤ → Client ℤ
  | [] => return 0
  | id :: ids => do
    if (← func id) = -1 then
      if (← Prog.ask .fd) < 0 then return -1
      else forEach func ids
    else forEach func ids

/-- **The walk ends** at the first negative id. -/
theorem idlIterate_eq (func : ℤ → Client ℤ) (ids : List ℤ) :
    idlIterate func ids = forEach func (ids.takeWhile fun id => decide (0 ≤ id)) := by
  induction ids with
  | nil => rfl
  | cons id ids ih =>
    rw [idlIterate]
    by_cases hid : id < 0
    · rw [if_pos hid, List.takeWhile_cons_of_neg (by simpa using hid)]
      rfl
    · rw [if_neg hid, List.takeWhile_cons_of_pos (by simpa using hid), forEach, ih]

theorem idlIterate_nonneg (func : ℤ → Client ℤ) {ids : List ℤ} (h : ∀ id ∈ ids, 0 ≤ id) :
    idlIterate func ids = forEach func ids := by
  rw [idlIterate_eq, List.takeWhile_eq_self_iff.2 (by simpa using h)]

/-! ## Requests that are issued -/

section Requests

variable {σ : Type} {h : ∀ {β : Type}, Op β → σ → Option (β × σ)} {fd : σ → ℤ}

/-- A request that has been issued: whether it has failed, and the descriptor behind it. -/
structure Issued where
  request : Request
  failed : Bool
  fd : ℤ
  deriving DecidableEq

/-- The result -1 of a command helper. -/
def Result.failed {ρ : Type} : Result ρ → Bool
  | .num z => z = -1
  | _ => false

/-- Calls of command helpers are recorded. -/
def recording (h : ∀ {β : Type}, Op β → σ → Option (β × σ)) (fd : σ → ℤ) :
    ∀ {β : Type}, Op β → σ × List Issued → Option (β × σ × List Issued)
  | _, .cmd c, s => (h (.cmd c) s.1).map fun r => (r.1, r.2, s.2 ++ [⟨c.request, r.1.failed, fd r.2⟩])
  | _, e, s => (h e s.1).map fun r => (r.1, r.2, s.2)

/-- The calls `duc_fd` and `_duc_cmd_succ`: the descriptor of a state, and a number. -/
structure Answers (h : ∀ {β : Type}, Op β → σ → Option (β × σ)) (fd : σ → ℤ) : Prop where
  fd : ∀ s, h .fd s = some (fd s, s)
  succ : ∀ fmt args s r s', h (.cmd (⟨.succ, fmt, args⟩ : Cmd Unit)) s = some (r, s') → ∃ z, r = .num z

theorem answers_session (ev : Handlers) : Answers (World.op ev) fun w => w.con.fd where
  fd _ := rfl
  succ fmt args w r w' hr := by
    obtain ⟨⟨z, v⟩, -, heq⟩ := Option.map_eq_some_iff.1 hr
    obtain ⟨rfl, -⟩ := Prod.mk.inj heq
    exact ⟨z, rfl⟩

theorem served_recording {α : Type} {p : Client α} {s : σ} {log : List Issued} :
    p.Served (recording h fd) (s, log) ↔ p.Served h s := by
  induction p generalizing s log with
  | ret a => exact Iff.rfl
  | fault => exact Iff.rfl
  | call e k ih =>
    simp only [Prog.Served]
    cases e with
    | cmd c => simp [recording, ih]
    | fd => simp [recording, ih]
    | «open» => simp [recording, ih]
    | raw line => simp [recording, ih]

/-- All requests are issued, and the connection survives all failures. -/
def AllIssued (reqs : List Request) (log : List Issued) : Prop :=
  log.map Issued.request = reqs ∧ ∀ e ∈ log, e.failed → 0 ≤ e.fd

/-- The requests up to one that fails and leaves the session disconnected. -/
def CutShort (reqs : List Request) (log : List Issued) : Prop :=
  ∃ before e, log = before ++ [e] ∧ log.map Issued.request <+: reqs ∧
    (∀ e ∈ before, e.failed → 0 ≤ e.fd) ∧ e.failed ∧ e.fd < 0

theorem AllIssued.append {reqs reqs' : List Request} {log log' : List Issued} (h : AllIssued reqs log)
    (h' : AllIssued reqs' log') : AllIssued (reqs ++ reqs') (log ++ log') := by
  refine ⟨by rw [List.map_append, h.1, h'.1], fun e he => ?_⟩
  rcases List.mem_append.1 he with he | he
  · exact h.2 e he
  · exact h'.2 e he

theorem AllIssued.cut {reqs reqs' : List Request} {log log' : List Issued} (h : AllIssued reqs log)
    (h' : CutShort reqs' log') : CutShort (reqs ++ reqs') (log ++ log') := by
  obtain ⟨before, e, rfl, hpre, hbefore, he, hfd⟩ := h'
  refine ⟨log ++ before, e, (List.append_assoc ..).symm, ?_, fun x hx => ?_, he, hfd⟩
  · rw [List.map_append, h.1]
    exact (List.prefix_append_right_inj _).2 hpre
  · rcases List.mem_append.1 hx with hx | hx
    · exact h.2 x hx
    · exact hbefore x hx

theorem CutShort.mono {reqs : List Request} {log : List Issued} (h : CutShort reqs log)
    (reqs' : List Request) : CutShort (reqs ++ reqs') log := by
  obtain ⟨before, e, hlog, hpre, hrest⟩ := h
  exact ⟨before, e, hlog, hpre.trans (List.prefix_append ..), hrest⟩

/-- The program issues the requests: all of them, and -1 only if the connection is up; or up to one that
loses the connection, and then it returns -1. -/
def Issues (h : ∀ {β : Type}, Op β → σ → Option (β × σ)) (fd : σ → ℤ) (p : Client ℤ)
    (reqs : List Request) : Prop :=
  ∀ s log₀, p.Served h s → ∃ r s' log, p.run (recording h fd) (s, log₀) = some (r, s', log₀ ++ log) ∧
    (AllIssued reqs log ∧ (r = -1 → 0 ≤ fd s') ∨ CutShort reqs log ∧ r = -1 ∧ fd s' < 0)

theorem issues_succ (hh : Answers h fd) (fmt : Cstr) (args : List Arg) :
    Issues h fd (askSucc fmt args) [⟨fmt, args⟩] := by
  intro s log₀ hs
  obtain ⟨⟨r, s'⟩, hr⟩ := (Prog.served_ask ..).1 ((Prog.served_bind ..).1 hs).1
  obtain ⟨z, rfl⟩ := hh.succ _ _ _ _ _ hr
  have hrun : (askSucc fmt args).run (recording h fd) (s, log₀) =
      some (z, s', log₀ ++ [⟨⟨fmt, args⟩, decide (z = -1), fd s'⟩]) := by
    rw [askSucc, Prog.run_bind, Prog.run_ask, recording, hr]
    rfl
  refine ⟨z, s', _, hrun, ?_⟩
  by_cases hlost : z = -1 ∧ fd s' < 0
  · obtain ⟨rfl, hfd⟩ := hlost
    exact Or.inr ⟨⟨[], _, rfl, List.prefix_rfl, by simp, rfl, hfd⟩, rfl, hfd⟩
  · have hup : z = -1 → 0 ≤ fd s' := fun hz => not_lt.1 fun hfd => hlost ⟨hz, hfd⟩
    refine Or.inl ⟨⟨rfl, ?_⟩, hup⟩
    rw [List.forall_mem_singleton]
    exact fun hz => hup (of_decide_eq_true hz)

/-- **A walk** issues the requests of its ids. -/
theorem issues_forEach (hh : Answers h fd) {func : ℤ → Client ℤ} {reqs : ℤ → List Request}
    (hfunc : ∀ id, Issues h fd (func id) (reqs id)) (ids : List ℤ) (s : σ) (log₀ : List Issued)
    (hs : (forEach func ids).Served h s) : ∃ r s' log,
      (forEach func ids).run (recording h fd) (s, log₀) = some (r, s', log₀ ++ log) ∧
      (AllIssued (ids.flatMap reqs) log ∧ r = 0 ∨ CutShort (ids.flatMap reqs) log ∧ r = -1 ∧ fd s' < 0) := by
  induction ids generalizing s log₀ with
  | nil => exact ⟨0, s, [], by simp [forEach], Or.inl ⟨⟨rfl, by simp⟩, rfl⟩⟩
  | cons id ids ih =>
    rw [forEach] at hs ⊢
    obtain ⟨r, s', log, hrun, hlog⟩ := hfunc id s log₀ ((Prog.served_bind ..).1 hs).1
    have hserved : Prog.Served (recording h fd) (forEach func (id :: ids)) (s, log₀) := served_recording.2 hs
    have hrest := ((Prog.served_bind ..).1 hserved).2 _ hrun
    have hfd : recording h fd .fd (s', log₀ ++ log) = some (fd s', s', log₀ ++ log) := by
      change (h .fd s').map _ = _
      rw [hh.fd]
      rfl
    rw [Prog.run_bind, hrun, Option.bind_some]
    rw [List.flatMap_cons]
    dsimp only at hrest ⊢
    rcases hlog with ⟨hall, hup⟩ | ⟨hcut, rfl, hdown⟩
    · -- the walk goes on
      have hgo : (forEach func ids).Served h s' → ∃ r' s'' log',
          (forEach func ids).run (recording h fd) (s', log₀ ++ log) = some (r', s'', log₀ ++ log') ∧
          (AllIssued (reqs id ++ ids.flatMap reqs) log' ∧ r' = 0 ∨
            CutShort (reqs id ++ ids.flatMap reqs) log' ∧ r' = -1 ∧ fd s'' < 0) := by
        intro hs'
        obtain ⟨r', s'', log', hrun', hlog'⟩ := ih s' (log₀ ++ log) hs'
        refine ⟨r', s'', log ++ log', by rw [hrun', List.append_assoc], ?_⟩
        rcases hlog' with ⟨hall', rfl⟩ | ⟨hcut', rfl, hdown⟩
        · exact Or.inl ⟨hall.append hall', rfl⟩
        · exact Or.inr ⟨hall.cut hcut', rfl, hdown⟩
      by_cases hr : r = -1
      · rw [if_pos hr] at hrest ⊢
        have hserved := ((Prog.served_bind ..).1 hrest).2 _ ((Prog.run_ask ..).trans hfd)
        rw [Prog.run_bind, Prog.run_ask, hfd, Option.bind_some]
        dsimp only at hserved ⊢
        rw [if_neg (not_lt.2 (hup hr))] at hserved ⊢
        exact hgo (served_recording.1 hserved)
      · rw [if_neg hr] at hrest ⊢
        exact hgo (served_recording.1 hrest)
    · -- the connection is lost
      rw [if_pos rfl, Prog.run_bind, Prog.run_ask, hfd, Option.bind_some]
      dsimp only
      rw [if_pos hdown]
      exact ⟨-1, s', log, rfl, Or.inr ⟨hcut.mono _, rfl, hdown⟩⟩

/-- The request for a pair. -/
def pairRequest (fmt : Cstr) (t g : ℤ) : Request := ⟨fmt, [.int t, .int g]⟩

/-- The requests for all pairs, in the order of the tracks, and of the tags for each of them. -/
def pairRequests (fmt : Cstr) (tracks tags : List ℤ) : List Request :=
  tracks.flatMap fun t => tags.map (pairRequest fmt t)

theorem issues_tags (hh : Answers h fd) (fmt : Cstr) (t : ℤ) {tags : List ℤ} (htags : ∀ g ∈ tags, 0 ≤ g) :
    Issues h fd (idlIterate (fun g => askSucc fmt [.int t, .int g]) tags) (tags.map (pairRequest fmt t)) := by
  intro s log₀ hs
  rw [idlIterate_nonneg _ htags] at hs ⊢
  obtain ⟨r, s', log, hrun, hlog⟩ := issues_forEach hh (fun g => issues_succ hh fmt [.int t, .int g]) tags s
    log₀ hs
  refine ⟨r, s', log, hrun, ?_⟩
  have hmap : tags.map (pairRequest fmt t) = tags.flatMap fun g => [⟨fmt, [.int t, .int g]⟩] :=
    List.map_eq_flatMap
  rw [hmap]
  exact hlog.imp_left fun ⟨hall, hr⟩ => ⟨hall, fun h => by omega⟩

/-- The requests of `tracktagadd` and `tracktagdel`. -/
def tagFormats {ι : Type} [DecidableEq ι] : List (Cstr × (ι → ι → Lists ι → Client (ℤ × Lists ι))) :=
  [(.lit "tracktagadd %d %d", tracktagaddAt), (.lit "tracktagdel %d %d", tracktagdelAt)]

/-- **Tagging covers the product.** Let the lists of tracks and tags be two, with ids that are not
negative, and let the calls be answered, whatever fails. Then either the connection survives every
failure, the requests are those of all pairs, in order, and 0 is returned; or a failed request leaves the
session disconnected, the requests are those up to it, and -1 is returned. -/
theorem tagging_covers {ι : Type} [DecidableEq ι] (hh : Answers h fd) {tracks tags : ι} (hne : tracks ≠ tags)
    {m : Lists ι} (htracks : ∀ t ∈ (m tracks).ids, 0 ≤ t) (htags : ∀ g ∈ (m tags).ids, 0 ≤ g) {s : σ} :
    ∀ p ∈ tagFormats, (p.2 tracks tags m).Served h s → ∃ r m' s' log,
      (p.2 tracks tags m).run (recording h fd) (s, []) = some ((r, m'), s', log) ∧
      (AllIssued (pairRequests p.1 (m tracks).ids (m tags).ids) log ∧ r = 0 ∨
        CutShort (pairRequests p.1 (m tracks).ids (m tags).ids) log ∧ r = -1) := by
  have hgen (fmt : Cstr)
      (hs : (tracktagAt (fun t g => askSucc fmt [.int t, .int g]) tracks tags m).Served h s) :
      ∃ r m' s' log, (tracktagAt (fun t g => askSucc fmt [.int t, .int g]) tracks tags m).run
          (recording h fd) (s, []) = some ((r, m'), s', log) ∧
        (AllIssued (pairRequests fmt (m tracks).ids (m tags).ids) log ∧ r = 0 ∨
          CutShort (pairRequests fmt (m tracks).ids (m tags).ids) log ∧ r = -1) := by
    have heq := tracktagAt_eq (fun t g => askSucc fmt [.int t, .int g]) hne m
    rw [idlIterate_nonneg _ htracks] at heq
    have hs' := (Prog.served_map Prod.fst _ s).2 hs
    rw [heq] at hs'
    obtain ⟨r, s', log, hrun, hlog⟩ :=
      issues_forEach hh (fun t => issues_tags hh fmt t htags) (m tracks).ids s [] hs'
    rw [← heq, Prog.run_map] at hrun
    obtain ⟨⟨⟨r', m'⟩, t'⟩, hrun', heq'⟩ := Option.map_eq_some_iff.1 hrun
    obtain ⟨rfl, rfl⟩ := Prod.mk.inj heq'
    exact ⟨r', m', s', log, hrun', hlog.imp_right fun ⟨hcut, hr, _⟩ => ⟨hcut, hr⟩⟩
  rw [tagFormats, List.forall_mem_cons, List.forall_mem_singleton]
  exact ⟨hgen _, hgen _⟩

end Requests

/-- Two tracks and two tags: the second request is refused, and the connection is lost with the third. -/
theorem tagging_covers_lost : ∃ (m : Lists Bool) (w : World), ∃ r m' w' log,
    (tracktagaddAt true false m).run (recording (World.op .passive) fun w => w.con.fd) (w, []) =
      some ((r, m'), w', log) ∧ log.map Issued.failed = [false, true, true] ∧
      (AllIssued (pairRequests (.lit "tracktagadd %d %d") [1, 2] [3, 4]) log ∧ r = 0 ∨
        CutShort (pairRequests (.lit "tracktagadd %d %d") [1, 2] [3, 4]) log ∧ r = -1) := by
  let m : Lists Bool := fun b => bif b then ⟨[1, 2], 0⟩ else ⟨[3, 4], 0⟩
  let w : World :=
    idleWorld [some (Cstr.lit "250 ok\n").bytes, some (Cstr.lit "550 no\n").bytes, some []] []
  have hrun : ((tracktagaddAt true false m).run (recording (World.op .passive) fun w => w.con.fd) (w, [])).map
      (fun r => r.2.2.map Issued.failed) = some [false, true, true] := by decide +kernel
  obtain ⟨q, hq, hfailed⟩ := Option.map_eq_some_iff.1 hrun
  obtain ⟨r, m', w', log, hr, hlog⟩ := tagging_covers (answers_session .passive) (m := m) (s := w)
    (by decide : true ≠ false) (by decide) (by decide) _ List.mem_cons_self
    (served_recording.1 (Prog.served_of_run hq))
  obtain rfl := Option.some.inj (hq.symm.trans hr)
  exact ⟨m, w, r, m', w', log, hr, hfailed, hlog⟩

end Dudlc
