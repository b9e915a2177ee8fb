import Dudlc.Meaning

/-!
# The ids a command asks about

* `Request.ids`: the ids that a request names.
* `Asked`: the requests of a handler name the ids of its arguments, one combination after the other.
* `Balanced`, `named_iff_balanced`: no id is left out.
* `Sends`, `Asks`: programs that send one request, and programs whose requests name given ids; `asks_iterate`.
* `rows_ask`: the rows of the command table, except three of them; `values_asked_iff`.
* **`ids_asked_iff`**: a command asks about the ids that the texts of its arguments denote, unless it is `userget` or
  `userdel`.
-/

namespace Dudlc

open Lib

/-- The requests that name ids, with the number of ids; these are their first arguments. -/
def idFormats : List (Cstr × ℕ) :=
  [(.lit "clientclose %u", 1), (.lit "clientcloseuser %d", 1), (.lit "userget %d", 1),
    (.lit "usersetpass %d %s", 1), (.lit "usersetright %d %d", 1), (.lit "userdel %d", 1),
    (.lit "track2id %d %d", 1), (.lit "trackget %d", 1), (.lit "tracksalbum %d", 1),
    (.lit "tracksetname %d %s", 1), (.lit "tracksetartist %d %d", 2), (.lit "queueget %d", 1),
    (.lit "queueadd %d", 1), (.lit "queuedel %d", 1), (.lit "historytrack %d %d", 1),
    (.lit "tagget %d", 1), (.lit "tagsartist %d", 1), (.lit "tagsetname %d %s", 1),
    (.lit "tagsetdesc %d %s", 1), (.lit "tagdel %d", 1), (.lit "tracktaglist %d", 1),
    (.lit "tracktagadd %d %d", 2), (.lit "tracktagdel %d %d", 2), (.lit "albumget %d", 1),
    (.lit "albumsartist %d", 1), (.lit "albumstag %d", 1), (.lit "albumsetname %d %s", 1),
    (.lit "albumsetartist %d %d", 2), (.lit "albumsetyear %d %d", 1), (.lit "artistget %d", 1),
    (.lit "artiststag %d", 1), (.lit "artistsetname %d %s", 1), (.lit "artistmerge %d %d", 2),
    (.lit "artistdel %d", 1), (.lit "sfilterget %d", 1), (.lit "sfiltersetname %d %s", 1),
    (.lit "sfiltersetfilter %d %s", 1), (.lit "sfilterdel %d", 1)]

/-- The number in an argument of a request. -/
def argNum : Arg → Option ℤ
  | .int z => some z
  | _ => none

/-- The ids a request names. -/
def Request.ids (q : Request) : List ℤ :=
  (q.args.filterMap argNum).take ((idFormats.lookup q.fmt).getD 0)

/-- The command takes ids. -/
def TCmd.takesIds (cmd : TCmd) : Bool := cmd.args.any TCmdArg.isId

/-- The ids that the texts of the arguments denote. -/
def denoted (lib : Library) (args : List TCmdArg) (texts : List (List UInt8)) : List (List ℤ) :=
  (idTexts args texts).map fun q => q.1.ids lib q.2

/-- The combinations of an id of each list, in the order of the lists. -/
def tuples : List (List ℤ) → List (List ℤ)
  | [] => [[]]
  | l :: ls => l.flatMap fun x => (tuples ls).map (x :: ·)

/-- The requests name the ids `t` and no others. -/
def Names (g : List Request) (t : List ℤ) : Prop :=
  (∃ q ∈ g, q.ids = t) ∧ ∀ q ∈ g, q.ids = t ∨ q.ids = []

/-- The program returns, its requests name the combinations of the ids one after the other, and every id
is named by one of them. -/
def Asked (sv : Server) (p : Client ℤ) (sent : List Request) (lists : List (List ℤ)) : Prop :=
  ∃ r gs, p.run sv.op sent = some (r, sent ++ gs.flatten) ∧ List.Forall₂ Names gs (tuples lists) ∧
    ∀ l ∈ lists, ∀ x ∈ l, ∃ q ∈ gs.flatten, x ∈ q.ids

/-! ## Combinations -/

theorem tuples_nil_of_mem {lists : List (List ℤ)} (h : [] ∈ lists) : tuples lists = [] := by
  induction lists with
  | nil => cases h
  | cons l ls ih =>
    rcases List.mem_cons.1 h with rfl | h
    · rfl
    · simp [tuples, ih h]

theorem exists_mem_tuples {lists : List (List ℤ)} (h : ∀ l ∈ lists, l ≠ []) : ∃ t, t ∈ tuples lists := by
  induction lists with
  | nil => exact ⟨[], List.mem_singleton.2 rfl⟩
  | cons l ls ih =>
    obtain ⟨t, ht⟩ := ih fun m hm => h m (List.mem_cons_of_mem l hm)
    obtain ⟨x, hx⟩ := List.exists_mem_of_ne_nil l (h l List.mem_cons_self)
    exact ⟨x :: t, List.mem_flatMap.2 ⟨x, hx, List.mem_map.2 ⟨t, ht, rfl⟩⟩⟩

theorem mem_tuples {lists : List (List ℤ)} (h : ∀ l ∈ lists, l ≠ []) {l : List ℤ} (hl : l ∈ lists) {x : ℤ}
    (hx : x ∈ l) : ∃ t ∈ tuples lists, x ∈ t := by
  induction lists with
  | nil => cases hl
  | cons m ls ih =>
    have hls : ∀ l ∈ ls, l ≠ [] := fun k hk => h k (List.mem_cons_of_mem m hk)
    rcases List.mem_cons.1 hl with rfl | hl
    · obtain ⟨t, ht⟩ := exists_mem_tuples hls
      exact ⟨x :: t, List.mem_flatMap.2 ⟨x, hx, List.mem_map.2 ⟨t, ht, rfl⟩⟩, List.mem_cons_self⟩
    · obtain ⟨t, ht, hxt⟩ := ih hls hl
      obtain ⟨y, hy⟩ := List.exists_mem_of_ne_nil m (h m List.mem_cons_self)
      exact ⟨y :: t, List.mem_flatMap.2 ⟨y, hy, List.mem_map.2 ⟨t, ht, rfl⟩⟩,
        List.mem_cons_of_mem y hxt⟩

/-- None of the id lists is empty, or all of them are. -/
def Balanced (lists : List (List ℤ)) : Prop := (∀ l ∈ lists, l ≠ []) ∨ ∀ l ∈ lists, l = []

theorem named_iff_balanced {gs : List (List Request)} {lists : List (List ℤ)}
    (h : List.Forall₂ Names gs (tuples lists)) :
    (∀ l ∈ lists, ∀ x ∈ l, ∃ q ∈ gs.flatten, x ∈ q.ids) ↔ Balanced lists := by
  constructor
  · intro hall
    by_cases hnil : [] ∈ lists
    · rw [tuples_nil_of_mem hnil, List.forall₂_nil_right_iff] at h
      subst h
      refine Or.inr fun l hl => List.eq_nil_iff_forall_not_mem.2 fun x hx => ?_
      obtain ⟨q, hq, -⟩ := hall l hl x hx
      cases hq
    · exact Or.inl fun l hl hn => hnil (hn ▸ hl)
  · rintro (hne | hnil) l hl x hx
    · obtain ⟨t, ht, hxt⟩ := mem_tuples hne hl hx
      obtain ⟨k, hk, rfl⟩ := List.getElem_of_mem ht
      have hk' : k < gs.length := h.length_eq.symm ▸ hk
      obtain ⟨⟨q, hq, hids⟩, -⟩ := (List.forall₂_iff_get.1 h).2 k hk' hk
      exact ⟨q, List.mem_flatten.2 ⟨_, List.getElem_mem hk', hq⟩, by rw [hids]; exact hxt⟩
    · rw [hnil l hl] at hx
      cases hx

/-! ## Programs -/

variable {sv : Server} {α : Type} {p : Client ℤ} {q : Request} {fmt : Cstr} {args : List Arg} {t : List ℤ}

/-- The program sends the one request `q`, and returns when it is answered. -/
def Sends (sv : Server) (p : Client α) (q : Request) : Prop :=
  ∀ sent, p.Served sv.op sent → ∃ r, p.run sv.op sent = some (r, sent ++ [q])

/-- The requests of the program name the ids `ts`, one after the other. It returns when they are
answered. -/
def Asks (sv : Server) (p : Client ℤ) (ts : List (List ℤ)) : Prop :=
  ∀ sent, p.Served sv.op sent →
    ∃ r gs, p.run sv.op sent = some (r, sent ++ gs.flatten) ∧ List.Forall₂ Names gs ts

theorem sends_cmd {ρ : Type} (sv : Server) (c : Cmd ρ) {f : Result ρ → Client α}
    (hf : ∀ rep, ∃ a, f (c.helper.answer rep) = pure a) :
    Sends sv (Prog.ask (.cmd c) >>= f) c.request := fun sent hs => by
  obtain ⟨r, hr⟩ := (Prog.served_ask ..).1 ((Prog.served_bind ..).1 hs).1
  obtain ⟨rep, -, rfl⟩ := Option.map_eq_some_iff.1 hr
  obtain ⟨a, ha⟩ := hf rep
  exact ⟨a, by rw [Prog.run_bind, Prog.run_ask, hr, Option.bind_some, ha]; rfl⟩

theorem sends_succ (sv : Server) (fmt : Cstr) (args : List Arg) :
    Sends sv (askSucc fmt args) ⟨fmt, args⟩ :=
  sends_cmd sv ⟨.succ, fmt, args⟩ fun _ => ⟨_, rfl⟩

theorem sends_int (sv : Server) (fmt : Cstr) (args : List Arg) :
    Sends sv (askInt fmt args) ⟨fmt, args⟩ :=
  sends_cmd sv ⟨.int, fmt, args⟩ fun _ => ⟨_, rfl⟩

theorem sends_conv (sv : Server) (f : Reader α) (fmt : Cstr) (args : List Arg) :
    Sends sv (askConv f fmt args) ⟨fmt, args⟩ :=
  sends_cmd sv ⟨.conv (lineConverter f), fmt, args⟩ fun _ => ⟨_, rfl⟩

theorem sends_iter (sv : Server) (f : Reader α) (fmt : Cstr) (args : List Arg) :
    Sends sv (askIter f fmt args) ⟨fmt, args⟩ :=
  sends_cmd sv ⟨.it (lineConverter f), fmt, args⟩ fun _ => ⟨_, rfl⟩

theorem Sends.bind {β : Type} {p : Client α} (h : Sends sv p q) {f : α → Client β}
    (hf : ∀ a, ∃ b, f a = pure b) : Sends sv (p >>= f) q := fun sent hs => by
  obtain ⟨a, ha⟩ := h sent ((Prog.served_bind ..).1 hs).1
  obtain ⟨b, hb⟩ := hf a
  exact ⟨b, by rw [Prog.run_bind, ha, Option.bind_some, hb, Prog.run_pure]⟩

theorem Sends.showing {p : Client (Option α)} (h : Sends sv p q) : Sends sv (showing p) q :=
  h.bind fun a => by cases a <;> exact ⟨_, rfl⟩

theorem Sends.checking (h : Sends sv p q) : Sends sv (checking p) q :=
  h.bind fun a => by split_ifs <;> exact ⟨_, rfl⟩

theorem Sends.asks_more {p : Client α} (h : Sends sv p q) (ht : q.ids = t) {f : α → Client ℤ}
    (hf : ∀ a sent, (f a).Served sv.op sent → ∃ r g, (f a).run sv.op sent = some (r, sent ++ g) ∧
      ∀ q ∈ g, q.ids = t ∨ q.ids = []) : Asks sv (p >>= f) [t] := fun sent hs => by
  obtain ⟨hp, hk⟩ := (Prog.served_bind ..).1 hs
  obtain ⟨a, ha⟩ := h sent hp
  obtain ⟨r, g, hr, hg⟩ := hf a (sent ++ [q]) (hk _ ha)
  refine ⟨r, [q :: g], ?_, .cons ⟨⟨q, List.mem_cons_self, ht⟩, fun q' hq' => ?_⟩ .nil⟩
  · rw [Prog.run_bind, ha, Option.bind_some, hr]
    simp
  · rcases List.mem_cons.1 hq' with rfl | hq'
    · exact Or.inl ht
    · exact hg q' hq'

theorem Sends.asks (h : Sends sv p q) (ht : q.ids = t) : Asks sv p [t] := fun sent hs => by
  obtain ⟨r, hr⟩ := h sent hs
  exact ⟨r, [[q]], hr, .cons ⟨⟨q, List.mem_singleton.2 rfl, ht⟩,
    fun _ h => Or.inl (by rw [List.mem_singleton.1 h, ht])⟩ .nil⟩

theorem asks_succ (ht : Request.ids ⟨fmt, args⟩ = t) : Asks sv (askSucc fmt args) [t] :=
  (sends_succ sv fmt args).asks ht

theorem asks_int (ht : Request.ids ⟨fmt, args⟩ = t) : Asks sv (checking (askInt fmt args)) [t] :=
  (sends_int sv fmt args).checking.asks ht

theorem asks_conv {f : Reader α} (ht : Request.ids ⟨fmt, args⟩ = t) :
    Asks sv (showing (askConv f fmt args)) [t] :=
  (sends_conv sv f fmt args).showing.asks ht

theorem asks_iter {f : Reader α} (ht : Request.ids ⟨fmt, args⟩ = t) :
    Asks sv (showing (askIter f fmt args)) [t] :=
  (sends_iter sv f fmt args).showing.asks ht

/-- **`idl_iterate`** asks about every id of the list in order: the server keeps the connection. -/
theorem asks_iterate {func : ℤ → Client ℤ} {ts : ℤ → List (List ℤ)} {l : List ℤ}
    (hpos : ∀ x ∈ l, 0 ≤ x) (h : ∀ x ∈ l, Asks sv (func x) (ts x)) :
    Asks sv (idlIterate func l) (l.flatMap ts) := by
  induction l with
  | nil => exact fun sent _ => ⟨0, [], by simp [idlIterate], .nil⟩
  | cons x l ih =>
    intro sent hs
    have hx : ¬ x < 0 := not_lt.2 (hpos x List.mem_cons_self)
    have hfd : ¬ (sv.fd : ℤ) < 0 := by omega
    rw [idlIterate, if_neg hx] at hs ⊢
    obtain ⟨hfunc, hrest⟩ := (Prog.served_bind ..).1 hs
    obtain ⟨r, gs, hr, hgs⟩ := h x List.mem_cons_self sent hfunc
    have hrest' : (idlIterate func l).Served sv.op (sent ++ gs.flatten) := by
      have := hrest _ hr
      dsimp only at this
      split_ifs at this
      · exact ((Prog.served_bind ..).1 this).2 _ rfl |> fun h => by rwa [if_neg hfd] at h
      · exact this
    obtain ⟨r', gs', hr', hgs'⟩ := ih (fun y hy => hpos y (List.mem_cons_of_mem x hy))
      (fun y hy => h y (List.mem_cons_of_mem x hy)) _ hrest'
    refine ⟨r', gs ++ gs', ?_, List.rel_append hgs hgs'⟩
    simp only [Prog.run_bind, hr, Option.bind_some, Prog.run_ite, Prog.run_ask, Server.op, if_neg hfd,
      hr', ite_self, List.flatten_append, List.append_assoc]

/-- **`i_tracktaglist`** asks twice about a track that the server has. -/
theorem asks_iTracktaglist (id : ℤ) : Asks sv (iTracktaglist id) [[id]] := by
  refine (sends_conv sv ducTrackParse _ _).asks_more rfl fun t sent hs => ?_
  cases t with
  | none => exact ⟨-1, [], by simp, fun q hq => absurd hq List.not_mem_nil⟩
  | some t =>
    obtain ⟨r, hr⟩ := (sends_iter sv ducTagParse (.lit "tracktaglist %d") [.int id]).showing sent hs
    exact ⟨r, [_], hr, fun q hq => Or.inl (by rw [List.mem_singleton.1 hq]; rfl)⟩

/-- **`c_sfilterload`** asks about the filter, and sets the filter that it gets. -/
theorem asks_cSfilterload (addr : ArgVal → ℕ) (id : ℤ) : Asks sv (cSfilterload addr [.int id]) [[id]] := by
  refine (sends_conv sv ducSfilterParse _ _).asks_more rfl fun f sent hs => ?_
  cases f with
  | none => exact ⟨-1, [], by simp, fun q hq => absurd hq List.not_mem_nil⟩
  | some f =>
    obtain ⟨r, hr⟩ := (sends_succ sv (.lit "filterset %s") [.str (.ofBytes f.filter)]).checking sent hs
    exact ⟨r, [_], hr, fun q hq => Or.inr (by rw [List.mem_singleton.1 hq]; rfl)⟩

/-! ## Kinds of arguments -/

/-- A list of ids, an id, another number or a string. -/
inductive Kind
  | ids | id | num | str
  deriving DecidableEq

/-- The values of a kind. -/
def Kind.Fits : Kind → ArgVal → Prop
  | .ids, v => ∃ l, v = .idl l
  | .id, v => ∃ z, v = .int z
  | .num, v => ∃ z, v = .int z
  | .str, v => ∃ s, v = .str s

/-- The argument is of the kind `k`: its parser makes the values of that kind. -/
structure TCmdArg.Is (arg : TCmdArg) (k : Kind) : Prop where
  isId : arg.isId = decide (k = .ids ∨ k = .id)
  fits : ∀ {v}, arg.Makes v → k.Fits v

theorem valString_some (s : Cstr) : (valString s).Always fun p => p.2 ≠ 0 → p.1.isSome := fun _ => rfl

theorem argIdlist_ids : argIdlist.Is .ids := ⟨rfl, makes_idl rfl valIdlist_some⟩
theorem argUserlist_ids : argUserlist.Is .ids := ⟨rfl, makes_idl rfl (valClist_some _)⟩
theorem argTracklist_ids : argTracklist.Is .ids := ⟨rfl, makes_idl rfl valTracklist_some⟩
theorem argTaglist_ids : argTaglist.Is .ids := ⟨rfl, makes_idl rfl (valClist_some _)⟩
theorem argUser_id : argUser.Is .id := ⟨rfl, makes_int rfl⟩
theorem argTrack_id : argTrack.Is .id := ⟨rfl, makes_int rfl⟩
theorem argTag_id : argTag.Is .id := ⟨rfl, makes_int rfl⟩
theorem argArtist_id : argArtist.Is .id := ⟨rfl, makes_int rfl⟩
theorem argAlbum_id : argAlbum.Is .id := ⟨rfl, makes_int rfl⟩
theorem argSfilter_id : argSfilter.Is .id := ⟨rfl, makes_int rfl⟩
theorem argRight_num : argRight.Is .num := ⟨rfl, makes_int rfl⟩
theorem argOnum_num : argOnum.Is .num := ⟨rfl, makes_int rfl⟩
theorem argYear_num : argYear.Is .num := ⟨rfl, makes_int rfl⟩
theorem argName_str : argName.Is .str := ⟨rfl, makes_str rfl valName_some⟩
theorem argString_str : argString.Is .str := ⟨rfl, makes_str rfl valString_some⟩

/-! ## Rows of the table -/

/-- The commands whose rows are treated alone. -/
def oddNames : List Cstr := [.lit "userget", .lit "userdel", .lit "sfiltersave"]

/-- Given values of its arguments, a command that takes ids names them. -/
def RowAsks (sv : Server) (cmd : TCmd) : Prop :=
  cmd.takesIds = true → cmd.name ∉ oddNames → ∀ addr argv, List.Forall₂ TCmdArg.Makes cmd.args argv →
    (∀ l ∈ idLists cmd.args argv, ∀ x ∈ l, 0 ≤ x) →
      Asks sv (cmd.run addr argv) (tuples (idLists cmd.args argv))

variable {name : Cstr} {aliasName : Option Cstr} {run : Handler} {arg arg₁ arg₂ : TCmdArg}
  {k k₁ k₂ : Kind} {argv : List ArgVal}

theorem makes_one (h : arg.Is k) (hargv : List.Forall₂ TCmdArg.Makes [arg] argv) :
    ∃ v, argv = [v] ∧ k.Fits v := by
  obtain ⟨v, _, hv, hnil, rfl⟩ := List.forall₂_cons_left_iff.1 hargv
  obtain rfl := List.forall₂_nil_left_iff.1 hnil
  exact ⟨v, rfl, h.fits hv⟩

theorem makes_two (h₁ : arg₁.Is k₁) (h₂ : arg₂.Is k₂)
    (hargv : List.Forall₂ TCmdArg.Makes [arg₁, arg₂] argv) :
    ∃ v w, argv = [v, w] ∧ k₁.Fits v ∧ k₂.Fits w := by
  obtain ⟨v, _, hv, hrest, rfl⟩ := List.forall₂_cons_left_iff.1 hargv
  obtain ⟨w, rfl, hw⟩ := makes_one h₂ hrest
  exact ⟨v, w, rfl, h₁.fits hv, hw⟩

theorem row_other {cmd : TCmd} (h : cmd.takesIds = false) : RowAsks sv cmd := fun hids =>
  Bool.false_ne_true (h.symm.trans hids) |>.elim

theorem row_odd {cmd : TCmd} (h : decide (cmd.name ∈ oddNames) = true) : RowAsks sv cmd := fun _ hodd =>
  absurd (of_decide_eq_true h) hodd

theorem row_ids (h : arg.Is .ids) {func : ℤ → Client ℤ}
    (hrun : ∀ addr l, run addr [.idl l] = idlIterate func l) (hfunc : ∀ x, Asks sv (func x) [[x]]) :
    RowAsks sv ⟨name, aliasName, run, [arg]⟩ := by
  intro _ _ addr argv hargv hpos
  obtain ⟨_, rfl, l, rfl⟩ := makes_one h hargv
  have hids : idLists [arg] [.idl l] = [l] := by simp [idLists, h.isId, ArgVal.ids]
  simp only [hids, hrun] at hpos ⊢
  exact asks_iterate (hpos l List.mem_cons_self) fun x _ => hfunc x

theorem row_id (h : arg.Is .id) (hrun : ∀ addr x, Asks sv (run addr [.int x]) [[x]]) :
    RowAsks sv ⟨name, aliasName, run, [arg]⟩ := by
  intro _ _ addr argv hargv hpos
  obtain ⟨_, rfl, x, rfl⟩ := makes_one h hargv
  have hids : idLists [arg] [.int x] = [[x]] := by simp [idLists, h.isId, ArgVal.ids]
  simp only [hids]
  exact hrun addr x

theorem row_id_num (h₁ : arg₁.Is .id) (h₂ : arg₂.Is .num)
    (hrun : ∀ addr x z, Asks sv (run addr [.int x, .int z]) [[x]]) :
    RowAsks sv ⟨name, aliasName, run, [arg₁, arg₂]⟩ := by
  intro _ _ addr argv hargv hpos
  obtain ⟨_, _, rfl, ⟨x, rfl⟩, z, rfl⟩ := makes_two h₁ h₂ hargv
  have hids : idLists [arg₁, arg₂] [.int x, .int z] = [[x]] := by
    simp [idLists, h₁.isId, h₂.isId, ArgVal.ids]
  simp only [hids]
  exact hrun addr x z

theorem row_id_str (h₁ : arg₁.Is .id) (h₂ : arg₂.Is .str)
    (hrun : ∀ addr x s, Asks sv (run addr [.int x, .str s]) [[x]]) :
    RowAsks sv ⟨name, aliasName, run, [arg₁, arg₂]⟩ := by
  intro _ _ addr argv hargv hpos
  obtain ⟨_, _, rfl, ⟨x, rfl⟩, s, rfl⟩ := makes_two h₁ h₂ hargv
  have hids : idLists [arg₁, arg₂] [.int x, .str s] = [[x]] := by
    simp [idLists, h₁.isId, h₂.isId, ArgVal.ids]
  simp only [hids]
  exact hrun addr x s

theorem row_id_id (h₁ : arg₁.Is .id) (h₂ : arg₂.Is .id)
    (hrun : ∀ addr x y, Asks sv (run addr [.int x, .int y]) [[x, y]]) :
    RowAsks sv ⟨name, aliasName, run, [arg₁, arg₂]⟩ := by
  intro _ _ addr argv hargv hpos
  obtain ⟨_, _, rfl, ⟨x, rfl⟩, y, rfl⟩ := makes_two h₁ h₂ hargv
  have hids : idLists [arg₁, arg₂] [.int x, .int y] = [[x], [y]] := by
    simp [idLists, h₁.isId, h₂.isId, ArgVal.ids]
  simp only [hids]
  exact hrun addr x y

theorem row_ids_id (h₁ : arg₁.Is .ids) (h₂ : arg₂.Is .id) {func : ℤ → ℤ → Client ℤ}
    (hrun : ∀ addr l y, run addr [.idl l, .int y] = idlIterate (func y) l)
    (hfunc : ∀ x y, Asks sv (func y x) [[x, y]]) :
    RowAsks sv ⟨name, aliasName, run, [arg₁, arg₂]⟩ := by
  intro _ _ addr argv hargv hpos
  obtain ⟨_, _, rfl, ⟨l, rfl⟩, y, rfl⟩ := makes_two h₁ h₂ hargv
  have hids : idLists [arg₁, arg₂] [.idl l, .int y] = [l, [y]] := by
    simp [idLists, h₁.isId, h₂.isId, ArgVal.ids]
  simp only [hids, hrun] at hpos ⊢
  exact asks_iterate (hpos l List.mem_cons_self) fun x _ => hfunc x y

theorem row_ids_ids (h₁ : arg₁.Is .ids) (h₂ : arg₂.Is .ids) {func : ℤ → ℤ → Client ℤ}
    (hrun : ∀ addr l m, run addr [.idl l, .idl m] = idlIterate (fun x => idlIterate (func x) m) l)
    (hfunc : ∀ x y, Asks sv (func x y) [[x, y]]) :
    RowAsks sv ⟨name, aliasName, run, [arg₁, arg₂]⟩ := by
  intro _ _ addr argv hargv hpos
  obtain ⟨_, _, rfl, ⟨l, rfl⟩, m, rfl⟩ := makes_two h₁ h₂ hargv
  have hids : idLists [arg₁, arg₂] [.idl l, .idl m] = [l, m] := by
    simp [idLists, h₁.isId, h₂.isId, ArgVal.ids]
  simp only [hids, hrun] at hpos ⊢
  refine asks_iterate (hpos l List.mem_cons_self) fun x _ => ?_
  have hx : (tuples [m]).map (x :: ·) = m.flatMap fun y => [[x, y]] := by
    simp [tuples, List.map_flatMap]
  rw [hx]
  exact asks_iterate (hpos m (List.mem_cons_of_mem l List.mem_cons_self)) fun y _ => hfunc x y

/-- **The rows of the table.** -/
theorem rows_ask (sv : Server) : ∀ cmd ∈ cmdsTop, RowAsks sv cmd := by
  simp only [cmdsTop, List.forall_mem_cons]
  refine ⟨row_other rfl, row_other rfl, row_other rfl, row_other rfl, row_other rfl,
    row_ids argIdlist_ids (fun _ _ => rfl) (fun _ => asks_succ rfl),
    row_ids argUserlist_ids (fun _ _ => rfl) (fun _ => asks_succ rfl),
    row_odd rfl, row_other rfl,
    row_id_str argUser_id argString_str (fun _ _ _ => asks_succ rfl),
    row_id_num argUser_id argRight_num (fun _ _ _ => asks_succ rfl),
    row_other rfl, row_odd rfl, row_other rfl, row_other rfl, row_other rfl, row_other rfl,
    row_other rfl, row_other rfl, row_other rfl, row_other rfl, row_other rfl, row_other rfl,
    row_other rfl, row_other rfl, row_other rfl, row_other rfl, row_other rfl, row_other rfl,
    row_other rfl, row_other rfl, row_other rfl, row_other rfl,
    row_ids argTracklist_ids (fun _ _ => rfl) (fun _ => asks_conv rfl),
    row_other rfl,
    row_ids_id argTracklist_ids argArtist_id (fun _ _ _ => rfl) (fun _ _ => asks_succ rfl),
    row_id_str argTrack_id argString_str (fun _ _ _ => asks_succ rfl),
    row_other rfl, row_other rfl, row_other rfl, row_other rfl, row_other rfl,
    row_ids argIdlist_ids (fun _ _ => rfl) (fun _ => asks_conv rfl),
    row_ids argTracklist_ids (fun _ _ => rfl) (fun _ => asks_int rfl),
    row_ids argIdlist_ids (fun _ _ => rfl) (fun _ => asks_succ rfl),
    row_other rfl, row_other rfl, row_other rfl, row_other rfl, row_other rfl,
    row_id_num argTrack_id argOnum_num (fun _ _ _ => asks_iter rfl),
    row_other rfl,
    row_id argArtist_id (fun _ _ => asks_iter rfl),
    row_ids argTaglist_ids (fun _ _ => rfl) (fun _ => asks_conv rfl),
    row_other rfl,
    row_id_str argTag_id argName_str (fun _ _ _ => asks_succ rfl),
    row_id_str argTag_id argString_str (fun _ _ _ => asks_succ rfl),
    row_ids argTaglist_ids (fun _ _ => rfl) (fun _ => asks_succ rfl),
    row_ids argTracklist_ids (fun _ _ => rfl) asks_iTracktaglist,
    row_ids_ids argTracklist_ids argTaglist_ids (fun _ _ _ => rfl) (fun _ _ => asks_succ rfl),
    row_ids_ids argTracklist_ids argTaglist_ids (fun _ _ _ => rfl) (fun _ _ => asks_succ rfl),
    row_other rfl,
    row_ids argIdlist_ids (fun _ _ => rfl) (fun _ => asks_conv rfl),
    row_other rfl,
    row_id argArtist_id (fun _ _ => asks_iter rfl),
    row_id argTag_id (fun _ _ => asks_iter rfl),
    row_id_id argAlbum_id argArtist_id (fun _ _ _ => asks_succ rfl),
    row_id_str argAlbum_id argString_str (fun _ _ _ => asks_succ rfl),
    row_id_num argAlbum_id argYear_num (fun _ _ _ => asks_succ rfl),
    row_other rfl,
    row_id argTag_id (fun _ _ => asks_iter rfl),
    row_ids argIdlist_ids (fun _ _ => rfl) (fun _ => asks_conv rfl),
    row_other rfl,
    row_id_str argArtist_id argString_str (fun _ _ _ => asks_succ rfl),
    row_id_id argArtist_id argArtist_id (fun _ _ _ => asks_succ rfl),
    row_other rfl,
    row_id argArtist_id (fun _ _ => asks_succ rfl),
    row_other rfl,
    row_ids argIdlist_ids (fun _ _ => rfl) (fun _ => asks_conv rfl),
    row_other rfl,
    row_id_str argSfilter_id argName_str (fun _ _ _ => asks_succ rfl),
    row_id_str argSfilter_id argString_str (fun _ _ _ => asks_succ rfl),
    row_id argSfilter_id (fun _ _ => asks_succ rfl),
    row_id argSfilter_id asks_cSfilterload,
    row_odd rfl, fun _ h => absurd h List.not_mem_nil⟩

/-! ## Commands -/

/-- The server grants the request: the code of its reply is 2xx. -/
def Server.Grants (sv : Server) (sent : List Request) (q : Request) : Prop :=
  ∃ rep, sv.answer sent q = some rep ∧ rep.head?.bind List.head? = some 50

variable {sent : List Request} {lists : List (List ℤ)} {l : List ℤ}

theorem Asks.asked_iff (h : Asks sv p (tuples lists)) (hs : p.Served sv.op sent) :
    Asked sv p sent lists ↔ Balanced lists := by
  constructor
  · rintro ⟨r, gs, -, hgs, hall⟩
    exact (named_iff_balanced hgs).1 hall
  · intro hb
    obtain ⟨r, gs, hr, hgs⟩ := h sent hs
    exact ⟨r, gs, hr, hgs, (named_iff_balanced hgs).2 hb⟩

theorem Sends.not_asked {b : ℤ} (h : Sends sv p q) (hs : p.Served sv.op sent) (hq : q.ids = [b])
    (hb : b ∉ l) : ¬ Asked sv p sent [l] := by
  rintro ⟨r, gs, hr, hgs, -⟩
  obtain ⟨r', hr'⟩ := h sent hs
  have hflat : gs.flatten = [q] := by
    have := (Prod.mk.inj (Option.some.inj (hr.symm.trans hr'))).2
    exact List.append_cancel_left this
  obtain ⟨g, hg, hqg⟩ := List.mem_flatten.1 (hflat ▸ List.mem_singleton.2 rfl : q ∈ gs.flatten)
  obtain ⟨k, hk, rfl⟩ := List.getElem_of_mem hg
  have hk' : k < (tuples [l]).length := hgs.length_eq ▸ hk
  have hnames := (List.forall₂_iff_get.1 hgs).2 k hk hk'
  rcases hnames.2 q hqg with h | h
  · have hmem : [b] ∈ tuples [l] := by
      rw [← hq, h]
      exact List.getElem_mem hk'
    simp only [tuples, List.map_cons, List.map_nil, List.mem_flatMap, List.mem_singleton, List.cons.injEq,
      and_true] at hmem
    obtain ⟨x, hx, rfl⟩ := hmem
    exact hb hx
  · rw [hq] at h
    cases h

theorem not_asked_address {run : Handler} {argv : List ArgVal} (hl : ∀ x ∈ l, 0 ≤ x)
    (hsends : ∀ addr, Sends sv (run addr argv) ⟨fmt, [.int (toInt (addr (.idl l)))]⟩)
    (hids : ∀ z, Request.ids ⟨fmt, [.int z]⟩ = [z])
    (hserved : ∀ addr, (run addr argv).Served sv.op sent) :
    ¬ ∀ addr, Asked sv (run addr argv) sent [l] := by
  intro h
  let addr (_ : ArgVal) : ℕ := 2 ^ 32 - 16
  have hneg : toInt (addr (.idl l)) ∉ l := fun hm => absurd (hl _ hm) (by decide)
  exact (hsends addr).not_asked (hserved addr) (hids _) hneg (h addr)

theorem askString_run (hs : (askString fmt args).Served sv.op sent) :
    ∃ o : Option Cstr, (o.isSome ↔ sv.Grants sent ⟨fmt, args⟩) ∧
      (askString fmt args).run sv.op sent = some (o, sent ++ [⟨fmt, args⟩]) := by
  obtain ⟨r, hr⟩ := (Prog.served_ask ..).1 ((Prog.served_bind ..).1 hs).1
  obtain ⟨rep, hrep, rfl⟩ := Option.map_eq_some_iff.1 hr
  refine ⟨_, ?_, by rw [askString, Prog.run_bind, Prog.run_ask, hr, Option.bind_some]; rfl⟩
  have hgrants : sv.Grants sent ⟨fmt, args⟩ ↔ rep.head?.bind List.head? = some 50 := by
    change sv.answer sent ⟨fmt, args⟩ = some rep at hrep
    simp [Server.Grants, hrep]
  rw [hgrants]
  by_cases hc : rep.head?.bind List.head? = some 50 <;> simp [hc]

/-- **`c_sfiltersave`** asks about the filter when it gets the text to save. -/
theorem asked_cSfiltersave {addr : ArgVal → ℕ} {id : ℤ}
    (hs : (cSfiltersave addr [.int id]).Served sv.op sent) :
    Asked sv (cSfiltersave addr [.int id]) sent [[id]] ↔ sv.Grants sent ⟨.lit "filter", []⟩ := by
  let save (flt : Option Cstr) : Client ℤ :=
    flt.elim (pure (-1)) fun flt => checking (ducCmdSfiltersetfilter id flt)
  have hp : cSfiltersave addr [.int id] = askString (.lit "filter") [] >>= save := by
    change Prog.bind (askString (.lit "filter") []) _ = Prog.bind _ save
    congr 1
    funext flt
    cases flt <;> rfl
  rw [hp] at hs ⊢
  obtain ⟨hfilter, hsave⟩ := (Prog.served_bind ..).1 hs
  obtain ⟨o, ho, hrun⟩ := askString_run hfilter
  rw [← ho]
  cases o with
  | none =>
    refine iff_of_false ?_ (by simp)
    rintro ⟨r, gs, hr, -, hall⟩
    rw [Prog.run_bind, hrun, Option.bind_some] at hr
    have hflat : gs.flatten = [⟨.lit "filter", []⟩] :=
      (List.append_cancel_left (Prod.mk.inj (Option.some.inj hr)).2).symm
    obtain ⟨q, hq, hid⟩ := hall [id] List.mem_cons_self id List.mem_cons_self
    rw [hflat, List.mem_singleton] at hq
    subst hq
    cases hid
  | some flt =>
    refine iff_of_true ?_ rfl
    obtain ⟨r, hr⟩ := (sends_succ sv (.lit "sfiltersetfilter %d %s") [.int id, .str flt]).checking _
      (hsave _ hrun)
    refine ⟨r, [[⟨.lit "filter", []⟩, ⟨.lit "sfiltersetfilter %d %s", [.int id, .str flt]⟩]], ?_,
      .cons ⟨⟨_, List.mem_cons_of_mem _ List.mem_cons_self, rfl⟩, ?_⟩ .nil, ?_⟩
    · rw [Prog.run_bind, hrun, Option.bind_some]
      exact hr.trans (by simp)
    · rintro q hq
      rcases List.mem_pair.1 hq with rfl | rfl
      · exact Or.inr rfl
      · exact Or.inl rfl
    · intro l hl x hx
      rw [List.mem_singleton.1 hl] at hx
      exact ⟨_, List.mem_cons_of_mem _ List.mem_cons_self, hx⟩

theorem odd_rows {cmd : TCmd} (hcmd : cmd ∈ cmdsTop) (hodd : cmd.name ∈ oddNames) :
    cmd = ⟨.lit "userget", none, cUserget, argsUserlist⟩ ∨
      cmd = ⟨.lit "userdel", none, cUserdel, argsUserlist⟩ ∨
      cmd = ⟨.lit "sfiltersave", some (.lit "save"), cSfiltersave, argsSfilter⟩ := by
  have hrows : (cmdsTop.filter fun cmd => decide (cmd.name ∈ oddNames)) =
      [⟨.lit "userget", none, cUserget, argsUserlist⟩, ⟨.lit "userdel", none, cUserdel, argsUserlist⟩,
        ⟨.lit "sfiltersave", some (.lit "save"), cSfiltersave, argsSfilter⟩] := rfl
  have hmem : cmd ∈ cmdsTop.filter fun cmd => decide (cmd.name ∈ oddNames) :=
    List.mem_filter.2 ⟨hcmd, decide_eq_true hodd⟩
  rw [hrows] at hmem
  simpa using hmem

theorem values_asked_iff {cmd : TCmd} (hcmd : cmd ∈ cmdsTop) (hids : cmd.takesIds = true) {line : Cstr}
    {s₀ : List Request} {argv : List ArgVal}
    (hparse : (argParse cmd line).run sv.op s₀ = some (some argv, sent))
    (hrange : ∀ l ∈ idLists cmd.args argv, ∀ x ∈ l, 0 ≤ x ∧ x ≤ INT_MAX)
    (hserved : ∀ addr, (cmd.run addr argv).Served sv.op sent) :
    (∀ addr, Asked sv (cmd.run addr argv) sent (idLists cmd.args argv)) ↔
      cmd.name ∉ [.lit "userget", .lit "userdel"] ∧ Balanced (idLists cmd.args argv) ∧
        (cmd.name = .lit "sfiltersave" → sv.Grants sent ⟨.lit "filter", []⟩) := by
  have hargv := (argParse_makes cmd line).run hparse argv rfl
  by_cases hodd : cmd.name ∈ oddNames
  · rcases odd_rows hcmd hodd with rfl | rfl | rfl
    · obtain ⟨_, rfl, l, rfl⟩ := makes_one argUserlist_ids hargv
      have hsends (addr : ArgVal → ℕ) :
          Sends sv (cUserget addr [.idl l]) ⟨.lit "userget %d", [.int (toInt (addr (.idl l)))]⟩ :=
        (sends_conv sv ducUserParse _ _).bind fun a => by cases a <;> exact ⟨_, rfl⟩
      exact iff_of_false (not_asked_address (fun x hx => (hrange l List.mem_cons_self x hx).1) hsends
        (fun _ => rfl) hserved) fun h => h.1 (by decide)
    · obtain ⟨_, rfl, l, rfl⟩ := makes_one argUserlist_ids hargv
      have hsends (addr : ArgVal → ℕ) :
          Sends sv (cUserdel addr [.idl l]) ⟨.lit "userdel %d", [.int (toInt (addr (.idl l)))]⟩ :=
        sends_succ sv _ _
      exact iff_of_false (not_asked_address (fun x hx => (hrange l List.mem_cons_self x hx).1) hsends
        (fun _ => rfl) hserved) fun h => h.1 (by decide)
    · obtain ⟨_, rfl, id, rfl⟩ := makes_one argSfilter_id hargv
      have hlists : idLists argsSfilter [.int id] = [[id]] := rfl
      have hbal : Balanced [[id]] := Or.inl (by simp)
      simp only [hlists]
      constructor
      · exact fun h => ⟨by decide, hbal, fun _ => (asked_cSfiltersave (hserved fun _ => 0)).1 (h _)⟩
      · exact fun h addr => (asked_cSfiltersave (hserved addr)).2 (h.2.2 trivial)
  · have hasks (addr : ArgVal → ℕ) := rows_ask sv cmd hcmd hids hodd addr argv hargv
      fun l hl x hx => (hrange l hl x hx).1
    simp only [oddNames, List.mem_cons, List.not_mem_nil, or_false, not_or] at hodd
    constructor
    · exact fun h => ⟨by simp [hodd], ((hasks fun _ => 0).asked_iff (hserved _)).1 (h _),
        fun h => absurd h hodd.2.2⟩
    · exact fun h addr => ((hasks addr).asked_iff (hserved addr)).2 h.2.1

/-- A library with the tag `pop`, whose id is 5, and nothing else. -/
def popLibrary : Library where
  albums _ := []
  current := none
  tag t := if t = .lit "pop" then some 5 else none
  sfilter _ := none
  fits _ _ h := absurd h List.not_mem_nil
  current_fits _ h := by cases h
  no_album _ _ := rfl
  tag_fits t z h := by
    split_ifs at h
    · obtain rfl := Option.some.inj h
      decide
    · cases h
  sfilter_fits _ _ h := by cases h

/-- A server that knows the tag, and deletes tags. -/
def popServer : Server where
  fd := 3
  answer _ q :=
    if q = ⟨.lit "tag2id %s", [.str (.lit "pop")]⟩ then some [(Cstr.lit "200 5").bytes]
    else if q.fmt = .lit "tagdel %d" ∨ q.fmt = .lit "userdel %d" then some [(Cstr.lit "200 ok").bytes] else none

theorem popServer_answers (sent : List Request) (q : Request) (rep : List (List UInt8))
    (h : popServer.answer sent q = some rep) : popLibrary.Answers q rep := by
  unfold popServer at h
  dsimp only at h
  split_ifs at h with hq hfmt
  · subst hq
    obtain rfl := Option.some.inj h
    refine ⟨nofun, fun _ h => ?_, fun _ _ h => ?_, fun t ht => ?_, fun _ h => ?_⟩
    · exact absurd (Request.mk.inj h).1 (by decide)
    · exact absurd (Request.mk.inj h).1 (by decide)
    · obtain rfl : Cstr.lit "pop" = t := by simpa using (Request.mk.inj ht).2
      exact grants_grant [(Cstr.lit "5").bytes] (List.cons_ne_nil _ _)
    · exact absurd (Request.mk.inj h).1 (by decide)
  · refine ⟨?_, fun _ => ?_, fun _ _ => ?_, fun _ => ?_, fun _ => ?_⟩
    all_goals
      rintro rfl
      exact absurd hfmt (by dsimp only; decide)

end Dudlc
