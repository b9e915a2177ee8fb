import Dudlc.Catalogue
import Dudlc.Commands
import Dudlc.Formatter

/-!
# The line of a track's tags

`i_tracktaglist` collects the position of a track and the names of its tags in a buffer of 4096 bytes.

* `iTracktaglistLine`: the function with its buffer and the line it shows; `iTracktaglistLine_fst`.
* `tagLine`: the line of a track and its tags.
* `tags_strcat`: the loop over the tags.
* `Tagged`: a server that has a track and its tags.
* **`tagLine_iff`**: when the line is shown, and when it is written behind the buffer.
-/

namespace Dudlc

open Lib

/-- One round of the loop in `i_tracktaglist`: the buffer and `arg`. -/
def tagBody (p : Block UInt8 4096 × ℕ) (ta : DucTag) : Option (Block UInt8 4096 × ℕ) := do
  let buf ← if p.2 ≠ 0 then strcat p.1 (.lit ",") else some p.1
  return (← strcat buf (.ofBytes ta.name), p.2 + 1)

/-- `i_tracktaglist`: the return value and the line that is shown. -/
def iTracktaglistLine (c : Clib) (id : ℤ) : Client (ℤ × Option (List UInt8)) := do
  match ← ducCmdTrackget id with
  | none => return (-1, none)
  | some tr =>
    let buf ← Prog.ofOption (do strcat (.fill 4096 0) (← dfmtTrackid c tr.album.id tr.albumnr))
    let buf ← Prog.ofOption (strcat buf (.lit ": "))
    match ← ducCmdTracktaglist id with
    | none => return (-1, none)
    | some tags =>
      let (buf, _) ← Prog.ofOption (tags.foldlM tagBody (buf, 0))
      return (0, some (← Prog.ofOption (cstr buf 0)))

/-- The line of a track and its tags: the names in their order, with commas between them. -/
def tagLine (tr : DucTrack) (tags : List DucTag) : List UInt8 :=
  decimalInt tr.album.id ++ 47 :: decimalInt tr.albumnr ++ (58 :: 32 :: [44].intercalate (tags.map DucTag.name))

/-- What the loop appends after `arg` tags. -/
def tagTexts (arg : ℕ) : List DucTag → List UInt8
  | [] => []
  | ta :: tags => (if arg ≠ 0 then [44] else []) ++ (ta.name ++ tagTexts (arg + 1) tags)

/-- The record of a tag on a line. -/
def DucTag.line (ta : DucTag) : List UInt8 := encode escape ta.values

variable {c : Clib} {σ : Type} {h : ∀ {β : Type}, Op β → σ → Option (β × σ)} {s s₁ s₂ : σ} {id : ℤ}
  {tr : DucTrack} {tags : List DucTag} {ta : DucTag} {buf : Block UInt8 4096} {t : List UInt8} {arg : ℕ}

theorem iTracktaglistLine_fst {z : ℤ} {l : Option (List UInt8)}
    (hrun : (iTracktaglistLine c id).run h s = some ((z, l), s₁)) : (iTracktaglist id).run h s = some (z, s₁) := by
  rw [iTracktaglistLine, Prog.run_bind] at hrun
  obtain ⟨⟨_ | tr, s₂⟩, hget, hrun⟩ := Option.bind_eq_some_iff.1 hrun
  · rw [iTracktaglist, Prog.run_bind, hget]
    cases hrun
    rfl
  rw [iTracktaglist, Prog.run_bind, hget, Option.bind_some, showing]
  dsimp only at hrun ⊢
  rw [Prog.run_bind, Prog.run_ofOption] at hrun
  obtain ⟨⟨buf, s₃⟩, hbuf, hrun⟩ := Option.bind_eq_some_iff.1 hrun
  obtain ⟨_, -, heq⟩ := Option.map_eq_some_iff.1 hbuf
  cases heq
  rw [Prog.run_bind, Prog.run_ofOption] at hrun
  obtain ⟨⟨buf', s₃⟩, hbuf, hrun⟩ := Option.bind_eq_some_iff.1 hrun
  obtain ⟨_, -, heq⟩ := Option.map_eq_some_iff.1 hbuf
  cases heq
  rw [Prog.run_bind] at hrun ⊢
  obtain ⟨⟨_ | tags, s₃⟩, hlist, hrun⟩ := Option.bind_eq_some_iff.1 hrun
  · rw [hlist]
    cases hrun
    rfl
  rw [hlist, Option.bind_some]
  dsimp only at hrun ⊢
  rw [Prog.run_bind, Prog.run_ofOption] at hrun
  obtain ⟨⟨buf'', s₄⟩, hbuf, hrun⟩ := Option.bind_eq_some_iff.1 hrun
  obtain ⟨_, -, heq⟩ := Option.map_eq_some_iff.1 hbuf
  cases heq
  dsimp only at hrun
  rw [Prog.run_bind, Prog.run_ofOption] at hrun
  obtain ⟨⟨line, s₄⟩, hbuf, hrun⟩ := Option.bind_eq_some_iff.1 hrun
  obtain ⟨_, -, heq⟩ := Option.map_eq_some_iff.1 hbuf
  cases heq
  cases hrun
  rfl

/-! ## The loop -/

theorem tagTexts_succ (arg : ℕ) (tags : List DucTag) : tagTexts (arg + 1) tags = tagTexts 1 tags := by
  induction tags generalizing arg with
  | nil => rfl
  | cons ta tags ih => rw [tagTexts, tagTexts, ih (arg + 1), ih 1, if_pos (Nat.succ_ne_zero _), if_pos one_ne_zero]

theorem tagTexts_zero (tags : List DucTag) : tagTexts 0 tags = [44].intercalate (tags.map DucTag.name) := by
  induction tags with
  | nil => rfl
  | cons ta tags ih =>
    cases tags with
    | nil => simp [tagTexts]
    | cons tb tags =>
      rw [List.map_cons, List.map_cons, List.intercalate_cons_cons, ← List.map_cons, ← ih]
      simp [tagTexts, tagTexts_succ]

theorem tagBody_some (hbuf : cstr buf 0 = some t) (hfree : 0 ∉ ta.name)
    (hroom : (t ++ ((if arg ≠ 0 then [44] else []) ++ ta.name)).length < 4096) :
    ∃ buf', tagBody (buf, arg) ta = some (buf', arg + 1) ∧
      cstr buf' 0 = some (t ++ ((if arg ≠ 0 then [44] else []) ++ ta.name)) := by
  have hname : (Cstr.ofBytes ta.name).bytes = ta.name := by rw [Cstr.ofBytes_eq hfree]
  by_cases harg : arg = 0
  · subst harg
    rw [if_neg (not_not.2 rfl), List.nil_append] at hroom ⊢
    obtain ⟨buf', hcat, htext⟩ := strcat_some (s := .ofBytes ta.name) hbuf (by
      rwa [hname, ← List.length_append])
    exact ⟨buf', by simp [tagBody, hcat], by rwa [hname] at htext⟩
  · rw [if_pos harg] at hroom ⊢
    simp only [List.length_append, List.length_singleton] at hroom
    obtain ⟨b, hb, hbt⟩ := strcat_some (s := .lit ",") hbuf (by
      rw [show (Cstr.lit ",").bytes.length = 1 from rfl]; omega)
    obtain ⟨buf', hcat, htext⟩ := strcat_some (s := .ofBytes ta.name) hbt (by
      rw [hname, List.length_append, show (Cstr.lit ",").bytes.length = 1 from rfl]; omega)
    refine ⟨buf', by simp [tagBody, harg, hb, hcat], ?_⟩
    rw [htext, hname, List.append_assoc]
    rfl

theorem tagBody_none (hbuf : cstr buf 0 = some t) (hfree : 0 ∉ ta.name)
    (hroom : 4096 ≤ (t ++ ((if arg ≠ 0 then [44] else []) ++ ta.name)).length) :
    tagBody (buf, arg) ta = none := by
  have hname : (Cstr.ofBytes ta.name).bytes = ta.name := by rw [Cstr.ofBytes_eq hfree]
  by_cases harg : arg = 0
  · subst harg
    rw [if_neg (not_not.2 rfl), List.nil_append, List.length_append] at hroom
    simp [tagBody, strcat_none hbuf (s := .ofBytes ta.name) (by rwa [hname])]
  · rw [if_pos harg] at hroom
    simp only [List.length_append, List.length_singleton] at hroom
    have hcomma : (Cstr.lit ",").bytes.length = 1 := rfl
    rcases Nat.lt_or_ge (t.length + 1) 4096 with hlt | hge
    · obtain ⟨b, hb, hbt⟩ := strcat_some (s := .lit ",") hbuf (by omega)
      have hcat := strcat_none hbt (s := .ofBytes ta.name) (by
        rw [hname, List.length_append]; omega)
      simp [tagBody, harg, hb, hcat]
    · simp [tagBody, harg, strcat_none hbuf (s := .lit ",") (by omega)]

/-- **The loop over the tags** stays in the buffer just when all their names fit. -/
theorem tags_strcat (hbuf : cstr buf 0 = some t) (hfree : ∀ ta ∈ tags, 0 ∉ ta.name) (arg : ℕ) (hroom : t.length < 4096) :
    if (t ++ tagTexts arg tags).length < 4096
    then ∃ buf', tags.foldlM tagBody (buf, arg) = some (buf', arg + tags.length) ∧
      cstr buf' 0 = some (t ++ tagTexts arg tags)
    else tags.foldlM tagBody (buf, arg) = none := by
  induction tags generalizing buf t arg with
  | nil =>
    rw [tagTexts, List.append_nil, if_pos hroom]
    exact ⟨buf, rfl, hbuf⟩
  | cons ta tags ih =>
    have hname := hfree ta List.mem_cons_self
    have hassoc : t ++ tagTexts arg (ta :: tags) =
        (t ++ ((if arg ≠ 0 then [44] else []) ++ ta.name)) ++ tagTexts (arg + 1) tags := by
      rw [tagTexts, List.append_assoc, List.append_assoc]
    rw [hassoc, List.foldlM_cons]
    rcases Nat.lt_or_ge (t ++ ((if arg ≠ 0 then [44] else []) ++ ta.name)).length 4096 with hlt | hge
    · obtain ⟨buf', hbody, htext⟩ := tagBody_some hbuf hname hlt
      have hrest := ih htext (fun tb htb => hfree tb (List.mem_cons_of_mem ta htb)) (arg + 1) hlt
      rw [hbody, Option.bind_eq_bind, Option.bind_some, List.length_cons, Nat.add_comm tags.length, ← Nat.add_assoc]
      exact hrest
    · rw [if_neg (by rw [List.length_append]; omega), tagBody_none hbuf hname hge]
      rfl

/-! ## The line -/

theorem iTracktaglistLine_run (hget : (ducCmdTrackget id).run h s = some (some tr, s₁))
    (hlist : (ducCmdTracktaglist id).run h s₁ = some (some tags, s₂)) (htr : ∀ v ∈ tr.values, v.Fits)
    (htags : ∀ ta ∈ tags, ∀ v ∈ ta.values, v.Fits) :
    (iTracktaglistLine c id).run h s =
      if (tagLine tr tags).length < 4096 then some ((0, some (tagLine tr tags)), s₂) else none := by
  have halb : -2 ^ 31 ≤ tr.album.id ∧ tr.album.id < 2 ^ 31 :=
    htr (.number tr.album.id) (by simp [DucTrack.values, DucAlbum.values])
  have hnr : -2 ^ 31 ≤ tr.albumnr ∧ tr.albumnr < 2 ^ 31 :=
    htr (.number tr.albumnr) (by simp [DucTrack.values])
  have hfree : ∀ ta ∈ tags, 0 ∉ ta.name := fun ta hta => htags ta hta (.text ta.name) (by simp [DucTag.values])
  have hlalb := length_decimalInt_le halb.1 (by simp only [INT_MAX]; omega)
  have hlnr := length_decimalInt_le hnr.1 (by simp only [INT_MAX]; omega)
  have hid := dfmtTrackid_eq (c := c) (a := tr.album.id) (b := tr.albumnr) ⟨halb.1, by simp only [INT_MAX]; omega⟩
    ⟨hnr.1, by simp only [INT_MAX]; omega⟩
  -- the number of the track and what stands behind it fit
  obtain ⟨buf, hcat, htext⟩ := strcat_some (m := Block.fill 4096 0) (t := [])
    (s := ⟨decimalInt tr.album.id ++ 47 :: decimalInt tr.albumnr, trackid_free _ _⟩)
    (cstr_append (m := Block.fill 4096 0) (a := []) (r := List.replicate 4095 0) rfl List.not_mem_nil)
    (by simp only [List.length_nil, List.length_append, List.length_cons]; omega)
  obtain ⟨buf', hcat', htext'⟩ := strcat_some (s := .lit ": ") htext (by
    rw [show (Cstr.lit ": ").bytes.length = 2 from rfl]
    simp only [List.nil_append, List.length_append, List.length_cons]
    omega)
  have hline : [] ++ (decimalInt tr.album.id ++ 47 :: decimalInt tr.albumnr) ++ (Cstr.lit ": ").bytes ++
      tagTexts 0 tags = tagLine tr tags := by
    rw [tagTexts_zero, tagLine, List.nil_append, List.append_assoc]
    rfl
  have hloop := tags_strcat htext' hfree 0 (by
    rw [List.length_append, show (Cstr.lit ": ").bytes.length = 2 from rfl]
    simp only [List.nil_append, List.length_append, List.length_cons]
    omega)
  rw [hline] at hloop
  rw [iTracktaglistLine, Prog.run_bind, hget, Option.bind_some]
  dsimp only
  rw [hid, Prog.run_bind, Prog.run_ofOption, Option.bind_eq_bind, Option.bind_some, hcat, Option.map_some, Option.bind_some]
  dsimp only
  rw [Prog.run_bind, Prog.run_ofOption, hcat', Option.map_some, Option.bind_some]
  dsimp only
  rw [Prog.run_bind, hlist, Option.bind_some]
  dsimp only
  rw [Prog.run_bind, Prog.run_ofOption]
  by_cases hfits : (tagLine tr tags).length < 4096
  · rw [if_pos hfits] at hloop ⊢
    obtain ⟨buf'', hbuf, hshown⟩ := hloop
    rw [hbuf, Option.map_some, Option.bind_some]
    dsimp only
    rw [Prog.run_bind, Prog.run_ofOption, hshown]
    rfl
  · rw [if_neg hfits] at hloop ⊢
    rw [hloop]
    rfl

/-! ## Servers -/

theorem DucTag.reads (hfits : ∀ v ∈ ta.values, v.Fits) : ReadsAs ducTagParse ta.line ta :=
  fills_tag.reads_encoded undoes_escape DucTag.values_injective rfl hfits

/-- The server has this track, and these are its tags. For a track without tags it sends an empty line. -/
structure Tagged (sv : Server) (sent : List Request) (id : ℤ) (tr : DucTrack) (tags : List DucTag) : Prop where
  track : ∃ rep, sv.answer sent ⟨.lit "trackget %d", [.int id]⟩ = some rep ∧ Grants rep [tr.line]
  listed : ∃ rep, sv.answer (sent ++ [⟨.lit "trackget %d", [.int id]⟩]) ⟨.lit "tracktaglist %d", [.int id]⟩ = some rep ∧
    (Grants rep (tags.map DucTag.line) ∨ (tags = [] ∧ Grants rep [[]]))
  track_fits : ∀ v ∈ tr.values, v.Fits
  tags_fit : ∀ ta ∈ tags, ∀ v ∈ ta.values, v.Fits

/-- A server for each track and its tags. -/
def tagServer (tr : DucTrack) (tags : List DucTag) : Server where
  fd := 3
  answer _ q := some (grant (
    if q.fmt = .lit "trackget %d" then [tr.line] else if tags = [] then [[]] else tags.map DucTag.line))

theorem tagServer_tagged (sent : List Request) (id : ℤ) (htr : ∀ v ∈ tr.values, v.Fits)
    (htags : ∀ ta ∈ tags, ∀ v ∈ ta.values, v.Fits) : Tagged (tagServer tr tags) sent id tr tags where
  track := ⟨_, rfl, grants_grant [tr.line] (List.cons_ne_nil _ _)⟩
  listed := by
    refine ⟨_, rfl, ?_⟩
    rw [if_neg (show Cstr.lit "tracktaglist %d" ≠ .lit "trackget %d" by decide)]
    split_ifs with hnil
    · exact Or.inr ⟨hnil, grants_grant [[]] (List.cons_ne_nil _ _)⟩
    · exact Or.inl (grants_grant _ (by simpa using hnil))
  track_fits := htr
  tags_fit := htags

variable {sv : Server} {sent : List Request}

theorem Tagged.trackget_run (ht : Tagged sv sent id tr tags) :
    (ducCmdTrackget id).run sv.op sent = some (some tr, sent ++ [⟨.lit "trackget %d", [.int id]⟩]) := by
  obtain ⟨rep, hrep, hgrants⟩ := ht.track
  have hrun := askConv_server ducTrackParse hrep
  rw [if_pos hgrants.code, hgrants.last, lineConverter_line ht.track_fits] at hrun
  exact hrun

theorem Tagged.tracktaglist_run (ht : Tagged sv sent id tr tags) : ∃ sent',
    (ducCmdTracktaglist id).run sv.op (sent ++ [⟨.lit "trackget %d", [.int id]⟩]) = some (some tags, sent') := by
  obtain ⟨rep, hrep, hgrants⟩ := ht.listed
  have hrun := askIter_server ducTagParse hrep
  refine ⟨_, hrun.trans (congrArg some (Prod.ext ?_ rfl))⟩
  rcases hgrants with hgrants | ⟨rfl, hgrants⟩
  · rw [hgrants.code, if_neg (by decide), hgrants.texts, itRecords_reads _ fun ta hta => DucTag.reads (ht.tags_fit ta hta)]
    have hwalk : (walk ⟨tags.map some⟩).map some = tags.map some := walk_map_some.2 (by simp)
    exact congrArg some (List.map_injective_iff.2 (Option.some_injective _) hwalk)
  · rw [hgrants.code, if_neg (by decide), hgrants.texts]
    rfl

theorem Tagged.run (ht : Tagged sv sent id tr tags) : ∃ sent', (iTracktaglistLine c id).run sv.op sent =
    if (tagLine tr tags).length < 4096 then some ((0, some (tagLine tr tags)), sent') else none := by
  obtain ⟨sent', hlist⟩ := ht.tracktaglist_run
  exact ⟨sent', iTracktaglistLine_run ht.trackget_run hlist ht.track_fits ht.tags_fit⟩

/-- **The line of the tags** is shown with every tag in its order just when it has at most 4095 bytes. A longer
line is written behind the buffer. -/
theorem tagLine_iff (c : Clib) (ht : Tagged sv sent id tr tags) :
    (∃ sent', (iTracktaglistLine c id).run sv.op sent = some ((0, some (tagLine tr tags)), sent')) ↔
      (tagLine tr tags).length ≤ 4095 := by
  obtain ⟨sent', hrun⟩ := ht.run (c := c)
  rw [hrun, ← Nat.lt_succ_iff]
  split_ifs with hfits
  · exact iff_of_true ⟨sent', rfl⟩ hfits
  · exact iff_of_false (fun ⟨_, hnone⟩ => by cases hnone) hfits

/-- A track of an album. -/
def plainTrack : DucTrack := ⟨7, ⟨2, [], ⟨4, []⟩, 1999⟩, 1, [], ⟨4, []⟩, 60⟩

/-- The theorem at a track with two tags. -/
theorem tagLine_iff_two : ∃ sent', (iTracktaglistLine .glibc 7).run
    (tagServer plainTrack [⟨1, [97], []⟩, ⟨2, [98], []⟩]).op [] = some ((0, some (Cstr.lit "2/1: a,b").bytes), sent') :=
  (tagLine_iff .glibc (tagServer_tagged [] 7 (by decide) (by decide))).2 (by decide)

/-- Three tags with names that fill most of a line. -/
def longTags : List DucTag := [1, 2, 3].map fun k => ⟨k, List.replicate 2000 97, []⟩

/-- **The buffer is left.** The names of three tags, each on a line of its own that a reply can carry, make a
line of more than 4095 bytes. -/
theorem tagLine_leaves : Tagged (tagServer plainTrack longTags) [] 7 plainTrack longTags ∧
    (∀ ta ∈ longTags, ta.line.length ≤ 2042) ∧
    (iTracktaglistLine .glibc 7).run (tagServer plainTrack longTags).op [] = none := by
  have hfits : ∀ ta ∈ longTags, ∀ v ∈ ta.values, v.Fits := by decide +kernel
  have htagged : Tagged (tagServer plainTrack longTags) [] 7 plainTrack longTags :=
    tagServer_tagged [] 7 (by decide) hfits
  refine ⟨htagged, by decide +kernel, ?_⟩
  obtain ⟨sent', hrun⟩ := htagged.run (c := .glibc)
  rw [hrun, if_neg (by decide +kernel)]

end Dudlc
