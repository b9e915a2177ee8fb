import Dudlc.Records
import Dudlc.Lib.Heap

/-!
# Records in dynamic memory

The parsers of the records allocate a block for the record, one for each text and those of the records in it.
When a field is malformed or `malloc` returns NULL, they release what they have so far and return NULL.

* `Slot`, `Cell`, `RowType`: the contents of the blocks.
* `Member`, `structParse`, `structFree`: a parser and a free function of `lib/`, made from the fields of the struct.
* `ducArtistParseHeap`, `ducArtistFree` and their kind.
* `structAt`, `DucArtist.At` and its kind: the blocks of a record.
* `Lays`, `Allocates`: what the parsers and the free functions do; `Lays.struct`, `struct_frees`.
* **`records_allocated`**: the nine records, however often `malloc` returns NULL.
-/

namespace Dudlc

open Lib Lib.HeapM Lib.Assn

/-! ## Blocks -/

/-- A field of a struct. The pointer 0 is NULL. -/
inductive Slot
  | num (z : ℤ)
  | ptr (p : ℕ)
  deriving DecidableEq

/-- The records with a free function of their own. -/
inductive RowType
  | artist | album | track | user | client | queue | history | tag | sfilter | help
  deriving DecidableEq

/-- The content of a block: a string, a record, `struct _duc_it_datalist` and `_duc_iter`. -/
inductive Cell
  | string (t : List UInt8)
  | struct (fields : List Slot)
  | node (data next : ℕ)
  | iter (list : ℕ) (freefunc : RowType)
  deriving DecidableEq

/-- A parser: the pointer that it returns, and `*end`. It has no result when it leaves the memory in which the
line stands. -/
abbrev HeapParser := (n : ℕ) → Block UInt8 n → ℕ → HeapM Cell (ℕ × ℕ)

/-- A step that looks at the line only. -/
def look {α : Type} (o : Option α) : HeapM Cell α := fun s => o.map fun a => (a, s)

/-- `_duc_fielddup`. Without memory no caller looks at `*end`. -/
def ducFielddupHeap : HeapParser := fun _ m s => do
  let k ← look (strcspn [TAB] m s)
  let p ← malloc (.string (unescape false ((m.cells.drop s).take k)))
  if p = 0 then return (0, s) else return (p, s + k)

/-! ## Parsers -/

/-- A field of a record: how it is read, and how it is released. -/
inductive Member
  | number
  | text
  | sub (parse : HeapParser) (free : ℕ → HeapM Cell Unit)

/-- A pointer that is not NULL. -/
def filled (x : ℕ × ℕ) : Option Slot × ℕ := (if x.1 = 0 then none else some (.ptr x.1), x.2)

/-- A field is read. -/
def Member.read : Member → (n : ℕ) → Block UInt8 n → ℕ → HeapM Cell (Option Slot × ℕ)
  | .number, n, m, s => do
    let (z, e) ← look (Lib.number n m s)
    return (z.map .num, e)
  | .text, n, m, s => do
    let x ← ducFielddupHeap n m s
    return filled x
  | .sub parse _, n, m, s => do
    let x ← parse n m s
    return filled x

/-- A field is released. -/
def Member.release : Member → Slot → HeapM Cell Unit
  | .text, .ptr p => free p
  | .sub _ f, .ptr p => f p
  | _, _ => pure ()

/-- The fields are released one after the other. -/
def clean : List (Member × Slot) → HeapM Cell Unit
  | [] => pure ()
  | (f, v) :: done => do
    f.release v
    clean done

/-- The fields from the first of `fs` on, behind those of `done`, of which the last one stands first. Where a
field is missing, the labels `clean2`, `clean3` and so on release those before it. -/
def structFields (n : ℕ) (m : Block UInt8 n) :
    List Member → ℕ → List (Member × Slot) → HeapM Cell (Option (List Slot × ℕ))
  | [], s, done => return some (done.reverse.map Prod.snd, s)
  | [f], s, done => do
    match ← f.read n m s with
    | (none, _) =>
      clean done
      return none
    | (some v, e) => return some (((f, v) :: done).reverse.map Prod.snd, e)
  | f :: fs, s, done => do
    match ← f.read n m s with
    | (none, _) =>
      clean done
      return none
    | (some v, e) => structFields n m fs (e + 1) ((f, v) :: done)

/-- A parser. Nothing looks at the block before all fields are there, and so they are stored at once. -/
def structParse (fs : List Member) : HeapParser := fun n m line => do
  let p ← malloc (.struct [])
  if p = 0 then return (0, line)
  else
    match ← structFields n m fs line [] with
    | none =>
      free p
      return (0, line)
    | some (vs, e) =>
      store p (.struct vs)
      return (p, e)

/-- A free function, which releases the fields with the numbers in `order`. -/
def structFree (fs : List Member) (order : List ℕ) (p : ℕ) : HeapM Cell Unit :=
  if p = 0 then pure ()
  else do
    match ← load p with
    | some (.struct vs) =>
      clean (order.map fun i => (fs.getD i .number, vs.getD i (.num 0)))
      free p
    | _ => crash ()

/-! ## The records -/

def artistMembers : List Member := [.number, .text]

/-- `_duc_artist_parse` -/
def ducArtistParseHeap : HeapParser := structParse artistMembers

/-- `duc_artist_free` -/
def ducArtistFree : ℕ → HeapM Cell Unit := structFree artistMembers [1]

def albumMembers : List Member := [.number, .text, .number, .sub ducArtistParseHeap ducArtistFree]

/-- `_duc_album_parse` -/
def ducAlbumParseHeap : HeapParser := structParse albumMembers

/-- `duc_album_free` -/
def ducAlbumFree : ℕ → HeapM Cell Unit := structFree albumMembers [3, 1]

def trackMembers : List Member :=
  [.number, .number, .text, .number, .sub ducArtistParseHeap ducArtistFree, .sub ducAlbumParseHeap ducAlbumFree]

/-- `_duc_track_parse` -/
def ducTrackParseHeap : HeapParser := structParse trackMembers

/-- `duc_track_free` -/
def ducTrackFree : ℕ → HeapM Cell Unit := structFree trackMembers [5, 4, 2]

def userMembers : List Member := [.number, .text, .number]

/-- `_duc_user_parse` -/
def ducUserParseHeap : HeapParser := structParse userMembers

/-- `duc_user_free` -/
def ducUserFree : ℕ → HeapM Cell Unit := structFree userMembers [1]

def clientMembers : List Member := [.number, .text, .sub ducUserParseHeap ducUserFree]

/-- `_duc_client_parse` -/
def ducClientParseHeap : HeapParser := structParse clientMembers

/-- `duc_client_free` -/
def ducClientFree : ℕ → HeapM Cell Unit := structFree clientMembers [2, 1]

def queueMembers : List Member :=
  [.number, .number, .sub ducUserParseHeap ducUserFree, .sub ducTrackParseHeap ducTrackFree]

/-- `_duc_queue_parse` -/
def ducQueueParseHeap : HeapParser := structParse queueMembers

/-- `duc_queue_free` -/
def ducQueueFree : ℕ → HeapM Cell Unit := structFree queueMembers [2, 3]

def historyMembers : List Member := [.number, .sub ducUserParseHeap ducUserFree, .sub ducTrackParseHeap ducTrackFree]

/-- `_duc_history_parse` -/
def ducHistoryParseHeap : HeapParser := structParse historyMembers

/-- `duc_history_free` -/
def ducHistoryFree : ℕ → HeapM Cell Unit := structFree historyMembers [1, 2]

def tagMembers : List Member := [.number, .text, .text]

/-- `_duc_tag_parse` -/
def ducTagParseHeap : HeapParser := structParse tagMembers

/-- `duc_tag_free` -/
def ducTagFree : ℕ → HeapM Cell Unit := structFree tagMembers [1, 2]

def sfilterMembers : List Member := [.number, .text, .text]

/-- `_duc_sfilter_parse` -/
def ducSfilterParseHeap : HeapParser := structParse sfilterMembers

/-- `duc_sfilter_free` -/
def ducSfilterFree : ℕ → HeapM Cell Unit := structFree sfilterMembers [1, 2]

/-! ## The blocks of a record -/

/-- What a field owns. -/
abbrev Part := Slot → Assn Cell

def numberAt (z : ℤ) : Part := fun v => fact (v = .num z)

def textAt (t : List UInt8) : Part := fun v => ⨆ p, fact (v = .ptr p) * cell p (.string t)

def subAt (own : ℕ → Assn Cell) : Part := fun v => ⨆ p, fact (v = .ptr p) * own p

/-- The fields one by one. -/
def parts : List Part → List Slot → Assn Cell
  | [], [] => 1
  | P :: Ps, v :: vs => P v * parts Ps vs
  | _, _ => ⊥

/-- The block of a record, and what its fields own. -/
def structAt (Ps : List Part) (p : ℕ) : Assn Cell := ⨆ vs, cell p (.struct vs) * parts Ps vs

def DucArtist.parts (a : DucArtist) : List Part := [numberAt a.id, textAt a.artist]

/-- The blocks of an artist. -/
def DucArtist.At (a : DucArtist) : ℕ → Assn Cell := structAt a.parts

def DucAlbum.parts (a : DucAlbum) : List Part :=
  [numberAt a.id, textAt a.album, numberAt a.year, subAt a.artist.At]

def DucAlbum.At (a : DucAlbum) : ℕ → Assn Cell := structAt a.parts

def DucTrack.parts (t : DucTrack) : List Part :=
  [numberAt t.id, numberAt t.albumnr, textAt t.title, numberAt t.duration, subAt t.artist.At, subAt t.album.At]

def DucTrack.At (t : DucTrack) : ℕ → Assn Cell := structAt t.parts

def DucUser.parts (u : DucUser) : List Part := [numberAt u.id, textAt u.name, numberAt u.right]

def DucUser.At (u : DucUser) : ℕ → Assn Cell := structAt u.parts

def DucClient.parts (c : DucClient) : List Part := [numberAt c.id, textAt c.addr, subAt c.user.At]

def DucClient.At (c : DucClient) : ℕ → Assn Cell := structAt c.parts

def DucQueue.parts (q : DucQueue) : List Part :=
  [numberAt q.id, numberAt q.queued, subAt q.user.At, subAt q.track.At]

def DucQueue.At (q : DucQueue) : ℕ → Assn Cell := structAt q.parts

def DucHistory.parts (h : DucHistory) : List Part := [numberAt h.played, subAt h.user.At, subAt h.track.At]

def DucHistory.At (h : DucHistory) : ℕ → Assn Cell := structAt h.parts

def DucTag.parts (t : DucTag) : List Part := [numberAt t.id, textAt t.name, textAt t.desc]

def DucTag.At (t : DucTag) : ℕ → Assn Cell := structAt t.parts

def DucSfilter.parts (s : DucSfilter) : List Part := [numberAt s.id, textAt s.name, textAt s.filter]

def DucSfilter.At (s : DucSfilter) : ℕ → Assn Cell := structAt s.parts

/-! ## What a field does -/

variable {α β : Type} {p : Reader α} {f g : Member} {fs : List Member} {part : α → Part}

/-- A field that is read as by `p`: it is missing when it is malformed or `malloc` has returned NULL, and owns
its part of the memory otherwise. -/
def readPost (p : Reader α) (part : α → Part) (n : ℕ) (m : Block UInt8 n) (s : ℕ) (x : Option Slot × ℕ) (b : Bool) :
    Assn Cell :=
  fact (x.1 = none ∧ (b = true ∨ ∃ e, p n m s = some (none, e))) ⊔
    ⨆ a, ⨆ v, fact (b = false ∧ x.1 = some v ∧ p n m s = some (some a, x.2)) * part a v

/-- A field of the struct does what the reader says. -/
structure Member.Reads (f : Member) (p : Reader α) (part : α → Part) : Prop where
  reads : ∀ n m s, Triple 1 (f.read n m s) (readPost p part n m s)
  releases : ∀ a v, Triple (part a v) (f.release v) (quiet fun _ => 1)
  returns : ∀ n m s σ, σ.sound = true → (p n m s).isSome → (f.read n m s σ).isSome
  ends : ∀ v σ, (f.release v σ).isSome

/-- What a parser does: it returns NULL, with nothing allocated, when the record is malformed or `malloc` has
returned NULL, and the record otherwise. -/
def parsePost (p : Reader α) (own : α → ℕ → Assn Cell) (n : ℕ) (m : Block UInt8 n) (s : ℕ) (x : ℕ × ℕ) (b : Bool) :
    Assn Cell :=
  fact (x.1 = 0 ∧ (b = true ∨ p n m s = some (none, x.2))) ⊔
    ⨆ a, fact (b = false ∧ p n m s = some (some a, x.2)) * own a x.1

/-- A parser and a free function do what the reader says. -/
structure Allocates (parse : HeapParser) (free : ℕ → HeapM Cell Unit) (p : Reader α) (own : α → ℕ → Assn Cell) :
    Prop where
  parses : ∀ n m s, Triple 1 (parse n m s) (parsePost p own n m s)
  frees : ∀ a q, Triple (own a q) (free q) (quiet fun _ => 1)
  null : free 0 = pure ()
  ne_null : ∀ a, own a 0 = ⊥
  returns : ∀ n m s σ, σ.sound = true → (p n m s).isSome → (parse n m s σ).isSome
  ends : ∀ q σ, (free q σ).isSome

theorem triple_look {γ : Type} {o : Option γ} {c : γ → HeapM Cell β} {P : Assn Cell} {Q : β → Bool → Assn Cell}
    (h : ∀ a, o = some a → Triple P (c a) Q) : Triple P (look o >>= c) Q := by
  intro F s x s' hs hp hx
  obtain ⟨⟨a, t⟩, ht, hx⟩ := Option.bind_eq_some_iff.1 hx
  obtain ⟨b, hb, heq⟩ := Option.map_eq_some_iff.1 ht
  obtain ⟨rfl, rfl⟩ := Prod.mk.inj heq
  exact h b hb F s x s' hs hp hx

theorem reads_number_member : Member.Reads .number number numberAt where
  reads n m s := by
    refine triple_look fun ⟨z, e⟩ hz => Triple.pure fun h hh => ?_
    cases z with
    | none => exact Or.inl ⟨⟨rfl, Or.inr ⟨e, hz⟩⟩, hh⟩
    | some z =>
      refine Or.inr ((iSup_apply _).2 ⟨z, (iSup_apply _).2 ⟨.num z, fact_mul.2 ⟨⟨rfl, rfl, hz⟩, ?_⟩⟩⟩)
      exact ⟨rfl, hh⟩
  releases a v := by
    rw [← mul_one (numberAt a v)]
    refine Triple.fact fun hv => Triple.pure ?_
    rw [quiet, fact_true rfl, mul_one]
  returns n m s σ _ h := by
    obtain ⟨⟨z, e⟩, hz⟩ := Option.isSome_iff_exists.1 h
    simp [Member.read, look, hz, bind_apply, pure_apply]
  ends v σ := rfl

theorem Allocates.member {parse : HeapParser} {free : ℕ → HeapM Cell Unit} {own : α → ℕ → Assn Cell}
    (h : Allocates parse free p own) : Member.Reads (.sub parse free) p fun a => subAt (own a) where
  reads n m s := by
    refine (h.parses n m s).bind fun x b => Triple.pure ?_
    rw [Bool.or_false]
    refine sup_le (fun σ hh => ?_) (iSup_le fun a => fun σ hh => ?_)
    · obtain ⟨⟨h0, hor⟩, hemp⟩ := hh
      exact Or.inl ⟨⟨if_pos h0, hor.imp id fun hp => ⟨x.2, hp⟩⟩, hemp⟩
    · obtain ⟨⟨hb, hp⟩, hh⟩ := fact_mul.1 hh
      have h0 : x.1 ≠ 0 := by
        intro h0
        rw [h0, h.ne_null] at hh
        exact hh
      refine Or.inr ((iSup_apply _).2 ⟨a, (iSup_apply _).2 ⟨.ptr x.1, fact_mul.2 ⟨⟨hb, if_neg h0, hp⟩, ?_⟩⟩⟩)
      exact (iSup_apply _).2 ⟨x.1, fact_mul.2 ⟨rfl, hh⟩⟩
  releases a v := by
    refine Triple.iSup fun q => Triple.fact fun hv => ?_
    subst hv
    exact h.frees a q
  returns n m s σ hσ hp := by
    obtain ⟨⟨x, σ'⟩, hx⟩ := Option.isSome_iff_exists.1 (h.returns n m s σ hσ hp)
    simp [Member.read, hx, bind_apply, pure_apply]
  ends v σ := by
    cases v with
    | num z => rfl
    | ptr q => exact h.ends q σ

/-- **`_duc_fielddup` with memory.** -/
theorem allocates_fielddup : Allocates ducFielddupHeap free ducFielddup fun t q => cell q (.string t) where
  parses n m s := by
    refine triple_look fun k hk => (triple_malloc _).bind fun q b => ?_
    have hread : ducFielddup n m s = some (some (unescape false ((m.cells.drop s).take k)), s + k) := by
      simp [ducFielddup, text, hk]
    cases b with
    | true =>
      rw [if_pos rfl, ← mul_one (fact (q = 0))]
      refine Triple.fact fun hq => ?_
      rw [if_pos hq]
      exact Triple.pure fun h hh => Or.inl ⟨⟨rfl, Or.inl rfl⟩, hh⟩
    | false =>
      rw [if_neg Bool.false_ne_true]
      split_ifs with hq
      · rw [hq, cell_zero]
        exact Triple.bot
      · exact Triple.pure fun h hh => Or.inr ((iSup_apply _).2 ⟨_, fact_mul.2 ⟨⟨rfl, hread⟩, hh⟩⟩)
  frees t q := triple_free q _
  null := rfl
  ne_null t := cell_zero
  returns n m s σ _ h := by
    obtain ⟨⟨t, e⟩, ht⟩ := Option.isSome_iff_exists.1 h
    obtain ⟨k, hk, -⟩ := Option.bind_eq_some_iff.1 ht
    obtain ⟨q, σ', hq⟩ := malloc_returns (.string (unescape false ((m.cells.drop s).take k))) σ
    simp only [ducFielddupHeap, look, hk, bind_apply, Option.map_some, Option.bind_some, hq]
    split_ifs <;> rfl
  ends := free_returns

theorem reads_text_member : Member.Reads .text ducFielddup textAt where
  reads := allocates_fielddup.member.reads
  releases t v := by
    refine Triple.iSup fun q => Triple.fact fun hv => ?_
    subst hv
    exact triple_free q _
  returns := allocates_fielddup.member.returns
  ends v σ := by
    cases v with
    | num z => rfl
    | ptr q => exact free_returns q σ

/-! ## All fields -/

theorem triple_clean_nil : Triple 1 (clean []) (quiet fun _ => 1) := by
  refine Triple.pure ?_
  rw [quiet, fact_true rfl, mul_one]

theorem triple_clean_cons {P D : Assn Cell} {v : Slot} {done : List (Member × Slot)}
    (hf : Triple P (f.release v) (quiet fun _ => 1)) (hd : Triple D (clean done) (quiet fun _ => 1)) :
    Triple (P * D) (clean ((f, v) :: done)) (quiet fun _ => 1) :=
  hf.step fun _ => by rwa [one_mul]

/-- What the fields from here on do, behind fields that own `D`: one is missing, and then all are released, or
they are there and own the rest of `layout`. -/
def fieldsPost (q : Reader β) (done : List Part) (layout : β → List Part) (n : ℕ) (m : Block UInt8 n) (s : ℕ)
    (vs₀ : List Slot) (D : Assn Cell) : Option (List Slot × ℕ) → Bool → Assn Cell
  | none, b => fact (b = true ∨ ∃ e, q n m s = some (none, e))
  | some (vs, e), b => ⨆ y, ⨆ ws, ⨆ Ps,
      fact (b = false ∧ q n m s = some (some y, e) ∧ vs = vs₀ ++ ws ∧ layout y = done ++ Ps) * (D * parts Ps ws)

/-- The fields `fs` are read as by `q`, behind fields laid out as `done`. -/
structure Lays (fs : List Member) (q : Reader β) (done : List Part) (layout : β → List Part) : Prop where
  reads : ∀ n m s (old : List (Member × Slot)) D, Triple D (clean old) (quiet fun _ => 1) →
    Triple D (structFields n m fs s old) (fieldsPost q done layout n m s (old.reverse.map Prod.snd) D)
  returns : ∀ n m s (old : List (Member × Slot)) σ, σ.sound = true → (q n m s).isSome →
    (∀ σ, (clean old σ).isSome) → (structFields n m fs s old σ).isSome

theorem Member.Reads.bind (hf : f.Reads p part) {n s : ℕ} {m : Block UInt8 n} {D : Assn Cell}
    {k : Option Slot × ℕ → HeapM Cell β} {R : β → Bool → Assn Cell}
    (hnone : ∀ b e, (b = true ∨ ∃ e', p n m s = some (none, e')) →
      Triple D (k (none, e)) fun x b' => R x (b || b'))
    (hsome : ∀ a v e, p n m s = some (some a, e) → Triple (part a v * D) (k (some v, e)) R) :
    Triple D (f.read n m s >>= k) R := by
  have hread := (hf.reads n m s).frame D
  rw [one_mul] at hread
  refine hread.bind fun x b => ?_
  obtain ⟨o, e⟩ := x
  rw [readPost, Quantale.sup_mul_distrib]
  refine Triple.sup (Triple.fact ?_) ?_
  · rintro ⟨rfl, hor⟩
    exact hnone b e hor
  · simp only [Quantale.iSup_mul_distrib, mul_assoc]
    refine Triple.iSup fun a => Triple.iSup fun v => Triple.fact ?_
    rintro ⟨rfl, rfl, hp⟩
    simpa using hsome a v e hp

theorem Member.Reads.agrees (hf : f.Reads p part) {n s i : ℕ} {m : Block UInt8 n} {v : Slot} {σ σ' : Arena Cell}
    (hσ : σ.sound = true) (hx : f.read n m s σ = some ((some v, i), σ')) :
    σ'.sound = true ∧ ∃ a, p n m s = some (some a, i) := by
  obtain ⟨hσ', b, -, hh⟩ := (hf.reads n m s).run hσ hx
  refine ⟨hσ', ?_⟩
  rw [readPost, Quantale.sup_mul_distrib] at hh
  rcases hh with hh | hh
  · exact absurd (fact_mul.1 hh).1.1 (by simp)
  · obtain ⟨a, hh⟩ := (iSup_mul_apply _).1 hh
    obtain ⟨w, hh⟩ := (iSup_mul_apply _).1 hh
    rw [mul_assoc] at hh
    exact ⟨a, (fact_mul.1 hh).1.2.2⟩

theorem triple_missing {q : Reader β} {done : List Part} {layout : β → List Part} {n s : ℕ} {m : Block UInt8 n}
    {old : List (Member × Slot)} {D : Assn Cell} {b : Bool} {vs₀ : List Slot}
    (hold : Triple D (clean old) (quiet fun _ => 1)) (hb : b = true ∨ ∃ e, q n m s = some (none, e)) :
    Triple D (clean old >>= fun _ => pure none) fun x b' => fieldsPost q done layout n m s vs₀ D x (b || b') :=
  hold.seq fun _ => Triple.pure fun h hh => ⟨by rwa [Bool.or_false], hh⟩

theorem missing_returns {old : List (Member × Slot)} (hold : ∀ σ, (clean old σ).isSome) (σ : Arena Cell) :
    ((clean old >>= fun _ => pure none : HeapM Cell (Option (List Slot × ℕ))) σ).isSome := by
  obtain ⟨⟨_, τ⟩, hτ⟩ := Option.isSome_iff_exists.1 (hold σ)
  rw [bind_apply, hτ]
  rfl

theorem Member.Reads.last {k : α → β} {done : List Part} {layout : β → List Part} (hf : f.Reads p part)
    (hl : ∀ a, layout (k a) = done ++ [part a]) : Lays [f] (p.map k) done layout where
  reads n m s old D hold := by
    have hmap : ∀ r e, p n m s = some (r, e) → p.map k n m s = some (r.map k, e) := by
      intro r e hr
      simp [Reader.map, hr]
    refine hf.bind (fun b e hor => ?_) fun a v e ha => Triple.pure fun h hh => ?_
    · exact triple_missing hold (hor.imp id (Exists.imp fun e' he' => hmap none e' he'))
    · refine (iSup_apply _).2 ⟨k a, (iSup_apply _).2 ⟨[v], (iSup_apply _).2 ⟨[part a], ?_⟩⟩⟩
      refine fact_mul.2 ⟨⟨rfl, hmap _ e ha, ?_, hl a⟩, ?_⟩
      · simp
      · rw [parts, parts, mul_one, mul_comm]
        exact hh
  returns n m s old σ hσ hq hold := by
    obtain ⟨⟨r, e⟩, hr⟩ := Option.isSome_iff_exists.1 hq
    obtain ⟨⟨r', e'⟩, hr', -⟩ := Option.bind_eq_some_iff.1 hr
    obtain ⟨⟨⟨o, i⟩, σ'⟩, hx⟩ := Option.isSome_iff_exists.1 (hf.returns n m s σ hσ (by rw [hr']; rfl))
    rw [structFields, bind_apply, hx, Option.bind_some]
    cases o with
    | none => exact missing_returns hold σ'
    | some v => rfl

theorem Member.Reads.sep {q : α → Reader β} {done : List Part} {layout : β → List Part} (hf : f.Reads p part)
    (hq : ∀ a, Lays (g :: fs) (q a) (done ++ [part a]) layout) : Lays (f :: g :: fs) (p.sep q) done layout where
  reads n m s old D hold := by
    refine hf.bind (fun b e hor => ?_) fun a v e ha => ?_
    · exact triple_missing hold (hor.imp id (Exists.imp fun e' he' => sep_none he'))
    · refine ((hq a).reads n m (e + 1) ((f, v) :: old) _ (triple_clean_cons (hf.releases a v) hold)).post ?_
      intro x b
      cases x with
      | none =>
        rintro h ⟨hor, hh⟩
        exact ⟨hor.imp id (Exists.imp fun e' he' => by rw [sep_some ha, he']), hh⟩
      | some x =>
        obtain ⟨vs, i⟩ := x
        refine iSup_le fun y => iSup_le fun ws => iSup_le fun Ps => fun h hh => ?_
        obtain ⟨⟨hb, hy, hvs, hlay⟩, hh⟩ := fact_mul.1 hh
        refine (iSup_apply _).2 ⟨y, (iSup_apply _).2 ⟨v :: ws, (iSup_apply _).2 ⟨part a :: Ps,
          fact_mul.2 ⟨⟨hb, by rw [sep_some ha, hy], by rw [hvs]; simp, by rw [hlay]; simp⟩, ?_⟩⟩⟩⟩
        rw [parts]
        have hcomm : D * (part a v * parts Ps ws) = part a v * D * parts Ps ws := by ac_rfl
        rwa [hcomm]
  returns n m s old σ hσ hs hold := by
    obtain ⟨⟨r, e⟩, hr⟩ := Option.isSome_iff_exists.1 hs
    obtain ⟨⟨r', e'⟩, hr', hrest⟩ := Option.bind_eq_some_iff.1 hr
    obtain ⟨⟨⟨o, i⟩, σ'⟩, hx⟩ := Option.isSome_iff_exists.1 (hf.returns n m s σ hσ (by rw [hr']; rfl))
    rw [structFields, bind_apply, hx, Option.bind_some]
    · cases o with
      | none => exact missing_returns hold σ'
      | some v =>
        obtain ⟨hσ', a, ha⟩ := hf.agrees hσ hx
        refine (hq a).returns n m (i + 1) _ σ' hσ' ?_ fun σ => ?_
        · rw [← sep_some (q := q) ha]
          exact hs
        · obtain ⟨⟨_, τ⟩, hτ⟩ := Option.isSome_iff_exists.1 (hf.ends v σ)
          rw [clean, bind_apply, hτ]
          exact hold τ
    · exact fun h => by cases h

/-! ## Whole records -/

/-- A field owns its part, as a text and a record do. -/
inductive Owns : Member → Part → Prop
  | number (z : ℤ) : Owns .number (numberAt z)
  | text (t : List UInt8) : Owns .text (textAt t)
  | sub {α : Type} {parse : HeapParser} {free : ℕ → HeapM Cell Unit} {p : Reader α} {own : α → ℕ → Assn Cell}
      (h : Allocates parse free p own) (a : α) : Owns (.sub parse free) (subAt (own a))

theorem Owns.releases {P : Part} (h : Owns f P) (v : Slot) : Triple (P v) (f.release v) (quiet fun _ => 1) := by
  cases h with
  | number z => exact reads_number_member.releases z v
  | text t => exact reads_text_member.releases t v
  | sub h a => exact h.member.releases a v

def Member.isNumber : Member → Bool
  | .number => true
  | _ => false

theorem Owns.le_one {P : Part} (h : Owns f P) (hf : f.isNumber = true) (v : Slot) : P v ≤ 1 := by
  cases h with
  | number z => exact fact_le_one
  | _ => cases hf

/-- The fields that are pointers, each of them once. -/
def Pointers (fs : List Member) (order : List ℕ) : Prop :=
  order.Perm ((List.range fs.length).filter fun i => !(fs.getD i .number).isNumber)

instance (fs : List Member) (order : List ℕ) : Decidable (Pointers fs order) :=
  inferInstanceAs (Decidable (List.Perm ..))

/-- What field `i` owns. -/
def partAt (Ps : List Part) (vs : List Slot) (i : ℕ) : Assn Cell := Ps.getD i (fun _ => 1) (vs.getD i (.num 0))

theorem parts_le (Ps : List Part) (vs : List Slot) :
    parts Ps vs ≤ ((List.range Ps.length).map (partAt Ps vs)).prod := by
  induction Ps generalizing vs with
  | nil =>
    cases vs with
    | nil => simp [parts]
    | cons v vs => exact bot_le
  | cons P Ps ih =>
    cases vs with
    | nil => exact bot_le
    | cons v vs =>
      rw [List.length_cons, List.range_succ_eq_map, List.map_cons, List.prod_cons, List.map_map]
      exact mul_le_mul_right (ih vs) _

theorem Owns.at {Ps : List Part} (h : List.Forall₂ Owns fs Ps) {i : ℕ} (hi : i < fs.length) :
    Owns (fs.getD i .number) (Ps.getD i fun _ => 1) := by
  have hi' : i < Ps.length := h.length_eq ▸ hi
  rw [List.getD_eq_getElem _ _ hi, List.getD_eq_getElem _ _ hi']
  exact h.get hi hi'

theorem triple_clean_order {Ps : List Part} {vs : List Slot} (h : List.Forall₂ Owns fs Ps) {order : List ℕ}
    (ho : ∀ i ∈ order, i < fs.length) :
    Triple ((order.map (partAt Ps vs)).prod) (clean (order.map fun i => (fs.getD i .number, vs.getD i (.num 0))))
      (quiet fun _ => 1) := by
  induction order with
  | nil => exact triple_clean_nil
  | cons i order ih =>
    rw [List.map_cons, List.prod_cons, List.map_cons]
    exact triple_clean_cons ((Owns.at h (ho i List.mem_cons_self)).releases _)
      (ih fun j hj => ho j (List.mem_cons_of_mem _ hj))

theorem parts_le_order {Ps : List Part} {vs : List Slot} (h : List.Forall₂ Owns fs Ps) {order : List ℕ}
    (ho : Pointers fs order) : parts Ps vs ≤ (order.map (partAt Ps vs)).prod := by
  have hsplit := List.filter_append_perm (fun i => !(fs.getD i .number).isNumber) (List.range fs.length)
  have hprod := ((ho.append_right _).trans hsplit).map (partAt Ps vs) |>.prod_eq
  rw [List.map_append, List.prod_append, h.length_eq] at hprod
  have hnumbers : ∀ rest : List ℕ, (∀ i ∈ rest, i < fs.length ∧ (fs.getD i .number).isNumber = true) →
      (rest.map (partAt Ps vs)).prod ≤ 1 := by
    intro rest hrest
    refine (List.prod_le_pow_card _ 1 fun Q hQ => ?_).trans (one_pow _).le
    obtain ⟨i, hi, rfl⟩ := List.mem_map.1 hQ
    exact (Owns.at h (hrest i hi).1).le_one (hrest i hi).2 _
  calc parts Ps vs ≤ ((List.range Ps.length).map (partAt Ps vs)).prod := parts_le Ps vs
    _ = _ := hprod.symm
    _ ≤ (order.map (partAt Ps vs)).prod * 1 := by
      refine mul_le_mul_right (hnumbers _ fun i hi => ?_) _
      obtain ⟨hi, hnum⟩ := List.mem_filter.1 hi
      exact ⟨by rw [h.length_eq]; exact List.mem_range.1 hi, by simpa using hnum⟩
    _ = _ := mul_one _

/-- **A free function** releases the whole record. -/
theorem struct_frees {Ps : List Part} (h : List.Forall₂ Owns fs Ps) {order : List ℕ} (ho : Pointers fs order) (q : ℕ) :
    Triple (structAt Ps q) (structFree fs order q) (quiet fun _ => 1) := by
  refine Triple.iSup fun vs => ?_
  rw [structFree]
  split_ifs with hq
  · rw [hq, cell_zero, Quantale.bot_mul]
    exact Triple.bot
  refine Triple.load ?_
  rw [mul_comm]
  have horder : ∀ i ∈ order, i < fs.length := fun i hi =>
    List.mem_range.1 (List.mem_filter.1 (ho.mem_iff.1 hi)).1
  refine ((triple_clean_order h horder).step fun _ => ?_).pre (mul_le_mul_left (parts_le_order h ho) _)
  rw [one_mul]
  exact triple_free q _

theorem clean_returns {l : List (Member × Slot)} (h : ∀ x ∈ l, ∀ σ, (x.1.release x.2 σ).isSome) (σ : Arena Cell) :
    (clean l σ).isSome := by
  induction l generalizing σ with
  | nil => rfl
  | cons x l ih =>
    obtain ⟨⟨_, τ⟩, hτ⟩ := Option.isSome_iff_exists.1 (h x List.mem_cons_self σ)
    rw [clean, bind_apply, hτ]
    exact ih (fun y hy => h y (List.mem_cons_of_mem _ hy)) τ

theorem structFree_returns {order : List ℕ} (h : ∀ f ∈ fs, ∀ v σ, (f.release v σ).isSome) (q : ℕ) (σ : Arena Cell) :
    (structFree fs order q σ).isSome := by
  have hmem : ∀ i v σ, ((fs.getD i .number).release v σ).isSome := by
    intro i v σ
    by_cases hi : i < fs.length
    · rw [List.getD_eq_getElem _ _ hi]
      exact h _ (List.getElem_mem hi) v σ
    · rw [List.getD_eq_default _ _ (not_lt.1 hi)]
      rfl
  rw [structFree]
  split_ifs with hq
  · rfl
  rw [bind_apply, load]
  cases σ.heap.lookup q with
  | none => rfl
  | some v =>
    cases v with
    | struct vs =>
      have hclean := clean_returns (l := order.map fun i => (fs.getD i .number, vs.getD i (.num 0)))
        (fun x hx σ => by obtain ⟨i, -, rfl⟩ := List.mem_map.1 hx; exact hmem i _ σ) σ
      obtain ⟨⟨_, τ⟩, hτ⟩ := Option.isSome_iff_exists.1 hclean
      rw [Option.bind_some]
      dsimp only
      rw [bind_apply, hτ]
      exact free_returns q τ
    | _ => rfl

/-- **A parser and its free function**, from the fields of the struct. -/
theorem Lays.allocates {q : Reader β} {layout : β → List Part} (h : Lays fs q [] layout)
    (hfs : ∀ f ∈ fs, ∀ v σ, (f.release v σ).isSome) (howns : ∀ y, List.Forall₂ Owns fs (layout y)) {order : List ℕ}
    (ho : Pointers fs order) :
    Allocates (structParse fs) (structFree fs order) (record q) fun y => structAt (layout y) where
  parses n m s := by
    refine (triple_malloc _).bind fun p b => ?_
    cases b with
    | true =>
      rw [if_pos rfl, ← mul_one (fact (p = 0))]
      refine Triple.fact fun hp => ?_
      rw [if_pos hp]
      exact Triple.pure fun h hh => Or.inl ⟨⟨rfl, Or.inl rfl⟩, hh⟩
    | false =>
      rw [if_neg Bool.false_ne_true]
      split_ifs with hp
      · rw [hp, cell_zero]
        exact Triple.bot
      have hread := (h.reads n m s [] 1 triple_clean_nil).frame (cell p (.struct []))
      rw [one_mul] at hread
      refine hread.bind fun x b => ?_
      cases x with
      | none =>
        refine Triple.fact fun hor => ?_
        refine (triple_free p _).seq fun _ => Triple.pure fun σ hh => Or.inl ⟨⟨rfl, ?_⟩, hh⟩
        refine hor.imp (fun hb => by simp [hb]) fun ⟨e, he⟩ => ?_
        simp [record, he]
      | some x =>
        obtain ⟨vs, e⟩ := x
        simp only [fieldsPost, Quantale.iSup_mul_distrib, mul_assoc]
        refine Triple.iSup fun y => Triple.iSup fun ws => Triple.iSup fun Ps => Triple.fact ?_
        rintro ⟨rfl, hy, hvs, hlay⟩
        simp only [List.reverse_nil, List.map_nil, List.nil_append] at hvs hlay
        subst hvs
        rw [one_mul, mul_comm]
        refine (triple_store p (.struct []) (Cell.struct vs)).step fun _ => ?_
        refine Triple.pure fun σ hh => Or.inr ?_
        refine (iSup_apply _).2 ⟨y, fact_mul.2 ⟨⟨rfl, by simp [record, hy]⟩, ?_⟩⟩
        refine (iSup_apply _).2 ⟨vs, ?_⟩
        rwa [hlay]
  frees y := struct_frees (howns y) ho
  null := rfl
  ne_null y := by
    rw [structAt]
    simp
  returns n m s σ hσ hs := by
    obtain ⟨p, σ₁, hp⟩ := malloc_returns (.struct []) σ
    have hsound : σ₁.sound = true := ((triple_malloc (.struct [])).run hσ hp).1
    obtain ⟨⟨r, e⟩, hr⟩ := Option.isSome_iff_exists.1 hs
    obtain ⟨⟨r', e'⟩, hr', -⟩ := Option.bind_eq_some_iff.1 hr
    obtain ⟨⟨x, σ₂⟩, hx⟩ := Option.isSome_iff_exists.1
      (h.returns n m s [] σ₁ hsound (by rw [hr']; rfl) fun _ => rfl)
    rw [structParse, bind_apply, hp, Option.bind_some]
    dsimp only
    split_ifs with h0
    · rfl
    rw [bind_apply, hx, Option.bind_some]
    cases x with
    | none =>
      obtain ⟨⟨_, τ⟩, hτ⟩ := Option.isSome_iff_exists.1 (free_returns p σ₂)
      dsimp only
      rw [bind_apply, hτ]
      rfl
    | some x =>
      dsimp only
      rw [bind_apply, store]
      split_ifs <;> rfl
  ends := structFree_returns hfs

/-! ## The nine records -/

theorem allocates_artist : Allocates ducArtistParseHeap ducArtistFree ducArtistParse DucArtist.At :=
  (reads_number_member.sep fun _ => reads_text_member.last fun _ => rfl).allocates
    (by simp [reads_number_member.ends, reads_text_member.ends])
    (fun _ => .cons (.number _) (.cons (.text _) .nil)) (by decide)

theorem allocates_album : Allocates ducAlbumParseHeap ducAlbumFree ducAlbumParse DucAlbum.At :=
  (reads_number_member.sep fun _ => reads_text_member.sep fun _ => reads_number_member.sep fun _ =>
    allocates_artist.member.last fun _ => rfl).allocates
    (by simp [reads_number_member.ends, reads_text_member.ends, allocates_artist.member.ends])
    (fun _ => .cons (.number _) (.cons (.text _) (.cons (.number _) (.cons (.sub allocates_artist _) .nil))))
    (by decide)

theorem allocates_track : Allocates ducTrackParseHeap ducTrackFree ducTrackParse DucTrack.At :=
  (reads_number_member.sep fun _ => reads_number_member.sep fun _ => reads_text_member.sep fun _ =>
    reads_number_member.sep fun _ => allocates_artist.member.sep fun _ =>
    allocates_album.member.last fun _ => rfl).allocates
    (by simp [reads_number_member.ends, reads_text_member.ends, allocates_artist.member.ends,
      allocates_album.member.ends])
    (fun _ => .cons (.number _) (.cons (.number _) (.cons (.text _) (.cons (.number _)
      (.cons (.sub allocates_artist _) (.cons (.sub allocates_album _) .nil))))))
    (by decide)

theorem allocates_user : Allocates ducUserParseHeap ducUserFree ducUserParse DucUser.At :=
  (reads_number_member.sep fun _ => reads_text_member.sep fun _ => reads_number_member.last fun _ => rfl).allocates
    (by simp [reads_number_member.ends, reads_text_member.ends])
    (fun _ => .cons (.number _) (.cons (.text _) (.cons (.number _) .nil))) (by decide)

theorem allocates_client : Allocates ducClientParseHeap ducClientFree ducClientParse DucClient.At :=
  (reads_number_member.sep fun _ => reads_text_member.sep fun _ => allocates_user.member.last fun _ => rfl).allocates
    (by simp [reads_number_member.ends, reads_text_member.ends, allocates_user.member.ends])
    (fun _ => .cons (.number _) (.cons (.text _) (.cons (.sub allocates_user _) .nil))) (by decide)

theorem allocates_queue : Allocates ducQueueParseHeap ducQueueFree ducQueueParse DucQueue.At :=
  (reads_number_member.sep fun _ => reads_number_member.sep fun _ => allocates_user.member.sep fun _ =>
    allocates_track.member.last fun _ => rfl).allocates
    (by simp [reads_number_member.ends, allocates_user.member.ends, allocates_track.member.ends])
    (fun _ => .cons (.number _) (.cons (.number _)
      (.cons (.sub allocates_user _) (.cons (.sub allocates_track _) .nil))))
    (by decide)

theorem allocates_history : Allocates ducHistoryParseHeap ducHistoryFree ducHistoryParse DucHistory.At :=
  (reads_number_member.sep fun _ => allocates_user.member.sep fun _ =>
    allocates_track.member.last fun _ => rfl).allocates
    (by simp [reads_number_member.ends, allocates_user.member.ends, allocates_track.member.ends])
    (fun _ => .cons (.number _) (.cons (.sub allocates_user _) (.cons (.sub allocates_track _) .nil))) (by decide)

theorem allocates_tag : Allocates ducTagParseHeap ducTagFree ducTagParse DucTag.At :=
  (reads_number_member.sep fun _ => reads_text_member.sep fun _ => reads_text_member.last fun _ => rfl).allocates
    (by simp [reads_number_member.ends, reads_text_member.ends])
    (fun _ => .cons (.number _) (.cons (.text _) (.cons (.text _) .nil))) (by decide)

theorem allocates_sfilter : Allocates ducSfilterParseHeap ducSfilterFree ducSfilterParse DucSfilter.At :=
  (reads_number_member.sep fun _ => reads_text_member.sep fun _ => reads_text_member.last fun _ => rfl).allocates
    (by simp [reads_number_member.ends, reads_text_member.ends])
    (fun _ => .cons (.number _) (.cons (.text _) (.cons (.text _) .nil))) (by decide)

/-- On any sound memory, and whatever `malloc` returns: the parser returns NULL and leaves the blocks as they
were, because the record is malformed or some `malloc` has returned NULL, or it returns the record in new blocks.
Later, and whatever else is in use by then, the free function releases these blocks and no others. -/
structure Manages (parse : HeapParser) (free : ℕ → HeapM Cell Unit) (p : Reader α) (own : α → ℕ → Assn Cell) :
    Prop where
  parses : ∀ (n : ℕ) (m : Block UInt8 n) (s : ℕ) (σ : Arena Cell), σ.sound = true → σ.refused = false →
    (p n m s).isSome → ∃ x e τ, parse n m s σ = some ((x, e), τ) ∧ τ.sound = true ∧
      if x = 0 then τ.heap = σ.heap ∧ (τ.refused = true ∨ p n m s = some (none, e))
      else τ.refused = false ∧ ∃ a, p n m s = some (some a, e) ∧ (own a x * exactly σ.heap : Assn Cell) τ.heap
  frees : ∀ (a : α) (x : ℕ) (h : Heap Cell) (σ : Arena Cell), σ.sound = true →
    (own a x * exactly h : Assn Cell) σ.heap →
    ∃ τ, free x σ = some ((), τ) ∧ τ.sound = true ∧ τ.heap = h ∧ τ.refused = σ.refused

theorem Allocates.manages {parse : HeapParser} {free : ℕ → HeapM Cell Unit} {own : α → ℕ → Assn Cell}
    (h : Allocates parse free p own) : Manages parse free p own where
  parses n m s σ hσ hr hs := by
    obtain ⟨⟨⟨x, e⟩, τ⟩, hx⟩ := Option.isSome_iff_exists.1 (h.returns n m s σ hσ hs)
    obtain ⟨hτ, b, hb, hh⟩ := (h.parses n m s).run hσ hx
    rw [hr, Bool.false_or] at hb
    refine ⟨x, e, τ, hx, hτ, ?_⟩
    rw [parsePost, Quantale.sup_mul_distrib] at hh
    rcases hh with hh | hh
    · obtain ⟨⟨h0, hor⟩, hheap⟩ := fact_mul.1 hh
      rw [if_pos h0]
      exact ⟨hheap, hor.imp (hb.trans ·) id⟩
    · obtain ⟨a, hh⟩ := (iSup_mul_apply _).1 hh
      rw [mul_assoc] at hh
      obtain ⟨⟨hfalse, ha⟩, hown⟩ := fact_mul.1 hh
      have h0 : x ≠ 0 := by
        rintro rfl
        rw [h.ne_null, Quantale.bot_mul] at hown
        exact hown
      rw [if_neg h0]
      exact ⟨hb.trans hfalse, a, ha, hown⟩
  frees a x h₀ σ hσ hh := by
    obtain ⟨⟨_, τ⟩, hτ⟩ := Option.isSome_iff_exists.1 (h.ends x σ)
    obtain ⟨hs, b, hb, hq⟩ := h.frees a x (exactly h₀) σ () τ hσ hh hτ
    rw [quiet, mul_one] at hq
    obtain ⟨rfl, hheap⟩ := fact_mul.1 hq
    exact ⟨τ, hτ, hs, hheap, by rw [hb, Bool.or_false]⟩

/-- **The records in dynamic memory.** -/
theorem records_allocated :
    Manages ducArtistParseHeap ducArtistFree ducArtistParse DucArtist.At ∧
    Manages ducAlbumParseHeap ducAlbumFree ducAlbumParse DucAlbum.At ∧
    Manages ducTrackParseHeap ducTrackFree ducTrackParse DucTrack.At ∧
    Manages ducUserParseHeap ducUserFree ducUserParse DucUser.At ∧
    Manages ducClientParseHeap ducClientFree ducClientParse DucClient.At ∧
    Manages ducQueueParseHeap ducQueueFree ducQueueParse DucQueue.At ∧
    Manages ducHistoryParseHeap ducHistoryFree ducHistoryParse DucHistory.At ∧
    Manages ducTagParseHeap ducTagFree ducTagParse DucTag.At ∧
    Manages ducSfilterParseHeap ducSfilterFree ducSfilterParse DucSfilter.At :=
  ⟨allocates_artist.manages, allocates_album.manages, allocates_track.manages, allocates_user.manages,
    allocates_client.manages, allocates_queue.manages, allocates_history.manages, allocates_tag.manages,
    allocates_sfilter.manages⟩

end Dudlc
