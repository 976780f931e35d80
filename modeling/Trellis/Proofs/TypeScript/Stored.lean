import Mathlib.Data.String.Basic
import Trellis.Proofs.TypeScript.Rewriting

/-!
# Rewriting a stored source

A parser counts in bytes of the stored source, not in characters. Rendering then slices bytes,
decodes each slice and makes its edits sorted.

* `Source.decode` is a slice of the stored source as text. Between the offsets of characters it is
  the slice of characters (`decode_stored`), however many bytes these have.
* `renderStored?_eq`: rendering a stored source gives the same text as rendering its characters,
  because members of `this` stay in order when they are sorted.
* `render_rewrites`: rendering is a substitution in a node's text, of the members that the body
  lists.
-/

namespace Trellis.TypeScript

/-- An edit stands before another: by its start, then its end, then its text. -/
def Edit.le (e f : Edit) : Bool :=
  decide (e.start < f.start ∨ e.start = f.start ∧
    (e.stop < f.stop ∨ e.stop = f.stop ∧ e.text ≤ f.text))

namespace Source

variable (s : Source)

/-! ## The stored source -/

/-- The bytes that a source is stored in. -/
def stored : ByteArray := (String.ofList s.chars).toUTF8

/-- The offset in the stored source of a character. -/
def byteAt (i : Nat) : Nat := (String.ofList (s.chars.take i)).utf8ByteSize

/-- A slice of the stored source as text, if it is one. -/
def decode (start stop : Nat) : Option String := String.fromUTF8? (s.stored.extract start stop)

/-- The stored source from byte `cursor` up to byte `stop` with the edits made. -/
def spliceStored (cursor stop : Nat) : List Edit → Option (List Char)
  | [] => (s.decode cursor stop).map String.toList
  | e :: es => do
    let gap ← s.decode cursor e.start
    let rest ← spliceStored e.stop stop es
    pure (gap.toList ++ e.text ++ rest)

/-- The text of a node, from the bytes of its span. -/
def storedText? (t : Tree) : Option String := s.decode (s.byteAt t.start) (s.byteAt t.stop)

/-- The edit of a stored source at a member of `this`. -/
def storedEdit? (resolve : String → String) (m : Tree) : Option Edit := do
  let name ← m.thisName?
  let spelling ← s.storedText? name
  pure ⟨s.byteAt m.start, s.byteAt m.stop, (resolve spelling).toList⟩

/-- The text of a node of a stored source with each member of `this` spelled as `resolve` says: the
edits are collected, sorted and made. -/
def renderStored? (resolve : String → String) (t : Tree) : Option String := do
  let edits ← t.thisMembers.mapM (s.storedEdit? resolve)
  let rendered ← s.spliceStored (s.byteAt t.start) (s.byteAt t.stop) (edits.mergeSort Edit.le)
  pure (String.ofList rendered)

/-! ## Slices of the stored source -/

variable {s} {a b : Nat}

theorem fromUTF8?_toUTF8 (text : String) : String.fromUTF8? text.toUTF8 = some text :=
  dif_pos text.isValidUTF8

theorem extract_middle (x y z : ByteArray) :
    (x ++ y ++ z).extract x.size (x.size + y.size) = y := by
  have hbefore : x.extract x.size (x.size + y.size) = ByteArray.empty := by
    simp [ByteArray.extract_eq_empty_iff]
  rw [ByteArray.append_assoc, ByteArray.extract_append, ByteArray.extract_append, hbefore]
  simp

theorem take_eq_append (hab : a ≤ b) :
    s.chars.take b = s.chars.take a ++ slice s.chars a b := by
  have hwhole := slice_append s.chars (Nat.zero_le a) hab
  exact hwhole.symm

/-- The offset of a character further on. -/
theorem byteAt_add (hab : a ≤ b) :
    s.byteAt b = s.byteAt a + (String.ofList (slice s.chars a b)).utf8ByteSize := by
  rw [byteAt, byteAt, take_eq_append hab, String.ofList_append, String.utf8ByteSize_append]

/-- A slice of the stored source that starts and ends with a character. -/
theorem decode_stored (hab : a ≤ b) :
    s.decode (s.byteAt a) (s.byteAt b) = some (String.ofList (slice s.chars a b)) := by
  have hchars : s.chars = s.chars.take a ++ slice s.chars a b ++ s.chars.drop b := by
    rw [← take_eq_append hab, List.take_append_drop]
  have hstored : s.stored = (String.ofList (s.chars.take a)).toByteArray ++
      (String.ofList (slice s.chars a b)).toByteArray ++
        (String.ofList (s.chars.drop b)).toByteArray := by
    rw [← String.toByteArray_append, ← String.toByteArray_append, ← String.ofList_append,
      ← String.ofList_append, ← hchars]
    rfl
  have hextract : s.stored.extract (s.byteAt a) (s.byteAt b) =
      (String.ofList (slice s.chars a b)).toUTF8 := by
    rw [hstored, byteAt_add hab]
    exact extract_middle _ _ _
  rw [decode, hextract, fromUTF8?_toUTF8]

/-- A later character has a higher offset. -/
theorem byteAt_lt (hab : a < b) (hb : b ≤ s.chars.length) : s.byteAt a < s.byteAt b := by
  have hslice : slice s.chars a b ≠ [] := by
    rw [← List.length_pos_iff, length_slice hb]
    omega
  have hsize : (String.ofList (slice s.chars a b)).utf8ByteSize ≠ 0 := by
    rwa [Ne, String.utf8ByteSize_eq_zero_iff, String.ofList_eq_empty_iff]
  rw [byteAt_add (Nat.le_of_lt hab)]
  omega

/-! ## Rendering a stored source -/

/-- The edit of a stored source, for an edit of its characters. -/
def storeEdit (s : Source) (e : Edit) : Edit := ⟨s.byteAt e.start, s.byteAt e.stop, e.text⟩

section Rendering

variable {resolve : String → String} {lo hi : Nat} {ms : List Tree} {t : Tree}

/-- Splicing bytes is splicing characters. -/
theorem spliceStored_eq (hms : ∀ m ∈ ms, m.isThisMember = true) (hrow : Tree.Row lo hi ms)
    (hle : lo ≤ hi) :
    s.spliceStored (s.byteAt lo) (s.byteAt hi) ((s.editsAt resolve ms).map s.storeEdit) =
      some (splice s.chars lo hi (s.editsAt resolve ms)) := by
  induction ms generalizing lo with
  | nil =>
    rw [editsAt, List.filterMap_nil, List.map_nil, spliceStored, splice, decode_stored hle,
      Option.map_some, String.toList_ofList]
  | cons m ms ih =>
    obtain ⟨name, hname⟩ := Option.isSome_iff_exists.mp (hms m List.mem_cons_self)
    obtain ⟨hlo, hforward, hstop, hrest⟩ := Tree.row_cons.mp hrow
    have htail := ih (fun n hn => hms n (List.mem_cons_of_mem _ hn)) hrest hstop
    rw [editsAt_cons s hname, List.map_cons, storeEdit, spliceStored, splice, decode_stored hlo,
      htail]
    simp

/-- The edits that are collected from the bytes. -/
theorem mapM_storedEdit? (hnames : ∀ m ∈ ms, ∃ name, m.thisName? = some name ∧
    name.start ≤ name.stop) :
    ms.mapM (s.storedEdit? resolve) = some ((s.editsAt resolve ms).map s.storeEdit) := by
  induction ms with
  | nil => rfl
  | cons m ms ih =>
    obtain ⟨name, hname, hforward⟩ := hnames m List.mem_cons_self
    have htail := ih fun n hn => hnames n (List.mem_cons_of_mem _ hn)
    have hedit : s.storedEdit? resolve m = some (s.storeEdit
        ⟨m.start, m.stop, (resolve (s.textOf name)).toList⟩) := by
      simp [storedEdit?, hname, storedText?, decode_stored hforward, storeEdit, textOf]
    rw [List.mapM_cons, hedit, htail, editsAt_cons s hname]
    rfl

/-- Members that have characters are sorted by where they stand. -/
theorem mergeSort_storeEdit (hrow : Tree.Row lo hi ms) (hhi : hi ≤ s.chars.length)
    (hms : ∀ m ∈ ms, m.start < m.stop) :
    ((s.editsAt resolve ms).map s.storeEdit).mergeSort Edit.le =
      (s.editsAt resolve ms).map s.storeEdit := by
  refine List.mergeSort_of_pairwise ?_
  rw [List.pairwise_map, editsAt, List.pairwise_filterMap]
  refine hrow.apart.imp_of_mem fun {m n} hm hn hapart e he f hf => ?_
  obtain ⟨x, -, rfl⟩ := Option.map_eq_some_iff.mp he
  obtain ⟨y, -, rfl⟩ := Option.map_eq_some_iff.mp hf
  have hbefore : m.start < n.start := Nat.lt_of_lt_of_le (hms m hm) hapart
  have hwithin := hrow.within n hn
  exact decide_eq_true (.inl (byteAt_lt hbefore
    (Nat.le_trans hwithin.2.1 (Nat.le_trans hwithin.2.2 hhi))))

end Rendering

/-- **Rendering a stored source is rendering its characters.** -/
theorem renderStored?_eq (resolve : String → String) {t : Tree}
    (h : t.WellPlaced s.chars.length) :
    s.renderStored? resolve t = some (s.render (some resolve) t) := by
  have hmembers := Tree.thisMembers_eq t h.flat
  have hthis : ∀ m ∈ t.thisMembers, m ∈ t.nodes ∧ m.isThisMember = true := by
    rw [hmembers]
    exact fun m hm => List.mem_filter.mp hm
  have hwide : ∀ m ∈ t.thisMembers, m.start < m.stop :=
    fun m hm => h.start_lt_stop (hthis m hm).1 (hthis m hm).2
  have hrow := Tree.row_thisMembers t h.spaced
  have hnames : ∀ m ∈ t.thisMembers, ∃ name, m.thisName? = some name ∧ name.start ≤ name.stop := by
    intro m hm
    obtain ⟨hnode, hsome⟩ := hthis m hm
    obtain ⟨name, hname⟩ := Option.isSome_iff_exists.mp hsome
    have hbelow := Tree.mem_nodes_child (Tree.mem_children_of_thisName? hname) t hnode
    exact ⟨name, hname, (h.spaced name hbelow).forward⟩
  have hsplice : s.spliceStored (s.byteAt t.start) (s.byteAt t.stop)
      ((s.editsAt resolve t.thisMembers).map s.storeEdit) =
        some (splice s.chars t.start t.stop (s.editsAt resolve t.thisMembers)) :=
    spliceStored_eq (fun m hm => (hthis m hm).2) hrow
      (h.spaced t (Tree.mem_nodes_self t)).forward
  rw [renderStored?, mapM_storedEdit? hnames]
  simp only [Option.bind_eq_bind, Option.bind_some, mergeSort_storeEdit hrow h.bounded hwide,
    hsplice]
  rfl

end Source

/-! ## The members that a body lists -/

/-- The names of the members of `this` in a body, by a walk through all of its nodes. -/
def FunctionBody.visitedMembers (b : FunctionBody) : List String :=
  ((b.block.map fun t => t.nodes.filterMap Tree.thisName?).getD []).map b.source.textOf

/-- **Rewriting `this` is a substitution.** Over a well-placed node the source is cut up at the
members of `this`, and rendering spells each of them anew, once and in order, and keeps every other
character. Members that are spelled `this.name` are left as they are by that spelling. The names
that are spelled are those that the body lists, by a walk through all nodes or by one that stops at
each member. From the stored source, with edits in bytes that are collected and then sorted,
rendering gives the same text. -/
theorem render_rewrites (s : Source) (t : Tree) (h : t.WellPlaced s.chars.length) :
    ∃ cuts last, s.Rewritten t cuts last ∧
      ((∀ c ∈ cuts, s.textOf c.member = "this." ++ s.textOf c.name) →
        s.render (some ("this." ++ ·)) t = s.textOf t) ∧
      (⟨s, some t⟩ : FunctionBody).visitedMembers = cuts.map (fun c => s.textOf c.name) ∧
      (⟨s, some t⟩ : FunctionBody).thisMembers = cuts.map (fun c => s.textOf c.name) ∧
      ∀ resolve, s.renderStored? resolve t = some (s.render (some resolve) t) := by
  have hcuts := s.rewritten_cuts h
  have hnames : (t.nodes.filterMap Tree.thisName?).map s.textOf =
      (s.cutsFrom t.start t.thisMembers).map fun c => s.textOf c.name := by
    rw [← hcuts.map_name, List.map_map]
    rfl
  refine ⟨_, _, hcuts, hcuts.render_spelled, hnames, ?_,
    fun resolve => s.renderStored?_eq resolve h⟩
  rw [FunctionBody.thisMembers, Option.map_some, Option.getD_some, Tree.thisNames_eq h.flat,
    hnames]

/-- A class with characters of two bytes, in a member of `this` and before another. -/
def umlauts : Source := .ofString "class A \x7b f() \x7b this.ü = 'ä' + this.b; \x7d \x7d"

theorem render_rewrites_umlauts :
    umlauts.tree.WellPlaced umlauts.chars.length ∧
      umlauts.renderStored? (· ++ ".value") umlauts.tree =
        some "class A \x7b f() \x7b ü.value = 'ä' + b.value; \x7d \x7d" := by
  have hplaced : umlauts.tree.WellPlaced umlauts.chars.length := by decide +kernel
  obtain ⟨cuts, last, -, -, -, -, hstored⟩ := render_rewrites umlauts umlauts.tree hplaced
  rw [hstored]
  exact ⟨hplaced, by decide +kernel⟩

end Trellis.TypeScript
