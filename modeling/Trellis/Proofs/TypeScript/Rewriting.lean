import Mathlib.Data.List.Basic
import Trellis.TypeScript.ClassModel

/-!
# Rewriting the members of `this`

A node is rendered by a walk that does not go below a member of `this`, and the names that a body
uses are listed by a walk that does. On a tree as a parser lays it out both walks meet the same
members, one after the other, and rendering replaces their spans and nothing else.

* `Tree.nodes` are all nodes of a tree, depth first, and `Tree.WellPlaced` says how the spans of a
  tree lie. Such a tree has no member of `this` inside of another (`thisMembers_eq`), and its
  members follow each other (`row_thisMembers`).
* `Source.Rewritten`: a node cut up into its members of `this` and the gaps between them. Rendering
  keeps the gaps and spells the members anew.
* `rewritten_cuts`: every tree that is well placed is cut up so.
-/

namespace Trellis.TypeScript

/-! ## All nodes of a tree -/

namespace Tree

mutual

/-- A node and all nodes below it, depth first. -/
def nodes : Tree → List Tree
  | .node k a b cs => .node k a b cs :: nodesOf cs

/-- The nodes of a list and all nodes below them, depth first. -/
def nodesOf : List Tree → List Tree
  | [] => []
  | t :: ts => t.nodes ++ nodesOf ts

end

/-- The node has the form `this.name`. -/
def isThisMember (t : Tree) : Bool := t.thisName?.isSome

/-- The spans of a node's children lie in its own, in order and apart. -/
structure Spaced (n : Tree) : Prop where
  forward : n.start ≤ n.stop
  nested : ∀ c ∈ n.children, n.start ≤ c.start ∧ c.stop ≤ n.stop
  apart : n.children.Pairwise fun c d => c.stop ≤ d.start

/-- **A tree as a parser lays it out** over a source of `length` characters: every node is spaced,
and there is no member below a member of `this`. -/
structure WellPlaced (t : Tree) (length : Nat) : Prop where
  bounded : t.stop ≤ length
  spaced : ∀ n ∈ t.nodes, n.Spaced
  flat : ∀ n ∈ t.nodes, n.isThisMember = true → ∀ m ∈ nodesOf n.children, m.kind ≠ .member
  /-- A parser makes the node of `this` from the word, which it has read and which has characters.
  Nodes without characters stand for what is missing or empty, and `this` is neither. -/
  worded : ∀ n ∈ t.nodes, n.kind = .thisRef → n.start < n.stop

instance : DecidablePred Spaced := fun n =>
  decidable_of_iff (n.start ≤ n.stop ∧ (∀ c ∈ n.children, n.start ≤ c.start ∧ c.stop ≤ n.stop) ∧
      n.children.Pairwise fun c d => c.stop ≤ d.start)
    ⟨fun h => ⟨h.1, h.2.1, h.2.2⟩, fun h => ⟨h.forward, h.nested, h.apart⟩⟩

instance (t : Tree) (length : Nat) : Decidable (t.WellPlaced length) :=
  decidable_of_iff (t.stop ≤ length ∧ (∀ n ∈ t.nodes, n.Spaced) ∧
      (∀ n ∈ t.nodes, n.isThisMember = true → ∀ m ∈ nodesOf n.children, m.kind ≠ .member) ∧
      ∀ n ∈ t.nodes, n.kind = .thisRef → n.start < n.stop)
    ⟨fun h => ⟨h.1, h.2.1, h.2.2.1, h.2.2.2⟩, fun h => ⟨h.bounded, h.spaced, h.flat, h.worded⟩⟩

theorem mem_nodes_self (t : Tree) : t ∈ t.nodes := by
  cases t
  exact List.mem_cons_self

theorem nodes_subset_nodesOf {t : Tree} {ts : List Tree} (h : t ∈ ts) : t.nodes ⊆ nodesOf ts := by
  induction ts with
  | nil => exact absurd h List.not_mem_nil
  | cons u us ih =>
    rw [nodesOf]
    rcases List.mem_cons.mp h with rfl | h
    · exact List.subset_append_left _ _
    · exact List.Subset.trans (ih h) (List.subset_append_right _ _)

mutual

/-- The children of a node below are nodes below. -/
theorem mem_nodes_child {n c : Tree} (hc : c ∈ n.children) :
    (t : Tree) → n ∈ t.nodes → c ∈ t.nodes
  | .node k a b cs, hn => by
    rcases List.mem_cons.mp hn with rfl | hn
    · exact List.mem_cons_of_mem _ (nodes_subset_nodesOf hc (mem_nodes_self c))
    · exact List.mem_cons_of_mem _ (mem_nodesOf_child hc cs hn)

theorem mem_nodesOf_child {n c : Tree} (hc : c ∈ n.children) :
    (ts : List Tree) → n ∈ nodesOf ts → c ∈ nodesOf ts
  | [], hn => absurd hn List.not_mem_nil
  | t :: ts, hn => by
    rcases List.mem_append.mp hn with hn | hn
    · exact List.mem_append_left _ (mem_nodes_child hc t hn)
    · exact List.mem_append_right _ (mem_nodesOf_child hc ts hn)

end

theorem kind_of_isThisMember {t : Tree} (h : t.isThisMember = true) : t.kind = .member := by
  rw [isThisMember] at h
  unfold thisName? at h
  split at h
  · rfl
  · cases h

/-- A member of `this` begins with the word. -/
theorem exists_word_of_isThisMember {t : Tree} (h : t.isThisMember = true) :
    ∃ word ∈ t.children, word.kind = .thisRef := by
  rw [isThisMember] at h
  unfold thisName? at h
  split at h
  · exact ⟨_, List.mem_cons_self, rfl⟩
  · cases h

/-- A member of `this` has characters, since the word in it does. -/
theorem WellPlaced.start_lt_stop {t m : Tree} {length : Nat} (h : t.WellPlaced length)
    (hm : m ∈ t.nodes) (hthis : m.isThisMember = true) : m.start < m.stop := by
  obtain ⟨word, hchild, hword⟩ := exists_word_of_isThisMember hthis
  obtain ⟨hstart, hstop⟩ := (h.spaced m hm).nested word hchild
  have hwide := h.worded word (mem_nodes_child hchild t hm) hword
  exact Nat.lt_of_le_of_lt hstart (Nat.lt_of_lt_of_le hwide hstop)

/-- The name in a member of `this` is one of its children. -/
theorem mem_children_of_thisName? {t name : Tree} (h : t.thisName? = some name) :
    name ∈ t.children := by
  unfold thisName? at h
  split at h
  · cases h
    exact List.mem_cons_of_mem _ List.mem_cons_self
  · cases h

/-! ## The members of `this` -/

mutual

/-- The walk that stops at a member of `this` meets all of them. -/
theorem thisMembers_eq :
    (t : Tree) → (∀ n ∈ t.nodes, n.isThisMember = true →
      ∀ m ∈ nodesOf n.children, m.kind ≠ .member) → t.thisMembers = t.nodes.filter isThisMember
  | .node k a b cs, hflat => by
    rw [thisMembers, nodes, List.filter_cons, isThisMember]
    split
    · next hthis =>
      have hbelow : (nodesOf cs).filter isThisMember = [] :=
        List.filter_eq_nil_iff.mpr fun m hm hmember =>
          hflat _ (mem_nodes_self _) hthis m hm (kind_of_isThisMember hmember)
      rw [hbelow]
    · exact thisMembersOf_eq cs fun n hn => hflat n (List.mem_cons_of_mem _ hn)

theorem thisMembersOf_eq :
    (ts : List Tree) → (∀ n ∈ nodesOf ts, n.isThisMember = true →
      ∀ m ∈ nodesOf n.children, m.kind ≠ .member) →
        thisMembersOf ts = (nodesOf ts).filter isThisMember
  | [], _ => rfl
  | t :: ts, hflat => by
    rw [thisMembersOf, nodesOf, List.filter_append,
      thisMembers_eq t fun n hn => hflat n (List.mem_append_left _ hn),
      thisMembersOf_eq ts fun n hn => hflat n (List.mem_append_right _ hn)]

end

theorem filterMap_thisName? (ts : List Tree) :
    (ts.filter isThisMember).filterMap thisName? = ts.filterMap thisName? := by
  rw [List.filterMap_filter]
  refine List.filterMap_congr fun t _ => ?_
  rw [isThisMember]
  cases t.thisName? <;> rfl

/-- The names in the members that a walk through all nodes meets. -/
theorem thisNames_eq {t : Tree} (hflat : ∀ n ∈ t.nodes, n.isThisMember = true →
    ∀ m ∈ nodesOf n.children, m.kind ≠ .member) : t.thisNames = t.nodes.filterMap thisName? := by
  rw [thisNames, thisMembers_eq t hflat, filterMap_thisName?]

/-- Nodes that follow each other between two offsets. -/
structure Row (lo hi : Nat) (ts : List Tree) : Prop where
  within : ∀ t ∈ ts, lo ≤ t.start ∧ t.start ≤ t.stop ∧ t.stop ≤ hi
  apart : ts.Pairwise fun t u => t.stop ≤ u.start

section

variable {lo mid hi : Nat} {t : Tree} {ts us : List Tree}

theorem Row.nil : Row lo hi [] := ⟨fun _ ht => absurd ht List.not_mem_nil, .nil⟩

theorem Row.append (hts : Row lo mid ts) (hus : Row mid hi us) (hlo : lo ≤ mid) (hhi : mid ≤ hi) :
    Row lo hi (ts ++ us) := by
  refine ⟨fun t ht => ?_, List.pairwise_append.mpr ⟨hts.apart, hus.apart, fun t ht u hu => ?_⟩⟩
  · rcases List.mem_append.mp ht with ht | ht
    · have h := hts.within t ht
      exact ⟨h.1, h.2.1, Nat.le_trans h.2.2 hhi⟩
    · have h := hus.within t ht
      exact ⟨Nat.le_trans hlo h.1, h.2⟩
  · exact Nat.le_trans (hts.within t ht).2.2 (hus.within u hu).1

theorem Row.mono (h : Row mid hi ts) (hlo : lo ≤ mid) : Row lo hi ts :=
  ⟨fun t ht => ⟨Nat.le_trans hlo (h.within t ht).1, (h.within t ht).2⟩, h.apart⟩

theorem row_cons : Row lo hi (t :: ts) ↔
    lo ≤ t.start ∧ t.start ≤ t.stop ∧ t.stop ≤ hi ∧ Row t.stop hi ts := by
  constructor
  · intro h
    obtain ⟨hlo, hforward, hhi⟩ := h.within t List.mem_cons_self
    obtain ⟨hnext, hapart⟩ := List.pairwise_cons.mp h.apart
    exact ⟨hlo, hforward, hhi,
      fun u hu => ⟨hnext u hu, (h.within u (List.mem_cons_of_mem _ hu)).2⟩, hapart⟩
  · rintro ⟨hlo, hforward, hhi, h⟩
    refine ⟨fun u hu => ?_, List.pairwise_cons.mpr ⟨fun u hu => (h.within u hu).1, h.apart⟩⟩
    rcases List.mem_cons.mp hu with rfl | hu
    · exact ⟨hlo, hforward, hhi⟩
    · have hwithin := h.within u hu
      exact ⟨Nat.le_trans (Nat.le_trans hlo hforward) hwithin.1, hwithin.2⟩

/-- The children of a spaced node. -/
theorem Spaced.row (h : t.Spaced) (hcs : ∀ c ∈ t.children, c.Spaced) :
    Row t.start t.stop t.children :=
  ⟨fun c hc => ⟨(h.nested c hc).1, (hcs c hc).forward, (h.nested c hc).2⟩, h.apart⟩

end

mutual

/-- The members of `this` follow each other inside of a node. -/
theorem row_thisMembers :
    (t : Tree) → (∀ n ∈ t.nodes, n.Spaced) → Row t.start t.stop t.thisMembers
  | .node k a b cs, hspaced => by
    have hself := hspaced _ (mem_nodes_self _)
    rw [thisMembers]
    split
    · exact row_cons.mpr ⟨Nat.le_refl _, hself.forward, Nat.le_refl _, Row.nil⟩
    · have hbelow : ∀ n ∈ nodesOf cs, n.Spaced := fun n hn => hspaced n (List.mem_cons_of_mem _ hn)
      have hchildren : Row a b cs :=
        hself.row fun c hc => hbelow c (nodes_subset_nodesOf hc (mem_nodes_self c))
      exact row_thisMembersOf cs a b hself.forward hbelow hchildren

theorem row_thisMembersOf :
    (ts : List Tree) → (lo hi : Nat) → lo ≤ hi → (∀ n ∈ nodesOf ts, n.Spaced) → Row lo hi ts →
      Row lo hi (thisMembersOf ts)
  | [], _, _, _, _, _ => Row.nil
  | t :: ts, lo, hi, hle, hspaced, hrow => by
    obtain ⟨hlo, hforward, hhi, hrest⟩ := row_cons.mp hrow
    have hhead := row_thisMembers t fun n hn => hspaced n (List.mem_append_left _ hn)
    have htail := row_thisMembersOf ts t.stop hi hhi
      (fun n hn => hspaced n (List.mem_append_right _ hn)) hrest
    rw [thisMembersOf]
    exact (hhead.mono hlo).append htail (Nat.le_trans hlo hforward) hhi

end

end Tree

/-! ## Cutting a node up -/

/-- A member of `this` with its name, and the characters between the member before it and this
one. -/
structure Cut where
  gap : List Char
  member : Tree
  name : Tree

/-- The characters of a cut, with those of the member given. -/
def Cut.text (spell : Cut → List Char) (c : Cut) : List Char := c.gap ++ spell c

namespace Source

variable (s : Source)

/-- A member as it stands in the source. -/
def asWritten (c : Cut) : List Char := (s.textOf c.member).toList

/-- A member as `resolve` spells it. -/
def asResolved (resolve : String → String) (c : Cut) : List Char :=
  (resolve (s.textOf c.name)).toList

/-- **A node cut up** at its members of `this`. -/
structure Rewritten (t : Tree) (cuts : List Cut) (last : List Char) : Prop where
  /-- The cuts are made at the members of `this`, each once and in order. -/
  members : cuts.map Cut.member = t.nodes.filter Tree.isThisMember
  named : ∀ c ∈ cuts, c.member.thisName? = some c.name
  /-- A cut is where its member stands. -/
  placed : ∀ front c back, cuts = front ++ c :: back →
    c.member.start = t.start + (front.flatMap (Cut.text s.asWritten)).length + c.gap.length
  written : (s.textOf t).toList = cuts.flatMap (Cut.text s.asWritten) ++ last
  /-- Rendering spells the members anew and keeps all other characters. -/
  rendered : ∀ resolve : String → String, (s.render (some resolve) t).toList =
    cuts.flatMap (Cut.text (s.asResolved resolve)) ++ last

/-- The edits at some members of `this`. -/
def editsAt (resolve : String → String) (ms : List Tree) : List Edit :=
  ms.filterMap fun m => m.thisName?.map fun name =>
    ⟨m.start, m.stop, (resolve (s.textOf name)).toList⟩

theorem editsAt_cons {resolve : String → String} {m name : Tree} (hm : m.thisName? = some name)
    (ms : List Tree) : s.editsAt resolve (m :: ms) =
      ⟨m.start, m.stop, (resolve (s.textOf name)).toList⟩ :: s.editsAt resolve ms :=
  List.filterMap_cons_some (by rw [hm, Option.map_some])

/-- The cuts before some members, from an offset on. -/
def cutsFrom : Nat → List Tree → List Cut
  | _, [] => []
  | cursor, m :: ms =>
    (m.thisName?.map fun name => ⟨slice s.chars cursor m.start, m, name⟩).toList ++
      cutsFrom m.stop ms

/-- Where the last of some nodes ends. -/
def endFrom (cursor : Nat) (ms : List Tree) : Nat := (ms.getLast?.map Tree.stop).getD cursor

theorem endFrom_cons (cursor : Nat) (m : Tree) (ms : List Tree) :
    endFrom cursor (m :: ms) = endFrom m.stop ms := by
  cases ms with
  | nil => rfl
  | cons n ms => simp [endFrom, List.getLast?_cons]

section Cutting

variable {s} {cursor hi : Nat} {ms : List Tree}

theorem cutsFrom_cons {m name : Tree} (hm : m.thisName? = some name) :
    s.cutsFrom cursor (m :: ms) =
      ⟨slice s.chars cursor m.start, m, name⟩ :: s.cutsFrom m.stop ms := by
  rw [cutsFrom, hm]
  rfl

theorem map_cutsFrom (hms : ∀ m ∈ ms, m.isThisMember = true) :
    (s.cutsFrom cursor ms).map Cut.member = ms := by
  induction ms generalizing cursor with
  | nil => rfl
  | cons m ms ih =>
    obtain ⟨name, hname⟩ := Option.isSome_iff_exists.mp (hms m List.mem_cons_self)
    rw [cutsFrom_cons hname, List.map_cons, ih fun n hn => hms n (List.mem_cons_of_mem _ hn)]

theorem named_cutsFrom : ∀ c ∈ s.cutsFrom cursor ms, c.member.thisName? = some c.name := by
  induction ms generalizing cursor with
  | nil => exact fun c hc => absurd hc List.not_mem_nil
  | cons m ms ih =>
    intro c hc
    rcases List.mem_append.mp hc with hc | hc
    · obtain ⟨name, hname, rfl⟩ := Option.map_eq_some_iff.mp (Option.mem_toList.mp hc)
      exact hname
    · exact ih c hc

/-- Two stretches of a source that meet are one. -/
theorem slice_append (cs : List Char) {a b c : Nat} (hab : a ≤ b) (hbc : b ≤ c) :
    slice cs a b ++ slice cs b c = slice cs a c := by
  rw [slice, slice, slice, ← Nat.sub_add_sub_cancel hbc hab, Nat.add_comm (c - b), List.take_add,
    List.drop_drop, Nat.add_sub_cancel' hab]

theorem length_slice {cs : List Char} {a b : Nat} (hb : b ≤ cs.length) :
    (slice cs a b).length = b - a := by
  rw [slice, List.length_take, List.length_drop]
  omega

/-- The cuts and what follows the last of them are the source. -/
theorem slice_cutsFrom (hms : ∀ m ∈ ms, m.isThisMember = true) (hrow : Tree.Row cursor hi ms)
    (hle : cursor ≤ hi) :
    slice s.chars cursor hi =
      (s.cutsFrom cursor ms).flatMap (Cut.text s.asWritten) ++
        slice s.chars (endFrom cursor ms) hi := by
  induction ms generalizing cursor with
  | nil => rfl
  | cons m ms ih =>
    obtain ⟨name, hname⟩ := Option.isSome_iff_exists.mp (hms m List.mem_cons_self)
    obtain ⟨hcursor, hforward, hstop, hrest⟩ := Tree.row_cons.mp hrow
    have htail := ih (fun n hn => hms n (List.mem_cons_of_mem _ hn)) hrest hstop
    rw [cutsFrom_cons hname, List.flatMap_cons, endFrom_cons, List.append_assoc, ← htail]
    rw [Cut.text, asWritten, textOf, String.toList_ofList, List.append_assoc,
      slice_append _ hforward hstop, slice_append _ hcursor (Nat.le_trans hforward hstop)]

/-- Rendering keeps the gaps, and spells each member once. -/
theorem splice_cutsFrom (hms : ∀ m ∈ ms, m.isThisMember = true) (resolve : String → String) :
    splice s.chars cursor hi (s.editsAt resolve ms) =
      (s.cutsFrom cursor ms).flatMap (Cut.text (s.asResolved resolve)) ++
        slice s.chars (endFrom cursor ms) hi := by
  induction ms generalizing cursor with
  | nil => rfl
  | cons m ms ih =>
    obtain ⟨name, hname⟩ := Option.isSome_iff_exists.mp (hms m List.mem_cons_self)
    have htail : splice s.chars m.stop hi (s.editsAt resolve ms) =
        (s.cutsFrom m.stop ms).flatMap (Cut.text (s.asResolved resolve)) ++
          slice s.chars (endFrom m.stop ms) hi :=
      ih fun n hn => hms n (List.mem_cons_of_mem _ hn)
    rw [cutsFrom_cons hname, List.flatMap_cons, endFrom_cons, List.append_assoc, ← htail,
      editsAt_cons s hname, splice]
    rfl

/-- A cut stands behind the cuts before it and its own gap. -/
theorem placed_cutsFrom (hms : ∀ m ∈ ms, m.isThisMember = true) (hrow : Tree.Row cursor hi ms)
    (hhi : hi ≤ s.chars.length) {front back : List Cut} {c : Cut}
    (hcuts : s.cutsFrom cursor ms = front ++ c :: back) :
    c.member.start =
      cursor + (front.flatMap (Cut.text s.asWritten)).length + c.gap.length := by
  induction ms generalizing cursor front with
  | nil => exact absurd hcuts (by simp [cutsFrom])
  | cons m ms ih =>
    obtain ⟨name, hname⟩ := Option.isSome_iff_exists.mp (hms m List.mem_cons_self)
    obtain ⟨hcursor, hforward, hstop, hrest⟩ := Tree.row_cons.mp hrow
    have hgap : (slice s.chars cursor m.start).length = m.start - cursor := length_slice (by omega)
    rw [cutsFrom_cons hname] at hcuts
    cases front with
    | nil =>
      obtain ⟨rfl, -⟩ := List.cons.inj hcuts
      simp only [List.flatMap_nil, List.length_nil, hgap]
      omega
    | cons d front =>
      obtain ⟨rfl, hback⟩ := List.cons.inj hcuts
      have hplace := ih (fun n hn => hms n (List.mem_cons_of_mem _ hn)) hrest hback
      have hmember : (slice s.chars m.start m.stop).length = m.stop - m.start :=
        length_slice (by omega)
      rw [hplace, List.flatMap_cons, List.length_append, Cut.text, List.length_append, asWritten,
        textOf, String.toList_ofList, hgap, hmember]
      omega

end Cutting

/-- **A well-placed node is cut up and rendered at its members of `this`.** -/
theorem rewritten_cuts {t : Tree} (h : t.WellPlaced s.chars.length) :
    s.Rewritten t (s.cutsFrom t.start t.thisMembers)
      (slice s.chars (endFrom t.start t.thisMembers) t.stop) := by
  have hmembers := Tree.thisMembers_eq t h.flat
  have hms : ∀ m ∈ t.thisMembers, m.isThisMember = true := by
    rw [hmembers]
    exact fun m hm => (List.mem_filter.mp hm).2
  have hrow := Tree.row_thisMembers t h.spaced
  have hforward := (h.spaced t (Tree.mem_nodes_self t)).forward
  constructor
  · rw [map_cutsFrom hms, hmembers]
  · exact named_cutsFrom
  · exact fun front c back hcuts => placed_cutsFrom hms hrow h.bounded hcuts
  · rw [textOf, String.toList_ofList, slice_cutsFrom hms hrow hforward]
  · intro resolve
    rw [render, String.toList_ofList, ← splice_cutsFrom hms]
    rfl

namespace Rewritten

variable {s} {t : Tree} {cuts : List Cut} {last : List Char}

/-- Members that are spelled as they were leave the text as it was. -/
theorem render_spelled (h : s.Rewritten t cuts last) {resolve : String → String}
    (hsame : ∀ c ∈ cuts, s.textOf c.member = resolve (s.textOf c.name)) :
    s.render (some resolve) t = s.textOf t := by
  have hcuts : cuts.flatMap (Cut.text (s.asResolved resolve)) =
      cuts.flatMap (Cut.text s.asWritten) := by
    refine List.flatMap_congr fun c hc => ?_
    rw [Cut.text, Cut.text, asResolved, asWritten, hsame c hc]
  rw [← String.toList_inj, h.rendered, h.written, hcuts]

theorem map_name (h : s.Rewritten t cuts last) :
    cuts.map Cut.name = t.nodes.filterMap Tree.thisName? := by
  have hnames : cuts.map Cut.name = (cuts.map Cut.member).filterMap Tree.thisName? := by
    rw [List.filterMap_map, ← List.filterMap_eq_map]
    exact List.filterMap_congr fun c hc => (h.named c hc).symm
  rw [hnames, h.members, Tree.filterMap_thisName?]

end Rewritten

end Source

end Trellis.TypeScript
