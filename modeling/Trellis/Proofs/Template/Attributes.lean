import Mathlib.Data.List.Nodup
import Trellis.Proofs.Template.Openings
import Trellis.Proofs.Template.Places
import Trellis.Proofs.Template.Readings

/-!
# The attributes of an element

A raw name is taken apart by the marks at its ends and put together from a form and a name. The
attributes of an element are kept in five lists by their form, and read again in source order.

* `Binding.form` is the form by the two ends of a name only. It is the form that a name is taken
  apart by (`Binding.form_classify`), and the parts make the name again
  (`Binding.wrap_classify`), for every text.
* `Buckets` are the five lists. An attribute is appended to the list of its form, so each list is a
  filter of the attributes (`buckets_eq`); sorted by their starts the lists are the attributes in
  source order (`ordered_buckets`), because no two of them start at one place.
* `parseTemplate_attributes`: the attributes of every element, in this order, are one for each
  name in its opening tag.
-/

namespace Trellis.Template

open Trellis.Text Lexer

/-! ## Forms of raw names -/

namespace Binding

/-- The marks of a form stand at the two ends of a raw name. -/
def fits (b : Binding) (raw : String) : Bool :=
  b.marks.1.toList.isPrefixOf raw.toList && b.marks.2.toList.isSuffixOf raw.toList

/-- The form of a raw name: the first one whose marks stand at its ends. -/
def form (raw : String) : Binding := (order.find? (·.fits raw)).getD .standard

/-- The text between two marks, with them. -/
theorem between?_eq_some {left right cs inner : List Char}
    (h : between? left right cs = some inner) : cs = left ++ inner ++ right := by
  rw [between?] at h
  split at h
  · next hmarks =>
    rw [Bool.and_eq_true, List.isPrefixOf_iff_prefix, List.isSuffixOf_iff_suffix] at hmarks
    obtain ⟨⟨tail, rfl⟩, hright⟩ := hmarks
    rw [List.drop_left] at hright
    obtain ⟨middle, rfl⟩ := hright
    have hlength : (left ++ (middle ++ right)).length - left.length - right.length =
        middle.length := by
      simp only [List.length_append]
      omega
    rw [List.drop_left, hlength, List.take_left] at h
    rw [← Option.some.inj h, List.append_assoc]
  · cases h

theorem isSome_between? (left right cs : List Char) :
    (between? left right cs).isSome =
      (left.isPrefixOf cs && right.isSuffixOf (cs.drop left.length)) := by
  rw [between?]
  cases left.isPrefixOf cs && right.isSuffixOf (cs.drop left.length) <;> rfl

/-- The marks of a form do not overlap: no mark behind the name has the last character of the mark
before it. -/
theorem isSuffixOf_drop (b : Binding) {cs : List Char} (h : b.marks.1.toList.isPrefixOf cs = true) :
    b.marks.2.toList.isSuffixOf (cs.drop b.marks.1.toList.length) =
      b.marks.2.toList.isSuffixOf cs := by
  obtain ⟨tail, rfl⟩ := List.isPrefixOf_iff_prefix.mp h
  rw [List.drop_left, Bool.eq_iff_iff, List.isSuffixOf_iff_suffix, List.isSuffixOf_iff_suffix]
  cases b <;> simp [marks, List.suffix_cons_iff]

theorem isSome_unwrap? (b : Binding) (raw : String) : (b.unwrap? raw).isSome = b.fits raw := by
  rw [unwrap?, Option.isSome_map, isSome_between?, fits]
  cases h : b.marks.1.toList.isPrefixOf raw.toList with
  | false => rfl
  | true => rw [isSuffixOf_drop b h]

theorem wrap_of_unwrap? {b : Binding} {raw name : String} (h : b.unwrap? raw = some name) :
    b.wrap name = raw := by
  obtain ⟨inner, hinner, rfl⟩ := Option.map_eq_some_iff.mp h
  rw [wrap, ← String.toList_inj]
  simp [between?_eq_some hinner]

/-- **A raw name is its form's marks around its name.** -/
theorem wrap_classify (raw : String) : (classify raw).1.wrap (classify raw).2 = raw := by
  rw [classify]
  cases h : order.findSome? fun b => (b.unwrap? raw).map fun name => (b, name) with
  | none => simp [wrap, marks]
  | some found =>
    obtain ⟨b, -, hb⟩ := List.exists_of_findSome?_eq_some h
    obtain ⟨name, hname, rfl⟩ := Option.map_eq_some_iff.mp hb
    exact wrap_of_unwrap? hname

/-- **The form of a raw name is told by its two ends.** -/
theorem form_classify (raw : String) : (classify raw).1 = form raw := by
  have hfind : ∀ bs : List Binding,
      (bs.findSome? fun b => (b.unwrap? raw).map fun name => (b, name)).map Prod.fst =
        bs.find? (·.fits raw) := by
    intro bs
    induction bs with
    | nil => rfl
    | cons b bs ih =>
      have hsome := isSome_unwrap? b raw
      rw [List.findSome?_cons, List.find?_cons, ← hsome]
      cases b.unwrap? raw with
      | none => exact ih
      | some name => rfl
  rw [classify, form, ← hfind]
  cases order.findSome? fun b => (b.unwrap? raw).map fun name => (b, name) <;> rfl

end Binding

theorem rawName_ofRaw (raw : String) (value : Option String) (span : Span) :
    (Attribute.ofRaw raw value span).rawName = raw := by
  have hwrap := Binding.wrap_classify raw
  rw [Attribute.ofRaw]
  cases h : Binding.classify raw with
  | mk binding name =>
    rw [h] at hwrap
    cases binding with
    | standard => simp [Attribute.rawName, Binding.wrap, Binding.marks]
    | _ => exact hwrap

/-- Only an attribute without marks can lack a value. -/
theorem value_ofRaw (raw : String) (value : Option String) (span : Span) :
    (Attribute.ofRaw raw value span).value =
      if Binding.form raw = .standard then value else some (value.getD "") := by
  rw [← Binding.form_classify, Attribute.ofRaw]
  cases h : Binding.classify raw with
  | mk binding name => cases binding <;> rfl

/-! ## The five lists of an element -/

/-- The lists of an element's attributes. -/
inductive Bucket where
  | plain
  | directives
  | oneWays
  | events
  | twoWays
  deriving DecidableEq

/-- The lists in the order in which they are put together. -/
def Bucket.all : List Bucket := [.plain, .directives, .oneWays, .events, .twoWays]

/-- The list that the attributes of a form are kept in. -/
def Binding.bucket : Binding → Bucket
  | .standard => .plain
  | .directive => .directives
  | .event => .events
  | .twoWay => .twoWays
  | .property | .classToggle | .style | .attribute => .oneWays

/-- What each of the five lists holds. -/
abbrev Buckets := Bucket → List Attribute

/-- Appends an attribute to the list of its form. -/
def Buckets.put (s : Buckets) (a : Attribute) : Buckets :=
  Function.update s a.binding.bucket (s a.binding.bucket ++ [a])

/-- The lists of an element with the given attributes, which are read one after the other. -/
def buckets (attributes : List Attribute) : Buckets := attributes.foldl Buckets.put fun _ => []

/-- All attributes by where they start; those that start at one place stay as the lists have
them. -/
def Buckets.ordered (s : Buckets) : List Attribute :=
  (Bucket.all.flatMap s).mergeSort fun a b => a.span.start ≤ b.span.start

/-- A list has the attributes of its forms, in the order in which they were read. -/
theorem buckets_eq (attributes : List Attribute) (k : Bucket) :
    buckets attributes k = attributes.filter fun a => a.binding.bucket = k := by
  have hfold : ∀ s : Buckets, attributes.foldl Buckets.put s k =
      s k ++ attributes.filter fun a => a.binding.bucket = k := by
    induction attributes with
    | nil => intro s; simp
    | cons a attributes ih =>
      intro s
      rw [List.foldl_cons, ih, Buckets.put]
      by_cases hk : a.binding.bucket = k
      · subst hk
        simp
      · rw [Function.update_of_ne (Ne.symm hk), List.filter_cons_of_neg (by simpa using hk)]
  exact hfold _

/-- The lists are the views of the attributes by their form. -/
theorem buckets_views (attributes : List Attribute) :
    buckets attributes .plain = plain attributes ∧
      buckets attributes .directives = directives attributes ∧
      buckets attributes .oneWays = oneWays attributes ∧
      buckets attributes .events = events attributes ∧
      buckets attributes .twoWays = twoWays attributes := by
  have hview : ∀ (k : Bucket) (q : Binding → Bool), (∀ b : Binding, decide (b.bucket = k) = q b) →
      buckets attributes k = attributes.filter fun a => q a.binding := by
    intro k q hq
    rw [buckets_eq]
    exact List.filter_congr fun a _ => hq a.binding
  refine ⟨hview _ (· == .standard) ?_, hview _ (· == .directive) ?_, hview _ isOneWay ?_,
    hview _ (· == .event) ?_, hview _ (· == .twoWay) ?_⟩ <;>
  · intro b
    cases b <;> rfl

/-- Every attribute is in one list, once. -/
theorem buckets_perm (attributes : List Attribute) :
    (Bucket.all.flatMap (buckets attributes)).Perm attributes := by
  refine List.perm_iff_count.mpr fun a => ?_
  have hcount : ∀ k, (buckets attributes k).count a =
      if a.binding.bucket = k then attributes.count a else 0 := by
    intro k
    rw [buckets_eq]
    split
    · next hk => exact List.count_filter (by simpa using hk)
    · next hk => exact List.count_eq_zero_of_not_mem (by simp [hk])
  rw [List.count_flatMap]
  simp only [Bucket.all, List.map_cons, List.map_nil, Function.comp_apply, hcount]
  cases a.binding.bucket <;> simp

/-- **Sorted by their starts, the lists give the attributes in source order.** -/
theorem ordered_buckets {attributes : List Attribute}
    (h : attributes.Pairwise fun a b => a.span.start < b.span.start) :
    (buckets attributes).ordered = attributes := by
  have hperm := (List.mergeSort_perm (Bucket.all.flatMap (buckets attributes))
    fun a b => a.span.start ≤ b.span.start).trans (buckets_perm attributes)
  have htrans : ∀ a b c : Attribute, decide (a.span.start ≤ b.span.start) = true →
      decide (b.span.start ≤ c.span.start) = true →
      decide (a.span.start ≤ c.span.start) = true := by
    intro a b c hab hbc
    simp only [decide_eq_true_eq] at *
    omega
  have hsorted := List.pairwise_mergeSort htrans
    (fun a b => by simpa using Nat.le_total a.span.start b.span.start)
    (Bucket.all.flatMap (buckets attributes))
  -- two attributes that start at one place are one
  have hstarts : (attributes.map fun a => a.span.start).Nodup :=
    List.pairwise_map.mpr (h.imp Nat.ne_of_lt)
  refine List.Perm.eq_of_pairwise (fun a b ha hb hab hba => ?_) hsorted
    (h.imp fun hlt => decide_eq_true (Nat.le_of_lt hlt)) hperm
  exact List.inj_on_of_nodup_map hstarts (hperm.mem_iff.mp ha) hb
    (Nat.le_antisymm (of_decide_eq_true hab) (of_decide_eq_true hba))

/-! ## Names have characters -/

/-- The name of an attribute, as a reading takes it. -/
theorem Lexer.Reads.attrName_ne_nil {m m' : Mode} {cs r : List Char} {ps : List Piece}
    (h : Reads m cs ps m' r) (hcs : cs ≠ []) {value chars : List Char}
    (hmem : Piece.token .attrName value chars ∈ ps) : chars ≠ [] := by
  cases h with
  | attrNameEquals hcut =>
    simp only [Piece.plain, List.mem_cons, Piece.token.injEq, List.not_mem_nil] at hmem
    obtain ⟨-, -, rfl⟩ | ⟨hkind, -⟩ | hno := hmem
    · exact cutAttrToken_ne_nil hcs hcut
    · cases hkind
    · exact hno.elim
  | attrName hcut hr =>
    simp only [Piece.plain, List.mem_singleton, Piece.token.injEq] at hmem
    obtain ⟨-, -, rfl⟩ := hmem
    exact cutAttrToken_ne_nil hcs hcut
  | _ => simp [Piece.plain] at hmem

/-- The name of an attribute is not empty. -/
theorem start_lt_stop_attrName {source : String} {t : Token} (ht : t ∈ (tokenize source).tokens)
    (hkind : t.kind = .attrName) : t.span.start < t.span.stop := by
  obtain ⟨ps, m, hscan, heq⟩ := tokenize_scan source
  rw [heq] at ht
  obtain ⟨front, p, after, rfl, hp⟩ := mem_layout ht
  obtain ⟨hstart, hstop⟩ := span_of_mem_tokens hp
  cases p with
  | token kind value chars =>
    rw [List.mem_singleton.mp hp] at hkind
    obtain rfl : kind = .attrName := hkind
    have hmem : Piece.token .attrName value chars ∈
        front ++ .token .attrName value chars :: after :=
      List.mem_append_right _ List.mem_cons_self
    obtain ⟨_, _, _, _, _, hcs, hread, hmem⟩ := hscan.exists_reads hmem
    have hpos : 0 < chars.length := List.length_pos_iff.mpr (hread.attrName_ne_nil hcs hmem)
    rw [hstart, hstop, Piece.chars_token]
    omega
  | spaces cs => exact absurd hp List.not_mem_nil
  | slash => exact absurd hp List.not_mem_nil
  | quote q => exact absurd hp List.not_mem_nil

/-! ## Groups of tokens -/

/-- The value that stands after an attribute's name. -/
def AttrPhrase.value? : AttrPhrase → Option String
  | .bare _ => none
  | .dangling .. => none
  | .valued _ _ value => some value.value

/-- **An attribute as the tokens of a group give it.** -/
structure AttrPhrase.ReadAs (g : AttrPhrase) (a : Attribute) : Prop where
  /-- The form is that of the name. -/
  binding : a.binding = Binding.form g.name.value
  /-- The name is put together again as it was written. -/
  rawName : a.rawName = g.name.value
  /-- A missing value is none for an attribute without marks, and empty for any other. -/
  value : a.value = if a.binding = .standard then g.value? else some (g.value?.getD "")
  start : a.span.start = g.name.span.start

theorem AttrPhrase.readAs_toAttribute (g : AttrPhrase) : g.ReadAs g.toAttribute := by
  have hread : ∀ stop : Span,
      g.ReadAs (Attribute.ofRaw g.name.value g.value? (g.name.span.upTo stop)) := by
    intro stop
    have hbinding := (binding_ofRaw g.name.value g.value? (g.name.span.upTo stop)).trans
      (Binding.form_classify _)
    refine ⟨hbinding, rawName_ofRaw _ _ _, ?_, ?_⟩
    · rw [hbinding, value_ofRaw]
    · rw [Attribute.span_ofRaw, Span.upTo]
  cases g <;> exact hread _

/-- An opening tag among the tokens. -/
structure TagPhrase where
  name : Lexeme
  groups : List AttrPhrase
  selfClosing : Bool

/-- The element that the tag opens. -/
def TagPhrase.opening (t : TagPhrase) : Opening :=
  ⟨t.name.value, t.selfClosing, t.groups.map AttrPhrase.toAttribute⟩

/-- The opening tag of a phrase, if it is one. -/
def Phrase.openingTags : Phrase → List TagPhrase
  | .leaf .. => []
  | .opening _ name attrs selfClosing _ => [⟨name, attrs, selfClosing⟩]
  | .closing .. => []

/-- The opening tag that the source ends in. -/
def Ending.openingTags : Ending → List TagPhrase
  | .whole => []
  | .opening _ name attrs => [⟨name, attrs, false⟩]
  | .closing _ => []

/-- The opening tags of a sentence, in order. -/
def Sentence.openingTags (s : Sentence) : List TagPhrase :=
  s.phrases.flatMap Phrase.openingTags ++ s.ending.openingTags

theorem Sentence.map_openingTags (s : Sentence) :
    s.openingTags.map TagPhrase.opening = s.openings := by
  have hphrase : ∀ p : Phrase, p.openingTags.map TagPhrase.opening = p.openings := by
    intro p
    cases p <;> rfl
  have hending : s.ending.openingTags.map TagPhrase.opening = s.ending.openings := by
    cases s.ending <;> rfl
  rw [openingTags, List.map_append, List.map_flatMap, hending, openings]
  simp only [hphrase]

/-- The tokens of a tag's attributes stand among the others in the same order. -/
theorem Sentence.attrTokens_sublist {s : Sentence} {t : TagPhrase} (h : t ∈ s.openingTags) :
    (attrTokens t.groups).Sublist s.tokens := by
  have hopening : ∀ first name : Lexeme, ∀ attrs : List AttrPhrase,
      (attrTokens attrs).Sublist (openingTokens first name attrs) :=
    fun _ _ _ => ((List.Sublist.refl _).cons _).cons _
  rcases List.mem_append.mp h with h | h
  · obtain ⟨p, hp, ht⟩ := List.mem_flatMap.mp h
    refine List.Sublist.trans ?_ (List.sublist_append_left _ _)
    have hphrase : (attrTokens t.groups).Sublist p.tokens := by
      cases p with
      | leaf kind x => exact absurd ht List.not_mem_nil
      | opening first name attrs selfClosing close =>
        rw [List.mem_singleton.mp ht]
        exact (hopening first name attrs).trans (List.sublist_append_left _ _)
      | closing first name close => exact absurd ht List.not_mem_nil
    exact hphrase.trans (List.sublist_flatten_of_mem (List.mem_map_of_mem hp))
  · refine List.Sublist.trans ?_ (List.sublist_append_right _ _)
    cases hending : s.ending with
    | whole =>
      rw [hending] at h
      exact absurd h List.not_mem_nil
    | opening first name attrs =>
      rw [hending] at h
      rw [List.mem_singleton.mp h]
      exact hopening first name attrs
    | closing first =>
      rw [hending] at h
      exact absurd h List.not_mem_nil

/-- The attributes of a tag start one after the other. -/
theorem ascending_toAttribute {source : String} {s : Sentence}
    (hs : (tokenize source).tokens = s.tokens) {t : TagPhrase} (ht : t ∈ s.openingTags) :
    t.opening.attributes.Pairwise fun a b => a.span.start < b.span.start := by
  have hsublist := s.attrTokens_sublist ht
  rw [← hs] at hsublist
  have hnames : (t.groups.map (·.name.token .attrName)).Sublist (tokenize source).tokens := by
    rw [← filter_attrTokens]
    exact List.filter_sublist.trans hsublist
  have hordered := (ordered_tokenize source).sublist hnames
  rw [List.pairwise_map] at hordered
  rw [TagPhrase.opening, List.pairwise_map]
  refine hordered.imp_of_mem fun {g h} hg _ hle => ?_
  have hlt := start_lt_stop_attrName (hnames.subset (List.mem_map_of_mem hg)) rfl
  rw [g.readAs_toAttribute.start, h.readAs_toAttribute.start]
  exact Nat.lt_of_lt_of_le hlt hle

/-! ## The attributes of an element -/

/-- **The five lists of an element hold what stands in its tag.** -/
structure Opening.Holds (e : Opening) (groups : List AttrPhrase) : Prop where
  /-- Read in source order, the lists have one attribute for each group of tokens. -/
  ordered : List.Forall₂ AttrPhrase.ReadAs groups (buckets e.attributes).ordered
  ascending : (buckets e.attributes).ordered.Pairwise fun a b => a.span.start < b.span.start
  /-- Each attribute is in the list of its form and in no other. -/
  bucket : ∀ k, buckets e.attributes k =
    (buckets e.attributes).ordered.filter fun a => a.binding.bucket = k
  /-- The lists are the views by which attributes of a form are found. -/
  views : buckets e.attributes .plain = plain e.attributes ∧
    buckets e.attributes .directives = directives e.attributes ∧
    buckets e.attributes .oneWays = oneWays e.attributes ∧
    buckets e.attributes .events = events e.attributes ∧
    buckets e.attributes .twoWays = twoWays e.attributes

/-- **Attributes are sorted by form without loss.** A raw name is taken apart by its two ends and
put together again, whatever it is; and the elements of a source are its opening tags, each with one
attribute for each group of tokens, in source order and in the list of its form. -/
theorem parseTemplate_attributes :
    (∀ raw : String, (Binding.classify raw).1 = Binding.form raw ∧
      (Binding.classify raw).1.wrap (Binding.classify raw).2 = raw) ∧
    ∀ source : String, (∃ s : Sentence, (tokenize source).tokens = s.tokens) ∧
      ∀ s : Sentence, (tokenize source).tokens = s.tokens →
        List.Forall₂ (fun (t : TagPhrase) (e : Opening) => e.tag = t.name.value ∧
          e.selfClosing = t.selfClosing ∧ e.Holds t.groups)
          s.openingTags (parseTemplate source).document.openings := by
  refine ⟨fun raw => ⟨Binding.form_classify raw, Binding.wrap_classify raw⟩, fun source => ?_⟩
  constructor
  · obtain ⟨s, hs, -⟩ := tokenize_sentence source
    exact ⟨s, hs⟩
  · intro s hs
    rw [openings_parseTemplate hs, ← s.map_openingTags, List.forall₂_map_right_iff,
      List.forall₂_same]
    intro t ht
    have hascending := ascending_toAttribute hs ht
    have hordered := ordered_buckets hascending
    refine ⟨rfl, rfl, ?_, ?_, fun k => ?_, buckets_views _⟩
    · rw [hordered, TagPhrase.opening, List.forall₂_map_right_iff, List.forall₂_same]
      exact fun g _ => g.readAs_toAttribute
    · rwa [hordered]
    · rw [hordered, buckets_eq]

end Trellis.Template
