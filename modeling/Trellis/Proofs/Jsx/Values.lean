import Trellis.Proofs.Jsx.Blanks
import Trellis.Proofs.Jsx.Interpolation
import Trellis.Proofs.Jsx.References
import Trellis.Proofs.Registry

/-!
# Expressions in the values of plain attributes

The value of a plain attribute can have expressions between doubled braces. They are compiled where
the attribute is written as a template literal; classes and styles are written in another way.

* `Closes` says that no opening pair of braces in a value is left open. `chunks_cutValue_iff`: this
  is the case exactly if no such pair is left in the text around the expressions.
* `Interpolated` says that an attribute is written with its expressions compiled and without
  opening pairs in its text. `interpolated_iff`: this is the case for no class and no style, and for
  other attributes exactly if no pair is left open.
* `transform_interpolations`: this law over a template, what is gathered for the expressions, and
  what is written of classes and styles: their values as texts, with the braces in them.
  `kept_cardTemplate` is the smallest such class.
-/

namespace Trellis.Template

open Trellis.Text
open Trellis.Jsx

/-- A plain attribute, no reference, with an expression in its value. -/
structure Attribute.HasExpressions (a : Attribute) : Prop where
  standard : a.binding = .standard
  noRef : hasStart a.name "#" = false
  nonempty : bracedExpressions a.expression.toList ≠ []

/-- The attribute is merged with bindings of its element. -/
def Attribute.isMerged (a : Attribute) : Bool := a.name == "class" || a.name == "style"

mutual

/-- The chains of an element of the output are among those of its node. -/
theorem Node.chains_of_visited {n : Node} {x : String × List Attribute} (h : x ∈ n.visited) :
    x.2.flatMap Attribute.chains ⊆ n.chains := by
  cases n with
  | text | comment | interpolation =>
    rw [Node.visited] at h
    cases h
  | element tag selfClosing attributes children span =>
    rw [Node.visited] at h
    rw [Node.chains]
    split at h
    · cases h
    · next hplace =>
      rw [if_neg hplace]
      rcases List.mem_cons.mp h with rfl | h
      · exact List.subset_append_left _ _
      · exact List.Subset.trans (Node.chainsOf_of_visited h) (List.subset_append_right _ _)

theorem Node.chainsOf_of_visited {ns : List Node} {x : String × List Attribute}
    (h : x ∈ Node.visitedOf ns) : x.2.flatMap Attribute.chains ⊆ Node.chainsOf ns := by
  cases ns with
  | nil =>
    rw [Node.visitedOf] at h
    cases h
  | cons n ns =>
    rw [Node.visitedOf] at h
    rw [Node.chainsOf]
    rcases List.mem_append.mp h with h | h
    · exact List.Subset.trans (Node.chains_of_visited h) (List.subset_append_left _ _)
    · exact List.Subset.trans (Node.chainsOf_of_visited h) (List.subset_append_right _ _)

end

end Trellis.Template

namespace Trellis.Jsx

open Trellis.Text
open Trellis.Template
open Trellis.Script

/-! ## Pairs of braces -/

section

variable {pat cs before after : List Char}

/-- Before its first occurrence a pattern does not occur. -/
theorem breakAt?_before (hpat : pat ≠ []) (h : breakAt? pat cs = some (before, after)) :
    breakAt? pat before = none := by
  induction cs generalizing before with
  | nil =>
    rw [breakAt?, if_neg (by simpa using hpat)] at h
    cases h
  | cons c cs ih =>
    rw [breakAt?] at h
    split at h
    · cases h
      rw [breakAt?, if_neg (by simpa using hpat)]
    · next hprefix =>
      obtain ⟨⟨rest, tail⟩, hrest, heq⟩ := Option.map_eq_some_iff.mp h
      cases heq
      rw [breakAt?, if_neg, ih hrest]
      · rfl
      · intro hmore
        refine hprefix (List.isPrefixOf_iff_prefix.mpr ?_)
        rw [eq_of_breakAt? hrest]
        exact (List.isPrefixOf_iff_prefix.mp hmore).trans ⟨pat ++ after, rfl⟩

/-- A pattern occurs where it stands. -/
theorem isSome_breakAt?_append (pat before after : List Char) :
    (breakAt? pat (before ++ (pat ++ after))).isSome = true := by
  cases h : breakAt? pat (before ++ (pat ++ after)) with
  | some parts => rfl
  | none =>
    have hhere := breakAt?_of_append before h
    cases pat with
    | nil => cases after <;> simp [breakAt?] at hhere
    | cons c pat => rw [List.cons_append, breakAt?, if_pos (by simp)] at hhere; cases hhere

end

/-- Every opening pair of braces has a closing one behind it. -/
def Closes (cs : List Char) : Prop :=
  ∀ before after, cs = before ++ '\x7b' :: '\x7b' :: after →
    (breakAt? ['\x7d', '\x7d'] after).isSome = true

theorem chunks_lead_substitute (text code : List Char) (p : Pieces Char) :
    ((p.substitute code).lead text).chunks = text :: p.chunks := by
  simp [Pieces.chunks, Pieces.lead, Pieces.substitute]

/-- Behind a closed pair the rest decides. -/
theorem closes_append_iff (before rest : List Char) :
    Closes (before ++ '\x7d' :: '\x7d' :: rest) ↔ Closes rest := by
  constructor
  · intro h front back heq
    refine h (before ++ '\x7d' :: '\x7d' :: front) back ?_
    rw [heq]
    simp
  · intro h front back heq
    rcases List.append_eq_append_iff.mp heq with ⟨u, -, hrest⟩ | ⟨u, -, hback⟩
    · match u with
      | [] => cases hrest
      | [_] => cases hrest
      | _ :: _ :: u =>
        injection hrest with _ hrest
        injection hrest with _ hrest
        exact h u back hrest
    · match u with
      | [] => cases hback
      | [_] => cases hback
      | _ :: _ :: u =>
        injection hback with _ hback
        injection hback with _ hback
        rw [hback]
        exact isSome_breakAt?_append ['\x7d', '\x7d'] u rest

/-- **No pair is left open** exactly if none is left in the text around the expressions. -/
theorem chunks_cutValue_iff (cs : List Char) :
    (∀ chunk ∈ (cutValue cs).chunks, breakAt? ['\x7b', '\x7b'] chunk = none) ↔ Closes cs := by
  fun_induction cutValue cs with
  | case1 cs hopen =>
    refine iff_of_true ?_ ?_
    · intro chunk hchunk
      rwa [List.mem_singleton.mp hchunk]
    · intro before after heq
      have hfound := isSome_breakAt?_append ['\x7b', '\x7b'] before after
      rw [heq] at hopen
      rw [List.cons_append, List.cons_append, List.nil_append, hopen] at hfound
      cases hfound
  | case2 cs before after hopen hclose =>
    refine iff_of_false (fun h => ?_) (fun h => ?_)
    · have htext := h cs List.mem_cons_self
      rw [hopen] at htext
      cases htext
    · have hfound := h before after (eq_of_breakAt? hopen)
      rw [hclose] at hfound
      cases hfound
  | case3 cs before after hopen inside rest hclose ih =>
    have hwhole : cs = (before ++ '\x7b' :: '\x7b' :: inside) ++ '\x7d' :: '\x7d' :: rest := by
      rw [eq_of_breakAt? hopen, eq_of_breakAt? hclose]
      simp
    rw [chunks_lead_substitute, List.forall_mem_cons, ih, hwhole, closes_append_iff]
    exact and_iff_right (breakAt?_before nofun hopen)

/-! ## Plain attributes -/

theorem text_mem_pieceParts {p : Pieces Char} {chunk : List Char} :
    .text chunk ∈ pieceParts p ↔ chunk ∈ p.chunks ∧ chunk ≠ [] := by
  have htext : ∀ text, ValuePart.text chunk ∈ textParts text ↔ chunk = text ∧ chunk ≠ [] := by
    intro text
    cases text with
    | nil => simp [textParts]
    | cons c text =>
      simp only [textParts, List.isEmpty_cons, Bool.false_eq_true, if_false, List.mem_singleton,
        ValuePart.text.injEq]
      exact ⟨fun h => ⟨h, by simp [h]⟩, fun h => h.1⟩
  rw [pieceParts, List.mem_append, htext, Pieces.chunks, List.mem_cons, List.mem_flatMap,
    or_and_right]
  simp only [List.mem_cons, htext, reduceCtorEq, false_or, List.mem_map]
  grind

/-- A plain attribute with expressions is written as a template literal. -/
theorem plainForm_eq {value : Option String} (h : bracedExpressions (value.getD "").toList ≠ [])
    (name : String) :
    plainForm name value = .interpolated (pieceParts (cutValue (value.getD "").toList)) := by
  rw [← expressions_plainForm name value] at h
  cases value with
  | none => exact absurd rfl h
  | some value =>
    rw [plainForm] at h ⊢
    split at h
    · exact absurd rfl h
    · next htrue =>
      rw [if_neg htrue]
      split at h
      · exact absurd rfl h
      · next hdigits =>
        rw [if_neg hdigits]
        split at h
        · next hopen =>
          rw [if_pos hopen, valueParts, valuePartsFrom_eq]
          rfl
        · exact absurd rfl h

/-- The attribute is written as a template literal: its expressions are compiled, and its text has
no opening pair of braces. -/
def Interpolated (scope : Scope) (ws : List Written) (a : Attribute) : Prop :=
  ∃ parts, Written.plain a (attributeName a.name) (.interpolated parts) ∈ ws ∧
    parts.filterMap ValuePart.expression? =
      (bracedExpressions a.expression.toList).map (fun e => (Pipe.compile scope.pipes e).text) ∧
    ∀ chunk, .text chunk ∈ parts → breakAt? ['\x7b', '\x7b'] chunk = none

/-- The pieces of the attribute's value with its expressions compiled. -/
def compiledParts (scope : Scope) (a : Attribute) : List ValuePart :=
  (pieceParts (cutValue a.expression.toList)).map (compilePart scope)

theorem text_mem_compiledParts {scope : Scope} {a : Attribute} {chunk : List Char} :
    .text chunk ∈ compiledParts scope a ↔
      chunk ∈ (cutValue a.expression.toList).chunks ∧ chunk ≠ [] := by
  rw [← text_mem_pieceParts, compiledParts, List.mem_map]
  constructor
  · rintro ⟨part, hpart, heq⟩
    cases part with
    | text cs => rwa [← heq]
    | expression e => cases heq
  · exact fun h => ⟨_, h, rfl⟩

theorem expressions_compiledParts (scope : Scope) (a : Attribute) :
    (compiledParts scope a).filterMap ValuePart.expression? =
      (bracedExpressions a.expression.toList).map fun e => (Pipe.compile scope.pipes e).text := by
  rw [compiledParts, ← valuePartsFrom_eq, ← expressions_valuePartsFrom, List.filterMap_map,
    List.map_filterMap]
  refine List.filterMap_congr fun part _ => ?_
  cases part <;> rfl

/-- Plain attributes are written in their own place only. -/
theorem plain_mem_written {scope : Scope} {tag : String} {attributes : List Attribute}
    {a : Attribute} (ha : a ∈ attributes) {name : String} {form : PlainForm} :
    Written.plain a name form ∈ written scope tag attributes ↔
      writtenOwn scope a = some (.plain a name form) ∧ (Written.plain a name form).text ≠ "" := by
  have hmerged : Written.plain a name form ∉ writtenMerged attributes := by simp [writtenMerged]
  have hrefs : Written.plain a name form ∉ writtenRefs attributes := by simp [writtenRefs]
  have hspread : Written.plain a name form ∉
      (directives attributes).filterMap (writtenDirective scope) := by
    intro hmem
    obtain ⟨b, -, hb⟩ := List.mem_filterMap.mp hmem
    rw [writtenDirective] at hb
    split at hb
    · cases hb
    · simp at hb
  have htwoWay : Written.plain a name form ∉
      (twoWays attributes).flatMap (writtenTwoWay tag) := by
    intro hmem
    obtain ⟨b, -, hb⟩ := List.mem_flatMap.mp hmem
    simp only [writtenTwoWay] at hb
    split_ifs at hb <;> simp at hb
  simp only [written, List.mem_append, hmerged, hrefs, hspread, htwoWay, false_or,
    List.mem_filter, List.mem_filterMap, Bool.not_eq_true', String.isEmpty_eq_false_iff]
  refine and_congr_left' ⟨?_, fun hown => ⟨a, ha, hown⟩⟩
  rintro ⟨b, -, hb⟩
  obtain rfl : a = b := source_of_writtenOwn hb rfl
  exact hb

theorem writtenOwn_of_hasExpressions (scope : Scope) {a : Attribute} (h : a.HasExpressions) :
    writtenOwn scope a = if a.isMerged then none else
      some (.plain a (attributeName a.name) (.interpolated (compiledParts scope a))) := by
  rw [writtenOwn, h.standard]
  dsimp only
  rw [h.noRef, Bool.or_false, plainForm_eq h.nonempty]
  rfl

theorem text_interpolated_ne (a : Attribute) (name : String) (parts : List ValuePart) :
    (Written.plain a name (.interpolated parts)).text ≠ "" := by
  intro htext
  have hlength := length_assign name (templateLiteral parts)
  change assign name (templateLiteral parts) = "" at htext
  rw [htext, String.length_empty] at hlength
  omega

/-- Where an attribute with expressions is written in its own place. -/
theorem plain_mem_written_iff {scope : Scope} {tag : String} {attributes : List Attribute}
    {a : Attribute} (ha : a ∈ attributes) (h : a.HasExpressions) {name : String}
    {form : PlainForm} : Written.plain a name form ∈ written scope tag attributes ↔
      a.isMerged = false ∧ name = attributeName a.name ∧
        form = .interpolated (compiledParts scope a) := by
  rw [plain_mem_written ha, writtenOwn_of_hasExpressions scope h]
  split
  · next hmerged => simp [hmerged]
  · next hmerged =>
    rw [Bool.not_eq_true] at hmerged
    simp only [Option.some.injEq, Written.plain.injEq, true_and, hmerged]
    constructor
    · rintro ⟨⟨rfl, rfl⟩, -⟩
      exact ⟨rfl, rfl⟩
    · rintro ⟨rfl, rfl⟩
      exact ⟨⟨rfl, rfl⟩, text_interpolated_ne _ _ _⟩

/-- **Attributes with expressions** are written as they should be exactly if they are no class and
no style and leave no pair of braces open. -/
theorem interpolated_iff {scope : Scope} {tag : String} {attributes : List Attribute}
    {a : Attribute} (ha : a ∈ attributes) (h : a.HasExpressions) :
    Interpolated scope (written scope tag attributes) a ↔
      a.isMerged = false ∧ Closes a.expression.toList := by
  have hopen : (∀ chunk, .text chunk ∈ compiledParts scope a →
      breakAt? ['\x7b', '\x7b'] chunk = none) ↔ Closes a.expression.toList := by
    rw [← chunks_cutValue_iff]
    refine forall_congr' fun chunk => ?_
    rw [text_mem_compiledParts]
    refine ⟨fun hchunk hmem => ?_, fun hchunk hmem => hchunk hmem.1⟩
    by_cases hnil : chunk = []
    · rw [hnil]
      rfl
    · exact hchunk ⟨hmem, hnil⟩
  constructor
  · rintro ⟨parts, hparts, -, htext⟩
    obtain ⟨hmerged, -, hform⟩ := (plain_mem_written_iff ha h).mp hparts
    obtain rfl := PlainForm.interpolated.inj hform
    exact ⟨hmerged, hopen.mp htext⟩
  · rintro ⟨hmerged, hcloses⟩
    exact ⟨compiledParts scope a, (plain_mem_written_iff ha h).mpr ⟨hmerged, rfl, rfl⟩,
      expressions_compiledParts scope a, hopen.mpr hcloses⟩

/-! ## Classes and styles -/

/-- The value stands in the text as a string: in quotes, or with escapes. -/
def HoldsString (value text : String) : Prop :=
  Within ("\"" ++ value ++ "\"") text ∨ Within (jsonQuote value) text

/-- The value of a style's property: the last declaration counts. -/
def declared? (property style : String) : Option String :=
  (((parseStyle style).filter (·.1 == property)).getLast?).map (·.2)

theorem holdsString_quote (value : String) : HoldsString value (quote value) := by
  rw [quote]
  split
  · exact .inr (within_braced (within_self _))
  · exact .inl (within_self _)

/-- A static class stands in the class attribute as a string. -/
theorem holdsString_classAttribute {fixed : String} (hfixed : fixed ≠ "")
    (toggles : List (String × String)) (dynamic : Option String) :
    ∃ text, classAttribute (some fixed) toggles dynamic = some text ∧ HoldsString fixed text := by
  rw [classAttribute_eq]
  have hshown : fixed.isEmpty = false := String.isEmpty_eq_false_iff.mpr hfixed
  simp only [Option.getD_some, hshown, Bool.false_and, Bool.false_eq_true, if_false]
  split
  · exact ⟨_, rfl, (holdsString_quote fixed).imp (·.prepend _) (·.prepend _)⟩
  · refine ⟨_, rfl, .inr ?_⟩
    have hmem : jsonQuote fixed ∈ classOperands fixed (dynamic.getD "") toggles := by
      rw [classOperands_eq, baseOperands, fixedOperands, hshown]
      simp
    generalize classOperands fixed (dynamic.getD "") toggles = parts at hmem
    unfold sumText
    split
    · rw [List.mem_singleton.mp hmem]
      split
      · exact (within_self _).prepend _
      · exact (within_braced (within_self _)).prepend _
    · exact (within_braced ((within_self _).intercalate _ hmem)).prepend _

/-- A declaration that nothing replaces stands in the style attribute as a string. -/
theorem holdsString_styleAttribute {style property value : String}
    {bindings : List (String × String)} (hdeclared : declared? property style = some value)
    (hfree : property ∉ bindings.map (·.1)) :
    ∃ text, styleAttribute (some style) bindings = some text ∧
      Within (property ++ ": " ++ jsonQuote value) text := by
  have hget : (Table.ofList (((parseStyle style).map fun row =>
      (row.1, jsonQuote row.2)) ++ bindings)).get? property = some (jsonQuote value) := by
    rw [Table.get?_ofList_append_of_not_mem _ hfree, Table.get?_ofList, List.filter_map,
      List.getLast?_map, Option.map_map]
    have hvalue := congrArg (Option.map jsonQuote) hdeclared
    rwa [declared?, Option.map_map] at hvalue
  obtain ⟨before, after, hrows, -⟩ := List.lookup_eq_some_iff.mp hget
  rw [styleAttribute, Option.getD_some]
  dsimp only
  rw [hrows]
  split
  · next hnil => simp at hnil
  · refine ⟨_, rfl, (within_braced (within_braced ?_)).prepend _⟩
    exact (within_self _).intercalate _
      (List.mem_map_of_mem (List.mem_append_right _ List.mem_cons_self))

theorem mem_writtenMerged {attributes : List Attribute} {text : String} :
    Written.merged text ∈ writtenMerged attributes ↔
      mergedClass attributes = some text ∨ mergedStyle attributes = some text := by
  have htexts : text ∈ (writtenMerged attributes).map Written.text ↔
      mergedClass attributes = some text ∨ mergedStyle attributes = some text := by
    rw [map_text_writtenMerged, List.mem_append, Option.mem_toList, Option.mem_toList]
  rw [← htexts, writtenMerged]
  simp [Written.text]

/-! ## Templates -/

/-- A compiled template has what the calls of a chain need: the entries of registered pipes and the
names of runtime functions. -/
structure Supplied (registry : Option PipeRegistry) (t : Transformed) (chain : String) : Prop where
  pipes : ∀ c ∈ Pipe.callsOf chain, ∀ name, c.registered? registry = some name →
    ∃ entry ∈ t.pipes, registry.bind (·.get? name) = some entry
  helpers : ∀ c ∈ Pipe.callsOf chain, ∀ f, c.runtime? = some f → f ∈ t.helpers

theorem supplied_transform (env : Environment) (inLayout : Bool) {template chain : String}
    (h : chain ∈ (parseTemplate template).document.chains) :
    Supplied env.pipes (transform env inLayout template).value chain := by
  have hcall : ∀ c ∈ Pipe.callsOf chain,
      c ∈ (parseTemplate template).document.chains.flatMap Pipe.callsOf :=
    fun c hc => List.mem_flatMap.mpr ⟨chain, h, hc⟩
  constructor
  · intro c hc name hname
    have hused : name ∈ (((parseTemplate template).document.chains.flatMap
        Pipe.callsOf).filterMap (·.registered? env.pipes)).eraseDups :=
      List.mem_eraseDups.mpr (List.mem_filterMap.mpr ⟨c, hcall c hc, hname⟩)
    rw [Pipe.Call.registered?] at hname
    split at hname
    · cases hname
    · obtain ⟨entry, hentry, rfl⟩ := Option.map_eq_some_iff.mp hname
      refine ⟨entry, ?_, hentry⟩
      rw [pipes_transform_eq]
      exact List.mem_filterMap.mpr ⟨_, hused, hentry⟩
  · intro c hc f hf
    rw [helpers_transform_eq]
    exact List.mem_eraseDups.mpr (List.mem_filterMap.mpr ⟨c, hcall c hc, hf⟩)

/-- **Expressions in attributes**: where a plain attribute of an element has expressions in its
value, they are compiled and no opening pair of braces is left as text, exactly if the attribute is
no class and no style and leaves no pair open. What the expressions need is gathered. The value of
the last class is written as a string, and so is each declaration of the last style. -/
theorem transform_interpolations (env : Environment) (inLayout : Bool) (template : String) :
    ∀ x ∈ (parseTemplate template).document.visited,
      (∀ e : Emission, ((emitAttributes (env.scope inLayout) x.1 x.2).run e).1 =
        (written (env.scope inLayout) x.1 x.2).map Written.text) ∧
      ∀ a ∈ x.2, a.HasExpressions →
        (Interpolated (env.scope inLayout) (written (env.scope inLayout) x.1 x.2) a ↔
          a.isMerged = false ∧ Closes a.expression.toList) ∧
        (a.isMerged = false → ∀ chain ∈ bracedExpressions a.expression.toList,
          Supplied env.pipes (transform env inLayout template).value chain) ∧
        (a.name = "class" → lastValue? "class" x.2 = a.value →
          ∃ text, .merged text ∈ written (env.scope inLayout) x.1 x.2 ∧
            HoldsString a.expression text) ∧
        (a.name = "style" → lastValue? "style" x.2 = a.value →
          ∀ property value, declared? property a.expression = some value →
            property ∉ (usableStyles x.2).map (·.1) →
              ∃ text, .merged text ∈ written (env.scope inLayout) x.1 x.2 ∧
                Within (property ++ ": " ++ jsonQuote value) text) := by
  intro x hx
  refine ⟨fun e => (tells_emitAttributes _ x.1 x.2 e).1, fun a ha h => ?_⟩
  have hvalue : a.value = some a.expression := by
    cases hvalue : a.value with
    | none =>
      refine absurd ?_ h.nonempty
      rw [Attribute.expression, hvalue]
      exact bracedExpressions_of_unclosed rfl
    | some value => rw [Attribute.expression, hvalue, Option.getD_some]
  have hmerged : ∀ text, mergedClass x.2 = some text ∨ mergedStyle x.2 = some text →
      Written.merged text ∈ written (env.scope inLayout) x.1 x.2 := by
    intro text htext
    have hmem := mem_writtenMerged.mpr htext
    simp only [written, List.mem_append, hmem, true_or, or_true]
  refine ⟨interpolated_iff ha h,
    fun hown chain hchain => supplied_transform env inLayout ?_, ?_, ?_⟩
  · refine Node.chainsOf_of_visited hx (List.mem_flatMap.mpr ⟨a, ha, ?_⟩)
    rw [Attribute.isMerged, Bool.or_eq_false_iff, beq_eq_false_iff_ne, beq_eq_false_iff_ne] at hown
    have hplace : ¬(a.name = "class" ∨ a.name = "style" ∨ hasStart a.name "#" = true) := by
      simp [hown, h.noRef]
    rw [Attribute.chains, h.standard]
    dsimp only
    rwa [if_neg hplace]
  · intro _ hlast
    have hsolid : a.expression ≠ "" := by
      intro hnil
      refine h.nonempty ?_
      rw [hnil]
      exact bracedExpressions_of_unclosed rfl
    obtain ⟨text, htext, hholds⟩ := holdsString_classAttribute hsolid (usableToggles x.2)
      (some (renameReserved (boundClass x.2)))
    refine ⟨text, hmerged text (.inl ?_), hholds⟩
    rw [mergedClass, hlast, hvalue, htext]
  · intro _ hlast property value hdeclared hfree
    obtain ⟨text, htext, hwithin⟩ := holdsString_styleAttribute hdeclared hfree
    refine ⟨text, hmerged text (.inr ?_), hwithin⟩
    rw [mergedStyle, hlast, hvalue, htext]

/-! ### A title and a class with an expression -/

/-- An element with an expression in its title. -/
def captionTemplate : String := "<p title=\"a \x7b\x7b x \x7d\x7d\"/>"

def captionAttribute : Attribute :=
  ⟨.standard, "title", some "a \x7b\x7b x \x7d\x7d", ⟨1, 4, 3, 19⟩⟩

theorem parse_captionTemplate : parseTemplate captionTemplate =
    ⟨⟨[.element "p" true [captionAttribute] [] ⟨1, 1, 0, 22⟩], ⟨1, 1, 0, 22⟩⟩, []⟩ := by
  with_unfolding_all rfl

/-- The expression is compiled. -/
theorem interpolated_captionTemplate :
    ("p", [captionAttribute]) ∈ (parseTemplate captionTemplate).document.visited ∧
      captionAttribute.HasExpressions ∧
      Interpolated (({} : Environment).scope false)
        (written (({} : Environment).scope false) "p" [captionAttribute]) captionAttribute := by
  have hvisited : ("p", [captionAttribute]) ∈ (parseTemplate captionTemplate).document.visited := by
    rw [parse_captionTemplate]
    decide +kernel
  have hexpressions : captionAttribute.HasExpressions :=
    ⟨rfl, by decide +kernel, by decide +kernel⟩
  have hcloses : Closes captionAttribute.expression.toList :=
    (chunks_cutValue_iff _).mp (by decide +kernel)
  have hlaw := (transform_interpolations {} false captionTemplate _ hvisited).2 captionAttribute
    List.mem_cons_self hexpressions
  exact ⟨hvisited, hexpressions, hlaw.1.mpr ⟨rfl, hcloses⟩⟩

/-- An element with an expression in its class. -/
def cardTemplate : String := "<p class=\"card \x7b\x7b kind \x7d\x7d\"/>"

theorem parse_cardTemplate : parseTemplate cardTemplate =
    ⟨⟨[.element "p" true
      [⟨.standard, "class", some "card \x7b\x7b kind \x7d\x7d", ⟨1, 4, 3, 25⟩⟩] []
        ⟨1, 1, 0, 28⟩], ⟨1, 1, 0, 28⟩⟩, []⟩ := by
  with_unfolding_all rfl

/-- The expression is written as text. -/
theorem kept_cardTemplate : (transform {} false cardTemplate).value.jsx =
    "<p className=\"card \x7b\x7b kind \x7d\x7d\" />" := by
  rw [transform, parse_cardTemplate]
  decide +kernel

end Trellis.Jsx
