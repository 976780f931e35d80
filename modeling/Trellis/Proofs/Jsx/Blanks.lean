import Mathlib.Data.List.Basic
import Trellis.Proofs.Jsx.Classes
import Trellis.Proofs.Jsx.Dangers

/-!
# Bindings without an expression

A binding whose expression is blank binds nothing. It is left out of the output and warned about,
unless it binds the class of its element.

* `Attribute.isBlankBinding` are the blank bindings of all kinds, and `blankWarning` is the warning
  about one. `reportedBlanks` are those of an element that are warned about, in the order of the
  warnings.
* `written_withoutBlanks_iff`: the attributes of an element are those it has without its blank
  bindings exactly if the class that it is bound to last is none of them, or empty with all others
  blank.
* `transform_blanks`: the blank bindings of a template are warned about, one warning each, but for
  those of a class. `kept_spacedTemplate`: one of white space is even written out.
-/

namespace Trellis.Template

open Trellis.Text

/-- The attribute is a binding: it has marks and is no directive. -/
def Attribute.isBound (a : Attribute) : Bool := a.binding != .standard && a.binding != .directive

/-- The attribute is a binding without an expression. -/
def Attribute.isBlankBinding (a : Attribute) : Bool := a.isBound && isBlankText a.expression

/-- The attributes that are no blank bindings. -/
def withoutBlanks (attributes : List Attribute) : List Attribute :=
  attributes.filter (!·.isBlankBinding)

end Trellis.Template

namespace Trellis.Jsx

open Trellis.Text
open Trellis.Template

/-! ## Blank bindings are warned about -/

/-- The codes of the warnings about blank bindings. -/
def isBlankCode (code : WarningCode) : Bool := code == .emptyBinding || code == .malformedTwoWay

theorem onlyAttributes_isBlankCode : OnlyAttributes isBlankCode :=
  ⟨⟨rfl, rfl⟩, ⟨rfl, rfl⟩, ⟨rfl, rfl⟩⟩

/-- The warnings about blank bindings. -/
def aboutBlanks (ws : List Warning) : List Warning := ws.filter (isBlankCode ·.code)

/-- The warning about a blank binding. -/
def blankWarning (a : Attribute) : Warning :=
  match a.binding with
  | .twoWay => finding .malformedTwoWay (a.rawName ++ " two-way binding has empty expression")
  | .event => finding .emptyBinding (a.rawName ++ " event binding has empty handler")
  | _ => finding .emptyBinding (a.rawName ++ " binding has empty expression")

/-- The binding is a blank two-way binding. -/
def isBlankTwoWay (a : Attribute) : Bool := a.binding == .twoWay && isBlankText a.expression

/-- The binding is warned about in its own place: a blank handler, or a blank binding of an
attribute or of a property other than the class. -/
def isBlankOwn (a : Attribute) : Bool :=
  (a.binding == .event || a.binding == .attribute ||
    (a.binding == .property && !isDynamicClass a)) && isBlankText a.expression

/-- The blank bindings of an element that are warned about: those of classes and styles, then
two-way bindings, then all others. -/
def reportedBlanks (attributes : List Attribute) : List Attribute :=
  attributes.filter isBlankMerge ++ attributes.filter isBlankTwoWay ++
    attributes.filter isBlankOwn

/-- A binding is warned about in one place, if at all. -/
theorem isBlankBinding_eq (a : Attribute) : (a.isBlankBinding && !isDynamicClass a) =
    (isBlankMerge a || isBlankTwoWay a || isBlankOwn a) := by
  simp only [Attribute.isBlankBinding, Attribute.isBound, isBlankMerge, isBlankTwoWay, isBlankOwn,
    isDynamicClass]
  cases a.binding <;> cases isBlankText a.expression <;> cases a.name == "class" <;> rfl

theorem isBlank_alone (a : Attribute) : (isBlankMerge a && isBlankTwoWay a) = false ∧
    ((isBlankMerge a || isBlankTwoWay a) && isBlankOwn a) = false := by
  simp only [isBlankMerge, isBlankTwoWay, isBlankOwn]
  cases a.binding <;> cases isBlankText a.expression <;> simp

/-- Elements with one of two properties that exclude each other. -/
theorem perm_filter_or {α : Type} {p q : α → Bool} (h : ∀ a, (p a && q a) = false)
    (as : List α) : (as.filter p ++ as.filter q).Perm (as.filter fun a => p a || q a) := by
  induction as with
  | nil => exact List.Perm.refl _
  | cons a as ih =>
    cases hp : p a with
    | true =>
      have hq : q a = false := by simpa [hp] using h a
      simpa [List.filter_cons, hp, hq] using ih
    | false =>
      cases hq : q a with
      | true =>
        simp only [List.filter_cons, hp, hq, Bool.false_eq_true, if_false, if_true, Bool.or_true]
        exact List.perm_middle.trans (ih.cons a)
      | false => simpa [List.filter_cons, hp, hq] using ih

/-- **Every blank binding of an element is reported once**, but for those of the class. -/
theorem perm_reportedBlanks (attributes : List Attribute) :
    (reportedBlanks attributes).Perm
      (attributes.filter fun a => a.isBlankBinding && !isDynamicClass a) := by
  have hmerged := perm_filter_or (fun a => (isBlank_alone a).1) attributes
  have hall := perm_filter_or (fun a => (isBlank_alone a).2) attributes
  have hsame : (attributes.filter fun a => a.isBlankBinding && !isDynamicClass a) =
      attributes.filter fun a => isBlankMerge a || isBlankTwoWay a || isBlankOwn a :=
    List.filter_congr fun a _ => isBlankBinding_eq a
  rw [hsame]
  exact (hmerged.append_right _).trans hall

theorem aboutBlanks_append (ws us : List Warning) :
    aboutBlanks (ws ++ us) = aboutBlanks ws ++ aboutBlanks us :=
  List.filter_append _ _

theorem aboutBlanks_mergeWarnings (a : Attribute) :
    aboutBlanks (mergeWarnings a) = if isBlankMerge a then [blankWarning a] else [] := by
  rw [mergeWarnings]
  by_cases h : isBlankMerge a = true
  · have hcode : blankWarning a =
        finding .emptyBinding (a.rawName ++ " binding has empty expression") := by
      rw [isBlankMerge, Bool.and_eq_true] at h
      unfold blankWarning
      split <;> simp_all
    rw [if_pos h, if_pos h, hcode]
    rfl
  · rw [if_neg h, if_neg h]
    rfl

theorem aboutBlanks_twoWayWarnings {a : Attribute} (ha : a.binding = .twoWay) :
    aboutBlanks (twoWayWarnings a) = if isBlankTwoWay a then [blankWarning a] else [] := by
  have hcode : blankWarning a =
      finding .malformedTwoWay (a.rawName ++ " two-way binding has empty expression") := by
    rw [blankWarning, ha]
  rw [twoWayWarnings, isBlankTwoWay, ha, hcode]
  by_cases h : isBlankText a.expression = true
  · rw [if_pos h, h]
    rfl
  · rw [if_neg h, Bool.eq_false_iff.mpr h]
    rfl

/-- A binding of a property or an attribute, in its own place. -/
theorem aboutBlanks_binding {a : Attribute} (h : a.binding = .property ∨ a.binding = .attribute)
    (scope : Scope) :
    aboutBlanks (ownWarnings scope a) = if isBlankOwn a then [blankWarning a] else [] := by
  have hown : isBlankOwn a = (!isDynamicClass a && isBlankText a.expression) := by
    rw [isBlankOwn, isDynamicClass]
    rcases h with h | h <;> rw [h] <;> cases a.name == "class" <;> rfl
  have hcode : blankWarning a =
      finding .emptyBinding (a.rawName ++ " binding has empty expression") := by
    rcases h with h | h <;> rw [blankWarning, h]
  have hdanger : aboutBlanks (if isDangerousBinding a.name then [dangerWarning a] else []) =
      [] := by
    split <;> rfl
  have hchain : aboutBlanks (Pipe.compile scope.pipes a.expression).warnings = [] :=
    onlyAttributes_isBlankCode.compile scope.pipes a.expression
  rw [ownWarnings_binding h, hown, hcode]
  by_cases hclass : isDynamicClass a = true
  · rw [if_pos hclass, hclass]
    rfl
  · rw [if_neg hclass, Bool.eq_false_iff.mpr hclass, Bool.not_false, Bool.true_and]
    by_cases hblank : isBlankText a.expression = true
    · rw [if_pos hblank, if_pos hblank]
      rfl
    · rw [if_neg hblank, if_neg hblank, aboutBlanks_append, hdanger, hchain]
      rfl

/-- A plain attribute is not warned about for being blank. -/
theorem aboutBlanks_plain {a : Attribute} (h : a.binding = .standard) (scope : Scope) :
    aboutBlanks (ownWarnings scope a) = [] := by
  have hparts : ∀ parts : List ValuePart,
      aboutBlanks (parts.flatMap (partWarnings scope)) = [] := by
    intro parts
    induction parts with
    | nil => rfl
    | cons part parts ih =>
      rw [List.flatMap_cons, aboutBlanks_append, ih, List.append_nil]
      cases part with
      | text cs => rfl
      | expression e => exact onlyAttributes_isBlankCode.compile scope.pipes e
  rw [ownWarnings, h]
  dsimp only
  split
  · rfl
  · split
    · exact hparts _
    · rfl

theorem aboutBlanks_ownWarnings (scope : Scope) (a : Attribute) :
    aboutBlanks (ownWarnings scope a) = if isBlankOwn a then [blankWarning a] else [] := by
  cases h : a.binding with
  | property => exact aboutBlanks_binding (.inl h) scope
  | «attribute» => exact aboutBlanks_binding (.inr h) scope
  | event =>
    rw [ownWarnings, isBlankOwn, blankWarning, h]
    by_cases hblank : isBlankText a.expression = true
    · rw [if_pos hblank, hblank]
      rfl
    · rw [if_neg hblank, Bool.eq_false_iff.mpr hblank]
      rfl
  | standard =>
    rw [aboutBlanks_plain h, isBlankOwn, h]
    rfl
  | _ =>
    rw [ownWarnings, isBlankOwn, h]
    rfl

/-- The warnings about an element's attributes. -/
theorem aboutBlanks_attributeWarnings (scope : Scope) (attributes : List Attribute) :
    aboutBlanks (attributeWarnings scope attributes) =
      (reportedBlanks attributes).map blankWarning := by
  have hdirectives : aboutBlanks ((directives attributes).flatMap (directiveWarnings scope)) =
      [] := by
    refine filter_eq_nil_of_code fun w hw => ?_
    obtain ⟨a, -, hw⟩ := List.mem_flatMap.mp hw
    rw [directiveWarnings] at hw
    split at hw
    · exact absurd hw List.not_mem_nil
    · rw [List.mem_singleton.mp hw]
      rfl
  have hmerged : (oneWays attributes).filter isBlankMerge = attributes.filter isBlankMerge := by
    rw [oneWays, List.filter_filter]
    refine List.filter_congr fun a _ => ?_
    rw [isBlankMerge]
    cases a.binding <;> simp [isOneWay]
  have htwoWays : (twoWays attributes).filter isBlankTwoWay =
      attributes.filter isBlankTwoWay := by
    rw [twoWays, ofBinding, List.filter_filter]
    refine List.filter_congr fun a _ => ?_
    rw [isBlankTwoWay]
    cases a.binding <;> simp
  have hbound : ∀ a ∈ twoWays attributes, a.binding = .twoWay := by
    intro a ha
    simpa [twoWays, ofBinding] using (List.mem_filter.mp ha).2
  have hmergeWarnings : aboutBlanks ((oneWays attributes).flatMap mergeWarnings) =
      ((oneWays attributes).filter isBlankMerge).map blankWarning :=
    filter_flatMap_warnings fun a _ => aboutBlanks_mergeWarnings a
  have htwoWayWarnings : aboutBlanks ((twoWays attributes).flatMap twoWayWarnings) =
      ((twoWays attributes).filter isBlankTwoWay).map blankWarning :=
    filter_flatMap_warnings fun a ha => aboutBlanks_twoWayWarnings (hbound a ha)
  have hownWarnings : aboutBlanks (attributes.flatMap (ownWarnings scope)) =
      (attributes.filter isBlankOwn).map blankWarning :=
    filter_flatMap_warnings fun a _ => aboutBlanks_ownWarnings scope a
  rw [attributeWarnings, aboutBlanks_append, aboutBlanks_append, aboutBlanks_append, hdirectives,
    hmergeWarnings, htwoWayWarnings, hownWarnings, hmerged, htwoWays, List.nil_append,
    ← List.map_append, ← List.map_append, reportedBlanks]

/-! ## Blank bindings are left out -/

/-- The expression that the class of an element is bound to, empty if it is bound to none: that of
the last binding counts. -/
def boundClass (attributes : List Attribute) : String :=
  (((attributes.filter isDynamicClass).getLast?).map (·.expression)).getD ""

/-- The conditional names of an element. -/
def usableToggles (attributes : List Attribute) : List (String × String) :=
  (attributes.filter fun a => a.binding == .classToggle && !isBlankMerge a).map fun a =>
    (a.name, a.expression)

/-- The style bindings of an element. -/
def usableStyles (attributes : List Attribute) : List (String × String) :=
  (attributes.filter fun a => a.binding == .style && !isBlankMerge a).map fun a =>
    styleBinding a.name a.expression

/-- The merged class of an element. -/
def mergedClass (attributes : List Attribute) : Option String :=
  classAttribute (lastValue? "class" attributes) (usableToggles attributes)
    (some (renameReserved (boundClass attributes)))

/-- The merged style of an element. -/
def mergedStyle (attributes : List Attribute) : Option String :=
  styleAttribute (lastValue? "style" attributes) (usableStyles attributes)

theorem map_text_writtenMerged (attributes : List Attribute) :
    (writtenMerged attributes).map Written.text =
      (mergedClass attributes).toList ++ (mergedStyle attributes).toList := by
  have hfilter : ∀ (q : Attribute → Bool), (∀ a, q a = true → isOneWay a.binding = true) →
      ((oneWays attributes).filter (!isBlankMerge ·)).filter q =
        attributes.filter fun a => q a && !isBlankMerge a := by
    intro q hq
    rw [oneWays, List.filter_filter, List.filter_filter]
    refine List.filter_congr fun a _ => ?_
    cases hqa : q a with
    | true => simp [hq a hqa]
    | false => simp
  have hdynamic : ((oneWays attributes).filter (!isBlankMerge ·)).filter isDynamicClass =
      attributes.filter isDynamicClass := by
    rw [hfilter isDynamicClass fun a ha => ?_]
    · refine List.filter_congr fun a _ => ?_
      rw [isDynamicClass, isBlankMerge]
      cases a.binding <;> simp
    · rw [isDynamicClass, Bool.and_eq_true, beq_iff_eq] at ha
      rw [ha.1]
      rfl
  have htoggles := hfilter (·.binding == .classToggle) fun a ha => by rw [beq_iff_eq.mp ha]; rfl
  have hstyles := hfilter (·.binding == .style) fun a ha => by rw [beq_iff_eq.mp ha]; rfl
  have hclass : classAttribute (lastValue? "class" attributes) (usableToggles attributes)
      (((attributes.filter isDynamicClass).getLast?.map (·.expression)).map renameReserved) =
      mergedClass attributes := by
    have hempty : renameReserved "" = "" := renameReserved_blank rfl
    rw [mergedClass, boundClass]
    cases (attributes.filter isDynamicClass).getLast? with
    | none => simp [classAttribute, hempty]
    | some a => rfl
  have htext : Written.text ∘ Written.merged = id := rfl
  rw [writtenMerged, hdynamic, htoggles, hstyles, List.map_map, htext, List.map_id, ← hclass]
  rfl

/-- Leaving out blank bindings leaves attributes that are none. -/
theorem filter_withoutBlanks {q : Attribute → Bool} {attributes : List Attribute}
    (h : ∀ a, q a = true → a.isBlankBinding = false) :
    (withoutBlanks attributes).filter q = attributes.filter q := by
  rw [withoutBlanks, List.filter_filter]
  refine List.filter_congr fun a _ => ?_
  cases hq : q a with
  | true => simp [h a hq]
  | false => rfl

theorem ofBinding_withoutBlanks {b : Binding} (hb : b = .standard ∨ b = .directive)
    (attributes : List Attribute) :
    ofBinding b (withoutBlanks attributes) = ofBinding b attributes := by
  refine filter_withoutBlanks fun a ha => ?_
  rw [Attribute.isBlankBinding, Attribute.isBound, beq_iff_eq.mp ha]
  rcases hb with rfl | rfl <;> rfl

theorem usableToggles_withoutBlanks (attributes : List Attribute) :
    usableToggles (withoutBlanks attributes) = usableToggles attributes := by
  rw [usableToggles, filter_withoutBlanks fun a ha => ?_]
  · rfl
  · rw [isBlankMerge] at ha
    rw [Attribute.isBlankBinding]
    cases hb : a.binding <;> simp_all

theorem usableStyles_withoutBlanks (attributes : List Attribute) :
    usableStyles (withoutBlanks attributes) = usableStyles attributes := by
  rw [usableStyles, filter_withoutBlanks fun a ha => ?_]
  · rfl
  · rw [isBlankMerge] at ha
    rw [Attribute.isBlankBinding]
    cases hb : a.binding <;> simp_all

/-- A blank binding is not written in its own place. -/
theorem writtenOwn_blank {a : Attribute} (h : a.isBlankBinding = true) (scope : Scope) :
    writtenOwn scope a = none := by
  rw [Attribute.isBlankBinding, Bool.and_eq_true] at h
  rw [writtenOwn]
  split
  · rw [if_pos h.2]
  · rw [h.2, Bool.or_true, if_pos rfl]
  · rw [h.2, Bool.or_true, if_pos rfl]
  · next hplain =>
    rw [Attribute.isBound, hplain] at h
    exact absurd h.1 (by decide)
  · rfl

theorem filterMap_writtenOwn_withoutBlanks (scope : Scope) (attributes : List Attribute) :
    (withoutBlanks attributes).filterMap (writtenOwn scope) =
      attributes.filterMap (writtenOwn scope) := by
  rw [withoutBlanks, List.filterMap_filter]
  refine List.filterMap_congr fun a _ => ?_
  cases h : a.isBlankBinding with
  | true => rw [writtenOwn_blank h]; rfl
  | false => rfl

theorem flatMap_writtenTwoWay_withoutBlanks (tag : String) (attributes : List Attribute) :
    (twoWays (withoutBlanks attributes)).flatMap (writtenTwoWay tag) =
      (twoWays attributes).flatMap (writtenTwoWay tag) := by
  induction attributes with
  | nil => rfl
  | cons a as ih =>
    by_cases hblank : a.isBlankBinding = true
    · have hrest : withoutBlanks (a :: as) = withoutBlanks as := by
        simp [withoutBlanks, hblank]
      have hnone : writtenTwoWay tag a = [] := by
        rw [Attribute.isBlankBinding, Bool.and_eq_true] at hblank
        rw [writtenTwoWay, if_pos hblank.2]
      rw [hrest, ih]
      simp only [twoWays, ofBinding, List.filter_cons]
      split
      · rw [List.flatMap_cons, hnone, List.nil_append]
      · rfl
    · have hrest : withoutBlanks (a :: as) = a :: withoutBlanks as := by
        simp [withoutBlanks, hblank]
      rw [hrest]
      simp only [twoWays, ofBinding, List.filter_cons] at ih ⊢
      split
      · rw [List.flatMap_cons, List.flatMap_cons, ih]
      · exact ih

/-- Leaving out blank bindings can only change the merged class. -/
theorem written_withoutBlanks_iff (scope : Scope) (tag : String) (attributes : List Attribute) :
    (written scope tag (withoutBlanks attributes)).map Written.text =
        (written scope tag attributes).map Written.text ↔
      mergedClass (withoutBlanks attributes) = mergedClass attributes := by
  have hplain := ofBinding_withoutBlanks (.inl rfl) attributes
  have hdirectives := ofBinding_withoutBlanks (.inr rfl) attributes
  have hrefs : writtenRefs (withoutBlanks attributes) = writtenRefs attributes := by
    rw [writtenRefs, plain, hplain]
    rfl
  have hspreads : directives (withoutBlanks attributes) = directives attributes := hdirectives
  have hstyle : mergedStyle (withoutBlanks attributes) = mergedStyle attributes := by
    rw [mergedStyle, lastValue?, plain, hplain, usableStyles_withoutBlanks]
    rfl
  simp only [written, List.map_append, map_text_writtenMerged, hrefs, hspreads, hstyle,
    filterMap_writtenOwn_withoutBlanks, flatMap_writtenTwoWay_withoutBlanks,
    List.append_cancel_right_eq, List.append_cancel_left_eq, List.append_assoc]
  refine ⟨fun h => ?_, fun h => by rw [h]⟩
  exact Option.ext fun text => by rw [← Option.mem_toList, h, Option.mem_toList]

/-- Blank bindings of the class do no harm: the last one is not blank, or it is empty and there are
none but blank ones. -/
def ClassUsable (attributes : List Attribute) : Prop :=
  ∀ last ∈ (attributes.filter isDynamicClass).getLast?, isBlankText last.expression = true →
    last.expression = "" ∧
      ∀ a ∈ attributes, isDynamicClass a = true → isBlankText a.expression = true

theorem boundClass_withoutBlanks (attributes : List Attribute) :
    boundClass (withoutBlanks attributes) =
      ((((attributes.filter isDynamicClass).filter fun a => !isBlankText a.expression).getLast?).map
        (·.expression)).getD "" := by
  have hcomm : (withoutBlanks attributes).filter isDynamicClass =
      (attributes.filter isDynamicClass).filter fun a => !isBlankText a.expression := by
    rw [withoutBlanks, List.filter_filter, List.filter_filter]
    refine List.filter_congr fun a _ => ?_
    rw [Attribute.isBlankBinding, Attribute.isBound, isDynamicClass]
    cases a.binding <;> cases a.name == "class" <;> cases isBlankText a.expression <;> rfl
  rw [boundClass, hcomm]

/-- The class is bound to the same expression exactly if blank bindings of it do no harm. -/
theorem rename_boundClass_iff (attributes : List Attribute) :
    renameReserved (boundClass (withoutBlanks attributes)) =
      renameReserved (boundClass attributes) ↔ ClassUsable attributes := by
  have hempty : renameReserved "" = "" := renameReserved_blank rfl
  have hmem : ∀ a, a ∈ attributes.filter isDynamicClass ↔
      a ∈ attributes ∧ isDynamicClass a = true := fun a => List.mem_filter
  rw [boundClass_withoutBlanks, boundClass, ClassUsable]
  generalize attributes.filter isDynamicClass = classes at hmem
  rcases List.eq_nil_or_concat' classes with rfl | ⟨before, last, rfl⟩
  · simp
  · by_cases hlast : isBlankText last.expression = true
    · simp only [List.filter_append, List.filter_cons, List.filter_nil, hlast, Bool.not_true,
        Bool.false_eq_true, if_false, List.append_nil, List.getLast?_concat, Option.map_some,
        Option.getD_some, Option.mem_some_iff, forall_eq', true_implies,
        renameReserved_blank hlast]
      cases hbound : (before.filter fun a => !isBlankText a.expression).getLast? with
      | none =>
        have hall : ∀ a ∈ attributes, isDynamicClass a = true →
            isBlankText a.expression = true := by
          intro a ha hclass
          rcases List.mem_append.mp ((hmem a).mpr ⟨ha, hclass⟩) with ha | ha
          · have hnil := List.getLast?_eq_none_iff.mp hbound
            simpa using List.filter_eq_nil_iff.mp hnil a ha
          · rw [List.mem_singleton.mp ha]
            exact hlast
        simp only [Option.map_none, Option.getD_none, hempty]
        exact ⟨fun h => ⟨h.symm, hall⟩, fun h => h.1.symm⟩
      | some b =>
        obtain ⟨hb, hsolid⟩ := List.mem_filter.mp (List.mem_of_getLast? hbound)
        simp only [Option.map_some, Option.getD_some]
        constructor
        · intro h
          have hblank := isBlankText_renameReserved b.expression
          rw [h, hlast] at hblank
          simp [← hblank] at hsolid
        · rintro ⟨-, hall⟩
          obtain ⟨hmember, hclass⟩ := (hmem b).mp (List.mem_append_left _ hb)
          simp [hall b hmember hclass] at hsolid
    · simp [hlast]

theorem mergedClass_withoutBlanks_iff (attributes : List Attribute) :
    mergedClass (withoutBlanks attributes) = mergedClass attributes ↔ ClassUsable attributes := by
  have hvalue : lastValue? "class" (withoutBlanks attributes) = lastValue? "class" attributes := by
    rw [lastValue?, plain, ofBinding_withoutBlanks (.inl rfl)]
    rfl
  rw [← rename_boundClass_iff, mergedClass, mergedClass, hvalue, usableToggles_withoutBlanks]
  refine ⟨fun h => classAttribute_inj h, fun h => by rw [h]⟩

/-- **Blank bindings**: the warnings of a template about blank bindings are one for each, element by
element, but for bindings of a class. The attributes of an element are those that it has without its
blank bindings exactly if none of them is harmful to the class. -/
theorem transform_blanks (env : Environment) (inLayout : Bool) (template : String) :
    aboutBlanks (transform env inLayout template).value.warnings =
        ((parseTemplate template).document.visited.flatMap fun x =>
          reportedBlanks x.2).map blankWarning ∧
      ∀ (tag : String) (attributes : List Attribute),
        (reportedBlanks attributes).Perm
          (attributes.filter fun a => a.isBlankBinding && !isDynamicClass a) ∧
        ((∀ e : Emission,
          ((emitAttributes (env.scope inLayout) tag (withoutBlanks attributes)).run e).1 =
            ((emitAttributes (env.scope inLayout) tag attributes).run e).1) ↔
          ClassUsable attributes) := by
  refine ⟨?_, fun tag attributes => ⟨perm_reportedBlanks attributes, ?_⟩⟩
  · have hflaws : aboutBlanks ((parseTemplate template).errors.map ParseError.warning) = [] := by
      refine filter_eq_nil_of_code fun w hw => ?_
      obtain ⟨error, -, rfl⟩ := List.mem_map.mp hw
      change isBlankCode error.flaw.code = false
      cases error.flaw <;> rfl
    have hnodes := filter_nodesWarnings onlyAttributes_isBlankCode (env.scope inLayout)
      (parseTemplate template).document.children
    rw [warnings_transform, aboutBlanks_append, hflaws, List.append_nil, aboutBlanks, hnodes,
      List.map_flatMap]
    exact congrArg (List.flatMap · _) (funext fun x => aboutBlanks_attributeWarnings _ x.2)
  · have hvalue : ∀ (attributes : List Attribute) (e : Emission),
        ((emitAttributes (env.scope inLayout) tag attributes).run e).1 =
          (written (env.scope inLayout) tag attributes).map Written.text :=
      fun attributes e => (tells_emitAttributes _ tag attributes e).1
    simp only [hvalue]
    rw [written_withoutBlanks_iff, mergedClass_withoutBlanks_iff]
    exact ⟨fun h => h {}, fun h _ => h⟩

/-! ### A blank binding that is written out -/

/-- The class of an element bound to white space. -/
def spacedTemplate : String := "<p [class]=\"  \"/>"

theorem parse_spacedTemplate : parseTemplate spacedTemplate =
    ⟨⟨[.element "p" true [⟨.property, "class", some "  ", ⟨1, 4, 3, 14⟩⟩] [] ⟨1, 1, 0, 17⟩],
      ⟨1, 1, 0, 17⟩⟩, []⟩ := by
  with_unfolding_all rfl

/-- White space is written as the class, and nobody is warned. -/
theorem kept_spacedTemplate :
    (transform {} false spacedTemplate).value.jsx = "<p className=\x7b  \x7d />" ∧
      aboutBlanks (transform {} false spacedTemplate).value.warnings = [] := by
  constructor
  · rw [transform, parse_spacedTemplate]
    decide +kernel
  · rw [warnings_transform, parse_spacedTemplate]
    decide +kernel

end Trellis.Jsx
