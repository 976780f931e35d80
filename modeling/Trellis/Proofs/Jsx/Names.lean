import Mathlib.Data.List.Perm.Basic
import Trellis.Proofs.Jsx.Blanks
import Trellis.Proofs.Jsx.Degradation
import Trellis.Proofs.Jsx.NameTables

/-!
# The names of the attributes of an element

The names of the attributes of an element in the output come from tables, from merging, and from the
two attributes that a two-way binding stands for.

* `jsxNames` are the names of an element, that of its key included. What a directive gives has none.
* `emitNode_element`: the attributes in the output are the written ones, and a key in a loop.
* `perm_jsxNames`: the names are those that are taken by references, merged attributes and the key,
  those of values, and those of handlers.
-/

namespace Trellis.Jsx

open Trellis.Text
open Trellis.Template

/-! ## The names of written attributes -/

/-- The name of a written attribute. What a directive gives has none, and the name of a merged class
or style stands before its `=`. -/
def Written.name? : Written → Option String
  | .ref _ => some "ref"
  | .spread _ => none
  | .merged text => some (String.ofList (text.toList.takeWhile (· != '=')))
  | .handler name _ => some name
  | .bound _ name _ => some name
  | .plain _ name _ => some name

/-- The names of the attributes of an element in the output. An element in a loop has a key. -/
def jsxNames (scope : Scope) (tag : String) (attributes : List Attribute) : List String :=
  (written scope tag attributes).filterMap Written.name? ++
    (usableFor attributes).toList.map fun _ => "key"

/-- The text is an attribute of the given name: the name alone, or with a value. -/
def Names (name text : String) : Prop := text = name ∨ ∃ value, text = name ++ "=" ++ value

theorem names_assign (name code : String) : Names name (assign name code) :=
  .inr ⟨braced code, rfl⟩

theorem names_text {w : Written} {name : String} (h : w.name? = some name) : Names name w.text := by
  cases w with
  | ref ref =>
    obtain rfl := Option.some.inj h
    exact names_assign _ _
  | spread text => cases h
  | merged text =>
    obtain rfl := Option.some.inj h
    have hsplit := List.takeWhile_append_dropWhile (p := (· != '=')) (l := text.toList)
    cases hrest : text.toList.dropWhile (· != '=') with
    | nil =>
      rw [hrest, List.append_nil] at hsplit
      exact .inl (by rw [hsplit, String.ofList_toList]; rfl)
    | cons c cs =>
      have hc : c = '=' := by
        have := List.head?_dropWhile_not (· != '=') text.toList
        rw [hrest] at this
        simpa using this
      refine .inr ⟨String.ofList cs, ?_⟩
      rw [hrest, hc] at hsplit
      apply String.toList_inj.mp
      simpa [Written.text] using hsplit.symm
  | handler name code =>
    obtain rfl := Option.some.inj h
    exact names_assign _ _
  | bound source name code =>
    obtain rfl := Option.some.inj h
    exact names_assign _ _
  | plain source name form =>
    obtain rfl := Option.some.inj h
    cases form with
    | flag => exact .inl rfl
    | number value => exact names_assign _ _
    | interpolated parts => exact names_assign _ _
    | text value => exact .inr ⟨quote value, rfl⟩

theorem names_keyAttribute (loop : Loop) (count : Nat) : Names "key" (keyAttribute loop count) := by
  rw [keyAttribute]
  split
  · exact names_assign _ _
  · exact names_assign _ _

/-! ## Elements in the output -/

theorem emitLoop_value (attributes : List Attribute) (e : Emission) :
    ∃ count, ((emitLoop attributes).run e).1 = (usableFor attributes).map (·, count) := by
  refine ⟨e.loops + 1, ?_⟩
  rw [emitLoop, usableFor]
  cases directive? "for" attributes with
  | none => rfl
  | some a =>
    dsimp only [Option.bind_some]
    obtain ⟨loop, ws⟩ := Loop.parse a.expression
    cases loop <;> rfl

/-- An element of the output has the written attributes, and a key if it is in a loop. -/
theorem emitNode_element (scope : Scope) {tag : String} (hslot : isSlot tag = false)
    (houtlet : isOutlet tag = false) (selfClosing : Bool) (attributes : List Attribute)
    (children : List Node) (span : Span) (e : Emission) :
    ∃ inside count, ((emitNode scope (.element tag selfClosing attributes children span)).run e).1 =
      structuralJsx (elementJsx (jsxName tag) ((written scope tag attributes).map Written.text ++
        ((usableFor attributes).map (keyAttribute · count)).toList) inside)
        (usableFor attributes) attributes := by
  let checked := ((checkConditions attributes).run e).2
  let attributed := ((emitAttributes scope tag attributes).run checked).2
  let filled := (emitNodes scope children).run attributed
  obtain ⟨count, hloop⟩ := emitLoop_value attributes filled.2
  have hparts : ((emitAttributes scope tag attributes).run checked).1 =
      (written scope tag attributes).map Written.text :=
    (tells_emitAttributes scope tag attributes checked).1
  have hrun : ((emitNode scope (.element tag selfClosing attributes children span)).run e).1 =
      structuralJsx (elementJsx (jsxName tag)
        (((emitAttributes scope tag attributes).run checked).1 ++
          ((((emitLoop attributes).run filled.2).1).map fun p => keyAttribute p.1 p.2).toList)
        (if selfClosing then "" else String.join filled.1))
        ((((emitLoop attributes).run filled.2).1).map (·.1)) attributes := by
    rw [emitNode, if_neg (by simp [hslot]), if_neg (by simp [houtlet])]
    rfl
  refine ⟨if selfClosing then "" else String.join filled.1, count, ?_⟩
  rw [hrun, hparts, hloop, Option.map_map, Option.map_map]
  exact congrArg (structuralJsx _ · attributes) Option.map_id'

/-! ## Attributes that give names -/

/-- The attribute refers to its element. -/
def isRef (a : Attribute) : Bool :=
  a.binding == .standard && hasStart a.name "#" && 1 < a.name.length

/-- The attribute is written under the JSX spelling of its name: a plain attribute or the binding of
a property. -/
def isRespelt (a : Attribute) : Bool :=
  match a.binding with
  | .standard =>
    !(a.name == "class" || a.name == "style" || hasStart a.name "#") &&
      !(a.name.isEmpty && a.value.getD "true" == "true")
  | .property => !(isDynamicClass a || isBlankText a.expression)
  | _ => false

/-- The attribute is written under its own name. -/
def isVerbatim (a : Attribute) : Bool := a.binding == .attribute && !isBlankText a.expression

/-- The attribute is a two-way binding. -/
def isTwoWay (a : Attribute) : Bool := a.binding == .twoWay && !isBlankText a.expression

/-- The attribute handles an event. -/
def isHandled (a : Attribute) : Bool := a.binding == .event && !isBlankText a.expression

/-- What the value of a two-way binding is written as. -/
def twoWayValue (tag name : String) : String :=
  if name = "checked" then "checked" else if lower tag = "select" then "value" else name

/-- The handler that a two-way binding adds. -/
def twoWayHandler (tag name : String) : String :=
  if name = "checked" ∨ lower tag = "select" then "onChange" else "onInput"

/-- The names that are taken by references, the merged class, the merged style and the key. -/
def takenNames (attributes : List Attribute) : List String :=
  (attributes.filter isRef).map (fun _ => "ref") ++
    (mergedClass attributes).toList.map (fun _ => "className") ++
    (mergedStyle attributes).toList.map (fun _ => "style") ++
    (usableFor attributes).toList.map fun _ => "key"

/-- The names of the values of an element. -/
def valueNames (tag : String) (attributes : List Attribute) : List String :=
  (attributes.filter isTwoWay).map (fun a => twoWayValue tag a.name) ++
    (attributes.filter isVerbatim).map Attribute.name ++
    (attributes.filter isRespelt).map fun a => attributeName a.name

/-- The names of the handlers of an element. -/
def handlerNames (tag : String) (attributes : List Attribute) : List String :=
  (attributes.filter isTwoWay).map (fun a => twoWayHandler tag a.name) ++
    (attributes.filter isHandled).map fun a => eventName a.name

/-! ## The names of an element -/

/-- What some elements of a list give. -/
theorem flatMap_ite {α β : Type} (p : α → Bool) (g : α → β) (as : List α) :
    (as.flatMap fun a => if p a then [g a] else []) = (as.filter p).map g := by
  induction as with
  | nil => rfl
  | cons a as ih => cases hp : p a <;> simp [hp, ih]

theorem names_refs (attributes : List Attribute) :
    (writtenRefs attributes).filterMap Written.name? =
      (attributes.filter isRef).map fun _ => "ref" := by
  rw [writtenRefs, plain, ofBinding, List.filterMap_filterMap, List.filterMap_filter,
    ← List.filterMap_eq_map, List.filterMap_filter]
  refine List.filterMap_congr fun a _ => ?_
  rw [isRef]
  cases a.binding == .standard <;> cases hasStart a.name "#" <;>
    cases decide (1 < a.name.length) <;> rfl

theorem names_spreads (scope : Scope) (attributes : List Attribute) :
    ((directives attributes).filterMap (writtenDirective scope)).filterMap Written.name? = [] := by
  rw [List.filterMap_filterMap, List.filterMap_eq_nil_iff]
  intro a _
  rw [writtenDirective]
  split
  · rfl
  · cases applyDirective scope.directives a.name a.value <;> rfl

theorem name?_merged {name : String} (h : '=' ∉ name.toList) (value : String) :
    (Written.merged (name ++ "=" ++ value)).name? = some name := by
  have hequals : ("=" : String).toList = ['='] := rfl
  rw [Written.name?, String.toList_append, String.toList_append, hequals, List.append_assoc,
    takeWhile_run (forall_bne h) (by simp), String.ofList_toList]

/-- A merged class is an attribute `className`. -/
theorem names_classAttribute {fixed dynamic : Option String}
    {conditionals : List (String × String)} {text : String}
    (h : classAttribute fixed conditionals dynamic = some text) :
    ∃ value, text = "className" ++ "=" ++ value := by
  have hassign : ∀ code, ∃ value, assign "className" code = "className" ++ "=" ++ value :=
    fun code => ⟨_, rfl⟩
  have hplain : ∀ value, ∃ value', "className=" ++ value = "className" ++ "=" ++ value' :=
    fun value => ⟨value, rfl⟩
  rw [classAttribute] at h
  split at h
  · cases h
  · split at h
    · exact Option.some.inj h ▸ hassign _
    · split at h
      · exact Option.some.inj h ▸ hplain _
      · split at h
        · rw [← Option.some.inj h]
          split
          · exact hplain _
          · exact hassign _
        · exact Option.some.inj h ▸ hassign _

/-- A merged style is an attribute `style`. -/
theorem names_styleAttribute {fixed : Option String} {bindings : List (String × String)}
    {text : String} (h : styleAttribute fixed bindings = some text) :
    ∃ value, text = "style" ++ "=" ++ value := by
  rw [styleAttribute] at h
  split at h
  · cases h
  · exact ⟨_, (Option.some.inj h).symm⟩

theorem names_merged (attributes : List Attribute) :
    (writtenMerged attributes).filterMap Written.name? =
      (mergedClass attributes).toList.map (fun _ => "className") ++
        (mergedStyle attributes).toList.map fun _ => "style" := by
  have hmerged : writtenMerged attributes =
      ((mergedClass attributes).toList ++ (mergedStyle attributes).toList).map .merged := by
    have htext : Written.text ∘ Written.merged = id := rfl
    have htexts := map_text_writtenMerged attributes
    rw [writtenMerged, List.map_map, htext, List.map_id] at htexts
    rw [writtenMerged, htexts]
  have hname : ∀ {name : String} {o : Option String}, '=' ∉ name.toList →
      (∀ text, o = some text → ∃ value, text = name ++ "=" ++ value) →
      (o.toList.map Written.merged).filterMap Written.name? = o.toList.map fun _ => name := by
    intro name o hfree ho
    cases o with
    | none => rfl
    | some text =>
      obtain ⟨value, rfl⟩ := ho text rfl
      exact List.filterMap_cons_some (name?_merged hfree value)
  rw [hmerged, List.map_append, List.filterMap_append,
    hname (o := mergedClass attributes) (by decide) fun _ h => names_classAttribute h,
    hname (o := mergedStyle attributes) (by decide) fun _ h => names_styleAttribute h]

theorem names_writtenTwoWay (tag : String) (a : Attribute) :
    (writtenTwoWay tag a).filterMap Written.name? = if isBlankText a.expression then []
      else [twoWayValue tag a.name, twoWayHandler tag a.name] := by
  rw [writtenTwoWay]
  split
  · rfl
  · dsimp only
    by_cases hchecked : a.name = "checked"
    · rw [if_pos hchecked, twoWayValue, if_pos hchecked, twoWayHandler, if_pos (.inl hchecked)]
      rfl
    · by_cases hselect : lower tag = "select"
      · rw [if_neg hchecked, if_pos hselect, twoWayValue, if_neg hchecked, if_pos hselect,
          twoWayHandler, if_pos (.inr hselect)]
        rfl
      · rw [if_neg hchecked, if_neg hselect, twoWayValue, if_neg hchecked, if_neg hselect,
          twoWayHandler, if_neg (not_or.mpr ⟨hchecked, hselect⟩)]
        rfl

theorem perm_names_twoWays (tag : String) (attributes : List Attribute) :
    (((twoWays attributes).flatMap (writtenTwoWay tag)).filterMap Written.name?).Perm
      ((attributes.filter isTwoWay).map (fun a => twoWayValue tag a.name) ++
        (attributes.filter isTwoWay).map fun a => twoWayHandler tag a.name) := by
  have hpairs : ((twoWays attributes).flatMap (writtenTwoWay tag)).filterMap Written.name? =
      attributes.flatMap fun a =>
        (if isTwoWay a then [twoWayValue tag a.name] else []) ++
          if isTwoWay a then [twoWayHandler tag a.name] else [] := by
    rw [List.filterMap_flatMap, twoWays, ofBinding]
    induction attributes with
    | nil => rfl
    | cons a as ih =>
      rw [List.flatMap_cons, ← ih, List.filter_cons, isTwoWay]
      cases a.binding == .twoWay with
      | false => rfl
      | true =>
        rw [if_pos rfl, List.flatMap_cons, names_writtenTwoWay]
        cases isBlankText a.expression <;> rfl
  rw [hpairs, ← flatMap_ite, ← flatMap_ite]
  exact (List.flatMap_append_perm attributes _ _).symm

theorem isEmpty_given (name value : String) : (name ++ "=" ++ value).isEmpty = false := by
  rw [← Bool.not_eq_true, String.isEmpty_iff, ← String.toList_eq_nil_iff]
  simp

theorem isEmpty_assign (name code : String) : (assign name code).isEmpty = false :=
  isEmpty_given name (braced code)

/-- A plain attribute is written, unless it has neither a name nor a value. -/
theorem isEmpty_text_plain (scope : Scope) (a : Attribute) :
    (Written.plain a (attributeName a.name)
      (compileForm scope (plainForm (attributeName a.name) a.value))).text.isEmpty =
      (a.name.isEmpty && a.value.getD "true" == "true") := by
  rw [Written.text, ← isEmpty_attributeName a.name]
  cases a.value with
  | none => exact (Bool.and_true _).symm
  | some value =>
    by_cases htrue : value = "true"
    · rw [plainForm, if_pos htrue, htrue]
      exact (Bool.and_true _).symm
    · rw [plainForm, if_neg htrue, Option.getD_some, beq_eq_false_iff_ne.mpr htrue, Bool.and_false]
      split
      · exact isEmpty_assign _ _
      · split
        · exact isEmpty_assign _ _
        · exact isEmpty_given _ _

/-- What an attribute is called in its own place. -/
theorem names_own (scope : Scope) (a : Attribute) :
    ((writtenOwn scope a).toList.filter (!·.text.isEmpty)).filterMap Written.name? =
      (if isVerbatim a then [a.name] else []) ++
        ((if isRespelt a then [attributeName a.name] else []) ++
          if isHandled a then [eventName a.name] else []) := by
  have hkept : ∀ {w : Written} {name : String}, w.text.isEmpty = false → w.name? = some name →
      ([w].filter (!·.text.isEmpty)).filterMap Written.name? = [name] := by
    intro w name htext hname
    rw [List.filter_cons_of_pos (by rw [htext]; rfl), List.filter_nil,
      List.filterMap_cons_some hname, List.filterMap_nil]
  rw [writtenOwn, isVerbatim, isRespelt, isHandled]
  cases hb : a.binding with
  | event =>
    cases isBlankText a.expression with
    | true => rfl
    | false => exact hkept (isEmpty_assign _ _) rfl
  | property =>
    dsimp only
    cases isDynamicClass a || isBlankText a.expression with
    | true => rfl
    | false => exact hkept (isEmpty_assign _ _) rfl
  | «attribute» =>
    have hclass : isDynamicClass a = false := by
      rw [isDynamicClass, hb]
      rfl
    dsimp only
    rw [hclass, Bool.false_or]
    cases isBlankText a.expression with
    | true => rfl
    | false => exact hkept (isEmpty_assign _ _) rfl
  | standard =>
    dsimp only
    cases a.name == "class" || a.name == "style" || hasStart a.name "#" with
    | true => rfl
    | false =>
      have hempty := isEmpty_text_plain scope a
      cases hnone : a.name.isEmpty && a.value.getD "true" == "true" with
      | true =>
        rw [hnone] at hempty
        simp [hempty]
      | false => exact hkept (hempty.trans hnone) rfl
  | _ => rfl

theorem perm_names_own (scope : Scope) (attributes : List Attribute) :
    (((attributes.filterMap (writtenOwn scope)).filter (!·.text.isEmpty)).filterMap
      Written.name?).Perm ((attributes.filter isVerbatim).map Attribute.name ++
        ((attributes.filter isRespelt).map (fun a => attributeName a.name) ++
          (attributes.filter isHandled).map fun a => eventName a.name)) := by
  rw [List.filterMap_eq_flatMap_toList (writtenOwn scope), List.filter_flatMap,
    List.filterMap_flatMap]
  simp only [names_own, ← flatMap_ite]
  exact (List.flatMap_append_perm attributes _ _).symm.trans
    ((List.flatMap_append_perm attributes _ _).symm.append_left _)

/-- **The names of an element**: those that are taken, those of the values and those of the
handlers. -/
theorem perm_jsxNames (scope : Scope) (tag : String) (attributes : List Attribute) :
    (jsxNames scope tag attributes).Perm (takenNames attributes ++
      (valueNames tag attributes ++ handlerNames tag attributes)) := by
  refine List.perm_iff_count.mpr fun name => ?_
  have htwoWays := (perm_names_twoWays tag attributes).count_eq name
  have hown := (perm_names_own scope attributes).count_eq name
  simp only [jsxNames, written, List.filterMap_append, names_refs, names_spreads, names_merged,
    takenNames, valueNames, handlerNames, List.count_append, List.count_nil] at htwoWays hown ⊢
  omega

end Trellis.Jsx
