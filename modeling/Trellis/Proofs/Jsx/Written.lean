import Trellis.Proofs.Jsx.Emitting

/-!
# The attributes of elements in the output

What the attributes of an element are written as, and what is warned about on the way, depends on
the attributes and on the registries, and not on what has been gathered before.

* `Written` is an attribute of the output: a reference, the spread of a directive, a merged class or
  style, a handler, or, with the attribute of the template it comes from, the value of a binding or
  a plain attribute. `written` are those of an element, in order.
* `Tells x a ws` says that a computation gives `a` and adds the warnings `ws`, whatever has been
  gathered. `tells_emitAttributes`: the emitter gives the texts of the written attributes.
* `warnings_transform`: the warnings about a template are those of its nodes, in the order of the
  source, and those of its markup.
-/

namespace Trellis.Jsx

open Trellis.Text
open Trellis.Template

/-! ## Written attributes -/

/-- An attribute of an element in the output. -/
inductive Written where
  /-- A reference to the element. -/
  | ref (name : String)
  /-- What a directive gives. -/
  | spread (text : String)
  /-- The merged classes or styles, as they are written. -/
  | merged (text : String)
  /-- A handler of an event. -/
  | handler (name code : String)
  /-- The value of a binding. -/
  | bound (source : Attribute) (name code : String)
  /-- A plain attribute, which may have expressions in its value. -/
  | plain (source : Attribute) (name : String) (form : PlainForm)
  deriving DecidableEq

namespace Written

/-- The attribute as it stands in the output. -/
def text : Written → String
  | .ref name => assign "ref" (name ++ " as any")
  | .spread text => text
  | .merged text => text
  | .handler name code => assign name code
  | .bound _ name code => assign name code
  | .plain _ name form => form.render name

/-- The attribute of the template that the value comes from. -/
def source? : Written → Option Attribute
  | .bound source _ _ | .plain source _ _ => some source
  | _ => none

end Written

/-- The references to an element. -/
def writtenRefs (attributes : List Attribute) : List Written :=
  (plain attributes).filterMap fun a =>
    if hasStart a.name "#" && 1 < a.name.length then some (.ref (dropFirst 1 a.name)) else none

/-- What a directive is written as. -/
def writtenDirective (scope : Scope) (a : Attribute) : Option Written :=
  if a.isBuiltIn then none
  else (applyDirective scope.directives a.name a.value).map .spread

/-- The binding is of a class or of a style, and blank. -/
def isBlankMerge (a : Attribute) : Bool :=
  (a.binding == .classToggle || a.binding == .style) && isBlankText a.expression

/-- The merged class and style. -/
def writtenMerged (attributes : List Attribute) : List Written :=
  let bindings := (oneWays attributes).filter (!isBlankMerge ·)
  let dynamic := ((bindings.filter isDynamicClass).getLast?.map (·.expression)).map renameReserved
  let conditionals := (bindings.filter (·.binding == .classToggle)).map fun a =>
    (a.name, a.expression)
  let styles := (bindings.filter (·.binding == .style)).map fun a =>
    styleBinding a.name a.expression
  ((classAttribute (lastValue? "class" attributes) conditionals dynamic).toList ++
    (styleAttribute (lastValue? "style" attributes) styles).toList).map .merged

/-- The value and the change handler of a two-way binding. -/
def writtenTwoWay (tag : String) (a : Attribute) : List Written :=
  if isBlankText a.expression then []
  else
    let code := strip a.expression
    if a.name = "checked" then
      [.bound a "checked" code,
        .handler "onChange" ("(e) => " ++ code ++ ".value = e.target.checked")]
    else if lower tag = "select" then
      [.bound a "value" code, .handler "onChange" ("(e) => " ++ code ++ ".value = e.target.value")]
    else
      [.bound a a.name code,
        .handler "onInput" ("(e) => " ++ code ++ ".value = e.target." ++ a.name)]

/-- The code of an event handler. -/
def handlerCode (handler : String) : String :=
  let body := strip handler
  if occurs "$event" body then "(e) => " ++ replaceAll body "$event" "e"
  else if isHandlerName body then body
  else "() => " ++ body

/-- The code of a piece of a plain value. -/
def compilePart (scope : Scope) : ValuePart → ValuePart
  | .text cs => .text cs
  | .expression e => .expression (Pipe.compile scope.pipes e).text

/-- The form of a plain attribute with its expressions compiled. -/
def compileForm (scope : Scope) : PlainForm → PlainForm
  | .interpolated parts => .interpolated (parts.map (compilePart scope))
  | form => form

/-- What an attribute is written as in its own place. -/
def writtenOwn (scope : Scope) (a : Attribute) : Option Written :=
  match a.binding with
  | .event =>
    if isBlankText a.expression then none
    else some (.handler (eventName a.name) (handlerCode a.expression))
  | .property | .attribute =>
    if isDynamicClass a || isBlankText a.expression then none
    else some (.bound a (if a.binding == .attribute then a.name else attributeName a.name)
      (stripBindThis (Pipe.compile scope.pipes a.expression).text))
  | .standard =>
    if a.name == "class" || a.name == "style" || hasStart a.name "#" then none
    else
      let name := attributeName a.name
      some (.plain a name (compileForm scope (plainForm name a.value)))
  | _ => none

/-- **The attributes of an element in the output**, in order. -/
def written (scope : Scope) (tag : String) (attributes : List Attribute) : List Written :=
  writtenRefs attributes ++ (directives attributes).filterMap (writtenDirective scope) ++
    writtenMerged attributes ++ (twoWays attributes).flatMap (writtenTwoWay tag) ++
    (attributes.filterMap (writtenOwn scope)).filter (!·.text.isEmpty)

/-! ## Warnings -/

/-- A warning about a template. -/
def finding (code : WarningCode) (message : String) : Warning := ⟨code, message, .warning⟩

/-- What is warned about a directive. -/
def directiveWarnings (scope : Scope) (a : Attribute) : List Warning :=
  if a.isBuiltIn || (applyDirective scope.directives a.name a.value).isSome then []
  else [finding .unknownDirective ("Unknown directive *" ++ a.name ++ " ignored")]

/-- What is warned about a binding of a class or of a style. -/
def mergeWarnings (a : Attribute) : List Warning :=
  if isBlankMerge a then [finding .emptyBinding (a.rawName ++ " binding has empty expression")]
  else []

/-- What is warned about a two-way binding. -/
def twoWayWarnings (a : Attribute) : List Warning :=
  if isBlankText a.expression then
    [finding .malformedTwoWay (a.rawName ++ " two-way binding has empty expression")]
  else []

/-- The warning about a dangerous binding. -/
def dangerWarning (a : Attribute) : Warning :=
  finding .dangerousBinding (a.rawName ++ " is a dangerous binding that can lead to XSS " ++
    "vulnerabilities. Consider using safer alternatives.")

/-- What is warned about the chains in a piece of a plain value. -/
def partWarnings (scope : Scope) : ValuePart → List Warning
  | .text _ => []
  | .expression e => (Pipe.compile scope.pipes e).warnings

/-- What is warned about an attribute in its own place. -/
def ownWarnings (scope : Scope) (a : Attribute) : List Warning :=
  match a.binding with
  | .event =>
    if isBlankText a.expression then
      [finding .emptyBinding (a.rawName ++ " event binding has empty handler")]
    else []
  | .property | .attribute =>
    if isDynamicClass a then []
    else if isBlankText a.expression then
      [finding .emptyBinding (a.rawName ++ " binding has empty expression")]
    else
      (if isDangerousBinding a.name then [dangerWarning a] else []) ++
        (Pipe.compile scope.pipes a.expression).warnings
  | .standard =>
    if a.name == "class" || a.name == "style" || hasStart a.name "#" then []
    else
      match plainForm (attributeName a.name) a.value with
      | .interpolated parts => parts.flatMap (partWarnings scope)
      | _ => []
  | _ => []

/-- What is warned about the attributes of an element. -/
def attributeWarnings (scope : Scope) (attributes : List Attribute) : List Warning :=
  (directives attributes).flatMap (directiveWarnings scope) ++
    (oneWays attributes).flatMap mergeWarnings ++ (twoWays attributes).flatMap twoWayWarnings ++
    attributes.flatMap (ownWarnings scope)

/-! ## Computations that tell -/

/-- The computation gives `a` and adds the warnings `ws`, whatever has been gathered before. -/
def Tells {α : Type} (x : Emit α) (a : α) (ws : List Warning) : Prop :=
  ∀ e : Emission, (x.run e).1 = a ∧ (x.run e).2.warnings = e.warnings ++ ws

section

variable {α β : Type}

theorem tells_pure (a : α) : Tells (pure a) a [] := fun _ => ⟨rfl, (List.append_nil _).symm⟩

theorem Tells.bind {x : Emit α} {f : α → Emit β} {a : α} {b : β} {ws us : List Warning}
    (hx : Tells x a ws) (hf : Tells (f a) b us) : Tells (x >>= f) b (ws ++ us) := by
  intro e
  obtain ⟨hvalue, hwarnings⟩ := hx e
  obtain ⟨hvalue', hwarnings'⟩ := hf (x.run e).2
  have hrun : (x >>= f).run e = (f a).run (x.run e).2 := by
    rw [← hvalue]
    rfl
  rw [hrun]
  exact ⟨hvalue', by rw [hwarnings', hwarnings, List.append_assoc]⟩

/-- The last part only gives the value. -/
theorem Tells.give {x : Emit α} {f : α → Emit β} {a : α} {b : β} {ws : List Warning}
    (hx : Tells x a ws) (hf : Tells (f a) b []) : Tells (x >>= f) b ws := by
  have h := hx.bind hf
  rwa [List.append_nil] at h

theorem tells_warn (code : WarningCode) (message : String) :
    Tells (warn code message) () [finding code message] := fun _ => ⟨rfl, rfl⟩

/-- What is gathered besides warnings. -/
theorem tells_modify {g : Emission → Emission} (h : ∀ e, (g e).warnings = e.warnings) :
    Tells (modify g) () [] := fun e => ⟨rfl, (h e).trans (List.append_nil _).symm⟩

theorem tells_filterMapM {f : α → Emit (Option β)} {value : α → Option β}
    {ws : α → List Warning} (hf : ∀ a, Tells (f a) (value a) (ws a)) (as : List α) :
    Tells (as.filterMapM f) (as.filterMap value) (as.flatMap ws) := by
  induction as with
  | nil => exact tells_pure []
  | cons a as ih =>
    rw [List.filterMapM_cons, List.flatMap_cons]
    refine (hf a).bind ?_
    cases hvalue : value a with
    | none =>
      rw [List.filterMap_cons_none hvalue]
      exact ih
    | some b =>
      rw [List.filterMap_cons_some hvalue]
      exact ih.give (tells_pure _)

theorem tells_mapM {f : α → Emit β} {value : α → β} {ws : α → List Warning}
    (hf : ∀ a, Tells (f a) (value a) (ws a)) (as : List α) :
    Tells (as.mapM f) (as.map value) (as.flatMap ws) := by
  induction as with
  | nil => exact tells_pure []
  | cons a as ih =>
    rw [List.mapM_cons, List.flatMap_cons]
    exact (hf a).bind (ih.give (tells_pure _))

theorem tells_filterM {f : α → Emit Bool} {value : α → Bool} {ws : α → List Warning}
    (hf : ∀ a, Tells (f a) (value a) (ws a)) (as : List α) :
    Tells (as.filterM f) (as.filter value) (as.flatMap ws) := by
  have hloop : ∀ kept, Tells (as.filterAuxM f kept) ((as.filter value).reverse ++ kept)
      (as.flatMap ws) := by
    induction as with
    | nil => exact fun kept => tells_pure kept
    | cons a as ih =>
      intro kept
      rw [List.flatMap_cons]
      refine (hf a).bind ?_
      cases hvalue : value a with
      | true =>
        rw [List.filter_cons_of_pos hvalue, List.reverse_cons, List.append_assoc]
        exact ih (a :: kept)
      | false =>
        rw [List.filter_cons_of_neg (Bool.eq_false_iff.mp hvalue)]
        exact ih kept
  have hfilter : as.filterM f = as.filterAuxM f [] >>= fun kept => pure kept.reverse := rfl
  have h := (hloop []).give (f := fun kept => pure kept.reverse) (tells_pure _)
  rwa [List.append_nil, List.reverse_reverse, ← hfilter] at h

end

/-! ## The attributes of an element -/

theorem tells_emitRefs (attributes : List Attribute) :
    Tells (emitRefs attributes) ((writtenRefs attributes).map Written.text) [] := by
  rw [writtenRefs, List.map_filterMap]
  have hnil : (plain attributes).flatMap (fun _ => ([] : List Warning)) = [] :=
    List.flatMap_eq_nil_iff.mpr fun _ _ => rfl
  refine hnil ▸ tells_filterMapM (fun a => ?_) (plain attributes)
  split
  · exact Tells.give (tells_modify (fun _ => rfl)) (tells_pure (some _))
  · exact tells_pure none

theorem tells_emitDirectives (scope : Scope) (attributes : List Attribute) :
    Tells (emitDirectives scope attributes)
      (((directives attributes).filterMap (writtenDirective scope)).map Written.text)
      ((directives attributes).flatMap (directiveWarnings scope)) := by
  rw [emitDirectives_eq, List.map_filterMap]
  refine tells_filterMapM (fun a => ?_) (directives attributes)
  rw [emitDirective, writtenDirective, directiveWarnings]
  cases a.isBuiltIn with
  | true => exact tells_pure none
  | false =>
    cases applyDirective scope.directives a.name a.value with
    | none => exact (tells_warn _ _).give (tells_pure none)
    | some spread => exact Tells.give (tells_modify (fun _ => rfl)) (tells_pure (some spread))

theorem tells_emitClassAndStyle (attributes : List Attribute) :
    Tells (emitClassAndStyle attributes) ((writtenMerged attributes).map Written.text)
      ((oneWays attributes).flatMap mergeWarnings) := by
  have hbindings : Tells (usableBindings attributes) ((oneWays attributes).filter (!isBlankMerge ·))
      ((oneWays attributes).flatMap mergeWarnings) := by
    refine tells_filterM (fun a => ?_) (oneWays attributes)
    rw [mergeWarnings]
    change Tells (if isBlankMerge a = true then _ else _) _ _
    cases isBlankMerge a with
    | true => exact (tells_warn _ _).give (tells_pure false)
    | false => exact tells_pure true
  have htext : Written.text ∘ Written.merged = id := rfl
  rw [writtenMerged, List.map_map, htext, List.map_id]
  exact hbindings.give (tells_pure _)

theorem map_text_writtenTwoWay (tag : String) (a : Attribute) :
    (writtenTwoWay tag a).map Written.text =
      if isBlankText a.expression then [] else twoWayBinding a.name (strip a.expression) tag := by
  rw [writtenTwoWay, twoWayBinding]
  split
  · rfl
  · dsimp only
    split
    · rfl
    · split <;> rfl

theorem tells_emitTwoWays (tag : String) (attributes : List Attribute) :
    Tells (emitTwoWays tag attributes)
      (((twoWays attributes).flatMap (writtenTwoWay tag)).map Written.text)
      ((twoWays attributes).flatMap twoWayWarnings) := by
  rw [List.map_flatMap, List.flatMap_def]
  refine Tells.give (tells_mapM (fun a => ?_) (twoWays attributes)) (tells_pure _)
  rw [map_text_writtenTwoWay, twoWayWarnings]
  split
  · exact (tells_warn _ _).give (tells_pure [])
  · exact tells_pure _

theorem eventHandler_eq (name handler : String) :
    eventHandler name handler = assign (eventName name) (handlerCode handler) := by
  rw [eventHandler, handlerCode]
  split
  · rfl
  · split <;> rfl

theorem tells_emitPipe (scope : Scope) (chain : String) :
    Tells (emitPipe scope chain) (Pipe.compile scope.pipes chain).text
      (Pipe.compile scope.pipes chain).warnings := by
  rw [emitPipe]
  generalize Pipe.compile scope.pipes chain = o
  exact fun _ => ⟨rfl, rfl⟩

theorem tells_emitEvent {a : Attribute} (h : a.binding = .event) (scope : Scope) :
    Tells (emitEvent a) ((writtenOwn scope a).map Written.text) (ownWarnings scope a) := by
  rw [emitEvent, writtenOwn, ownWarnings, h]
  dsimp only
  split
  · exact (tells_warn _ _).give (tells_pure none)
  · rw [eventHandler_eq]
    exact tells_pure _

/-- What a binding of a property or an attribute is written as. -/
theorem writtenOwn_binding {a : Attribute} (h : a.binding = .property ∨ a.binding = .attribute)
    (scope : Scope) :
    writtenOwn scope a = if isDynamicClass a || isBlankText a.expression then none
      else some (.bound a (if a.binding == .attribute then a.name else attributeName a.name)
        (stripBindThis (Pipe.compile scope.pipes a.expression).text)) := by
  rcases h with h | h <;> rw [writtenOwn, h]

/-- What is warned about a binding of a property or an attribute. -/
theorem ownWarnings_binding {a : Attribute} (h : a.binding = .property ∨ a.binding = .attribute)
    (scope : Scope) :
    ownWarnings scope a = if isDynamicClass a then []
      else if isBlankText a.expression then
        [finding .emptyBinding (a.rawName ++ " binding has empty expression")]
      else (if isDangerousBinding a.name then [dangerWarning a] else []) ++
        (Pipe.compile scope.pipes a.expression).warnings := by
  rcases h with h | h <;> rw [ownWarnings, h]

theorem tells_emitBinding {a : Attribute} (h : a.binding = .property ∨ a.binding = .attribute)
    (scope : Scope) :
    Tells (emitBinding scope a) ((writtenOwn scope a).map Written.text) (ownWarnings scope a) := by
  rw [emitBinding, writtenOwn_binding h, ownWarnings_binding h]
  cases isDynamicClass a with
  | true => exact tells_pure none
  | false =>
    cases isBlankText a.expression with
    | true => exact (tells_warn _ _).give (tells_pure none)
    | false =>
      have hvalue := (tells_emitPipe scope a.expression).give (f := fun code =>
        pure (some (assign (if a.binding == .attribute then a.name else attributeName a.name)
          (stripBindThis code)))) (tells_pure _)
      cases isDangerousBinding a.name with
      | true =>
        simp only [Bool.or_self, Bool.false_eq_true, if_false, if_true]
        exact Tells.bind (tells_warn _ _) hvalue
      | false =>
        simp only [Bool.or_self, Bool.false_eq_true, if_false, List.nil_append]
        exact hvalue

theorem tells_emitPlain {a : Attribute} (h : a.binding = .standard) (scope : Scope) :
    Tells (emitPlain scope a) ((writtenOwn scope a).map Written.text) (ownWarnings scope a) := by
  rw [emitPlain, writtenOwn, ownWarnings, h]
  dsimp only
  split
  · exact tells_pure none
  · cases plainForm (attributeName a.name) a.value with
    | interpolated parts =>
      have hparts : Tells (emitParts scope parts) (parts.map (compilePart scope))
          (parts.flatMap (partWarnings scope)) := by
        refine tells_mapM (fun part => ?_) parts
        cases part with
        | text cs => exact tells_pure _
        | expression e => exact (tells_emitPipe scope e).give (tells_pure _)
      exact hparts.give (tells_pure _)
    | flag => exact tells_pure _
    | number value => exact tells_pure _
    | text value => exact tells_pure _

theorem tells_emitAttribute (scope : Scope) (a : Attribute) :
    Tells (emitAttribute scope a) ((writtenOwn scope a).map Written.text)
      (ownWarnings scope a) := by
  rw [emitAttribute]
  split
  · next h => exact tells_emitEvent h scope
  · next h => exact tells_emitBinding (.inl h) scope
  · next h => exact tells_emitBinding (.inr h) scope
  · next h => exact tells_emitPlain h scope
  · next hevent hproperty hattribute hstandard =>
    have hown : writtenOwn scope a = none := by
      rw [writtenOwn]
      split <;> first | rfl | contradiction
    have hwarnings : ownWarnings scope a = [] := by
      rw [ownWarnings]
      split <;> first | rfl | contradiction
    rw [hown, hwarnings]
    exact tells_pure none

/-- **The attributes of an element** are the texts of the written ones, and what is warned about
them depends on nothing else. -/
theorem tells_emitAttributes (scope : Scope) (tag : String) (attributes : List Attribute) :
    Tells (emitAttributes scope tag attributes) ((written scope tag attributes).map Written.text)
      (attributeWarnings scope attributes) := by
  have hothers := tells_filterMapM (tells_emitAttribute scope) attributes
  rw [← List.map_filterMap] at hothers
  have htexts : (written scope tag attributes).map Written.text =
      (writtenRefs attributes).map Written.text ++
        ((directives attributes).filterMap (writtenDirective scope)).map Written.text ++
        (writtenMerged attributes).map Written.text ++
        ((twoWays attributes).flatMap (writtenTwoWay tag)).map Written.text ++
        ((attributes.filterMap (writtenOwn scope)).map Written.text).filter (!·.isEmpty) := by
    rw [written, List.filter_map]
    simp only [List.map_append]
    rfl
  have hwarnings : attributeWarnings scope attributes =
      [] ++ ((directives attributes).flatMap (directiveWarnings scope) ++
        ((oneWays attributes).flatMap mergeWarnings ++
          ((twoWays attributes).flatMap twoWayWarnings ++
            attributes.flatMap (ownWarnings scope)))) := by
    simp only [attributeWarnings, List.nil_append, List.append_assoc]
  rw [htexts, hwarnings]
  exact Tells.bind (tells_emitRefs attributes) <|
    Tells.bind (tells_emitDirectives scope attributes) <|
      Tells.bind (tells_emitClassAndStyle attributes) <|
        Tells.bind (tells_emitTwoWays tag attributes) <| Tells.give hothers (tells_pure _)

/-! ## The warnings about nodes -/

/-- What is warned about the loop of an element. -/
def loopWarnings (attributes : List Attribute) : List Warning :=
  match directive? "for" attributes with
  | none => []
  | some a => (Loop.parse a.expression).2

mutual

/-- What is warned about a node: about the conditions and the attributes of an element, then about
what is inside of it, then about its loop. -/
def nodeWarnings (scope : Scope) : Node → List Warning
  | .text _ _ => []
  | .comment _ _ => []
  | .interpolation expression _ =>
    if isBlankText expression then [] else (Pipe.compile scope.pipes expression).warnings
  | .element tag _ attributes children _ =>
    if isSlot tag || isOutlet tag then []
    else conditionWarnings attributes ++ attributeWarnings scope attributes ++
      nodesWarnings scope children ++ loopWarnings attributes

/-- What is warned about nodes, one after the other. -/
def nodesWarnings (scope : Scope) : List Node → List Warning
  | [] => []
  | n :: ns => nodeWarnings scope n ++ nodesWarnings scope ns

end

/-- The computation adds the warnings `ws`, whatever it gives. -/
def Warns {α : Type} (ws : List Warning) (x : Emit α) : Prop :=
  ∀ e : Emission, (x.run e).2.warnings = e.warnings ++ ws

theorem composes_warns : Composes fun α => Warns (α := α) where
  ret _ := fun _ => (List.append_nil _).symm
  seq {_ _ _ _ x _} hx hf := fun e => by
    have hlater := hf (x.run e).1 (x.run e).2
    rw [hx e, List.append_assoc] at hlater
    exact hlater

theorem Tells.warns {α : Type} {x : Emit α} {a : α} {ws : List Warning} (h : Tells x a ws) :
    Warns ws x := fun e => (h e).2

theorem warns_checkConditions (attributes : List Attribute) :
    Warns (conditionWarnings attributes) (checkConditions attributes) := by
  rw [checkConditions_eq]
  exact fun _ => rfl

theorem warns_emitSlot (scope : Scope) (tag : String) (attributes : List Attribute) :
    Warns [] (emitSlot scope tag attributes) := by
  rw [emitSlot]
  split
  · exact (Tells.give (tells_modify (fun _ => rfl)) (tells_pure _)).warns
  · split
    · exact (Tells.give (tells_modify (fun _ => rfl)) (tells_pure _)).warns
    · exact (Tells.give (tells_modify (fun _ => rfl)) (tells_pure _)).warns

theorem warns_emitLoop (attributes : List Attribute) :
    Warns (loopWarnings attributes) (emitLoop attributes) := by
  have hwarn : ∀ ws, Warns ws (warnAll ws) := fun _ _ => rfl
  rw [emitLoop, loopWarnings]
  cases directive? "for" attributes with
  | none => exact composes_warns.ret none
  | some a =>
    dsimp only
    obtain ⟨loop, ws⟩ := Loop.parse a.expression
    refine composes_warns.before (hwarn ws) fun _ => ?_
    cases loop with
    | none => exact composes_warns.ret none
    | some loop => exact fun e => (List.append_nil _).symm

mutual

theorem warns_emitNode (scope : Scope) (n : Node) :
    Warns (nodeWarnings scope n) (emitNode scope n) := by
  cases n with
  | text content span =>
    rw [emitNode, nodeWarnings]
    exact composes_warns.ret _
  | comment content span =>
    rw [emitNode, nodeWarnings]
    exact composes_warns.ret _
  | interpolation expression span =>
    rw [emitNode, nodeWarnings]
    exact kept_ite (P := fun α => Warns (α := α)) (composes_warns.ret "")
      (composes_warns.before (tells_emitPipe scope expression).warns fun _ => composes_warns.ret _)
  | element tag selfClosing attributes children span =>
    rw [emitNode, nodeWarnings]
    by_cases hslot : isSlot tag = true
    · rw [if_pos hslot, if_pos (by simp [hslot])]
      exact warns_emitSlot scope tag attributes
    · by_cases houtlet : isOutlet tag = true
      · rw [if_neg hslot, if_pos houtlet, if_pos (by simp [houtlet])]
        exact (Tells.give (tells_modify (fun _ => rfl)) (tells_pure _)).warns
      · rw [if_neg hslot, if_neg houtlet, if_neg (by simp [hslot, houtlet]), List.append_assoc,
          List.append_assoc]
        exact composes_warns.seq (warns_checkConditions attributes) fun _ =>
          composes_warns.seq (tells_emitAttributes scope tag attributes).warns fun _ =>
            composes_warns.seq (warns_emitNodes scope children) fun _ =>
              composes_warns.before (warns_emitLoop attributes) fun _ => composes_warns.ret _

/-- **The warnings about nodes** are told in the order of the source. -/
theorem warns_emitNodes (scope : Scope) (ns : List Node) :
    Warns (nodesWarnings scope ns) (emitNodes scope ns) := by
  cases ns with
  | nil =>
    rw [emitNodes, nodesWarnings]
    exact composes_warns.ret []
  | cons n ns =>
    rw [emitNodes, nodesWarnings]
    exact composes_warns.seq (warns_emitNode scope n) fun _ =>
      composes_warns.before (warns_emitNodes scope ns) fun _ => composes_warns.ret _

end

/-- **The warnings about a template** are those of its nodes and those of its markup. -/
theorem warnings_transform (env : Environment) (inLayout : Bool) (template : String) :
    (transform env inLayout template).value.warnings =
      nodesWarnings (env.scope inLayout) (parseTemplate template).document.children ++
        (parseTemplate template).errors.map ParseError.warning :=
  congrArg (· ++ (parseTemplate template).errors.map ParseError.warning)
    (warns_emitNodes (env.scope inLayout) (parseTemplate template).document.children {})

end Trellis.Jsx
