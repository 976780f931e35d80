import Trellis.Proofs.Jsx.Gathered

/-!
# Components in the output

The emitted JSX refers to components by name: by its tags, by the targets of `*else`, and by the
place where a layout shows the page. The imports of a template are found in another walk, over its
tags. This module compares the two.

* `Markup` is the emitted JSX as a tree, `emitTree` the emitter with trees for texts; `emitNode_eq`:
  the texts are these trees, rendered.
* `Markup.references` are the references in a tree, each of which stands in its text
  (`within_render`).
* `transform_references`: a reference to a known component is imported exactly if a tag of the
  template that names a component spells it. Other references (the target of an `*else`, and a tag
  that is an element of HTML in another case) are not imported on their own account.
-/

namespace Trellis.Jsx

open Trellis.Text
open Trellis.Template

/-! ## The output as a tree -/

/-- Emitted JSX: a text, the place of the page, or an element with its tag in the template, its
attributes in the output, what is inside, its loop, and its attributes in the template. -/
inductive Markup where
  | raw (text : String)
  | outlet
  | element (tag : String) (parts : List String) (children : List Markup) (loop : Option Loop)
      (attributes : List Attribute)

namespace Markup

mutual

/-- The text of a tree. -/
def render : Markup → String
  | .raw text => text
  | .outlet => "<Component />"
  | .element tag parts children loop attributes =>
    structuralJsx (elementJsx (jsxName tag) parts (String.join (renderAll children))) loop
      attributes

/-- The texts of trees. -/
def renderAll : List Markup → List String
  | [] => []
  | m :: ms => m.render :: renderAll ms

end

end Markup

/-- A place for content. -/
def slotTree (scope : Scope) (tag : String) (attributes : List Attribute) : Emit Markup := do
  let text ← emitSlot scope tag attributes
  pure (if scope.inLayout then .outlet else .raw text)

mutual

/-- A node of the template as a tree of the output. -/
def emitTree (scope : Scope) : Node → Emit Markup
  | .text content _ => pure (.raw (textJsx content))
  | .comment _ _ => pure (.raw "")
  | .interpolation expression _ => do
    if isBlankText expression then pure (.raw "")
    else pure (.raw (braced (← emitPipe scope expression)))
  | .element tag selfClosing attributes children _ => do
    if isSlot tag then slotTree scope tag attributes
    else if isOutlet tag then
      modify fun e => { e with hasOutlet := true }
      pure .outlet
    else
      checkConditions attributes
      let parts ← emitAttributes scope tag attributes
      let inside ← emitTrees scope children
      let loop ← emitLoop attributes
      let key := loop.map fun (l, count) => keyAttribute l count
      pure (.element tag (parts ++ key.toList) (if selfClosing then [] else inside)
        (loop.map (·.1)) attributes)

/-- Nodes of the template as trees of the output. -/
def emitTrees (scope : Scope) : List Node → Emit (List Markup)
  | [] => pure []
  | n :: ns => do
    let tree ← emitTree scope n
    let trees ← emitTrees scope ns
    pure (tree :: trees)

end

theorem emitSlot_eq (scope : Scope) (tag : String) (attributes : List Attribute) :
    emitSlot scope tag attributes = Markup.render <$> slotTree scope tag attributes := by
  cases hlayout : scope.inLayout with
  | true => simp [slotTree, emitSlot, hlayout, Markup.render]
  | false => simp [slotTree, hlayout, Markup.render]

mutual

/-- **The emitter writes the trees**, and gathers the same on the way. -/
theorem emitNode_eq (scope : Scope) (n : Node) :
    emitNode scope n = Markup.render <$> emitTree scope n := by
  cases n with
  | text content span => simp [emitNode, emitTree, Markup.render]
  | comment content span => simp [emitNode, emitTree, Markup.render]
  | interpolation expression span =>
    rw [emitNode, emitTree]
    split <;> simp [Markup.render]
  | element tag selfClosing attributes children span =>
    rw [emitNode, emitTree]
    split
    · exact emitSlot_eq scope tag attributes
    · split
      · simp [Markup.render]
      · rw [emitNodes_eq]
        cases selfClosing <;> simp [Markup.render, Markup.renderAll]

theorem emitNodes_eq (scope : Scope) (ns : List Node) :
    emitNodes scope ns = Markup.renderAll <$> emitTrees scope ns := by
  cases ns with
  | nil => simp [emitNodes, emitTrees, Markup.renderAll]
  | cons n ns =>
    rw [emitNodes, emitTrees, emitNode_eq, emitNodes_eq]
    simp [Markup.renderAll]

end

/-! ## References -/

/-- The component that is shown where the condition of an element does not hold. -/
def elseTarget? (attributes : List Attribute) : Option String :=
  match (directive? "if" attributes).filter fun a => !isBlankText a.expression with
  | some _ =>
    (((directive? "else" attributes).map (·.expression)).filter (!·.isEmpty)).map strip
  | none => none

/-- A use of a component in the output. -/
inductive Reference where
  /-- By a tag of the template. -/
  | tag (tag : String)
  /-- As the target of an `*else`. -/
  | otherwise (name : String)
  /-- The place of the page. -/
  | outlet
  deriving DecidableEq, Repr

/-- The name by which a component is used. -/
def Reference.name : Reference → String
  | .tag t => jsxName t
  | .otherwise target => target
  | .outlet => "Component"

namespace Markup

mutual

/-- The references in a tree. -/
def references : Markup → List Reference
  | .raw _ => []
  | .outlet => [.outlet]
  | .element tag _ children _ attributes =>
    .tag tag :: (elseTarget? attributes).toList.map .otherwise ++ referencesOf children

/-- The references in trees. -/
def referencesOf : List Markup → List Reference
  | [] => []
  | m :: ms => m.references ++ referencesOf ms

end

end Markup

/-! ### References stand in the text -/

/-- The part stands somewhere in the whole. -/
def Within (part whole : String) : Prop := ∃ before after, whole = before ++ part ++ after

section

variable {part whole : String}

theorem within_self (part : String) : Within part part :=
  ⟨"", "", by rw [String.append_empty, String.empty_append]⟩

theorem Within.append (h : Within part whole) (more : String) : Within part (whole ++ more) := by
  obtain ⟨before, after, rfl⟩ := h
  exact ⟨before, after ++ more, String.append_assoc ..⟩

theorem Within.prepend (h : Within part whole) (more : String) : Within part (more ++ whole) := by
  obtain ⟨before, after, rfl⟩ := h
  exact ⟨more ++ before, after, by simp only [String.append_assoc]⟩

theorem Within.join (h : Within part whole) {ls : List String} (hmem : whole ∈ ls) :
    Within part (String.join ls) := by
  obtain ⟨xs, ys, rfl⟩ := List.append_of_mem hmem
  rw [String.join_append, String.join_cons]
  exact (h.append _).prepend _

theorem Within.intercalate (h : Within part whole) (gap : String) {ls : List String}
    (hmem : whole ∈ ls) : Within part (gap.intercalate ls) := by
  induction ls with
  | nil => cases hmem
  | cons first ls ih =>
    cases ls with
    | nil =>
      rw [String.intercalate_singleton, ← List.mem_singleton.mp hmem]
      exact h
    | cons second ls =>
      rw [String.intercalate_cons_cons]
      rcases List.mem_cons.mp hmem with rfl | hmem
      · exact (h.append _).append _
      · exact (ih hmem).prepend _

end

theorem within_elementJsx_tag (tag : String) (parts : List String) (children : String) :
    Within ("<" ++ tag) (elementJsx tag parts children) := by
  have hopening : Within ("<" ++ tag) ("<" ++ " ".intercalate (tag :: parts)) := by
    cases parts with
    | nil =>
      rw [String.intercalate_singleton]
      exact within_self _
    | cons part parts =>
      rw [String.intercalate_cons_cons, ← String.append_assoc, ← String.append_assoc]
      exact ((within_self _).append _).append _
  rw [elementJsx]
  split
  · exact hopening.append _
  · exact ((((hopening.append _).append _).append _).append _).append _

theorem within_elementJsx_children {name : String} (tag : String) (parts : List String)
    {children : String} (h : Within ("<" ++ name) children) :
    Within ("<" ++ name) (elementJsx tag parts children) := by
  -- An element with nothing inside would be closed at once.
  have hfull : children.isEmpty = false := by
    obtain ⟨before, after, rfl⟩ := h
    simp
  rw [elementJsx, hfull, if_neg Bool.false_ne_true]
  exact (((h.prepend _).append _).append _).append _

theorem within_braced {part text : String} (h : Within part text) : Within part (braced text) :=
  (h.prepend _).append _

theorem within_mapText {part element : String} (h : Within part element) (l : Loop) :
    Within part (l.mapText element) := (h.prepend _).append _

theorem within_conditionText {part element : String} (h : Within part element) (condition : String)
    (otherwise : Option String) : Within part (conditionText element condition otherwise) := by
  cases otherwise with
  | none => exact h.prepend _
  | some other =>
    rw [conditionText]
    split
    · exact h.prepend _
    · exact (((h.prepend _).append _).append _).append _

/-- An element stands in its loop and its condition. -/
theorem within_structuralJsx {part element : String} (h : Within part element) (loop : Option Loop)
    (attributes : List Attribute) : Within part (structuralJsx element loop attributes) := by
  have hlooped : Within part ((loop.map (·.mapText element)).getD element) := by
    cases loop with
    | none => exact h
    | some l => exact within_mapText h l
  rw [structuralJsx]
  dsimp only
  split
  · exact within_braced (within_conditionText hlooped _ _)
  · cases loop with
    | none => exact h
    | some l => exact within_braced (within_mapText h l)

/-- So does the component that is shown in its place. -/
theorem within_structuralJsx_else {name : String} {attributes : List Attribute}
    (h : elseTarget? attributes = some name) (element : String) (loop : Option Loop) :
    Within ("<" ++ name) (structuralJsx element loop attributes) := by
  rw [elseTarget?] at h
  split at h
  · next a htest =>
    obtain ⟨target, htarget, rfl⟩ := Option.map_eq_some_iff.mp h
    obtain ⟨hsome, hfull⟩ := Option.filter_eq_some_iff.mp htarget
    have hother : ¬target.isEmpty = true := by simpa using hfull
    have hopening : " : <" = " : " ++ "<" := rfl
    simp only [structuralJsx, htest, hsome, conditionText, if_neg hother]
    refine within_braced (Within.append ?_ _)
    rw [hopening, ← String.append_assoc, String.append_assoc]
    exact (within_self _).prepend _
  · cases h

mutual

/-- **Every reference stands in the text of its tree.** -/
theorem within_render (m : Markup) {ref : Reference} (h : ref ∈ m.references) :
    Within ("<" ++ ref.name) m.render := by
  cases m with
  | raw text =>
    rw [Markup.references] at h
    cases h
  | outlet =>
    rw [Markup.references] at h
    cases List.mem_singleton.mp h
    exact ⟨"", " />", rfl⟩
  | element tag parts children loop attributes =>
    rw [Markup.references] at h
    rw [Markup.render]
    rcases List.mem_append.mp h with h | h
    · rcases List.mem_cons.mp h with rfl | h
      · exact within_structuralJsx (within_elementJsx_tag _ _ _) _ _
      · obtain ⟨name, hname, rfl⟩ := List.mem_map.mp h
        exact within_structuralJsx_else (Option.mem_toList.mp hname) _ _
    · obtain ⟨text, htext, hwithin⟩ := within_renderAll children h
      exact within_structuralJsx (within_elementJsx_children _ _ (hwithin.join htext)) _ _

theorem within_renderAll (ms : List Markup) {ref : Reference} (h : ref ∈ Markup.referencesOf ms) :
    ∃ text ∈ Markup.renderAll ms, Within ("<" ++ ref.name) text := by
  cases ms with
  | nil =>
    rw [Markup.referencesOf] at h
    cases h
  | cons m ms =>
    rw [Markup.referencesOf] at h
    rw [Markup.renderAll]
    rcases List.mem_append.mp h with h | h
    · exact ⟨_, List.mem_cons_self, within_render m h⟩
    · obtain ⟨text, htext, hwithin⟩ := within_renderAll ms h
      exact ⟨text, List.mem_cons_of_mem _ htext, hwithin⟩

end

theorem within_rootJsx {name text : String} (h : Within ("<" ++ name) text) {parts : List String}
    (hmem : text ∈ parts) : Within ("<" ++ name) (rootJsx (parts.filter (!·.isEmpty))) := by
  have hfull : text ∈ parts.filter (!·.isEmpty) := by
    obtain ⟨before, after, rfl⟩ := h
    refine List.mem_filter.mpr ⟨hmem, ?_⟩
    simp
  generalize parts.filter (!·.isEmpty) = kept at hfull ⊢
  match kept, hfull with
  | [part], hfull =>
    cases List.mem_singleton.mp hfull
    rw [rootJsx]
    split
    · exact h
    · exact (h.prepend _).append _
  | first :: second :: kept, hfull => exact ((h.intercalate _ hfull).prepend _).append _

/-! ## Tags -/

/-- The computation gives only values with the property. -/
def Gives {α : Type} (P : α → Prop) (x : Emit α) : Prop := ∀ e : Emission, P (x.run e).1

theorem gives_pure {α : Type} {P : α → Prop} {a : α} (h : P a) : Gives P (pure a) := fun _ => h

theorem gives_bind {α β : Type} {P : α → Prop} {Q : β → Prop} {x : Emit α} {f : α → Emit β}
    (hx : Gives P x) (hf : ∀ a, P a → Gives Q (f a)) : Gives Q (x >>= f) :=
  fun e => hf _ (hx e) _

theorem gives_any {α : Type} (x : Emit α) : Gives (fun _ => True) x := fun _ => trivial

/-- The tags of nodes and their descendants, depth first. -/
def tagsIn (ns : List Node) : List String := (Node.allOf ns).filterMap Node.tag?

theorem tagsIn_cons (n : Node) (ns : List Node) : tagsIn (n :: ns) = tagsIn [n] ++ tagsIn ns := by
  simp [tagsIn, Node.allOf]

theorem tagsIn_element (tag : String) (selfClosing : Bool) (attributes : List Attribute)
    (children : List Node) (span : Span) :
    tagsIn [.element tag selfClosing attributes children span] = tag :: tagsIn children := by
  simp [tagsIn, Node.allOf, Node.all, Node.tag?]

/-- All references by tags are to the given tags. -/
def OnlyTags (tags : List String) (refs : List Reference) : Prop :=
  ∀ tag, .tag tag ∈ refs → tag ∈ tags

theorem onlyTags_nil (tags : List String) : OnlyTags tags [] := nofun

theorem onlyTags_outlet (tags : List String) : OnlyTags tags Markup.outlet.references := by
  intro tag htag
  rw [Markup.references] at htag
  cases List.mem_singleton.mp htag

theorem onlyTags_element {tags : List String} {children : List Markup}
    (h : OnlyTags tags (Markup.referencesOf children)) (tag : String) (parts : List String)
    (loop : Option Loop) (attributes : List Attribute) :
    OnlyTags (tag :: tags) (Markup.element tag parts children loop attributes).references := by
  intro t ht
  rw [Markup.references] at ht
  rcases List.mem_append.mp ht with ht | ht
  · rcases List.mem_cons.mp ht with ht | ht
    · cases ht
      exact List.mem_cons_self
    · obtain ⟨name, -, hname⟩ := List.mem_map.mp ht
      cases hname
  · exact List.mem_cons_of_mem _ (h t ht)

mutual

theorem onlyTags_emitTree (scope : Scope) (n : Node) :
    Gives (fun m => OnlyTags (tagsIn [n]) m.references) (emitTree scope n) := by
  cases n with
  | text content span =>
    rw [emitTree]
    exact gives_pure (onlyTags_nil _)
  | comment content span =>
    rw [emitTree]
    exact gives_pure (onlyTags_nil _)
  | interpolation expression span =>
    rw [emitTree]
    split
    · exact gives_pure (onlyTags_nil _)
    · exact gives_bind (gives_any _) fun _ _ => gives_pure (onlyTags_nil _)
  | element tag selfClosing attributes children span =>
    rw [emitTree]
    split
    · refine gives_bind (gives_any _) fun text _ => gives_pure ?_
      split
      · exact onlyTags_outlet _
      · exact onlyTags_nil _
    · split
      · exact gives_bind (gives_any _) fun _ _ => gives_pure (onlyTags_outlet _)
      · refine gives_bind (gives_any _) fun _ _ => gives_bind (gives_any _) fun parts _ =>
          gives_bind (onlyTags_emitTrees scope children) fun inside hinside =>
            gives_bind (gives_any _) fun loop _ => gives_pure ?_
        rw [tagsIn_element]
        refine onlyTags_element ?_ _ _ _ _
        -- What is inside of a self-closing element is emitted, for what it gathers, and dropped.
        cases selfClosing with
        | true => exact onlyTags_nil _
        | false => exact hinside

theorem onlyTags_emitTrees (scope : Scope) (ns : List Node) :
    Gives (fun ms => OnlyTags (tagsIn ns) (Markup.referencesOf ms)) (emitTrees scope ns) := by
  cases ns with
  | nil =>
    rw [emitTrees]
    exact gives_pure (onlyTags_nil _)
  | cons n ns =>
    rw [emitTrees, tagsIn_cons]
    refine gives_bind (onlyTags_emitTree scope n) fun tree htree =>
      gives_bind (onlyTags_emitTrees scope ns) fun trees htrees => gives_pure ?_
    intro tag htag
    rw [Markup.referencesOf] at htag
    rcases List.mem_append.mp htag with htag | htag
    · exact List.mem_append_left _ (htree tag htag)
    · exact List.mem_append_right _ (htrees tag htag)

end

/-! ## Imports -/

theorem mem_customTags {d : Document} {tag : String} :
    tag ∈ customTags d ↔ tag ∈ tagsIn d.children ∧ isCustom tag = true := by
  have hdistinct : ∀ tags : List String, tag ∈ distinct tags ↔ tag ∈ tags := by
    intro tags
    exact Pipe.mem_foldl_addOnce.trans (or_iff_right List.not_mem_nil)
  rw [customTags, hdistinct, List.mem_filter]
  rfl

theorem exists_resolve {known : List KnownComponent} (aliasName : String) {tag : String}
    (hcustom : isCustom tag = true) (hknown : ∃ c ∈ known, c.className = jsxName tag) :
    ∃ i, (resolve known aliasName tag).value = some i ∧ i.componentName = jsxName tag := by
  obtain ⟨c, hc, hname⟩ := hknown
  have hfind : (known.find? (·.className == jsxName tag)).isSome = true :=
    List.find?_isSome.mpr ⟨c, hc, beq_iff_eq.mpr hname⟩
  obtain ⟨found, hfound⟩ := Option.isSome_iff_exists.mp hfind
  simp only [resolve, hcustom, Bool.not_true, Bool.false_eq_true, if_false]
  generalize jsxName tag = name at hfound ⊢
  rw [hfound]
  exact ⟨_, rfl, rfl⟩

/-- A known component is imported exactly if a tag that names a component spells it. -/
theorem imported_iff (env : Environment) (inLayout : Bool) (template : String) {name : String}
    (hknown : ∃ c ∈ env.known, c.className = name) :
    (∃ i ∈ (transform env inLayout template).value.imports, i.componentName = name) ↔
      ∃ tag ∈ customTags (parseTemplate template).document, jsxName tag = name := by
  rw [imports_transform]
  simp only [List.mem_filterMap]
  constructor
  · rintro ⟨i, ⟨tag, htag, hi⟩, rfl⟩
    obtain ⟨-, c, -, hname, rfl⟩ := resolve_eq_some hi
    exact ⟨tag, htag, hname.symm⟩
  · rintro ⟨tag, htag, rfl⟩
    obtain ⟨i, hi, hname⟩ := exists_resolve env.aliasName (mem_customTags.mp htag).2 hknown
    exact ⟨i, ⟨tag, htag, hi⟩, hname⟩

/-- The output of a template as trees. -/
def markup (env : Environment) (inLayout : Bool) (template : String) : List Markup :=
  ((emitTrees (env.scope inLayout) (parseTemplate template).document.children).run {}).1

theorem jsx_transform (env : Environment) (inLayout : Bool) (template : String) :
    (transform env inLayout template).value.jsx =
      rootJsx ((Markup.renderAll (markup env inLayout template)).filter (!·.isEmpty)) := by
  change ((emitDocument _ _).run {}).1 = _
  rw [emitDocument, emitNodes_eq]
  rfl

/-- **Which components of the output are imported.** The output of a template is its trees,
rendered, and every reference in them stands in it. A known component that is referred to is
imported exactly if a tag of the template that names a component spells it; every such tag of the
output is one. The target of an `*else` does not count. -/
theorem transform_references (env : Environment) (inLayout : Bool) (template : String) :
    (transform env inLayout template).value.jsx =
        rootJsx ((Markup.renderAll (markup env inLayout template)).filter (!·.isEmpty)) ∧
      ∀ ref ∈ Markup.referencesOf (markup env inLayout template),
        Within ("<" ++ ref.name) (transform env inLayout template).value.jsx ∧
        ((∃ c ∈ env.known, c.className = ref.name) →
          ((∃ i ∈ (transform env inLayout template).value.imports, i.componentName = ref.name) ↔
            ∃ tag ∈ customTags (parseTemplate template).document, jsxName tag = ref.name)) ∧
        ∀ tag, ref = .tag tag → isCustom tag = true →
          tag ∈ customTags (parseTemplate template).document := by
  refine ⟨jsx_transform env inLayout template, fun ref href => ⟨?_, imported_iff env inLayout
    template, ?_⟩⟩
  · obtain ⟨text, htext, hwithin⟩ := within_renderAll _ href
    rw [jsx_transform]
    exact within_rootJsx hwithin htext
  · rintro tag rfl hcustom
    exact mem_customTags.mpr ⟨onlyTags_emitTrees _ _ {} tag href, hcustom⟩

/-! ### A target of `*else` -/

/-- A paragraph with another component in its place. -/
def elseTemplate : String := "<p *if=\"ok\" *else=\"Loading\"/>"

/-- The only known component is the one in its place. -/
def elseEnvironment : Environment := { known := [⟨"Loading", false⟩] }

theorem references_elseTemplate :
    Markup.referencesOf (markup elseEnvironment false elseTemplate) =
      [.tag "p", .otherwise "Loading"] := by
  decide +kernel

theorem customTags_elseTemplate : customTags (parseTemplate elseTemplate).document = [] := by
  decide +kernel

theorem transform_references_elseTemplate :
    Within "<Loading" (transform elseEnvironment false elseTemplate).value.jsx ∧
      ((∃ i ∈ (transform elseEnvironment false elseTemplate).value.imports,
          i.componentName = "Loading") ↔
        ∃ tag ∈ customTags (parseTemplate elseTemplate).document, jsxName tag = "Loading") := by
  have hmem : .otherwise "Loading" ∈
      Markup.referencesOf (markup elseEnvironment false elseTemplate) := by
    rw [references_elseTemplate]
    exact List.mem_cons_of_mem _ List.mem_cons_self
  obtain ⟨hwithin, himported, -⟩ :=
    (transform_references elseEnvironment false elseTemplate).2 _ hmem
  exact ⟨hwithin, himported ⟨_, List.mem_cons_self, rfl⟩⟩

/-- A known component that is used in the output but not imported. -/
theorem unbound_elseTemplate :
    ∃ ref ∈ Markup.referencesOf (markup elseEnvironment false elseTemplate),
      (∃ c ∈ elseEnvironment.known, c.className = ref.name) ∧
      ¬∃ i ∈ (transform elseEnvironment false elseTemplate).value.imports,
        i.componentName = ref.name := by
  refine ⟨.otherwise "Loading", ?_, ⟨_, List.mem_cons_self, rfl⟩, ?_⟩
  · rw [references_elseTemplate]
    exact List.mem_cons_of_mem _ List.mem_cons_self
  · rw [imports_transform, customTags_elseTemplate]
    rintro ⟨i, hi, -⟩
    cases hi

end Trellis.Jsx
