import Mathlib.Data.List.Nodup
import Trellis.Proofs.Build.Links
import Trellis.Proofs.Jsx.References
import Trellis.Proofs.Jsx.Spelling

/-!
# Names that component imports declare

A template imports a component for each of its tags that names a known one. The tags are distinct,
but the names that are imported for them are not always: a component that is spelled in two ways is
imported twice, and a component that shows itself imports its own name.

* `usedTags` are the tags behind the imports, and `importedNames_transform` the names they declare.
* `Confused` says that two tags are the same component. Tags that are all written in one way are not
  confused.
* `component_bindings`: a component's module declares a name twice exactly if its tags are confused
  or one of them is the component itself.
-/

namespace Trellis.Jsx

open Trellis.Template

/-- The tags of a template that name known components, in first-use order. -/
def usedTags (known : List KnownComponent) (template : String) : List String :=
  (customTags (parseTemplate template).document).filter fun tag =>
    known.any (·.className == jsxName tag)

/-- The names that the component imports of a template declare. -/
def Transformed.importedNames (t : Transformed) : List String := t.imports.map (·.componentName)

/-- Two of the tags are the same component. -/
def Confused (tags : List String) : Prop :=
  ∃ a ∈ tags, ∃ b ∈ tags, a ≠ b ∧ jsxName a = jsxName b

/-- The tags are all in small letters, or all start with a capital. -/
def WrittenAlike (tags : List String) : Prop :=
  (∀ tag ∈ tags, isKebab tag = true) ∨ ∀ tag ∈ tags, isCapitalised tag = true

theorem nodup_usedTags (known : List KnownComponent) (template : String) :
    (usedTags known template).Nodup := by
  have hcustom : (customTags (parseTemplate template).document).Nodup :=
    Pipe.nodup_foldl_addOnce List.nodup_nil
  exact hcustom.filter _

theorem isCustom_of_mem_usedTags {known : List KnownComponent} {template tag : String}
    (h : tag ∈ usedTags known template) : isCustom tag = true :=
  (mem_customTags.mp (List.mem_filter.mp h).1).2

/-- The name that is imported for a tag, if it names a known component. -/
theorem componentName_resolve {known : List KnownComponent} (aliasName : String) {tag : String}
    (hcustom : isCustom tag = true) :
    (resolve known aliasName tag).value.map (·.componentName) =
      if known.any (·.className == jsxName tag) then some (jsxName tag) else none := by
  split
  · next hknown =>
    obtain ⟨c, hc, hname⟩ := List.any_eq_true.mp hknown
    obtain ⟨i, hi, hname⟩ := exists_resolve aliasName hcustom ⟨c, hc, beq_iff_eq.mp hname⟩
    rw [hi, Option.map_some, hname]
  · next hknown =>
    cases hi : (resolve known aliasName tag).value with
    | none => rfl
    | some i =>
      obtain ⟨-, c, hc, hname, -⟩ := resolve_eq_some hi
      refine absurd ?_ hknown
      exact List.any_eq_true.mpr ⟨c, hc, beq_iff_eq.mpr hname⟩

/-- The imports of a template declare the components of its tags, one for each tag. -/
theorem importedNames_transform (env : Environment) (inLayout : Bool) (template : String) :
    (transform env inLayout template).value.importedNames =
      (usedTags env.known template).map jsxName := by
  have htags : ∀ tags : List String, (∀ tag ∈ tags, isCustom tag = true) →
      (tags.filterMap fun tag => (resolve env.known env.aliasName tag).value).map
          (·.componentName) =
        (tags.filter fun tag => env.known.any (·.className == jsxName tag)).map jsxName := by
    intro tags hcustom
    rw [List.map_filterMap, ← List.filterMap_eq_map, List.filterMap_filter]
    refine List.filterMap_congr fun tag htag => ?_
    rw [componentName_resolve env.aliasName (hcustom tag htag)]
    rfl
  rw [Transformed.importedNames, imports_transform, usedTags]
  exact htags _ fun tag htag => (mem_customTags.mp htag).2

/-- The names are distinct exactly if the tags are not confused. -/
theorem nodup_importedNames_iff (env : Environment) (inLayout : Bool) (template : String) :
    (transform env inLayout template).value.importedNames.Nodup ↔
      ¬Confused (usedTags env.known template) := by
  rw [importedNames_transform, List.nodup_map_iff_inj_on (nodup_usedTags _ _)]
  constructor
  · rintro hinj ⟨a, ha, b, hb, hne, hname⟩
    exact hne (hinj a ha b hb hname)
  · intro hclear a ha b hb hname
    by_contra hne
    exact hclear ⟨a, ha, b, hb, hne, hname⟩

theorem not_confused_of_writtenAlike {known : List KnownComponent} {template : String}
    (h : WrittenAlike (usedTags known template)) : ¬Confused (usedTags known template) := by
  rintro ⟨a, ha, b, hb, hne, hname⟩
  exact hne (jsxName_injOn (fun _ => isCustom_of_mem_usedTags) h a ha b hb hname)

end Trellis.Jsx

namespace Trellis.Output

open Trellis.Build
open Trellis.Jsx
open Trellis.Project

section

variable {env : Environment} {v : View} {stylePath helpersImport : Option String} {file : File}

/-- The imports of components are the last ones of a module. -/
theorem exists_componentImports_eq (v : View) (t : Transformed) (signals : List Input)
    (aliasName : String) (stylePath helpersImport : Option String) :
    ∃ own, componentImports v t signals aliasName stylePath helpersImport =
      own ++ t.imports.map TagImport.statement := by
  rw [componentImports, Transformed.importLines]
  simp only [← List.append_assoc]
  exact ⟨_, rfl⟩

/-- The function of a component follows the imports of its module. -/
theorem content_component {template : String}
    (hfile : file = (componentModule env v template stylePath helpersImport).value) :
    ∃ own rest, file.content =
        lines (own ++ (transform env false template).value.imports.map TagImport.statement) ++
          rest ∧
      Declares rest "export default function " v.className := by
  subst hfile
  obtain ⟨interface, hcontent, hinterface⟩ :=
    content_componentModule env v template stylePath helpersImport rfl rfl
  rw [hcontent]
  generalize (transform env false template).value = t
  obtain ⟨params, hparams⟩ := exists_parameterText_eq v t
  obtain ⟨own, hown⟩ := exists_componentImports_eq v t
    (if v.isIsland then assignedInputs v.model v.inputs else []) env.aliasName stylePath
    helpersImport
  obtain ⟨gap, hgap, hstarts⟩ := exists_header_eq (own ++ t.imports.map TagImport.statement)
  rw [hown, hgap]
  generalize hfunction : functionText _ _ _ = function
  have hdeclares : Declares function "export default function " v.className := by
    rw [← hfunction, hparams]
    exact declares_functionText _ _ params _ _
  refine ⟨own, gap ++ (interface ++ (function ++ "\n")), by simp only [String.append_assoc], ?_⟩
  exact declares_prepend hstarts (declares_prepend hinterface (declares_append hdeclares _))

end

/-- **Which modules declare a name twice through their component imports.** The imports of a
template declare the components that its tags name, one for each tag, and these names are distinct
exactly if no two tags are the same component; tags that are all written in one way never are. A
component's module has the imports of components before its function, and the names of both are
distinct exactly if, moreover, no tag is the component itself. -/
theorem component_bindings (env : Environment) :
    (∀ inLayout template,
      (transform env inLayout template).value.importedNames =
          (usedTags env.known template).map jsxName ∧
        ((transform env inLayout template).value.importedNames.Nodup ↔
          ¬Confused (usedTags env.known template)) ∧
        (WrittenAlike (usedTags env.known template) →
          (transform env inLayout template).value.importedNames.Nodup)) ∧
    ∀ v stylePath helpersImport file,
      (component env v stylePath helpersImport).value = .ok file →
      ∃ template own rest, serviceReferences v.template v.model.dependencies = .ok template ∧
        file.content =
          lines (own ++ (transform env false template).value.imports.map TagImport.statement) ++
            rest ∧
        Declares rest "export default function " v.className ∧
        ((v.className :: (transform env false template).value.importedNames).Nodup ↔
          ¬Confused (usedTags env.known template) ∧
            ∀ tag ∈ usedTags env.known template, jsxName tag ≠ v.className) := by
  refine ⟨fun inLayout template => ⟨importedNames_transform env inLayout template,
    nodup_importedNames_iff env inLayout template, fun halike => ?_⟩, ?_⟩
  · rw [nodup_importedNames_iff]
    exact not_confused_of_writtenAlike halike
  · intro v stylePath helpersImport file hfile
    obtain ⟨template, htemplate, hmodule⟩ := component_eq_ok hfile
    obtain ⟨own, rest, hcontent, hdeclares⟩ := content_component hmodule
    refine ⟨template, own, rest, htemplate, hcontent, hdeclares, ?_⟩
    rw [List.nodup_cons, nodup_importedNames_iff, and_comm, importedNames_transform]
    simp only [List.mem_map, not_exists, not_and]

/-! ### Two spellings of one component, and a component that shows itself -/

/-- Both ways to write one component. -/
def cardTemplate : String := "<my-card/><MyCard/>"

/-- The only known component is a card. -/
def cardEnvironment : Environment := { known := [⟨"MyCard", false⟩] }

/-- A template that shows a node of a tree again. -/
def treeTemplate : String := "<tree-node *if=\"open\"/>"

/-- A component that shows itself. -/
def treeNode : View := bareView "tree-node" (.component { className := "TreeNode" }) treeTemplate

/-- The only known component is the one that shows itself. -/
def treeEnvironment : Environment := { known := [⟨"TreeNode", false⟩] }

theorem usedTags_cardTemplate :
    usedTags cardEnvironment.known cardTemplate = ["my-card", "MyCard"] := by
  have htags : (Template.parseTemplate cardTemplate).document.nodes.filterMap Template.Node.tag? =
      ["my-card", "MyCard"] := by
    decide +kernel
  rw [usedTags, customTags, htags]
  decide

theorem usedTags_treeTemplate : usedTags treeEnvironment.known treeTemplate = ["tree-node"] := by
  have htags : (Template.parseTemplate treeTemplate).document.nodes.filterMap Template.Node.tag? =
      ["tree-node"] := by
    decide +kernel
  rw [usedTags, customTags, htags]
  decide

theorem exists_component_treeNode :
    ∃ file, (component treeEnvironment treeNode).value = .ok file :=
  ⟨_, rfl⟩

/-- The function of a component that shows itself and one of its imports have the same name. -/
theorem component_bindings_treeNode :
    ∃ file, (component treeEnvironment treeNode).value = .ok file ∧
      ∃ own rest, file.content = lines (own ++
          (transform treeEnvironment false treeTemplate).value.imports.map TagImport.statement) ++
            rest ∧
        Declares rest "export default function " "TreeNode" ∧
        ¬("TreeNode" ::
          (transform treeEnvironment false treeTemplate).value.importedNames).Nodup := by
  obtain ⟨file, hfile⟩ := exists_component_treeNode
  obtain ⟨template, own, rest, htemplate, hcontent, hdeclares, hnodup⟩ :=
    (component_bindings treeEnvironment).2 treeNode none none file hfile
  obtain rfl : treeTemplate = template := Except.ok.inj htemplate
  refine ⟨file, hfile, own, rest, hcontent, hdeclares, fun h => (hnodup.mp h).2 "tree-node" ?_ ?_⟩
  · rw [usedTags_treeTemplate]
    exact List.mem_singleton_self _
  · decide

/-- Names that are declared twice, although each known component has a name of its own. -/
theorem repeated_bindings :
    ((cardEnvironment.known.map (·.className)).Nodup ∧
      ¬(transform cardEnvironment false cardTemplate).value.importedNames.Nodup) ∧
    (treeEnvironment.known.map (·.className)).Nodup ∧
      (∃ file, (component treeEnvironment treeNode).value = .ok file) ∧
      treeNode.className ∈
        (transform treeEnvironment false treeNode.template).value.importedNames := by
  refine ⟨⟨List.nodup_singleton _, ?_⟩, List.nodup_singleton _, exists_component_treeNode, ?_⟩
  · rw [importedNames_transform, usedTags_cardTemplate]
    decide
  · rw [importedNames_transform, show treeNode.template = treeTemplate from rfl,
      usedTags_treeTemplate]
    decide

end Trellis.Output
