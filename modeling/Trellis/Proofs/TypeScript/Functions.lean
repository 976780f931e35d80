import Mathlib.Data.List.Basic
import Trellis.Project.View

/-!
# Functions of a class

The model of a class keeps the texts of its methods and getters; what they bind is only in the tree
of the source. Here the methods and getters of a model are led back to the trees they were read
from, and the names that such a function binds are read off its tree.

* `methods_modelOf` and `getters_modelOf`: a model has one method for each method of the class but
  the constructor, and one getter for each getter, in order.
* `Source.localNames` are the names that a function binds: its parameters, and all that its body
  declares at any depth.
* `spellings_eq`: what is put in the place of each `this.member`, in source order.
-/

namespace Trellis.TypeScript

/-! ## Methods and getters -/

/-- The members in the body of a class. -/
def ClassDeclaration.members (d : ClassDeclaration) : List Tree :=
  ((d.tree.child? .classBody).map Tree.children).getD []

namespace Source

variable (s : Source)

/-- The tree is a method that is no constructor, getter or setter. -/
def isMethod (t : Tree) : Bool :=
  match t.kind with
  | .method .plain _ => s.memberName t != "constructor"
  | _ => false

/-- The tree is a getter. -/
def isGetter (t : Tree) : Bool :=
  match t.kind with
  | .method .getter _ => true
  | _ => false

/-- The function is asynchronous. -/
def isAsync (t : Tree) : Bool :=
  match t.kind with
  | .method _ flag => flag
  | _ => false

/-- The body of a function. -/
def bodyOf (t : Tree) : FunctionBody := ⟨s, t.child? .block⟩

/-- The method that is read from a tree. -/
def methodOf (t : Tree) : Method :=
  ⟨s.memberName t, s.paramsOf t, s.bodyOf t, isAsync t, s.decoratorsOf t⟩

/-- The getter that is read from a tree. -/
def getterOf (t : Tree) : Getter := ⟨s.memberName t, s.bodyOf t, s.typeIn (t.child? .typeClause)⟩

/-- A member adds to the methods if it is one. -/
theorem methods_addMember (c : ClassModel) (t : Tree) :
    (s.addMember c t).methods = c.methods ++ if s.isMethod t then [s.methodOf t] else [] := by
  rw [addMember, isMethod]
  cases hkind : t.kind with
  | method role flag =>
    cases role with
    | plain =>
      have hmethod : s.methodOf t =
          ⟨s.memberName t, s.paramsOf t, ⟨s, t.child? .block⟩, flag, s.decoratorsOf t⟩ := by
        rw [methodOf, isAsync, hkind]
        rfl
      by_cases hname : s.memberName t = "constructor"
      · simp [hname]
      · simp [hname, hmethod]
    | getter => simp
    | setter => simp
  | _ => simp

/-- A member adds to the getters if it is one. -/
theorem getters_addMember (c : ClassModel) (t : Tree) :
    (s.addMember c t).getters = c.getters ++ if isGetter t then [s.getterOf t] else [] := by
  rw [addMember, isGetter]
  cases hkind : t.kind with
  | method role flag =>
    cases role with
    | plain =>
      by_cases hname : s.memberName t = "constructor"
      · simp [hname]
      · simp [hname]
    | getter => rfl
    | setter => simp
  | _ => simp

/-- What each step adds at the end is all there is at the end. -/
theorem foldl_addMember {α : Type} (part : ClassModel → List α) (p : Tree → Bool) (f : Tree → α)
    (hstep : ∀ c t, part (s.addMember c t) = part c ++ if p t then [f t] else [])
    (members : List Tree) (c : ClassModel) :
    part (members.foldl s.addMember c) = part c ++ (members.filter p).map f := by
  induction members generalizing c with
  | nil => simp
  | cons t ts ih =>
    rw [List.foldl_cons, ih, hstep, List.append_assoc, List.filter_cons]
    split
    · rfl
    · rfl

/-- The methods of a model are those of its class, in order. -/
theorem methods_modelOf (d : ClassDeclaration) :
    (s.modelOf d).methods = (d.members.filter s.isMethod).map s.methodOf :=
  s.foldl_addMember _ _ _ s.methods_addMember d.members _

theorem getters_modelOf (d : ClassDeclaration) :
    (s.modelOf d).getters = (d.members.filter isGetter).map s.getterOf :=
  s.foldl_addMember _ _ _ s.getters_addMember d.members _

/-! ## Binders -/

mutual

/-- The names that a pattern binds. -/
def patternNames : Tree → List String
  | .node .identifier a b cs => [s.textOf (.node .identifier a b cs)]
  | .node .shorthand _ _ cs => patternNamesOf cs
  | .node .array _ _ cs => patternNamesOf cs
  | .node .object _ _ cs => patternNamesOf cs
  | .node .spread _ _ cs => patternNamesOf cs
  | .node .defaulted _ _ (target :: _) => patternNames target
  | .node .pair _ _ (_ :: values) => patternNamesOf values
  | _ => []

/-- The names that a list of patterns binds. -/
def patternNamesOf : List Tree → List String
  | [] => []
  | t :: ts => patternNames t ++ patternNamesOf ts

end

/-- The names that a node binds by itself: a declared variable, a parameter, or a function or class
with a name. -/
def bindsHere (t : Tree) : List String :=
  match t.kind with
  | .declarator => (t.content.head?.map s.patternNames).getD []
  | .parameter => ((bindingOf? t).map s.patternNames).getD []
  | .function => ((t.child? .name).map s.textOf).toList
  | .classDeclaration => ((t.child? .name).map s.textOf).toList
  | .classExpression => ((t.child? .name).map s.textOf).toList
  | _ => []

/-- A function that is only announced: it has nothing but a name, parameters and types. -/
def isAnnounced : Kind → List Tree → Bool
  | .signature, _ => true
  | .function, cs => cs.all fun t =>
    [.name, .parameters, .type, .typeClause, .comment].contains t.kind
  | _, _ => false

mutual

/-- The names that are bound in a node, at any depth. Types bind none, and neither do the parameters
of a function that is only announced. -/
def boundNames : Tree → List String
  | .node k a b cs =>
    if k = .type ∨ k = .typeClause then []
    else bindsHere s (.node k a b cs) ++ boundNamesOf (!isAnnounced k cs) cs

/-- The names that are bound in a list of nodes, with or without their parameters. -/
def boundNamesOf (withParameters : Bool) : List Tree → List String
  | [] => []
  | t :: ts =>
    (if t.kind = .parameters ∧ withParameters = false then [] else boundNames t) ++
      boundNamesOf withParameters ts

end

/-- The names of the parameters of a function. -/
def parameterNames (t : Tree) : List String :=
  (((t.child? .parameters).map Tree.content).getD []).flatMap s.bindsHere

/-- The names that a function binds: its parameters, and what its body declares. -/
def localNames (t : Tree) : List String :=
  s.parameterNames t ++ ((t.child? .block).map s.boundNames).getD []

/-! ## Members of `this` -/

/-- The members of `this` that the parameters of a function use. -/
def parameterMembers (t : Tree) : List String :=
  (((t.child? .parameters).map Tree.thisNames).getD []).map s.textOf

/-- The members of `this` that the body of a function uses. -/
def bodyMembers (t : Tree) : List String := (s.bodyOf t).thisMembers

/-- What is put in the place of each member of `this`, in source order. -/
def spellings (resolve : String → String) (t : Tree) : List String :=
  (s.editsOf resolve t).map fun e => String.ofList e.text

theorem spellings_eq (resolve : String → String) (t : Tree) :
    s.spellings resolve t = t.thisNames.map fun n => resolve (s.textOf n) := by
  rw [spellings, editsOf, Tree.thisNames, List.map_filterMap, List.map_filterMap]
  refine List.filterMap_congr fun m _ => ?_
  cases m.thisName? with
  | none => rfl
  | some name => exact congrArg some String.ofList_toList

/-- A body is written with the names of the members that it uses. -/
theorem spellings_block {resolve : String → String} {t block : Tree}
    (h : t.child? .block = some block) :
    s.spellings resolve block = (s.bodyMembers t).map resolve := by
  rw [spellings_eq, bodyMembers, FunctionBody.thisMembers, bodyOf, h, List.map_map]
  rfl

theorem thisMembersOf_subset {t : Tree} {ts : List Tree} (h : t ∈ ts) :
    t.thisMembers ⊆ Tree.thisMembersOf ts := by
  induction ts with
  | nil => cases h
  | cons u us ih =>
    rw [Tree.thisMembersOf]
    rcases List.mem_cons.mp h with rfl | h
    · exact List.subset_append_left _ _
    · exact List.subset_append_of_subset_right _ (ih h)

/-- What is put in a child is put in the node too, unless the node is a `this.member` itself. -/
theorem spellings_subset (resolve : String → String) {t child : Tree} (h : child ∈ t.children)
    (hkind : t.kind ≠ .member) : s.spellings resolve child ⊆ s.spellings resolve t := by
  obtain ⟨k, a, b, cs⟩ := t
  have hname : Tree.thisName? (.node k a b cs) = none := by
    rw [Tree.thisName?]
    intro _ _ _ _ _ _ _ hnode
    exact hkind (congrArg Tree.kind hnode)
  have hnode : Tree.thisMembers (.node k a b cs) = Tree.thisMembersOf cs := by
    rw [Tree.thisMembers, hname]
    rfl
  rw [spellings, spellings, editsOf, editsOf, hnode]
  exact List.map_subset _ (List.filterMap_subset _ (thisMembersOf_subset h))

/-- What a body of a single `return` returns is in its block. -/
theorem returned?_eq_some {b : FunctionBody} {e : Tree} (h : b.returned? = some e) :
    ∃ block statement, b.block = some block ∧ statement ∈ block.children ∧
      statement.kind = .returnStatement ∧ e ∈ statement.children := by
  rw [FunctionBody.returned?] at h
  split at h
  · next statement hstatements =>
    split at h
    · next hkind =>
      have hmem : statement ∈ b.statements := by simp [hstatements]
      rw [FunctionBody.statements] at hmem
      cases hblock : b.block with
      | none =>
        rw [hblock] at hmem
        cases hmem
      | some block =>
        rw [hblock] at hmem
        exact ⟨block, statement, rfl, List.mem_of_mem_filter hmem, eq_of_beq hkind,
          List.mem_of_mem_filter (List.mem_of_head? h)⟩
    · cases h
  · cases h

/-- An expression that stands for a whole body is written with names of the members that the body
uses. -/
theorem spellings_returned {resolve : String → String} {t e : Tree}
    (h : (s.bodyOf t).returned? = some e) :
    s.spellings resolve e ⊆ (s.bodyMembers t).map resolve := by
  obtain ⟨block, statement, hblock, hstatement, hkind, he⟩ := returned?_eq_some h
  have hfound := List.find?_some (p := fun c : Tree => c.kind == .block) hblock
  have hblockKind : block.kind = .block := eq_of_beq hfound
  rw [← s.spellings_block hblock]
  have hinner : s.spellings resolve e ⊆ s.spellings resolve statement :=
    s.spellings_subset resolve he (by rw [hkind]; nofun)
  have houter : s.spellings resolve statement ⊆ s.spellings resolve block :=
    s.spellings_subset resolve hstatement (by rw [hblockKind]; nofun)
  exact List.Subset.trans hinner houter

end Source

end Trellis.TypeScript

namespace Trellis.Project

open Trellis.TypeScript

namespace View

/-- The members in the class of a view. -/
def members (v : View) : List Tree :=
  ((v.source.mainClass (some v.kind.decorator)).map (·.members)).getD []

/-- The methods in the class of a view. -/
def methodTrees (v : View) : List Tree := v.members.filter v.source.isMethod

/-- The getters in the class of a view. -/
def getterTrees (v : View) : List Tree := v.members.filter Source.isGetter

theorem methods_model (v : View) : v.model.methods = v.methodTrees.map v.source.methodOf := by
  rw [model, Source.classModel, methodTrees, members]
  cases v.source.mainClass (some v.kind.decorator) with
  | none => rfl
  | some d => exact v.source.methods_modelOf d

theorem getters_model (v : View) : v.model.getters = v.getterTrees.map v.source.getterOf := by
  rw [model, Source.classModel, getterTrees, members]
  cases v.source.mainClass (some v.kind.decorator) with
  | none => rfl
  | some d => exact v.source.getters_modelOf d

end View

end Trellis.Project
