import Trellis.Proofs.Output.Capture

/-!
# Order of constants

Fields, getters and methods of a class can ask for each other in any order: what a getter asks for
is looked up when it is read. In a function that runs on the server a getter is a constant, and its
code runs where the constant is declared; what it asks for has to be declared before.

* `Tree.evaluated` are the members of `this` that code asks for where it stands, and not in a
  function inside of it.
* `memberConstants` are the constants that a function on the server has for the members of its
  class: fields first, if it is no page, then getters, then methods.
* `DeclaredFirst` says that a getter evaluates no member whose constant is declared later, or not at
  all.
* `server_order`: that is so exactly if every getter asks for nothing but fields, in a component,
  and getters that stand before it in the class.
-/

namespace Trellis.TypeScript

/-! ## Evaluated members -/

/-- The code in such a node runs later, if it does: in functions, in methods, and in the fields and
blocks of a class. -/
def Kind.isDeferred : Kind → Bool
  | .function | .method _ _ | .field _ _ | .signature => true
  | _ => false

/-- What is evaluated with a node whose code runs later: its name and its decorators. -/
def Kind.isHead : Kind → Bool
  | .name | .decorator => true
  | _ => false

namespace Tree

mutual

/-- The nodes of the form `this.name` that are evaluated with a node, in source order. Nothing in a
type is. -/
def evaluated : Tree → List Tree
  | .node k a b cs =>
    if k = .type ∨ k = .typeClause then []
    else if (thisName? (.node k a b cs)).isSome then [.node k a b cs]
    else evaluatedOf k.isDeferred cs

/-- The nodes of the form `this.name` that are evaluated with a list of nodes, whose code runs later
or not. -/
def evaluatedOf (deferred : Bool) : List Tree → List Tree
  | [] => []
  | t :: ts =>
    (if deferred && !t.kind.isHead then [] else t.evaluated) ++ evaluatedOf deferred ts

end

/-- The names of the members of `this` that are evaluated with a node, in source order. -/
def evaluatedNames (t : Tree) : List Tree := t.evaluated.filterMap thisName?

mutual

/-- What is evaluated is there. -/
theorem evaluated_sublist : ∀ t : Tree, List.Sublist t.evaluated t.thisMembers
  | .node k a b cs => by
    rw [evaluated, thisMembers]
    split
    · exact List.nil_sublist _
    · split
      · exact List.Sublist.refl _
      · exact evaluatedOf_sublist k.isDeferred cs

theorem evaluatedOf_sublist (deferred : Bool) :
    ∀ ts : List Tree, List.Sublist (evaluatedOf deferred ts) (thisMembersOf ts)
  | [] => List.Sublist.refl _
  | t :: ts => by
    rw [evaluatedOf, thisMembersOf]
    refine List.Sublist.append ?_ (evaluatedOf_sublist deferred ts)
    split
    · exact List.nil_sublist _
    · exact evaluated_sublist t

end

end Tree

end Trellis.TypeScript

namespace Trellis.Output

open Trellis.Build
open Trellis.Jsx
open Trellis.Project
open Trellis.Text
open Trellis.TypeScript

/-! ## Constants of members -/

/-- The code that runs where the constant of a getter is declared: what its body returns, or the
body as a function that is run at once. -/
def initialiser? (s : Source) (f : Tree) : Option Tree :=
  (s.bodyOf f).returned?.or (f.child? .block)

/-- The members of `this` that are evaluated where the constant of a getter is declared. -/
def initialMembers (s : Source) (f : Tree) : List String :=
  (((initialiser? s f).map Tree.evaluatedNames).getD []).map s.textOf

/-- The constant of a member: the name of the member, its line, and the members that its value asks
for where it is declared. -/
structure MemberConstant where
  member : String
  line : String
  reads : List String

/-- The constants of the fields of a component. The function of a page has none. -/
def fieldConstants (v : View) : List MemberConstant :=
  if v.kind = .route then []
  else v.model.state.map fun p => ⟨p.name, stateConstant p, []⟩

/-- The constant of a getter. -/
def getterConstant (v : View) (f : Tree) : MemberConstant :=
  ⟨v.source.memberName f, plainGetter (serverNames v.model) (v.source.getterOf f),
    initialMembers v.source f⟩

/-- The constant of a method is a function, which asks for nothing before it is called. -/
def methodConstant (v : View) (f : Tree) : MemberConstant :=
  ⟨v.source.memberName f, plainMethod (serverNames v.model) (v.source.methodOf f), []⟩

/-- The constants that a function on the server has for the members of its class, in order. -/
def memberConstants (v : View) : List MemberConstant :=
  fieldConstants v ++ v.getterTrees.map (getterConstant v) ++ (pageMethods v).map (methodConstant v)

/-- The fields, getters and methods of a class. -/
def ownMembers (c : ClassModel) : List String :=
  c.state.map (·.name) ++ c.getters.map (·.name) ++ c.methods.map (·.name)

/-- The constants of all other members that a constant asks for are declared before it. -/
def DeclaredFirst (v : View) : Prop :=
  ∀ before c after, memberConstants v = before ++ c :: after →
    ∀ m ∈ c.reads, m ∈ ownMembers v.model → m ≠ c.member → m ∈ before.map (·.member)

/-- The same, from the first constant to the last: `seen` are the members that have their constants
already. -/
def inOrder (own : List String) : List String → List MemberConstant → Bool
  | _, [] => true
  | seen, c :: cs =>
    c.reads.all (fun m => !own.contains m || m == c.member || seen.contains m) &&
      inOrder own (seen ++ [c.member]) cs

theorem inOrder_iff (own seen : List String) (cs : List MemberConstant) :
    inOrder own seen cs = true ↔
      ∀ before c after, cs = before ++ c :: after →
        ∀ m ∈ c.reads, m ∈ own → m ≠ c.member → m ∈ seen ++ before.map (·.member) := by
  induction cs generalizing seen with
  | nil => simp [inOrder]
  | cons c cs ih =>
    have hhead : (c.reads.all fun m => !own.contains m || m == c.member || seen.contains m) = true ↔
        ∀ m ∈ c.reads, m ∈ own → m ≠ c.member → m ∈ seen := by
      rw [List.all_eq_true]
      refine forall₂_congr fun m _ => ?_
      by_cases hown : m ∈ own <;> by_cases hm : m = c.member <;> simp [hown, hm]
    rw [inOrder, Bool.and_eq_true, hhead, ih]
    constructor
    · rintro ⟨hfirst, hrest⟩ before d after hsplit m hm hown hne
      cases before with
      | nil =>
        obtain ⟨rfl, rfl⟩ := List.cons.inj hsplit
        exact List.mem_append_left _ (hfirst m hm hown hne)
      | cons b before =>
        obtain ⟨rfl, rfl⟩ := List.cons.inj hsplit
        have hmem := hrest before d after rfl m hm hown hne
        rwa [List.append_assoc] at hmem
    · intro h
      refine ⟨fun m hm hown hne => ?_, fun before d after hsplit m hm hown hne => ?_⟩
      · simpa using h [] c cs rfl m hm hown hne
      · have hmem := h (c :: before) d after (by rw [hsplit]; rfl) m hm hown hne
        rwa [List.append_assoc]

instance (v : View) : Decidable (DeclaredFirst v) :=
  decidable_of_iff (inOrder (ownMembers v.model) [] (memberConstants v) = true) (inOrder_iff _ _ _)

/-- The module of a component that runs on the server, or of a page. -/
inductive ServerModule (env : Environment) (v : View) : File → Prop
  | component {stylePath helpersImport : Option String} {file : File} : v.kind = .component →
    v.isIsland = false → (component env v stylePath helpersImport).value = .ok file →
    ServerModule env v file
  | page {helpersImport : Option String} {file : File} : v.kind = .route →
    (page env v helpersImport).value = .ok file → ServerModule env v file

/-- The lines of these constants. -/
theorem lines_memberConstants (v : View) :
    (memberConstants v).map (·.line) = (fieldConstants v).map (·.line) ++
      (v.model.getters.map (plainGetter (serverNames v.model)) ++
        (v.model.methods.filter (!·.isLifecycle)).map (plainMethod (serverNames v.model))) := by
  have hgetters : (v.getterTrees.map (getterConstant v)).map (·.line) =
      v.model.getters.map (plainGetter (serverNames v.model)) := by
    rw [v.getters_model, List.map_map, List.map_map]
    rfl
  have hmethods : ((pageMethods v).map (methodConstant v)).map (·.line) =
      (v.model.methods.filter (!·.isLifecycle)).map (plainMethod (serverNames v.model)) := by
    rw [methods_page, List.map_map, List.map_map]
    rfl
  rw [memberConstants, List.map_append, List.map_append, hgetters, hmethods, List.append_assoc]

theorem exists_componentBody_server {v : View} (hkind : v.kind = .component)
    (hserver : v.isIsland = false) (t : Transformed) (signals : List Input) :
    ∃ setup, componentBody v t signals = setup ++ (memberConstants v).map (·.line) := by
  have hfields : (fieldConstants v).map (·.line) = v.model.state.map stateConstant := by
    rw [fieldConstants, if_neg (by simp [hkind]), List.map_map]
    rfl
  rw [lines_memberConstants, hfields, componentBody]
  simp only [hserver, Bool.false_eq_true, if_false, serverBody, serverMembers, serverNames,
    List.append_assoc]
  simp only [← List.append_assoc]
  exact ⟨_, rfl⟩

/-- **The lines of a function on the server** end with the constants of its members. -/
theorem content_serverModule {env : Environment} {v : View} {file : File}
    (h : ServerModule env v file) :
    ∃ top head setup returned bottom, file.content =
      top ++ functionText head (setup ++ (memberConstants v).map (·.line)) returned ++ bottom := by
  cases h with
  | @component stylePath helpersImport _ hkind hserver hfile =>
    obtain ⟨template, -, rfl⟩ := component_eq_ok hfile
    obtain ⟨interface, hcontent, -⟩ :=
      content_componentModule env v template stylePath helpersImport rfl rfl
    obtain ⟨setup, hsetup⟩ := exists_componentBody_server hkind hserver
      (transform env false template).value
      (if v.isIsland then assignedInputs v.model v.inputs else [])
    rw [hsetup] at hcontent
    exact ⟨_, _, _, _, _, hcontent⟩
  | page hroute hfile =>
    obtain ⟨top, hcontent⟩ := content_page hfile
    have hfields : (fieldConstants v).map (·.line) = [] := by
      rw [fieldConstants, if_pos hroute]
      rfl
    have hlines := lines_memberConstants v
    rw [hfields, List.nil_append] at hlines
    rw [pageLines, List.append_assoc, ← hlines] at hcontent
    exact ⟨_, _, _, _, _, hcontent⟩

/-! ## Order -/

/-- Each line declares a constant that has the name of its member. -/
theorem declaredBy_of_mem {v : View} {c : MemberConstant} (h : c ∈ memberConstants v) :
    DeclaredBy c.member c.line := by
  rw [memberConstants, List.mem_append, List.mem_append] at h
  rcases h with (h | h) | h
  · rw [fieldConstants] at h
    split at h
    · cases h
    · obtain ⟨p, -, rfl⟩ := List.mem_map.mp h
      exact ⟨_, rfl⟩
  · obtain ⟨f, -, rfl⟩ := List.mem_map.mp h
    exact declaredBy_plainGetter _ (v.source.getterOf f)
  · obtain ⟨f, -, rfl⟩ := List.mem_map.mp h
    exact declaredBy_plainMethod _ (v.source.methodOf f)

/-- What a getter asks for where it is declared is written there by its name. -/
theorem spellings_initialMembers (s : Source) (resolve : String → String) (f t : Tree)
    (h : initialiser? s f = some t) :
    List.Sublist ((initialMembers s f).map resolve) (s.spellings resolve t) := by
  rw [initialMembers, h, s.spellings_eq]
  change List.Sublist (((t.evaluatedNames).map s.textOf).map resolve) _
  rw [List.map_map]
  exact (t.evaluated_sublist.filterMap _).map _

/-- An element that is in the middle part only is reached after all of the first part. -/
theorem exists_split_middle {α : Type} {first middle last before after : List α} {x : α}
    (h : first ++ middle ++ last = before ++ x :: after) (hfirst : x ∉ first) (hlast : x ∉ last) :
    ∃ start rest, before = first ++ start ∧ middle = start ++ x :: rest := by
  rw [List.append_assoc] at h
  rcases List.append_eq_append_iff.mp h with ⟨start, rfl, hrest⟩ | ⟨part, rfl, hrest⟩
  · rcases List.append_eq_append_iff.mp hrest with ⟨more, rfl, hmore⟩ | ⟨part, rfl, hpart⟩
    · exact absurd (hmore ▸ List.mem_append_right _ List.mem_cons_self) hlast
    · cases part with
      | nil => exact absurd (List.nil_append last ▸ hpart ▸ List.mem_cons_self) hlast
      | cons y part =>
        obtain ⟨rfl, -⟩ := List.cons.inj hpart
        exact ⟨start, part, rfl, rfl⟩
  · cases part with
    | nil =>
      rw [List.nil_append] at hrest
      cases middle with
      | nil => exact absurd (List.nil_append last ▸ hrest ▸ List.mem_cons_self) hlast
      | cons y middle =>
        obtain ⟨rfl, -⟩ := List.cons.inj hrest
        exact ⟨[], middle, by simp, rfl⟩
    | cons y part =>
      obtain ⟨rfl, -⟩ := List.cons.inj hrest
      exact absurd (List.mem_append_right _ List.mem_cons_self) hfirst

/-- **Constants are declared in an order that works** exactly if every getter asks for nothing but
fields, if the function has them, and getters that stand before it. -/
theorem declaredFirst_iff (v : View) :
    DeclaredFirst v ↔
      ∀ before f after, v.getterTrees = before ++ f :: after →
        ∀ m ∈ initialMembers v.source f, m ∈ ownMembers v.model → m ≠ v.source.memberName f →
          (v.kind ≠ .route ∧ m ∈ v.model.state.map (·.name)) ∨
            m ∈ before.map v.source.memberName := by
  have hfields : ∀ m, m ∈ (fieldConstants v).map (·.member) ↔
      v.kind ≠ .route ∧ m ∈ v.model.state.map (·.name) := by
    intro m
    rw [fieldConstants]
    by_cases hkind : v.kind = .route
    · simp [hkind]
    · simp [hkind]
  constructor
  · intro h before f after hsplit m hm hown hne
    have hconstants : memberConstants v = fieldConstants v ++ before.map (getterConstant v) ++
        getterConstant v f :: (after.map (getterConstant v) ++
          (pageMethods v).map (methodConstant v)) := by
      simp [memberConstants, hsplit]
    have hmem := h _ _ _ hconstants m hm hown hne
    rw [List.map_append, List.mem_append, hfields, List.map_map] at hmem
    exact hmem
  · intro h before c after hsplit m hm hown hne
    have hfirst : c ∉ fieldConstants v := by
      intro hc
      rw [fieldConstants] at hc
      split at hc
      · cases hc
      · obtain ⟨p, -, rfl⟩ := List.mem_map.mp hc
        cases hm
    have hlast : c ∉ (pageMethods v).map (methodConstant v) := by
      intro hc
      obtain ⟨f, -, rfl⟩ := List.mem_map.mp hc
      cases hm
    obtain ⟨start, rest, rfl, hgetters⟩ := exists_split_middle hsplit hfirst hlast
    obtain ⟨fs, gs, htrees, rfl, hgs⟩ := List.map_eq_append_iff.mp hgetters
    obtain ⟨f, gs, rfl, rfl, -⟩ := List.map_eq_cons_iff.mp hgs
    rw [List.map_append, List.mem_append, hfields, List.map_map]
    exact h fs f gs htrees m hm hown hne

/-- How the constants of members are written, and when their order works. -/
structure ServerOrder (v : View) : Prop where
  /-- Each line declares a constant that has the name of its member. -/
  declared : ∀ c ∈ memberConstants v, DeclaredBy c.member c.line
  /-- The value of a getter's constant is the code that its body returns, or its body as a function
  that is run at once. -/
  initial : ∀ f ∈ v.getterTrees, ∀ t, initialiser? v.source f = some t →
    let code := v.source.render (some (serverNames v.model).apply) t
    (getterConstant v f).line = constant (v.source.memberName f) (stripBindThis code) ∨
      (getterConstant v f).line = constant (v.source.memberName f)
        ("(() => " ++ block (stripBindThis (dedentBlock code)) ++ ")()")
  /-- What a getter asks for where its constant is declared is written there by its name. -/
  written : ∀ f ∈ v.getterTrees, ∀ t, initialiser? v.source f = some t →
    List.Sublist ((getterConstant v f).reads.map (serverNames v.model).apply)
      (v.source.spellings (serverNames v.model).apply t)
  /-- The order works exactly if getters ask for nothing but fields, if the function has them, and
  getters that stand before them. -/
  first : DeclaredFirst v ↔
    ∀ before f after, v.getterTrees = before ++ f :: after →
      ∀ m ∈ initialMembers v.source f, m ∈ ownMembers v.model → m ≠ v.source.memberName f →
        (v.kind ≠ .route ∧ m ∈ v.model.state.map (·.name)) ∨ m ∈ before.map v.source.memberName

theorem line_getterConstant {v : View} {f t : Tree} (h : initialiser? v.source f = some t) :
    let code := v.source.render (some (serverNames v.model).apply) t
    (getterConstant v f).line = constant (v.source.memberName f) (stripBindThis code) ∨
      (getterConstant v f).line = constant (v.source.memberName f)
        ("(() => " ++ block (stripBindThis (dedentBlock code)) ++ ")()") := by
  have hbody : (v.source.getterOf f).body = v.source.bodyOf f := rfl
  rw [initialiser?] at h
  unfold getterConstant plainGetter bodyExpression? FunctionBody.expression?
  rw [hbody]
  cases hreturned : (v.source.bodyOf f).returned? with
  | some e =>
    rw [hreturned] at h
    cases h
    exact .inl rfl
  | none =>
    rw [hreturned, Option.none_or] at h
    refine .inr ?_
    unfold bodyText FunctionBody.text Source.bodyOf
    rw [h]
    rfl

theorem serverOrder (v : View) : ServerOrder v where
  declared _ := declaredBy_of_mem
  initial _ _ _ := line_getterConstant
  written f _ t := spellings_initialMembers v.source (serverNames v.model).apply f t
  first := declaredFirst_iff v

/-- **Order on the server.** The function of every component that runs on the server, and of every
page, ends with the constants of its members, fields before getters before methods. No getter asks
for a member whose constant comes later, or not at all, exactly if every getter asks for nothing but
fields, which pages do not have, and getters that stand before it in the class. -/
theorem server_order {env : Environment} {v : View} {file : File} (h : ServerModule env v file) :
    (∃ top head setup returned bottom, file.content =
      top ++ functionText head (setup ++ (memberConstants v).map (·.line)) returned ++ bottom) ∧
    ServerOrder v :=
  ⟨content_serverModule h, serverOrder v⟩

/-! ### Getters in an order that works, and in one that does not -/

/-- A component on the server whose getters ask for a field and for the getter before them. -/
def invoiceView : View :=
  ⟨.ofString "invoice", "invoice", .component { className := "Invoice", island := some false },
    .ofString ("@Component(\x7b template: \"./x.html\", island: false \x7d)\n" ++
      "export class Invoice " ++
      "\x7b rate = 2; get net() \x7b return this.rate * 3; \x7d " ++
      "get total() \x7b return this.net + this.rate; \x7d \x7d"),
    titleTemplate, "mod.ts"⟩

/-- A component on the server whose first getter asks for the second one and for a method. -/
def billView : View :=
  ⟨.ofString "bill", "bill", .component { className := "Bill", island := some false },
    .ofString ("@Component(\x7b template: \"./x.html\", island: false \x7d)\n" ++
      "export class Bill " ++
      "\x7b rate = 2; get total() \x7b return this.net() * this.factor; \x7d " ++
      "get factor() \x7b return this.rate; \x7d net() \x7b return 3; \x7d \x7d"),
    titleTemplate, "mod.ts"⟩

theorem exists_serverModule {v : View} (hkind : v.kind = .component) (hserver : v.isIsland = false)
    (hservices : v.model.dependencies = []) : ∃ file, ServerModule {} v file := by
  have hfile : ∃ file, (component {} v).value = .ok file := by
    rw [component, hservices]
    exact ⟨_, rfl⟩
  exact hfile.imp fun _ => .component hkind hserver

theorem order_invoiceView :
    invoiceView.model.dependencies = [] ∧ DeclaredFirst invoiceView := by
  decide +kernel

/-- The first order works. -/
theorem server_order_invoiceView :
    ∃ file, ServerModule {} invoiceView file ∧ ServerOrder invoiceView ∧
      DeclaredFirst invoiceView := by
  obtain ⟨hservices, hfirst⟩ := order_invoiceView
  obtain ⟨file, hfile⟩ := exists_serverModule (v := invoiceView) rfl rfl hservices
  exact ⟨file, hfile, (server_order hfile).2, hfirst⟩

theorem order_billView :
    billView.model.dependencies = [] ∧
      (memberConstants billView).map (fun c => (c.member, c.reads)) =
        [("rate", []), ("total", ["net", "factor"]), ("factor", ["rate"]), ("net", [])] ∧
      ¬DeclaredFirst billView := by
  decide +kernel

/-- The second one does not: the first getter runs before what it asks for is declared. -/
theorem not_declaredFirst_billView :
    (∃ file, ServerModule {} billView file) ∧
      (memberConstants billView).map (fun c => (c.member, c.reads)) =
        [("rate", []), ("total", ["net", "factor"]), ("factor", ["rate"]), ("net", [])] ∧
      ¬DeclaredFirst billView :=
  ⟨exists_serverModule rfl rfl order_billView.1, order_billView.2⟩

end Trellis.Output
