import Trellis.Proofs.Build.Links

/-!
# Locals of an island

The function of an island declares a local for each service, property, slot, reference to an
element, field, getter and method. How a local is set up decides how its value is read: a signal
through `value`, a reference through `current`, anything else by its name.

* `Local` is a local and its `Hook`, and `Local.SetBy` says that a line of code declares it so: the
  hook is read off the code.
* `islandLocals` lists the locals of a class with a template.
* `functionText_island`: the lines of an island's function declare these locals, in this order;
  there is nothing else but the effect.
-/

namespace Trellis.Output

open Trellis.Build
open Trellis.Jsx
open Trellis.Project
open Trellis.Text
open Trellis.TypeScript

/-! ## Hooks -/

/-- How a local is set up. -/
inductive Hook where
  /-- A constant. -/
  | plain
  /-- A reference to an element of the page. -/
  | element
  | signal
  deriving DecidableEq, Repr

/-- What stands between a local and its value. -/
def Hook.accessor : Hook → String
  | .plain => ""
  | .element => ".current"
  | .signal => ".value"

/-- The hook in the code of a value. -/
def Hook.ofCode (value : String) : Hook :=
  if hasStart value "useRef" then .element
  else if hasStart value "useSignal" || hasStart value "computed" then .signal
  else .plain

/-- A local of a function. -/
structure Local where
  name : String
  hook : Hook
  deriving DecidableEq, Repr

/-- The line declares the local, by itself or as a field that is taken out of a record, with a value
that has its hook. -/
def Local.SetBy (l : Local) (line : String) : Prop :=
  ∃ value, (line = constant l.name value ∨ line = constant ("\x7b " ++ l.name ++ " \x7d") value) ∧
    Hook.ofCode value = l.hook

theorem ofCode_useSignal (rest : String) : Hook.ofCode ("useSignal" ++ rest) = .signal := by
  simp [Hook.ofCode, hasStart]

theorem ofCode_computed (rest : String) : Hook.ofCode ("computed" ++ rest) = .signal := by
  simp [Hook.ofCode, hasStart]

/-- The names of all hooks start with one of two letters. -/
theorem ofCode_of_head {value : String} {c : Char} (h : value.toList.head? = some c)
    (hu : c ≠ 'u') (hc : c ≠ 'c') : Hook.ofCode value = .plain := by
  obtain ⟨rest, hvalue⟩ := List.head?_eq_some_iff.mp h
  simp [Hook.ofCode, hasStart, hvalue, hu.symm, hc.symm]

/-! ## Locals -/

/-- The locals of an island that are declared before the effect: services, inputs that are only
read, slots, references, fields, inputs that are written, and getters. -/
def islandSetup (c : ClassModel) (t : Transformed) : List Local :=
  let inputs := inputsOf (some c)
  let signals := assignedInputs c inputs
  c.dependencies.map (fun d => ⟨Naming.serviceVariable d.type, .plain⟩) ++
    (inputs.filter (!signals.contains ·)).map (fun i => ⟨i.variableName, .plain⟩) ++
    (slotProps t).map (fun slot => ⟨slot, .plain⟩) ++ t.refs.map (fun r => ⟨r, .element⟩) ++
    c.state.map (fun p => ⟨p.name, .signal⟩) ++ signals.map (fun i => ⟨i.variableName, .signal⟩) ++
    c.getters.map (fun g => ⟨g.name, .signal⟩)

/-- The locals of an island that are declared after the effect. -/
def islandMethods (c : ClassModel) : List Local :=
  (c.methods.filter (!·.isLifecycle)).map fun m => ⟨m.name, .plain⟩

/-- The locals of an island, in the order of their declarations. -/
def islandLocals (c : ClassModel) (t : Transformed) : List Local :=
  islandSetup c t ++ islandMethods c

theorem setBy_constant {l : Local} {value : String} (h : Hook.ofCode value = l.hook) :
    l.SetBy (constant l.name value) :=
  ⟨value, .inl rfl, h⟩

theorem setBy_service (d : Dependency) :
    Local.SetBy ⟨Naming.serviceVariable d.type, .plain⟩
      (constant (Naming.serviceVariable d.type) (serviceGetter d.type ++ "()")) := by
  refine setBy_constant (ofCode_of_head (c := 'g') ?_ (by decide) (by decide))
  simp [serviceGetter]

theorem setBy_unpackLine (i : Input) (default : Option String) :
    Local.SetBy ⟨i.variableName, .plain⟩ (unpackLine "props" i default) := by
  have hplain : ∀ rest : String, Hook.ofCode ("props" ++ rest) = .plain := fun rest =>
    ofCode_of_head (c := 'p') (by simp) (by decide) (by decide)
  rw [unpackLine]
  cases default.filter (!·.isEmpty) with
  | none =>
    refine ⟨"props" ++ ("." ++ i.name.text), .inl ?_, hplain _⟩
    simp only [constant, String.append_assoc]
  | some d =>
    refine ⟨"props" ++ ("." ++ i.name.text ++ " ?? " ++ d), .inl ?_, hplain _⟩
    simp only [constant, String.append_assoc]

theorem setBy_slot (slot : String) :
    Local.SetBy ⟨slot, .plain⟩ (constant ("\x7b " ++ slot ++ " \x7d") "props") :=
  ⟨"props", .inr rfl, rfl⟩

theorem setBy_ref (r : String) :
    Local.SetBy ⟨r, .element⟩ (constant r "useRef<HTMLElement | null>(null)") :=
  setBy_constant rfl

theorem setBy_stateSignal (p : Property) : Local.SetBy ⟨p.name, .signal⟩ (stateSignal p) := by
  rw [stateSignal]
  simp only [String.append_assoc]
  exact setBy_constant (ofCode_useSignal _)

theorem setBy_inputSignal (i : Input) :
    Local.SetBy ⟨i.variableName, .signal⟩ (inputSignal i) := by
  rw [inputSignal]
  simp only [String.append_assoc]
  exact setBy_constant (ofCode_useSignal _)

theorem setBy_getterSignal (r : Renaming) (g : Getter) :
    Local.SetBy ⟨g.name, .signal⟩ (getterSignal r g) := by
  rw [getterSignal]
  simp only [String.append_assoc]
  exact setBy_constant (ofCode_computed _)

theorem setBy_islandMethod (r : Renaming) (m : Method) :
    Local.SetBy ⟨m.name, .plain⟩ (islandMethod r m) := by
  rw [islandMethod]
  apply setBy_constant
  cases h : m.isAsync with
  | true => exact ofCode_of_head (c := 'a') (by simp [methodHead, h]) (by decide) (by decide)
  | false => exact ofCode_of_head (c := '(') (by simp [methodHead, h]) (by decide) (by decide)

/-! ## The text of the function -/

theorem lines_append {ls ms : List String} (hl : ls ≠ []) (hm : ms ≠ []) :
    lines (ls ++ ms) = lines ls ++ "\n" ++ lines ms :=
  String.intercalate_append_of_ne_nil hl hm

/-- A line of a text can be several lines. -/
theorem lines_flatten (before after : List String) {ls : List String} (h : ls ≠ []) :
    lines (before ++ lines ls :: after) = lines (before ++ (ls ++ after)) := by
  have hafter : lines (lines ls :: after) = lines (ls ++ after) := by
    by_cases hempty : after = []
    · rw [hempty, List.append_nil]
      exact String.intercalate_singleton
    · rw [lines_append h hempty]
      exact String.intercalate_cons_of_ne_nil hempty
  by_cases hbefore : before = []
  · rw [hbefore, List.nil_append, List.nil_append, hafter]
  · have hright : ls ++ after ≠ [] := List.append_ne_nil_of_left_ne_nil h _
    rw [lines_append hbefore (List.cons_ne_nil _ _), lines_append hbefore hright, hafter]

/-- The same for the body of a function. -/
theorem functionText_flatten (head returned : String) (before after : List String)
    {ls : List String} (h : ls ≠ []) :
    functionText head (before ++ lines ls :: after) returned =
      functionText head (before ++ (ls ++ after)) returned := by
  rw [functionText, functionText, lines_flatten before after h]
  simp [h]

theorem forall₂_maps {α β γ : Type} {R : β → γ → Prop} {f : α → β} {g : α → γ}
    (h : ∀ a, R (f a) (g a)) (as : List α) : List.Forall₂ R (as.map f) (as.map g) := by
  rw [List.forall₂_map_left_iff, List.forall₂_map_right_iff, List.forall₂_same]
  exact fun a _ => h a

/-- **The lines of an island's function** declare its locals, in order; between them is the effect
that runs when the component comes and goes. -/
theorem functionText_island {v : View} (h : v.isIsland = true) (t : Transformed)
    (head returned : String) {signals : List Input} {r : Renaming}
    (hsignals : signals = assignedInputs v.model v.inputs)
    (hr : r = islandRenaming v.model v.inputs signals t.refs) :
    ∃ setup, functionText head (componentBody v t signals) returned =
        functionText head (setup ++ effectLines (lastBody r initMethods v.model)
          (lastBody r destroyMethods v.model) ++
          (v.model.methods.filter (!·.isLifecycle)).map (islandMethod r)) returned ∧
      List.Forall₂ Local.SetBy (islandSetup v.model t) setup ∧
      List.Forall₂ Local.SetBy (islandMethods v.model)
        ((v.model.methods.filter (!·.isLifecycle)).map (islandMethod r)) := by
  subst hsignals
  rw [componentBody, if_pos h, if_pos h, ← hr, islandBody]
  generalize hsignals : assignedInputs v.model v.inputs = signals
  generalize hreads : v.inputs.filter (!signals.contains ·) = reads
  let unpacked := reads.map fun i => unpackLine "props" i (i.default.map guardArrow)
  refine ⟨v.model.dependencies.map (fun d =>
      constant (Naming.serviceVariable d.type) (serviceGetter d.type ++ "()")) ++ unpacked ++
    (slotProps t).map (fun slot => constant ("\x7b " ++ slot ++ " \x7d") "props") ++
    t.refs.map (fun ref => constant ref "useRef<HTMLElement | null>(null)") ++
    v.model.state.map stateSignal ++ signals.map inputSignal ++
    v.model.getters.map (getterSignal r), ?_, ?_, forall₂_maps (setBy_islandMethod r) _⟩
  · simp only [List.append_assoc]
    cases reads with
    | nil => rfl
    | cons i reads => exact functionText_flatten head returned _ _ (List.cons_ne_nil _ _)
  · rw [islandSetup, show inputsOf (some v.model) = v.inputs from rfl, hsignals, hreads]
    refine List.rel_append (List.rel_append (List.rel_append (List.rel_append (List.rel_append
      (List.rel_append ?_ ?_) ?_) ?_) ?_) ?_) ?_
    · exact forall₂_maps setBy_service _
    · exact forall₂_maps (fun i => setBy_unpackLine i _) _
    · exact forall₂_maps setBy_slot _
    · exact forall₂_maps setBy_ref _
    · exact forall₂_maps setBy_stateSignal _
    · exact forall₂_maps setBy_inputSignal _
    · exact forall₂_maps (setBy_getterSignal r) _

end Trellis.Output
