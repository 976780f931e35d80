import Trellis.Proofs.Jsx.Emitting

/-!
# What a compiled template asks for

While a template is emitted, names are gathered: the registered pipes and the runtime functions that
its pipe chains need, the references to its elements and its slots. Every name is kept once. The
components it imports are found by its tags.

* `Gathers` is what emitting can add, given the pipe chains that are compiled, and `Emits` says that
  an emitting computation compiles some chains and adds what they need. The steps of the emitter
  have it (`kept_emits`), and `emitPipe` is the only one with a chain.
* `emits_emitNodes`: emitting nodes compiles their chains.
* `helpers_transform`: a compiled template asks only for `runtimeHelpers`.
* `nodup_refs_transform`, `nodup_slots_transform`: its references are distinct, as are its slots.
* `imports_transform`: it imports what its tags are resolved to.
-/

namespace Trellis.Jsx

open Trellis.Text
open Trellis.Template

/-! ## Pipes -/

/-- The functions that the code of built-in pipes calls. -/
def runtimeHelpers : List String :=
  ["toTitleCase", "formatCurrency", "formatDate", "formatNumber", "formatPercent", "asyncPipe"]

namespace Pipe

theorem helper?_mem {p : BuiltIn} {args : List String} {name : String}
    (h : p.helper? args = some name) : name ∈ runtimeHelpers := by
  cases p with
  | number =>
    rw [BuiltIn.helper?] at h
    split at h
    · cases h
    · cases h
      decide
  | uppercase | lowercase | json | slice | default => cases h
  | titlecase | async | currency | date | percent =>
    cases h
    decide

/-- A call needs one of these functions. -/
theorem runtime?_mem {c : Call} {name : String} (h : c.runtime? = some name) :
    name ∈ runtimeHelpers := by
  obtain ⟨p, -, hp⟩ := Option.bind_eq_some_iff.mp h
  exact helper?_mem hp

end Pipe

/-! ## Emitting computations -/

/-- What emitting can add to what has been gathered, if it compiles the given chains: what they
need, in order, and references and slots that are not there yet. -/
structure Gathers (registry : Option PipeRegistry) (chains : List String) (e f : Emission) :
    Prop where
  used : f.usedPipes =
    ((chains.flatMap Pipe.callsOf).filterMap (·.registered? registry)).foldl Pipe.addOnce
      e.usedPipes
  helpers : f.helpers =
    ((chains.flatMap Pipe.callsOf).filterMap Pipe.Call.runtime?).foldl Pipe.addOnce e.helpers
  refs : ∃ more : List String, f.refs = more.foldl Pipe.addOnce e.refs
  slots : ∃ more : List String, f.slots = more.foldl Pipe.addOnce e.slots

/-- The rest does not matter. -/
theorem Gathers.of_eq {registry : Option PipeRegistry} {e f : Emission}
    (hused : f.usedPipes = e.usedPipes) (hhelpers : f.helpers = e.helpers)
    (hrefs : f.refs = e.refs) (hslots : f.slots = e.slots) : Gathers registry [] e f where
  used := hused
  helpers := hhelpers
  refs := ⟨[], hrefs⟩
  slots := ⟨[], hslots⟩

theorem Gathers.trans {registry : Option PipeRegistry} {xs ys : List String} {e f g : Emission}
    (hef : Gathers registry xs e f) (hfg : Gathers registry ys f g) :
    Gathers registry (xs ++ ys) e g where
  used := by
    rw [hfg.used, hef.used, List.flatMap_append, List.filterMap_append, List.foldl_append]
  helpers := by
    rw [hfg.helpers, hef.helpers, List.flatMap_append, List.filterMap_append, List.foldl_append]
  refs := by
    obtain ⟨first, hfirst⟩ := hef.refs
    obtain ⟨second, hsecond⟩ := hfg.refs
    exact ⟨first ++ second, by rw [hsecond, hfirst, List.foldl_append]⟩
  slots := by
    obtain ⟨first, hfirst⟩ := hef.slots
    obtain ⟨second, hsecond⟩ := hfg.slots
    exact ⟨first ++ second, by rw [hsecond, hfirst, List.foldl_append]⟩

/-- The computation compiles the given chains, in order, and gathers no more. -/
def Emits {α : Type} (registry : Option PipeRegistry) (chains : List String) (x : Emit α) : Prop :=
  ∀ e : Emission, Gathers registry chains e (x.run e).2

theorem composes_emits (registry : Option PipeRegistry) :
    Composes fun _ => Emits registry where
  ret _ := fun _ => .of_eq rfl rfl rfl rfl
  seq hx hf := fun e => (hx e).trans (hf _ _)

/-- **Compiling a chain gathers what its calls need.** -/
theorem emits_emitPipe (scope : Scope) (chain : String) :
    Emits scope.pipes [chain] (emitPipe scope chain) := by
  obtain ⟨hused, hhelpers⟩ := Pipe.compile_notes scope.pipes chain
  unfold emitPipe
  generalize Pipe.compile scope.pipes chain = o at hused hhelpers ⊢
  refine (composes_emits scope.pipes).before (fun e => ⟨?_, ?_, ⟨[], rfl⟩, ⟨[], rfl⟩⟩)
    fun _ => (composes_emits _).ret _
  · change o.used.foldl Pipe.addOnce e.usedPipes = _
    rw [hused, Pipe.foldl_addOnce_foldl, List.flatMap_singleton, List.foldl_nil]
  · change o.helpers.foldl Pipe.addOnce e.helpers = _
    rw [hhelpers, Pipe.foldl_addOnce_foldl, List.flatMap_singleton, List.foldl_nil]

/-- Applying directives compiles no chain. -/
theorem emits_emitDirectives (registry : Option PipeRegistry) (scope : Scope)
    (attributes : List Attribute) : Emits registry [] (emitDirectives scope attributes) := by
  rw [emitDirectives_eq]
  refine (composes_emits registry).filterMapM_nil (fun a => ?_) _
  unfold emitDirective
  split
  · exact (composes_emits registry).ret none
  · split
    · exact (composes_emits registry).after (fun _ => .of_eq rfl rfl rfl rfl)
        fun _ => (composes_emits registry).ret none
    · exact (composes_emits registry).after (fun _ => .of_eq rfl rfl rfl rfl)
        fun _ => (composes_emits registry).ret _

/-- The steps of the emitter compile their chains. -/
theorem kept_emits (scope : Scope) :
    Kept scope (fun chain => [chain]) (fun _ => []) fun _ => Emits scope.pipes where
  toComposes := composes_emits scope.pipes
  warned _ _ := fun _ => .of_eq rfl rfl rfl rfl
  warnedAll _ := fun _ => .of_eq rfl rfl rfl rfl
  ref name := fun _ => ⟨rfl, rfl, ⟨[name], rfl⟩, ⟨[], rfl⟩⟩
  slot name := fun _ => ⟨rfl, rfl, ⟨[], rfl⟩, ⟨[name], rfl⟩⟩
  defaultSlot := fun _ => .of_eq rfl rfl rfl rfl
  outlet := fun _ => .of_eq rfl rfl rfl rfl
  number _ := fun _ => .of_eq rfl rfl rfl rfl
  chain := emits_emitPipe scope
  spreads := emits_emitDirectives scope.pipes scope

/-! ## Templates -/

mutual

theorem log_eq_chains (n : Node) : n.log (fun chain => [chain]) (fun _ => []) = n.chains := by
  cases n with
  | text content span => rw [Node.log, Node.chains]
  | comment content span => rw [Node.log, Node.chains]
  | interpolation expression span => rw [Node.log, Node.chains]
  | element tag selfClosing attributes children span =>
    rw [Node.log, Node.chains, logOf_eq_chainsOf children, List.nil_append]
    simp only [List.flatMap_singleton']

theorem logOf_eq_chainsOf (ns : List Node) :
    Node.logOf (fun chain => [chain]) (fun _ => []) ns = Node.chainsOf ns := by
  cases ns with
  | nil => rw [Node.logOf, Node.chainsOf]
  | cons n ns => rw [Node.logOf, Node.chainsOf, log_eq_chains n, logOf_eq_chainsOf ns]

end

/-- Emitting nodes compiles their chains. -/
theorem emits_emitNodes (scope : Scope) (ns : List Node) :
    Emits scope.pipes (Node.chainsOf ns) (emitNodes scope ns) := by
  rw [← logOf_eq_chainsOf]
  exact kept_emitNodes (kept_emits scope) ns

/-- What emitting a whole template gathers, from nothing. -/
theorem gathers_transform (env : Environment) (inLayout : Bool) (template : String) :
    Gathers env.pipes (parseTemplate template).document.chains {}
      ((emitNodes (env.scope inLayout) (parseTemplate template).document.children).run {}).2 :=
  emits_emitNodes (env.scope inLayout) _ {}

/-- The functions that a compiled template asks for. -/
theorem helpers_transform_eq (env : Environment) (inLayout : Bool) (template : String) :
    (transform env inLayout template).value.helpers =
      (((parseTemplate template).document.chains.flatMap Pipe.callsOf).filterMap
        Pipe.Call.runtime?).eraseDups :=
  (gathers_transform env inLayout template).helpers.trans (Pipe.foldl_addOnce_nil _)

/-- The registered pipes that a compiled template uses. -/
theorem pipes_transform_eq (env : Environment) (inLayout : Bool) (template : String) :
    (transform env inLayout template).value.pipes =
      lookUpAll env.pipes (((parseTemplate template).document.chains.flatMap Pipe.callsOf).filterMap
        (·.registered? env.pipes)).eraseDups :=
  congrArg (lookUpAll env.pipes)
    ((gathers_transform env inLayout template).used.trans (Pipe.foldl_addOnce_nil _))

/-- **A compiled template asks only for functions of built-in pipes.** -/
theorem helpers_transform (env : Environment) (inLayout : Bool) (template : String) :
    (transform env inLayout template).value.helpers ⊆ runtimeHelpers := by
  intro name h
  rw [helpers_transform_eq, List.mem_eraseDups] at h
  obtain ⟨c, -, hc⟩ := List.mem_filterMap.mp h
  exact Pipe.runtime?_mem hc

/-- **A compiled template names each of its references once.** -/
theorem nodup_refs_transform (env : Environment) (inLayout : Bool) (template : String) :
    (transform env inLayout template).value.refs.Nodup := by
  obtain ⟨refs, hrefs⟩ := (gathers_transform env inLayout template).refs
  change List.Nodup (Emission.refs _)
  exact hrefs ▸ Pipe.nodup_foldl_addOnce List.nodup_nil

/-- **A compiled template names each of its slots once.** -/
theorem nodup_slots_transform (env : Environment) (inLayout : Bool) (template : String) :
    (transform env inLayout template).value.slots.Nodup := by
  obtain ⟨slots, hslots⟩ := (gathers_transform env inLayout template).slots
  change List.Nodup (Emission.slots _)
  exact hslots ▸ Pipe.nodup_foldl_addOnce List.nodup_nil

/-! ## Components -/

theorem value_mapM {α β : Type} (f : α → Logged β) (as : List α) :
    (as.mapM f).value = as.map fun a => (f a).value := by
  have hloop : ∀ bs, (List.mapM.loop f as bs).value =
      bs.reverse ++ as.map fun a => (f a).value := by
    induction as with
    | nil => exact fun bs => (List.append_nil _).symm
    | cons a as ih =>
      intro bs
      refine (ih _).trans ?_
      rw [List.reverse_cons, List.append_assoc, List.map_cons]
      rfl
  exact hloop []

/-- The imports of a compiled template are those of the tags in it that name components. -/
theorem imports_transform (env : Environment) (inLayout : Bool) (template : String) :
    (transform env inLayout template).value.imports =
      (customTags (parseTemplate template).document).filterMap fun tag =>
        (resolve env.known env.aliasName tag).value := by
  change List.filterMap id (List.mapM _ _ : Logged _).value = _
  rw [value_mapM, List.filterMap_map]
  rfl

/-- A tag is resolved to the first known component with its name. -/
theorem resolve_eq_some {known : List KnownComponent} {aliasName tag : String} {i : TagImport}
    (h : (resolve known aliasName tag).value = some i) :
    isCustom tag = true ∧ ∃ c ∈ known, c.className = jsxName tag ∧
      i = ⟨c.className, aliasName ++ "/" ++ componentFolder c.isIsland ++ "/" ++ c.className ++
        ".tsx", c.isIsland⟩ := by
  rw [resolve] at h
  split at h
  · cases h
  · next hcustom =>
    dsimp only at h
    split at h
    · next c hc =>
      cases h
      have hname : c.className = jsxName tag := by simpa using List.find?_some hc
      refine ⟨by simpa using hcustom, c, List.mem_of_find?_eq_some hc, hname, ?_⟩
      rw [hname]
    · cases h

end Trellis.Jsx
