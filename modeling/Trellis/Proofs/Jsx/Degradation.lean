import Trellis.Proofs.Jsx.Directives
import Trellis.Proofs.Template.Openings

/-!
# Directives that do nothing

A directive that the compiler cannot use costs a warning and nothing else: one that nobody
registered, an `*if` without a condition, an `*else` without an `*if`, a `*for` that cannot be read.
Taking it out of the template leaves the same output.

* `Idle` are those directives of an element, and `Node.Drops` takes one of them out of a tree.
* `Alike` relates computations that do the same but for warnings. All parts of the emitter are
  alike to themselves (`kept_alike`), since none of them reads the warnings.
* `alike_own` compares the emission of an element with and without an idle directive of its own, and
  `alike_drops` that of a tree.
* `transformDocument_drops`: however many of them are taken out, only warnings can change.
-/

namespace Trellis.Template

open Trellis.Text
open Trellis.Jsx

/-! ## Taking out directives -/

/-- No two built-in directives of an element have one name. -/
def OneEach (attributes : List Attribute) : Prop :=
  (((directives attributes).filter Attribute.isBuiltIn).map (·.name)).Nodup

/-- No element of a template has two built-in directives of one name. -/
def Document.OneEach (d : Document) : Prop := ∀ n ∈ d.nodes, Template.OneEach n.attributes

/-- An attribute of an element is a directive that cannot be used: one that is not registered, or
an `*if` without a condition, an `*else` without an `*if`, a `*for` that cannot be read. -/
structure Idle (registry : Option DirectiveRegistry) (attributes : List Attribute)
    (a : Attribute) : Prop where
  directive : a.binding = .directive
  unknown : a.isBuiltIn = false → isRegistered registry a.name = false
  blank : a.name = "if" → isBlankText a.expression = true
  orphan : a.name = "else" → directive? "if" attributes = none
  unread : a.name = "for" → (Loop.parse a.expression).1 = none

/-- A node without one of the idle directives in it, its own or that of an element inside. -/
inductive Node.Drops (registry : Option DirectiveRegistry) : Node → Node → Prop
  | own {tag : String} {selfClosing : Bool} (before after : List Attribute) {a : Attribute}
      {children : List Node} {span : Span} (h : Idle registry (before ++ a :: after) a) :
      Drops registry (.element tag selfClosing (before ++ a :: after) children span)
        (.element tag selfClosing (before ++ after) children span)
  | inside {tag : String} {selfClosing : Bool} {attributes : List Attribute}
      (before after : List Node) {n m : Node} {span : Span} (h : Drops registry n m) :
      Drops registry (.element tag selfClosing attributes (before ++ n :: after) span)
        (.element tag selfClosing attributes (before ++ m :: after) span)

/-- A template without one of its idle directives. -/
inductive Document.Drops (registry : Option DirectiveRegistry) : Document → Document → Prop
  | child (before after : List Node) {n m : Node} {span : Span} (h : n.Drops registry m) :
      Drops registry ⟨before ++ n :: after, span⟩ ⟨before ++ m :: after, span⟩

section

variable {registry : Option DirectiveRegistry} {attributes : List Attribute} {a : Attribute}

theorem isBuiltIn_of_name {name : String} (h : isBuiltInDirective name = true)
    (hname : a.name = name) : a.isBuiltIn = true := by
  rw [Attribute.isBuiltIn, hname, h]

theorem Idle.of_unregistered (hdirective : a.binding = .directive) (hcustom : a.isBuiltIn = false)
    (h : isRegistered registry a.name = false) : Idle registry attributes a := by
  have hname : ∀ name, isBuiltInDirective name = true → a.name ≠ name := fun name hname heq =>
    Bool.false_ne_true (hcustom.symm.trans (isBuiltIn_of_name hname heq))
  exact ⟨hdirective, fun _ => h, fun heq => absurd heq (hname _ (by decide)),
    fun heq => absurd heq (hname _ (by decide)), fun heq => absurd heq (hname _ (by decide))⟩

theorem Idle.of_blank (hdirective : a.binding = .directive) (hname : a.name = "if")
    (h : isBlankText a.expression = true) : Idle registry attributes a where
  directive := hdirective
  unknown hcustom := absurd (isBuiltIn_of_name (by decide) hname) (by simp [hcustom])
  blank _ := h
  orphan heq := absurd (hname.symm.trans heq) (by decide)
  unread heq := absurd (hname.symm.trans heq) (by decide)

theorem Idle.of_orphan (hdirective : a.binding = .directive) (hname : a.name = "else")
    (h : directive? "if" attributes = none) : Idle registry attributes a where
  directive := hdirective
  unknown hcustom := absurd (isBuiltIn_of_name (by decide) hname) (by simp [hcustom])
  blank heq := absurd (hname.symm.trans heq) (by decide)
  orphan _ := h
  unread heq := absurd (hname.symm.trans heq) (by decide)

theorem Idle.of_unread (hdirective : a.binding = .directive) (hname : a.name = "for")
    (h : (Loop.parse a.expression).1 = none) : Idle registry attributes a where
  directive := hdirective
  unknown hcustom := absurd (isBuiltIn_of_name (by decide) hname) (by simp [hcustom])
  blank heq := absurd (hname.symm.trans heq) (by decide)
  orphan heq := absurd (hname.symm.trans heq) (by decide)
  unread _ := h

end

section

variable {before after : List Attribute} {a : Attribute}

/-- Attributes of another form. -/
theorem ofBinding_drop {b : Binding} (h : a.binding ≠ b) :
    ofBinding b (before ++ a :: after) = ofBinding b (before ++ after) := by
  unfold ofBinding
  rw [List.filter_append, List.filter_cons_of_neg (by simpa using h), ← List.filter_append]

theorem directives_append (xs ys : List Attribute) :
    directives (xs ++ ys) = directives xs ++ directives ys :=
  List.filter_append ..

theorem directives_split (h : a.binding = .directive) :
    directives (before ++ a :: after) = directives before ++ a :: directives after := by
  rw [directives_append]
  unfold directives ofBinding
  rw [List.filter_cons_of_pos (by simp [h])]

/-- Directives of another name. -/
theorem directive?_drop {name : String} (h : a.name ≠ name) :
    directive? name (before ++ a :: after) = directive? name (before ++ after) := by
  by_cases ha : a.binding = .directive
  · unfold directive?
    rw [directives_split ha, directives_append, List.find?_append, List.find?_append,
      List.find?_cons_of_neg (by simpa using h)]
  · unfold directive? directives
    rw [ofBinding_drop ha]

theorem OneEach.drop (h : OneEach (before ++ a :: after)) : OneEach (before ++ after) := by
  refine h.sublist (List.Sublist.map _ (List.Sublist.filter _ (List.Sublist.filter _ ?_)))
  exact (List.Sublist.refl before).append (List.sublist_cons_self a after)

/-- No other directive has the name of a built-in one. -/
theorem OneEach.name_ne (h : OneEach (before ++ a :: after)) (ha : a.binding = .directive)
    (hbuiltIn : a.isBuiltIn = true) {x : Attribute} (hx : x ∈ directives (before ++ after)) :
    x.name ≠ a.name := by
  unfold OneEach at h
  rw [directives_split ha, List.filter_append, List.filter_cons_of_pos hbuiltIn, List.map_append,
    List.map_cons, List.perm_middle.nodup_iff, List.nodup_cons, ← List.map_append,
    ← List.filter_append] at h
  intro hname
  refine h.1 (List.mem_map.mpr ⟨x, List.mem_filter.mpr ⟨?_, ?_⟩, hname⟩)
  · rwa [← directives_append]
  · rw [Attribute.isBuiltIn, hname]
    exact hbuiltIn

/-- A built-in directive is the first one of its name. -/
theorem OneEach.directive?_eq (h : OneEach (before ++ a :: after)) (ha : a.binding = .directive)
    (hbuiltIn : a.isBuiltIn = true) : directive? a.name (before ++ a :: after) = some a := by
  have hbefore : (directives before).find? (·.name == a.name) = none := by
    refine List.find?_eq_none.mpr fun x hx => ?_
    have hmem : x ∈ directives (before ++ after) := by
      rw [directives_append]
      exact List.mem_append_left _ hx
    simpa using h.name_ne ha hbuiltIn hmem
  unfold directive?
  rw [directives_split ha, List.find?_append, hbefore, List.find?_cons_of_pos (by simp)]
  rfl

/-- Without it there is none. -/
theorem OneEach.directive?_drop (h : OneEach (before ++ a :: after)) (ha : a.binding = .directive)
    (hbuiltIn : a.isBuiltIn = true) : directive? a.name (before ++ after) = none :=
  List.find?_eq_none.mpr fun x hx => by simpa using h.name_ne ha hbuiltIn hx

end

/-! ## What an element keeps -/

section

variable {registry : Option DirectiveRegistry} {before after : List Attribute} {a : Attribute}

/-- The condition of an element, if it can be used. -/
def usableIf (attributes : List Attribute) : Option Attribute :=
  (directive? "if" attributes).filter fun a => !isBlankText a.expression

theorem usableIf_drop (hone : OneEach (before ++ a :: after))
    (h : Idle registry (before ++ a :: after) a) :
    usableIf (before ++ a :: after) = usableIf (before ++ after) := by
  unfold usableIf
  by_cases hname : a.name = "if"
  · have hbuiltIn := isBuiltIn_of_name (by decide) hname
    have hif := hone.directive?_eq h.directive hbuiltIn
    have hnone := hone.directive?_drop h.directive hbuiltIn
    rw [hname] at hif hnone
    rw [hif, hnone, Option.filter_some, h.blank hname]
    rfl
  · rw [directive?_drop hname]

/-- What an element falls back to, if it has a condition that can be used. -/
theorem fallback_drop (h : Idle registry (before ++ a :: after) a)
    (hif : (usableIf (before ++ a :: after)).isSome = true) :
    directive? "else" (before ++ a :: after) = directive? "else" (before ++ after) := by
  refine directive?_drop fun hname => ?_
  rw [usableIf, h.orphan hname] at hif
  cases hif

/-- A loop that can be read. -/
def usableFor (attributes : List Attribute) : Option Loop :=
  (directive? "for" attributes).bind fun a => (Loop.parse a.expression).1

theorem usableFor_drop (hone : OneEach (before ++ a :: after))
    (h : Idle registry (before ++ a :: after) a) :
    usableFor (before ++ a :: after) = usableFor (before ++ after) := by
  unfold usableFor
  by_cases hname : a.name = "for"
  · have hbuiltIn := isBuiltIn_of_name (by decide) hname
    have hfor := hone.directive?_eq h.directive hbuiltIn
    have hnone := hone.directive?_drop h.directive hbuiltIn
    rw [hname] at hfor hnone
    rw [hfor, hnone]
    exact h.unread hname
  · rw [directive?_drop hname]

end

/-! ## What a tree keeps -/

section

variable {registry : Option DirectiveRegistry}

/-- Taking out a directive keeps the tags. -/
theorem tags_drops {n m : Node} (h : n.Drops registry m) :
    m.all.filterMap Node.tag? = n.all.filterMap Node.tag? := by
  induction h with
  | own before after h =>
    rw [Node.all, Node.all]
    rfl
  | inside before after h ih =>
    rw [Node.all, Node.all, Node.allOf_append, Node.allOf_append, Node.allOf, Node.allOf]
    simp only [List.filterMap_cons, List.filterMap_append, ih]
    rfl

/-- Taking out a directive repeats none. -/
theorem oneEach_drops {n m : Node} (h : n.Drops registry m)
    (hone : ∀ x ∈ n.all, OneEach x.attributes) : ∀ x ∈ m.all, OneEach x.attributes := by
  induction h with
  | own before after h =>
    rw [Node.all] at hone ⊢
    intro x hx
    rcases List.mem_cons.mp hx with rfl | hx
    · have hself := hone _ List.mem_cons_self
      exact OneEach.drop hself
    · exact hone x (List.mem_cons_of_mem _ hx)
  | inside before after h ih =>
    rw [Node.all, Node.allOf_append, Node.allOf] at hone ⊢
    simp only [List.forall_mem_cons, List.forall_mem_append] at hone ⊢
    obtain ⟨hself, hbefore, hn, hafter⟩ := hone
    exact ⟨hself, hbefore, ih hn, hafter⟩

variable {d d' : Document}

theorem Document.OneEach.drops (hone : d.OneEach) (h : d.Drops registry d') : d'.OneEach := by
  obtain ⟨before, after, h⟩ := h
  unfold Document.OneEach Document.nodes at hone ⊢
  rw [Node.allOf_append, Node.allOf] at hone ⊢
  simp only [List.forall_mem_append] at hone ⊢
  obtain ⟨hbefore, hn, hafter⟩ := hone
  exact ⟨hbefore, oneEach_drops h hn, hafter⟩

theorem customTags_drops (h : d.Drops registry d') : customTags d' = customTags d := by
  obtain ⟨before, after, h⟩ := h
  unfold customTags Document.nodes
  rw [Node.allOf_append, Node.allOf_append, Node.allOf, Node.allOf]
  simp only [List.filterMap_append, tags_drops h]

end

end Trellis.Template

namespace Trellis.Jsx

open Trellis.Text
open Trellis.Template

/-! ## Computations that differ in warnings -/

/-- What has been gathered but the warnings. -/
def Emission.quiet (e : Emission) : Emission := { e with warnings := [] }

/-- The computations give the same and gather the same but for warnings. -/
def Alike {α : Type} (x y : Emit α) : Prop :=
  ∀ e f : Emission, e.quiet = f.quiet →
    (x.run e).1 = (y.run f).1 ∧ (x.run e).2.quiet = (y.run f).2.quiet

/-- The computation gives something fixed and adds nothing but warnings. -/
def Mute {α : Type} (a : α) (x : Emit α) : Prop :=
  ∀ e : Emission, (x.run e).1 = a ∧ (x.run e).2.quiet = e.quiet

theorem Emission.eq_of_quiet {e f : Emission} (h : e.quiet = f.quiet) :
    f = { e with warnings := f.warnings } := by
  cases e
  cases f
  cases h
  rfl

theorem alike_pure {α : Type} (a : α) : Alike (pure a) (pure a) := fun _ _ h => ⟨rfl, h⟩

theorem alike_bind {α β : Type} {x y : Emit α} {f g : α → Emit β} (hxy : Alike x y)
    (hfg : ∀ a, Alike (f a) (g a)) : Alike (x >>= f) (y >>= g) := by
  intro e₁ e₂ h
  obtain ⟨hvalue, hstate⟩ := hxy e₁ e₂ h
  have hrest := hfg (x.run e₁).1 _ _ hstate
  change ((f (x.run e₁).1).run _).1 = ((g (y.run e₂).1).run _).1 ∧
    ((f (x.run e₁).1).run _).2.quiet = ((g (y.run e₂).1).run _).2.quiet
  rw [← hvalue]
  exact hrest

/-- A step that does not read the warnings. -/
theorem alike_modify {step : Emission → Emission}
    (h : ∀ e ws, (step { e with warnings := ws }).quiet = (step e).quiet) :
    Alike (modify step) (modify step) := by
  intro e f hef
  rw [Emission.eq_of_quiet hef]
  exact ⟨rfl, (h e _).symm⟩

theorem Mute.alike {α : Type} {a : α} {x y : Emit α} (hx : Mute a x) (hy : Mute a y) :
    Alike x y := by
  intro e f h
  exact ⟨(hx e).1.trans (hy f).1.symm, (hx e).2.trans (h.trans (hy f).2.symm)⟩

theorem mute_pure {α : Type} (a : α) : Mute a (pure a) := fun _ => ⟨rfl, rfl⟩

theorem mute_warn (code : WarningCode) (message : String) : Mute () (warn code message) :=
  fun _ => ⟨rfl, rfl⟩

theorem mute_bind {α β : Type} {a : α} {b : β} {x : Emit α} {f : α → Emit β} (hx : Mute a x)
    (hf : ∀ a, Mute b (f a)) : Mute b (x >>= f) := by
  intro e
  obtain ⟨hvalue, hstate⟩ := hf (x.run e).1 (x.run e).2
  exact ⟨hvalue, hstate.trans (hx e).2⟩

/-- A first part that adds nothing but warnings. -/
theorem Mute.before {α β : Type} {a : α} {x : Emit α} {f : α → Emit β} {y : Emit β}
    (hx : Mute a x) (hf : Alike (f a) y) : Alike (x >>= f) y := by
  intro e₁ e₂ h
  obtain ⟨hvalue, hstate⟩ := hx e₁
  change ((f (x.run e₁).1).run _).1 = _ ∧ ((f (x.run e₁).1).run _).2.quiet = _
  rw [hvalue]
  exact hf _ _ (hstate.trans h)

theorem composes_alike : Composes fun (α : Type) (_ : List Empty) (x : Emit α) => Alike x x where
  ret a := alike_pure a
  seq hx hf := alike_bind hx hf

/-- A round of a loop that gives nothing and adds nothing but warnings can be left out. -/
theorem alike_filterMapM {α β : Type} {f : α → Emit (Option β)} (hf : ∀ a, Alike (f a) (f a))
    {before after : List α} {a : α} (ha : Mute none (f a)) :
    Alike ((before ++ a :: after).filterMapM f) ((before ++ after).filterMapM f) := by
  induction before with
  | nil =>
    rw [List.nil_append, List.filterMapM_cons]
    exact ha.before (composes_alike.filterMapM_nil hf after)
  | cons b before ih =>
    rw [List.cons_append, List.cons_append, List.filterMapM_cons, List.filterMapM_cons]
    refine alike_bind (hf b) fun r => ?_
    cases r with
    | none => exact ih
    | some r => exact alike_bind ih fun rs => alike_pure _

/-! ## The emitter -/

theorem alike_emitPipe (scope : Scope) (chain : String) :
    Alike (emitPipe scope chain) (emitPipe scope chain) :=
  alike_bind (alike_modify fun _ _ => rfl) fun _ => alike_pure _

/-- A directive where it stands. -/
theorem alike_emitDirective (scope : Scope) (a : Attribute) :
    Alike (emitDirective scope a) (emitDirective scope a) := by
  unfold emitDirective
  split
  · exact alike_pure none
  · split
    · exact alike_bind (alike_modify fun _ _ => rfl) fun _ => alike_pure none
    · exact alike_bind (alike_modify fun _ _ => rfl) fun _ => alike_pure _

theorem alike_emitDirectives (scope : Scope) (attributes : List Attribute) :
    Alike (emitDirectives scope attributes) (emitDirectives scope attributes) :=
  composes_alike.filterMapM_nil (alike_emitDirective scope) _

/-- A directive that cannot be used is not applied. -/
theorem mute_emitDirective {scope : Scope} {attributes : List Attribute} {a : Attribute}
    (h : Idle scope.directives attributes a) : Mute none (emitDirective scope a) := by
  unfold emitDirective
  split
  · exact mute_pure none
  · next hcustom =>
    rw [applyDirective_eq_none_iff.mpr (h.unknown (by simpa using hcustom))]
    exact mute_bind (mute_warn _ _) fun _ => mute_pure none

/-- No step of the emitter reads the warnings. -/
theorem kept_alike (scope : Scope) :
    Kept scope (fun _ => []) (fun _ => [])
      fun (α : Type) (_ : List Empty) (x : Emit α) => Alike x x where
  toComposes := composes_alike
  warned _ _ := alike_modify fun _ _ => rfl
  warnedAll _ := alike_modify fun _ _ => rfl
  ref _ := alike_modify fun _ _ => rfl
  slot _ := alike_modify fun _ _ => rfl
  defaultSlot := alike_modify fun _ _ => rfl
  outlet := alike_modify fun _ _ => rfl
  number g := by
    intro e f h
    rw [Emission.eq_of_quiet h]
    exact ⟨rfl, rfl⟩
  chain := alike_emitPipe scope
  spreads := alike_emitDirectives scope

theorem mute_checkConditions (attributes : List Attribute) :
    Mute () (checkConditions attributes) := by
  rw [checkConditions_eq]
  exact fun _ => ⟨rfl, rfl⟩

/-- Counts a loop, if there is one. -/
def countLoop (loop : Option Loop) : Emit (Option (Loop × Nat)) :=
  match loop with
  | none => pure none
  | some loop => do
    modify fun e => { e with loops := e.loops + 1 }
    pure (some (loop, (← get).loops))

/-- Only a loop that can be read is counted. -/
theorem alike_emitLoop {xs ys : List Attribute} (h : usableFor xs = usableFor ys) :
    Alike (emitLoop xs) (emitLoop ys) := by
  have hcount : ∀ (attributes : List Attribute) (e : Emission), ∃ ws,
      (emitLoop attributes).run e =
        (countLoop (usableFor attributes)).run { e with warnings := ws } := by
    intro attributes e
    unfold emitLoop usableFor
    cases directive? "for" attributes with
    | none => exact ⟨e.warnings, rfl⟩
    | some a =>
      refine ⟨e.warnings ++ (Loop.parse a.expression).2, ?_⟩
      dsimp only [Option.bind_some]
      cases (Loop.parse a.expression).1 <;> rfl
  intro e f hef
  obtain ⟨ws, hxs⟩ := hcount xs e
  obtain ⟨vs, hys⟩ := hcount ys f
  rw [hxs, hys, h, Emission.eq_of_quiet hef]
  cases usableFor ys <;> exact ⟨rfl, rfl⟩

/-- The code around an element looks at the condition and the loop only if they can be used. -/
theorem structuralJsx_eq (element : String) (loop : Option Loop) (attributes : List Attribute) :
    structuralJsx element loop attributes =
      (usableIf attributes).elim (((loop.map (·.mapText element)).map braced).getD element)
        fun a => braced (conditionText ((loop.map (·.mapText element)).getD element) a.expression
          ((directive? "else" attributes).map (·.expression))) := by
  unfold structuralJsx usableIf
  cases (directive? "if" attributes).filter fun a => !isBlankText a.expression <;> rfl

section

variable {scope : Scope} {before after : List Attribute} {a : Attribute}

theorem structuralJsx_drop (hone : OneEach (before ++ a :: after))
    (h : Idle scope.directives (before ++ a :: after) a) (element : String) (loop : Option Loop) :
    structuralJsx element loop (before ++ a :: after) =
      structuralJsx element loop (before ++ after) := by
  rw [structuralJsx_eq, structuralJsx_eq, ← usableIf_drop hone h]
  cases hcondition : usableIf (before ++ a :: after) with
  | none => rfl
  | some test =>
    have hsome : (usableIf (before ++ a :: after)).isSome = true := by rw [hcondition]; rfl
    rw [fallback_drop h hsome]

/-- The attributes of an element without an idle directive. -/
theorem alike_emitAttributes (h : Idle scope.directives (before ++ a :: after) a) (tag : String) :
    Alike (emitAttributes scope tag (before ++ a :: after))
      (emitAttributes scope tag (before ++ after)) := by
  have hform : ∀ b : Binding, b ≠ .directive → a.binding ≠ b := fun b hb hab =>
    hb (hab.symm.trans h.directive)
  have hplain : plain (before ++ a :: after) = plain (before ++ after) :=
    ofBinding_drop (hform _ (by decide))
  have htwoWays : twoWays (before ++ a :: after) = twoWays (before ++ after) :=
    ofBinding_drop (hform _ (by decide))
  have honeWays : oneWays (before ++ a :: after) = oneWays (before ++ after) := by
    unfold oneWays
    rw [List.filter_append, List.filter_cons_of_neg (by rw [h.directive]; decide),
      ← List.filter_append]
  have hrefs : emitRefs (before ++ a :: after) = emitRefs (before ++ after) := by
    unfold emitRefs
    rw [hplain]
  have hmerged : emitClassAndStyle (before ++ a :: after) =
      emitClassAndStyle (before ++ after) := by
    unfold emitClassAndStyle usableBindings lastValue?
    rw [hplain, honeWays]
  have hbound : emitTwoWays tag (before ++ a :: after) = emitTwoWays tag (before ++ after) := by
    unfold emitTwoWays
    rw [htwoWays]
  have hspreads : Alike (emitDirectives scope (before ++ a :: after))
      (emitDirectives scope (before ++ after)) := by
    rw [emitDirectives_eq, emitDirectives_eq, directives_split h.directive, directives_append]
    exact alike_filterMapM (alike_emitDirective scope) (mute_emitDirective h)
  have hother : Mute none (emitAttribute scope a) := by
    unfold emitAttribute
    rw [h.directive]
    exact mute_pure none
  have hkept := kept_alike scope
  unfold emitAttributes
  rw [hrefs, hmerged, hbound]
  refine alike_bind (kept_emitRefs hkept _) fun refs => ?_
  refine alike_bind hspreads fun spreads => ?_
  refine alike_bind (kept_emitClassAndStyle hkept _) fun merged => ?_
  refine alike_bind (kept_emitTwoWays hkept tag _) fun bound => ?_
  exact alike_bind (alike_filterMapM (kept_emitAttribute hkept) hother) fun others => alike_pure _

/-- A place for content does not look at directives. -/
theorem slotName_drop (h : Idle scope.directives (before ++ a :: after) a) (tag : String) :
    slotName tag (before ++ a :: after) = slotName tag (before ++ after) := by
  have hplain : plain (before ++ a :: after) = plain (before ++ after) :=
    ofBinding_drop (by rw [h.directive]; decide)
  unfold slotName plain?
  rw [hplain]

/-- **An element without an idle directive is emitted as before**, but for warnings. -/
theorem alike_own (hone : OneEach (before ++ a :: after))
    (h : Idle scope.directives (before ++ a :: after) a) (tag : String) (selfClosing : Bool)
    (children : List Node) (span : Span) :
    Alike (emitNode scope (.element tag selfClosing (before ++ a :: after) children span))
      (emitNode scope (.element tag selfClosing (before ++ after) children span)) := by
  have hkept := kept_alike scope
  rw [emitNode, emitNode]
  by_cases hslot : isSlot tag = true
  · rw [if_pos hslot, if_pos hslot]
    have hsame : emitSlot scope tag (before ++ a :: after) =
        emitSlot scope tag (before ++ after) := by
      unfold emitSlot
      rw [slotName_drop h]
    rw [hsame]
    exact kept_emitSlot hkept tag _
  · by_cases houtlet : isOutlet tag = true
    · rw [if_neg hslot, if_neg hslot, if_pos houtlet, if_pos houtlet]
      exact alike_bind (alike_modify fun _ _ => rfl) fun _ => alike_pure _
    · rw [if_neg hslot, if_neg hslot, if_neg houtlet, if_neg houtlet]
      refine alike_bind ((mute_checkConditions _).alike (mute_checkConditions _)) fun _ => ?_
      refine alike_bind (alike_emitAttributes h tag) fun parts => ?_
      refine alike_bind (kept_emitNodes hkept children) fun inside => ?_
      refine alike_bind (alike_emitLoop (usableFor_drop hone h)) fun loop => ?_
      dsimp only
      rw [structuralJsx_drop hone h]
      exact alike_pure _

end

/-! ## Trees -/

/-- Nodes are emitted alike if one of them is. -/
theorem alike_emitNodes {scope : Scope} {n m : Node}
    (h : Alike (emitNode scope n) (emitNode scope m)) (before after : List Node) :
    Alike (emitNodes scope (before ++ n :: after)) (emitNodes scope (before ++ m :: after)) := by
  have hkept := kept_alike scope
  induction before with
  | nil =>
    rw [List.nil_append, List.nil_append, emitNodes, emitNodes]
    refine alike_bind h fun part => ?_
    exact alike_bind (kept_emitNodes hkept after) fun parts => alike_pure _
  | cons b before ih =>
    rw [List.cons_append, List.cons_append, emitNodes, emitNodes]
    refine alike_bind (kept_emitNode hkept b) fun part => ?_
    exact alike_bind ih fun parts => alike_pure _

/-- **A tree without an idle directive is emitted as before**, but for warnings. -/
theorem alike_drops {scope : Scope} {n m : Node} (h : n.Drops scope.directives m)
    (hone : ∀ x ∈ n.all, OneEach x.attributes) : Alike (emitNode scope n) (emitNode scope m) := by
  have hkept := kept_alike scope
  induction h with
  | own before after h =>
    rw [Node.all] at hone
    have hself := hone _ List.mem_cons_self
    exact alike_own hself h _ _ _ _
  | @inside tag selfClosing attributes before after n m span h ih =>
    have hinside : Alike (emitNode scope n) (emitNode scope m) := by
      refine ih fun x hx => hone x ?_
      rw [Node.all, Node.allOf_append, Node.allOf]
      exact List.mem_cons_of_mem _ (List.mem_append_right _ (List.mem_append_left _ hx))
    rw [emitNode, emitNode]
    split
    · exact kept_emitSlot hkept tag attributes
    · split
      · exact alike_bind (alike_modify fun _ _ => rfl) fun _ => alike_pure _
      · refine alike_bind (kept_checkConditions hkept attributes) fun _ => ?_
        refine alike_bind (kept_emitAttributes hkept tag attributes) fun parts => ?_
        refine alike_bind (alike_emitNodes hinside before after) fun texts => ?_
        exact alike_bind (kept_emitLoop hkept attributes) fun loop => alike_pure _

/-! ## Templates -/

theorem alike_emitDocument {scope : Scope} {d d' : Document} (hone : d.OneEach)
    (h : d.Drops scope.directives d') :
    Alike (emitDocument scope d) (emitDocument scope d') := by
  obtain ⟨before, after, h⟩ := h
  unfold Document.OneEach Document.nodes at hone
  rw [Node.allOf_append, Node.allOf] at hone
  have hn := fun x hx => hone x (List.mem_append_right _ (List.mem_append_left _ hx))
  exact alike_bind (alike_emitNodes (alike_drops h hn) _ _) fun parts => alike_pure _

/-- Compiles a template that has been read, with the flaws found in it. -/
def transformDocument (env : Environment) (inLayout : Bool) (d : Document)
    (errors : List ParseError) : Logged Transformed := do
  let (jsx, e) := (emitDocument (env.scope inLayout) d).run {}
  Logged.tellAll (e.warnings.map Warning.logEntry)
  let imports ← (customTags d).mapM (resolve env.known env.aliasName)
  let flaws := errors.map ParseError.warning
  Logged.tellAll (flaws.map Warning.logEntry)
  pure {
    jsx
    imports := imports.filterMap id
    pipes := lookUpAll env.pipes e.usedPipes
    directives := lookUpAll env.directives e.usedDirectives
    warnings := e.warnings ++ flaws
    errors
    helpers := e.helpers
    refs := e.refs
    slots := e.slots
    hasOutlet := e.hasOutlet
    hasDefaultSlot := e.hasDefaultSlot }

/-- Compiling a template is reading it and compiling the tree. -/
theorem transform_eq (env : Environment) (inLayout : Bool) (template : String) :
    transform env inLayout template =
      transformDocument env inLayout (parseTemplate template).document
        (parseTemplate template).errors := rfl

/-- A compiled template without its warnings. -/
def Transformed.quiet (t : Transformed) : Transformed := { t with warnings := [] }

/-- One directive that cannot be used. -/
theorem quiet_drops {env : Environment} {d d' : Document} (hone : d.OneEach)
    (h : d.Drops env.directives d') (inLayout : Bool) (errors : List ParseError) :
    (transformDocument env inLayout d' errors).value.quiet =
        (transformDocument env inLayout d errors).value.quiet ∧
      ((emitDocument (env.scope inLayout) d').run {}).2.quiet =
        ((emitDocument (env.scope inLayout) d).run {}).2.quiet := by
  obtain ⟨hjsx, hstate⟩ :=
    @alike_emitDocument (env.scope inLayout) d d' hone h {} {} rfl
  refine ⟨?_, hstate.symm⟩
  unfold transformDocument
  rw [customTags_drops h]
  generalize (emitDocument (env.scope inLayout) d').run {} = r' at hjsx hstate ⊢
  generalize (emitDocument (env.scope inLayout) d).run {} = r at hjsx hstate ⊢
  obtain ⟨jsx, e⟩ := r
  obtain ⟨jsx', e'⟩ := r'
  dsimp only at hjsx hstate
  rw [Emission.eq_of_quiet hstate, hjsx]
  rfl

/-- **Directives that cannot be used cost warnings and nothing else.** However many of them are
taken out of a template whose elements have no built-in directive twice: the output stays the same,
as do its imports, what it uses, its references and slots, and the numbers of its loops. -/
theorem transformDocument_drops (env : Environment) (inLayout : Bool) (errors : List ParseError)
    {d d' : Document} (hone : d.OneEach)
    (h : Relation.ReflTransGen (Document.Drops env.directives) d d') :
    (transformDocument env inLayout d' errors).value.quiet =
        (transformDocument env inLayout d errors).value.quiet ∧
      ((emitDocument (env.scope inLayout) d').run {}).2.quiet =
        ((emitDocument (env.scope inLayout) d).run {}).2.quiet := by
  have hrun : d'.OneEach ∧ (transformDocument env inLayout d' errors).value.quiet =
        (transformDocument env inLayout d errors).value.quiet ∧
      ((emitDocument (env.scope inLayout) d').run {}).2.quiet =
        ((emitDocument (env.scope inLayout) d).run {}).2.quiet := by
    induction h with
    | refl => exact ⟨hone, rfl, rfl⟩
    | tail _ hstep ih =>
      obtain ⟨honeMid, hmid, hstate⟩ := ih
      obtain ⟨hlast, hlastState⟩ := quiet_drops honeMid hstep inLayout errors
      exact ⟨honeMid.drops hstep, hlast.trans hmid, hlastState.trans hstate⟩
  exact hrun.2

/-- Where the parts of the template below stand does not matter. -/
def nowhere : Span := ⟨1, 1, 0, 0⟩

/-- A directive of the template below. -/
def starred (name value : String) : Attribute := ⟨.directive, name, some value, nowhere⟩

/-- A paragraph inside of another element. -/
def paragraphWith (attributes : List Attribute) : Document :=
  ⟨[.element "div" false []
    [.text "above" nowhere, .element "p" false attributes [] nowhere] nowhere], nowhere⟩

theorem drops_paragraph {registry : Option DirectiveRegistry} (before after : List Attribute)
    {a : Attribute} (h : Idle registry (before ++ a :: after) a) :
    (paragraphWith (before ++ a :: after)).Drops registry (paragraphWith (before ++ after)) :=
  .child [] [] (.inside [_] [] (.own before after h))

/-- A loop that says `in` cannot be read. -/
theorem parse_in : (Loop.parse "x in xs").1 = none := by
  decide +kernel

/-- An element with one directive of each kind that cannot be used. -/
theorem transformDocument_drops_paragraph :
    (transformDocument {} false (paragraphWith []) []).value.quiet =
      (transformDocument {} false (paragraphWith [starred "if" " ", starred "else" "Other",
        starred "for" "x in xs", starred "gone" "1"]) []).value.quiet := by
  have hone : (paragraphWith [starred "if" " ", starred "else" "Other", starred "for" "x in xs",
      starred "gone" "1"]).OneEach := by
    unfold Document.OneEach Document.nodes paragraphWith
    simp only [Node.allOf, Node.all, List.append_nil, List.cons_append, List.nil_append,
      List.forall_mem_cons, Node.attributes]
    unfold OneEach
    decide
  have hgone : Idle none [starred "if" " ", starred "else" "Other", starred "for" "x in xs",
      starred "gone" "1"] (starred "gone" "1") :=
    .of_unregistered rfl (by decide) rfl
  have hfor : Idle none [starred "if" " ", starred "else" "Other", starred "for" "x in xs"]
      (starred "for" "x in xs") :=
    .of_unread rfl rfl parse_in
  have hif : Idle none [starred "if" " ", starred "else" "Other"] (starred "if" " ") :=
    .of_blank rfl rfl (by decide +kernel)
  have helse : Idle none [starred "else" "Other"] (starred "else" "Other") :=
    .of_orphan rfl rfl (by decide)
  have hrun : Relation.ReflTransGen (Document.Drops none) _ (paragraphWith []) :=
    .tail (.tail (.tail (.single (drops_paragraph [_, _, _] [] hgone))
      (drops_paragraph [_, _] [] hfor)) (drops_paragraph [] [_] hif)) (drops_paragraph [] [] helse)
  exact (transformDocument_drops {} false [] hone hrun).1

end Trellis.Jsx
