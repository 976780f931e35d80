import Trellis.Proofs.Jsx.Chains

/-!
# What emitting keeps

The emitter is put together from few steps: it warns, it gathers a name or sets a flag, it compiles
a pipe chain, it applies the directives of an element. A property of computations that these steps
have, and that putting computations together keeps, holds of emitting any tree. It may speak of a
log of what the computation meets: the logs of the parts then make up the log of the whole.

* `Composes` is being kept by putting together, loops included; `Kept` lists the steps.
* `Node.logOf` is the log of nodes, given what a chain and the directives of an element add to it.
* `kept_emitNodes`: a property that is kept holds of emitting nodes, with their log.
-/

namespace Trellis.Template

open Trellis.Text
open Trellis.Jsx

variable {ι : Type}

mutual

/-- What emitting a node meets, in order: at an element its directives, then the chains of its
attributes, then what is inside of it. At a place for content it meets nothing. -/
def Node.log (ofChain : String → List ι) (ofDirectives : List Attribute → List ι) :
    Node → List ι
  | .text _ _ => []
  | .comment _ _ => []
  | .interpolation expression _ => if isBlankText expression then [] else ofChain expression
  | .element tag _ attributes children _ =>
    if isSlot tag || isOutlet tag then []
    else ofDirectives attributes ++ attributes.flatMap (fun a => a.chains.flatMap ofChain) ++
      Node.logOf ofChain ofDirectives children

/-- What emitting nodes meets, one node after the other. -/
def Node.logOf (ofChain : String → List ι) (ofDirectives : List Attribute → List ι) :
    List Node → List ι
  | [] => []
  | n :: ns => n.log ofChain ofDirectives ++ Node.logOf ofChain ofDirectives ns

end

end Trellis.Template

namespace Trellis.Jsx

open Trellis.Text
open Trellis.Template

/-- A property of emitting computations and of what they meet, which putting computations together
keeps. -/
structure Composes {ι : Type} (P : (α : Type) → List ι → Emit α → Prop) : Prop where
  ret : ∀ {α : Type} (a : α), P α [] (pure a)
  seq : ∀ {α β : Type} {xs ys : List ι} {x : Emit α} {f : α → Emit β},
    P α xs x → (∀ a, P β ys (f a)) → P β (xs ++ ys) (x >>= f)

/-- Such a property that the steps of the emitter have. The warnings on the way are not about
directives: those come with `spreads`. -/
structure Kept {ι : Type} (scope : Scope) (ofChain : String → List ι)
    (ofDirectives : List Attribute → List ι) (P : (α : Type) → List ι → Emit α → Prop) : Prop
    extends Composes P where
  warned : ∀ {code : WarningCode} (message : String), code ≠ .unknownDirective →
    P Unit [] (warn code message)
  warnedAll : ∀ {ws : List Warning}, (∀ w ∈ ws, w.code ≠ .unknownDirective) →
    P Unit [] (warnAll ws)
  ref : ∀ name : String,
    P Unit [] (modify fun e => { e with refs := Pipe.addOnce e.refs name })
  slot : ∀ name : String,
    P Unit [] (modify fun e => { e with slots := Pipe.addOnce e.slots name })
  defaultSlot : P Unit [] (modify fun e => { e with hasDefaultSlot := true })
  outlet : P Unit [] (modify fun e => { e with hasOutlet := true })
  number : ∀ {β : Type} (g : Nat → β), P β [] (do
    modify fun e => { e with loops := e.loops + 1 }
    pure (g (← get).loops))
  chain : ∀ chain : String, P String (ofChain chain) (emitPipe scope chain)
  spreads : ∀ attributes : List Attribute,
    P (List String) (ofDirectives attributes) (emitDirectives scope attributes)

/-! ## Loops -/

section

variable {ι : Type} {P : (α : Type) → List ι → Emit α → Prop} (h : Composes P) {α β : Type}
  {xs ys : List ι}

include h

/-- A first part that meets nothing. -/
theorem Composes.after {x : Emit α} {f : α → Emit β} (hx : P α [] x) (hf : ∀ a, P β ys (f a)) :
    P β ys (x >>= f) := h.seq hx hf

/-- A last part that meets nothing. -/
theorem Composes.before {x : Emit α} {f : α → Emit β} (hx : P α xs x) (hf : ∀ a, P β [] (f a)) :
    P β xs (x >>= f) := by
  have hseq := h.seq hx hf
  rwa [List.append_nil] at hseq

theorem Composes.mapM {log : α → List ι} {f : α → Emit β} (hf : ∀ a, P β (log a) (f a))
    (as : List α) : P (List β) (as.flatMap log) (as.mapM f) := by
  induction as with
  | nil => exact h.ret []
  | cons a as ih =>
    rw [List.mapM_cons, List.flatMap_cons]
    exact h.seq (hf a) fun b => h.before ih fun bs => h.ret (b :: bs)

theorem Composes.filterMapM {log : α → List ι} {f : α → Emit (Option β)}
    (hf : ∀ a, P (Option β) (log a) (f a)) (as : List α) :
    P (List β) (as.flatMap log) (as.filterMapM f) := by
  induction as with
  | nil => exact h.ret []
  | cons a as ih =>
    rw [List.filterMapM_cons, List.flatMap_cons]
    refine h.seq (hf a) fun b => ?_
    cases b with
    | none => exact ih
    | some b => exact h.before ih fun bs => h.ret (b :: bs)

/-- A loop whose rounds meet nothing. -/
theorem Composes.mapM_nil {f : α → Emit β} (hf : ∀ a, P β [] (f a)) (as : List α) :
    P (List β) [] (as.mapM f) := by
  have hnil : as.flatMap (fun _ => ([] : List ι)) = [] :=
    List.flatMap_eq_nil_iff.mpr fun _ _ => rfl
  exact hnil ▸ h.mapM hf as

theorem Composes.filterMapM_nil {f : α → Emit (Option β)} (hf : ∀ a, P (Option β) [] (f a))
    (as : List α) : P (List β) [] (as.filterMapM f) := by
  have hnil : as.flatMap (fun _ => ([] : List ι)) = [] :=
    List.flatMap_eq_nil_iff.mpr fun _ _ => rfl
  exact hnil ▸ h.filterMapM hf as

theorem Composes.filterM_nil {f : α → Emit Bool} (hf : ∀ a, P Bool [] (f a)) (as : List α) :
    P (List α) [] (as.filterM f) := by
  have haux : ∀ kept, P (List α) [] (as.filterAuxM f kept) := by
    induction as with
    | nil => exact fun kept => h.ret kept
    | cons a as ih => exact fun kept => h.after (hf a) fun _ => ih _
  exact h.after (haux []) fun kept => h.ret kept.reverse

end

/-- Whatever the condition is. -/
theorem kept_either {ι α : Type} {P : (α : Type) → List ι → Emit α → Prop} {c : Prop}
    [Decidable c] {xs : List ι} {x y : Emit α} (hx : P α xs x) (hy : P α xs y) :
    P α xs (if c then x else y) := by
  split
  · exact hx
  · exact hy

/-- What is left out meets nothing. -/
theorem kept_ite {ι α : Type} {P : (α : Type) → List ι → Emit α → Prop} {c : Prop} [Decidable c]
    {xs : List ι} {x y : Emit α} (hx : P α [] x) (hy : P α xs y) :
    P α (if c then [] else xs) (if c then x else y) := by
  split
  · exact hx
  · exact hy

/-! ## Parts of elements -/

/-- A directive where it stands: a spread, if it is registered. -/
def emitDirective (scope : Scope) (a : Attribute) : Emit (Option String) :=
  if a.isBuiltIn then pure none
  else
    match applyDirective scope.directives a.name a.value with
    | none => do
      warn .unknownDirective ("Unknown directive *" ++ a.name ++ " ignored")
      pure none
    | some spread => do
      modify fun e => { e with usedDirectives := Pipe.addOnce e.usedDirectives a.name }
      pure (some spread)

theorem emitDirectives_eq (scope : Scope) (attributes : List Attribute) :
    emitDirectives scope attributes =
      (directives attributes).filterMapM (emitDirective scope) := rfl

theorem warnAll_nil : warnAll [] = pure () := by
  unfold warnAll
  simp only [List.append_nil]
  rfl

/-- What is warned about the conditions of an element. -/
def conditionWarnings (attributes : List Attribute) : List Warning :=
  let test := directive? "if" attributes
  (if test.any fun a => isBlankText a.expression then
    [⟨.emptyIf, "*if directive has empty condition. Usage: *if=\"someCondition\"", .warning⟩]
  else []) ++
  if (directive? "else" attributes).isSome && test.isNone then
    [⟨.orphanElse, "*else directive found without *if. *else must be used together with *if " ++
      "on the same element", .warning⟩]
  else []

/-- Checking the conditions of an element does nothing but warn about them. -/
theorem checkConditions_eq (attributes : List Attribute) :
    checkConditions attributes = warnAll (conditionWarnings attributes) := by
  unfold checkConditions conditionWarnings
  cases directive? "if" attributes with
  | none =>
    by_cases helse : (directive? "else" attributes).isSome = true
    · rw [helse]
      rfl
    · rw [Bool.eq_false_iff.mpr helse]
      exact warnAll_nil.symm
  | some test =>
    have hif : (some test).isNone = false := rfl
    dsimp only
    rw [hif, Bool.and_false, Option.any_some]
    by_cases hblank : isBlankText test.expression = true
    · rw [if_pos hblank, if_pos hblank]
      rfl
    · rw [if_neg hblank, if_neg hblank]
      exact warnAll_nil.symm

theorem code_of_mem_conditionWarnings {attributes : List Attribute} {w : Warning}
    (h : w ∈ conditionWarnings attributes) : w.code = .emptyIf ∨ w.code = .orphanElse := by
  rcases List.mem_append.mp h with h | h
  · split at h
    · rw [List.mem_singleton.mp h]
      exact .inl rfl
    · exact absurd h List.not_mem_nil
  · split at h
    · rw [List.mem_singleton.mp h]
      exact .inr rfl
    · exact absurd h List.not_mem_nil

theorem code_of_mem_ofHead {item rest : List Char} {ws : List Warning} {w : Warning}
    (hws : ∀ w ∈ ws, w.code = .malformedFor) (h : w ∈ (Loop.ofHead item rest ws).2) :
    w.code = .malformedFor := by
  have hclauses : ∀ (cs : List Loop.Clause) (acc : Loop × List Warning),
      (∀ w ∈ acc.2, w.code = .malformedFor) →
      ∀ w ∈ (cs.foldl Loop.addClause acc).2, w.code = .malformedFor := by
    intro cs
    induction cs with
    | nil => exact fun acc hacc => hacc
    | cons c cs ih =>
      intro acc hacc
      refine ih _ ?_
      cases c with
      | index i => exact hacc
      | trackBy key => exact hacc
      | unknown text =>
        intro w hw
        rcases List.mem_append.mp hw with hw | hw
        · exact hacc w hw
        · rw [List.mem_singleton.mp hw]
          rfl
  unfold Loop.ofHead at h
  dsimp only at h
  split at h
  · rcases List.mem_append.mp h with h | h
    · exact hws w h
    · rw [List.mem_singleton.mp h]
      rfl
  · exact hclauses _ _ hws w h

/-- The warnings about a loop are of the two kinds for loops. -/
theorem code_of_mem_parse {expression : String} {w : Warning}
    (h : w ∈ (Loop.parse expression).2) : w.code = .malformedFor ∨ w.code = .emptyFor := by
  unfold Loop.parse at h
  dsimp only at h
  split at h
  · rw [List.mem_singleton.mp h]
    exact .inr rfl
  · split at h
    · exact .inl (code_of_mem_ofHead (fun _ hw => absurd hw List.not_mem_nil) h)
    · split at h
      · refine .inl (code_of_mem_ofHead (fun w hw => ?_) h)
        rw [List.mem_singleton.mp hw]
        rfl
      · rw [List.mem_singleton.mp h]
        unfold Loop.headProblem
        dsimp only
        split
        · exact .inl rfl
        · split <;> exact .inl rfl

section

variable {ι : Type} {scope : Scope} {ofChain : String → List ι}
  {ofDirectives : List Attribute → List ι} {P : (α : Type) → List ι → Emit α → Prop}
  (h : Kept scope ofChain ofDirectives P)

include h

theorem kept_emitRefs (attributes : List Attribute) : P _ [] (emitRefs attributes) := by
  refine h.filterMapM_nil (fun a => ?_) _
  split
  · exact h.after (h.ref _) fun _ => h.ret _
  · exact h.ret none

theorem kept_emitClassAndStyle (attributes : List Attribute) :
    P _ [] (emitClassAndStyle attributes) := by
  refine h.after (h.filterM_nil (fun a => ?_) _) fun _ => h.ret _
  split
  · exact h.after (h.warned _ nofun) fun _ => h.ret false
  · exact h.ret true

theorem kept_emitTwoWays (tag : String) (attributes : List Attribute) :
    P _ [] (emitTwoWays tag attributes) := by
  refine h.after (h.mapM_nil (fun a => ?_) _) fun _ => h.ret _
  split
  · exact h.after (h.warned _ nofun) fun _ => h.ret []
  · exact h.ret _

theorem kept_emitEvent (a : Attribute) : P _ [] (emitEvent a) := by
  unfold emitEvent
  split
  · exact h.after (h.warned _ nofun) fun _ => h.ret none
  · exact h.ret _

/-- The value of a binding, whatever its name is. -/
theorem kept_bound (a : Attribute) (f : String → String) :
    P (Option String) (ofChain a.expression) (do
      let value := stripBindThis (← emitPipe scope a.expression)
      pure (some (f value))) :=
  h.before (h.chain _) fun _ => h.ret _

theorem kept_emitBinding {a : Attribute} (ha : a.binding = .property ∨ a.binding = .attribute) :
    P _ (a.chains.flatMap ofChain) (emitBinding scope a) := by
  have hlog : a.chains.flatMap ofChain = if isDynamicClass a = true then [] else
      if isBlankText a.expression = true then [] else ofChain a.expression := by
    unfold Attribute.chains isDynamicClass
    rcases ha with ha | ha <;> rw [ha] <;> by_cases hname : a.name = "class" <;>
      by_cases hblank : isBlankText a.expression = true <;> simp [hname, hblank]
  rw [hlog]
  refine kept_ite (P := P) (h.ret none) (kept_ite (P := P) ?_ ?_)
  · exact h.after (h.warned _ nofun) fun _ => h.ret none
  · exact kept_either (P := P) (h.after (h.warned _ nofun) fun _ => kept_bound h a _)
      (kept_bound h a _)

theorem kept_emitParts (parts : List ValuePart) :
    P _ ((parts.filterMap ValuePart.expression?).flatMap ofChain) (emitParts scope parts) := by
  have hlog : (parts.filterMap ValuePart.expression?).flatMap ofChain =
      parts.flatMap fun part => part.expression?.toList.flatMap ofChain := by
    induction parts with
    | nil => rfl
    | cons part parts ih =>
      rw [List.flatMap_cons, ← ih]
      cases part with
      | text cs => rfl
      | expression e => simp [ValuePart.expression?]
  rw [hlog]
  refine h.mapM (fun part => ?_) parts
  cases part with
  | text cs => exact h.ret _
  | expression e =>
    have hone : (ValuePart.expression e).expression?.toList.flatMap ofChain = ofChain e :=
      List.flatMap_singleton ..
    rw [hone]
    exact h.before (h.chain e) fun _ => h.ret _

theorem kept_emitPlain {a : Attribute} (ha : a.binding = .standard) :
    P _ (a.chains.flatMap ofChain) (emitPlain scope a) := by
  have hlog : a.chains.flatMap ofChain =
      if (a.name == "class" || a.name == "style" || hasStart a.name "#") = true then []
      else (plainForm (attributeName a.name) a.value).expressions.flatMap ofChain := by
    rw [Attribute.chains, ha, expressions_plainForm]
    dsimp only
    by_cases hname : a.name = "class" ∨ a.name = "style" ∨ hasStart a.name "#"
    · rw [if_pos hname, if_pos (by simpa [or_assoc] using hname), List.flatMap_nil]
    · rw [if_neg hname, if_neg (by simpa [or_assoc] using hname), Attribute.expression]
  rw [hlog]
  refine kept_ite (P := P) (h.ret none) ?_
  dsimp only
  generalize plainForm (attributeName a.name) a.value = form
  cases form with
  | interpolated parts => exact h.before (kept_emitParts h parts) fun _ => h.ret _
  | flag => exact h.ret _
  | number value => exact h.ret _
  | text value => exact h.ret _

theorem kept_emitAttribute (a : Attribute) :
    P _ (a.chains.flatMap ofChain) (emitAttribute scope a) := by
  unfold emitAttribute
  split
  · next ha =>
    rw [Attribute.chains, ha]
    exact kept_emitEvent h a
  · next ha => exact kept_emitBinding h (.inl ha)
  · next ha => exact kept_emitBinding h (.inr ha)
  · next ha => exact kept_emitPlain h ha
  · next hevent hproperty hattribute hstandard =>
    have hchains : a.chains = [] := by
      rw [Attribute.chains]
      split <;> first | rfl | contradiction
    rw [hchains]
    exact h.ret none

theorem kept_emitAttributes (tag : String) (attributes : List Attribute) :
    P _ (ofDirectives attributes ++ attributes.flatMap fun a => a.chains.flatMap ofChain)
      (emitAttributes scope tag attributes) :=
  h.after (kept_emitRefs h attributes) fun _ =>
    h.seq (h.spreads attributes) fun _ =>
      h.after (kept_emitClassAndStyle h attributes) fun _ =>
        h.after (kept_emitTwoWays h tag attributes) fun _ =>
          h.before (h.filterMapM (kept_emitAttribute h) attributes) fun _ => h.ret _

theorem kept_emitSlot (tag : String) (attributes : List Attribute) :
    P _ [] (emitSlot scope tag attributes) := by
  unfold emitSlot
  split
  · exact h.after h.outlet fun _ => h.ret _
  · split
    · exact h.after h.defaultSlot fun _ => h.ret _
    · exact h.after (h.slot _) fun _ => h.ret _

theorem kept_checkConditions (attributes : List Attribute) :
    P _ [] (checkConditions attributes) := by
  rw [checkConditions_eq]
  refine h.warnedAll fun w hw => ?_
  rcases code_of_mem_conditionWarnings hw with hcode | hcode <;> rw [hcode] <;> nofun

theorem kept_emitLoop (attributes : List Attribute) : P _ [] (emitLoop attributes) := by
  unfold emitLoop
  split
  · exact h.ret none
  · next a _ =>
    dsimp only
    refine h.after (h.warnedAll fun w hw => ?_) fun _ => ?_
    · rcases code_of_mem_parse hw with hcode | hcode <;> rw [hcode] <;> nofun
    · split
      · exact h.ret none
      · exact h.number fun count => some (_, count)

end

/-! ## Trees -/

mutual

/-- **A property that is kept holds of emitting a node**, with the log of the node. -/
theorem kept_emitNode {ι : Type} {scope : Scope} {ofChain : String → List ι}
    {ofDirectives : List Attribute → List ι} {P : (α : Type) → List ι → Emit α → Prop}
    (h : Kept scope ofChain ofDirectives P) (n : Node) :
    P _ (n.log ofChain ofDirectives) (emitNode scope n) := by
  cases n with
  | text content span =>
    rw [emitNode, Node.log]
    exact h.ret _
  | comment content span =>
    rw [emitNode, Node.log]
    exact h.ret _
  | interpolation expression span =>
    rw [emitNode, Node.log]
    exact kept_ite (P := P) (h.ret "") (h.before (h.chain expression) fun _ => h.ret _)
  | element tag selfClosing attributes children span =>
    rw [emitNode, Node.log]
    by_cases hslot : isSlot tag = true
    · rw [if_pos hslot, if_pos (by simp [hslot])]
      exact kept_emitSlot h tag attributes
    · by_cases houtlet : isOutlet tag = true
      · rw [if_neg hslot, if_pos houtlet, if_pos (by simp [houtlet])]
        exact h.after h.outlet fun _ => h.ret _
      · rw [if_neg hslot, if_neg houtlet, if_neg (by simp [hslot, houtlet])]
        exact h.after (kept_checkConditions h attributes) fun _ =>
          h.seq (kept_emitAttributes h tag attributes) fun _ =>
            h.before (kept_emitNodes h children) fun _ =>
              h.after (kept_emitLoop h attributes) fun _ => h.ret _

/-- **A property that is kept holds of emitting nodes**, with their log. -/
theorem kept_emitNodes {ι : Type} {scope : Scope} {ofChain : String → List ι}
    {ofDirectives : List Attribute → List ι} {P : (α : Type) → List ι → Emit α → Prop}
    (h : Kept scope ofChain ofDirectives P) (ns : List Node) :
    P _ (Node.logOf ofChain ofDirectives ns) (emitNodes scope ns) := by
  cases ns with
  | nil =>
    rw [emitNodes, Node.logOf]
    exact h.ret []
  | cons n ns =>
    rw [emitNodes, Node.logOf]
    exact h.seq (kept_emitNode h n) fun _ => h.before (kept_emitNodes h ns) fun _ => h.ret _

end

end Trellis.Jsx
