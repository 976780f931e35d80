import Mathlib.Data.List.Nodup
import Trellis.Proofs.Jsx.Gathered
import Trellis.Proofs.Registry

/-!
# Which directives a template applies

A directive that is not the compiler's own is looked up where it stands. Two walks meet such
directives: `Document.customDirectives` goes over all nodes, the emitter over the nodes that it
writes, which leaves out places for content and all inside of them. What the emitter applies is
found by the first walk, and without places for content the two agree.

* `Document.customUses` are the uses that the first walk meets, `Document.appliedUses` those of the
  emitter; `appliedUses_sublist` and `appliedUses_eq` compare them.
* `Applies` is what emitting does with uses: registered names are noted once, the others are warned
  about, each time.
* `emitNodes_congr`: emission looks up nothing but the names of the uses.
* `transform_directives` says all of this of a compiled template.
-/

namespace Trellis.Template

/-- The directives of an element that are not the compiler's own, by name. -/
def customNames (attributes : List Attribute) : List String :=
  (directives attributes).filterMap fun a => if a.isBuiltIn then none else some a.name

/-- The uses of such directives in a template, by name, in document order. -/
def Document.customUses (d : Document) : List String :=
  d.nodes.flatMap fun n => customNames n.attributes

/-- The uses in the part of a template that is emitted. -/
def Document.appliedUses (d : Document) : List String :=
  Node.logOf (fun _ => []) customNames d.children

/-- A place for content: a slot or an outlet. -/
def Node.isPlace (n : Node) : Bool := n.tag?.any fun tag => Jsx.isSlot tag || Jsx.isOutlet tag

theorem customDirectives_eq (d : Document) : d.customDirectives = d.customUses.eraseDups := by
  rw [← Jsx.Pipe.foldl_addOnce_nil, Document.customUses, Document.customDirectives,
    List.filterMap_flatMap]
  rfl

/-- An element that is emitted meets its own directives and then those inside of it. -/
theorem log_element {tag : String} (htag : (Jsx.isSlot tag || Jsx.isOutlet tag) = false)
    (selfClosing : Bool) (attributes : List Attribute) (children : List Node) (span : Span) :
    (Node.element tag selfClosing attributes children span).log (fun _ => []) customNames =
      customNames attributes ++ Node.logOf (fun _ => []) customNames children := by
  have hchains : (attributes.flatMap fun a => a.chains.flatMap fun _ => ([] : List String)) = [] :=
    List.flatMap_eq_nil_iff.mpr fun _ _ => List.flatMap_eq_nil_iff.mpr fun _ _ => rfl
  rw [Node.log, htag, hchains, List.append_nil]
  rfl

mutual

theorem log_sublist (n : Node) :
    (n.log (fun _ => []) customNames).Sublist
      (n.all.flatMap fun n => customNames n.attributes) := by
  cases n with
  | text content span => exact List.nil_sublist _
  | comment content span => exact List.nil_sublist _
  | interpolation expression span =>
    rw [Node.log]
    split <;> exact List.nil_sublist _
  | element tag selfClosing attributes children span =>
    by_cases htag : (Jsx.isSlot tag || Jsx.isOutlet tag) = true
    · rw [Node.log, if_pos htag]
      exact List.nil_sublist _
    · rw [log_element (by simpa using htag), Node.all, List.flatMap_cons]
      exact (List.Sublist.refl _).append (logOf_sublist children)

theorem logOf_sublist (ns : List Node) :
    (Node.logOf (fun _ => []) customNames ns).Sublist
      ((Node.allOf ns).flatMap fun n => customNames n.attributes) := by
  cases ns with
  | nil =>
    rw [Node.logOf]
    exact List.nil_sublist _
  | cons n ns =>
    rw [Node.logOf, Node.allOf, List.flatMap_append]
    exact (log_sublist n).append (logOf_sublist ns)

end

mutual

theorem log_eq_of_no_place {n : Node} (h : ∀ m ∈ n.all, m.isPlace = false) :
    n.log (fun _ => []) customNames = n.all.flatMap fun n => customNames n.attributes := by
  cases n with
  | text content span => rfl
  | comment content span => rfl
  | interpolation expression span =>
    rw [Node.log]
    split <;> rfl
  | element tag selfClosing attributes children span =>
    rw [Node.all] at h ⊢
    have htag : (Jsx.isSlot tag || Jsx.isOutlet tag) = false := h _ List.mem_cons_self
    have hchildren := logOf_eq_of_no_place fun m hm => h m (List.mem_cons_of_mem _ hm)
    rw [log_element htag, hchildren, List.flatMap_cons]
    rfl

theorem logOf_eq_of_no_place {ns : List Node} (h : ∀ m ∈ Node.allOf ns, m.isPlace = false) :
    Node.logOf (fun _ => []) customNames ns =
      (Node.allOf ns).flatMap fun n => customNames n.attributes := by
  cases ns with
  | nil => rfl
  | cons n ns =>
    rw [Node.allOf] at h ⊢
    have hn := log_eq_of_no_place fun m hm => h m (List.mem_append_left _ hm)
    have hns := logOf_eq_of_no_place fun m hm => h m (List.mem_append_right _ hm)
    rw [Node.logOf, hn, hns, List.flatMap_append]

end

/-- The emitter meets no use that is not in the template. -/
theorem appliedUses_sublist (d : Document) : d.appliedUses.Sublist d.customUses :=
  logOf_sublist d.children

/-- Without places for content the emitter meets every use. -/
theorem appliedUses_eq {d : Document} (h : ∀ n ∈ d.nodes, n.isPlace = false) :
    d.appliedUses = d.customUses :=
  logOf_eq_of_no_place h

end Trellis.Template

namespace Trellis.Jsx

open Trellis.Template

/-- The entry that a registry, if there is one, has for a name. -/
def entryOf? (registry : Option DirectiveRegistry) (name : String) : Option DirectiveEntry :=
  registry.bind (·.get? name)

/-- A registry, if there is one, has an entry for a name. -/
def isRegistered (registry : Option DirectiveRegistry) (name : String) : Bool :=
  (entryOf? registry name).isSome

/-- The warning about a directive that is not registered. -/
def unknownDirective (name : String) : Warning :=
  ⟨.unknownDirective, "Unknown directive *" ++ name ++ " ignored", .warning⟩

/-- The warnings about directives that are not registered. -/
def unknownAmong (ws : List Warning) : List Warning :=
  ws.filter fun w => w.code = .unknownDirective

theorem unknownAmong_append (ws vs : List Warning) :
    unknownAmong (ws ++ vs) = unknownAmong ws ++ unknownAmong vs :=
  List.filter_append ..

theorem unknownAmong_eq_nil {ws : List Warning} (h : ∀ w ∈ ws, w.code ≠ .unknownDirective) :
    unknownAmong ws = [] :=
  List.filter_eq_nil_iff.mpr fun w hw => by simpa using h w hw

/-! ## Emission -/

/-- What emitting does with the uses that it meets. -/
structure Applies (registry : Option DirectiveRegistry) (uses : List String) (e f : Emission) :
    Prop where
  used : f.usedDirectives =
    (uses.filter (isRegistered registry)).foldl Pipe.addOnce e.usedDirectives
  unknown : unknownAmong f.warnings =
    unknownAmong e.warnings ++ (uses.filter (!isRegistered registry ·)).map unknownDirective

/-- A step that meets no use. -/
theorem Applies.none {registry : Option DirectiveRegistry} {e f : Emission} {ws : List Warning}
    (hused : f.usedDirectives = e.usedDirectives) (hwarnings : f.warnings = e.warnings ++ ws)
    (hws : ∀ w ∈ ws, w.code ≠ .unknownDirective) : Applies registry [] e f where
  used := hused
  unknown := by
    rw [hwarnings, unknownAmong_append, unknownAmong_eq_nil hws]
    rfl

theorem Applies.same {registry : Option DirectiveRegistry} {e f : Emission}
    (hused : f.usedDirectives = e.usedDirectives) (hwarnings : f.warnings = e.warnings) :
    Applies registry [] e f :=
  .none hused (hwarnings.trans (List.append_nil _).symm) fun _ h => absurd h List.not_mem_nil

theorem Applies.trans {registry : Option DirectiveRegistry} {xs ys : List String}
    {e f g : Emission} (hef : Applies registry xs e f) (hfg : Applies registry ys f g) :
    Applies registry (xs ++ ys) e g where
  used := by rw [hfg.used, hef.used, List.filter_append, List.foldl_append]
  unknown := by
    rw [hfg.unknown, hef.unknown, List.filter_append, List.map_append, List.append_assoc]

/-- The computation meets the given uses, in order, and no more. -/
def Meets {α : Type} (registry : Option DirectiveRegistry) (uses : List String) (x : Emit α) :
    Prop :=
  ∀ e : Emission, Applies registry uses e (x.run e).2

theorem composes_meets (registry : Option DirectiveRegistry) :
    Composes fun _ => Meets registry where
  ret _ := fun _ => .same rfl rfl
  seq hx hf := fun e => (hx e).trans (hf _ _)

theorem meets_emitPipe (registry : Option DirectiveRegistry) (scope : Scope) (chain : String) :
    Meets registry [] (emitPipe scope chain) :=
  fun _ => .none rfl rfl fun _ hw => by
    rcases Pipe.code_of_mem_compile hw with hcode | hcode <;> rw [hcode] <;> nofun

/-- A directive is applied exactly if it is registered. -/
theorem applyDirective_eq_none_iff {registry : Option DirectiveRegistry} {name : String}
    {value : Option String} :
    applyDirective registry name value = none ↔ isRegistered registry name = false := by
  unfold applyDirective isRegistered entryOf?
  rw [Option.map_eq_none_iff, ← Option.not_isSome_iff_eq_none, Bool.not_eq_true]

/-- **A directive where it stands is applied or warned about.** -/
theorem meets_emitDirective (scope : Scope) (a : Attribute) :
    Meets scope.directives (if a.isBuiltIn then [] else [a.name]) (emitDirective scope a) := by
  refine kept_ite (P := fun _ => Meets scope.directives) ((composes_meets _).ret none) fun e => ?_
  cases happly : applyDirective scope.directives a.name a.value with
  | none =>
    have hname := applyDirective_eq_none_iff.mp happly
    constructor
    · rw [List.filter_cons_of_neg (by simp [hname])]
      rfl
    · rw [List.filter_cons_of_pos (by simp [hname])]
      exact unknownAmong_append e.warnings [unknownDirective a.name]
  | some spread =>
    have hname : isRegistered scope.directives a.name = true := by
      by_contra hnot
      rw [applyDirective_eq_none_iff.mpr (Bool.eq_false_iff.mpr hnot)] at happly
      cases happly
    constructor
    · rw [List.filter_cons_of_pos hname]
      rfl
    · rw [List.filter_cons_of_neg (by simp [hname])]
      exact (List.append_nil _).symm

theorem meets_emitDirectives (scope : Scope) (attributes : List Attribute) :
    Meets scope.directives (customNames attributes) (emitDirectives scope attributes) := by
  have hlog : customNames attributes = (directives attributes).flatMap fun a =>
      if a.isBuiltIn then [] else [a.name] := by
    rw [customNames]
    induction directives attributes with
    | nil => rfl
    | cons a as ih => by_cases ha : a.isBuiltIn = true <;> simp [ha, ih]
  rw [hlog, emitDirectives_eq]
  exact (composes_meets scope.directives).filterMapM (meets_emitDirective scope) _

/-- The steps of the emitter, with the uses that they meet. -/
theorem kept_meets (scope : Scope) :
    Kept scope (fun _ => []) customNames fun _ => Meets scope.directives where
  toComposes := composes_meets scope.directives
  warned _ hcode := fun _ => .none rfl rfl fun _ hw => List.mem_singleton.mp hw ▸ hcode
  warnedAll hws := fun _ => .none rfl rfl hws
  ref _ := fun _ => .same rfl rfl
  slot _ := fun _ => .same rfl rfl
  defaultSlot := fun _ => .same rfl rfl
  outlet := fun _ => .same rfl rfl
  number _ := fun _ => .same rfl rfl
  chain := meets_emitPipe scope.directives scope
  spreads := meets_emitDirectives scope

/-! ## Other registries -/

theorem filterMapM_congr {α β : Type} {f g : α → Emit (Option β)} {as : List α}
    (h : ∀ a ∈ as, f a = g a) : as.filterMapM f = as.filterMapM g := by
  induction as with
  | nil => rfl
  | cons a as ih =>
    rw [List.filterMapM_cons, List.filterMapM_cons, h a List.mem_cons_self,
      ih fun a ha => h a (List.mem_cons_of_mem _ ha)]

section

variable {scope : Scope} {other : Option DirectiveRegistry}

/-- Registries with the same entries for the directives of an element apply them in one way. -/
theorem emitDirectives_congr {attributes : List Attribute}
    (h : ∀ name ∈ customNames attributes, entryOf? other name = entryOf? scope.directives name) :
    emitDirectives { scope with directives := other } attributes =
      emitDirectives scope attributes := by
  refine filterMapM_congr fun a ha => ?_
  by_cases hbuiltIn : a.isBuiltIn = true
  · rw [if_pos hbuiltIn, if_pos hbuiltIn]
  · rw [if_neg hbuiltIn, if_neg hbuiltIn]
    have hname : a.name ∈ customNames attributes :=
      List.mem_filterMap.mpr ⟨a, ha, if_neg hbuiltIn⟩
    have happly : applyDirective other a.name a.value =
        applyDirective scope.directives a.name a.value := by
      unfold applyDirective
      rw [show other.bind (·.get? a.name) = _ from h _ hname]
      rfl
    rw [happly]

theorem emitAttributes_congr {tag : String} {attributes : List Attribute}
    (h : ∀ name ∈ customNames attributes, entryOf? other name = entryOf? scope.directives name) :
    emitAttributes { scope with directives := other } tag attributes =
      emitAttributes scope tag attributes := by
  unfold emitAttributes
  rw [emitDirectives_congr h]
  rfl

mutual

theorem emitNode_congr {n : Node}
    (h : ∀ name ∈ n.log (fun _ => []) customNames,
      entryOf? other name = entryOf? scope.directives name) :
    emitNode { scope with directives := other } n = emitNode scope n := by
  cases n with
  | text content span => rw [emitNode, emitNode]
  | comment content span => rw [emitNode, emitNode]
  | interpolation expression span =>
    rw [emitNode, emitNode]
    rfl
  | element tag selfClosing attributes children span =>
    rw [emitNode, emitNode]
    by_cases hslot : isSlot tag = true
    · rw [if_pos hslot, if_pos hslot]
      rfl
    · by_cases houtlet : isOutlet tag = true
      · rw [if_neg hslot, if_neg hslot, if_pos houtlet, if_pos houtlet]
      · have htag : (isSlot tag || isOutlet tag) = false := by simp [hslot, houtlet]
        rw [log_element htag] at h
        have hattributes := @emitAttributes_congr scope other tag attributes
          fun name hname => h name (List.mem_append_left _ hname)
        have hchildren := emitNodes_congr fun name hname => h name (List.mem_append_right _ hname)
        rw [if_neg hslot, if_neg hslot, if_neg houtlet, if_neg houtlet, hattributes, hchildren]

/-- **Emission looks up the directives that it meets, and no others.** -/
theorem emitNodes_congr {ns : List Node}
    (h : ∀ name ∈ Node.logOf (fun _ => []) customNames ns,
      entryOf? other name = entryOf? scope.directives name) :
    emitNodes { scope with directives := other } ns = emitNodes scope ns := by
  cases ns with
  | nil => rw [emitNodes, emitNodes]
  | cons n ns =>
    rw [Node.logOf] at h
    have hn := emitNode_congr fun name hname => h name (List.mem_append_left _ hname)
    have hns := emitNodes_congr fun name hname => h name (List.mem_append_right _ hname)
    rw [emitNodes, emitNodes, hn, hns]

end

theorem emitDocument_congr {d : Document}
    (h : ∀ name ∈ d.appliedUses, entryOf? other name = entryOf? scope.directives name) :
    emitDocument { scope with directives := other } d = emitDocument scope d := by
  unfold emitDocument
  rw [emitNodes_congr h]

end

/-! ## Templates -/

/-- The directives that a compiled template applies, each once. -/
theorem used_emitDocument (scope : Scope) (d : Document) :
    ((emitDocument scope d).run {}).2.usedDirectives =
      (d.appliedUses.filter (isRegistered scope.directives)).eraseDups :=
  (kept_emitNodes (kept_meets scope) d.children {}).used.trans (Pipe.foldl_addOnce_nil _)

/-- The warnings about directives of a template, one for each use. -/
theorem unknown_emitDocument (scope : Scope) (d : Document) :
    unknownAmong ((emitDocument scope d).run {}).2.warnings =
      (d.appliedUses.filter (!isRegistered scope.directives ·)).map unknownDirective :=
  (kept_emitNodes (kept_meets scope) d.children {}).unknown

/-- A name that is applied is one of the directives of the template. -/
theorem mem_customDirectives_of_applied {d : Document} {name : String}
    (h : name ∈ d.appliedUses) : name ∈ d.customDirectives := by
  rw [customDirectives_eq, List.mem_eraseDups]
  exact (appliedUses_sublist d).subset h

/-- The entries of the directives that a compiled template applies. -/
theorem directives_transform_eq (env : Environment) (inLayout : Bool) (template : String) :
    (transform env inLayout template).value.directives.map some =
      ((parseTemplate template).document.appliedUses.filter
        (isRegistered env.directives)).eraseDups.map (entryOf? env.directives) := by
  have hused : (transform env inLayout template).value.directives = lookUpAll env.directives _ :=
    congrArg (lookUpAll env.directives)
      (used_emitDocument (env.scope inLayout) (parseTemplate template).document)
  rw [hused]
  refine map_some_lookUpAll fun name hname => ?_
  exact (List.mem_filter.mp (List.mem_eraseDups.mp hname)).2

/-- The flaws of the markup are not about directives. -/
theorem unknownAmong_flaws (errors : List ParseError) :
    unknownAmong (errors.map ParseError.warning) = [] := by
  refine unknownAmong_eq_nil fun w hw => ?_
  obtain ⟨error, -, rfl⟩ := List.mem_map.mp hw
  unfold ParseError.warning
  cases error.flaw <;> nofun

/-- The warnings about directives of a compiled template. -/
theorem unknown_transform_eq (env : Environment) (inLayout : Bool) (template : String) :
    unknownAmong (transform env inLayout template).value.warnings =
      ((parseTemplate template).document.appliedUses.filter
        (!isRegistered env.directives ·)).map unknownDirective := by
  change unknownAmong (Emission.warnings _ ++ _) = _
  rw [unknownAmong_append, unknownAmong_flaws, List.append_nil]
  exact unknown_emitDocument (env.scope inLayout) (parseTemplate template).document

/-- A template is compiled in one way by registries with the same entries for its directives. -/
theorem transform_congr {env : Environment} {inLayout : Bool} {template : String}
    {other : Option DirectiveRegistry}
    (h : ∀ name ∈ (parseTemplate template).document.customDirectives,
      entryOf? other name = entryOf? env.directives name) :
    transform { env with directives := other } inLayout template =
      transform env inLayout template := by
  have happlied : ∀ name ∈ (parseTemplate template).document.appliedUses,
      entryOf? other name = entryOf? env.directives name :=
    fun name hname => h name (mem_customDirectives_of_applied hname)
  have hemit : emitDocument ({ env with directives := other }.scope inLayout)
      (parseTemplate template).document =
        emitDocument (env.scope inLayout) (parseTemplate template).document :=
    @emitDocument_congr (env.scope inLayout) other _ happlied
  have hlookUp : lookUpAll other
      ((emitDocument (env.scope inLayout) (parseTemplate template).document).run
        {}).2.usedDirectives = lookUpAll env.directives
      ((emitDocument (env.scope inLayout) (parseTemplate template).document).run
        {}).2.usedDirectives := by
    refine lookUpAll_congr fun name hname => ?_
    rw [used_emitDocument] at hname
    exact happlied name (List.mem_filter.mp (List.mem_eraseDups.mp hname)).1
  unfold transform
  dsimp only
  rw [hemit]
  generalize (emitDocument (env.scope inLayout) (parseTemplate template).document).run {} = r
    at hlookUp ⊢
  obtain ⟨jsx, e⟩ := r
  dsimp only at hlookUp ⊢
  rw [hlookUp]

/-- Names without repetition have different entries in a registry that was filled. -/
theorem nodup_of_map_some {registry : Option DirectiveRegistry}
    (hfilled : ∀ r, registry = some r → r.Filled) {names : List String} (hnames : names.Nodup)
    {entries : List DirectiveEntry} (h : entries.map some = names.map (entryOf? registry)) :
    entries.Nodup := by
  have hselectors : entries.map (some ·.selector) = names.map some := by
    have hmap := congrArg (List.map (Option.map (·.selector))) h
    rw [List.map_map, List.map_map] at hmap
    refine hmap.trans (List.map_congr_left fun name hname => ?_)
    obtain ⟨entry, -, hentry⟩ := List.mem_map.mp (h ▸ List.mem_map_of_mem hname)
    obtain ⟨r, hr, hget⟩ := Option.bind_eq_some_iff.mp hentry.symm
    rw [Function.comp_apply, ← hentry, Option.map_some,
      DirectiveRegistry.selector_of_get? (hfilled r hr) hget]
  have hsome : (entries.map (some ·.selector)).Nodup :=
    hselectors ▸ hnames.map fun _ _ => Option.some.inj
  exact .of_map _ hsome

/-- **The directives of a compiled template are those of its tree.** Registries that agree on them
compile the template in one way. The entries that the module imports belong to names of the tree,
one for each name, and are distinct in a registry that was filled by registering. In a template
without places for content they are the entries of the registered names, in order of first use, and
every use of another name is warned about. -/
theorem transform_directives (env : Environment) (inLayout : Bool) (template : String) :
    let d := (parseTemplate template).document
    let t := (transform env inLayout template).value
    (∀ other : Option DirectiveRegistry,
        (∀ name ∈ d.customDirectives, entryOf? other name = entryOf? env.directives name) →
        transform { env with directives := other } inLayout template =
          transform env inLayout template) ∧
      (∃ names : List String, names.Nodup ∧ names ⊆ d.customDirectives ∧
        t.directives.map some = names.map (entryOf? env.directives)) ∧
      ((∀ r, env.directives = some r → r.Filled) → t.directives.Nodup) ∧
      ((∀ n ∈ d.nodes, n.isPlace = false) →
        t.directives.map some =
            (d.customDirectives.filter (isRegistered env.directives)).map
              (entryOf? env.directives) ∧
          (t.warnings.filter fun w => w.code = .unknownDirective).length =
            (d.customUses.filter (!isRegistered env.directives ·)).length) := by
  intro d t
  have hentries := directives_transform_eq env inLayout template
  have hnodup : (d.appliedUses.filter (isRegistered env.directives)).eraseDups.Nodup :=
    Pipe.foldl_addOnce_nil _ ▸ Pipe.nodup_foldl_addOnce List.nodup_nil
  refine ⟨fun other h => transform_congr h, ⟨_, hnodup, fun name hname => ?_, hentries⟩,
    fun hfilled => nodup_of_map_some hfilled hnodup hentries, fun hplaces => ⟨?_, ?_⟩⟩
  · have happlied := (List.mem_filter.mp (List.mem_eraseDups.mp hname)).1
    exact mem_customDirectives_of_applied happlied
  · rw [hentries, customDirectives_eq, appliedUses_eq hplaces, Pipe.filter_eraseDups]
  · have hunknown := unknown_transform_eq env inLayout template
    rw [appliedUses_eq hplaces] at hunknown
    exact (congrArg List.length hunknown).trans (List.length_map _)

/-- A template with a registered directive, used twice, and one that is not. -/
def tipTemplate : String := "<p *tip *gone/><b *tip/>"

/-- The directive of a tip, and possibly that of a badge. -/
def tipRegistry (badge : Bool) : DirectiveRegistry :=
  .closed .directive ((.make "*tip" "Tip" "directives" "@" none ::
    if badge then [.make "badge" "Badge" "directives" "@" none] else []).map fun e =>
      (e.selector, e))

/-- Templates compiled against the directive of a tip. -/
def tipEnvironment : Environment := { directives := some (tipRegistry false) }

theorem customUses_tipTemplate :
    (parseTemplate tipTemplate).document.customUses = ["tip", "gone", "tip"] := by
  decide +kernel

theorem places_tipTemplate :
    (parseTemplate tipTemplate).document.nodes.any Node.isPlace = false := by
  decide +kernel

theorem filled_tipRegistry (badge : Bool) : (tipRegistry badge).Filled := by
  refine DirectiveRegistry.filled_closed fun e he => ?_
  rcases List.mem_cons.mp he with rfl | he
  · exact ⟨_, _, _, _, _, rfl⟩
  · cases badge with
    | false => cases he
    | true =>
      cases List.mem_singleton.mp he
      exact ⟨_, _, _, _, _, rfl⟩

theorem transform_directives_tipTemplate :
    transform { tipEnvironment with directives := some (tipRegistry true) } false tipTemplate =
        transform tipEnvironment false tipTemplate ∧
      (transform tipEnvironment false tipTemplate).value.directives.Nodup ∧
      (transform tipEnvironment false tipTemplate).value.directives.map some =
        [entryOf? (some (tipRegistry false)) "tip"] ∧
      ((transform tipEnvironment false tipTemplate).value.warnings.filter fun w =>
        w.code = .unknownDirective).length = 1 := by
  obtain ⟨hcongr, -, hnodup, hexact⟩ := transform_directives tipEnvironment false tipTemplate
  have hnames : (parseTemplate tipTemplate).document.customDirectives = ["tip", "gone"] := by
    rw [customDirectives_eq, customUses_tipTemplate]
    decide
  obtain ⟨hdirectives, hunknown⟩ := hexact fun n hn =>
    Bool.eq_false_iff.mpr (List.any_eq_false.mp places_tipTemplate n hn)
  refine ⟨hcongr _ ?_, hnodup ?_, ?_, ?_⟩
  · rw [hnames]
    decide
  · rintro r ⟨⟩
    exact filled_tipRegistry false
  · rw [hdirectives, hnames]
    decide
  · rw [hunknown, customUses_tipTemplate]
    decide

end Trellis.Jsx
