import Trellis.Proofs.Jsx.Written

/-!
# Bindings that can inject markup

The value of an attribute called `innerHTML`, `outerHTML` or `dangerouslySetInnerHTML` is taken as
markup, so an expression for it can inject code. This module compares the attributes of this kind in
the output with the warnings about them.

* `nameBefore` is the name that JSX reads before the `=` of a written attribute, and
  `Written.danger?` the attribute of the template behind a dangerous value.
* `isReported` says which of them are warned about: bindings of a property or an attribute that are
  called by the name itself.
* `filter_nodesWarnings`: a kind of warning that is only given about attributes can be read off the
  elements of the output.
* `transform_dangers`: the warnings about a template are those about its reported dangers, one each,
  in the order of the source. Two-way bindings, plain values with expressions in them, and names
  with something else before or after them are not reported (`unreported_contentTemplate`).
-/

namespace Trellis.Template

open Trellis.Jsx

mutual

/-- The tags and attributes of the elements that are written as elements, depth first. Those that
are places for content are not, with everything inside of them. -/
def Node.visited : Node → List (String × List Attribute)
  | .text _ _ => []
  | .comment _ _ => []
  | .interpolation _ _ => []
  | .element tag _ attributes children _ =>
    if isSlot tag || isOutlet tag then [] else (tag, attributes) :: Node.visitedOf children

/-- The elements among nodes that are written as elements. -/
def Node.visitedOf : List Node → List (String × List Attribute)
  | [] => []
  | n :: ns => n.visited ++ Node.visitedOf ns

end

/-- The elements of a template that are written as elements. -/
def Document.visited (d : Document) : List (String × List Attribute) := Node.visitedOf d.children

end Trellis.Template

namespace Trellis.Jsx

open Trellis.Text
open Trellis.Template

/-! ## Dangers -/

/-- A character of the name of an attribute in JSX. -/
def isAttributeChar (c : Char) : Bool := isWordChar c || c == '$' || c == '-' || c == ':'

/-- The name that JSX reads before the `=` of a written attribute: the last one, whatever stands
before it and however many blanks after it. -/
def nameBefore (written : String) : String :=
  String.ofList (((written.toList.reverse.dropWhile isBlank).takeWhile isAttributeChar).reverse)

/-- The attribute of the template behind a value that JSX takes as markup. -/
def Written.danger? : Written → Option Attribute
  | .bound source name _ => if isDangerousBinding (nameBefore name) then some source else none
  | .plain source name form =>
    if isDangerousBinding (nameBefore name) && !form.expressions.isEmpty then some source else none
  | _ => none

/-- The attributes behind the dangers of an element in the output. -/
def dangers (scope : Scope) (tag : String) (attributes : List Attribute) : List Attribute :=
  (written scope tag attributes).filterMap Written.danger?

/-- The dangers of a whole template, in the order of the output. -/
def dangersOf (scope : Scope) (d : Document) : List Attribute :=
  d.visited.flatMap fun (tag, attributes) => dangers scope tag attributes

/-- Binding to the attribute is warned about. -/
def isReported (a : Attribute) : Bool :=
  (a.binding == .property || a.binding == .attribute) && isDangerousBinding a.name

/-- The attribute is warned about. -/
def isWarnedAbout (a : Attribute) : Bool := isReported a && !isBlankText a.expression

theorem nameBefore_dangerous {name : String} (h : isDangerousBinding name = true) :
    nameBefore name = name ∧ attributeName name = name := by
  have hname : name ∈ dangerousBindings := List.contains_iff_mem.mp h
  simp only [dangerousBindings, List.mem_cons, List.not_mem_nil, or_false] at hname
  rcases hname with rfl | rfl | rfl <;> exact ⟨by decide +kernel, by decide +kernel⟩

theorem not_isDynamicClass {a : Attribute} (h : isDangerousBinding a.name = true) :
    isDynamicClass a = false := by
  rw [isDynamicClass, Bool.and_eq_false_iff]
  refine .inr (beq_eq_false_iff_ne.mpr fun hname => ?_)
  rw [hname] at h
  exact absurd h (by decide)

/-- The value of a binding is written out, whatever it is. -/
theorem text_bound_ne (source : Attribute) (name code : String) :
    (Written.bound source name code).text.isEmpty = false := by
  rw [Written.text, assign, ← Bool.not_eq_true, String.isEmpty_iff, ← String.toList_eq_nil_iff]
  simp

theorem source_of_danger {w : Written} {a : Attribute} (h : w.danger? = some a) :
    w.source? = some a := by
  cases w with
  | bound source name code =>
    rw [Written.danger?] at h
    split at h
    · exact h
    · cases h
  | plain source name form =>
    rw [Written.danger?] at h
    split at h
    · exact h
    · cases h
  | _ => cases h

/-- What is written in an attribute's own place comes from it. -/
theorem source_of_writtenOwn {scope : Scope} {a b : Attribute} {w : Written}
    (hw : writtenOwn scope a = some w) (hb : w.source? = some b) : b = a := by
  rw [writtenOwn] at hw
  split at hw
  · split at hw
    · cases hw
    · obtain rfl := Option.some.inj hw
      cases hb
  · split at hw
    · cases hw
    · obtain rfl := Option.some.inj hw
      exact (Option.some.inj hb).symm
  · split at hw
    · cases hw
    · obtain rfl := Option.some.inj hw
      exact (Option.some.inj hb).symm
  · split at hw
    · cases hw
    · obtain rfl := Option.some.inj hw
      exact (Option.some.inj hb).symm
  · cases hw

/-- The value of a two-way binding comes from the binding. -/
theorem source_of_writtenTwoWay {tag : String} {a b : Attribute} {w : Written}
    (hw : w ∈ writtenTwoWay tag a) (hb : w.source? = some b) : b = a := by
  have hpair : ∀ name code name' code', w ∈ [.bound a name code, .handler name' code'] → b = a := by
    intro name code name' code' hmem
    rcases List.mem_cons.mp hmem with rfl | hmem
    · exact (Option.some.inj hb).symm
    · rw [List.mem_singleton.mp hmem] at hb
      cases hb
  rw [writtenTwoWay] at hw
  split at hw
  · exact absurd hw List.not_mem_nil
  · dsimp only at hw
    split at hw
    · exact hpair _ _ _ _ hw
    · split at hw
      · exact hpair _ _ _ _ hw
      · exact hpair _ _ _ _ hw

/-- The reported dangers among written attributes. -/
def reportedIn (ws : List Written) : List Attribute :=
  (ws.filterMap Written.danger?).filter isReported

/-- **An attribute in its own place** is behind a reported danger exactly if it is warned about. -/
theorem reportedIn_writtenOwn (scope : Scope) (a : Attribute) :
    reportedIn ((writtenOwn scope a).toList.filter (!·.text.isEmpty)) =
      if isWarnedAbout a then [a] else [] := by
  by_cases hreported : isReported a = true
  · obtain ⟨hform, hdanger⟩ := Bool.and_eq_true_iff.mp hreported
    have hbinding : a.binding = .property ∨ a.binding = .attribute := by simpa using hform
    obtain ⟨hbefore, hsame⟩ := nameBefore_dangerous hdanger
    have hname : (if a.binding == .attribute then a.name else attributeName a.name) = a.name := by
      rw [hsame, ite_self]
    rw [writtenOwn_binding hbinding, not_isDynamicClass hdanger, hname, isWarnedAbout, hreported,
      Bool.false_or, Bool.true_and]
    cases isBlankText a.expression with
    | true => rfl
    | false =>
      have hname : ∀ code, (Written.bound a a.name code).danger? = some a := fun code => by
        rw [Written.danger?, hbefore, if_pos hdanger]
      rw [if_neg Bool.false_ne_true, Option.toList_some,
        List.filter_cons_of_pos (by rw [text_bound_ne]; rfl), reportedIn,
        List.filterMap_cons_some (hname _), List.filter_cons_of_pos hreported]
      rfl
  · have hquiet : isWarnedAbout a = false := by
      rw [isWarnedAbout, Bool.eq_false_iff.mpr hreported, Bool.false_and]
    rw [hquiet, if_neg Bool.false_ne_true, reportedIn, List.filter_eq_nil_iff]
    intro b hb
    obtain ⟨w, hw, hdanger⟩ := List.mem_filterMap.mp hb
    have hown : writtenOwn scope a = some w := Option.mem_toList.mp (List.mem_filter.mp hw).1
    rw [source_of_writtenOwn hown (source_of_danger hdanger)]
    exact hreported

theorem reportedIn_append (ws us : List Written) :
    reportedIn (ws ++ us) = reportedIn ws ++ reportedIn us := by
  rw [reportedIn, List.filterMap_append, List.filter_append, reportedIn, reportedIn]

theorem reportedIn_eq_nil {ws : List Written}
    (h : ∀ w ∈ ws, ∀ a, w.danger? = some a → isReported a = false) : reportedIn ws = [] := by
  refine List.filter_eq_nil_iff.mpr fun a ha => ?_
  obtain ⟨w, hw, hdanger⟩ := List.mem_filterMap.mp ha
  rw [h w hw a hdanger]
  exact Bool.false_ne_true

theorem reportedIn_own (scope : Scope) (attributes : List Attribute) :
    reportedIn ((attributes.filterMap (writtenOwn scope)).filter (!·.text.isEmpty)) =
      attributes.filter isWarnedAbout := by
  induction attributes with
  | nil => rfl
  | cons a as ih =>
    have hcons : (a :: as).filterMap (writtenOwn scope) =
        (writtenOwn scope a).toList ++ as.filterMap (writtenOwn scope) := by
      cases hw : writtenOwn scope a with
      | none => exact List.filterMap_cons_none hw
      | some w => exact List.filterMap_cons_some hw
    rw [hcons, List.filter_append, reportedIn_append, reportedIn_writtenOwn, ih, List.filter_cons]
    split <;> rfl

/-- **The reported dangers of an element** are behind the attributes that are warned about. -/
theorem reportedIn_written (scope : Scope) (tag : String) (attributes : List Attribute) :
    reportedIn (written scope tag attributes) = attributes.filter isWarnedAbout := by
  have hrefs : reportedIn (writtenRefs attributes) = [] := by
    refine reportedIn_eq_nil fun w hw a hdanger => ?_
    obtain ⟨b, -, hb⟩ := List.mem_filterMap.mp hw
    split at hb
    · obtain rfl := Option.some.inj hb
      cases hdanger
    · cases hb
  have hspreads : reportedIn ((directives attributes).filterMap (writtenDirective scope)) = [] := by
    refine reportedIn_eq_nil fun w hw a hdanger => ?_
    obtain ⟨b, -, hb⟩ := List.mem_filterMap.mp hw
    rw [writtenDirective] at hb
    split at hb
    · cases hb
    · obtain ⟨spread, -, rfl⟩ := Option.map_eq_some_iff.mp hb
      cases hdanger
  have hmerged : reportedIn (writtenMerged attributes) = [] := by
    refine reportedIn_eq_nil fun w hw a hdanger => ?_
    obtain ⟨text, -, rfl⟩ := List.mem_map.mp hw
    cases hdanger
  have htwoWays : reportedIn ((twoWays attributes).flatMap (writtenTwoWay tag)) = [] := by
    refine reportedIn_eq_nil fun w hw a hdanger => ?_
    obtain ⟨b, hb, hwb⟩ := List.mem_flatMap.mp hw
    have hform : b.binding = .twoWay := by
      simpa [twoWays, ofBinding] using (List.mem_filter.mp hb).2
    simp [isReported, source_of_writtenTwoWay hwb (source_of_danger hdanger), hform]
  rw [written, reportedIn_append, reportedIn_append, reportedIn_append, reportedIn_append, hrefs,
    hspreads, hmerged, htwoWays, reportedIn_own]
  rfl

/-! ## Warnings about attributes -/

/-- A kind of warning that is only given about attributes. -/
structure OnlyAttributes (p : WarningCode → Bool) : Prop where
  chain : p .unknownPipe = false ∧ p .emptyPipeName = false
  condition : p .emptyIf = false ∧ p .orphanElse = false
  loop : p .malformedFor = false ∧ p .emptyFor = false

section

variable {p : WarningCode → Bool}

theorem filter_eq_nil_of_code {ws : List Warning} (h : ∀ w ∈ ws, p w.code = false) :
    ws.filter (p ·.code) = [] :=
  List.filter_eq_nil_iff.mpr fun w hw => by simp [h w hw]

theorem OnlyAttributes.compile (hp : OnlyAttributes p) (registry : Option PipeRegistry)
    (chain : String) :
    (Pipe.compile registry chain).warnings.filter (p ·.code) = [] := by
  refine filter_eq_nil_of_code fun w hw => ?_
  rcases Pipe.code_of_mem_compile hw with hcode | hcode <;> rw [hcode]
  · exact hp.chain.1
  · exact hp.chain.2

mutual

theorem filter_nodeWarnings (hp : OnlyAttributes p) (scope : Scope) (n : Node) :
    (nodeWarnings scope n).filter (p ·.code) =
      n.visited.flatMap fun x => (attributeWarnings scope x.2).filter (p ·.code) := by
  cases n with
  | text content span => rw [nodeWarnings, Node.visited]; rfl
  | comment content span => rw [nodeWarnings, Node.visited]; rfl
  | interpolation expression span =>
    rw [nodeWarnings, Node.visited]
    split
    · rfl
    · exact hp.compile _ _
  | element tag selfClosing attributes children span =>
    rw [nodeWarnings, Node.visited]
    split
    · rfl
    · have hconditions : (conditionWarnings attributes).filter (p ·.code) = [] := by
        refine filter_eq_nil_of_code fun w hw => ?_
        rcases code_of_mem_conditionWarnings hw with hcode | hcode <;> rw [hcode]
        · exact hp.condition.1
        · exact hp.condition.2
      have hloop : (loopWarnings attributes).filter (p ·.code) = [] := by
        refine filter_eq_nil_of_code fun w hw => ?_
        rw [loopWarnings] at hw
        split at hw
        · exact absurd hw List.not_mem_nil
        · rcases code_of_mem_parse hw with hcode | hcode <;> rw [hcode]
          · exact hp.loop.1
          · exact hp.loop.2
      rw [List.filter_append, List.filter_append, List.filter_append, hconditions, hloop,
        filter_nodesWarnings hp scope children, List.nil_append, List.append_nil, List.flatMap_cons]

/-- **Warnings about attributes** can be read off the elements that are written as elements. -/
theorem filter_nodesWarnings (hp : OnlyAttributes p) (scope : Scope) (ns : List Node) :
    (nodesWarnings scope ns).filter (p ·.code) =
      (Node.visitedOf ns).flatMap fun x => (attributeWarnings scope x.2).filter (p ·.code) := by
  cases ns with
  | nil => rw [nodesWarnings, Node.visitedOf]; rfl
  | cons n ns =>
    rw [nodesWarnings, Node.visitedOf, List.filter_append, filter_nodeWarnings hp scope n,
      filter_nodesWarnings hp scope ns, List.flatMap_append]

end

end

/-- Warnings about attributes, one at most and only about those with a property. -/
theorem filter_flatMap_warnings {q : Warning → Bool} {f : Attribute → List Warning}
    {p : Attribute → Bool} {g : Attribute → Warning} {attributes : List Attribute}
    (h : ∀ a ∈ attributes, (f a).filter q = if p a then [g a] else []) :
    (attributes.flatMap f).filter q = (attributes.filter p).map g := by
  induction attributes with
  | nil => rfl
  | cons a as ih =>
    have has := ih fun b hb => h b (List.mem_cons_of_mem a hb)
    rw [List.flatMap_cons, List.filter_append, h a List.mem_cons_self, has, List.filter_cons]
    split <;> rfl

/-! ## Warnings about dangers -/

/-- The warnings about dangers. -/
def dangerous (ws : List Warning) : List Warning := ws.filter (·.code == .dangerousBinding)

theorem dangerous_append (ws us : List Warning) :
    dangerous (ws ++ us) = dangerous ws ++ dangerous us := List.filter_append _ _

theorem dangerous_eq_nil {ws : List Warning} (h : ∀ w ∈ ws, w.code ≠ .dangerousBinding) :
    dangerous ws = [] :=
  List.filter_eq_nil_iff.mpr fun w hw => by simpa using h w hw

/-- The warnings about a chain are about pipes. -/
theorem code_ne_dangerous {registry : Option PipeRegistry} {chain : String} {w : Warning}
    (hw : w ∈ (Pipe.compile registry chain).warnings) : w.code ≠ .dangerousBinding := by
  rcases Pipe.code_of_mem_compile hw with hcode | hcode <;> rw [hcode] <;> nofun

theorem dangerous_compile (registry : Option PipeRegistry) (chain : String) :
    dangerous (Pipe.compile registry chain).warnings = [] :=
  dangerous_eq_nil fun _ hw => code_ne_dangerous hw

/-- **An attribute in its own place** has one warning about danger, or none. -/
theorem dangerous_ownWarnings (scope : Scope) (a : Attribute) :
    dangerous (ownWarnings scope a) = if isWarnedAbout a then [dangerWarning a] else [] := by
  by_cases hbinding : a.binding = .property ∨ a.binding = .attribute
  · have hform : (a.binding == .property || a.binding == .attribute) = true := by
      simpa using hbinding
    rw [ownWarnings_binding hbinding, isWarnedAbout, isReported, hform, Bool.true_and]
    cases hdanger : isDangerousBinding a.name with
    | true =>
      rw [not_isDynamicClass hdanger, if_neg Bool.false_ne_true, Bool.true_and]
      cases isBlankText a.expression with
      | true => rfl
      | false =>
        rw [if_neg Bool.false_ne_true, if_pos rfl, dangerous_append, dangerous_compile]
        rfl
    | false =>
      rw [if_neg Bool.false_ne_true, List.nil_append]
      refine dangerous_eq_nil fun w hw => ?_
      split at hw
      · exact absurd hw List.not_mem_nil
      · split at hw
        · rw [List.mem_singleton.mp hw]
          exact fun hcode => by cases hcode
        · exact code_ne_dangerous hw
  · have hquiet : isWarnedAbout a = false := by
      simp [isWarnedAbout, isReported, hbinding]
    rw [hquiet, if_neg Bool.false_ne_true]
    refine dangerous_eq_nil fun w hw => ?_
    rw [ownWarnings] at hw
    split at hw
    · split at hw
      · rw [List.mem_singleton.mp hw]
        exact fun hcode => by cases hcode
      · exact absurd hw List.not_mem_nil
    · next h => exact absurd (.inl h) hbinding
    · next h => exact absurd (.inr h) hbinding
    · split at hw
      · exact absurd hw List.not_mem_nil
      · split at hw
        · obtain ⟨part, -, hw⟩ := List.mem_flatMap.mp hw
          cases part with
          | text cs => exact absurd hw List.not_mem_nil
          | expression e => exact code_ne_dangerous hw
        · exact absurd hw List.not_mem_nil
    · exact absurd hw List.not_mem_nil

/-- The warnings about an element's attributes. -/
theorem dangerous_attributeWarnings (scope : Scope) (attributes : List Attribute) :
    dangerous (attributeWarnings scope attributes) =
      (attributes.filter isWarnedAbout).map dangerWarning := by
  have hdirectives :
      dangerous ((directives attributes).flatMap (directiveWarnings scope)) = [] := by
    refine dangerous_eq_nil fun w hw => ?_
    obtain ⟨a, -, hw⟩ := List.mem_flatMap.mp hw
    rw [directiveWarnings] at hw
    split at hw
    · exact absurd hw List.not_mem_nil
    · rw [List.mem_singleton.mp hw]
      exact fun hcode => by cases hcode
  have hmerged : dangerous ((oneWays attributes).flatMap mergeWarnings) = [] := by
    refine dangerous_eq_nil fun w hw => ?_
    obtain ⟨a, -, hw⟩ := List.mem_flatMap.mp hw
    rw [mergeWarnings] at hw
    split at hw
    · rw [List.mem_singleton.mp hw]
      exact fun hcode => by cases hcode
    · exact absurd hw List.not_mem_nil
  have htwoWays : dangerous ((twoWays attributes).flatMap twoWayWarnings) = [] := by
    refine dangerous_eq_nil fun w hw => ?_
    obtain ⟨a, -, hw⟩ := List.mem_flatMap.mp hw
    rw [twoWayWarnings] at hw
    split at hw
    · rw [List.mem_singleton.mp hw]
      exact fun hcode => by cases hcode
    · exact absurd hw List.not_mem_nil
  rw [attributeWarnings, dangerous_append, dangerous_append, dangerous_append, hdirectives,
    hmerged, htwoWays, dangerous,
    filter_flatMap_warnings fun a _ => dangerous_ownWarnings scope a]
  rfl

/-! ## Templates -/

theorem onlyAttributes_dangerous : OnlyAttributes (· == .dangerousBinding) :=
  ⟨⟨rfl, rfl⟩, ⟨rfl, rfl⟩, ⟨rfl, rfl⟩⟩

/-- The warnings about the elements of the output. -/
theorem dangerous_nodesWarnings (scope : Scope) (ns : List Node) :
    dangerous (nodesWarnings scope ns) =
      ((Node.visitedOf ns).flatMap fun x => x.2.filter isWarnedAbout).map dangerWarning := by
  have hnodes := filter_nodesWarnings onlyAttributes_dangerous scope ns
  rw [dangerous, hnodes, List.map_flatMap]
  exact congrArg (List.flatMap · _) (funext fun x => dangerous_attributeWarnings scope x.2)

/-- **Dangers and warnings**: an element of the output has the attributes that are written for it,
and the warnings of a template about danger are one for each of its reported dangers, in the order
of the source. -/
theorem transform_dangers (env : Environment) (inLayout : Bool) (template : String) :
    (∀ x ∈ (parseTemplate template).document.visited, ∀ e : Emission,
        ((emitAttributes (env.scope inLayout) x.1 x.2).run e).1 =
          (written (env.scope inLayout) x.1 x.2).map Written.text) ∧
      dangerous (transform env inLayout template).value.warnings =
        ((dangersOf (env.scope inLayout) (parseTemplate template).document).filter
          isReported).map dangerWarning := by
  refine ⟨fun x _ e => (tells_emitAttributes _ x.1 x.2 e).1, ?_⟩
  have hflaws : dangerous ((parseTemplate template).errors.map ParseError.warning) = [] := by
    refine dangerous_eq_nil fun w hw => ?_
    obtain ⟨error, -, rfl⟩ := List.mem_map.mp hw
    change error.flaw.code ≠ _
    cases error.flaw <;> nofun
  have hdangers : (dangersOf (env.scope inLayout) (parseTemplate template).document).filter
      isReported = (parseTemplate template).document.visited.flatMap fun x =>
        x.2.filter isWarnedAbout := by
    rw [dangersOf, List.filter_flatMap]
    exact congrArg (List.flatMap · _) (funext fun x => reportedIn_written _ x.1 x.2)
  rw [warnings_transform, dangerous_append, hflaws, List.append_nil, hdangers]
  exact dangerous_nodesWarnings _ _

/-! ### Dangers that are not reported -/

/-- A two-way binding, and a plain value with an expression in it. -/
def contentTemplate : String := "<p [(innerHTML)]=\"x\" outerHTML=\"\x7b\x7b y \x7d\x7d\"/>"

def contentAttributes : List Attribute :=
  [⟨.twoWay, "innerHTML", some "x", ⟨1, 4, 3, 19⟩⟩,
    ⟨.standard, "outerHTML", some "\x7b\x7b y \x7d\x7d", ⟨1, 22, 21, 39⟩⟩]

theorem parse_contentTemplate : parseTemplate contentTemplate =
    ⟨⟨[.element "p" true contentAttributes [] ⟨1, 1, 0, 42⟩], ⟨1, 1, 0, 42⟩⟩, []⟩ := by
  with_unfolding_all rfl

/-- Two values that JSX takes as markup, and no warning about either. -/
theorem unreported_contentTemplate :
    dangersOf {} (parseTemplate contentTemplate).document = contentAttributes ∧
      (transform {} false contentTemplate).value.jsx =
        "<p innerHTML=\x7bx\x7d onInput=\x7b(e) => x.value = e.target.innerHTML\x7d " ++
          "outerHTML=\x7b`$\x7by\x7d`\x7d />" ∧
      dangerous (transform {} false contentTemplate).value.warnings = [] := by
  refine ⟨?_, ?_, ?_⟩
  · rw [parse_contentTemplate]
    decide +kernel
  · rw [transform, parse_contentTemplate]
    decide +kernel
  · rw [warnings_transform, parse_contentTemplate]
    decide +kernel

end Trellis.Jsx
