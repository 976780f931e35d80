import Trellis.Proofs.Jsx.Names
import Trellis.Proofs.Jsx.Shape

/-!
# Elements whose attributes have different names

JSX keeps the last of two attributes of one name, so an attribute whose name is given again on the
same element is lost.

* `Distinct` are elements with raw names that differ, and no plain attribute called like a property
  binding. `Apart` lists what else tells their names in the output apart.
* `emitNode_names`: the names of such an element differ exactly if they are told apart.
  `apart_of_small`: they are if the element has names as HTML has them, at most one reference, and
  neither two-way nor attribute bindings, and no value is called like something else.
* `jsxNames_restyled`: a bound style is not merged with the bindings of its properties, as a bound
  class is, and replaces them.
-/

namespace Trellis.Jsx

open Trellis.Text
open Trellis.Template

/-! ## Elements whose names differ -/

/-- The raw names of an element differ, and no plain attribute is called like a property binding. -/
structure Distinct (attributes : List Attribute) : Prop where
  raw : (attributes.map Attribute.rawName).Nodup
  plain : ∀ a ∈ attributes, ∀ b ∈ attributes, a.binding = .standard → b.binding = .property →
    a.name ≠ b.name

/-- Attributes of different names are written under different names. -/
def Differ (written : String → String) (attributes : List Attribute) : Prop :=
  ∀ a ∈ attributes, ∀ b ∈ attributes, a.name ≠ b.name → written a.name ≠ written b.name

/-- What tells the names of an element apart. -/
structure Apart (tag : String) (attributes : List Attribute) : Prop where
  /-- There is at most one reference. -/
  refs : (attributes.filter isRef).length ≤ 1
  /-- No two plain attributes or property bindings are spellings of one attribute. -/
  spellings : ∀ a ∈ attributes.filter isRespelt, ∀ b ∈ attributes.filter isRespelt,
    a.name ≠ b.name → ¬ SameAttribute a.name b.name
  /-- No attribute binding is called what one of them is written as. -/
  verbatim : ∀ a ∈ attributes.filter isVerbatim, ∀ b ∈ attributes.filter isRespelt,
    a.name ≠ attributeName b.name
  /-- No two-way binding gives a value that one of them gives. -/
  bound : ∀ a ∈ attributes.filter isTwoWay,
    (∀ b ∈ attributes.filter isVerbatim, twoWayValue tag a.name ≠ b.name) ∧
      ∀ b ∈ attributes.filter isRespelt, twoWayValue tag a.name ≠ attributeName b.name
  /-- Two-way bindings add different handlers. -/
  changes : Differ (twoWayHandler tag) (attributes.filter isTwoWay)
  /-- Events have different handlers. -/
  events : Differ eventName (attributes.filter isHandled)
  /-- No event has the handler that a two-way binding adds. -/
  listened : ∀ a ∈ attributes.filter isTwoWay, ∀ b ∈ attributes.filter isHandled,
    twoWayHandler tag a.name ≠ eventName b.name
  /-- No value is called like a handler. -/
  crossed : ∀ v ∈ valueNames tag attributes, v ∉ handlerNames tag attributes
  /-- No value is called like a reference, the class, the style or the key, if there is one. -/
  taken : ∀ v ∈ valueNames tag attributes, v ∉ takenNames attributes

theorem binding_of_isRespelt {a : Attribute} (h : isRespelt a = true) :
    a.binding = .standard ∨ a.binding = .property := by
  rw [isRespelt] at h
  split at h
  · next hb => exact .inl hb
  · next hb => exact .inr hb
  · cases h

theorem binding_of_isTwoWay {a : Attribute} (h : isTwoWay a = true) : a.binding = .twoWay :=
  beq_iff_eq.mp (Bool.and_eq_true_iff.mp h).1

theorem binding_of_isVerbatim {a : Attribute} (h : isVerbatim a = true) :
    a.binding = .attribute :=
  beq_iff_eq.mp (Bool.and_eq_true_iff.mp h).1

theorem binding_of_isHandled {a : Attribute} (h : isHandled a = true) : a.binding = .event :=
  beq_iff_eq.mp (Bool.and_eq_true_iff.mp h).1

/-- A class is not written under its own name. -/
theorem name_ne_of_isRespelt {a : Attribute} (h : isRespelt a = true) : a.name ≠ "class" := by
  intro hname
  rw [isRespelt, isDynamicClass, hname] at h
  cases hb : a.binding <;> simp [hb] at h

/-- Small names are not written as what is written elsewhere, unless they are called so. -/
theorem mem_of_respelt {a : Attribute} (h : isRespelt a = true) (hsmall : IsSmall a.name)
    (hname : attributeName a.name ∈ ["ref", "className", "style", "key"]) :
    a.name ∈ ["ref", "style", "key"] := by
  have hvalues : ∀ row ∈ attributeNames, row.2 ∈ ["ref", "className", "style", "key"] →
      row.1 = "class" := by
    decide +kernel
  rcases spells_or_self a.name with ⟨row, hrow, hspells, hvalue⟩ | hself
  · have hclass : a.name = "class" :=
      (hsmall.eq_of_spells hrow hspells).trans (hvalues row hrow (hvalue ▸ hname))
    exact absurd hclass (name_ne_of_isRespelt h)
  · have hne : a.name ≠ "className" := fun heq => by
      have hcapital := (hsmall 'N' (by rw [heq]; decide)).2
      exact absurd hcapital (by decide)
    rw [hself] at hname
    simpa [hne] using hname

section

variable {attributes : List Attribute}

/-- Of one form, attributes are told by their names. -/
theorem Distinct.eq_of_binding (h : Distinct attributes) {a b : Attribute} (ha : a ∈ attributes)
    (hb : b ∈ attributes) (hbinding : a.binding = b.binding) (hname : a.name = b.name) : a = b :=
  List.inj_on_of_nodup_map h.raw ha hb <| by
    rw [Attribute.rawName, Attribute.rawName, hbinding, hname]

theorem Distinct.eq_of_respelt (h : Distinct attributes) {a b : Attribute}
    (ha : a ∈ attributes.filter isRespelt) (hb : b ∈ attributes.filter isRespelt)
    (hname : a.name = b.name) : a = b := by
  obtain ⟨hmem, ha⟩ := List.mem_filter.mp ha
  obtain ⟨hmem', hb⟩ := List.mem_filter.mp hb
  rcases binding_of_isRespelt ha with ha | ha <;> rcases binding_of_isRespelt hb with hb | hb
  · exact h.eq_of_binding hmem hmem' (ha.trans hb.symm) hname
  · exact absurd hname (h.plain a hmem b hmem' ha hb)
  · exact absurd hname.symm (h.plain b hmem' a hmem hb ha)
  · exact h.eq_of_binding hmem hmem' (ha.trans hb.symm) hname

/-- Where names tell attributes, what they are written as differs if they are written apart. -/
theorem Distinct.nodup_map_iff (h : Distinct attributes) {p : Attribute → Bool}
    (hp : ∀ a ∈ attributes.filter p, ∀ b ∈ attributes.filter p, a.name = b.name → a = b)
    (written : String → String) :
    ((attributes.filter p).map fun a => written a.name).Nodup ↔
      Differ written (attributes.filter p) := by
  have hnodup : (attributes.filter p).Nodup := h.raw.of_map.filter p
  rw [List.nodup_map_iff_inj_on hnodup]
  refine forall₄_congr fun a ha b hb => ⟨fun hinj hne heq => hne ?_, fun hdiffer heq => ?_⟩
  · rw [hinj heq]
  · exact hp a ha b hb (not_not.mp fun hne => hdiffer hne heq)

theorem Distinct.nodup_map_iff_of_binding (h : Distinct attributes) {p : Attribute → Bool}
    {form : Binding} (hp : ∀ a, p a = true → a.binding = form) (written : String → String) :
    ((attributes.filter p).map fun a => written a.name).Nodup ↔
      Differ written (attributes.filter p) := by
  refine h.nodup_map_iff (fun a ha b hb hname => ?_) written
  obtain ⟨hmem, ha⟩ := List.mem_filter.mp ha
  obtain ⟨hmem', hb⟩ := List.mem_filter.mp hb
  exact h.eq_of_binding hmem hmem' ((hp a ha).trans (hp b hb).symm) hname

/-! ### The three kinds of names -/

theorem nodup_takenNames (attributes : List Attribute) :
    (takenNames attributes).Nodup ↔ (attributes.filter isRef).length ≤ 1 := by
  rw [takenNames, List.map_const', ← List.nodup_replicate (a := "ref")]
  generalize (attributes.filter isRef).length = n
  cases mergedClass attributes <;> cases mergedStyle attributes <;> cases usableFor attributes <;>
    simp [List.nodup_append, List.mem_replicate]

theorem mem_takenNames {name : String} (h : name ∈ takenNames attributes) :
    name ∈ ["ref", "className", "style", "key"] := by
  simp only [takenNames, List.mem_append, List.mem_map] at h
  obtain ((⟨_, _, rfl⟩ | ⟨_, _, rfl⟩) | ⟨_, _, rfl⟩) | ⟨_, _, rfl⟩ := h <;> simp

/-- Handlers are called `on…`. -/
theorem on_of_mem_handlerNames {tag name : String} (h : name ∈ handlerNames tag attributes) :
    ∃ event, name = "on" ++ event := by
  rcases List.mem_append.mp h with h | h
  · obtain ⟨a, -, rfl⟩ := List.mem_map.mp h
    rw [twoWayHandler]
    split
    · exact ⟨"Change", rfl⟩
    · exact ⟨"Input", rfl⟩
  · obtain ⟨a, -, rfl⟩ := List.mem_map.mp h
    exact eventName_start a.name

/-- Handlers are called like no reference, class, style or key. -/
theorem handlerNames_not_taken {tag name : String} (h : name ∈ handlerNames tag attributes) :
    name ∉ takenNames attributes := by
  obtain ⟨event, rfl⟩ := on_of_mem_handlerNames h
  intro htaken
  have hfree : ∀ taken ∈ ["ref", "className", "style", "key"], taken.toList.head? ≠ some 'o' := by
    decide
  exact hfree _ (mem_takenNames htaken) (by simp)

theorem twoWayHandler_of_value {tag m n : String} (h : twoWayValue tag m = twoWayValue tag n) :
    m = n ∨ twoWayHandler tag m = twoWayHandler tag n := by
  by_cases hselect : lower tag = "select"
  · exact .inr (by rw [twoWayHandler, twoWayHandler, if_pos (.inr hselect), if_pos (.inr hselect)])
  · refine .inl ?_
    rw [twoWayValue, twoWayValue, if_neg hselect, if_neg hselect] at h
    by_cases hm : m = "checked" <;> by_cases hn : n = "checked" <;> simp_all

theorem Distinct.nodup_handlerNames (h : Distinct attributes) (tag : String) :
    (handlerNames tag attributes).Nodup ↔
      Differ (twoWayHandler tag) (attributes.filter isTwoWay) ∧
        Differ eventName (attributes.filter isHandled) ∧
          ∀ a ∈ attributes.filter isTwoWay, ∀ b ∈ attributes.filter isHandled,
            twoWayHandler tag a.name ≠ eventName b.name := by
  rw [handlerNames, List.nodup_append,
    h.nodup_map_iff_of_binding fun _ => binding_of_isTwoWay,
    h.nodup_map_iff_of_binding fun _ => binding_of_isHandled]
  simp only [List.forall_mem_map]

/-- The values of an element differ if those of its two-way bindings do, which their handlers
decide. -/
theorem Distinct.nodup_valueNames (h : Distinct attributes) {tag : String}
    (hchanges : Differ (twoWayHandler tag) (attributes.filter isTwoWay)) :
    (valueNames tag attributes).Nodup ↔
      (∀ a ∈ attributes.filter isRespelt, ∀ b ∈ attributes.filter isRespelt,
        a.name ≠ b.name → ¬ SameAttribute a.name b.name) ∧
        (∀ a ∈ attributes.filter isVerbatim, ∀ b ∈ attributes.filter isRespelt,
          a.name ≠ attributeName b.name) ∧
          ∀ a ∈ attributes.filter isTwoWay,
            (∀ b ∈ attributes.filter isVerbatim, twoWayValue tag a.name ≠ b.name) ∧
              ∀ b ∈ attributes.filter isRespelt, twoWayValue tag a.name ≠ attributeName b.name := by
  have hvalues : ((attributes.filter isTwoWay).map fun a => twoWayValue tag a.name).Nodup := by
    rw [h.nodup_map_iff_of_binding fun _ => binding_of_isTwoWay]
    intro a ha b hb hne heq
    rcases twoWayHandler_of_value heq with hname | hhandler
    · exact hne hname
    · exact hchanges a ha b hb hne hhandler
  have hnames : ((attributes.filter isVerbatim).map fun a => a.name).Nodup :=
    (h.nodup_map_iff_of_binding (fun _ => binding_of_isVerbatim) id).mpr fun a _ b _ hne => hne
  have hspellings : ((attributes.filter isRespelt).map fun a => attributeName a.name).Nodup ↔
      ∀ a ∈ attributes.filter isRespelt, ∀ b ∈ attributes.filter isRespelt,
        a.name ≠ b.name → ¬ SameAttribute a.name b.name := by
    rw [h.nodup_map_iff fun a ha b hb => h.eq_of_respelt ha hb]
    refine forall₄_congr fun a _ b _ => forall_congr' fun hne => ?_
    rw [Ne, attributeName_eq_iff, or_iff_right hne]
  rw [valueNames, List.nodup_append, List.nodup_append, hspellings]
  simp only [hvalues, hnames, List.forall_mem_map, List.forall_mem_append, true_and]
  constructor
  · rintro ⟨hbound, hspell, hbound', hverbatim⟩
    exact ⟨hspell, hverbatim, fun a ha => ⟨hbound a ha, hbound' a ha⟩⟩
  · rintro ⟨hspell, hverbatim, hbound⟩
    exact ⟨fun a ha => (hbound a ha).1, hspell, fun a ha => (hbound a ha).2, hverbatim⟩

/-- **The names of an element differ** exactly if they are told apart. -/
theorem Distinct.nodup_jsxNames_iff (h : Distinct attributes) (scope : Scope) (tag : String) :
    (jsxNames scope tag attributes).Nodup ↔ Apart tag attributes := by
  rw [(perm_jsxNames scope tag attributes).nodup_iff, List.nodup_append, List.nodup_append,
    nodup_takenNames]
  constructor
  · -- That two-way bindings differ in their handlers is needed for the values.
    rintro ⟨hrefs, ⟨hvalues, hhandlers, hcrossed⟩, htaken⟩
    obtain ⟨hchanges, hevents, hlistened⟩ := (h.nodup_handlerNames tag).mp hhandlers
    obtain ⟨hspellings, hverbatim, hbound⟩ := (h.nodup_valueNames hchanges).mp hvalues
    exact {
      refs := hrefs
      spellings := hspellings
      verbatim := hverbatim
      bound := hbound
      changes := hchanges
      events := hevents
      listened := hlistened
      crossed := fun v hv hmem => hcrossed v hv v hmem rfl
      taken := fun v hv hmem => htaken v hmem v (List.mem_append_left _ hv) rfl }
  · intro hapart
    have hvalues := (h.nodup_valueNames hapart.changes).mpr
      ⟨hapart.spellings, hapart.verbatim, hapart.bound⟩
    have hhandlers := (h.nodup_handlerNames tag).mpr
      ⟨hapart.changes, hapart.events, hapart.listened⟩
    refine ⟨hapart.refs, ⟨hvalues, hhandlers, ?_⟩, ?_⟩
    · rintro v hv w hmem rfl
      exact hapart.crossed v hv hmem
    · rintro v htaken w hmem rfl
      rcases List.mem_append.mp hmem with hv | hv
      · exact hapart.taken v hv htaken
      · exact handlerNames_not_taken hv htaken

/-- An element with names as HTML has them, no two-way and no attribute bindings, and at most one
reference, has names that are told apart, if no value is called like an event handler, a reference,
the style or a key. -/
theorem apart_of_small (tag : String)
    (hsmall : ∀ a ∈ attributes, IsSmall a.name)
    (hforms : ∀ a ∈ attributes, a.binding ≠ .twoWay ∧ a.binding ≠ .attribute)
    (hrefs : (attributes.filter isRef).length ≤ 1)
    (hfree : ∀ a ∈ attributes.filter isRespelt,
      hasStart a.name "on" = false ∧ a.name ∉ ["ref", "style", "key"]) :
    Apart tag attributes := by
  have htwoWays : attributes.filter isTwoWay = [] :=
    List.filter_eq_nil_iff.mpr fun a ha htwoWay => (hforms a ha).1 (binding_of_isTwoWay htwoWay)
  have hverbatims : attributes.filter isVerbatim = [] :=
    List.filter_eq_nil_iff.mpr fun a ha hverbatim =>
      (hforms a ha).2 (binding_of_isVerbatim hverbatim)
  have hvalues : valueNames tag attributes =
      (attributes.filter isRespelt).map fun a => attributeName a.name := by
    rw [valueNames, htwoWays, hverbatims]
    rfl
  refine {
    refs := hrefs
    spellings := fun a ha b hb hne hsame => hne (hsame.eq_of_small
      (hsmall a (List.mem_of_mem_filter ha)) (hsmall b (List.mem_of_mem_filter hb)))
    verbatim := by simp [hverbatims]
    bound := by simp [htwoWays]
    changes := by simp [Differ, htwoWays]
    events := fun a ha b hb hne heq => hne (eventName_inj
      (hsmall a (List.mem_of_mem_filter ha)) (hsmall b (List.mem_of_mem_filter hb)) heq)
    listened := by simp [htwoWays]
    crossed := ?_
    taken := ?_ }
  · rw [hvalues]
    intro v hv hhandler
    obtain ⟨a, ha, rfl⟩ := List.mem_map.mp hv
    obtain ⟨event, hon⟩ := on_of_mem_handlerNames hhandler
    have hstart := (hfree a ha).1
    rw [← attributeName_of_on hon, hon, hasStart_append] at hstart
    cases hstart
  · rw [hvalues]
    intro v hv htaken
    obtain ⟨a, ha, rfl⟩ := List.mem_map.mp hv
    obtain ⟨hmem, hrespelt⟩ := List.mem_filter.mp ha
    exact (hfree a ha).2 (mem_of_respelt hrespelt (hsmall a hmem) (mem_takenNames htaken))

end

/-- **The names of an element in the output**: its attributes are the written ones and a key in a
loop, each under its name, and the names differ exactly if they are told apart. -/
theorem emitNode_names {attributes : List Attribute} (h : Distinct attributes) (scope : Scope)
    (tag : String) (hslot : isSlot tag = false) (houtlet : isOutlet tag = false)
    (selfClosing : Bool) (children : List Node) (span : Span) :
    (∀ e : Emission, ∃ inside count,
      ((emitNode scope (.element tag selfClosing attributes children span)).run e).1 =
        structuralJsx (elementJsx (jsxName tag) ((written scope tag attributes).map Written.text ++
          ((usableFor attributes).map (keyAttribute · count)).toList) inside)
          (usableFor attributes) attributes) ∧
      (∀ w ∈ written scope tag attributes, ∀ name ∈ w.name?, Names name w.text) ∧
      (∀ loop count, Names "key" (keyAttribute loop count)) ∧
      ((jsxNames scope tag attributes).Nodup ↔ Apart tag attributes) :=
  ⟨emitNode_element scope hslot houtlet selfClosing attributes children span,
    fun _ _ _ hname => names_text hname, names_keyAttribute, h.nodup_jsxNames_iff scope tag⟩

/-- A field in a loop: `*for`, `#box`, `class`, `[class.on]`, `[(value)]`, `(click)`, `tabindex`. -/
def fieldAttributes : List Attribute :=
  [⟨.directive, "for", some "x of xs", ⟨1, 8, 7, 21⟩⟩, ⟨.standard, "#box", none, ⟨1, 23, 22, 26⟩⟩,
    ⟨.standard, "class", some "a", ⟨1, 28, 27, 36⟩⟩,
    ⟨.classToggle, "on", some "lit", ⟨1, 38, 37, 54⟩⟩,
    ⟨.twoWay, "value", some "name", ⟨1, 56, 55, 71⟩⟩,
    ⟨.event, "click", some "go()", ⟨1, 73, 72, 86⟩⟩,
    ⟨.standard, "tabindex", some "1", ⟨1, 88, 87, 99⟩⟩]

/-- The field without its two-way binding. -/
def plainFieldAttributes : List Attribute := fieldAttributes.filter (!isTwoWay ·)

theorem distinct_plainField : Distinct plainFieldAttributes :=
  ⟨by decide +kernel, by decide +kernel⟩

theorem apart_plainField : Apart "input" plainFieldAttributes :=
  apart_of_small "input" (by decide +kernel) (by decide +kernel) (by decide +kernel)
    (by decide +kernel)

/-- The names of the field differ, so they are told apart. Without its two-way binding they are told
apart, so they differ. -/
theorem apart_field :
    Distinct fieldAttributes ∧
      jsxNames {} "input" fieldAttributes =
        ["ref", "className", "value", "onInput", "onClick", "tabIndex", "key"] ∧
      Apart "input" fieldAttributes ∧ Distinct plainFieldAttributes ∧
      (jsxNames {} "input" plainFieldAttributes).Nodup := by
  have hdistinct : Distinct fieldAttributes := ⟨by decide +kernel, by decide +kernel⟩
  have hnames : jsxNames {} "input" fieldAttributes =
      ["ref", "className", "value", "onInput", "onClick", "tabIndex", "key"] := by
    decide +kernel
  have hfield := emitNode_names hdistinct {} "input" (by decide +kernel) (by decide +kernel) true []
    ⟨1, 1, 0, 102⟩
  have hplain := emitNode_names distinct_plainField {} "input" (by decide +kernel)
    (by decide +kernel) true [] ⟨1, 1, 0, 86⟩
  exact ⟨hdistinct, hnames, hfield.2.2.2.mp (by rw [hnames]; decide), distinct_plainField,
    hplain.2.2.2.mpr apart_plainField⟩

/-! ### A style that is given twice -/

/-- A bound style and the binding of one of its properties. -/
def restyledTemplate : String := "<p [style]=\"s\" [style.color]=\"c\"/>"

/-- The attributes of its element. -/
def restyledAttributes : List Attribute :=
  [⟨.property, "style", some "s", ⟨1, 4, 3, 13⟩⟩, ⟨.style, "color", some "c", ⟨1, 16, 15, 31⟩⟩]

theorem parse_restyledTemplate : parseTemplate restyledTemplate =
    ⟨⟨[.element "p" true restyledAttributes [] ⟨1, 1, 0, 34⟩], ⟨1, 1, 0, 34⟩⟩, []⟩ := by
  with_unfolding_all rfl

/-- The second style replaces the first one, and with it the colour. -/
theorem jsxNames_restyled :
    Distinct restyledAttributes ∧ jsxNames {} "p" restyledAttributes = ["style", "style"] ∧
      (transform {} false restyledTemplate).value.jsx =
        "<p style=\x7b\x7bcolor: c\x7d\x7d style=\x7bs\x7d />" := by
  refine ⟨⟨by decide +kernel, by decide +kernel⟩, by decide +kernel, ?_⟩
  rw [transform, parse_restyledTemplate]
  decide +kernel

/-- A handler of the event that a two-way binding listens to replaces the binding's own. -/
example : jsxNames {} "input" [⟨.twoWay, "value", some "name", ⟨1, 8, 7, 23⟩⟩,
    ⟨.event, "input", some "log($event)", ⟨1, 25, 24, 45⟩⟩] = ["value", "onInput", "onInput"] := by
  decide +kernel

end Trellis.Jsx
