import Trellis.Proofs.Template.Markup

/-!
# Templates read back from their markup

* `Spells.appends`: on phrases that spell some nodes the stack machine appends nodes that are the
  same but for their places, to whatever is open.
* `parseTemplate_markup`: a well-formed template is read back from its markup without errors.
-/

namespace Trellis.Template

/-! ## Trees without places -/

theorem Node.unplacedAll_eq_map (ns : List Node) :
    Node.unplacedAll ns = ns.map Node.unplaced := by
  induction ns with
  | nil => rfl
  | cons n ns ih => rw [Node.unplacedAll, ih, List.map_cons]

/-- Attributes that are spelled are the same but for their places. -/
theorem map_unplaced_of_spells {attrs : List AttrPhrase} {as : List Attribute}
    (h : List.Forall₂ AttrPhrase.Spells attrs as) :
    (attrs.map AttrPhrase.toAttribute).map Attribute.unplaced = as.map Attribute.unplaced := by
  induction h with
  | nil => rfl
  | cons hp _ ih => rw [List.map_cons, List.map_cons, List.map_cons, ih, hp.same]

theorem attrFaults_of_spells {attrs : List AttrPhrase} {as : List Attribute}
    (h : List.Forall₂ AttrPhrase.Spells attrs as) : attrFaults attrs = [] := by
  induction h with
  | nil => rfl
  | cons hp _ ih => rw [attrFaults, List.flatMap_cons, hp.faults, ← attrFaults, ih, List.nil_append]

/-! ## The machine on spelled nodes -/

/-- No phrase of spelled nodes has a fault. -/
theorem Spells.attrFaults_eq_nil {ps : List Phrase} {ns : List Node} (h : Spells ps ns) :
    ∀ p ∈ ps, attrFaults p.attrs = [] := by
  induction h with
  | nil => exact fun p hp => absurd hp List.not_mem_nil
  | leaf _ _ ih => exact List.forall_mem_cons.mpr ⟨rfl, ih⟩
  | alone _ hattrs _ ih => exact List.forall_mem_cons.mpr ⟨attrFaults_of_spells hattrs, ih⟩
  | element _ _ hattrs _ _ ihc ih =>
    refine List.forall_mem_cons.mpr ⟨attrFaults_of_spells hattrs, ?_⟩
    exact List.forall_mem_append.mpr ⟨ihc, List.forall_mem_cons.mpr ⟨rfl, ih⟩⟩

theorem Spells.faults_eq_nil {ps : List Phrase} {ns : List Node} (h : Spells ps ns) :
    (⟨ps, .whole⟩ : Sentence).faults = [] := by
  rw [Sentence.faults, Sentence.missingValues, List.append_eq_nil_iff, List.flatMap_eq_nil_iff]
  refine ⟨List.forall_mem_append.mpr ⟨?_, ?_⟩, rfl⟩
  · exact List.forall_mem_map.mpr h.attrFaults_eq_nil
  · exact List.forall_mem_singleton.mpr rfl

/-- The machine reads the tokens into the nodes, but for their places, whatever is open and
whatever follows. -/
def Appends (ts : List Token) (ns : List Node) : Prop :=
  ∀ (n : Nest) (rest : List Token), ∃ xs last,
    n.read (ts ++ rest) = ((n.add xs).seen last).read rest ∧
      Node.unplacedAll xs = Node.unplacedAll ns

namespace Appends

theorem append {ts us : List Token} {ns ms : List Node} (h : Appends ts ns) (h' : Appends us ms) :
    Appends (ts ++ us) (ns ++ ms) := by
  intro n rest
  obtain ⟨xs, last, hread, hxs⟩ := h n (us ++ rest)
  obtain ⟨ys, last', hread', hys⟩ := h' ((n.add xs).seen last) rest
  refine ⟨xs ++ ys, last', ?_, ?_⟩
  · rw [List.append_assoc, hread, hread', Nest.add_seen, Nest.add_add, Nest.seen_seen]
  · simp only [Node.unplacedAll_eq_map, List.map_append] at hxs hys ⊢
    rw [hxs, hys]

theorem leaf {kind : LeafKind} {x y : Lexeme} (hvalue : x.value = y.value) :
    Appends (Phrase.leaf kind x).tokens [kind.node y] := by
  intro n rest
  refine ⟨[kind.node x], some (x.token kind.kind), ?_, ?_⟩
  · have hread := n.read_leaf kind x rest
    rw [Nest.past_eq_seen, Nest.add_seen] at hread
    exact hread
  · cases kind <;> simp [LeafKind.node, Node.unplacedAll, Node.unplaced, hvalue]

theorem alone {first name close : Lexeme} {attrs : List AttrPhrase} {selfClosing : Bool}
    {as : List Attribute} {span : Span} (halone : (selfClosing || isVoid name.value) = true)
    (hattrs : List.Forall₂ AttrPhrase.Spells attrs as) :
    Appends (Phrase.opening first name attrs selfClosing close).tokens
      [.element name.value selfClosing as [] span] := by
  intro n rest
  have hread := n.read_opening first name attrs selfClosing close rest
  rw [Nest.begin, if_pos halone, Nest.past_eq_seen, Nest.add_seen] at hread
  refine ⟨_, _, hread, ?_⟩
  simp only [Node.unplacedAll, Node.unplaced, map_unplaced_of_spells hattrs]

/-- The closing tag of an element closes it, since its children are closed. -/
theorem closes {name : Lexeme} {tag : String} (hopen : isVoid tag = false)
    (hname : name.value = tag) (n : Nest) (first : Token) (attributes : List Attribute)
    (xs : List Node) (l l' : Option Token) (first' close : Lexeme) (rest : List Token) :
    ∃ span last, ((((n.seen l).begin first tag false attributes).add xs).seen l').read
        ((Phrase.closing first' name (some close)).tokens ++ rest) =
      ((n.add [.element tag false attributes xs span]).seen last).read rest := by
  have hshut : (false || isVoid tag) = false := hopen
  have htags : ((((n.seen l).begin first tag false attributes).add xs).seen l').tags =
      name.value :: n.tags := by
    rw [Nest.tags_seen, Nest.tags_add, Nest.tags_begin _ _ hshut, Nest.tags_seen, hname]
  have hread := Nest.read_closing (htags ▸ List.mem_cons_self) first'
    (close.token .tagClose :: rest)
  rw [Nest.closeInside_self htags, Nest.past_eq_seen, Nest.seen_seen,
    Nest.begin_add_close hshut] at hread
  exact ⟨_, _, hread⟩

theorem element {first name close first' name' close' : Lexeme} {attrs : List AttrPhrase}
    {as : List Attribute} {span : Span} {ts : List Token} {children : List Node}
    (hopen : isVoid name.value = false) (hname : name'.value = name.value)
    (hattrs : List.Forall₂ AttrPhrase.Spells attrs as) (hchildren : Appends ts children) :
    Appends ((Phrase.opening first name attrs false close).tokens ++
        (ts ++ (Phrase.closing first' name' (some close')).tokens))
      [.element name.value false as children span] := by
  intro n rest
  obtain ⟨xs, l, hinside, hxs⟩ := hchildren _
    ((Phrase.closing first' name' (some close')).tokens ++ rest)
  obtain ⟨span', last, hclose⟩ := closes hopen hname n (first.token .tagOpen)
    (attrs.map AttrPhrase.toAttribute) xs _ l first' close' rest
  refine ⟨[.element name.value false (attrs.map AttrPhrase.toAttribute) xs span'], last, ?_, ?_⟩
  · rw [List.append_assoc, List.append_assoc, Nest.read_opening, hinside, Nest.past_eq_seen, hclose]
  · simp only [Node.unplacedAll, Node.unplaced, map_unplaced_of_spells hattrs, hxs]

end Appends

/-- **The machine appends the nodes that are spelled.** -/
theorem Spells.appends {ps : List Phrase} {ns : List Node} (h : Spells ps ns) :
    Appends (phraseTokens ps) ns := by
  induction h with
  | nil => exact fun n rest => ⟨[], n.last, by rw [Nest.add_nil]; rfl, rfl⟩
  | leaf hvalue _ ih => exact (Appends.leaf hvalue).append ih
  | alone halone hattrs _ ih => exact (Appends.alone halone hattrs).append ih
  | element hopen hname hattrs _ _ ihc ih =>
    rw [phraseTokens_cons, phraseTokens_append, phraseTokens_cons,
      ← List.append_assoc (phraseTokens _), ← List.append_assoc]
    exact (Appends.element hopen hname hattrs ihc).append ih

/-! ## The round trip -/

/-- **A well-formed template is read back from its markup**: without errors, and the same but for
the places of its nodes. -/
theorem parseTemplate_markup (d : Document) (h : d.WellFormed) :
    (parseTemplate d.markup).errors = [] ∧
      (parseTemplate d.markup).document.unplaced = d.unplaced := by
  have hemits := Lexer.emits_markupAll d.children h [] (.inl rfl)
  rw [List.append_nil] at hemits
  obtain ⟨ps, htokens, hspells⟩ : NodesRead d.children (tokenize d.markup).tokens :=
    Lexer.tokens_of_emits hemits
  have hsentence : (tokenize d.markup).tokens = (⟨ps, .whole⟩ : Sentence).tokens := by
    rw [htokens, Sentence.tokens, Ending.tokens, List.append_nil]
  obtain ⟨hdocument, herrors⟩ := parseDocument_sentence hsentence rfl
  constructor
  · exact herrors.trans hspells.faults_eq_nil
  · obtain ⟨xs, last, hread, hxs⟩ := hspells.appends {} []
    have hroots : (Nest.read {} (tokenize d.markup).tokens).roots = xs := by
      rw [htokens, ← List.append_nil (phraseTokens ps), hread, Nest.read_nil]
      rfl
    change Document.unplaced (Parser.ofStream (tokenize d.markup)).parseDocument.1 = _
    rw [hdocument, Document.unplaced, Document.unplaced, ← hxs, ← hroots]
    rfl

/-- A card with every kind of node: a void element, one that closes itself, a name with a blank in
its brackets, a `<` and a brace in texts, and braces inside of an expression. -/
def card : Document :=
  ⟨[.element "div" false
      [⟨.standard, "class", some "card", .nowhere⟩, ⟨.directive, "if", some "a < b", .nowhere⟩,
        ⟨.standard, "hidden", none, .nowhere⟩]
      [.element "br" false [] [] .nowhere,
        .element "user-card" true [⟨.classToggle, "is on", some "u", .nowhere⟩] [] .nowhere,
        .text "1 < 2 \x7b " .nowhere, .interpolation "f(\x7b\x7b x \x7d\x7d)" .nowhere,
        .comment "note" .nowhere] .nowhere],
    .nowhere⟩

theorem card_wellFormed : card.WellFormed := by decide +kernel

/-- The card is read back from its markup. -/
theorem parseTemplate_markup_card :
    card.WellFormed ∧ (parseTemplate card.markup).errors = [] ∧
      (parseTemplate card.markup).document.unplaced = card.unplaced :=
  ⟨card_wellFormed, parseTemplate_markup card card_wellFormed⟩

end Trellis.Template
