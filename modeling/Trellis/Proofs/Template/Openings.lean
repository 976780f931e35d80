import Trellis.Proofs.Template.Parsing

/-!
# Elements are opening tags

The parser recovers from closing tags that are missing, misplaced or stray, and from a source that
ends inside of a tag. None of this loses an element or makes one up: the elements of a template,
depth first, are the opening tags of its token stream, in order and with all their attributes.

* `Document.openings` are the elements of a tree without their children, `Sentence.openings` the
  opening tags of a token stream.
* `Nest.Takes` is what reading a sentence makes of a nest, phrase by phrase. What holds of a whole
  document is an induction over it.
* `Nest.openings` are the elements that the stack machine has made or still holds open. Closing an
  element keeps them (`openings_close`), so each phrase adds its own (`read_openings`).
* `isInteractive_parseTemplate`: a template is interactive exactly if some attribute name among its
  tokens is that of an event handler or a two-way binding.
-/

namespace Trellis.Template

/-! ## The elements of a tree -/

/-- An element without its children. -/
structure Opening where
  tag : String
  selfClosing : Bool
  attributes : List Attribute

/-- The element of a node, if it is one. -/
def Node.opening? : Node → Option Opening
  | .element tag selfClosing attributes _ _ => some ⟨tag, selfClosing, attributes⟩
  | _ => none

/-- The elements among nodes and their descendants, depth first. -/
def openingsOf (ns : List Node) : List Opening := (Node.allOf ns).filterMap Node.opening?

/-- The elements of a template, depth first. -/
def Document.openings (d : Document) : List Opening := openingsOf d.children

theorem Node.allOf_append (xs ys : List Node) :
    Node.allOf (xs ++ ys) = Node.allOf xs ++ Node.allOf ys := by
  induction xs with
  | nil => rfl
  | cons x xs ih => rw [List.cons_append, Node.allOf, Node.allOf, ih, List.append_assoc]

@[simp] theorem openingsOf_nil : openingsOf [] = [] := rfl

theorem openingsOf_append (xs ys : List Node) :
    openingsOf (xs ++ ys) = openingsOf xs ++ openingsOf ys := by
  rw [openingsOf, Node.allOf_append, List.filterMap_append]
  rfl

@[simp] theorem openingsOf_element (tag : String) (selfClosing : Bool)
    (attributes : List Attribute) (children : List Node) (span : Span) :
    openingsOf [.element tag selfClosing attributes children span] =
      ⟨tag, selfClosing, attributes⟩ :: openingsOf children := by
  simp [openingsOf, Node.allOf, Node.all, Node.opening?]

@[simp] theorem openingsOf_leaf (kind : LeafKind) (x : Lexeme) : openingsOf [kind.node x] = [] := by
  cases kind <;> rfl

/-- The attributes of the nodes are those of the elements. -/
theorem isInteractive_eq (d : Document) :
    d.isInteractive = (d.openings.flatMap Opening.attributes).any Attribute.isInteractive := by
  have hnode : ∀ n : Node, n.attributes.any Attribute.isInteractive =
      (n.opening?.toList.flatMap Opening.attributes).any Attribute.isInteractive := by
    intro n
    cases n <;> simp [Node.attributes, Node.opening?]
  rw [Document.isInteractive, Document.openings, openingsOf, Document.nodes]
  induction Node.allOf d.children with
  | nil => rfl
  | cons n ns ih =>
    rw [List.any_cons, ih, hnode]
    cases h : n.opening? <;> simp [h]

/-! ## The opening tags of a token stream -/

/-- The element that a phrase opens. -/
def Phrase.openings : Phrase → List Opening
  | .leaf .. => []
  | .opening _ name attrs selfClosing _ =>
    [⟨name.value, selfClosing, attrs.map AttrPhrase.toAttribute⟩]
  | .closing .. => []

/-- The element that the source ends in the tag of. -/
def Ending.openings : Ending → List Opening
  | .whole => []
  | .opening _ name attrs => [⟨name.value, false, attrs.map AttrPhrase.toAttribute⟩]
  | .closing _ => []

/-- The opening tags of a sentence, in order. -/
def Sentence.openings (s : Sentence) : List Opening :=
  s.phrases.flatMap Phrase.openings ++ s.ending.openings

theorem Sentence.openings_cons (p : Phrase) (ps : List Phrase) (e : Ending) :
    (⟨p :: ps, e⟩ : Sentence).openings = p.openings ++ (⟨ps, e⟩ : Sentence).openings := by
  simp [openings]

/-- What is skipped after a stray closing tag opens no element. -/
theorem Sentence.openings_pastLeaves (s : Sentence) : s.pastLeaves.openings = s.openings := by
  obtain ⟨ps, ending⟩ := s
  induction ps with
  | nil => rfl
  | cons p ps ih =>
    cases p with
    | leaf kind x =>
      rw [Sentence.openings_cons]
      exact ih
    | opening first name attrs selfClosing close => rfl
    | closing first name close => rfl

/-! ## Reading a sentence -/

namespace Nest

/-- **What reading a sentence makes of a nest**, phrase by phrase. A closing tag passes some tokens,
and one that closes nothing and has no `>` also passes the leaves up to the next tag. -/
inductive Takes : Nest → Sentence → Nest → Prop
  | whole (n : Nest) : Takes n ⟨[], .whole⟩ n.closeAll
  | unended (n : Nest) (first name : Lexeme) (attrs : List AttrPhrase) :
      Takes n ⟨[], .opening first name attrs⟩
        ((n.past (openingTokens first name attrs)).begin (first.token .tagOpen) name.value false
          (attrs.map AttrPhrase.toAttribute)).closeAll
  | nameless (n : Nest) (first : Lexeme) :
      Takes n ⟨[], .closing first⟩ (n.past [first.token .tagEndOpen]).closeAll
  | leaf {n m : Nest} {kind : LeafKind} {x : Lexeme} {ps : List Phrase} {e : Ending}
      (h : Takes ((n.past [x.token kind.kind]).add [kind.node x]) ⟨ps, e⟩ m) :
      Takes n ⟨.leaf kind x :: ps, e⟩ m
  | opening {n m : Nest} {first name : Lexeme} {attrs : List AttrPhrase} {selfClosing : Bool}
      {close : Lexeme} {ps : List Phrase} {e : Ending}
      (h : Takes ((n.past (Phrase.opening first name attrs selfClosing close).tokens).begin
        (first.token .tagOpen) name.value selfClosing (attrs.map AttrPhrase.toAttribute))
        ⟨ps, e⟩ m) :
      Takes n ⟨.opening first name attrs selfClosing close :: ps, e⟩ m
  | closing {n m : Nest} {first name : Lexeme} {close : Option Lexeme} {ps : List Phrase}
      {e : Ending} (hopen : name.value ∈ n.tags) (ts : List Token)
      (h : Takes ((n.closeInside name.value).past ts).close ⟨ps, e⟩ m) :
      Takes n ⟨.closing first name close :: ps, e⟩ m
  | stray {n m : Nest} {first name close : Lexeme} {ps : List Phrase} {e : Ending}
      (hout : name.value ∉ n.tags) (ts : List Token) (h : Takes (n.past ts) ⟨ps, e⟩ m) :
      Takes n ⟨.closing first name (some close) :: ps, e⟩ m
  | skipping {n m : Nest} {first name : Lexeme} {ps : List Phrase} {e : Ending}
      (hout : name.value ∉ n.tags) (ts : List Token)
      (h : Takes (n.past ts) (⟨ps, e⟩ : Sentence).pastLeaves m) :
      Takes n ⟨.closing first name none :: ps, e⟩ m

/-- The machine reads sentences so, by induction on the phrases that are left. -/
theorem takes_read (n : Nest) (s : Sentence) : Takes n s (n.read s.tokens) := by
  induction hlen : s.phrases.length using Nat.strong_induction_on generalizing n s with
  | _ k ih =>
    obtain ⟨ps, ending⟩ := s
    cases ps with
    | nil =>
      cases ending with
      | whole =>
        change Takes n _ (n.read [])
        rw [read_nil]
        exact .whole n
      | opening first name attrs =>
        change Takes n _ (n.read (openingTokens first name attrs))
        rw [read_unended, read_nil]
        exact .unended n first name attrs
      | closing first =>
        change Takes n _ (n.read [first.token .tagEndOpen])
        rw [read_stray (by intro t ht; cases ht), cutStray, read_nil]
        exact .nameless n first
    | cons p ps =>
      have hlt : ps.length < k := by
        rw [← hlen]
        exact Nat.lt_succ_self _
      have hrest (m : Nest) : Takes m ⟨ps, ending⟩ (m.read (⟨ps, ending⟩ : Sentence).tokens) :=
        ih _ hlt m _ rfl
      rw [Sentence.tokens_cons]
      cases p with
      | leaf kind x =>
        rw [Phrase.tokens, List.singleton_append, read_leaf]
        exact .leaf (hrest _)
      | opening first name attrs selfClosing close =>
        rw [read_opening]
        exact .opening (hrest _)
      | closing first name close =>
        change Takes n _ (n.read (first.token .tagEndOpen :: name.token .tagName ::
          ((close.map (·.token .tagClose)).toList ++ _)))
        by_cases hopen : name.value ∈ n.tags
        · rw [read_closing hopen, cutHead_sentence]
          exact .closing hopen _ (hrest _)
        · rw [read_stray (by rintro t ht -; cases ht; exact hopen)]
          cases close with
          | some x => exact .stray hopen _ (hrest _)
          | none =>
            have hle := (List.dropWhile_suffix Phrase.isLeaf (l := ps)).length_le
            have hskip (m : Nest) := ih _ (Nat.lt_of_le_of_lt hle hlt) m
              (⟨ps, ending⟩ : Sentence).pastLeaves rfl
            rw [← cutStray_sentence] at hskip
            exact .skipping hopen _ (hskip _)

end Nest

/-! ## The elements of a nest -/

/-- An open element and the elements inside of it so far. -/
def OpenElement.openings (e : OpenElement) : List Opening :=
  ⟨e.tag, false, e.attributes⟩ :: openingsOf e.children

namespace Nest

/-- The elements that have been made, then those that are open, outermost first. -/
def openings (n : Nest) : List Opening :=
  openingsOf n.roots ++ n.opened.reverse.flatMap OpenElement.openings

@[simp] theorem openings_past (n : Nest) (ts : List Token) : (n.past ts).openings = n.openings :=
  rfl

theorem openings_add (n : Nest) (xs : List Node) :
    (n.add xs).openings = n.openings ++ openingsOf xs := by
  obtain ⟨roots, opened, last⟩ := n
  cases opened with
  | nil => simp [add, openings, openingsOf_append]
  | cons e es => simp [add, openings, OpenElement.openings, openingsOf_append]

/-- A closed element comes after the elements made before it and before those after it. -/
theorem openings_close (n : Nest) : n.close.openings = n.openings := by
  obtain ⟨roots, opened, last⟩ := n
  cases opened with
  | nil => rfl
  | cons e es =>
    rw [close, openings_add]
    simp [openings, OpenElement.openings]

theorem openings_iterate_close (n : Nest) (k : Nat) : (close^[k] n).openings = n.openings := by
  refine Function.Iterate.rec (fun m : Nest => m.openings = n.openings) rfl (fun m hm => ?_) k
  rw [openings_close, hm]

theorem openings_begin (n : Nest) (first : Token) (tag : String) (selfClosing : Bool)
    (attributes : List Attribute) :
    (n.begin first tag selfClosing attributes).openings =
      n.openings ++ [⟨tag, selfClosing, attributes⟩] := by
  unfold begin
  split
  · simp [openings_add]
  · rename_i h
    have hopen : selfClosing = false := by
      cases selfClosing
      · rfl
      · exact absurd rfl h
    simp [openings, OpenElement.openings, hopen]

/-- At the end of input no element is open. -/
theorem opened_closeAll (n : Nest) : n.closeAll.opened = [] := by
  have hall : n.opened.length = n.tags.length := (List.length_map OpenElement.tag).symm
  have hnone := tags_iterate_close n n.opened.length
  rw [hall, List.drop_length, ← hall] at hnone
  exact List.map_eq_nil_iff.mp hnone

theorem opened_read (n : Nest) (ts : List Token) : (n.read ts).opened = [] := by
  induction n, ts using Nest.read.induct with
  | case1 n => rw [read_nil, opened_closeAll]
  | case2 n t ts ih => rw [read_cons, ih]

/-- The elements opened by a whole sentence, whatever is open before it: each phrase adds its
own. -/
theorem Takes.openings {n m : Nest} {s : Sentence} (h : Takes n s m) :
    m.openings = n.openings ++ s.openings := by
  induction h with
  | whole n =>
    rw [closeAll, openings_iterate_close]
    exact (List.append_nil _).symm
  | unended n first name attrs =>
    rw [closeAll, openings_iterate_close, openings_begin]
    rfl
  | nameless n first =>
    rw [closeAll, openings_iterate_close]
    exact (List.append_nil _).symm
  | leaf h ih =>
    rw [ih, openings_add, openingsOf_leaf, List.append_nil, Sentence.openings_cons]
    rfl
  | opening h ih =>
    rw [ih, openings_begin, Sentence.openings_cons, List.append_assoc]
    rfl
  | closing hopen ts h ih =>
    rw [ih, openings_close, openings_past, closeInside, openings_iterate_close,
      Sentence.openings_cons]
    rfl
  | stray hout ts h ih =>
    rw [ih, Sentence.openings_cons]
    rfl
  | skipping hout ts h ih =>
    rw [ih, Sentence.openings_pastLeaves, Sentence.openings_cons]
    rfl

theorem read_openings (n : Nest) (s : Sentence) :
    (n.read s.tokens).openings = n.openings ++ s.openings :=
  (takes_read n s).openings

end Nest

/-- **The elements of a template are the opening tags of its tokens**, however they are nested. -/
theorem openings_parseTemplate {source : String} {s : Sentence}
    (h : (tokenize source).tokens = s.tokens) :
    (parseTemplate source).document.openings = s.openings := by
  have hdocument : (parseTemplate source).document = assemble (tokenize source) :=
    (parseDocument_sentence h rfl).1
  have hread := Nest.read_openings {} s
  rw [Nest.openings, Nest.opened_read, ← h] at hread
  rw [hdocument, Document.openings]
  simpa [assemble, Nest.openings] using hread

/-! ## Interactive attributes -/

/-- The name of an attribute. -/
def AttrPhrase.name : AttrPhrase → Lexeme
  | .bare name => name
  | .dangling name _ => name
  | .valued name _ _ => name

/-- The attributes of all opening tags. -/
theorem Sentence.openings_attributes (s : Sentence) :
    s.openings.flatMap Opening.attributes = s.tags.flatten.map AttrPhrase.toAttribute := by
  obtain ⟨ps, ending⟩ := s
  induction ps with
  | nil => cases ending <;> simp [openings, tags, Ending.openings, Ending.attrs]
  | cons p ps ih =>
    rw [openings_cons, List.flatMap_append, ih]
    cases p <;> simp [Phrase.openings, tags, Phrase.attrs]

theorem filter_attrTokens (attrs : List AttrPhrase) :
    (attrTokens attrs).filter (·.kind == .attrName) = attrs.map (·.name.token .attrName) := by
  induction attrs with
  | nil => rfl
  | cons a attrs ih =>
    rw [attrTokens_cons, List.filter_append, ih]
    cases a <;> rfl

theorem filter_openingTokens (first name : Lexeme) (attrs : List AttrPhrase) :
    (openingTokens first name attrs).filter (·.kind == .attrName) =
      attrs.map (·.name.token .attrName) :=
  filter_attrTokens attrs

/-- The attribute names among the tokens of a sentence. -/
theorem Sentence.filter_tokens (s : Sentence) :
    s.tokens.filter (·.kind == .attrName) = s.tags.flatten.map (·.name.token .attrName) := by
  obtain ⟨ps, ending⟩ := s
  induction ps with
  | nil =>
    cases ending with
    | whole => rfl
    | opening first name attrs =>
      change (openingTokens first name attrs).filter _ = _
      simp [filter_openingTokens, tags, Ending.attrs]
    | closing first => rfl
  | cons p ps ih =>
    rw [tokens_cons, List.filter_append, ih]
    cases p with
    | leaf kind x => cases kind <;> rfl
    | opening first name attrs selfClosing close =>
      rw [Phrase.tokens, List.filter_append, filter_openingTokens]
      cases selfClosing <;> simp [tags, Phrase.attrs, Phrase.closeKind, Lexeme.token]
    | closing first name close => cases close <;> rfl

/-- An attribute name that is that of an event handler or a two-way binding. -/
def Token.isInteractive (t : Token) : Bool :=
  t.kind == .attrName &&
    ((Binding.classify t.value).1 == .event || (Binding.classify t.value).1 == .twoWay)

/-- The form of an attribute is that of its raw name. -/
theorem binding_ofRaw (raw : String) (value : Option String) (span : Span) :
    (Attribute.ofRaw raw value span).binding = (Binding.classify raw).1 := by
  rw [Attribute.ofRaw]
  cases h : Binding.classify raw with
  | mk binding name => cases binding <;> rfl

theorem isInteractive_toAttribute (a : AttrPhrase) :
    a.toAttribute.isInteractive = (a.name.token .attrName).isInteractive := by
  cases a <;> simp [AttrPhrase.toAttribute, Attribute.isInteractive, binding_ofRaw,
    Token.isInteractive, AttrPhrase.name, Lexeme.token]

/-- **A template is interactive exactly if an attribute name among its tokens is**, at any depth
and however its tags are nested or ended. -/
theorem isInteractive_parseTemplate (source : String) :
    (parseTemplate source).document.isInteractive =
      (tokenize source).toList.any Token.isInteractive := by
  obtain ⟨s, htokens, -⟩ := tokenize_sentence source
  have heof : (tokenize source).eof.isInteractive = false := rfl
  have hnames : ∀ ts : List Token, ts.any Token.isInteractive =
      (ts.filter (·.kind == .attrName)).any Token.isInteractive := by
    intro ts
    rw [List.any_filter]
    congr 1
    funext t
    cases hkind : t.kind == .attrName <;> simp [Token.isInteractive, hkind]
  rw [isInteractive_eq, openings_parseTemplate htokens, s.openings_attributes, List.any_map,
    TokenStream.toList, List.any_append, List.any_cons, heof, List.any_nil, Bool.or_false,
    Bool.or_false, htokens, hnames, s.filter_tokens, List.any_map]
  congr 1
  funext a
  exact isInteractive_toAttribute a

end Trellis.Template
