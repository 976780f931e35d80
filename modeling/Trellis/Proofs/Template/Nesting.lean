import Mathlib.Logic.Function.Iterate
import Trellis.Proofs.Template.Sentence
import Trellis.Template.Parser

/-!
# Nesting as a stack machine

How tags nest, said in one pass over the tokens with a stack of open elements and no recursion
into children.

* A leaf is appended to the innermost open element, or to the document.
* An opening tag is an element there. It stays open unless it closes itself or is void.
* A closing tag closes the innermost open element of its name and all elements inside of it, and
  takes the `>` after it. If no element of that name is open it is skipped, through the next token
  that ends a tag or up to the next one that opens a tag.
* The end of input closes every element.

`Nest` is the state, `Nest.step` reads one of these units and `Nest.read` all of them; `assemble`
is the document of a stream. An element spans the tokens from its first one to the last one that
was passed when it was closed.

The second half says what the machine does on each `Phrase`; `Trellis.Proofs.Template.Parsing`
shows that the parser does the same.
-/

namespace Trellis.Template

open Lexer (AllOf StopsAt stopsAt_nil stopsAt_cons)
open Text (takeWhile_run dropWhile_run)

/-! ## The machine -/

/-- An element that has not been closed, with its children so far. -/
structure OpenElement where
  first : Token
  tag : String
  attributes : List Attribute
  children : List Node

/-- The document's own nodes so far, the open elements, innermost first, and the token passed
last. -/
structure Nest where
  roots : List Node := []
  opened : List OpenElement := []
  last : Option Token := none

namespace Nest

/-- The tags of the open elements, innermost first. -/
def tags (n : Nest) : List String := n.opened.map OpenElement.tag

/-- The stretch from a token to the token passed last. -/
def spanFrom (n : Nest) (first : Token) : Span := first.span.upTo (n.last.getD first).span

/-- The nest after passing some tokens. -/
def past (n : Nest) (ts : List Token) : Nest := { n with last := ts.getLast?.or n.last }

/-- Appends nodes to the innermost open element, or to the document. -/
def add (n : Nest) (xs : List Node) : Nest :=
  match n.opened with
  | [] => { n with roots := n.roots ++ xs }
  | e :: es => { n with opened := { e with children := e.children ++ xs } :: es }

/-- Closes the innermost open element. -/
def close (n : Nest) : Nest :=
  match n.opened with
  | [] => n
  | e :: es =>
    ({ n with opened := es } : Nest).add
      [.element e.tag false e.attributes e.children (n.spanFrom e.first)]

/-- Closes the elements inside of the innermost open element with the given tag. -/
def closeInside (n : Nest) (tag : String) : Nest := close^[n.tags.idxOf tag] n

/-- Closes all elements. -/
def closeAll (n : Nest) : Nest := close^[n.opened.length] n

end Nest

/-- The first token if it satisfies `p`, and the other tokens. -/
def cutHead (p : Token → Bool) : List Token → List Token × List Token
  | [] => ([], [])
  | t :: ts => if p t then ([t], ts) else ([], t :: ts)

/-- What is skipped after the mark of a closing tag that closes nothing, and the other tokens. -/
def cutStray : List Token → List Token × List Token
  | [] => ([], [])
  | t :: ts =>
    if Parser.endsTag t then ([t], ts)
    else if Parser.opensTag t then ([], t :: ts)
    else (t :: (cutStray ts).1, (cutStray ts).2)

/-- The attributes of a tag. Each has a name and the tokens up to the next name. -/
def attributesOf : List Token → List Attribute
  | [] => []
  | name :: ts =>
    let own := ts.takeWhile fun t => t.kind != .attrName
    let value := (own.find? fun t => t.kind == .attrValue).map Token.value
    Attribute.ofRaw name.value value (name.span.upTo ((name :: own).getLastD name).span) ::
      attributesOf (ts.dropWhile fun t => t.kind != .attrName)
termination_by ts => ts.length
decreasing_by
  exact Nat.lt_succ_of_le (List.dropWhile_suffix _).length_le

namespace Nest

/-- Appends the element of an opening tag that was just passed. It stays open unless it closes
itself or is void. -/
def begin (n : Nest) (first : Token) (tag : String) (selfClosing : Bool)
    (attributes : List Attribute) : Nest :=
  if selfClosing || isVoid tag then
    n.add [.element tag selfClosing attributes [] (n.spanFrom first)]
  else
    { n with opened := ⟨first, tag, attributes, []⟩ :: n.opened }

/-- Reads the opening tag that starts with `first`. -/
def enter (n : Nest) (first : Token) (ts : List Token) : Nest × List Token :=
  match ts with
  | [] => (n.past [first], [])
  | name :: ts =>
    let inside := ts.takeWhile (·.kind.isAttr)
    let (ending, rest) := cutHead Parser.endsTag (ts.dropWhile (·.kind.isAttr))
    ((n.past (first :: name :: inside ++ ending)).begin first name.value
      (ending.any (·.kind == .tagSelfClose)) (attributesOf inside), rest)

/-- Reads the closing tag that starts with `first`. -/
def leave (n : Nest) (first : Token) (ts : List Token) : Nest × List Token :=
  match ts with
  | [] => (n.past [first], [])
  | name :: ts =>
    if name.kind = .tagName ∧ name.value ∈ n.tags then
      let (ending, rest) := cutHead (·.kind == .tagClose) ts
      (((n.closeInside name.value).past (first :: name :: ending)).close, rest)
    else
      (n.past (first :: (cutStray (name :: ts)).1), (cutStray (name :: ts)).2)

/-- Reads a leaf or a tag. -/
def step (n : Nest) (t : Token) (ts : List Token) : Nest × List Token :=
  match t.kind with
  | .text => ((n.past [t]).add [.text t.value t.span], ts)
  | .interpolation => ((n.past [t]).add [.interpolation t.value t.span], ts)
  | .comment => ((n.past [t]).add [.comment t.value t.span], ts)
  | .tagOpen => n.enter t ts
  | .tagEndOpen => n.leave t ts
  | _ => (n.past [t], ts)

theorem length_cutHead_le (p : Token → Bool) (ts : List Token) :
    (cutHead p ts).2.length ≤ ts.length := by
  unfold cutHead
  split
  · exact Nat.le_refl _
  · split
    · exact Nat.le_succ _
    · exact Nat.le_refl _

theorem length_cutStray_le (ts : List Token) : (cutStray ts).2.length ≤ ts.length := by
  induction ts with
  | nil => exact Nat.le_refl _
  | cons t ts ih =>
    unfold cutStray
    split
    · exact Nat.le_succ _
    · split
      · exact Nat.le_refl _
      · exact Nat.le_succ_of_le ih

theorem length_step_le (n : Nest) (t : Token) (ts : List Token) :
    (n.step t ts).2.length ≤ ts.length := by
  unfold step
  split
  · exact Nat.le_refl _
  · exact Nat.le_refl _
  · exact Nat.le_refl _
  · unfold enter
    split
    · exact Nat.le_refl _
    · rename_i name ts
      exact Nat.le_trans (length_cutHead_le _ _)
        (Nat.le_succ_of_le (List.dropWhile_suffix _).length_le)
  · unfold leave
    split
    · exact Nat.le_refl _
    · split
      · exact Nat.le_succ_of_le (length_cutHead_le _ _)
      · exact length_cutStray_le _
  · exact Nat.le_refl _

/-- Reads tokens to the end of input, which closes every element. -/
def read (n : Nest) (ts : List Token) : Nest :=
  match ts with
  | [] => n.closeAll
  | t :: ts => (n.step t ts).1.read (n.step t ts).2
termination_by ts.length
decreasing_by
  exact Nat.lt_succ_of_le (length_step_le n t ts)

end Nest

/-- **The document of a token stream**, built in one pass. -/
def assemble (s : TokenStream) : Document :=
  let n := Nest.read {} s.tokens
  ⟨n.roots, n.spanFrom (s.tokens.headD s.eof)⟩

/-! ## Adding and closing -/

namespace Nest

/-- The nest with another token passed last. -/
def seen (n : Nest) (last : Option Token) : Nest := { n with last }

@[simp] theorem tags_seen (n : Nest) (l : Option Token) : (n.seen l).tags = n.tags := rfl

@[simp] theorem last_seen (n : Nest) (l : Option Token) : (n.seen l).last = l := rfl

@[simp] theorem seen_seen (n : Nest) (l l' : Option Token) : (n.seen l).seen l' = n.seen l' := rfl

theorem seen_last (n : Nest) : n.seen n.last = n := rfl

theorem past_eq_seen (n : Nest) (ts : List Token) :
    n.past ts = n.seen (ts.getLast?.or n.last) := rfl

@[simp] theorem add_nil (n : Nest) : n.add [] = n := by
  obtain ⟨roots, opened, last⟩ := n
  cases opened <;> simp [add]

theorem add_add (n : Nest) (xs ys : List Node) : (n.add xs).add ys = n.add (xs ++ ys) := by
  obtain ⟨roots, opened, last⟩ := n
  cases opened <;> simp [add]

@[simp] theorem add_seen (n : Nest) (l : Option Token) (xs : List Node) :
    (n.seen l).add xs = (n.add xs).seen l := by
  obtain ⟨roots, opened, last⟩ := n
  cases opened <;> rfl

@[simp] theorem last_add (n : Nest) (xs : List Node) : (n.add xs).last = n.last := by
  obtain ⟨roots, opened, last⟩ := n
  cases opened <;> rfl

@[simp] theorem tags_add (n : Nest) (xs : List Node) : (n.add xs).tags = n.tags := by
  obtain ⟨roots, opened, last⟩ := n
  cases opened <;> rfl

@[simp] theorem last_close (n : Nest) : n.close.last = n.last := by
  obtain ⟨roots, opened, last⟩ := n
  cases opened <;> simp [close]

theorem tags_close (n : Nest) : n.close.tags = n.tags.tail := by
  obtain ⟨roots, opened, last⟩ := n
  cases opened with
  | nil => rfl
  | cons e es => exact tags_add ⟨roots, es, last⟩ _

theorem tags_iterate_close (n : Nest) (k : Nat) : (close^[k] n).tags = n.tags.drop k := by
  induction k generalizing n with
  | zero => rfl
  | succ k ih =>
    rw [Function.iterate_succ_apply, ih, tags_close, List.drop_tail]

/-- The elements inside of another are closed by closing the innermost first. -/
theorem closeInside_close {n : Nest} {tag : String} {outer : String} {outers : List String}
    (htags : n.tags = outer :: outers) (hne : outer ≠ tag) :
    n.close.closeInside tag = n.closeInside tag := by
  rw [closeInside, closeInside, tags_close, htags, List.tail_cons, List.idxOf_cons_ne _ hne,
    Function.iterate_succ_apply]

theorem closeInside_self {n : Nest} {tag : String} {outers : List String}
    (htags : n.tags = tag :: outers) : n.closeInside tag = n := by
  rw [closeInside, htags, List.idxOf_cons_self]
  rfl

theorem closeAll_close {n : Nest} {outer : String} {outers : List String}
    (htags : n.tags = outer :: outers) : n.close.closeAll = n.closeAll := by
  have hlen : n.opened.length = outers.length + 1 := by
    simpa [tags] using congrArg List.length htags
  have hclose : n.close.opened.length = outers.length := by
    have htail := tags_close n
    rw [htags, List.tail_cons] at htail
    simpa [tags] using congrArg List.length htail
  rw [closeAll, closeAll, hlen, hclose, Function.iterate_succ_apply]

/-! ## Reading phrases -/

theorem read_nil (n : Nest) : n.read [] = n.closeAll := by rw [read]

theorem read_cons (n : Nest) (t : Token) (ts : List Token) :
    n.read (t :: ts) = (n.step t ts).1.read (n.step t ts).2 := by rw [read]

end Nest

/-- The node of a leaf. -/
def LeafKind.node (x : Lexeme) : LeafKind → Node
  | .text => .text x.value x.span
  | .interpolation => .interpolation x.value x.span
  | .comment => .comment x.value x.span

/-- The attribute a phrase stands for. -/
def AttrPhrase.toAttribute : AttrPhrase → Attribute
  | .bare name => .ofRaw name.value none (name.span.upTo name.span)
  | .dangling name equals => .ofRaw name.value none (name.span.upTo equals.span)
  | .valued name _ value => .ofRaw name.value (some value.value) (name.span.upTo value.span)

/-- The tokens of attributes start with a name. -/
theorem stopsAt_attrTokens (attrs : List AttrPhrase) :
    StopsAt (fun t => t.kind != .attrName) (attrTokens attrs) := by
  cases attrs with
  | nil => exact stopsAt_nil _
  | cons a attrs => cases a <;> exact stopsAt_cons rfl

/-- An attribute's tokens reach up to the next name. -/
theorem attributesOf_append (name : Token) (own : List Token) {ts : List Token}
    (hown : AllOf (fun t => t.kind != .attrName) own)
    (hts : StopsAt (fun t => t.kind != .attrName) ts) :
    attributesOf (name :: (own ++ ts)) =
      Attribute.ofRaw name.value ((own.find? fun t => t.kind == .attrValue).map Token.value)
        (name.span.upTo ((name :: own).getLastD name).span) :: attributesOf ts := by
  rw [attributesOf, takeWhile_run hown hts, dropWhile_run hown hts]

theorem attributesOf_attrTokens (attrs : List AttrPhrase) :
    attributesOf (attrTokens attrs) = attrs.map AttrPhrase.toAttribute := by
  induction attrs with
  | nil => simp [attributesOf]
  | cons a attrs ih =>
    have hstop := stopsAt_attrTokens attrs
    rw [attrTokens_cons, List.map_cons, ← ih]
    cases a with
    | bare name => exact attributesOf_append (name.token .attrName) [] (by simp [AllOf]) hstop
    | dangling name equals =>
      exact attributesOf_append (name.token .attrName) [equals.token .attrEquals]
        (by simp [AllOf, Lexeme.token]) hstop
    | valued name equals value =>
      exact attributesOf_append (name.token .attrName)
        [equals.token .attrEquals, value.token .attrValue]
        (by simp [AllOf, Lexeme.token]) hstop

namespace Nest

theorem read_leaf (n : Nest) (kind : LeafKind) (x : Lexeme) (ts : List Token) :
    n.read (x.token kind.kind :: ts) =
      ((n.past [x.token kind.kind]).add [kind.node x]).read ts := by
  rw [read_cons]
  cases kind <;> rfl

/-- What `enter` does after the attributes. -/
theorem enter_eq (n : Nest) (first name : Lexeme) (attrs : List AttrPhrase) {ts : List Token}
    (hts : StopsAt (·.kind.isAttr) ts) :
    n.enter (first.token .tagOpen) (name.token .tagName :: (attrTokens attrs ++ ts)) =
      ((n.past (openingTokens first name attrs ++ (cutHead Parser.endsTag ts).1)).begin
        (first.token .tagOpen) name.value
        ((cutHead Parser.endsTag ts).1.any (·.kind == .tagSelfClose))
        (attrs.map AttrPhrase.toAttribute), (cutHead Parser.endsTag ts).2) := by
  have hattrs : AllOf (fun t : Token => t.kind.isAttr) (attrTokens attrs) :=
    fun t ht => isAttr_of_mem_attrTokens ht
  rw [enter, takeWhile_run hattrs hts, dropWhile_run hattrs hts, attributesOf_attrTokens]
  rfl

theorem read_opening (n : Nest) (first name : Lexeme) (attrs : List AttrPhrase)
    (selfClosing : Bool) (close : Lexeme) (ts : List Token) :
    n.read ((Phrase.opening first name attrs selfClosing close).tokens ++ ts) =
      ((n.past (Phrase.opening first name attrs selfClosing close).tokens).begin
        (first.token .tagOpen) name.value selfClosing
        (attrs.map AttrPhrase.toAttribute)).read ts := by
  have hstop : StopsAt (·.kind.isAttr) (close.token (Phrase.closeKind selfClosing) :: ts) :=
    stopsAt_cons (by cases selfClosing <;> rfl)
  have henter := enter_eq n first name attrs hstop
  rw [Phrase.tokens, List.append_assoc, openingTokens, List.cons_append, read_cons]
  change (n.enter _ _).1.read (n.enter _ _).2 = _
  rw [List.cons_append, List.singleton_append, henter]
  cases selfClosing <;> rfl

/-- A tag that the source ends in. -/
theorem read_unended (n : Nest) (first name : Lexeme) (attrs : List AttrPhrase) :
    n.read (openingTokens first name attrs) =
      ((n.past (openingTokens first name attrs)).begin (first.token .tagOpen) name.value false
        (attrs.map AttrPhrase.toAttribute)).read [] := by
  have henter := enter_eq n first name attrs (stopsAt_nil _)
  rw [List.append_nil] at henter
  rw [openingTokens, read_cons]
  change (n.enter _ _).1.read (n.enter _ _).2 = _
  rw [henter]
  simp [cutHead, openingTokens]

/-- A closing tag of an open element. -/
theorem read_closing {n : Nest} {name : Lexeme} (h : name.value ∈ n.tags) (first : Lexeme)
    (ts : List Token) :
    n.read (first.token .tagEndOpen :: name.token .tagName :: ts) =
      ((n.closeInside name.value).past (first.token .tagEndOpen :: name.token .tagName ::
        (cutHead (·.kind == .tagClose) ts).1)).close.read (cutHead (·.kind == .tagClose) ts).2 := by
  rw [read_cons]
  change (n.leave _ _).1.read (n.leave _ _).2 = _
  rw [leave, if_pos ⟨rfl, h⟩]
  rfl

/-- A closing tag of no open element. -/
theorem read_stray {n : Nest} {ts : List Token}
    (h : ∀ t, ts.head? = some t → t.kind = .tagName → t.value ∉ n.tags) (first : Lexeme) :
    n.read (first.token .tagEndOpen :: ts) =
      (n.past (first.token .tagEndOpen :: (cutStray ts).1)).read (cutStray ts).2 := by
  rw [read_cons]
  change (n.leave _ _).1.read (n.leave _ _).2 = _
  cases ts with
  | nil => rfl
  | cons name ts =>
    have hout : ¬ (name.kind = .tagName ∧ name.value ∈ n.tags) := fun hin => h name rfl hin.1 hin.2
    rw [leave, if_neg hout]

end Nest

end Trellis.Template
