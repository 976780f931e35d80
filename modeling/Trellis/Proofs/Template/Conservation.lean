import Mathlib.Data.List.Permutation
import Trellis.Proofs.Template.Openings

/-!
# What of a template reaches its tree

Every text, interpolation and comment of a template is a token, and should be a node of its tree.
Closing tags decide whether it is. One that closes an open element drops nothing, however many other
elements it closes. One that closes nothing is skipped through its `>`; where it has none, the
parser skips on to the next tag, over all that stands between the two, and records no error.

* `Document.leaves` are the texts, interpolations and comments of a tree, depth first, as tokens.
* `Sentence.fates` walks over a token stream with the tags that are open, and says of each of these
  tokens whether it is kept: it is not if the last tag before it is a closing tag that closes
  nothing and has no `>`.
* `Nest.leaves` are the leaves that the stack machine has placed. Opening and closing elements keeps
  them, so a run adds the leaves that are kept (`read_leaves`).
* `parseTemplate_conserves`: the leaves of a template are the tokens that are kept, in order, and
  its elements are its opening tags. So nothing is lost exactly if all fates are good.
-/

namespace Trellis.Template

/-! ## The leaves of a tree -/

/-- The token of a node without children. -/
def Node.leaf? : Node → Option Token
  | .text content span => some ⟨.text, content, span⟩
  | .interpolation expression span => some ⟨.interpolation, expression, span⟩
  | .comment content span => some ⟨.comment, content, span⟩
  | .element .. => none

/-- The leaves among nodes and their descendants, depth first. -/
def leavesOf (ns : List Node) : List Token := (Node.allOf ns).filterMap Node.leaf?

/-- The leaves of a template, depth first. -/
def Document.leaves (d : Document) : List Token := leavesOf d.children

@[simp] theorem leavesOf_nil : leavesOf [] = [] := rfl

theorem leavesOf_append (xs ys : List Node) : leavesOf (xs ++ ys) = leavesOf xs ++ leavesOf ys := by
  rw [leavesOf, Node.allOf_append, List.filterMap_append]
  rfl

@[simp] theorem leavesOf_element (tag : String) (selfClosing : Bool) (attributes : List Attribute)
    (children : List Node) (span : Span) :
    leavesOf [.element tag selfClosing attributes children span] = leavesOf children := by
  rw [leavesOf, Node.allOf, Node.all, Node.allOf, List.append_nil]
  exact List.filterMap_cons_none rfl

@[simp] theorem leavesOf_leaf (kind : LeafKind) (x : Lexeme) :
    leavesOf [kind.node x] = [x.token kind.kind] := by
  cases kind <;> rfl

/-! ## The fates of tokens -/

/-- The kinds of tokens that are nodes by themselves. -/
def TokenKind.isLeaf : TokenKind → Bool
  | .text | .interpolation | .comment => true
  | _ => false

/-- The tags that are open after a phrase, innermost first. -/
def Phrase.openAfter (opened : List String) : Phrase → List String
  | .leaf .. => opened
  | .opening _ name _ selfClosing _ =>
    if selfClosing || isVoid name.value then opened else name.value :: opened
  | .closing _ name _ =>
    if name.value ∈ opened then opened.drop (opened.idxOf name.value + 1) else opened

/-- What follows the phrase, up to the next tag, is lost: the last tag was a closing tag that closes
nothing and has no `>`. -/
def Phrase.losesAfter (opened : List String) (lost : Bool) : Phrase → Bool
  | .leaf .. => lost
  | .opening .. => false
  | .closing _ name none => decide (name.value ∉ opened)
  | .closing _ _ (some _) => false

/-- The leaf that a phrase is, with whether it is kept. -/
def Phrase.fate (lost : Bool) : Phrase → List (Token × Bool)
  | .leaf kind x => [(x.token kind.kind, !lost)]
  | .opening .. => []
  | .closing .. => []

/-- The leaves of phrases, each with whether it is kept, by the tags that are open before them and
whether what follows is lost. -/
def fatesOf (opened : List String) (lost : Bool) : List Phrase → List (Token × Bool)
  | [] => []
  | p :: ps => p.fate lost ++ fatesOf (p.openAfter opened) (p.losesAfter opened lost) ps

/-- The leaves of a sentence, each with whether it is kept. -/
def Sentence.fates (s : Sentence) : List (Token × Bool) := fatesOf [] false s.phrases

/-- The leaves that are kept. -/
def keptOf (opened : List String) (lost : Bool) (ps : List Phrase) : List Token :=
  ((fatesOf opened lost ps).filter (·.2)).map (·.1)

theorem keptOf_cons (opened : List String) (lost : Bool) (p : Phrase) (ps : List Phrase) :
    keptOf opened lost (p :: ps) = ((p.fate lost).filter (·.2)).map (·.1) ++
      keptOf (p.openAfter opened) (p.losesAfter opened lost) ps := by
  rw [keptOf, fatesOf, List.filter_append, List.map_append]
  rfl

theorem filter_isLeaf_openingTokens (first name : Lexeme) (attrs : List AttrPhrase) :
    (openingTokens first name attrs).filter (·.kind.isLeaf) = [] := by
  refine List.filter_eq_nil_iff.mpr fun t ht => ?_
  rcases List.mem_cons.mp ht with rfl | ht
  · exact Bool.false_ne_true
  · rcases List.mem_cons.mp ht with rfl | ht
    · exact Bool.false_ne_true
    · have hattr := isAttr_of_mem_attrTokens ht
      cases hkind : t.kind <;> simp_all [TokenKind.isAttr, TokenKind.isLeaf]

theorem map_fate (lost : Bool) (p : Phrase) :
    (p.fate lost).map (·.1) = p.tokens.filter (·.kind.isLeaf) := by
  cases p with
  | leaf kind x => cases kind <;> rfl
  | opening first name attrs selfClosing close =>
    rw [Phrase.tokens, List.filter_append, filter_isLeaf_openingTokens]
    cases selfClosing <;> rfl
  | closing first name close => cases close <;> rfl

/-- Every leaf of the stream has a fate. -/
theorem map_fates (s : Sentence) : s.fates.map (·.1) = s.tokens.filter (·.kind.isLeaf) := by
  have hending : s.ending.tokens.filter (·.kind.isLeaf) = [] := by
    cases s.ending with
    | whole => rfl
    | opening first name attrs => exact filter_isLeaf_openingTokens first name attrs
    | closing first => rfl
  have hphrases : ∀ (ps : List Phrase) (opened : List String) (lost : Bool),
      (fatesOf opened lost ps).map (·.1) = (phraseTokens ps).filter (·.kind.isLeaf) := by
    intro ps
    induction ps with
    | nil => exact fun _ _ => rfl
    | cons p ps ih =>
      intro opened lost
      rw [fatesOf, List.map_append, map_fate, ih, phraseTokens_cons, List.filter_append]
  rw [Sentence.fates, hphrases, Sentence.tokens, List.filter_append, hending, List.append_nil]

/-- The leaves that are skipped after a closing tag that closes nothing are those that are lost. -/
theorem Sentence.keptOf_pastLeaves (opened : List String) (s : Sentence) :
    keptOf opened false s.pastLeaves.phrases = keptOf opened true s.phrases := by
  obtain ⟨ps, ending⟩ := s
  induction ps with
  | nil => rfl
  | cons p ps ih =>
    cases p with
    | leaf kind x => exact ih
    | opening first name attrs selfClosing close => rfl
    | closing first name close => cases close <;> rfl

/-! ## The leaves of a nest -/

namespace Nest

/-- The leaves that have been placed: those of the document, then those of the open elements,
outermost first. -/
def leaves (n : Nest) : List Token :=
  leavesOf n.roots ++ n.opened.reverse.flatMap fun e => leavesOf e.children

@[simp] theorem leaves_past (n : Nest) (ts : List Token) : (n.past ts).leaves = n.leaves := rfl

@[simp] theorem tags_past (n : Nest) (ts : List Token) : (n.past ts).tags = n.tags := rfl

theorem leaves_add (n : Nest) (xs : List Node) : (n.add xs).leaves = n.leaves ++ leavesOf xs := by
  obtain ⟨roots, opened, last⟩ := n
  cases opened with
  | nil => simp [add, leaves, leavesOf_append]
  | cons e es => simp [add, leaves, leavesOf_append]

/-- The leaves of a closed element stay behind those placed before it opened. -/
theorem leaves_close (n : Nest) : n.close.leaves = n.leaves := by
  obtain ⟨roots, opened, last⟩ := n
  cases opened with
  | nil => rfl
  | cons e es =>
    rw [close, leaves_add]
    simp [leaves]

theorem leaves_iterate_close (n : Nest) (k : Nat) : (close^[k] n).leaves = n.leaves := by
  refine Function.Iterate.rec (fun m : Nest => m.leaves = n.leaves) rfl (fun m hm => ?_) k
  rw [leaves_close, hm]

theorem leaves_begin (n : Nest) (first : Token) (tag : String) (selfClosing : Bool)
    (attributes : List Attribute) :
    (n.begin first tag selfClosing attributes).leaves = n.leaves := by
  unfold begin
  split
  · simp [leaves_add]
  · simp [leaves]

/-- What is open after an opening tag. -/
theorem tags_opening (n : Nest) (first name : Lexeme) (attrs : List AttrPhrase)
    (selfClosing : Bool) (close : Lexeme) :
    (n.begin (first.token .tagOpen) name.value selfClosing
      (attrs.map AttrPhrase.toAttribute)).tags =
      (Phrase.opening first name attrs selfClosing close).openAfter n.tags := by
  rw [Phrase.openAfter]
  cases hshut : selfClosing || isVoid name.value with
  | true => simp [begin, hshut]
  | false => simp [tags_begin n _ hshut]

/-- What is open after a closing tag of an open element. -/
theorem tags_closing {n : Nest} {name : Lexeme} (h : name.value ∈ n.tags) (ts : List Token)
    (first : Lexeme) (close : Option Lexeme) :
    ((n.closeInside name.value).past ts).close.tags =
      (Phrase.closing first name close).openAfter n.tags := by
  rw [tags_close, tags_past, closeInside, tags_iterate_close, Phrase.openAfter, if_pos h,
    List.tail_drop]

/-- The leaves of a whole sentence, whatever is open before it: those that are kept are placed. -/
theorem Takes.leaves {n m : Nest} {s : Sentence} (h : Takes n s m) :
    m.leaves = n.leaves ++ keptOf n.tags false s.phrases := by
  induction h with
  | whole n =>
    rw [closeAll, leaves_iterate_close]
    exact (List.append_nil _).symm
  | unended n first name attrs =>
    rw [closeAll, leaves_iterate_close, leaves_begin]
    exact (List.append_nil _).symm
  | nameless n first =>
    rw [closeAll, leaves_iterate_close]
    exact (List.append_nil _).symm
  | leaf h ih =>
    rw [ih, leaves_add, leaves_past, leavesOf_leaf, tags_add, tags_past, keptOf_cons,
      List.append_assoc]
    rfl
  | @opening n m first name attrs selfClosing close ps e h ih =>
    rw [ih, leaves_begin, leaves_past, tags_opening _ first name attrs selfClosing close, tags_past,
      keptOf_cons]
    rfl
  | @closing n m first name close ps e hopen ts h ih =>
    -- The closing tag drops nothing, with its `>` or without.
    have hkept : (Phrase.closing first name close).losesAfter n.tags false = false := by
      cases close <;> simp [Phrase.losesAfter, hopen]
    rw [ih, tags_closing hopen ts first close, leaves_close, leaves_past, closeInside,
      leaves_iterate_close, keptOf_cons, hkept]
    rfl
  | stray hout ts h ih =>
    rw [ih, keptOf_cons, Phrase.openAfter, if_neg hout]
    rfl
  | @skipping n m first name ps e hout ts h ih =>
    have hlost : (Phrase.closing first name none).losesAfter n.tags false = true := by
      simp [Phrase.losesAfter, hout]
    rw [ih, Sentence.keptOf_pastLeaves, keptOf_cons, hlost, Phrase.openAfter, if_neg hout]
    rfl

theorem read_leaves (n : Nest) (s : Sentence) :
    (n.read s.tokens).leaves = n.leaves ++ keptOf n.tags false s.phrases :=
  (takes_read n s).leaves

end Nest

/-- **The leaves of a template are those of its tokens that are kept**, in order. -/
theorem leaves_parseTemplate {source : String} {s : Sentence}
    (h : (tokenize source).tokens = s.tokens) :
    (parseTemplate source).document.leaves = (s.fates.filter (·.2)).map (·.1) := by
  have hread := Nest.read_leaves {} s
  rw [Nest.leaves, Nest.opened_read, ← h] at hread
  have hdocument : (parseTemplate source).document = assemble (tokenize source) :=
    (parseDocument_sentence h rfl).1
  rw [hdocument, Document.leaves]
  simpa [assemble, Nest.leaves, Nest.tags, keptOf, Sentence.fates] using hread

/-! ## The names of opening tags -/

/-- What follows the marks of opening tags. -/
def afterOpenings : List Token → List Token
  | [] => []
  | t :: ts => (if t.kind = .tagOpen then ts.head?.toList else []) ++ afterOpenings ts

theorem afterOpenings_append {ts : List Token} (h : ∀ t ∈ ts, t.kind ≠ .tagOpen)
    (us : List Token) : afterOpenings (ts ++ us) = afterOpenings us := by
  induction ts with
  | nil => rfl
  | cons t ts ih =>
    rw [List.cons_append, afterOpenings, if_neg (h t List.mem_cons_self), List.nil_append]
    exact ih fun u hu => h u (List.mem_cons_of_mem _ hu)

theorem afterOpenings_opening (first name : Lexeme) (attrs : List AttrPhrase) (us : List Token) :
    afterOpenings (openingTokens first name attrs ++ us) =
      name.token .tagName :: afterOpenings us := by
  have hattrs : ∀ t ∈ name.token .tagName :: attrTokens attrs, t.kind ≠ .tagOpen := by
    intro t ht
    rcases List.mem_cons.mp ht with rfl | ht
    · exact TokenKind.noConfusion
    · intro hkind
      have hattr := isAttr_of_mem_attrTokens ht
      rw [hkind] at hattr
      exact Bool.noConfusion hattr
  rw [openingTokens, List.cons_append, afterOpenings, afterOpenings_append hattrs]
  rfl

/-- Every opening tag of a sentence has its name right after its mark. -/
theorem afterOpenings_tokens (s : Sentence) :
    (afterOpenings s.tokens).map (·.value) = s.openings.map (·.tag) ∧
      ∀ t ∈ afterOpenings s.tokens, t.kind = .tagName := by
  obtain ⟨ps, ending⟩ := s
  induction ps with
  | nil =>
    cases ending with
    | whole => exact ⟨rfl, nofun⟩
    | opening first name attrs =>
      have hafter := afterOpenings_opening first name attrs []
      rw [List.append_nil] at hafter
      change (afterOpenings (openingTokens first name attrs)).map _ = _ ∧
        ∀ t ∈ afterOpenings (openingTokens first name attrs), _
      rw [hafter]
      exact ⟨rfl, fun t ht => by cases List.mem_singleton.mp ht; rfl⟩
    | closing first => exact ⟨rfl, nofun⟩
  | cons p ps ih =>
    rw [Sentence.tokens_cons, Sentence.openings_cons]
    cases p with
    | leaf kind x =>
      rw [afterOpenings_append]
      · exact ih
      · intro t ht
        cases List.mem_singleton.mp ht
        cases kind <;> nofun
    | opening first name attrs selfClosing close =>
      have hclose : ∀ t ∈ [close.token (Phrase.closeKind selfClosing)], t.kind ≠ .tagOpen := by
        intro t ht
        cases List.mem_singleton.mp ht
        cases selfClosing <;> nofun
      rw [Phrase.tokens, List.append_assoc, afterOpenings_opening, afterOpenings_append hclose]
      refine ⟨by rw [List.map_cons, ih.1]; rfl, fun t ht => ?_⟩
      rcases List.mem_cons.mp ht with rfl | ht
      · rfl
      · exact ih.2 t ht
    | closing first name close =>
      rw [afterOpenings_append (by cases close <;> simp [Phrase.tokens, Lexeme.token])]
      exact ih

/-- The tags of a template's elements, depth first. -/
theorem tags_openings (d : Document) : d.openings.map (·.tag) = d.nodes.filterMap Node.tag? := by
  rw [Document.openings, openingsOf, List.map_filterMap]
  refine List.filterMap_congr fun n _ => ?_
  cases n <;> rfl

/-! ## Conservation -/

/-- **What of a template reaches its tree**, with or without errors. The texts, interpolations and
comments of the tree, depth first, are those of the tokens that are kept, in order and each once; so
they are all of the tokens of these kinds exactly if none is lost, which it is only after a closing
tag that closes nothing and has no `>`. The elements of the tree are, in order, one for each mark of
an opening tag, with the name that follows it. -/
theorem parseTemplate_conserves (source : String) :
    ∃ s : Sentence, (tokenize source).tokens = s.tokens ∧
      s.fates.map (·.1) = (tokenize source).tokens.filter (·.kind.isLeaf) ∧
      (parseTemplate source).document.leaves = (s.fates.filter (·.2)).map (·.1) ∧
      ((parseTemplate source).document.leaves = (tokenize source).tokens.filter (·.kind.isLeaf) ↔
        ∀ fate ∈ s.fates, fate.2 = true) ∧
      (parseTemplate source).document.nodes.filterMap Node.tag? =
        (afterOpenings (tokenize source).tokens).map (·.value) ∧
      ∀ t ∈ afterOpenings (tokenize source).tokens, t.kind = .tagName := by
  obtain ⟨s, htokens, -⟩ := tokenize_sentence source
  have hleaves := leaves_parseTemplate htokens
  obtain ⟨hnames, hkinds⟩ := afterOpenings_tokens s
  refine ⟨s, htokens, ?_, hleaves, ?_, ?_, ?_⟩
  · rw [htokens, map_fates]
  · rw [hleaves, htokens, ← map_fates]
    constructor
    · intro hall
      have hlength := congrArg List.length hall
      rw [List.length_map, List.length_map] at hlength
      exact List.length_filter_eq_length_iff.mp hlength
    · intro hall
      rw [List.filter_eq_self.mpr hall]
  · rw [← tags_openings, openings_parseTemplate htokens, htokens, hnames]
  · rw [htokens]
    exact hkinds

/-- A closing tag that closes nothing and has no `>`, and a text after it. -/
def strayTemplate : String := "</b hello"

/-- The text is lost, and there is no error that says so. -/
theorem text_lost_strayTemplate :
    (parseTemplate strayTemplate).errors = [] ∧
      (parseTemplate strayTemplate).document.leaves = [] ∧
      (tokenize strayTemplate).tokens.filter (·.kind.isLeaf) =
        [⟨.text, "hello", ⟨1, 5, 4, 9⟩⟩] := by
  decide +kernel

end Trellis.Template
