import Mathlib.Data.List.Forall2
import Mathlib.Order.Nat
import Trellis.Proofs.Jsx.References

/-!
# The shape of a compiled template

A template becomes one expression, which a generated function returns. Whether it has to be wrapped
before, and unwrapped after `return`, is decided by the first and last characters of the emitted
text. This module says what these characters stand for.

* `emitNode_shape`: a node becomes nothing, the text of its words, an expression in braces, or one
  element, and only a text with words becomes words.
* `Shape` lists what a template may become and how it is returned: `null`, one element or fragment,
  or the expression of its only root, in parentheses instead of braces.
* `emitDocument_shape`: a template has one of these shapes, unless its only root is a text whose
  first character JSX gives a meaning. The braces that guard this character are taken for those of
  an expression, so the text is not wrapped (`not_shape_bracedTemplate`).
-/

namespace Trellis.Jsx

open Trellis.Text
open Trellis.Template

/-! ## First and last characters -/

theorem hasStart_eq {pat : String} {c : Char} (hpat : pat.toList = [c]) (s : String) :
    hasStart s pat = (s.toList.head? == some c) := by
  rw [hasStart, hpat]
  cases s.toList with
  | nil => rfl
  | cons first rest => simp [List.isPrefixOf_cons_cons, Bool.beq_eq_decide_eq, eq_comm]

theorem hasStart_angle (s : String) : hasStart s "<" = (s.toList.head? == some '<') :=
  hasStart_eq rfl s

theorem hasStart_brace (s : String) : hasStart s "\x7b" = (s.toList.head? == some '\x7b') :=
  hasStart_eq rfl s

theorem hasEnd_append (s pat : String) : hasEnd (s ++ pat) pat = true := by
  rw [hasEnd, String.toList_append, List.isSuffixOf_iff_suffix]
  exact List.suffix_append _ _

theorem hasStart_append (pat s : String) : hasStart (pat ++ s) pat = true := by
  rw [hasStart, String.toList_append, List.isPrefixOf_iff_prefix]
  exact List.prefix_append _ _

theorem toList_braced (e : String) : (braced e).toList = '\x7b' :: (e.toList ++ ['\x7d']) := by
  simp [braced]

theorem hasStart_braced (e : String) : hasStart (braced e) "\x7b" = true := by
  rw [hasStart_brace, toList_braced]
  rfl

theorem inner_braced (e : String) : Text.inner (braced e) = e := by
  simp [Text.inner, dropFirst, dropLast, toList_braced]

/-- Braces become parentheses, except where they hold a spread. -/
theorem returnExpression_braced (e : String) :
    returnExpression (braced e) = if hasStart e "..." then braced e else "(" ++ e ++ ")" := by
  have hend : hasEnd (braced e) "\x7d" = true := hasEnd_append _ _
  have hspread : hasStart (braced e) "\x7b..." = hasStart e "..." := by
    have hpat : "\x7b...".toList = '\x7b' :: "...".toList := rfl
    rw [hasStart, hpat, toList_braced, List.isPrefixOf_cons_cons_self, hasStart]
    rw [Bool.eq_iff_iff, List.isPrefixOf_iff_prefix, List.isPrefixOf_iff_prefix]
    refine ⟨fun h => ?_, fun h => h.trans (List.prefix_append _ _)⟩
    -- The closing brace is no dot, so the dots stand before it.
    rcases List.prefix_concat_iff.mp h with h | h
    · have hlast := congrArg List.getLast? h
      rw [List.getLast?_concat] at hlast
      exact absurd hlast (by decide)
    · exact h
  rw [returnExpression, hasStart_braced, hend, hspread, inner_braced]
  cases hasStart e "..." <;> rfl

/-- What does not start with a brace is returned as it is. -/
theorem returnExpression_of_not_braced {jsx : String} (h : hasStart jsx "\x7b" = false) :
    returnExpression jsx = jsx := by
  rw [returnExpression, h]
  rfl

/-! ## What a node becomes -/

/-- A text that is not blank. -/
def isWords : Node → Bool
  | .text content _ => !isBlankText content
  | _ => false

/-- One element or fragment. -/
structure IsMarkup (text : String) : Prop where
  form : (∃ tag parts children, text = elementJsx tag parts children) ∨
    ∃ inside, text = "<>" ++ inside ++ "</>"
  starts : hasStart text "<" = true
  ends : hasEnd text ">" = true

/-- What a node may become. -/
inductive NodeShape : Node → String → Prop
  | nothing (n : Node) : NodeShape n ""
  | words (content : String) (span : Span) (h : isBlankText content = false) :
    NodeShape (.text content span) (String.join (content.toList.map textChar))
  | expression {n : Node} (e : String) (h : isWords n = false) : NodeShape n (braced e)
  | element {n : Node} (tag : String) (parts : List String) (children : String)
    (h : isWords n = false) : NodeShape n (elementJsx tag parts children)

theorem isMarkup_elementJsx (tag : String) (parts : List String) (children : String) :
    IsMarkup (elementJsx tag parts children) := by
  refine ⟨.inl ⟨tag, parts, children, rfl⟩, ?_, ?_⟩ <;> rw [elementJsx] <;> split
  · rw [String.append_assoc]
    exact hasStart_append _ _
  · simp only [String.append_assoc]
    exact hasStart_append _ _
  · have hend : " />" = " /" ++ ">" := rfl
    rw [hend, ← String.append_assoc]
    exact hasEnd_append _ _
  · exact hasEnd_append _ _

theorem isMarkup_fragment (inside : String) : IsMarkup ("<>" ++ inside ++ "</>") := by
  have hstart : "<>" = "<" ++ ">" := rfl
  have hend : "</>" = "</" ++ ">" := rfl
  refine ⟨.inr ⟨inside, rfl⟩, ?_, ?_⟩
  · rw [hstart, String.append_assoc, String.append_assoc]
    exact hasStart_append _ _
  · rw [hend, ← String.append_assoc]
    exact hasEnd_append _ _

theorem IsMarkup.not_braced {text : String} (h : IsMarkup text) : hasStart text "\x7b" = false := by
  have hstart := h.starts
  rw [hasStart_angle, beq_iff_eq] at hstart
  rw [hasStart_brace, hstart]
  rfl

theorem outlet_eq : "<Component />" = elementJsx "Component" [] "" := rfl

theorem textJsx_shape (content : String) (span : Span) :
    NodeShape (.text content span) (textJsx content) := by
  rw [textJsx]
  split
  · next hblank =>
    split
    · exact .nothing _
    · exact .expression _ (by rw [isWords, hblank]; rfl)
  · next hblank => exact .words content span (Bool.eq_false_iff.mpr hblank)

/-- An element under its loop and its condition is an expression. -/
theorem structuralJsx_shape {n : Node} (hn : isWords n = false) (tag : String)
    (parts : List String) (children : String) (loop : Option Loop) (attributes : List Attribute) :
    NodeShape n (structuralJsx (elementJsx tag parts children) loop attributes) := by
  rw [structuralJsx]
  dsimp only
  split
  · exact .expression _ hn
  · cases loop with
    | none => exact .element tag parts children hn
    | some l => exact .expression _ hn

theorem emitSlot_shape {n : Node} (hn : isWords n = false) (scope : Scope) (tag : String)
    (attributes : List Attribute) : Gives (NodeShape n) (emitSlot scope tag attributes) := by
  rw [emitSlot]
  split
  · refine gives_bind (gives_any _) fun _ _ => gives_pure ?_
    rw [outlet_eq]
    exact .element _ _ _ hn
  · split
    · exact gives_bind (gives_any _) fun _ _ => gives_pure (.expression _ hn)
    · exact gives_bind (gives_any _) fun _ _ => gives_pure (.expression _ hn)

/-- **What a node becomes**, whatever has been gathered before. -/
theorem emitNode_shape (scope : Scope) (n : Node) :
    Gives (NodeShape n) (emitNode scope n) := by
  cases n with
  | text content span =>
    rw [emitNode]
    exact gives_pure (textJsx_shape content span)
  | comment content span =>
    rw [emitNode]
    exact gives_pure (.nothing _)
  | interpolation expression span =>
    rw [emitNode]
    split
    · exact gives_pure (.nothing _)
    · exact gives_bind (gives_any _) fun _ _ => gives_pure (.expression _ rfl)
  | element tag selfClosing attributes children span =>
    rw [emitNode]
    split
    · exact emitSlot_shape rfl scope tag attributes
    · split
      · refine gives_bind (gives_any _) fun _ _ => gives_pure ?_
        rw [outlet_eq]
        exact .element _ _ _ rfl
      · refine gives_bind (gives_any _) fun _ _ => gives_bind (gives_any _) fun parts _ =>
          gives_bind (gives_any _) fun inside _ => gives_bind (gives_any _) fun loop _ =>
            gives_pure ?_
        exact structuralJsx_shape rfl _ _ _ _ _

/-- Each node becomes one text. -/
theorem emitNodes_shape (scope : Scope) (ns : List Node) :
    Gives (List.Forall₂ NodeShape ns) (emitNodes scope ns) := by
  induction ns with
  | nil =>
    rw [emitNodes]
    exact gives_pure .nil
  | cons n ns ih =>
    rw [emitNodes]
    exact gives_bind (emitNode_shape scope n) fun _ hpart => gives_bind ih fun _ hparts =>
      gives_pure (.cons hpart hparts)

/-! ## What a template becomes -/

/-- The top-level nodes of a template that become something, each with what it becomes. -/
def rootsOf (scope : Scope) (d : Document) (e : Emission) : List (Node × String) :=
  (d.children.zip ((emitNodes scope d.children).run e).1).filter fun root => !root.2.isEmpty

/-- What a template with the given roots may become, and how it is returned. -/
inductive Shape (roots : List (Node × String)) : String → String → Prop
  | nothing (h : roots = []) : Shape roots "null" "null"
  /-- One element or fragment, with the texts of all roots. -/
  | markup {jsx : String} (h : roots ≠ []) (hjsx : IsMarkup jsx)
    (hall : ∀ root ∈ roots, Within root.2 jsx) : Shape roots jsx jsx
  /-- The expression of the only root, which is not a text with words. -/
  | expression {n : Node} {e : String} (h : roots = [(n, braced e)])
    (hn : isWords n = false) (he : hasStart e "..." = false) :
    Shape roots (braced e) ("(" ++ e ++ ")")
  /-- A spread cannot stand in parentheses. -/
  | spread {n : Node} {e : String} (h : roots = [(n, braced e)])
    (hn : isWords n = false) (he : hasStart e "..." = true) :
    Shape roots (braced e) (braced e)

/-- A character that JSX gives a meaning. -/
def isMark (c : Char) : Bool := c == '\x7b' || c == '\x7d' || c == '<' || c == '>'

/-- The only root is a text that starts with a character that JSX gives a meaning. -/
def StartsWithMark (roots : List (Node × String)) : Prop :=
  ∃ content span text c, roots = [(.text content span, text)] ∧ isBlankText content = false ∧
    content.toList.head? = some c ∧ isMark c = true

/-- The first character of a text with words, in JSX. -/
theorem head_join_textChar {content : String} {c : Char} (h : content.toList.head? = some c) :
    (String.join (content.toList.map textChar)).toList.head? =
      if isMark c then some '\x7b' else some c := by
  cases hcs : content.toList with
  | nil =>
    rw [hcs] at h
    cases h
  | cons first rest =>
    rw [hcs] at h
    cases h
    rw [List.map_cons, String.join_cons, String.toList_append, textChar]
    change (List.append (String.toList (if isMark c then _ else _)) _).head? = _
    cases isMark c with
    | true => rw [if_pos rfl, toList_braced]; rfl
    | false => simp

theorem exists_head_of_words {content : String} (h : isBlankText content = false) :
    ∃ c, content.toList.head? = some c := by
  cases hcs : content.toList with
  | nil => simp [isBlankText, hcs] at h
  | cons c cs => exact ⟨c, rfl⟩

section

variable {scope : Scope} {d : Document} {e : Emission}

theorem map_snd_rootsOf (scope : Scope) (d : Document) (e : Emission) :
    (rootsOf scope d e).map (·.2) = ((emitNodes scope d.children).run e).1.filter (!·.isEmpty) := by
  have hlength := (emitNodes_shape scope d.children e).length_eq
  have hsnd := List.map_snd_zip hlength.ge
  conv_rhs => rw [← hsnd]
  rw [rootsOf, List.filter_map]
  rfl

theorem emitDocument_eq (scope : Scope) (d : Document) (e : Emission) :
    ((emitDocument scope d).run e).1 = rootJsx ((rootsOf scope d e).map (·.2)) := by
  rw [map_snd_rootsOf]
  rfl

/-- Each root is what its node becomes, and is not empty. -/
theorem mem_rootsOf {n : Node} {text : String} (h : (n, text) ∈ rootsOf scope d e) :
    NodeShape n text ∧ text ≠ "" := by
  obtain ⟨hzip, hfull⟩ := List.mem_filter.mp h
  refine ⟨?_, by simpa using hfull⟩
  exact (List.forall₂_iff_zip.mp (emitNodes_shape scope d.children e)).2 hzip

end

/-- A template whose only root is not a text that starts with a mark. -/
theorem shape_singleton {n : Node} {text : String} (hshape : NodeShape n text) (hfull : text ≠ "")
    (hmark : ¬StartsWithMark [(n, text)]) :
    Shape [(n, text)] (rootJsx [text]) (returnExpression (rootJsx [text])) := by
  have hself : ∀ root ∈ [(n, text)], Within root.2 text := by
    intro root hroot
    rw [List.mem_singleton.mp hroot]
    exact within_self _
  rw [rootJsx]
  cases hshape with
  | nothing => exact absurd rfl hfull
  | words content span hwords =>
    obtain ⟨c, hc⟩ := exists_head_of_words hwords
    have hplain : isMark c = false := by
      rw [← Bool.not_eq_true]
      exact fun h => hmark ⟨content, span, _, c, rfl, hwords, hc, h⟩
    have hhead := head_join_textChar hc
    rw [hplain, if_neg Bool.false_ne_true] at hhead
    have hopen : ¬(hasStart (String.join (content.toList.map textChar)) "<" ||
        hasStart (String.join (content.toList.map textChar)) "\x7b") = true := by
      rw [hasStart_angle, hasStart_brace, hhead]
      simp only [isMark, Bool.or_eq_false_iff, beq_eq_false_iff_ne] at hplain
      simp [hplain]
    rw [if_neg hopen]
    have hmarkup := isMarkup_fragment (String.join (content.toList.map textChar))
    rw [returnExpression_of_not_braced (hmarkup.not_braced)]
    refine .markup (List.cons_ne_nil _ _) hmarkup fun root hroot => ?_
    exact ((hself root hroot).prepend _).append _
  | expression inside hn =>
    rw [hasStart_braced, Bool.or_true, if_pos rfl, returnExpression_braced]
    cases hspread : hasStart inside "..." with
    | true => exact .spread rfl hn hspread
    | false => exact .expression rfl hn hspread
  | element tag parts children hn =>
    have hmarkup := isMarkup_elementJsx tag parts children
    rw [hmarkup.starts, Bool.true_or, if_pos rfl, returnExpression_of_not_braced hmarkup.not_braced]
    exact .markup (List.cons_ne_nil _ _) hmarkup hself

/-- A text that starts with a mark is taken for an expression, and left as it is. -/
theorem not_shape_of_startsWithMark {scope : Scope} {d : Document} {e : Emission}
    (h : StartsWithMark (rootsOf scope d e)) (returned : String) :
    ¬Shape (rootsOf scope d e) ((emitDocument scope d).run e).1 returned := by
  obtain ⟨content, span, text, c, hroots, hwords, hc, hmark⟩ := h
  have hmem : (Node.text content span, text) ∈ rootsOf scope d e := by
    rw [hroots]
    exact List.mem_cons_self
  obtain ⟨hshape, hfull⟩ := mem_rootsOf hmem
  have hisWords : isWords (.text content span) = true := by
    rw [isWords, hwords]
    rfl
  -- The text is that of its words, which starts with a brace.
  have htext : text.toList.head? = some '\x7b' := by
    cases hshape with
    | nothing => exact absurd rfl hfull
    | words => rw [head_join_textChar hc, if_pos hmark]
    | expression inside hn => rw [hisWords] at hn; cases hn
    | element tag parts children hn => rw [hisWords] at hn; cases hn
  have hjsx : ((emitDocument scope d).run e).1 = text := by
    have hopen : hasStart text "\x7b" = true := by
      rw [hasStart_brace, htext]
      rfl
    rw [emitDocument_eq, hroots]
    change (if hasStart text "<" || hasStart text "\x7b" then text else _) = text
    rw [hopen, Bool.or_true, if_pos rfl]
  rw [hjsx, hroots]
  intro hall
  cases hall with
  | nothing h => cases h
  | markup h hmarkup =>
    have hstart := hmarkup.starts
    rw [hasStart_angle, htext] at hstart
    cases hstart
  | expression h hn =>
    cases h
    rw [hisWords] at hn
    cases hn
  | spread h hn =>
    cases h
    rw [hisWords] at hn
    cases hn

/-- **The shape of a compiled template**, whatever the registries are and whatever has been gathered
before. It is `null`, one element or fragment, or the expression of its only root, which then is not
a text with words, and it is returned accordingly; this fails exactly for templates whose only root
is a text that starts with a character that JSX gives a meaning. -/
theorem emitDocument_shape (scope : Scope) (d : Document) (e : Emission) :
    Shape (rootsOf scope d e) ((emitDocument scope d).run e).1
        (returnExpression ((emitDocument scope d).run e).1) ↔
      ¬StartsWithMark (rootsOf scope d e) := by
  refine ⟨fun hshape hmark => not_shape_of_startsWithMark hmark _ hshape, fun hmark => ?_⟩
  rw [emitDocument_eq]
  match hroots : rootsOf scope d e with
  | [] => exact .nothing rfl
  | [(n, text)] =>
    have hmem : (n, text) ∈ rootsOf scope d e := by
      rw [hroots]
      exact List.mem_cons_self
    obtain ⟨hshape, hfull⟩ := mem_rootsOf hmem
    rw [hroots] at hmark
    exact shape_singleton hshape hfull hmark
  | first :: second :: rest =>
    rw [List.map_cons, List.map_cons]
    have hform : rootJsx (first.2 :: second.2 :: rest.map (·.2)) =
        "<>" ++ ("\n      " ++ "\n      ".intercalate (first.2 :: second.2 :: rest.map (·.2)) ++
          "\n    ") ++ "</>" := by
      simp [rootJsx, ← String.toList_inj]
    have hmarkup : IsMarkup (rootJsx (first.2 :: second.2 :: rest.map (·.2))) := by
      rw [hform]
      exact isMarkup_fragment _
    rw [returnExpression_of_not_braced hmarkup.not_braced]
    refine .markup (List.cons_ne_nil _ _) hmarkup fun root hroot => ?_
    have hmem : root.2 ∈ first.2 :: second.2 :: rest.map (·.2) := List.mem_map_of_mem hroot
    exact (((within_self _).intercalate _ hmem).prepend _).append _

/-- A text in braces. -/
def bracedTemplate : String := "\x7ba\x7d"

theorem rootsOf_bracedTemplate :
    rootsOf {} (parseTemplate bracedTemplate).document {} =
      [(.text "\x7ba\x7d" ⟨1, 1, 0, 3⟩, "\x7b\"\x7b\"\x7da\x7b\"\x7d\"\x7d")] := by
  with_unfolding_all rfl

/-- A text in braces is returned as if it were an expression, and is none. -/
theorem not_shape_bracedTemplate :
    returnExpression ((emitDocument {} (parseTemplate bracedTemplate).document).run {}).1 =
        "(\"\x7b\"\x7da\x7b\"\x7d\")" ∧
      ¬Shape (rootsOf {} (parseTemplate bracedTemplate).document {})
        ((emitDocument {} (parseTemplate bracedTemplate).document).run {}).1
        (returnExpression
          ((emitDocument {} (parseTemplate bracedTemplate).document).run {}).1) := by
  refine ⟨by decide +kernel, not_shape_of_startsWithMark ?_ _⟩
  rw [rootsOf_bracedTemplate]
  exact ⟨_, _, _, '\x7b', rfl, by decide, by decide, rfl⟩

end Trellis.Jsx
