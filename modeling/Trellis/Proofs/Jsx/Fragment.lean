import Trellis.Proofs.Jsx.Shape
import Trellis.Proofs.Jsx.Whitespace

/-!
# Parts of a template, in a fragment and in an element

Nodes next to each other are written in two ways. Inside an element their parts stand side by side;
at the root of a template they stand on lines of their own, in a fragment. JSX drops the line breaks
and the blanks around them, so elements and expressions are the same either way. Text need not be.

* `framed` are the parts as children of the fragment, and `seams` the places where they meet, each
  with what stands before it, the white space of the text there, and what comes after.
* `LineRule.Fine` says when a line break at a seam changes nothing: the text has one there already,
  or its white space is what a line break counts as, a space between two words and nothing
  elsewhere.
* `fragment_denote_iff`: the fragment stands for the same children as an element with the same nodes
  exactly if all seams are fine. Without text they are (`fine_of_no_words`); the blank
  between a word and an expression is lost (`not_denote_greetingTemplate`).
-/

namespace Trellis.Jsx

open Trellis.Text
open Trellis.Template

/-! ## Parts as children -/

/-- A character of a text as a child. -/
def charChild (c : Char) : Child := if isMark c then .code (textChar c) else .char c

/-- What a node of a template becomes, as children. -/
def rootChildren : Node × String → List Child
  | (.text content _, text) =>
    if isBlankText content then [.code text] else content.toList.map charChild
  | (_, text) => [.code text]

/-- A line break, and the blanks before the next line. -/
def indent (columns : Nat) : List Char := '\n' :: List.replicate columns ' '

/-- Parts on lines of their own, between the tags of a fragment. -/
def framed : List (List Child) → List Child
  | [] => chars (indent 4)
  | p :: ps => chars (indent 6) ++ p ++ framed ps

theorem render_append (ps qs : List Child) : render (ps ++ qs) = render ps ++ render qs := by
  rw [render, List.map_append, String.join_append]
  rfl

theorem render_flatten (parts : List (List Child)) :
    render parts.flatten = String.join (parts.map render) := by
  induction parts with
  | nil => rfl
  | cons p ps ih => rw [List.flatten_cons, render_append, ih, List.map_cons, String.join_cons]

theorem render_chars (cs : List Char) : render (chars cs) = String.ofList cs := by
  induction cs with
  | nil => rfl
  | cons c cs ih =>
    have htail : render (chars (c :: cs)) = String.singleton c ++ render (chars cs) :=
      String.join_cons
    rw [htail, ih, String.ofList_cons]

theorem text_charChild (c : Char) : (charChild c).text = textChar c := by
  rw [charChild]
  cases hmark : isMark c with
  | true => rfl
  | false => exact (if_neg (Bool.eq_false_iff.mp hmark)).symm

theorem rootChildren_code {n : Node} (text : String) (hn : isWords n = false) :
    rootChildren (n, text) = [.code text] := by
  cases n with
  | comment | interpolation | element => rfl
  | text content span => exact if_pos (by simpa [isWords] using hn)

/-- What a root becomes is written as its children. -/
theorem render_rootChildren {n : Node} {text : String} (hshape : NodeShape n text)
    (hfull : text ≠ "") : render (rootChildren (n, text)) = text := by
  have hcode : render [.code text] = text := by simp [render, Child.text]
  cases hshape with
  | nothing => exact absurd rfl hfull
  | words content span hwords =>
    rw [rootChildren, if_neg (by simp [hwords]), render, List.map_map]
    exact congrArg (fun f => String.join (content.toList.map f)) (funext text_charChild)
  | expression e hn | element tag parts children hn => rw [rootChildren_code _ hn, hcode]

/-- The child is what JSX takes it for: nothing in text has a meaning of its own, and expressions
and elements start with a brace or an angle bracket. -/
def Child.Legible : Child → Prop
  | .char c => isMark c = false
  | .code text => hasStart text "\x7b" = true ∨ hasStart text "<" = true

theorem legible_charChild (c : Char) : (charChild c).Legible := by
  rw [charChild]
  cases hmark : isMark c with
  | true =>
    have htext : textChar c = braced ("\"" ++ String.singleton c ++ "\"") := if_pos hmark
    exact .inl (htext ▸ hasStart_braced _)
  | false => exact hmark

theorem legible_rootChildren {n : Node} {text : String} (hshape : NodeShape n text)
    (hfull : text ≠ "") : ∀ x ∈ rootChildren (n, text), x.Legible := by
  cases hshape with
  | nothing => exact absurd rfl hfull
  | words content span hwords =>
    rw [rootChildren, if_neg (by simp [hwords])]
    intro x hx
    obtain ⟨c, -, rfl⟩ := List.mem_map.mp hx
    exact legible_charChild c
  | expression e hn =>
    rw [rootChildren_code _ hn]
    exact List.forall_mem_singleton.mpr (.inl (hasStart_braced e))
  | element tag parts children hn =>
    rw [rootChildren_code _ hn]
    exact List.forall_mem_singleton.mpr (.inr (isMarkup_elementJsx tag parts children).starts)

theorem any_isSolid_rootChildren (r : LineRule) (root : Node × String) :
    (rootChildren root).any r.isSolid = true := by
  obtain ⟨n, text⟩ := root
  cases n with
  | comment | interpolation | element => rfl
  | text content span =>
    rw [rootChildren]
    split
    · rfl
    · next hwords =>
      -- A character that is not blank is a word, or stands in braces.
      obtain ⟨c, hc, hsolid⟩ : ∃ c ∈ content.toList, isBlank c = false := by
        simpa [isBlankText] using hwords
      have hgap : r.isGap c = false := by
        rw [LineRule.isGap, Bool.eq_false_iff, Ne, Bool.or_eq_true]
        intro h
        rw [r.blank c h] at hsolid
        cases hsolid
      refine List.any_eq_true.mpr ⟨charChild c, List.mem_map_of_mem hc, ?_⟩
      rw [charChild]
      split
      · rfl
      · simp [LineRule.isSolid, hgap]

theorem render_framed (p : List Child) (ps : List (List Child)) :
    render (framed (p :: ps)) =
      "\n      " ++ "\n      ".intercalate ((p :: ps).map render) ++ "\n    " := by
  have hline : String.ofList (indent 6) = "\n      " := rfl
  have hlast : String.ofList (indent 4) = "\n    " := rfl
  induction ps generalizing p with
  | nil =>
    rw [framed, framed, render_append, render_append, render_chars, render_chars, hline, hlast]
    rfl
  | cons q ps ih =>
    rw [framed, render_append, render_append, ih, render_chars, hline]
    simp [← String.toList_inj]

theorem rootJsx_eq_framed (first second : List Child) (rest : List (List Child)) :
    rootJsx ((first :: second :: rest).map render) =
      "<>" ++ render (framed (first :: second :: rest)) ++ "</>" := by
  rw [render_framed]
  simp [rootJsx, ← String.toList_inj]

/-! ## Seams -/

/-- A place where parts meet, or before the first or after the last of them. -/
structure Seam extends Before where
  ahead : Bool

namespace LineRule

variable (r : LineRule)

/-- A line break at the seam changes nothing. -/
def Fine (s : Seam) : Prop := s.gap.any r.isBreak = true ∨ s.gap = joint s.word s.ahead

instance (s : Seam) : Decidable (r.Fine s) := inferInstanceAs (Decidable (_ ∨ _))

/-- The seams of parts, after what stands before them. -/
def seamsFrom (b : Before) : List (List Child) → List Seam
  | [] => [⟨b, false⟩]
  | p :: ps =>
    ⟨(p.takeWhile (!r.isSolid ·)).foldl r.pass b, (p.find? r.isSolid).any Child.isWord⟩ ::
      seamsFrom (p.foldl r.pass b) ps

/-- The seams of all parts of a template. -/
def seams (parts : List (List Child)) : List Seam := r.seamsFrom {} parts

variable {r}

theorem kept_eq_joint_iff {s : Seam} :
    r.kept s.toBefore s.ahead = joint s.word s.ahead ↔ r.Fine s := by
  rw [kept, Fine]
  split
  · next h => simp [h]
  · next h => simp [h]

theorem isGap_joint (before ahead : Bool) : ∀ c ∈ joint before ahead, r.isGap c = true := by
  intro c hc
  rw [joint] at hc
  split at hc
  · rw [List.mem_singleton.mp hc]
    exact isGap_of_isSpace r.space
  · cases hc

theorem isGap_kept {b : Before} (ahead : Bool) (hb : ∀ c ∈ b.gap, r.isGap c = true) :
    ∀ c ∈ r.kept b ahead, r.isGap c = true := by
  rw [kept]
  split
  · exact isGap_joint _ _
  · exact hb

theorem isGap_foldl_pass {b : Before} (q : List Child) (hb : ∀ c ∈ b.gap, r.isGap c = true) :
    ∀ c ∈ (q.foldl r.pass b).gap, r.isGap c = true := by
  induction q generalizing b with
  | nil => exact hb
  | cons x q ih =>
    refine ih ?_
    cases x with
    | code text => exact fun c hc => absurd hc List.not_mem_nil
    | char c =>
      rw [pass]
      split
      · next hc => simpa [or_imp, forall_and, hc] using hb
      · exact fun c hc => absurd hc List.not_mem_nil

/-- A part with anything but white space in it starts with white space and something solid. -/
theorem exists_part {p : List Child} (h : p.any r.isSolid = true) :
    ∃ cs s q, p = chars cs ++ s :: q ∧ (∀ c ∈ cs, r.isGap c = true) ∧ r.isSolid s = true := by
  induction p with
  | nil => cases h
  | cons x p ih =>
    cases hx : r.isSolid x with
    | true => exact ⟨[], x, p, rfl, by simp, hx⟩
    | false =>
      obtain ⟨cs, s, q, rfl, hcs, hs⟩ := ih (by simpa [hx] using h)
      cases x with
      | code text => cases hx
      | char c =>
        have hc : r.isGap c = true := by simpa [isSolid] using hx
        exact ⟨c :: cs, s, q, rfl, by simpa [hc] using hcs, hs⟩

theorem foldl_pass_chars (b : Before) {cs : List Char} (h : ∀ c ∈ cs, r.isGap c = true) :
    (chars cs).foldl r.pass b = { b with gap := b.gap ++ cs } := by
  induction cs generalizing b with
  | nil => rw [List.append_nil]; rfl
  | cons c cs ih =>
    obtain ⟨hc, hcs⟩ := List.forall_mem_cons.mp h
    rw [chars, List.map_cons, List.foldl_cons, ih _ hcs, pass, if_pos hc, List.append_assoc]
    rfl

theorem pass_solid (b : Before) {s : Child} (h : r.isSolid s = true) :
    r.pass b s = { word := s.isWord } := by
  cases s with
  | code text => rfl
  | char c =>
    rw [pass, if_neg (by simpa [isSolid] using h)]
    rfl

theorem tidyFrom_append (b : Before) (q : List Child) :
    ∃ out, ∀ rest, r.tidyFrom b (q ++ rest) = out ++ r.tidyFrom (q.foldl r.pass b) rest := by
  induction q generalizing b with
  | nil => exact ⟨[], fun _ => rfl⟩
  | cons x q ih =>
    obtain ⟨out, hout⟩ := ih (r.pass b x)
    cases hx : r.isSolid x with
    | true =>
      refine ⟨chars (r.kept b x.isWord) ++ x :: out, fun rest => ?_⟩
      rw [List.cons_append, tidyFrom, if_pos hx, hout]
      simp
    | false =>
      refine ⟨out, fun rest => ?_⟩
      rw [List.cons_append, tidyFrom, if_neg (by simp [hx]), hout]
      rfl

section

variable {cs : List Char} {s : Child} (hcs : ∀ c ∈ cs, r.isGap c = true) (hs : r.isSolid s = true)

include hcs hs

theorem tidyFrom_part (b : Before) (rest : List Child) :
    r.tidyFrom b (chars cs ++ s :: rest) =
      chars (r.kept { b with gap := b.gap ++ cs } s.isWord) ++
        s :: r.tidyFrom { word := s.isWord } rest := by
  rw [tidyFrom_gap b _ hcs, tidyFrom, if_pos hs, pass_solid _ hs]

theorem seamsFrom_part (b : Before) (q : List Child) (ps : List (List Child)) :
    r.seamsFrom b ((chars cs ++ s :: q) :: ps) =
      ⟨{ b with gap := b.gap ++ cs }, s.isWord⟩ ::
        r.seamsFrom (q.foldl r.pass { word := s.isWord }) ps := by
  have hgaps : ∀ x ∈ chars cs, (!r.isSolid x) = true := by
    simpa [chars, isSolid] using hcs
  have htake : (chars cs ++ s :: q).takeWhile (!r.isSolid ·) = chars cs := by
    exact takeWhile_run hgaps (by simp [hs])
  have hfind : (chars cs ++ s :: q).find? r.isSolid = some s := by
    rw [List.find?_append, List.find?_eq_none.mpr (by simpa using hgaps), List.find?_cons_of_pos hs]
    rfl
  rw [seamsFrom, htake, hfind, foldl_pass_chars b hcs, List.foldl_append, foldl_pass_chars b hcs,
    List.foldl_cons, pass_solid _ hs]
  rfl

/-- The white space before something solid can be told from the rest. -/
theorem chars_append_inj {ds : List Char} {rest rest' : List Child}
    (hds : ∀ c ∈ ds, r.isGap c = true) :
    chars cs ++ s :: rest = chars ds ++ s :: rest' ↔ cs = ds ∧ rest = rest' := by
  have htake {gs : List Char} (hgs : ∀ c ∈ gs, r.isGap c = true) (rest : List Child) :
      (chars gs ++ s :: rest).takeWhile (!r.isSolid ·) = chars gs := by
    exact takeWhile_run (by simpa [chars, isSolid] using hgs) (by simp [hs])
  have hchar : Function.Injective Child.char := fun _ _ h => Child.char.inj h
  constructor
  · intro h
    have hgap := congrArg (List.takeWhile (!r.isSolid ·)) h
    rw [htake hcs, htake hds] at hgap
    obtain rfl := hchar.list_map hgap
    exact ⟨rfl, List.tail_eq_of_cons_eq (List.append_cancel_left h)⟩
  · rintro ⟨rfl, rfl⟩
    rfl

end

/-- **Parts on lines of their own**, after anything: they have the normal form of parts side by side
exactly if all seams are fine. -/
theorem tidyFrom_framed_iff {parts : List (List Child)}
    (hparts : ∀ p ∈ parts, p.any r.isSolid = true) {b : Before}
    (hb : ∀ c ∈ b.gap, r.isGap c = true) :
    r.tidyFrom b (framed parts) = r.tidyFrom b parts.flatten ↔
      ∀ s ∈ r.seamsFrom b parts, r.Fine s := by
  have hindent (columns : Nat) : ∀ c ∈ indent columns, r.isGap c = true := by
    intro c hc
    rcases List.mem_cons.mp hc with rfl | hc
    · exact isGap_of_isBreak r.newline
    · rw [List.eq_of_mem_replicate hc]
      exact isGap_of_isSpace r.space
  have hbreak (columns : Nat) : (indent columns).any r.isBreak = true := by
    simp [indent, r.newline]
  induction parts generalizing b with
  | nil =>
    have hkept : r.kept { b with gap := b.gap ++ indent 4 } false = joint b.word false :=
      kept_of_break _ (by simp [hbreak])
    have hframed : r.tidyFrom b (framed []) = chars (joint b.word false) := by
      rw [framed, ← List.append_nil (chars (indent 4)), tidyFrom_gap b [] (hindent 4), tidyFrom,
        hkept]
    have hchar : Function.Injective Child.char := fun _ _ h => Child.char.inj h
    rw [hframed, List.flatten_nil, tidyFrom, hchar.list_map.eq_iff, eq_comm]
    simpa [seamsFrom] using kept_eq_joint_iff (r := r) (s := ⟨b, false⟩)
  | cons p ps ih =>
    obtain ⟨hp, hps⟩ := List.forall_mem_cons.mp hparts
    obtain ⟨cs, s, q, rfl, hcs, hs⟩ := exists_part hp
    obtain ⟨out, hout⟩ := tidyFrom_append (r := r) { word := s.isWord } q
    have hframed : r.tidyFrom b (framed ((chars cs ++ s :: q) :: ps)) =
        chars (joint b.word s.isWord) ++
          s :: (out ++ r.tidyFrom (q.foldl r.pass { word := s.isWord }) (framed ps)) := by
      rw [framed, List.append_assoc, tidyFrom_gap b _ (hindent 6), List.append_assoc,
        List.cons_append, tidyFrom_part hcs hs, kept_of_break _ (by simp [hbreak]), hout]
    have hflat : r.tidyFrom b ((chars cs ++ s :: q) :: ps).flatten =
        chars (r.kept { b with gap := b.gap ++ cs } s.isWord) ++
          s :: (out ++ r.tidyFrom (q.foldl r.pass { word := s.isWord }) ps.flatten) := by
      rw [List.flatten_cons, List.append_assoc, List.cons_append, tidyFrom_part hcs hs, hout]
    have hgap : ∀ c ∈ b.gap ++ cs, r.isGap c = true := fun c hc =>
      (List.mem_append.mp hc).elim (hb c) (hcs c)
    have hafter := ih hps (isGap_foldl_pass (r := r) (b := { word := s.isWord }) q (by simp))
    have hfine := kept_eq_joint_iff (r := r) (s := ⟨{ b with gap := b.gap ++ cs }, s.isWord⟩)
    rw [hframed, hflat, chars_append_inj (isGap_joint _ _) hs (isGap_kept _ hgap),
      List.append_cancel_left_eq, seamsFrom_part hcs hs, List.forall_mem_cons, ← hfine]
    exact and_congr eq_comm hafter

/-- Nothing is lost between expressions and elements. -/
theorem fine_of_code {parts : List (List Child)} (h : ∀ p ∈ parts, ∃ text, p = [.code text]) :
    ∀ s ∈ r.seams parts, r.Fine s := by
  rw [seams]
  induction parts with
  | nil => simp [seamsFrom, Fine, joint]
  | cons p ps ih =>
    obtain ⟨⟨text, rfl⟩, hps⟩ := List.forall_mem_cons.mp h
    exact List.forall_mem_cons.mpr ⟨.inr rfl, ih hps⟩

end LineRule

/-! ## Fragments and elements -/

/-- The parts of a template, as children. -/
def partsOf (scope : Scope) (d : Document) (e : Emission) : List (List Child) :=
  (rootsOf scope d e).map rootChildren

theorem join_filter (parts : List String) :
    String.join (parts.filter (!·.isEmpty)) = String.join parts := by
  induction parts with
  | nil => rfl
  | cons part parts ih =>
    cases hpart : part.isEmpty with
    | true =>
      rw [List.filter_cons_of_neg (by simp [hpart]), ih, String.join_cons,
        String.isEmpty_iff.mp hpart, String.empty_append]
    | false =>
      rw [List.filter_cons_of_pos (by simp [hpart]), String.join_cons, ih, String.join_cons]

section

variable {scope : Scope} {d : Document} {e : Emission}

theorem map_render_partsOf :
    (partsOf scope d e).map render = (rootsOf scope d e).map (·.2) := by
  rw [partsOf, List.map_map]
  refine List.map_congr_left fun root hroot => ?_
  obtain ⟨hshape, hfull⟩ := mem_rootsOf hroot
  exact render_rootChildren hshape hfull

theorem legible_partsOf : ∀ p ∈ partsOf scope d e, ∀ x ∈ p, x.Legible := by
  intro p hp
  obtain ⟨root, hroot, rfl⟩ := List.mem_map.mp hp
  obtain ⟨hshape, hfull⟩ := mem_rootsOf hroot
  exact legible_rootChildren hshape hfull

theorem any_isSolid_partsOf (r : LineRule) : ∀ p ∈ partsOf scope d e, p.any r.isSolid = true := by
  intro p hp
  obtain ⟨root, -, rfl⟩ := List.mem_map.mp hp
  exact any_isSolid_rootChildren r root

/-- An element without attributes is written around the parts of its children. -/
theorem emitNode_plain {tag : String} (span : Span) (hslot : isSlot tag = false)
    (houtlet : isOutlet tag = false) :
    ((emitNode scope (.element tag false [] d.children span)).run e).1 =
      elementJsx (jsxName tag) [] (render (partsOf scope d e).flatten) := by
  have hconditions : checkConditions [] = pure () := rfl
  have hattributes : emitAttributes scope tag [] = pure [] := rfl
  have hloop : emitLoop [] = pure none := rfl
  rw [render_flatten, map_render_partsOf, map_snd_rootsOf, join_filter, emitNode,
    if_neg (by simp [hslot]), if_neg (by simp [houtlet]), hconditions, hattributes, hloop]
  rfl

/-- A template with two or more roots becomes a fragment, with its parts on lines of their own. -/
theorem emitDocument_framed (hroots : 2 ≤ (rootsOf scope d e).length) :
    ((emitDocument scope d).run e).1 = "<>" ++ render (framed (partsOf scope d e)) ++ "</>" := by
  have hparts : 2 ≤ (partsOf scope d e).length := by rwa [partsOf, List.length_map]
  rw [emitDocument_eq, ← map_render_partsOf]
  match partsOf scope d e, hparts with
  | first :: second :: rest, _ => exact rootJsx_eq_framed first second rest

theorem denote_framed_iff (r : LineRule) :
    r.denote (framed (partsOf scope d e)) = r.denote (partsOf scope d e).flatten ↔
      ∀ s ∈ r.seams (partsOf scope d e), r.Fine s := by
  rw [LineRule.denote_eq_iff]
  exact LineRule.tidyFrom_framed_iff (any_isSolid_partsOf r) (by simp)

/-- Between elements and expressions all seams are fine. -/
theorem fine_of_no_words (r : LineRule)
    (hwords : ∀ root ∈ rootsOf scope d e, isWords root.1 = false) :
    ∀ s ∈ r.seams (partsOf scope d e), r.Fine s := by
  refine LineRule.fine_of_code fun p hp => ?_
  obtain ⟨root, hroot, rfl⟩ := List.mem_map.mp hp
  exact ⟨root.2, rootChildren_code root.2 (hwords root hroot)⟩

end

/-- **Parts of a template, in a fragment and in an element.** A template with two or more roots
becomes a fragment with the parts on lines of their own, and inside an element the same nodes become
the parts side by side. Whichever characters JSX takes for blanks and line breaks, both stand for
the same strings, expressions and elements exactly if all seams are fine. -/
theorem fragment_denote_iff (r : LineRule) (scope : Scope) (d : Document) (e : Emission)
    {tag : String} (span : Span) (hslot : isSlot tag = false) (houtlet : isOutlet tag = false)
    (hroots : 2 ≤ (rootsOf scope d e).length) :
    (∀ p ∈ partsOf scope d e, ∀ x ∈ p, x.Legible) ∧
      ((emitDocument scope d).run e).1 = "<>" ++ render (framed (partsOf scope d e)) ++ "</>" ∧
      ((emitNode scope (.element tag false [] d.children span)).run e).1 =
        elementJsx (jsxName tag) [] (render (partsOf scope d e).flatten) ∧
      (r.denote (framed (partsOf scope d e)) = r.denote (partsOf scope d e).flatten ↔
        ∀ s ∈ r.seams (partsOf scope d e), r.Fine s) :=
  ⟨legible_partsOf, emitDocument_framed hroots, emitNode_plain span hslot houtlet,
    denote_framed_iff r⟩

/-- An element and an expression. -/
def badgeTemplate : String := "<b/>\x7b\x7b name \x7d\x7d"

theorem parse_badgeTemplate : (parseTemplate badgeTemplate).document =
    ⟨[.element "b" true [] [] ⟨1, 1, 0, 4⟩, .interpolation "name" ⟨1, 5, 4, 14⟩],
      ⟨1, 1, 0, 14⟩⟩ := by
  with_unfolding_all rfl

/-- An element and an expression are the same in a fragment and in an element. -/
theorem denote_badgeTemplate :
    isSlot "div" = false ∧ isOutlet "div" = false ∧
      2 ≤ (rootsOf {} (parseTemplate badgeTemplate).document {}).length ∧
      LineRule.ascii.denote (framed (partsOf {} (parseTemplate badgeTemplate).document {})) =
        LineRule.ascii.denote (partsOf {} (parseTemplate badgeTemplate).document {}).flatten := by
  rw [parse_badgeTemplate]
  have hslot : isSlot "div" = false := by decide
  have houtlet : isOutlet "div" = false := by decide
  refine ⟨hslot, houtlet, by decide +kernel, ?_⟩
  refine (fragment_denote_iff LineRule.ascii {} _ {} ⟨1, 1, 0, 14⟩ hslot houtlet
    (by decide +kernel)).2.2.2.mpr (fine_of_no_words LineRule.ascii ?_)
  decide +kernel

/-! ### A blank that is lost -/

/-- A text that ends with a blank, and an expression. -/
def greetingTemplate : String := "Hello \x7b\x7b name \x7d\x7d"

theorem parse_greetingTemplate : (parseTemplate greetingTemplate).document =
    ⟨[.text "Hello " ⟨1, 1, 0, 6⟩, .interpolation "name" ⟨1, 7, 6, 16⟩], ⟨1, 1, 0, 16⟩⟩ := by
  with_unfolding_all rfl

/-- The fragment has lost the blank before the expression. -/
theorem not_denote_greetingTemplate :
    ((emitDocument {} (parseTemplate greetingTemplate).document).run {}).1 =
        "<>\n      Hello \n      \x7bname\x7d\n    </>" ∧
      LineRule.ascii.denote (framed (partsOf {} (parseTemplate greetingTemplate).document {})) =
        [.str "Hello".toList, .code "\x7bname\x7d"] ∧
      LineRule.ascii.denote (partsOf {} (parseTemplate greetingTemplate).document {}).flatten =
        [.str "Hello ".toList, .code "\x7bname\x7d"] := by
  rw [parse_greetingTemplate]
  refine ⟨?_, ?_, ?_⟩ <;> decide +kernel

end Trellis.Jsx
