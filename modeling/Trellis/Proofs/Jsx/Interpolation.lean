import Trellis.Proofs.Jsx.Chains
import Trellis.Proofs.Script.TemplateLiteral
import Trellis.Proofs.Text.Substitution

/-!
# Attribute values as template literals

An attribute value with interpolations is written as a template literal: the text around the
doubled braces with marks escaped, the expressions as substitutions.

* `cutValue` says what a value is made of: its text, cut at the expressions between doubled braces.
* `read_interpolatedString_iff`: what is written reads as just these pieces, exactly if no text has
  a backslash or a carriage return, which are not escaped, and every expression is closed code.
-/

namespace Trellis.Jsx

open Trellis.Text
open Trellis.Script

/-! ## What a value is made of -/

/-- The text of a value and its expressions, which stand between doubled braces. -/
def cutValue (cs : List Char) : Pieces Char :=
  match _hopen : breakAt? ['\x7b', '\x7b'] cs with
  | none => ⟨cs, []⟩
  | some (before, after) =>
    match _hclose : breakAt? ['\x7d', '\x7d'] after with
    | none => ⟨cs, []⟩
    | some (inside, rest) => ((cutValue rest).substitute (stripChars inside)).lead before
termination_by cs.length
decreasing_by
  exact Nat.lt_trans (length_breakAt? _hclose nofun) (length_breakAt? _hopen nofun)

theorem cutValue_eq (cs : List Char) :
    cutValue cs =
      match breakAt? ['\x7b', '\x7b'] cs with
      | none => ⟨cs, []⟩
      | some (before, after) =>
        match breakAt? ['\x7d', '\x7d'] after with
        | none => ⟨cs, []⟩
        | some (inside, rest) => ((cutValue rest).substitute (stripChars inside)).lead before := by
  rw [cutValue]
  split
  · next hopen => rw [hopen]
  · next hopen =>
    rw [hopen]
    dsimp only
    split
    · next hclose => rw [hclose]
    · next hclose => rw [hclose]

/-- Without a closing pair a value is text. -/
theorem cutValue_of_unclosed {cs : List Char} (h : breakAt? ['\x7d', '\x7d'] cs = none) :
    cutValue cs = ⟨cs, []⟩ := by
  rw [cutValue_eq]
  cases hopen : breakAt? ['\x7b', '\x7b'] cs with
  | none => rfl
  | some parts =>
    obtain ⟨before, after⟩ := parts
    rw [eq_of_breakAt? hopen, ← List.append_assoc] at h
    dsimp only
    rw [breakAt?_of_append _ h]

/-- Before the first opening pair there is text. -/
theorem cutValue_cons {c : Char} {cs : List Char}
    (h : ¬ ['\x7b', '\x7b'].isPrefixOf (c :: cs) = true) :
    cutValue (c :: cs) = (cutValue cs).lead [c] := by
  rw [cutValue_eq, cutValue_eq cs, breakAt?, if_neg h]
  cases breakAt? ['\x7b', '\x7b'] cs with
  | none => rfl
  | some parts =>
    obtain ⟨before, after⟩ := parts
    dsimp only [Option.map_some]
    cases breakAt? ['\x7d', '\x7d'] after <;> rfl

theorem cutValue_opened (cs : List Char) :
    cutValue ('\x7b' :: '\x7b' :: cs) =
      match breakAt? ['\x7d', '\x7d'] cs with
      | none => ⟨'\x7b' :: '\x7b' :: cs, []⟩
      | some (inside, rest) => (cutValue rest).substitute (stripChars inside) := by
  rw [cutValue_eq]
  change (match breakAt? ['\x7d', '\x7d'] cs with | none => _ | some (inside, rest) => _) = _
  cases breakAt? ['\x7d', '\x7d'] cs <;> rfl

/-- Text of an attribute value, if there is any. -/
def textParts (chunk : List Char) : List ValuePart := if chunk.isEmpty then [] else [.text chunk]

/-- The pieces of an attribute value, of given text and expressions. -/
def pieceParts (p : Pieces Char) : List ValuePart :=
  textParts p.first ++ p.rest.flatMap fun (code, chunk) =>
    .expression (String.ofList code) :: textParts chunk

theorem pieceParts_substitute (code : List Char) (p : Pieces Char) :
    pieceParts (p.substitute code) = .expression (String.ofList code) :: pieceParts p := rfl

theorem extend_pieceParts (c : Char) (p : Pieces Char) :
    ValuePart.extend c (pieceParts p) = pieceParts (p.lead [c]) := by
  obtain ⟨first, rest⟩ := p
  cases first with
  | cons d first => rfl
  | nil =>
    cases rest with
    | nil => rfl
    | cons row rest => rfl

/-- **The lexer of attribute values** finds the text and the expressions of a value. -/
theorem valuePartsFrom_eq (cs : List Char) : valuePartsFrom 0 cs = pieceParts (cutValue cs) := by
  refine valueParts_induction (P := fun cs parts => parts = pieceParts (cutValue cs)) ?_ ?_ ?_ ?_ cs
  · rw [cutValue_of_unclosed rfl]
    rfl
  · intro c cs hopen ih
    rw [ih, extend_pieceParts, cutValue_cons hopen]
  · intro cs hclose ih
    have hunclosed : cutValue ('\x7b' :: cs) = ⟨'\x7b' :: cs, []⟩ :=
      cutValue_of_unclosed (by simp [breakAt?, hclose])
    rw [ih, extend_pieceParts, hunclosed, cutValue_opened, hclose]
    rfl
  · intro cs inside rest hclose ih
    rw [ih, cutValue_opened, hclose]
    exact (pieceParts_substitute _ _).symm

/-! ## What is written -/

/-- Text inside a template literal: marks are escaped, and dollar signs before opening braces. -/
def escapedText : List Char → List Char
  | [] => []
  | c :: cs =>
    if c = '\x60' ∨ c = '$' ∧ cs.head? = some '\x7b' then '\\' :: c :: escapedText cs
    else c :: escapedText cs

/-- The characters behind the opening mark of a template literal. -/
def literalBody (p : Pieces Char) : List Char :=
  escapedText p.first ++ p.rest.flatMap (fun (code, chunk) =>
    '$' :: '\x7b' :: code ++ '\x7d' :: escapedText chunk) ++ ['\x60']

theorem escapedText_cons (c : Char) (cs : List Char) : escapedText (c :: cs) =
    if c = '\x60' ∨ c = '$' ∧ cs.head? = some '\x7b' then '\\' :: c :: escapedText cs
    else c :: escapedText cs := rfl

/-- Text with its marks escaped. -/
def escapedMarks (cs : List Char) : List Char :=
  cs.flatMap fun c => if c = '\x60' then ['\\', c] else [c]

theorem escapedMarks_cons (c : Char) (cs : List Char) : escapedMarks (c :: cs) =
    (if c = '\x60' then ['\\', c] else [c]) ++ escapedMarks cs := rfl

theorem head_escapedMarks {cs : List Char} (h : (escapedMarks cs).head? = some '\x7b') :
    cs.head? = some '\x7b' := by
  cases cs with
  | nil => cases h
  | cons c cs =>
    rw [escapedMarks_cons] at h
    split at h
    · cases h
    · exact h

theorem substituteFrom_marks (prev : Option Char) (cs : List Char) :
    substituteFrom (patternRule ['\x60'] ['\\', '\x60']) prev 0 cs = escapedMarks cs := by
  induction cs generalizing prev with
  | nil => rfl
  | cons c cs ih =>
    rw [escapedMarks_cons]
    by_cases hc : c = '\x60'
    · subst hc
      exact congrArg (['\\', '\x60'] ++ ·) (ih _)
    · rw [if_neg hc, substituteFrom_pass (by simp [patternRule, Ne.symm hc])]
      exact congrArg _ (ih _)

/-- The rule that escapes dollar signs before opening braces. -/
def dollarRule : Rule := patternRule ['$', '\x7b'] ['\\', '$', '\x7b']

theorem dollarRule_none {prev : Option Char} {c : Char} {cs : List Char}
    (h : ¬(c = '$' ∧ cs.head? = some '\x7b')) : dollarRule prev (c :: cs) = none := by
  refine if_neg fun hprefix => h ?_
  cases cs with
  | nil => simp at hprefix
  | cons d cs =>
    have : '$' = c ∧ '\x7b' = d := by simpa using hprefix
    exact ⟨this.1.symm, congrArg some this.2.symm⟩

theorem substituteFrom_dollars (prev : Option Char) (cs : List Char) :
    substituteFrom dollarRule prev 0 (escapedMarks cs) = escapedText cs := by
  induction hlen : cs.length using Nat.strongRecOn generalizing cs prev with
  | ind n ih =>
    cases cs with
    | nil => rfl
    | cons c cs =>
      rw [List.length_cons] at hlen
      have htail := fun prev => ih cs.length (by omega) prev cs rfl
      rw [escapedText_cons, escapedMarks_cons]
      by_cases hmark : c = '\x60'
      · subst hmark
        exact congrArg (['\\', '\x60'] ++ ·) (htail _)
      · by_cases hdollar : c = '$' ∧ cs.head? = some '\x7b'
        · obtain ⟨rfl, rest, rfl⟩ : c = '$' ∧ ∃ rest, cs = '\x7b' :: rest :=
            ⟨hdollar.1, cs.tail, (List.cons_head?_tail hdollar.2).symm⟩
          rw [List.length_cons] at hlen
          exact congrArg (['\\', '$', '\x7b'] ++ ·) (ih rest.length (by omega) _ rest rfl)
        · have hpass : dollarRule prev (c :: escapedMarks cs) = none :=
            dollarRule_none fun h => hdollar ⟨h.1, head_escapedMarks h.2⟩
          rw [if_neg hmark, if_neg (not_or.mpr ⟨hmark, hdollar⟩), List.singleton_append,
            substituteFrom_pass hpass]
          exact congrArg _ (htail _)

theorem toList_templateText (cs : List Char) : (templateText cs).toList = escapedText cs := by
  simp only [templateText, replaceAll, substitute, String.toList_ofList]
  exact (congrArg _ (substituteFrom_marks none cs)).trans (substituteFrom_dollars none cs)

theorem toList_join_textParts (chunk : List Char) :
    (String.join ((textParts chunk).map ValuePart.render)).toList = escapedText chunk := by
  cases chunk with
  | nil => rfl
  | cons c chunk =>
    change (String.join [templateText (c :: chunk)]).toList = _
    rw [String.join_cons, String.toList_append, toList_templateText]
    exact List.append_nil _

theorem toList_join_pieceParts (p : Pieces Char) :
    (String.join ((pieceParts p).map ValuePart.render)).toList ++ ['\x60'] = literalBody p := by
  obtain ⟨first, rest⟩ := p
  rw [pieceParts, literalBody, List.map_append, String.join_append, String.toList_append,
    toList_join_textParts]
  congr 2
  induction rest with
  | nil => rfl
  | cons row rest ih =>
    rw [List.flatMap_cons, List.map_append, String.join_append, String.toList_append, ih,
      List.map_cons, String.join_cons, String.toList_append, toList_join_textParts]
    simp [ValuePart.render, braced]

theorem toList_interpolatedString (value : String) :
    (interpolatedString value).toList = '\x60' :: literalBody (cutValue value.toList) := by
  rw [interpolatedString, templateLiteral, valueParts, valuePartsFrom_eq, String.toList_append,
    String.toList_append, List.append_assoc]
  exact congrArg ('\x60' :: ·) (toList_join_pieceParts _)

/-! ## What it reads as -/

/-- The characters that mean something else in a template literal and are not escaped: backslashes,
and carriage returns, which are read as line feeds. -/
def isUnescaped (c : Char) : Bool := c == '\\' || c == '\r'

/-- The UTF-16 units of a text. -/
def encoded (cs : List Char) : List Nat := cs.flatMap fun c => units c.toNat

theorem encoded_cons (c : Char) (cs : List Char) :
    encoded (c :: cs) = units c.toNat ++ encoded cs := rfl

theorem head_encoded {cs : List Char} :
    (encoded cs).head? = some 123 ↔ cs.head? = some '\x7b' := by
  cases cs with
  | nil => simp [encoded]
  | cons c cs =>
    rw [encoded_cons, List.head?_cons, Option.some.injEq]
    refine ⟨eq_brace_of_head_units, ?_⟩
    rintro rfl
    rfl

theorem head_escapedText {cs : List Char} (h : (escapedText cs).head? = some '\x7b') :
    cs.head? = some '\x7b' := by
  cases cs with
  | nil => cases h
  | cons c cs =>
    rw [escapedText_cons] at h
    split at h
    · cases h
    · exact h

section Text

variable {cs tail : List Char}

theorem readFrom_escape {c : Char} (hc : c = '\x60' ∨ c = '$') (cs : List Char) :
    readFrom 0 ('\\' :: c :: cs) = (readFrom 0 cs).map (.lead (units c.toNat)) := by
  have hescape : escape? (c :: cs) = some (units c.toNat, 1) := by
    rcases hc with rfl | rfl <;> rfl
  rw [readFrom, if_neg (by decide), if_pos rfl, hescape]
  rfl

theorem readFrom_char {c : Char} (hmark : c ≠ '\x60') (hc : isUnescaped c = false)
    (hopen : ¬(c = '$' ∧ cs.head? = some '\x7b')) :
    readFrom 0 (c :: cs) = (readFrom 0 cs).map (.lead (units c.toNat)) := by
  rw [isUnescaped, Bool.or_eq_false_iff, beq_eq_false_iff_ne, beq_eq_false_iff_ne] at hc
  rw [readFrom, if_neg hmark, if_neg hc.1, if_neg hopen, if_neg hc.2]

/-- Text without unescaped characters reads as itself, if no brace follows it. -/
theorem readFrom_escapedText (hcs : ∀ c ∈ cs, isUnescaped c = false)
    (htail : tail.head? ≠ some '\x7b') :
    readFrom 0 (escapedText cs ++ tail) = (readFrom 0 tail).map (.lead (encoded cs)) := by
  induction cs with
  | nil => cases h : readFrom 0 tail <;> rw [escapedText, List.nil_append, h] <;> rfl
  | cons c cs ih =>
    have hrest := ih fun d hd => hcs d (List.mem_cons_of_mem c hd)
    have hlead : (fun p : Pieces Nat => (p.lead (encoded cs)).lead (units c.toNat)) =
        Pieces.lead (encoded (c :: cs)) := by
      funext p
      rw [Pieces.lead, Pieces.lead, Pieces.lead, encoded_cons, List.append_assoc]
    rw [escapedText_cons]
    split
    · next hescaped =>
      rw [List.cons_append, List.cons_append, readFrom_escape (hescaped.imp_right (·.1)), hrest,
        Option.map_map]
      exact congrArg (Option.map · _) hlead
    · next hplain =>
      rw [not_or] at hplain
      have hopen : ¬(c = '$' ∧ (escapedText cs ++ tail).head? = some '\x7b') := by
        intro h
        rw [List.head?_append] at h
        cases hhead : (escapedText cs).head? with
        | none =>
          rw [hhead] at h
          exact htail h.2
        | some d =>
          rw [hhead] at h
          exact hplain.2 ⟨h.1, head_escapedText (hhead.trans h.2)⟩
      rw [List.cons_append, readFrom_char hplain.1 (hcs c List.mem_cons_self) hopen, hrest,
        Option.map_map]
      exact congrArg (Option.map · _) hlead

/-- What a text takes at least, by what is written of it. -/
theorem chunkCost_encoded (cs : List Char) :
    chunkCost (encoded cs) = (escapedText cs).length + cs.countP isUnescaped := by
  induction cs with
  | nil => rfl
  | cons c cs ih =>
    have htwo : ∀ n, unitCost n = 2 → n ≠ 36 →
        chunkCost (n :: encoded cs) = 2 + chunkCost (encoded cs) := by
      intro n hcost hn
      rw [chunkCost_cons, hcost, if_neg fun h => hn h.1]
    rw [encoded_cons, escapedText_cons, List.countP_cons]
    by_cases hmark : c = '\x60'
    · subst hmark
      have hcost := htwo 96 rfl (by decide)
      rw [if_pos (.inl rfl), if_neg (by decide), List.length_cons, List.length_cons]
      change chunkCost (96 :: encoded cs) = _
      omega
    · by_cases hunescaped : isUnescaped c = true
      · rw [if_pos hunescaped]
        rw [isUnescaped, Bool.or_eq_true, beq_iff_eq, beq_iff_eq] at hunescaped
        have hdollar : c ≠ '$' := by rcases hunescaped with rfl | rfl <;> decide
        have hcost : chunkCost (units c.toNat ++ encoded cs) = 2 + chunkCost (encoded cs) := by
          rcases hunescaped with rfl | rfl <;> exact htwo _ rfl (by decide)
        rw [if_neg (by simp [hmark, hdollar]), List.length_cons]
        omega
      · rw [if_neg hunescaped]
        rw [isUnescaped, Bool.or_eq_true, beq_iff_eq, beq_iff_eq, not_or] at hunescaped
        rw [chunkCost_char hunescaped.2 hunescaped.1 hmark, ih]
        by_cases hdollar : c = '$' ∧ cs.head? = some '\x7b'
        · rw [if_pos ⟨hdollar.1, head_encoded.mpr hdollar.2⟩, if_pos (.inr hdollar),
            List.length_cons, List.length_cons]
          omega
        · rw [if_neg fun h => hdollar ⟨h.1, head_encoded.mp h.2⟩,
            if_neg (not_or.mpr ⟨hmark, hdollar⟩), List.length_cons]
          omega

end Text

/-! ### A whole literal -/

theorem literalBody_substitute (code : List Char) (p : Pieces Char) :
    literalBody (p.substitute code) = '$' :: '\x7b' :: (code ++ '\x7d' :: literalBody p) := by
  simp [literalBody, Pieces.substitute, escapedText]

theorem literalBody_eq (first : List Char) (rest : List (List Char × List Char)) :
    literalBody ⟨first, rest⟩ = escapedText first ++ literalBody ⟨[], rest⟩ := by
  simp [literalBody, escapedText]

/-- The pieces of a value as a template literal should stand for them. -/
def cooked (p : Pieces Char) : Pieces Nat := p.encode fun c => units c.toNat

theorem cooked_substitute (code : List Char) (p : Pieces Char) :
    cooked (p.substitute code) = (cooked p).substitute code := rfl

theorem cost_cooked (p : Pieces Char) : (cooked p).cost + 1 =
    (literalBody p).length + (p.chunks.map fun chunk => chunk.countP isUnescaped).sum := by
  obtain ⟨first, rest⟩ := p
  have hrest : ((cooked ⟨first, rest⟩).rest.map fun row =>
      3 + row.1.length + chunkCost row.2).sum + 1 =
        (literalBody ⟨[], rest⟩).length +
          ((rest.map (·.2)).map fun chunk => chunk.countP isUnescaped).sum := by
    induction rest with
    | nil => rfl
    | cons row rest ih =>
      obtain ⟨code, chunk⟩ := row
      have hchunk := chunkCost_encoded chunk
      have hbody : literalBody ⟨[], (code, chunk) :: rest⟩ = _ :=
        literalBody_substitute code ⟨chunk, rest⟩
      rw [hbody, literalBody_eq]
      simp only [cooked, Pieces.encode, encoded, List.map_cons, List.sum_cons, List.length_cons,
        List.length_append] at ih hchunk ⊢
      omega
  have hfirst := chunkCost_encoded first
  rw [Pieces.cost, literalBody_eq, List.length_append]
  change chunkCost (encoded first) + _ + 1 = _ + (first.countP isUnescaped +
    ((rest.map (·.2)).map fun chunk => chunk.countP isUnescaped).sum)
  omega

theorem head_literalBody (rest : List (List Char × List Char)) :
    (literalBody ⟨[], rest⟩).head? ≠ some '\x7b' := by
  cases rest with
  | nil => simp [literalBody, escapedText]
  | cons row rest => simp [literalBody, escapedText]

theorem lead_inj {α : Type} {text : List α} {p q : Pieces α} :
    p.lead text = q.lead text ↔ p = q := by
  obtain ⟨first, rest⟩ := p
  obtain ⟨first', rest'⟩ := q
  simp [Pieces.lead]

theorem substitute_inj {α : Type} {code code' : List Char} {p q : Pieces α} :
    p.substitute code = q.substitute code' ↔ code = code' ∧ p = q := by
  obtain ⟨first, rest⟩ := p
  obtain ⟨first', rest'⟩ := q
  simp [Pieces.substitute, and_assoc]

/-- A substitution is read as its code, exactly if it is closed. -/
theorem readFrom_substitution (code tail : List Char) (q : Pieces Nat) :
    readFrom 0 ('$' :: '\x7b' :: (code ++ '\x7d' :: tail)) = some (q.substitute code) ↔
      IsClosed code ∧ readFrom 0 tail = some q := by
  have hskip : readFrom (code.length + 2) ('\x7b' :: (code ++ '\x7d' :: tail)) =
      readFrom 0 tail := by
    rw [readFrom_skip, List.drop_succ_cons, List.append_cons]
    exact congrArg _ (List.drop_left' (by simp))
  have htake : (code ++ '\x7d' :: tail).take code.length = code := List.take_left
  rw [isClosed_iff code tail, readFrom, if_neg (by decide), if_neg (by decide), if_pos ⟨rfl, rfl⟩,
    List.drop_one, List.tail_cons, Option.bind_eq_some_iff]
  constructor
  · rintro ⟨taken, hlength, h⟩
    obtain ⟨p, hp, heq⟩ := Option.map_eq_some_iff.mp h
    obtain ⟨hcode, rfl⟩ := substitute_inj.mp heq
    obtain rfl : taken = code.length := by
      have := congrArg List.length hcode
      rw [List.length_take, List.length_append, List.length_cons] at this
      omega
    exact ⟨hlength, hskip.symm.trans hp⟩
  · rintro ⟨hlength, h⟩
    refine ⟨code.length, hlength, ?_⟩
    rw [hskip, h, htake]
    rfl

/-- The text before the first substitution is read as itself. -/
theorem readFrom_first {first : List Char} (h : ∀ c ∈ first, isUnescaped c = false)
    (rest : List (List Char × List Char)) :
    readFrom 0 (literalBody ⟨first, rest⟩) = some (cooked ⟨first, rest⟩) ↔
      readFrom 0 (literalBody ⟨[], rest⟩) = some (cooked ⟨[], rest⟩) := by
  have hcooked : cooked ⟨first, rest⟩ = (cooked ⟨[], rest⟩).lead (encoded first) := by
    simp [cooked, Pieces.encode, Pieces.lead, encoded]
  rw [literalBody_eq, readFrom_escapedText h (head_literalBody rest), hcooked]
  simp [lead_inj]

/-- What is written of pieces without unescaped characters reads as the pieces, exactly if every
substitution is closed code. -/
theorem readFrom_literalBody (first : List Char) (rest : List (List Char × List Char))
    (h : ∀ chunk ∈ first :: rest.map (·.2), ∀ c ∈ chunk, isUnescaped c = false) :
    readFrom 0 (literalBody ⟨first, rest⟩) = some (cooked ⟨first, rest⟩) ↔
      ∀ code ∈ rest.map (·.1), IsClosed code := by
  rw [List.forall_mem_cons] at h
  rw [readFrom_first h.1]
  induction rest generalizing first with
  | nil => simp [literalBody, escapedText, readFrom, cooked, Pieces.encode]
  | cons row rest ih =>
    obtain ⟨code, chunk⟩ := row
    have hbody : literalBody ⟨[], (code, chunk) :: rest⟩ = _ :=
      literalBody_substitute code ⟨chunk, rest⟩
    have hrow : cooked ⟨[], (code, chunk) :: rest⟩ = _ := cooked_substitute code ⟨chunk, rest⟩
    have hrest := List.forall_mem_cons.mp h.2
    rw [hbody, hrow, readFrom_substitution, List.map_cons, List.forall_mem_cons,
      readFrom_first hrest.1, ih chunk hrest]

theorem chars_escaped_iff (chunk : List Char) :
    ('\\' ∉ chunk ∧ '\r' ∉ chunk) ↔ ∀ c ∈ chunk, isUnescaped c = false := by
  constructor
  · rintro ⟨hslash, hreturn⟩ c hc
    have hne : c ≠ '\\' ∧ c ≠ '\r' :=
      ⟨fun h => hslash (h ▸ hc), fun h => hreturn (h ▸ hc)⟩
    simpa [isUnescaped] using hne
  · intro h
    exact ⟨fun hc => absurd (h _ hc) (by decide), fun hc => absurd (h _ hc) (by decide)⟩

/-- **What is written of an attribute value** reads as the text and the expressions of the value,
exactly if no text has a backslash or a carriage return and every expression is closed code. -/
theorem read_interpolatedString_iff (value : String) :
    readTemplate (interpolatedString value).toList = some (cooked (cutValue value.toList)) ↔
      (∀ chunk ∈ (cutValue value.toList).chunks, '\\' ∉ chunk ∧ '\r' ∉ chunk) ∧
        ∀ code ∈ (cutValue value.toList).substitutions, IsClosed code := by
  generalize hp : cutValue value.toList = p
  have hchars : (∀ chunk ∈ p.chunks, '\\' ∉ chunk ∧ '\r' ∉ chunk) ↔
      ∀ chunk ∈ p.chunks, ∀ c ∈ chunk, isUnescaped c = false :=
    forall₂_congr fun chunk _ => chars_escaped_iff chunk
  rw [toList_interpolatedString, hp, readTemplate, hchars]
  constructor
  · intro h
    have hcost := cost_le h
    have hbody := cost_cooked p
    rw [List.drop_zero] at hcost
    have hnone : (p.chunks.map fun chunk => chunk.countP isUnescaped).sum = 0 := by omega
    have hplain : ∀ chunk ∈ p.chunks, ∀ c ∈ chunk, isUnescaped c = false := by
      intro chunk hchunk c hc
      have hcount := List.sum_eq_zero_iff_forall_eq_nat.mp hnone _ (List.mem_map_of_mem hchunk)
      exact Bool.eq_false_iff.mpr (List.countP_eq_zero.mp hcount c hc)
    exact ⟨hplain, (readFrom_literalBody p.first p.rest hplain).mp h⟩
  · rintro ⟨hplain, hclosed⟩
    exact (readFrom_literalBody p.first p.rest hplain).mpr hclosed

/-- Behind a backslash an interpolation is lost: it reads as text. -/
theorem read_interpolatedString_backslash :
    cutValue "\\\x7b\x7b x \x7d\x7d".toList = ⟨['\\'], [(['x'], [])]⟩ ∧
      readTemplate (interpolatedString "\\\x7b\x7b x \x7d\x7d").toList =
        some ⟨encoded ['$', '\x7b', 'x', '\x7d'], []⟩ := by
  have hcut : cutValue "\\\x7b\x7b x \x7d\x7d".toList = ⟨['\\'], [(['x'], [])]⟩ := by
    have hnil : cutValue [] = ⟨[], []⟩ := by rw [cutValue_eq]; rfl
    rw [cutValue_eq]
    change ((cutValue []).substitute (stripChars [' ', 'x', ' '])).lead ['\\'] = _
    rw [hnil]
    rfl
  refine ⟨hcut, ?_⟩
  rw [toList_interpolatedString, hcut]
  rfl

end Trellis.Jsx
