import Trellis.Proofs.Jsx.Chains
import Trellis.Proofs.Jsx.Classes
import Trellis.Proofs.Script.Context

/-!
# Operands in the code

Where an expression of the template becomes the operand of a method call, of `??` or `&&`, or the
test of a condition, it is put in parentheses if its text has one of some marks in it, unless it
looks like one operand already. A conditional class name is emitted without that question.

* `OperandSite` is such a place, `OperandSite.code` the code with an expression at that place, and
  `OperandSite.Reads` says that JavaScript reads the whole expression there as the operand, as it is
  or in parentheses.
* `isParenthesised_group`: what looks parenthesised is one group.
* `code_reads_iff`: the operand is read as such exactly if the expression does not end in a line
  comment, and it has one of the marks where the place asks for them, or the precedence that the
  place takes and no whole number before a point.
-/

namespace Trellis.Jsx

open Trellis.Text
open Trellis.Script

/-! ## Marks -/

namespace Pipe

/-- One of the marks that call for parentheses stands in the text. -/
def isMarked (value : String) : Bool := operators.any (occurs · value)

theorem mem_of_occurs {c : Char} {s pat : String} (hpat : c ∈ pat.toList)
    (h : occurs pat s = true) : c ∈ s.toList := by
  rw [occurs, Option.isSome_iff_exists] at h
  obtain ⟨⟨before, after⟩, hbreak⟩ := h
  rw [eq_of_breakAt? hbreak]
  exact List.mem_append_right _ (List.mem_append_left _ hpat)

/-- No mark that calls for parentheses starts with a character of a simple value. -/
theorem operators_head : ∀ op ∈ operators, (op.toList.head?.any fun c => c != '\n' &&
    !(isNameChar c || ['.', '[', ']', '(', ')'].contains c)) = true := by
  decide +kernel

theorem mem_beforeFinalBreak {c : Char} {cs : List Char} (h : c ∈ cs) (hc : c ≠ '\n') :
    c ∈ beforeFinalBreak cs := by
  rw [beforeFinalBreak]
  split
  · next hlast =>
    obtain ⟨init, rfl⟩ := List.getLast?_eq_some_iff.mp hlast
    rw [List.dropLast_concat]
    rcases List.mem_append.mp h with h | h
    · exact h
    · exact absurd (List.mem_singleton.mp h) hc
  · exact h

/-- **A simple value has none of the marks.** -/
theorem isMarked_of_isSimpleValue {value : String} (h : isSimpleValue value.toList = true) :
    isMarked value = false := by
  refine List.any_eq_false.mpr fun op hop hoccurs => ?_
  obtain ⟨c, hhead, hother⟩ := (Option.any_eq_true _ _).mp (operators_head op hop)
  rw [Bool.and_eq_true, bne_iff_ne, Bool.not_eq_true'] at hother
  obtain ⟨hline, hpart⟩ := hother
  have hmem := mem_beforeFinalBreak (mem_of_occurs (List.mem_of_head? hhead) hoccurs) hline
  rw [isSimpleValue] at h
  cases hvalue : beforeFinalBreak value.toList with
  | nil => simp [hvalue] at h
  | cons d ds =>
    rw [hvalue] at h hmem
    rw [Bool.and_eq_true] at h
    rcases List.mem_cons.mp hmem with rfl | hmem
    · simp [h.1] at hpart
    · have hsimple := List.all_eq_true.mp h.2 c hmem
      rw [hpart] at hsimple
      cases hsimple

/-- What has a mark and gets no parentheses looks parenthesised. -/
theorem isParenthesised_of_isMarked {value : String} (h : needsParens value = false)
    (hmarked : isMarked value = true) : isParenthesised value.toList = true := by
  have hsimple : isSimpleValue value.toList = false := by
    by_contra hsimple
    rw [isMarked_of_isSimpleValue (Bool.not_eq_false _ ▸ hsimple)] at hmarked
    cases hmarked
  rw [isMarked] at hmarked
  simpa [needsParens, hsimple, hmarked] using h

theorem isMarked_of_needsParens {value : String} (h : needsParens value = true) :
    isMarked value = true := ((Bool.and_eq_true _ _).mp h).2

/-! ## Parentheses -/

/-- With a closing parenthesis before its last characters, a text does not look parenthesised. -/
theorem not_isParenthesised {a b : List Char} (hopen : a.head? = some '(') (ha : ')' ∈ a)
    (hb : ∃ c ∈ b, c ≠ '\n') : isParenthesised (a ++ b) = false := by
  obtain ⟨a, rfl⟩ : ∃ rest, a = '(' :: rest := by
    cases a with
    | nil => cases hopen
    | cons c rest => exact ⟨rest, by rw [Option.some.inj hopen]⟩
  have ha : ')' ∈ a := (List.mem_cons.mp ha).resolve_left (by decide)
  obtain ⟨c, hc, hline⟩ := hb
  obtain ⟨d, ds, hb⟩ : ∃ d ds, beforeFinalBreak (('(' :: a) ++ b) = '(' :: (a ++ d :: ds) := by
    rw [beforeFinalBreak]
    split
    · next hlast =>
      have hne : b ≠ [] := List.ne_nil_of_mem hc
      have hmem := mem_beforeFinalBreak hc hline
      rw [List.getLast?_append_of_ne_nil _ hne] at hlast
      rw [beforeFinalBreak, if_pos hlast] at hmem
      obtain ⟨d, ds, hds⟩ := List.exists_cons_of_ne_nil (List.ne_nil_of_mem hmem)
      exact ⟨d, ds, by rw [List.dropLast_append_of_ne_nil hne, hds]; rfl⟩
    · obtain ⟨d, ds, rfl⟩ := List.exists_cons_of_ne_nil (List.ne_nil_of_mem hc)
      exact ⟨d, ds, rfl⟩
  have hmem : (a ++ d :: ds).dropLast.contains ')' = true := by
    rw [List.dropLast_append_of_ne_nil (List.cons_ne_nil _ _), List.contains_iff_mem]
    exact List.mem_append_left _ ha
  rw [isParenthesised, hb]
  simp only [hmem, Bool.not_true, Bool.and_false]

/-- What looks parenthesised starts with an opening parenthesis. -/
theorem head_of_isParenthesised {cs : List Char} (h : isParenthesised cs = true) :
    cs.head? = some '(' := by
  have hhead : (beforeFinalBreak cs).head? = some '(' := by
    rw [isParenthesised] at h
    split at h
    · next hrest => rw [hrest, List.head?_cons]
    · cases h
  rw [beforeFinalBreak] at hhead
  split at hhead
  · next hlast =>
    obtain ⟨init, rfl⟩ := List.getLast?_eq_some_iff.mp hlast
    rw [List.dropLast_concat] at hhead
    rw [List.head?_append, hhead, Option.some_or]
  · exact hhead

/-- **What looks parenthesised** is one group. -/
theorem isParenthesised_group {src : Source} (hsrc : src.expr.Grammatical)
    (h : isParenthesised src.text = true) :
    ∃ opening inner closing, src.expr = .group opening inner closing := by
  obtain ⟨hfits, hvalid, -⟩ := hsrc
  have hhead : src.expr.text.head? = some '(' := by
    obtain ⟨t, ts, hlexemes⟩ := List.exists_cons_of_ne_nil (Expr.lexemes_ne_nil hfits)
    obtain ⟨c, hc, -⟩ := Lexeme.exists_solid (hvalid t (hlexemes ▸ List.mem_cons_self))
    have hne : src.expr.text ≠ [] := List.ne_nil_of_mem
      (List.mem_flatMap.mpr ⟨t, hlexemes ▸ List.mem_cons_self, hc⟩)
    have hopen := head_of_isParenthesised h
    rwa [Source.text, List.head?_append_of_ne_nil _ hne] at hopen
  rcases Expr.closesFirst hfits hvalid hhead with hgroup | ⟨ts, us, hlexemes, hus, hmem⟩
  · exact hgroup
  · exfalso
    -- Tokens stand behind the closing parenthesis, so it is not the last character.
    have htext : src.expr.text = ts.flatMap Lexeme.text ++ us.flatMap Lexeme.text := by
      rw [Expr.text, hlexemes, List.flatMap_append]
    rw [htext, List.head?_append_of_ne_nil _ (List.ne_nil_of_mem hmem)] at hhead
    obtain ⟨u, us, rfl⟩ := List.exists_cons_of_ne_nil hus
    obtain ⟨c, hc, hline⟩ := Lexeme.exists_solid (hvalid u (by simp [hlexemes]))
    have hsolid : ∃ c ∈ (u :: us).flatMap Lexeme.text ++ src.trail.text, c ≠ '\n' :=
      ⟨c, List.mem_append_left _ (List.mem_flatMap.mpr ⟨u, List.mem_cons_self, hc⟩), hline⟩
    rw [Source.text, htext, List.append_assoc, not_isParenthesised hhead hmem hsolid] at h
    cases h

end Pipe

/-! ## Sites -/

/-- The call behind the iterable of a loop. -/
def Loop.callText (l : Loop) (element : String) : String :=
  ".map(" ++ (match l.index with
    | some i => "(" ++ l.item ++ ", " ++ i ++ ": number)"
    | none => "(" ++ l.item ++ ")") ++ " => " ++ element ++ ")"

/-- A place in the code where an expression of the template can be an operand. -/
inductive OperandSite where
  /-- The value of a built-in pipe. -/
  | pipe (p : Pipe.BuiltIn) (args : List String)
  /-- The iterable of a loop over an element. -/
  | loop (l : Loop) (element : String)
  /-- The condition of an element, or of it and the component `otherwise`. -/
  | condition (element : String) (otherwise : Option String)
  /-- The condition of a class name. -/
  | toggle (isFirst : Bool) (name : String)

namespace OperandSite

/-- The code with an expression at the site. -/
def code : OperandSite → String → String
  | pipe p args, e => p.render (Pipe.operand e) args
  | loop l element, e => { l with iterable := e }.mapText element
  | condition element otherwise, e => conditionText element e otherwise
  | toggle isFirst name, e => toggleOperand isFirst (name, e)

/-- The expression as the site takes it. -/
def taken : OperandSite → String → String
  | condition _ _, e => strip e
  | _, e => e

/-- What stands behind the expression where it is an operand. Other built-in pipes have it among
the arguments of a call, and a class name that is always there has no condition. -/
def rest? : OperandSite → String → Option String
  | pipe .uppercase _, _ => some ".toUpperCase()"
  | pipe .lowercase _, _ => some ".toLowerCase()"
  | pipe .slice args, _ => some (".slice(" ++ ", ".intercalate (args.take 2) ++ ")")
  | pipe .default args, _ => some (" ?? " ++ args.headD "''")
  | pipe _ _, _ => none
  | loop l element, _ => some (l.callText element)
  | condition element otherwise, _ =>
    match otherwise.filter (!·.isEmpty) with
    | none => some (" && " ++ element)
    | some other => some (" ? " ++ element ++ " : <" ++ strip other ++ " />")
  | toggle isFirst name, e =>
    if strip e = "true" then none
    else some (" ? " ++ ("\"" ++ (if isFirst then "" else " ") ++ name ++ "\"") ++ " : \"\"")

/-- The site asks whether the expression needs parentheses. -/
def asks : OperandSite → Bool
  | toggle _ _ => false
  | _ => true

/-- The whole stands in parentheses. -/
def isWrapped : OperandSite → Bool
  | pipe .default _ => true
  | toggle _ _ => true
  | _ => false

/-- The operand as it is written. -/
def operand (s : OperandSite) (e : String) : String :=
  if s.asks then Pipe.operand (s.taken e) else s.taken e

theorem code_eq {s : OperandSite} {e rest : String} (h : s.rest? e = some rest) :
    s.code e =
      if s.isWrapped then "(" ++ (s.operand e ++ rest) ++ ")" else s.operand e ++ rest := by
  cases s with
  | pipe p args =>
    cases p with
    | uppercase | lowercase => cases h; rfl
    | slice =>
      cases h
      simp [code, Pipe.BuiltIn.render, isWrapped, operand, asks, taken, String.append_assoc]
    | default =>
      cases h
      simp [code, Pipe.BuiltIn.render, isWrapped, operand, asks, taken, String.append_assoc]
    | titlecase | json | async | currency | date | number | percent => cases h
  | loop l element =>
    cases h
    cases hindex : l.index <;>
      simp [code, Loop.mapText, Loop.callText, hindex, isWrapped, operand, asks, taken,
        String.append_assoc]
  | condition element otherwise =>
    rw [rest?] at h
    cases otherwise with
    | none =>
      cases h
      simp [code, conditionText, isWrapped, operand, asks, taken, String.append_assoc]
    | some other =>
      rw [Option.filter_some] at h
      by_cases hother : other.isEmpty = true
      · simp only [hother, Bool.not_true] at h
        cases h
        simp [code, conditionText, hother, isWrapped, operand, asks, taken, String.append_assoc]
      · simp only [hother] at h
        cases h
        simp [code, conditionText, hother, isWrapped, operand, asks, taken, String.append_assoc]
  | toggle isFirst name =>
    rw [rest?] at h
    split at h
    · cases h
    · next hstrip =>
      cases h
      rw [code, toggleOperand, if_neg hstrip]
      simp [isWrapped, operand, asks, taken, String.append_assoc]

/-- The code of the whole, in parentheses where the site has them. -/
def enclose (s : OperandSite) (x : Expr) : Expr :=
  if s.isWrapped then (Source.mk x []).grouped.expr else x

/-- The expression that was read stands at the site as an operand in the context. -/
structure Splices (s : OperandSite) (k : Context) (src : Source) (e : String) : Prop where
  source : src.IsValid
  taken : src.text = (s.taken e).toList
  context : k.Grammatical
  rest : (s.rest? e).map String.toList = some k.text

/-- JavaScript reads the whole expression as the operand, as it is or in parentheses. -/
def Reads (s : OperandSite) (k : Context) (src : Source) (e : String) : Prop :=
  ∃ operand, (operand = src ∨ operand = src.grouped) ∧
    (s.enclose (k.plug operand)).Grammatical ∧
    (s.enclose (k.plug operand)).text = (s.code e).toList

variable {s : OperandSite} {k : Context} {src : Source} {e : String}

theorem grammatical_enclose {x : Expr} : (s.enclose x).Grammatical ↔ x.Grammatical := by
  rw [enclose]
  split
  · constructor
    · exact fun h => Source.grammatical_of_grouped (s := ⟨x, []⟩) h
    · exact fun h => (Source.grammatical_grouped (s := ⟨x, []⟩) h rfl).mpr rfl
  · exact Iff.rfl

/-- The code is that of one operand, and only its. -/
theorem text_enclose_iff (h : s.Splices k src e) (operand : Source) :
    (s.enclose (k.plug operand)).text = (s.code e).toList ↔
      operand.text = (s.operand e).toList := by
  obtain ⟨rest, hrest, htext⟩ := Option.map_eq_some_iff.mp h.rest
  rw [code_eq hrest, enclose]
  split
  · rw [Source.text_grouped, Source.text, Context.text_plug]
    simp [htext, Gap.text]
  · rw [Context.text_plug, String.toList_append, htext, List.append_left_inj]

/-- The operand as it is written is the expression, in parentheses where they are asked for. -/
theorem operand_eq (s : OperandSite) (e : String) : (s.operand e).toList =
    if s.asks && Pipe.needsParens (s.taken e) then '(' :: ((s.taken e).toList ++ [')'])
    else (s.taken e).toList := by
  rw [operand, Pipe.operand]
  cases s.asks <;> cases Pipe.needsParens (s.taken e) <;> simp

/-- The code is read with the operand that it has the text of. -/
theorem reads_iff (h : s.Splices k src e) : s.Reads k src e ↔
    if s.asks && Pipe.needsParens (s.taken e) then (k.plug src.grouped).Grammatical
    else (k.plug src).Grammatical := by
  have hgrouped : src.grouped.text = '(' :: ((s.taken e).toList ++ [')']) := by
    rw [Source.text, Source.text_grouped, h.taken]
    exact List.append_nil _
  have hne : src.grouped.text ≠ src.text := by
    rw [hgrouped, h.taken]
    intro heq
    have hlength := congrArg List.length heq
    simp only [List.length_cons, List.length_append, List.length_nil] at hlength
    omega
  have htext := operand_eq s e
  simp only [Reads, grammatical_enclose, text_enclose_iff h]
  split at htext
  · next hparens =>
    rw [if_pos hparens, htext, ← hgrouped]
    constructor
    · rintro ⟨operand, rfl | rfl, hread, heq⟩
      · exact absurd heq.symm hne
      · exact hread
    · exact fun hread => ⟨src.grouped, .inr rfl, hread, rfl⟩
  · next hparens =>
    rw [if_neg hparens, htext, ← h.taken]
    constructor
    · rintro ⟨operand, rfl | rfl, hread, heq⟩
      · exact hread
      · exact absurd heq hne
    · exact fun hread => ⟨src, .inl rfl, hread, rfl⟩

/-- **Operands in the code** are read as such exactly if the expression does not end in a line
comment, and either the site asks for one of the marks that the expression has in it, or it has
the precedence that the place takes and does not end in a whole number before a point. -/
theorem code_reads_iff (h : s.Splices k src e) : s.Reads k src e ↔
    src.trail.isClosed = true ∧
      (s.asks = true ∧ Pipe.isMarked (s.taken e) = true ∨
        k.takes src.expr.level = true ∧ (k.startsPoint && src.endsInteger) = false) := by
  have hplug := Context.grammatical_plug h.context h.source.expr h.source.trail_all
  have hparens := Context.grammatical_plug_grouped h.context h.source.expr h.source.trail_all
  rw [reads_iff h]
  split
  · next hneeds =>
    obtain ⟨hasks, hneeds⟩ := (Bool.and_eq_true _ _).mp hneeds
    have hmarked := Pipe.isMarked_of_needsParens hneeds
    rw [hparens]
    tauto
  · next hneeds =>
    -- An expression with a mark that gets no parentheses is one group already.
    have hgroup : s.asks = true ∧ Pipe.isMarked (s.taken e) = true →
        k.takes src.expr.level = true ∧ (k.startsPoint && src.endsInteger) = false := by
      rintro ⟨hasks, hmarked⟩
      rw [hasks, Bool.true_and, Bool.not_eq_true] at hneeds
      have hround := Pipe.isParenthesised_of_isMarked hneeds hmarked
      rw [← h.taken] at hround
      obtain ⟨opening, inner, closing, hexpr⟩ := Pipe.isParenthesised_group h.source.expr hround
      have hlevel : src.expr.level = .primary := by rw [hexpr, Expr.level]
      rw [hlevel, Source.endsInteger_of_group h.source.expr.1 hexpr, Bool.and_false]
      exact ⟨Context.takes_primary h.context.1, rfl⟩
    rw [hplug]
    tauto

/-! ### Two names with an operator -/

/-- Two names with an operator between them. -/
def namesAround (op : String) : Source :=
  ⟨.between (.atom ⟨[], .word, ['a']⟩) ⟨[.blank ' '], .mark, op.toList⟩
    (.atom ⟨[.blank ' '], .word, ['b']⟩), []⟩

/-- The call that `uppercase` puts behind its value. -/
def uppercaseCall : Context :=
  .receiver ⟨[], .mark, ['.']⟩ ⟨[], .word, "toUpperCase".toList⟩ ⟨[], .enclosed, ['(', ')']⟩

/-- A sum gets parentheses. -/
theorem code_reads_sum :
    (OperandSite.pipe .uppercase []).Splices uppercaseCall (namesAround "+") "a + b" ∧
      (OperandSite.pipe .uppercase []).Reads uppercaseCall (namesAround "+") "a + b" := by
  have h : (OperandSite.pipe .uppercase []).Splices uppercaseCall (namesAround "+") "a + b" :=
    ⟨⟨by decide, by decide, by decide⟩, by decide, by decide, by decide⟩
  exact ⟨h, (code_reads_iff h).mpr ⟨rfl, .inl ⟨rfl, by decide⟩⟩⟩

/-- A name, an ampersand and a call of the second name's method. -/
def callOfSecond : Expr :=
  .between (.atom ⟨[], .word, ['a']⟩) ⟨[.blank ' '], .mark, ['&']⟩
    (uppercaseCall.plug ⟨.atom ⟨[.blank ' '], .word, ['b']⟩, []⟩)

/-- Two names with an ampersand between them get none, and the call goes to the second one. -/
theorem code_misread_bitAnd :
    (Pipe.compile none "a & b | uppercase").text = (OperandSite.pipe .uppercase []).code "a & b" ∧
      (OperandSite.pipe .uppercase []).Splices uppercaseCall (namesAround "&") "a & b" ∧
      ¬(OperandSite.pipe .uppercase []).Reads uppercaseCall (namesAround "&") "a & b" ∧
      callOfSecond.Grammatical ∧
      callOfSecond.text = ((OperandSite.pipe .uppercase []).code "a & b").toList := by
  have h : (OperandSite.pipe .uppercase []).Splices uppercaseCall (namesAround "&") "a & b" :=
    ⟨⟨by decide, by decide, by decide⟩, by decide, by decide, by decide⟩
  refine ⟨by decide, h, fun hread => ?_, by decide, by decide⟩
  have hplug := (reads_iff h).mp hread
  exact absurd hplug (by decide)

end OperandSite

end Trellis.Jsx
