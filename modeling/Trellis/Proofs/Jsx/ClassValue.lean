import Trellis.Proofs.Jsx.Classes
import Trellis.Proofs.Script.StringSum

/-!
# What the merged class stands for

The merged class is a string in markup, an expression or a sum of strings. This module reads it and
says which names the element gets.

* `ClassParts` is what a class is merged from, with what its expressions give. Its `names` are those
  that the element should get, in order.
* `ReadsAttribute` reads the attribute. `ReadsAttribute.unique`: it stands for one string at most.
* `ClassParts.tokens_sumValue`: what a sum stands for has these names in it, no two of them glued
  together, if each conditional name is on one line.
* `ClassParts.reads_classAttribute` says exactly when the attribute stands for the names.
* `misread_classes`: a conditional name with a line end in it breaks its string, and references in
  a static class alone are replaced.
-/

namespace Trellis.Jsx

open Trellis.Text Trellis.Script

/-! ## Names in a string -/

section

variable {isSpace : Nat → Bool} {us vs : List Nat} {b : Nat}

/-- The names in a string: what stands between white space. -/
def tokens (isSpace : Nat → Bool) (us : List Nat) : List (List Nat) :=
  (us.splitOnP isSpace).filter (!·.isEmpty)

theorem tokens_nil : tokens isSpace [] = [] := rfl

/-- White space keeps two strings apart. -/
theorem tokens_append_cons (hb : isSpace b = true) :
    tokens isSpace (us ++ b :: vs) = tokens isSpace us ++ tokens isSpace vs := by
  rw [tokens, List.splitOnP_append_cons _ _ hb, List.filter_append]
  rfl

theorem tokens_cons (hb : isSpace b = true) : tokens isSpace (b :: vs) = tokens isSpace vs := by
  have hsplit : tokens isSpace ([] ++ b :: vs) = tokens isSpace [] ++ tokens isSpace vs :=
    tokens_append_cons hb
  rwa [tokens_nil, List.nil_append, List.nil_append] at hsplit

/-- Pieces that are empty or start with white space do not touch. -/
theorem tokens_flatten (hb : isSpace b = true) {pieces : List (List Nat)}
    (hpieces : ∀ piece ∈ pieces, piece = [] ∨ piece.head? = some b) :
    tokens isSpace (us ++ pieces.flatten) =
      tokens isSpace us ++ pieces.flatMap (tokens isSpace) := by
  induction pieces generalizing us with
  | nil => simp
  | cons piece pieces ih =>
    obtain ⟨hpiece, hrest⟩ := List.forall_mem_cons.mp hpieces
    rcases hpiece with rfl | hhead
    · simpa [tokens_nil] using ih hrest
    · obtain ⟨piece, rfl⟩ := List.head?_eq_some_iff.mp hhead
      rw [List.flatten_cons, List.cons_append, tokens_append_cons hb, ih hrest,
        List.flatMap_cons, tokens_cons hb]

end

/-! ## The parts of a class -/

/-- A conditional name, with whether its condition holds. -/
structure Toggle where
  name : String
  condition : String
  holds : Bool

namespace Toggle

/-- The condition is the word `true`. -/
def isAlways (t : Toggle) : Bool := strip t.condition = "true"

/-- The element gets the name. -/
def applies (t : Toggle) : Bool := t.isAlways || t.holds

/-- The name is written between quotes as it is. -/
def Writable (t : Toggle) : Prop := '"' ∉ t.name.toList ∧ '\\' ∉ t.name.toList

/-- The term of the name, behind a blank if it is not the first. -/
def term (isFirst : Bool) (t : Toggle) : Term :=
  let text := if isFirst then t.name.toList else ' ' :: t.name.toList
  if t.isAlways then plainTerm text else choiceTerm t.condition.toList t.holds text

end Toggle

/-- What a class is merged from, with what the expressions give: the static class, the dynamic one
with its value, and conditional names. -/
structure ClassParts where
  fixed : Option String
  dynamic : Option String
  value : List Nat
  toggles : List Toggle

namespace ClassParts

variable (p : ClassParts)

def staticClass : String := p.fixed.getD ""

def dynamicClass : String := p.dynamic.getD ""

/-- The attribute that is written. -/
def written : Option String :=
  classAttribute p.fixed (p.toggles.map fun t => (t.name, t.condition)) p.dynamic

/-- The terms of the dynamic class, behind a blank if there is a static one. -/
def dynamicTerms : List Term :=
  if p.dynamicClass.isEmpty then []
  else if p.staticClass.isEmpty then [stringTerm p.dynamicClass.toList p.value]
  else [plainTerm [' '], stringTerm p.dynamicClass.toList p.value]

/-- The terms of the static class and the dynamic one. -/
def baseTerms : List Term :=
  (if p.staticClass.isEmpty then [] else [jsonTerm p.staticClass]) ++ p.dynamicTerms

/-- The terms of conditional names. -/
def toggleTerms (isFirst : Bool) : List Toggle → List Term
  | [] => []
  | t :: ts => t.term isFirst :: ts.map (Toggle.term false)

/-- All terms of the merged class. -/
def terms : List Term := p.baseTerms ++ toggleTerms p.baseTerms.isEmpty p.toggles

/-- The expressions, in order. -/
def operands : List Operand := p.terms.flatMap Term.operands

/-- The names that the element should get. -/
def names (isSpace : Nat → Bool) : List (List Nat) :=
  tokens isSpace (textUnits p.staticClass.toList) ++
    (if p.dynamicClass.isEmpty then [] else tokens isSpace p.value) ++
    (p.toggles.filter Toggle.applies).flatMap fun t => tokens isSpace (textUnits t.name.toList)

/-- The text that is written as a string in markup, if one is: a static class alone that needs no
escapes, or the name alone of a condition that is `true`. -/
def quoted? : Option String :=
  if p.dynamicClass.isEmpty then
    match p.toggles with
    | [] =>
      if p.staticClass.toList.contains '"' || p.staticClass.toList.contains '\\' then none
      else some p.staticClass
    | [t] => if p.staticClass.isEmpty && t.isAlways then some t.name else none
    | _ => none
  else none

end ClassParts

/-! ## What the terms stand for -/

namespace Toggle

variable {t : Toggle}

/-- What the name adds to the string. -/
def piece (isFirst : Bool) (t : Toggle) : List Nat :=
  if t.applies then textUnits (if isFirst then t.name.toList else ' ' :: t.name.toList) else []

theorem oneLine_blank {cs : List Char} : OneLine (' ' :: cs) ↔ OneLine cs := by
  simp [OneLine]

theorem value_term (isFirst : Bool) (t : Toggle) : (t.term isFirst).value =
    if OneLine t.name.toList then some (t.piece isFirst) else none := by
  have hlines : OneLine (if isFirst then t.name.toList else ' ' :: t.name.toList) ↔
      OneLine t.name.toList := by
    cases isFirst
    · exact oneLine_blank
    · exact Iff.rfl
  rw [term, piece, applies]
  cases hword : t.isAlways
  · simp [choiceTerm, hlines]
  · simp [plainTerm, hlines]

theorem readable_term (isFirst : Bool) (ht : t.Writable) : (t.term isFirst).Readable := by
  have hquote : '"' ∉ (if isFirst then t.name.toList else ' ' :: t.name.toList) := by
    cases isFirst <;> simp [ht.1]
  have hslash : '\\' ∉ (if isFirst then t.name.toList else ' ' :: t.name.toList) := by
    cases isFirst <;> simp [ht.2]
  rw [term]
  split
  · exact readable_plainTerm hquote hslash
  · exact readable_choiceTerm _ _ hquote hslash

end Toggle

namespace ClassParts

/-- What conditional names add to the string. -/
def toggleValue (isFirst : Bool) : List Toggle → List Nat
  | [] => []
  | t :: ts => t.piece isFirst ++ (ts.map (Toggle.piece false)).flatten

/-- The terms of conditional names stand for something if each name is on one line. -/
theorem sumValue_cons_toggle {isFirst : Bool} {t : Toggle} {ts : List Toggle} {terms : List Term}
    {value : List Nat} (hterms : sumValue terms =
      if ∀ t ∈ ts, OneLine t.name.toList then some value else none) :
    sumValue (t.term isFirst :: terms) = if ∀ u ∈ t :: ts, OneLine u.name.toList
      then some (t.piece isFirst ++ value) else none := by
  rw [sumValue_cons, hterms, Toggle.value_term]
  simp only [List.forall_mem_cons]
  by_cases ht : OneLine t.name.toList
  · by_cases hts : ∀ u ∈ ts, OneLine u.name.toList
    · rw [if_pos ht, if_pos hts, if_pos ⟨ht, hts⟩]
      rfl
    · rw [if_pos ht, if_neg hts, if_neg fun h : _ ∧ _ => hts h.2]
      rfl
  · rw [if_neg ht, if_neg fun h : _ ∧ _ => ht h.1]
    rfl

theorem sumValue_toggleTerms (isFirst : Bool) (ts : List Toggle) :
    sumValue (toggleTerms isFirst ts) =
      if ∀ t ∈ ts, OneLine t.name.toList then some (toggleValue isFirst ts) else none := by
  have hmap (ts : List Toggle) : sumValue (ts.map (Toggle.term false)) =
      if ∀ t ∈ ts, OneLine t.name.toList then some (ts.map (Toggle.piece false)).flatten
      else none := by
    induction ts with
    | nil => rfl
    | cons t ts ih => exact sumValue_cons_toggle ih
  cases ts with
  | nil => rfl
  | cons t ts => exact sumValue_cons_toggle (hmap ts)

section

variable {isSpace : Nat → Bool} {us : List Nat}

theorem tokens_piece (hblank : isSpace 32 = true) (isFirst : Bool) (t : Toggle) :
    tokens isSpace (t.piece isFirst) =
      if t.applies then tokens isSpace (textUnits t.name.toList) else [] := by
  rw [Toggle.piece]
  split
  · cases isFirst
    · exact tokens_cons hblank
    · rfl
  · rfl

theorem tokens_pieces (hblank : isSpace 32 = true) (ts : List Toggle) :
    tokens isSpace (us ++ (ts.map (Toggle.piece false)).flatten) = tokens isSpace us ++
      (ts.filter Toggle.applies).flatMap fun t => tokens isSpace (textUnits t.name.toList) := by
  have hpieces : ∀ piece ∈ ts.map (Toggle.piece false), piece = [] ∨ piece.head? = some 32 := by
    intro piece hpiece
    obtain ⟨t, -, rfl⟩ := List.mem_map.mp hpiece
    rw [Toggle.piece]
    split
    · exact .inr rfl
    · exact .inl rfl
  rw [tokens_flatten hblank hpieces]
  clear hpieces
  induction ts with
  | nil => rfl
  | cons t ts ih =>
    have hrest := List.append_cancel_left ih
    rw [List.map_cons, List.flatMap_cons, hrest, tokens_piece hblank]
    cases happlies : t.applies <;> simp [happlies]

/-- Only the first of conditional names can touch what stands before it. -/
theorem tokens_toggleValue (hblank : isSpace 32 = true) {isFirst : Bool}
    (hfirst : isFirst = true → us = []) (ts : List Toggle) :
    tokens isSpace (us ++ toggleValue isFirst ts) = tokens isSpace us ++
      (ts.filter Toggle.applies).flatMap fun t => tokens isSpace (textUnits t.name.toList) := by
  cases isFirst with
  | false =>
    have hvalue : toggleValue false ts = (ts.map (Toggle.piece false)).flatten := by
      cases ts <;> rfl
    rw [hvalue, tokens_pieces hblank]
  | true =>
    rw [hfirst rfl, List.nil_append, tokens_nil, List.nil_append]
    cases ts with
    | nil => rfl
    | cons t ts =>
      rw [toggleValue, tokens_pieces hblank, tokens_piece hblank]
      cases happlies : t.applies <;> simp [happlies]

end

variable (p : ClassParts)

/-- What the static class and the dynamic one add to the string. -/
def baseValue : List Nat :=
  textUnits p.staticClass.toList ++
    if p.dynamicClass.isEmpty then [] else if p.staticClass.isEmpty then p.value else 32 :: p.value

theorem sumValue_baseTerms : sumValue p.baseTerms = some p.baseValue := by
  have hjson : sumValue [jsonTerm p.staticClass] = some (textUnits p.staticClass.toList) := by
    rw [sumValue_cons, jsonTerm]
    simp [sumValue]
  have hvalue : sumValue p.dynamicTerms = some (if p.dynamicClass.isEmpty then []
      else if p.staticClass.isEmpty then p.value else 32 :: p.value) := by
    rw [dynamicTerms]
    split_ifs
    · rfl
    · simp [sumValue, stringTerm]
    · have hline : OneLine [' '] := by decide
      simp [sumValue, stringTerm, plainTerm, hline]
      rfl
  rw [baseTerms, baseValue, sumValue_append, hvalue]
  by_cases hstatic : p.staticClass.isEmpty = true
  · rw [if_pos hstatic, String.isEmpty_iff.mp hstatic]
    rfl
  · rw [if_neg hstatic, hjson]
    rfl

theorem tokens_baseValue {isSpace : Nat → Bool} (hblank : isSpace 32 = true) :
    tokens isSpace p.baseValue = tokens isSpace (textUnits p.staticClass.toList) ++
      if p.dynamicClass.isEmpty then [] else tokens isSpace p.value := by
  rw [baseValue]
  split
  · rw [List.append_nil, List.append_nil]
  · split
    · next h =>
      rw [String.isEmpty_iff.mp h]
      rfl
    · exact tokens_append_cons hblank

theorem baseValue_of_isEmpty (h : p.baseTerms.isEmpty = true) : p.baseValue = [] := by
  have hvalue := p.sumValue_baseTerms
  rw [List.isEmpty_iff.mp h] at hvalue
  exact (Option.some.inj hvalue).symm

/-- **The sum of the terms stands for the names if each conditional one is on one line.** -/
theorem tokens_sumValue {isSpace : Nat → Bool} (hblank : isSpace 32 = true) :
    (∃ v, sumValue p.terms = some v ∧ tokens isSpace v = p.names isSpace) ↔
      ∀ t ∈ p.toggles, OneLine t.name.toList := by
  have htokens : tokens isSpace (p.baseValue ++ toggleValue p.baseTerms.isEmpty p.toggles) =
      p.names isSpace := by
    rw [tokens_toggleValue hblank p.baseValue_of_isEmpty, tokens_baseValue p hblank, names]
  rw [terms, sumValue_append, sumValue_baseTerms, sumValue_toggleTerms, Option.bind_some]
  constructor
  · rintro ⟨v, hv, -⟩
    by_contra hlines
    rw [if_neg hlines] at hv
    cases hv
  · intro hlines
    rw [if_pos hlines]
    exact ⟨_, rfl, htokens⟩

/-- The text of a name is read as it is written. -/
def Writable : Prop := ∀ t ∈ p.toggles, t.Writable

/-- The terms of a class are of these kinds. -/
theorem mem_terms {t : Term} (ht : t ∈ p.terms) :
    t = jsonTerm p.staticClass ∨ t = plainTerm [' '] ∨
      t = stringTerm p.dynamicClass.toList p.value ∨
      ∃ isFirst, ∃ u ∈ p.toggles, t = u.term isFirst := by
  rcases List.mem_append.mp ht with ht | ht
  · rw [baseTerms, dynamicTerms] at ht
    rcases List.mem_append.mp ht with ht | ht
    · split at ht
      · cases ht
      · exact .inl (List.mem_singleton.mp ht)
    · split_ifs at ht
      · cases ht
      · exact .inr (.inr (.inl (List.mem_singleton.mp ht)))
      · rcases List.mem_cons.mp ht with rfl | ht
        · exact .inr (.inl rfl)
        · exact .inr (.inr (.inl (List.mem_singleton.mp ht)))
  · refine .inr (.inr (.inr ?_))
    cases htoggles : p.toggles with
    | nil =>
      rw [htoggles] at ht
      cases ht
    | cons u us =>
      rw [htoggles, toggleTerms] at ht
      rcases List.mem_cons.mp ht with rfl | ht
      · exact ⟨_, u, List.mem_cons_self, rfl⟩
      · obtain ⟨u', hu', rfl⟩ := List.mem_map.mp ht
        exact ⟨false, u', List.mem_cons_of_mem _ hu', rfl⟩

theorem readable_terms (hp : p.Writable) : ∀ t ∈ p.terms, t.Readable := by
  intro t ht
  rcases p.mem_terms ht with rfl | rfl | rfl | ⟨isFirst, u, hu, rfl⟩
  · exact readable_jsonTerm _
  · exact readable_plainTerm (by decide) (by decide)
  · exact readable_stringTerm _ _
  · exact Toggle.readable_term isFirst (hp u hu)

/-! ## The text of the sum -/

theorem code_term (isFirst : Bool) (t : Toggle) :
    (t.term isFirst).code = (toggleOperand isFirst (t.name, t.condition)).toList := by
  rw [toggleOperand, Toggle.term, Toggle.isAlways]
  cases isFirst <;> by_cases hword : strip t.condition = "true" <;>
    simp [hword, plainTerm, choiceTerm]

theorem code_toggleTerms (isFirst : Bool) (ts : List Toggle) :
    (toggleTerms isFirst ts).map Term.code =
      (toggleOperands isFirst (ts.map fun t => (t.name, t.condition))).map String.toList := by
  cases ts with
  | nil => rfl
  | cons t ts => simp [toggleTerms, toggleOperands, code_term]

theorem intercalate_fuse (sep a b c : List Char) (rest : List (List Char)) :
    sep.intercalate (a :: b :: c :: rest) = sep.intercalate (a :: (b ++ sep ++ c) :: rest) := by
  cases rest <;> simp [List.intercalate_cons_cons]

theorem toList_sum (parts : List String) :
    (" + ".intercalate parts).toList = plus.intercalate (parts.map String.toList) := by
  rw [String.toList_intercalate, plus]

/-- The code of the terms is that of the operands. -/
theorem sumCode_terms : sumCode p.terms = (" + ".intercalate (classOperands p.staticClass
    p.dynamicClass (p.toggles.map fun t => (t.name, t.condition)))).toList := by
  have hempty : (baseOperands p.staticClass p.dynamicClass).isEmpty = p.baseTerms.isEmpty := by
    rw [baseOperands, fixedOperands, baseTerms, dynamicTerms]
    split_ifs <;> rfl
  rw [sumCode, toList_sum, classOperands_eq, hempty, List.map_append, terms, List.map_append,
    code_toggleTerms, baseOperands, fixedOperands, baseTerms, dynamicTerms]
  generalize (toggleOperands _ _).map String.toList = rest
  have hjson : (jsonTerm p.staticClass).code = (jsonQuote p.staticClass).toList := by rw [jsonTerm]
  have hfirst : (dynamicOperand true p.dynamicClass).toList =
      (stringTerm p.dynamicClass.toList p.value).code := by
    simp [dynamicOperand, stringTerm]
  have hnext : (dynamicOperand false p.dynamicClass).toList = (plainTerm [' ']).code ++ plus ++
      (stringTerm p.dynamicClass.toList p.value).code := by
    simp [dynamicOperand, stringTerm, plainTerm, plus]
  split_ifs with hstatic hnone
  · rfl
  · simp only [hstatic, List.nil_append, List.map_singleton, hfirst]
  · simp only [List.append_nil, List.map_singleton, hjson]
  · simp only [hstatic, List.map_cons, List.map_nil, List.cons_append, List.nil_append, hnext,
      hjson]
    exact intercalate_fuse _ _ _ _ _

end ClassParts

/-! ## The attribute -/

/-- The attribute with a string in markup. -/
def quotedCode (text : List Char) : List Char := "className=".toList ++ '"' :: (text ++ ['"'])

/-- The attribute with an expression. -/
def bracedCode (code : List Char) : List Char := "className=".toList ++ '\x7b' :: (code ++ ['\x7d'])

/-- What an attribute stands for: a string in markup, the value of an expression, or a sum. -/
inductive ReadsAttribute (named : List Char → Option (List Nat)) :
    List Operand → List Char → List Nat → Prop
  | quoted {text : List Char} (h : '"' ∉ text) :
      ReadsAttribute named [] (quotedCode text) (decode named text)
  | bare (code : List Char) (value : List Nat) :
      ReadsAttribute named [.string code value] (bracedCode code) value
  | sum {ops : List Operand} {code : List Char} {v : List Nat} (h : ReadsSum ops code v) :
      ReadsAttribute named ops (bracedCode code) v

section

variable {named : List Char → Option (List Nat)} {ops : List Operand} {cs text code : List Char}
  {v w : List Nat}

theorem quotedCode_ne_bracedCode (text code : List Char) : quotedCode text ≠ bracedCode code := by
  intro h
  cases List.append_cancel_left h

theorem quotedCode_inj {text' : List Char} (h : quotedCode text = quotedCode text') :
    text = text' :=
  List.append_cancel_right (List.cons.inj (List.append_cancel_left h)).2

theorem bracedCode_inj {code' : List Char} (h : bracedCode code = bracedCode code') :
    code = code' :=
  List.append_cancel_right (List.cons.inj (List.append_cancel_left h)).2

theorem readsAttribute_quoted_iff : ReadsAttribute named ops (quotedCode text) v ↔
    '"' ∉ text ∧ ops = [] ∧ v = decode named text := by
  constructor
  · intro h
    generalize hcs : quotedCode text = cs at h
    cases h with
    | quoted h => exact ⟨quotedCode_inj hcs ▸ h, rfl, by rw [quotedCode_inj hcs]⟩
    | bare | sum => exact absurd hcs (quotedCode_ne_bracedCode _ _)
  · rintro ⟨h, rfl, rfl⟩
    exact .quoted h

theorem readsAttribute_braced_iff : ReadsAttribute named ops (bracedCode code) v ↔
    ops = [.string code v] ∨ ReadsSum ops code v := by
  constructor
  · intro h
    generalize hcs : bracedCode code = cs at h
    cases h with
    | quoted => exact absurd hcs.symm (quotedCode_ne_bracedCode _ _)
    | bare => exact .inl (by rw [bracedCode_inj hcs])
    | sum h => exact .inr (bracedCode_inj hcs ▸ h)
  · rintro (rfl | h)
    · exact .bare code v
    · exact .sum h

/-- An attribute stands for one string at most. -/
theorem ReadsAttribute.unique (hv : ReadsAttribute named ops cs v)
    (hw : ReadsAttribute named ops cs w) : v = w := by
  have hlong {code : List Char} {value u : List Nat} (hops : ops = [.string code value])
      (hsum : ReadsSum ops code u) : False :=
    (hsum.length_lt (hops ▸ List.mem_singleton_self _)).false
  cases hv with
  | quoted h => exact (readsAttribute_quoted_iff.mp hw).2.2.symm
  | bare code value =>
    rcases readsAttribute_braced_iff.mp hw with hops | hsum
    · cases hops
      rfl
    · exact (hlong rfl hsum).elim
  | sum h =>
    rcases readsAttribute_braced_iff.mp hw with hops | hsum
    · exact (hlong hops h).elim
    · exact h.unique hsum

end

namespace ClassParts

variable (p : ClassParts)

/-- The three ways to write a class: as a string in markup, as the dynamic class alone, or as a
sum. -/
inductive Form (text : List Char) : Prop
  | quoted (t : String) (h : p.quoted? = some t) (hcode : text = quotedCode t.toList)
      (hquote : '"' ∉ t.toList) (hops : p.operands = [])
      (hnames : ∀ isSpace, p.names isSpace = tokens isSpace (textUnits t.toList))
  | bare (h : p.quoted? = none) (hcode : text = bracedCode p.dynamicClass.toList)
      (hterms : p.terms = [stringTerm p.dynamicClass.toList p.value]) (htoggles : p.toggles = [])
  | sum (h : p.quoted? = none) (hcode : text = bracedCode (sumCode p.terms)) (hne : p.terms ≠ [])

theorem bracedCode_eq (code : List Char) : bracedCode code =
    "className".toList ++ ("=".toList ++ ("\x7b".toList ++ (code ++ "\x7d".toList))) :=
  rfl

theorem toList_assign (code : String) :
    (assign "className" code).toList = bracedCode code.toList := by
  rw [bracedCode_eq, assign, braced]
  simp only [String.toList_append, List.append_assoc]

theorem toList_braced (code : String) :
    ("className=" ++ braced code).toList = bracedCode code.toList := by
  have hname : "className=" = "className" ++ "=" := rfl
  rw [← toList_assign, assign, hname]

theorem quotedCode_eq (text : List Char) :
    quotedCode text = "className=".toList ++ ("\"".toList ++ (text ++ "\"".toList)) :=
  rfl

theorem toList_quotes (text : String) :
    ("className=" ++ ("\"" ++ text ++ "\"")).toList = quotedCode text.toList := by
  rw [quotedCode_eq]
  simp only [String.toList_append, List.append_assoc]

theorem written_eq : p.written =
    if p.staticClass.isEmpty && p.dynamicClass.isEmpty && p.toggles.isEmpty then none
    else if p.staticClass.isEmpty && p.toggles.isEmpty then
      some (assign "className" p.dynamicClass)
    else if p.dynamicClass.isEmpty && p.toggles.isEmpty then
      some ("className=" ++ quote p.staticClass)
    else some (sumText (classOperands p.staticClass p.dynamicClass
      (p.toggles.map fun t => (t.name, t.condition)))) := by
  rw [written, classAttribute_eq, List.isEmpty_map]
  rfl

variable {p}

/-- A static class alone. -/
theorem form_of_static (hstatic : p.staticClass.isEmpty = false)
    (hdynamic : p.dynamicClass.isEmpty = true) (htoggles : p.toggles = []) :
    p.Form ("className=" ++ quote p.staticClass).toList := by
  have hterms : p.terms = [jsonTerm p.staticClass] := by
    simp [terms, baseTerms, dynamicTerms, toggleTerms, hstatic, hdynamic, htoggles]
  rw [quote]
  split
  · next hmarks =>
    have hquoted : p.quoted? = none := by
      rw [quoted?, if_pos hdynamic, htoggles]
      exact if_pos hmarks
    refine .sum hquoted ?_ (by simp [hterms])
    rw [hterms, toList_braced, sumCode, List.map_singleton, List.intercalate_singleton, jsonTerm]
  · next hmarks =>
    have hquoted : p.quoted? = some p.staticClass := by
      rw [quoted?, if_pos hdynamic, htoggles]
      exact if_neg hmarks
    refine .quoted _ hquoted (toList_quotes _) ?_ ?_ ?_
    · intro hmem
      exact hmarks (by simp [hmem])
    · rw [operands, hterms]
      rfl
    · intro isSpace
      simp [names, hdynamic, htoggles]

/-- A conditional name alone. -/
theorem form_of_toggle (hp : p.Writable) (hstatic : p.staticClass.isEmpty = true)
    (hdynamic : p.dynamicClass.isEmpty = true) {t : Toggle} (htoggles : p.toggles = [t]) :
    p.Form (sumText [toggleOperand true (t.name, t.condition)]).toList := by
  have hterms : p.terms = [t.term true] := by
    simp [terms, baseTerms, dynamicTerms, toggleTerms, hstatic, hdynamic, htoggles]
  rw [sumText]
  cases hword : t.isAlways with
  | true =>
    have hoperand : toggleOperand true (t.name, t.condition) = "\"" ++ t.name ++ "\"" := by
      rw [toggleOperand, if_pos (of_decide_eq_true hword)]
      simp
    have hstart : hasStart (toggleOperand true (t.name, t.condition)) "\"" = true := by
      simp [hoperand, hasStart]
    have hquoted : p.quoted? = some t.name := by
      simp [quoted?, hdynamic, htoggles, hstatic, hword]
    rw [if_pos hstart, hoperand]
    refine .quoted _ hquoted (toList_quotes _) ?_ ?_ ?_
    · exact (hp t (by simp [htoggles])).1
    · rw [operands, hterms]
      simp [Toggle.term, hword, plainTerm]
    · intro isSpace
      simp [names, hdynamic, htoggles, String.isEmpty_iff.mp hstatic, Toggle.applies, hword,
        textUnits, tokens_nil]
  | false =>
    have hoperand : toggleOperand true (t.name, t.condition) =
        "(" ++ (t.condition ++ " ? " ++ ("\"" ++ t.name ++ "\"") ++ " : \"\")") := by
      rw [toggleOperand, if_neg (of_decide_eq_false hword)]
      simp [String.append_assoc]
    have hstart : hasStart (toggleOperand true (t.name, t.condition)) "\"" = false := by
      rw [hoperand, hasStart, String.toList_append]
      rfl
    have hquoted : p.quoted? = none := by
      simp [quoted?, hdynamic, htoggles, hstatic, hword]
    rw [if_neg (by simp [hstart])]
    refine .sum hquoted ?_ (by simp [hterms])
    rw [toList_assign, hterms, sumCode, List.map_singleton, List.intercalate_singleton, code_term]

theorem sumText_of_two_le {parts : List String} (h : 2 ≤ parts.length) :
    sumText parts = assign "className" (" + ".intercalate parts) := by
  match parts, h with
  | _ :: _ :: _, _ => rfl

/-- The number of parts that a class is merged from. -/
def partCount (p : ClassParts) : Nat :=
  (if p.staticClass.isEmpty then 0 else 1) + (if p.dynamicClass.isEmpty then 0 else 1) +
    p.toggles.length

theorem length_classOperands : (classOperands p.staticClass p.dynamicClass
    (p.toggles.map fun t => (t.name, t.condition))).length = p.partCount := by
  have htoggles (isFirst : Bool) (ts : List (String × String)) :
      (toggleOperands isFirst ts).length = ts.length := by
    cases ts <;> simp [toggleOperands]
  rw [classOperands_eq, List.length_append, htoggles, List.length_map, partCount, baseOperands,
    fixedOperands]
  split_ifs <;> rfl

theorem partCount_le_length_terms (p : ClassParts) : p.partCount ≤ p.terms.length := by
  have htoggles (isFirst : Bool) (ts : List Toggle) :
      (toggleTerms isFirst ts).length = ts.length := by
    cases ts <;> simp [toggleTerms]
  rw [partCount, terms, List.length_append, htoggles, baseTerms, dynamicTerms]
  split_ifs <;> simp

theorem partCount_le_of_quoted {t : String} (h : p.quoted? = some t) : p.partCount ≤ 1 := by
  rw [quoted?] at h
  split at h
  · next hdynamic =>
    rw [partCount, if_pos hdynamic]
    split at h
    · next htoggles =>
      rw [htoggles]
      split <;> simp
    · next u htoggles =>
      obtain ⟨hone, -⟩ := Option.ite_none_right_eq_some.mp h
      rw [htoggles, if_pos (Bool.and_eq_true_iff.mp hone).1]
      simp
    · cases h
  · cases h

/-- A class that is merged from several parts. -/
theorem form_of_parts (hmany : 2 ≤ p.partCount) : p.Form
      (sumText (classOperands p.staticClass p.dynamicClass
        (p.toggles.map fun t => (t.name, t.condition)))).toList := by
  have hquoted : p.quoted? = none := by
    refine Option.eq_none_iff_forall_ne_some.mpr fun t ht => ?_
    have hle := partCount_le_of_quoted ht
    omega
  have hterms : p.terms ≠ [] := by
    have hle := p.partCount_le_length_terms
    exact List.ne_nil_of_length_pos (by omega)
  rw [sumText_of_two_le (length_classOperands ▸ hmany)]
  refine .sum hquoted ?_ hterms
  rw [toList_assign, sumCode_terms]

/-- A class is written in one of these ways, if there is anything to write. -/
theorem form_of_written (hp : p.Writable) {text : String} (h : p.written = some text) :
    p.Form text.toList := by
  rw [written_eq] at h
  split_ifs at h with hnone hbare hstatic
  · obtain rfl := Option.some.inj h
    obtain ⟨hstatic, htoggles⟩ := Bool.and_eq_true_iff.mp hbare
    have htoggles : p.toggles = [] := List.isEmpty_iff.mp htoggles
    have hdynamic : p.dynamicClass.isEmpty = false := by simpa [hstatic, htoggles] using hnone
    refine .bare ?_ (toList_assign _) ?_ htoggles
    · rw [quoted?, hdynamic]
      rfl
    · simp [terms, baseTerms, dynamicTerms, toggleTerms, hstatic, hdynamic, htoggles]
  · obtain rfl := Option.some.inj h
    obtain ⟨hdynamic, htoggles⟩ := Bool.and_eq_true_iff.mp hstatic
    have htoggles : p.toggles = [] := List.isEmpty_iff.mp htoggles
    exact form_of_static (by simpa [htoggles] using hbare) hdynamic htoggles
  · obtain rfl := Option.some.inj h
    by_cases hone : (p.staticClass.isEmpty = true ∧ p.dynamicClass.isEmpty = true) ∧
        ∃ t, p.toggles = [t]
    · obtain ⟨⟨hstatic, hdynamic⟩, t, htoggles⟩ := hone
      have hform := form_of_toggle hp hstatic hdynamic htoggles
      have hparts : classOperands p.staticClass p.dynamicClass
          (p.toggles.map fun t => (t.name, t.condition)) =
            [toggleOperand true (t.name, t.condition)] := by
        rw [classOperands_eq, htoggles]
        simp [baseOperands, fixedOperands, hstatic, hdynamic, toggleOperands]
      rwa [hparts]
    · refine form_of_parts ?_
      rw [partCount]
      rcases htoggles : p.toggles with _ | ⟨t, _ | ⟨u, ts⟩⟩
      · have hfixed : p.staticClass.isEmpty = false := by simpa [htoggles] using hbare
        have hdynamic : p.dynamicClass.isEmpty = false := by simpa [htoggles] using hstatic
        simp [hfixed, hdynamic]
      · have hnot : ¬ (p.staticClass.isEmpty = true ∧ p.dynamicClass.isEmpty = true) :=
          fun h => hone ⟨h, t, htoggles⟩
        split_ifs with hfixed hdynamic <;> simp_all
      · rw [List.length_cons, List.length_cons]
        omega

theorem length_code_le {terms : List Term} {t : Term} (ht : t ∈ terms) :
    t.code.length ≤ (sumCode terms).length := by
  induction terms with
  | nil => cases ht
  | cons u terms ih =>
    by_cases hlast : terms = []
    · subst hlast
      rw [List.mem_singleton.mp ht, sumCode, List.map_singleton, List.intercalate_singleton]
    · rw [sumCode_cons hlast, List.length_append, List.length_append]
      rcases List.mem_cons.mp ht with rfl | ht
      · omega
      · have hle := ih ht
        omega

/-- No sum is one of its expressions. -/
theorem operands_ne (p : ClassParts) (v : List Nat) :
    p.operands ≠ [.string (sumCode p.terms) v] := by
  intro hops
  have hmem : Operand.string (sumCode p.terms) v ∈ p.operands := hops ▸ List.mem_singleton_self _
  obtain ⟨t, ht, hcode⟩ := List.mem_flatMap.mp hmem
  have hlength := length_code_le ht
  rcases p.mem_terms ht with rfl | rfl | rfl | ⟨isFirst, u, -, rfl⟩
  · cases hcode
  · cases hcode
  · obtain ⟨heq, -⟩ := Operand.string.inj (List.mem_singleton.mp hcode)
    rw [heq, stringTerm, List.length_cons, List.length_append] at hlength
    omega
  · rw [Toggle.term] at hcode
    split at hcode
    · cases hcode
    · cases List.mem_singleton.mp hcode

/-- The condition under which the names are those of the parts: a string in markup has to stand for
them itself, and elsewhere each conditional name has to be on one line. -/
def Faithful (p : ClassParts) (named : List Char → Option (List Nat)) (isSpace : Nat → Bool) :
    Prop :=
  (∀ t ∈ p.quoted?, tokens isSpace (decode named t.toList) =
      tokens isSpace (textUnits t.toList)) ∧
    (p.quoted? = none → ∀ t ∈ p.toggles, OneLine t.name.toList)

instance (p : ClassParts) (named : List Char → Option (List Nat)) (isSpace : Nat → Bool) :
    Decidable (p.Faithful named isSpace) :=
  inferInstanceAs (Decidable (_ ∧ _))

theorem readsNames_iff (hp : p.Writable) (named : List Char → Option (List Nat))
    {isSpace : Nat → Bool} (hblank : isSpace 32 = true) {text : String}
    (htext : p.written = some text) :
    (∃ v, ReadsAttribute named p.operands text.toList v ∧ tokens isSpace v = p.names isSpace) ↔
      p.Faithful named isSpace := by
  cases form_of_written hp htext with
  | quoted t h hcode hquote hops hnames =>
    rw [hcode]
    simp [Faithful, h, readsAttribute_quoted_iff, hquote, hops, hnames]
  | bare h hcode hterms htoggles =>
    have hfaithful : p.Faithful named isSpace := by simp [Faithful, h, htoggles]
    rw [hcode]
    refine iff_of_true ⟨p.value, ?_, ?_⟩ hfaithful
    · rw [operands, hterms]
      exact .bare _ _
    · obtain ⟨v, hv, hnames⟩ := (tokens_sumValue p hblank).mpr (htoggles ▸ List.forall_mem_nil _)
      have hvalue : sumValue p.terms = some p.value := by simp [hterms, sumValue, stringTerm]
      rwa [← Option.some.inj (hv.symm.trans hvalue)]
  | sum h hcode hne =>
    have hfaithful : p.Faithful named isSpace ↔ ∀ t ∈ p.toggles, OneLine t.name.toList := by
      simp [Faithful, h]
    rw [hfaithful, hcode, ← tokens_sumValue p hblank]
    refine exists_congr fun v => and_congr_left fun _ => ?_
    rw [readsAttribute_braced_iff, operands, readsSum_iff hne (readable_terms p hp)]
    exact or_iff_right (p.operands_ne v)

/-- **What the merged class stands for.** There is one exactly if there is anything to merge. -/
theorem reads_classAttribute (p : ClassParts) (hp : p.Writable)
    (named : List Char → Option (List Nat)) (isSpace : Nat → Bool) (hblank : isSpace 32 = true) :
    (p.written = none ↔ p.staticClass = "" ∧ p.dynamicClass = "" ∧ p.toggles = []) ∧
      ∀ text, p.written = some text →
        (∀ v w, ReadsAttribute named p.operands text.toList v →
          ReadsAttribute named p.operands text.toList w → v = w) ∧
        ((∃ v, ReadsAttribute named p.operands text.toList v ∧
          tokens isSpace v = p.names isSpace) ↔ p.Faithful named isSpace) := by
  refine ⟨?_, fun text htext => ⟨fun _ _ => ReadsAttribute.unique,
    readsNames_iff hp named hblank htext⟩⟩
  rw [written_eq, ← String.isEmpty_iff, ← String.isEmpty_iff, ← List.isEmpty_iff, ← and_assoc,
    ← Bool.and_eq_true_iff, ← Bool.and_eq_true_iff]
  split_ifs with hnone <;> simp [hnone]

end ClassParts

instance (t : Toggle) : Decidable t.Writable := inferInstanceAs (Decidable (_ ∧ _))

instance (p : ClassParts) : Decidable p.Writable :=
  inferInstanceAs (Decidable (∀ t ∈ p.toggles, t.Writable))

/-- The class of a card that is dark and open. -/
def cardClass : ClassParts where
  fixed := some "card big"
  dynamic := some "kind"
  value := textUnits "dark".toList
  toggles := [⟨"on", "open", true⟩, ⟨"busy", "waiting", false⟩, ⟨"last", " true ", false⟩]

theorem reads_cardClass :
    cardClass.Writable ∧
      cardClass.written = some ("className=\x7b\"card big\" + \" \" + (kind) + " ++
        "(open ? \" on\" : \"\") + (waiting ? \" busy\" : \"\") + \" last\"\x7d") ∧
      ∀ text, cardClass.written = some text →
        ∃ v, ReadsAttribute (fun _ => none) cardClass.operands text.toList v ∧
          tokens (· == 32) v = ["card", "big", "dark", "on", "last"].map (textUnits ·.toList) := by
  have hwritable : cardClass.Writable := by decide
  refine ⟨hwritable, by decide +kernel, fun text htext => ?_⟩
  have hreads := ((ClassParts.reads_classAttribute cardClass hwritable (fun _ => none) (· == 32)
    rfl).2 text htext).2
  obtain ⟨v, hv, hnames⟩ := hreads.mpr (by decide +kernel)
  exact ⟨v, hv, hnames.trans (by decide +kernel)⟩

/-- A conditional name with a line end in it. -/
def brokenClass : ClassParts := ⟨none, none, [], [⟨"a\nb", "on", true⟩]⟩

/-- A static class with a reference in it. -/
def referenceClass : ClassParts := ⟨some "a&#38;b", none, [], []⟩

/-- A line end in a conditional name ends the string that it is written in, and a static class alone
is read with its references replaced, though not in a sum. -/
theorem misread_classes :
    (brokenClass.Writable ∧ brokenClass.written = some "className=\x7b(on ? \"a\nb\" : \"\")\x7d" ∧
      ¬ ∃ v, ReadsAttribute (fun _ => none) brokenClass.operands
          "className=\x7b(on ? \"a\nb\" : \"\")\x7d".toList v ∧
        tokens (fun u => u == 32 || u == 10) v = brokenClass.names fun u => u == 32 || u == 10) ∧
    (referenceClass.Writable ∧ referenceClass.written = some "className=\"a&#38;b\"" ∧
      ¬ ∃ v, ReadsAttribute (fun _ => none) referenceClass.operands
          "className=\"a&#38;b\"".toList v ∧
        tokens (· == 32) v = referenceClass.names (· == 32)) := by
  have hbroken : brokenClass.Writable := by decide
  have hreference : referenceClass.Writable := by decide
  have hwritten : brokenClass.written = some "className=\x7b(on ? \"a\nb\" : \"\")\x7d" := by
    decide +kernel
  have hwritten' : referenceClass.written = some "className=\"a&#38;b\"" := by decide +kernel
  refine ⟨⟨hbroken, hwritten, ?_⟩, hreference, hwritten', ?_⟩
  · rw [ClassParts.readsNames_iff hbroken _ rfl hwritten]
    decide +kernel
  · rw [ClassParts.readsNames_iff hreference _ rfl hwritten']
    decide +kernel

end Trellis.Jsx
