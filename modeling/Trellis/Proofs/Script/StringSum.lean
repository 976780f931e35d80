import Mathlib.Order.Nat
import Trellis.Proofs.Script.StringLiteral

/-!
# Reading sums of strings

A sum of strings has for its terms string literals, expressions that give strings, and choices
between two literals. Of an expression only its text is known, and what it gives.

* `readTerm?` reads a term at the start of a text. The expressions are those of a list, in order.
* `ReadsSum` reads a whole sum. `ReadsSum.unique`: it stands for one string at most.
* `ReadsSum.length_lt`: a sum is longer than the text of any of its expressions.
* A `Term` is one that is read as it says, whatever stands behind it. `readsSum_iff`: a sum of such
  terms stands for their values, one after the other, or for nothing if one of them does.
-/

namespace Trellis.Script

open Trellis.Text

/-- An expression of which only its text is known, with what it gives. -/
inductive Operand where
  | string (code : List Char) (value : List Nat)
  | condition (code : List Char) (holds : Bool)

/-- The rest of a text behind a fixed start. -/
def expect? (start cs : List Char) : Option (List Char) :=
  if start.isPrefixOf cs then some (cs.drop start.length) else none

/-- Reads a term: its string, the expressions that are left, and the rest of the text. -/
def readTerm? : List Operand → List Char → Option (List Nat × List Operand × List Char)
  | ops, '"' :: cs => (readString? ('"' :: cs)).map fun (value, rest) => (value, ops, rest)
  | .string code value :: ops, '(' :: cs => do
    let cs ← expect? (code ++ [')']) cs
    pure (value, ops, cs)
  | .condition code holds :: ops, '(' :: cs => do
    let cs ← expect? (code ++ " ? ".toList) cs
    let (yes, cs) ← readString? cs
    let cs ← expect? " : ".toList cs
    let (no, cs) ← readString? cs
    let cs ← expect? [')'] cs
    pure (if holds then yes else no, ops, cs)
  | _, _ => none

/-- What stands between two terms. -/
def plus : List Char := " + ".toList

/-- A sum stands for a string. Each of the expressions is one of its terms, in order. -/
inductive ReadsSum : List Operand → List Char → List Nat → Prop
  | last {ops : List Operand} {cs : List Char} {v : List Nat}
      (h : readTerm? ops cs = some (v, [], [])) : ReadsSum ops cs v
  | more {ops ops' : List Operand} {cs cs' : List Char} {v w : List Nat}
      (h : readTerm? ops cs = some (v, ops', plus ++ cs')) (hrest : ReadsSum ops' cs' w) :
      ReadsSum ops cs (v ++ w)

/-- A sum stands for one string at most. -/
theorem ReadsSum.unique {ops : List Operand} {cs : List Char} {v w : List Nat}
    (hv : ReadsSum ops cs v) (hw : ReadsSum ops cs w) : v = w := by
  induction hv generalizing w with
  | last h =>
    cases hw with
    | last h' =>
      rw [h] at h'
      cases h'
      rfl
    | more h' hrest =>
      rw [h] at h'
      cases h'
  | more h hrest ih =>
    cases hw with
    | last h' =>
      rw [h] at h'
      cases h'
    | more h' hrest' =>
      rw [h] at h'
      obtain ⟨rfl, rfl, hcs⟩ := by simpa using h'
      rw [ih (hcs ▸ hrest')]

/-! ## How long a sum is -/

theorem expect?_append (start rest : List Char) : expect? start (start ++ rest) = some rest := by
  rw [expect?, if_pos (List.isPrefixOf_iff_prefix.mpr (List.prefix_append _ _)), List.drop_left]

theorem length_of_expect? {start cs rest : List Char} (h : expect? start cs = some rest) :
    cs.length = start.length + rest.length := by
  rw [expect?] at h
  split at h
  · next hprefix =>
    obtain ⟨rest, rfl⟩ := List.isPrefixOf_iff_prefix.mp hprefix
    rw [List.drop_left] at h
    rw [List.length_append, Option.some.inj h]
  · cases h

theorem length_of_readStringFrom {skip : Nat} {cs rest : List Char} {us : List Nat}
    (h : readStringFrom skip cs = some (us, rest)) : rest.length ≤ cs.length := by
  fun_induction readStringFrom skip cs generalizing us with
  | case1 => cases h
  | case2 skip c cs ih =>
    have hrest := ih h
    rw [List.length_cons]
    omega
  | case3 cs =>
    cases h
    exact Nat.le_succ _
  | case4 cs _ ih =>
    obtain ⟨⟨text, taken⟩, -, h⟩ := Option.bind_eq_some_iff.mp h
    obtain ⟨⟨vs, rest'⟩, hread, heq⟩ := Option.map_eq_some_iff.mp h
    cases heq
    exact (ih taken hread).trans (Nat.le_succ _)
  | case5 => cases h
  | case6 c cs _ _ _ ih =>
    obtain ⟨⟨vs, rest'⟩, hread, heq⟩ := Option.map_eq_some_iff.mp h
    cases heq
    exact (ih hread).trans (Nat.le_succ _)

theorem length_of_readString? {cs rest : List Char} {us : List Nat}
    (h : readString? cs = some (us, rest)) : rest.length ≤ cs.length := by
  rw [readString?.eq_def] at h
  split at h
  · exact (length_of_readStringFrom h).trans (Nat.le_succ _)
  · cases h

/-- A term takes what it reads, and more than the text of an expression. -/
theorem readTerm?_shrinks {ops ops' : List Operand} {cs rest : List Char} {v : List Nat}
    (h : readTerm? ops cs = some (v, ops', rest)) :
    rest.length ≤ cs.length ∧ ∀ code value, Operand.string code value ∈ ops →
      Operand.string code value ∈ ops' ∨ code.length < cs.length := by
  rw [readTerm?.eq_def] at h
  split at h
  · next cs =>
    obtain ⟨⟨us, rest'⟩, hread, heq⟩ := Option.map_eq_some_iff.mp h
    cases heq
    exact ⟨length_of_readString? hread, fun _ _ hmem => .inl hmem⟩
  · next code value ops cs =>
    obtain ⟨rest', hrest, heq⟩ := Option.bind_eq_some_iff.mp h
    cases heq
    have hlength := length_of_expect? hrest
    rw [List.length_append, List.length_singleton] at hlength
    rw [List.length_cons]
    refine ⟨by omega, fun code' value' hmem => ?_⟩
    rcases List.mem_cons.mp hmem with heq | hmem
    · cases heq
      exact .inr (by omega)
    · exact .inl hmem
  · next code holds ops cs =>
    simp only [Option.bind_eq_bind, Option.bind_eq_some_iff] at h
    obtain ⟨cs₁, h₁, ⟨yes, cs₂⟩, h₂, cs₃, h₃, ⟨no, cs₄⟩, h₄, cs₅, h₅, heq⟩ := h
    cases heq
    have hlength₁ := length_of_expect? h₁
    have hlength₂ := length_of_readString? h₂
    have hlength₃ : cs₂.length = _ := length_of_expect? h₃
    have hlength₄ := length_of_readString? h₄
    have hlength₅ : cs₄.length = _ := length_of_expect? h₅
    rw [List.length_cons]
    refine ⟨by omega, fun code' value' hmem => ?_⟩
    rcases List.mem_cons.mp hmem with heq | hmem
    · cases heq
    · exact .inl hmem
  · cases h

/-- A sum is longer than the text of each of its expressions. -/
theorem ReadsSum.length_lt {ops : List Operand} {cs code : List Char} {v value : List Nat}
    (h : ReadsSum ops cs v) (hmem : Operand.string code value ∈ ops) : code.length < cs.length := by
  induction h with
  | last h =>
    rcases (readTerm?_shrinks h).2 code value hmem with hnil | hlt
    · cases hnil
    · exact hlt
  | more h hrest ih =>
    obtain ⟨hle, hshrinks⟩ := readTerm?_shrinks h
    rcases hshrinks code value hmem with hmem | hlt
    · have hlt := ih hmem
      rw [List.length_append] at hle
      omega
    · exact hlt

/-! ## Terms -/

/-- A term, with its expressions and what it stands for, if it stands for anything. -/
structure Term where
  code : List Char
  operands : List Operand
  value : Option (List Nat)

/-- The term is read as it says, whatever stands behind it. -/
def Term.Readable (t : Term) : Prop :=
  ∀ ops rest, readTerm? (t.operands ++ ops) (t.code ++ rest) =
    t.value.map fun v => (v, ops, rest)

/-- The code of a sum. -/
def sumCode (terms : List Term) : List Char := plus.intercalate (terms.map Term.code)

/-- What a sum stands for. -/
def sumValue (terms : List Term) : Option (List Nat) :=
  (terms.mapM Term.value).map List.flatten

theorem sumCode_cons {terms : List Term} (hne : terms ≠ []) (t : Term) :
    sumCode (t :: terms) = t.code ++ (plus ++ sumCode terms) := by
  obtain ⟨u, terms, rfl⟩ := List.exists_cons_of_ne_nil hne
  rw [sumCode, List.map_cons, List.map_cons, List.intercalate_cons_cons, List.append_assoc]
  rfl

theorem sumValue_cons (t : Term) (terms : List Term) : sumValue (t :: terms) =
    t.value.bind fun v => (sumValue terms).map fun w => v ++ w := by
  rw [sumValue, sumValue, List.mapM_cons]
  cases t.value with
  | none => rfl
  | some v => cases terms.mapM Term.value <;> rfl

theorem sumValue_append (terms others : List Term) : sumValue (terms ++ others) =
    (sumValue terms).bind fun v => (sumValue others).map fun w => v ++ w := by
  induction terms with
  | nil =>
    rw [List.nil_append, show sumValue [] = some [] from rfl]
    cases sumValue others <;> rfl
  | cons t terms ih =>
    rw [List.cons_append, sumValue_cons, sumValue_cons, ih]
    cases t.value <;> cases sumValue terms <;> cases sumValue others <;> simp

/-- A sum is its first term, or this and another sum. -/
theorem readsSum_of_term {ops ops' : List Operand} {cs rest : List Char} {value : Option (List Nat)}
    {v : List Nat} (hread : readTerm? ops cs = value.map fun u => (u, ops', rest)) :
    ReadsSum ops cs v ↔ ∃ u, value = some u ∧ ((ops' = [] ∧ rest = [] ∧ v = u) ∨
      ∃ cs' w, rest = plus ++ cs' ∧ ReadsSum ops' cs' w ∧ v = u ++ w) := by
  constructor
  · intro h
    cases h with
    | last h =>
      rw [hread, Option.map_eq_some_iff] at h
      obtain ⟨u, hu, heq⟩ := h
      cases heq
      exact ⟨_, hu, .inl ⟨rfl, rfl, rfl⟩⟩
    | more h hrest =>
      rw [hread, Option.map_eq_some_iff] at h
      obtain ⟨u, hu, heq⟩ := h
      cases heq
      exact ⟨_, hu, .inr ⟨_, _, rfl, hrest, rfl⟩⟩
  · rintro ⟨u, rfl, ⟨rfl, rfl, rfl⟩ | ⟨cs', w, rfl, hrest, rfl⟩⟩
    · exact .last hread
    · exact .more hread hrest

/-- **A sum of readable terms stands for their values, one after the other.** -/
theorem readsSum_iff {terms : List Term} (hne : terms ≠ []) (hterms : ∀ t ∈ terms, t.Readable)
    (v : List Nat) :
    ReadsSum (terms.flatMap Term.operands) (sumCode terms) v ↔ sumValue terms = some v := by
  induction terms generalizing v with
  | nil => exact absurd rfl hne
  | cons t terms ih =>
    obtain ⟨ht, hterms⟩ := List.forall_mem_cons.mp hterms
    by_cases hlast : terms = []
    · subst hlast
      have hread := ht [] []
      rw [List.append_nil, List.append_nil] at hread
      have hcode : sumCode [t] = t.code := List.intercalate_singleton
      have hvalue : sumValue [t] = t.value := by
        rw [sumValue_cons]
        cases t.value <;> simp [sumValue]
      rw [List.flatMap_singleton, hcode, hvalue, readsSum_of_term hread]
      constructor
      · rintro ⟨u, hu, ⟨-, -, rfl⟩ | ⟨cs', w, hnil, -⟩⟩
        · exact hu
        · cases hnil
      · exact fun hv => ⟨v, hv, .inl ⟨rfl, rfl, rfl⟩⟩
    · have hread := ht (terms.flatMap Term.operands) (plus ++ sumCode terms)
      rw [List.flatMap_cons, sumCode_cons hlast, sumValue_cons, readsSum_of_term hread,
        Option.bind_eq_some_iff]
      refine exists_congr fun u => and_congr_right fun _ => ?_
      rw [Option.map_eq_some_iff]
      constructor
      · rintro (⟨-, hnil, -⟩ | ⟨cs', w, hcs, hrest, rfl⟩)
        · cases hnil
        · rw [← List.append_cancel_left hcs] at hrest
          exact ⟨w, (ih hlast hterms w).mp hrest, rfl⟩
      · rintro ⟨w, hw, rfl⟩
        exact .inr ⟨_, w, rfl, (ih hlast hterms w).mpr hw, rfl⟩

/-! ### Terms of four kinds -/

theorem readTerm?_literal (ops : List Operand) (cs : List Char) : readTerm? ops ('"' :: cs) =
    (readString? ('"' :: cs)).map fun (value, rest) => (value, ops, rest) := by
  rcases ops with _ | ⟨_ | _, _⟩ <;> rfl

/-- A text as a JSON string. -/
def jsonTerm (s : String) : Term :=
  ⟨(jsonQuote s).toList, [], some (textUnits s.toList)⟩

theorem readable_jsonTerm (s : String) : (jsonTerm s).Readable := by
  intro ops rest
  have hread := readString?_jsonQuote s rest
  obtain ⟨cs, hcs⟩ : ∃ cs, (jsonQuote s).toList = '"' :: cs := ⟨_, String.toList_ofList⟩
  rw [hcs, List.cons_append] at hread
  rw [jsonTerm, hcs, List.nil_append, List.cons_append, readTerm?_literal, hread]
  rfl

/-- A text between quotes. -/
def plainTerm (s : List Char) : Term :=
  ⟨'"' :: (s ++ ['"']), [], if OneLine s then some (textUnits s) else none⟩

theorem readable_plainTerm {s : List Char} (hquote : '"' ∉ s) (hslash : '\\' ∉ s) :
    (plainTerm s).Readable := by
  intro ops rest
  have hread := readString?_plain hquote hslash rest
  rw [plainTerm, List.nil_append, List.cons_append, List.append_assoc, readTerm?_literal,
    List.singleton_append, hread]
  split <;> rfl

/-- An expression that gives a string. -/
def stringTerm (code : List Char) (value : List Nat) : Term :=
  ⟨'(' :: (code ++ [')']), [.string code value], some value⟩

theorem readable_stringTerm (code : List Char) (value : List Nat) :
    (stringTerm code value).Readable := by
  intro ops rest
  rw [stringTerm, List.singleton_append, List.cons_append, readTerm?, expect?_append]
  rfl

/-- A text between quotes under a condition, or else nothing. -/
def choiceTerm (code : List Char) (holds : Bool) (s : List Char) : Term :=
  ⟨'(' :: ((code ++ " ? ".toList) ++ ('"' :: (s ++ '"' :: " : \"\")".toList))),
    [.condition code holds],
    if OneLine s then some (if holds then textUnits s else []) else none⟩

theorem readable_choiceTerm (code : List Char) (holds : Bool) {s : List Char} (hquote : '"' ∉ s)
    (hslash : '\\' ∉ s) : (choiceTerm code holds s).Readable := by
  intro ops rest
  have hyes := readString?_plain hquote hslash (" : \"\")".toList ++ rest)
  have hno : readString? ("\"\")".toList ++ rest) = some ([], [')'] ++ rest) := rfl
  have hshape : '"' :: (s ++ '"' :: " : \"\")".toList) ++ rest =
      '"' :: (s ++ '"' :: (" : \"\")".toList ++ rest)) := by
    simp
  have hcolon : " : \"\")".toList ++ rest = " : ".toList ++ ("\"\")".toList ++ rest) := rfl
  rw [choiceTerm, List.singleton_append, List.cons_append, readTerm?, List.append_assoc,
    expect?_append, hshape]
  simp only [Option.bind_eq_bind, Option.bind_some, hyes]
  split
  · simp only [Option.bind_some, hcolon, expect?_append, hno]
    cases holds <;> rfl
  · rfl

end Trellis.Script
