import Mathlib.Algebra.GroupWithZero.Nat
import Trellis.Jsx.Emit

/-!
# The merged class

The class of an element is put together from a static class, a dynamic one and conditional names,
each an operand of one sum.

* `toggleOperand` is the operand of a conditional name. `classOperands_eq`: the operands are those
  of the two classes, then those of the names.
* `isBlankText_renameReserved`: giving `class` a safe name makes no expression blank.
* `classAttribute_inj`: the expression of the dynamic class can be read off the attribute, whatever
  it is merged with.
-/

namespace Trellis.Jsx

open Trellis.Text

/-! ## Operands -/

/-- The operand of a conditional name. All but the first operand start with a blank. -/
def toggleOperand (isFirst : Bool) (toggle : String × String) : String :=
  let text := "\"" ++ (if isFirst then "" else " ") ++ toggle.1 ++ "\""
  if strip toggle.2 = "true" then text else "(" ++ toggle.2 ++ " ? " ++ text ++ " : \"\")"

/-- The operands of conditional names. -/
def toggleOperands (isFirst : Bool) : List (String × String) → List String
  | [] => []
  | t :: ts => toggleOperand isFirst t :: ts.map (toggleOperand false)

theorem toggleOperands_false (toggles : List (String × String)) :
    toggleOperands false toggles = toggles.map (toggleOperand false) := by
  cases toggles <;> rfl

/-- The operand of a dynamic class. -/
def dynamicOperand (isFirst : Bool) (dynamic : String) : String :=
  if isFirst then "(" ++ dynamic ++ ")" else "\" \" + (" ++ dynamic ++ ")"

/-- The operand of the static class, if there is one. -/
def fixedOperands (fixed : String) : List String :=
  if fixed.isEmpty then [] else [jsonQuote fixed]

/-- The operands of the static class and the dynamic one, if there are any. -/
def baseOperands (fixed dynamic : String) : List String :=
  fixedOperands fixed ++ if dynamic.isEmpty then [] else [dynamicOperand fixed.isEmpty dynamic]

theorem isEmpty_fixedOperands (fixed : String) :
    (fixedOperands fixed).isEmpty = fixed.isEmpty := by
  rw [fixedOperands]
  by_cases h : fixed.isEmpty = true <;> simp [h]

theorem foldl_toggles (parts : List String) (toggles : List (String × String)) :
    toggles.foldl (fun parts (name, condition) =>
      let text := "\"" ++ (if parts.isEmpty then "" else " ") ++ name ++ "\""
      if strip condition = "true" then parts ++ [text]
      else parts ++ ["(" ++ condition ++ " ? " ++ text ++ " : \"\")"]) parts =
      parts ++ toggleOperands parts.isEmpty toggles := by
  induction toggles generalizing parts with
  | nil => simp [toggleOperands]
  | cons t ts ih =>
    have hstep : (if strip t.2 = "true" then
        parts ++ ["\"" ++ (if parts.isEmpty then "" else " ") ++ t.1 ++ "\""]
        else parts ++ ["(" ++ t.2 ++ " ? " ++
          ("\"" ++ (if parts.isEmpty then "" else " ") ++ t.1 ++ "\"") ++ " : \"\")"]) =
        parts ++ [toggleOperand parts.isEmpty t] := by
      rw [toggleOperand]
      split <;> rfl
    have hnonempty : (parts ++ [toggleOperand parts.isEmpty t]).isEmpty = false := by simp
    rw [List.foldl_cons]
    dsimp only
    rw [hstep, ih, hnonempty, toggleOperands_false, toggleOperands, List.append_assoc,
      List.singleton_append]

/-- The operands of the merged class. -/
theorem classOperands_eq (fixed dynamic : String) (toggles : List (String × String)) :
    classOperands fixed dynamic toggles = baseOperands fixed dynamic ++
      toggleOperands (baseOperands fixed dynamic).isEmpty toggles := by
  have hbase : (if dynamic.isEmpty then fixedOperands fixed
      else if (fixedOperands fixed).isEmpty then ["(" ++ dynamic ++ ")"]
      else fixedOperands fixed ++ ["\" \" + (" ++ dynamic ++ ")"]) =
      baseOperands fixed dynamic := by
    rw [baseOperands, isEmpty_fixedOperands]
    by_cases hdynamic : dynamic.isEmpty = true
    · simp [hdynamic]
    · by_cases hfixed : fixed.isEmpty = true
      · simp [hdynamic, hfixed, fixedOperands, dynamicOperand]
      · simp [hdynamic, hfixed, dynamicOperand]
  rw [classOperands]
  change List.foldl _ (if dynamic.isEmpty then fixedOperands fixed
    else if (fixedOperands fixed).isEmpty then ["(" ++ dynamic ++ ")"]
    else fixedOperands fixed ++ ["\" \" + (" ++ dynamic ++ ")"]) toggles = _
  rw [hbase]
  exact foldl_toggles _ _

/-! ## Lengths -/

/-- The length of a sum of operands, with a separator after each. -/
def sumLength (parts : List String) : Nat := (parts.map (·.length + 3)).sum

theorem length_intercalate {parts : List String} (h : parts ≠ []) :
    (" + ".intercalate parts).length + 3 = sumLength parts := by
  induction parts with
  | nil => exact absurd rfl h
  | cons part parts ih =>
    by_cases hparts : parts = []
    · simp [hparts, sumLength]
    · have hlength := ih hparts
      have hsep : " + ".length = 3 := rfl
      rw [String.intercalate_cons_of_ne_nil hparts, String.length_append, String.length_append,
        hsep]
      simp only [sumLength, List.map_cons, List.sum_cons] at hlength ⊢
      omega

theorem length_le_jsonQuote (s : String) : s.length + 2 ≤ (jsonQuote s).length := by
  have hunit : ∀ n : Nat, 1 ≤ (unitEscape n).length := by
    intro n
    rw [unitEscape, List.length_cons]
    omega
  have hescape : ∀ c : Char, 1 ≤ (jsonEscape c).length := by
    intro c
    rw [jsonEscape]
    repeat' split
    all_goals first | exact hunit _ | exact Nat.succ_le_succ (Nat.zero_le _)
  have hchars : ∀ cs : List Char, cs.length ≤ (cs.flatMap jsonEscape).length := by
    intro cs
    induction cs with
    | nil => simp
    | cons c cs ih =>
      have hc := hescape c
      simp only [List.flatMap_cons, List.length_append, List.length_cons]
      omega
  have hs := hchars s.toList
  simp only [jsonQuote, String.length_ofList, List.length_append, List.length_cons,
    List.length_nil, String.length_toList] at hs ⊢
  omega

theorem length_quote_le (s : String) : (quote s).length ≤ (jsonQuote s).length + 2 := by
  have hs := length_le_jsonQuote s
  have hopen : "\x7b".length = 1 := rfl
  have hclose : "\x7d".length = 1 := rfl
  have hmark : "\"".length = 1 := rfl
  rw [quote, braced]
  split <;> simp only [String.length_append, hopen, hclose, hmark] <;> omega

/-- The text of the merged class. -/
def sumText (parts : List String) : String :=
  match parts with
  | [part] => if hasStart part "\"" then "className=" ++ part else assign "className" part
  | parts => assign "className" (" + ".intercalate parts)

theorem length_assign (name code : String) :
    (assign name code).length = name.length + code.length + 3 := by
  have hequals : "=".length = 1 := rfl
  have hopen : "\x7b".length = 1 := rfl
  have hclose : "\x7d".length = 1 := rfl
  simp only [assign, braced, String.length_append, hequals, hopen, hclose]
  omega

/-- The braces around a sum are left out at most. -/
theorem length_sumText {parts : List String} (h : parts ≠ []) :
    sumLength parts + 7 ≤ (sumText parts).length ∧
      (sumText parts).length ≤ sumLength parts + 9 := by
  have hname : "className".length = 9 := rfl
  have hequals : "className=".length = 10 := rfl
  have hsum := length_intercalate h
  unfold sumText
  split
  · next part =>
    have hone : sumLength [part] = part.length + 3 := by simp [sumLength]
    split
    · rw [String.length_append, hequals]
      omega
    · rw [length_assign, hname]
      omega
  · rw [length_assign, hname]
    omega

/-! ## The dynamic class shows -/

/-- The class attribute is the sum of its operands, but for a static class or a dynamic one on its
own. -/
theorem classAttribute_eq (fixed dynamic : Option String) (toggles : List (String × String)) :
    classAttribute fixed toggles dynamic =
      if (fixed.getD "").isEmpty && (dynamic.getD "").isEmpty && toggles.isEmpty then none
      else if (fixed.getD "").isEmpty && toggles.isEmpty then
        some (assign "className" (dynamic.getD ""))
      else if (dynamic.getD "").isEmpty && toggles.isEmpty then
        some ("className=" ++ quote (fixed.getD ""))
      else some (sumText (classOperands (fixed.getD "") (dynamic.getD "") toggles)) := by
  have hsum : ∀ parts : List String, (match parts with
      | [part] =>
        some (if hasStart part "\"" then "className=" ++ part else assign "className" part)
      | parts => some (assign "className" (" + ".intercalate parts))) = some (sumText parts) := by
    intro parts
    unfold sumText
    split <;> rfl
  rw [← hsum]
  rfl

theorem sumLength_append (parts others : List String) :
    sumLength (parts ++ others) = sumLength parts + sumLength others := by
  simp [sumLength]

theorem length_dynamicOperand (isFirst : Bool) (dynamic : String) :
    dynamic.length + 2 ≤ (dynamicOperand isFirst dynamic).length := by
  rw [dynamicOperand]
  split
  · have hopen : "(".length = 1 := rfl
    have hclose : ")".length = 1 := rfl
    simp only [String.length_append, hopen, hclose]
    omega
  · have hopen : "\" \" + (".length = 7 := rfl
    have hclose : ")".length = 1 := rfl
    simp only [String.length_append, hopen, hclose]
    omega

theorem sumLength_toggles_le (toggles : List (String × String)) :
    sumLength (toggleOperands true toggles) ≤ sumLength (toggleOperands false toggles) := by
  cases toggles with
  | nil => exact Nat.le_refl _
  | cons t ts =>
    have hblank : " ".length = 1 := rfl
    have hnone : "".length = 0 := rfl
    have hhead : (toggleOperand true t).length ≤ (toggleOperand false t).length := by
      rw [toggleOperand, toggleOperand]
      by_cases htrue : strip t.2 = "true" <;>
        simp only [htrue, String.length_append, if_true, if_false, Bool.false_eq_true, hblank,
          hnone] <;> omega
    simp only [sumLength, toggleOperands, List.map_cons, List.sum_cons]
    omega

/-- A dynamic class makes the sum longer, by more than braces. -/
theorem sumLength_dynamic {dynamic : String} (h : dynamic ≠ "") (fixed : String)
    (toggles : List (String × String)) :
    sumLength (classOperands fixed "" toggles) + 6 ≤
      sumLength (classOperands fixed dynamic toggles) := by
  have hpos : 1 ≤ dynamic.length := by
    rw [Nat.one_le_iff_ne_zero]
    intro hzero
    exact h (by simpa using hzero)
  have hoperand := length_dynamicOperand fixed.isEmpty dynamic
  have hone : sumLength [dynamicOperand fixed.isEmpty dynamic] =
      (dynamicOperand fixed.isEmpty dynamic).length + 3 := by simp [sumLength]
  have hwith : baseOperands fixed dynamic =
      fixedOperands fixed ++ [dynamicOperand fixed.isEmpty dynamic] := by
    simp [baseOperands, String.isEmpty_eq_false_iff.mpr h]
  have hwithout : baseOperands fixed "" = fixedOperands fixed := by simp [baseOperands]
  have htoggles : sumLength (toggleOperands (fixedOperands fixed).isEmpty toggles) ≤
      sumLength (toggleOperands false toggles) := by
    cases (fixedOperands fixed).isEmpty with
    | true => exact sumLength_toggles_le toggles
    | false => exact Nat.le_refl _
  have hnot : (fixedOperands fixed ++ [dynamicOperand fixed.isEmpty dynamic]).isEmpty = false := by
    simp
  rw [classOperands_eq, classOperands_eq, hwith, hwithout, hnot, sumLength_append,
    sumLength_append, sumLength_append, hone]
  omega

/-- Two sums that differ in one operand at most are equal only if they do not. -/
theorem intercalate_inj_middle {before after : List String} {part other : String}
    (h : " + ".intercalate (before ++ part :: after) =
      " + ".intercalate (before ++ other :: after)) : part = other := by
  induction before with
  | nil =>
    by_cases hafter : after = []
    · simpa [hafter] using h
    · rw [List.nil_append, List.nil_append, String.intercalate_cons_of_ne_nil hafter,
        String.intercalate_cons_of_ne_nil hafter, String.append_left_inj,
        String.append_left_inj] at h
      exact h
  | cons first before ih =>
    rw [List.cons_append, List.cons_append, String.intercalate_cons_of_ne_nil (by simp),
      String.intercalate_cons_of_ne_nil (by simp), String.append_right_inj] at h
    exact ih h

theorem assign_inj {name code code' : String} (h : assign name code = assign name code') :
    code = code' := by
  simpa [assign, braced] using h

/-- Two dynamic classes in sums with more than one operand. -/
theorem sumText_inj {fixed dynamic dynamic' : String} {toggles : List (String × String)}
    (hmore : fixed ≠ "" ∨ toggles ≠ []) (hd : dynamic ≠ "") (hd' : dynamic' ≠ "")
    (h : sumText (classOperands fixed dynamic toggles) =
      sumText (classOperands fixed dynamic' toggles)) : dynamic = dynamic' := by
  have hparts : ∀ d : String, d ≠ "" → classOperands fixed d toggles =
      fixedOperands fixed ++ dynamicOperand fixed.isEmpty d :: toggleOperands false toggles := by
    intro d hne
    have hnonempty : (fixedOperands fixed ++ [dynamicOperand fixed.isEmpty d]).isEmpty = false := by
      simp
    have hbase : baseOperands fixed d =
        fixedOperands fixed ++ [dynamicOperand fixed.isEmpty d] := by
      simp [baseOperands, String.isEmpty_eq_false_iff.mpr hne]
    rw [classOperands_eq, hbase, hnonempty, List.append_assoc, List.singleton_append]
  have hsum : ∀ d : String, d ≠ "" → sumText (classOperands fixed d toggles) =
      assign "className" (" + ".intercalate (fixedOperands fixed ++
        dynamicOperand fixed.isEmpty d :: toggleOperands false toggles)) := by
    intro d hne
    rw [hparts d hne]
    unfold sumText
    split
    · next part hpart =>
      rcases hmore with hfixed | htoggles
      · simp [fixedOperands, String.isEmpty_eq_false_iff.mpr hfixed] at hpart
      · obtain ⟨t, ts, rfl⟩ := List.exists_cons_of_ne_nil htoggles
        have hlength := congrArg List.length hpart
        simp only [toggleOperands, List.length_append, List.length_cons, List.length_map,
          List.length_nil] at hlength
        omega
    · rfl
  rw [hsum dynamic hd, hsum dynamic' hd'] at h
  have hoperand := intercalate_inj_middle (assign_inj h)
  rw [dynamicOperand, dynamicOperand] at hoperand
  split at hoperand <;> simpa using hoperand

/-- With a dynamic class the attribute is longer than without. -/
theorem classAttribute_ne {dynamic : String} (h : dynamic ≠ "") (fixed : String)
    (toggles : List (String × String)) :
    classAttribute (some fixed) toggles (some dynamic) ≠
      classAttribute (some fixed) toggles (some "") := by
  intro heq
  rw [classAttribute_eq, classAttribute_eq] at heq
  have hempty : "".isEmpty = true := rfl
  simp only [Option.getD_some, String.isEmpty_eq_false_iff.mpr h, hempty, Bool.and_false,
    Bool.false_and, Bool.and_true, Bool.true_and, Bool.false_eq_true, if_false] at heq
  by_cases hfixed : fixed = ""
  · by_cases htoggles : toggles = []
    · simp [hfixed, htoggles] at heq
    · obtain ⟨t, ts, rfl⟩ := List.exists_cons_of_ne_nil htoggles
      simp only [List.isEmpty_cons, Bool.and_false, Bool.false_eq_true, if_false,
        Option.some.injEq] at heq
      have hne : ∀ d, classOperands fixed d (t :: ts) ≠ [] := by
        intro d
        rw [classOperands_eq, toggleOperands]
        simp
      have hlong := (length_sumText (hne dynamic)).1
      have hshort := (length_sumText (hne "")).2
      have hsum := sumLength_dynamic h fixed (t :: ts)
      rw [heq] at hlong
      omega
  · have hne : ∀ d, classOperands fixed d toggles ≠ [] := by
      intro d
      rw [classOperands_eq, baseOperands, fixedOperands]
      simp [String.isEmpty_eq_false_iff.mpr hfixed]
    have hlong := (length_sumText (hne dynamic)).1
    have hsum := sumLength_dynamic h fixed toggles
    have hshown : fixed.isEmpty = false := String.isEmpty_eq_false_iff.mpr hfixed
    simp only [hshown, Bool.false_and, Bool.false_eq_true, if_false] at heq
    by_cases htoggles : toggles = []
    · have hequals : "className=".length = 10 := rfl
      have hquote := length_quote_le fixed
      have hone : sumLength (classOperands fixed "" []) = (jsonQuote fixed).length + 3 := by
        simp [classOperands_eq, baseOperands, fixedOperands, hshown, toggleOperands, sumLength]
      simp only [htoggles, List.isEmpty_nil, if_true, Option.some.injEq] at heq hlong hsum
      rw [heq, String.length_append, hequals] at hlong
      omega
    · obtain ⟨t, ts, rfl⟩ := List.exists_cons_of_ne_nil htoggles
      simp only [List.isEmpty_cons, Bool.false_eq_true, if_false, Option.some.injEq] at heq
      have hshort := (length_sumText (hne "")).2
      rw [heq] at hlong
      omega

/-- **The dynamic class shows**: its expression can be read off the class attribute, whatever it is
merged with. -/
theorem classAttribute_inj {fixed dynamic dynamic' : Option String}
    {toggles : List (String × String)}
    (h : classAttribute fixed toggles dynamic = classAttribute fixed toggles dynamic') :
    dynamic.getD "" = dynamic'.getD "" := by
  have hsome : ∀ d : Option String, classAttribute fixed toggles d =
      classAttribute (some (fixed.getD "")) toggles (some (d.getD "")) := fun _ => rfl
  rw [hsome dynamic, hsome dynamic'] at h
  by_cases hd : dynamic.getD "" = ""
  · by_cases hd' : dynamic'.getD "" = ""
    · rw [hd, hd']
    · rw [hd] at h
      exact absurd h.symm (classAttribute_ne hd' _ _)
  · by_cases hd' : dynamic'.getD "" = ""
    · rw [hd'] at h
      exact absurd h (classAttribute_ne hd _ _)
    · rw [classAttribute_eq, classAttribute_eq] at h
      simp only [Option.getD_some, String.isEmpty_eq_false_iff.mpr hd,
        String.isEmpty_eq_false_iff.mpr hd', Bool.and_false, Bool.false_and, Bool.false_eq_true,
        if_false] at h
      by_cases hmore : fixed.getD "" ≠ "" ∨ toggles ≠ []
      · have hnot : ((fixed.getD "").isEmpty && toggles.isEmpty) = false := by
          rcases hmore with hfixed | htoggles
          · rw [String.isEmpty_eq_false_iff.mpr hfixed, Bool.false_and]
          · simp [htoggles]
        rw [hnot] at h
        exact sumText_inj hmore hd hd' (Option.some.inj h)
      · have hboth : ((fixed.getD "").isEmpty && toggles.isEmpty) = true := by simp_all
        rw [hboth] at h
        exact assign_inj (Option.some.inj h)

/-! ## Safe names -/

theorem substituteFrom_blank {s : List Char} (h : ∀ c ∈ s, isBlank c = true)
    (prev : Option Char) : substituteFrom reservedRule prev 0 s = s := by
  induction s generalizing prev with
  | nil => rfl
  | cons c s ih =>
    have hc : c ≠ 'c' := by
      rintro rfl
      exact absurd (h 'c' List.mem_cons_self) (by decide)
    have hrule : reservedRule prev (c :: s) = none := by
      have hname : "class".toList.isPrefixOf (c :: s) = false := by
        simp [List.isPrefixOf, Ne.symm hc]
      rw [reservedRule, hname]
      simp
    rw [substituteFrom, hrule, ih fun d hd => h d (List.mem_cons_of_mem c hd)]

theorem exists_solid_substituteFrom {s : List Char} (h : ∃ c ∈ s, isBlank c = false)
    (prev : Option Char) : ∃ c ∈ substituteFrom reservedRule prev 0 s, isBlank c = false := by
  induction s generalizing prev with
  | nil => simp at h
  | cons c s ih =>
    rw [substituteFrom]
    cases hrule : reservedRule prev (c :: s) with
    | some found =>
      refine ⟨'c', List.mem_append_left _ ?_, by decide⟩
      simp only [reservedRule] at hrule
      split at hrule
      · obtain rfl := Option.some.inj hrule
        decide
      · cases hrule
    | none =>
      by_cases hc : isBlank c = false
      · exact ⟨c, List.mem_cons_self, hc⟩
      · obtain ⟨d, hd, hsolid⟩ := h
        rcases List.mem_cons.mp hd with rfl | hd
        · exact absurd hsolid hc
        · obtain ⟨b, hb, hbsolid⟩ := ih ⟨d, hd, hsolid⟩ (some c)
          exact ⟨b, List.mem_cons_of_mem c hb, hbsolid⟩

/-- A blank expression keeps its text. -/
theorem renameReserved_blank {s : String} (h : isBlankText s = true) : renameReserved s = s := by
  rw [renameReserved, substitute, substituteFrom_blank (List.all_eq_true.mp h),
    String.ofList_toList]

/-- A safe name for `class` makes no expression blank. -/
theorem isBlankText_renameReserved (s : String) :
    isBlankText (renameReserved s) = isBlankText s := by
  by_cases h : isBlankText s = true
  · rw [renameReserved_blank h]
  · have hsolid : ∃ c ∈ s.toList, isBlank c = false := by simpa [isBlankText] using h
    have hnew := exists_solid_substituteFrom hsolid none
    have hnot : isBlankText (renameReserved s) ≠ true := by
      simpa [isBlankText, renameReserved, substitute] using hnew
    rw [Bool.eq_false_iff.mpr h, Bool.eq_false_iff.mpr hnot]

end Trellis.Jsx
