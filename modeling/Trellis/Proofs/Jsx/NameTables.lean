import Mathlib.Data.List.Nodup
import Trellis.Jsx.Attribute
import Trellis.Proofs.Jsx.Keys

/-!
# The tables of names

An attribute of HTML is spelt as JSX has it, and an event becomes the name of its handler. Both go
by a table in which the case of the name does not count, and treat other names by a rule.

* `attributeName_eq_iff`: two names are written as one exactly if they are the same or `Spells` of
  one row of the table.
* `IsSmall` are names as HTML has them. `SameAttribute.eq_of_small` and `eventName_inj`: they are
  written as different attributes, and have different handlers.
-/

namespace Trellis.Jsx

open Trellis.Text

/-! ## Spellings -/

/-- The name is written as the attribute of the row: in any case as HTML has it, or as it is. -/
def Spells (row : String × String) (name : String) : Prop := lower name = row.1 ∨ name = row.2

/-- The names are spellings of one attribute. -/
def SameAttribute (m n : String) : Prop := ∃ row ∈ attributeNames, Spells row m ∧ Spells row n

theorem attributeName_of_spells {row : String × String} (hrow : row ∈ attributeNames)
    {name : String} (h : Spells row name) : attributeName name = row.2 := by
  have hkeys : ∀ row ∈ attributeNames, attributeNames.lookup row.1 = some row.2 := by
    decide +kernel
  have hvalues : ∀ row ∈ attributeNames, attributeName row.2 = row.2 := by decide +kernel
  rcases h with h | h
  · rw [attributeName, h, hkeys row hrow, Option.getD_some]
  · rw [h, hvalues row hrow]

/-- A name is written as the attribute of some row, or as it is. -/
theorem spells_or_self (name : String) :
    (∃ row ∈ attributeNames, Spells row name ∧ attributeName name = row.2) ∨
      attributeName name = name := by
  rw [attributeName]
  cases h : attributeNames.lookup (lower name) with
  | none => exact .inr rfl
  | some value =>
    obtain ⟨before, after, hrows, -⟩ := List.lookup_eq_some_iff.mp h
    exact .inl ⟨(lower name, value), hrows ▸ List.mem_append_cons_self, .inl rfl, rfl⟩

/-- **Two names are written as one** exactly if they are the same, or spellings of one attribute. -/
theorem attributeName_eq_iff {m n : String} :
    attributeName m = attributeName n ↔ m = n ∨ SameAttribute m n := by
  have hvalues : (attributeNames.map Prod.snd).Nodup := by decide +kernel
  refine ⟨fun h => ?_, ?_⟩
  · rcases spells_or_self m with ⟨row, hrow, hm, hvalue⟩ | hm <;>
      rcases spells_or_self n with ⟨row', hrow', hn, hvalue'⟩ | hn
    · have hsame : row = row' := List.inj_on_of_nodup_map hvalues hrow hrow'
        (hvalue.symm.trans (h.trans hvalue'))
      exact .inr ⟨row, hrow, hm, hsame ▸ hn⟩
    · exact .inr ⟨row, hrow, hm, .inr (hn.symm.trans (h.symm.trans hvalue))⟩
    · exact .inr ⟨row', hrow', .inr (hm.symm.trans (h.trans hvalue')), hn⟩
    · exact .inl (hm.symm.trans (h.trans hn))
  · rintro (rfl | ⟨row, hrow, hm, hn⟩)
    · rfl
    · rw [attributeName_of_spells hrow hm, attributeName_of_spells hrow hn]

theorem isEmpty_attributeName (name : String) : (attributeName name).isEmpty = name.isEmpty := by
  have hrows : ∀ row ∈ attributeNames, row.1.isEmpty = false ∧ row.2.isEmpty = false := by decide
  rcases spells_or_self name with ⟨row, hrow, hspells, hvalue⟩ | hself
  · have hname : name ≠ "" := by
      rintro rfl
      rcases hspells with hspells | hspells
      · simpa [← hspells, lower] using (hrows row hrow).1
      · simpa [← hspells] using (hrows row hrow).2
    rw [hvalue, (hrows row hrow).2, Bool.eq_false_iff.mpr (mt String.isEmpty_iff.mp hname)]
  · rw [hself]

/-- A name as HTML has it: ASCII without capitals. -/
def IsSmall (name : String) : Prop := ∀ c ∈ name.toList, c.toNat < 128 ∧ c.isUpper = false

instance (name : String) : Decidable (IsSmall name) :=
  List.decidableBAll (fun c : Char => c.toNat < 128 ∧ c.isUpper = false) name.toList

theorem lowerOf_ascii {c : Char} (h : c.toNat < 128) : lowerOf c = [c.toLower] := by
  rw [lowerOf, if_pos h]

theorem lowerOf_small {c : Char} (h : c.toNat < 128) (hc : c.isUpper = false) :
    lowerOf c = [c] := by
  rw [lowerOf_ascii h, toLower_of_not_isUpper hc]

theorem flatMap_lowerOf {cs : List Char} (h : ∀ c ∈ cs, c.toNat < 128 ∧ c.isUpper = false) :
    cs.flatMap lowerOf = cs := by
  induction cs with
  | nil => rfl
  | cons c cs ih =>
    obtain ⟨hc, hcs⟩ := List.forall_mem_cons.mp h
    rw [List.flatMap_cons, lowerOf_small hc.1 hc.2, ih hcs, List.singleton_append]

theorem IsSmall.lower_eq {name : String} (h : IsSmall name) : lower name = name := by
  rw [lower, flatMap_lowerOf h, String.ofList_toList]

/-- A small name is a spelling only as HTML has it. -/
theorem IsSmall.eq_of_spells {name : String} (h : IsSmall name) {row : String × String}
    (hrow : row ∈ attributeNames) (hspells : Spells row name) : name = row.1 := by
  have hcapital : ∀ row ∈ attributeNames, row.2.toList.any Char.isUpper = true := by
    decide +kernel
  rcases hspells with hspells | rfl
  · rwa [h.lower_eq] at hspells
  · obtain ⟨c, hc, hupper⟩ := List.any_eq_true.mp (hcapital row hrow)
    rw [(h c hc).2] at hupper
    cases hupper

/-- Small names that are written as one are the same. -/
theorem SameAttribute.eq_of_small {m n : String} (h : SameAttribute m n) (hm : IsSmall m)
    (hn : IsSmall n) : m = n := by
  obtain ⟨row, hrow, hspells, hspells'⟩ := h
  rw [hm.eq_of_spells hrow hspells, hn.eq_of_spells hrow hspells']

/-! ## Events -/

theorem eventName_start (name : String) : ∃ event, eventName name = "on" ++ event := by
  have hvalues : ∀ row ∈ eventNames, row.2 = "on" ++ String.ofList (row.2.toList.drop 2) := by
    decide +kernel
  rw [eventName]
  cases h : eventNames.lookup (lower name) with
  | none => exact ⟨_, rfl⟩
  | some value =>
    obtain ⟨before, after, hrows, -⟩ := List.lookup_eq_some_iff.mp h
    exact ⟨_, hvalues (lower name, value) (hrows ▸ List.mem_append_cons_self)⟩

theorem toNat_toUpper_lt {c : Char} (h : c.toNat < 128) : c.toUpper.toNat < 128 := by
  cases hc : c.isLower with
  | true => exact toNat_lt_of_isUpper (isUpper_toUpper hc)
  | false => rwa [toUpper_of_not_isLower hc]

theorem IsSmall.lower_upperFirst {name : String} (h : IsSmall name) :
    lower (upperFirst name) = name := by
  rw [upperFirst]
  cases hname : name.toList with
  | nil => exact (String.toList_eq_nil_iff.mp hname).symm
  | cons c cs =>
    have hchars : ∀ d ∈ c :: cs, d.toNat < 128 ∧ d.isUpper = false := by rwa [IsSmall, hname] at h
    obtain ⟨⟨hascii, hc⟩, hcs⟩ := List.forall_mem_cons.mp hchars
    dsimp only
    rw [upperOf, if_pos hascii, lower, String.toList_ofList, List.singleton_append,
      List.flatMap_cons, lowerOf_ascii (toNat_toUpper_lt hascii), toLower_toUpper hc,
      flatMap_lowerOf hcs, List.singleton_append, ← hname, String.ofList_toList]

/-- A small event can be read off its handler. -/
theorem IsSmall.lower_eventName {name : String} (h : IsSmall name) :
    lower (String.ofList ((eventName name).toList.drop 2)) = name := by
  have hvalues : ∀ row ∈ eventNames, lower (String.ofList (row.2.toList.drop 2)) = row.1 := by
    decide +kernel
  rw [eventName]
  cases hrow : eventNames.lookup (lower name) with
  | none =>
    have hdrop : ("on" ++ upperFirst name).toList.drop 2 = (upperFirst name).toList := by
      rw [String.toList_append]
      rfl
    rw [Option.getD_none, hdrop, String.ofList_toList, h.lower_upperFirst]
  | some value =>
    obtain ⟨before, after, hrows, -⟩ := List.lookup_eq_some_iff.mp hrow
    rw [Option.getD_some, hvalues (lower name, value) (hrows ▸ List.mem_append_cons_self),
      h.lower_eq]

/-- **Small events have different handlers.** -/
theorem eventName_inj {m n : String} (hm : IsSmall m) (hn : IsSmall n)
    (h : eventName m = eventName n) : m = n := by
  rw [← hm.lower_eventName, h, hn.lower_eventName]

/-- No attribute is respelt to the name of a handler. -/
theorem attributeName_of_on {name event : String} (h : attributeName name = "on" ++ event) :
    attributeName name = name := by
  have hvalues : ∀ row ∈ attributeNames, row.2.toList.take 2 ≠ ['o', 'n'] := by decide +kernel
  rcases spells_or_self name with ⟨row, hrow, -, hvalue⟩ | hself
  · refine absurd ?_ (hvalues row hrow)
    rw [← hvalue, h, String.toList_append]
    rfl
  · exact hself

end Trellis.Jsx
