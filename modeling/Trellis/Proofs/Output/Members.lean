import Trellis.Proofs.Output.Locals
import Trellis.Proofs.Registry

/-!
# Members of an island

The code of a class reads its members through `this`; the function of an island has locals instead,
and a renaming says which local is read for which member. The renaming is filled from the inputs of
the class, the references of its template, and the other members of the class, and of rows with one
name the last one counts.

* `Member` is what `this` can be asked for, with the local behind it; `target_mem_islandLocals`:
  there always is one.
* `apply_classMember`: fields, getters, methods and services are read as they were set up.
* `apply_inputMember_iff`, `apply_elementMember_iff`: inputs and references are, exactly if no later
  row has their name.
-/

namespace Trellis.Output

open Trellis.Build
open Trellis.Jsx
open Trellis.Project
open Trellis.Text
open Trellis.TypeScript

/-! ## Names of a class -/

/-- The names of the members of a class. -/
def memberNames (c : ClassModel) : List String :=
  c.properties.map (·.name) ++ c.getters.map (·.name) ++ c.methods.map (·.name) ++
    c.dependencies.map (·.name)

/-- The names of the members without the fields that have decorators. -/
def ownNames (c : ClassModel) : List String :=
  c.state.map (·.name) ++ c.getters.map (·.name) ++ c.methods.map (·.name) ++
    c.dependencies.map (·.name)

/-- An input has the name of its field, which has a decorator. -/
theorem map_property_inputs (c : ClassModel) :
    (inputsOf (some c)).map (·.property) =
      (c.properties.filter fun p => (findDecorator "Input" p.decorators).isSome).map (·.name) := by
  change (c.properties.filterMap inputOf?).map (·.property) = _
  rw [List.map_filterMap, ← List.filterMap_eq_map, List.filterMap_filter]
  refine List.filterMap_congr fun p _ => ?_
  rw [inputOf?]
  cases findDecorator "Input" p.decorators <;> rfl

/-- Fields are inputs or state, not both. -/
theorem nodup_inputs_ownNames {c : ClassModel} (h : (memberNames c).Nodup) :
    ((inputsOf (some c)).map (·.property) ++ ownNames c).Nodup := by
  have hinputs : ((inputsOf (some c)).map (·.property)).Sublist
      ((c.properties.filter fun p => !p.decorators.isEmpty).map (·.name)) := by
    rw [map_property_inputs]
    refine (List.monotone_filter_right c.properties fun p hp => ?_).map _
    cases hdecorators : p.decorators with
    | nil =>
      rw [hdecorators] at hp
      cases hp
    | cons d ds => rfl
  have hfields : ((c.properties.filter fun p => !p.decorators.isEmpty).map (·.name) ++
      c.state.map (·.name)).Perm (c.properties.map (·.name)) := by
    rw [← List.map_append]
    exact (List.perm_append_comm.trans (List.filter_append_perm _ _)).map _
  have hall : ((c.properties.filter fun p => !p.decorators.isEmpty).map (·.name) ++
      ownNames c).Nodup := by
    rw [memberNames, List.append_assoc, List.append_assoc] at h
    rw [ownNames, List.append_assoc, List.append_assoc, ← List.append_assoc]
    exact (hfields.append_right _).nodup_iff.mpr h
  exact hall.sublist (hinputs.append_right _)

/-! ## Members of `this` -/

/-- What `this` can be asked for, and the local behind it. -/
structure Member where
  name : String
  target : Local
  deriving DecidableEq, Repr

/-- How the value of a local is read. -/
def Local.value (l : Local) : String := l.name ++ l.hook.accessor

/-- The inputs of a class: those that are written are signals. -/
def inputMembers (c : ClassModel) : List Member :=
  (inputsOf (some c)).map fun i => ⟨i.property, i.variableName,
    if (assignedInputs c (inputsOf (some c))).contains i then .signal else .plain⟩

/-- The elements that a template has references to. -/
def elementMembers (t : Transformed) : List Member := t.refs.map fun r => ⟨r, r, .element⟩

/-- The fields, getters, methods and services of a class. -/
def classMembers (c : ClassModel) : List Member :=
  c.state.map (fun p => ⟨p.name, p.name, .signal⟩) ++
    c.getters.map (fun g => ⟨g.name, g.name, .signal⟩) ++
    (c.methods.filter (!·.isLifecycle)).map (fun m => ⟨m.name, m.name, .plain⟩) ++
    c.dependencies.map (fun d => ⟨d.name, Naming.serviceVariable d.type, .plain⟩)

/-- All of them. -/
def islandMembers (c : ClassModel) (t : Transformed) : List Member :=
  inputMembers c ++ elementMembers t ++ classMembers c

/-- The names that the code of a class is written with. -/
def islandNames (c : ClassModel) (t : Transformed) : Renaming :=
  islandRenaming c (inputsOf (some c)) (assignedInputs c (inputsOf (some c))) t.refs

/-- There is a local behind every member. -/
theorem target_mem_islandLocals {c : ClassModel} {t : Transformed} {m : Member}
    (h : m ∈ islandMembers c t) : m.target ∈ islandLocals c t := by
  simp only [islandMembers, inputMembers, elementMembers, classMembers, List.mem_append,
    List.mem_map] at h
  simp only [islandLocals, islandSetup, islandMethods, List.mem_append, List.mem_map]
  rcases h with (⟨i, hi, rfl⟩ | ⟨r, hr, rfl⟩) | ((⟨p, hp, rfl⟩ | ⟨g, hg, rfl⟩) | ⟨f, hf, rfl⟩) |
    ⟨d, hd, rfl⟩
  · by_cases hsignal : (assignedInputs c (inputsOf (some c))).contains i = true
    · rw [if_pos hsignal]
      exact .inl (.inl (.inr ⟨i, List.contains_iff_mem.mp hsignal, rfl⟩))
    · rw [if_neg hsignal]
      refine .inl (.inl (.inl (.inl (.inl (.inl (.inr ⟨i, ?_, rfl⟩))))))
      exact List.mem_filter.mpr ⟨hi, by simpa using hsignal⟩
  · exact .inl (.inl (.inl (.inl (.inr ⟨r, hr, rfl⟩))))
  · exact .inl (.inl (.inl (.inr ⟨p, hp, rfl⟩)))
  · exact .inl (.inr ⟨g, hg, rfl⟩)
  · exact .inr ⟨f, hf, rfl⟩
  · exact .inl (.inl (.inl (.inl (.inl (.inl (.inl ⟨d, hd, rfl⟩))))))

/-! ## Names in the code of the class -/

/-- The rows of a renaming that come from these members. -/
def ownRows (c : ClassModel) : List (String × String) :=
  c.state.map (fun p => (p.name, valueOf p.name)) ++
    c.getters.map (fun g => (g.name, valueOf g.name)) ++
    c.methods.map (fun m => (m.name, m.name)) ++ c.dependencies.map serviceRow

theorem keys_ownRows (c : ClassModel) : (ownRows c).map (·.1) = ownNames c := by
  simp only [ownRows, ownNames, List.map_append, List.map_map]
  rfl

/-- The row of a renaming that reads a member as its local was set up. -/
def Member.row (m : Member) : String × String := (m.name, m.target.value)

theorem keys_inputMembers (c : ClassModel) :
    ((inputMembers c).map Member.row).map (·.1) = (inputsOf (some c)).map (·.property) := by
  rw [inputMembers, List.map_map, List.map_map]
  rfl

theorem keys_elementMembers (t : Transformed) :
    ((elementMembers t).map Member.row).map (·.1) = t.refs := by
  rw [elementMembers, List.map_map, List.map_map]
  exact List.map_id t.refs

/-- An input is a signal if any input of its name is written. -/
theorem any_assignedInputs {c : ClassModel} {inputs : List Input} {i : Input} (h : i ∈ inputs) :
    (assignedInputs c inputs).any (·.property == i.property) =
      (assignedInputs c inputs).contains i := by
  rw [Bool.eq_iff_iff, List.any_eq_true, List.contains_iff_mem]
  constructor
  · rintro ⟨j, hj, hproperty⟩
    rw [assignedInputs, List.mem_filter] at hj ⊢
    exact ⟨h, beq_iff_eq.mp hproperty ▸ hj.2⟩
  · exact fun hi => ⟨i, hi, beq_self_eq_true _⟩

theorem islandNames_eq (c : ClassModel) (t : Transformed) :
    islandNames c t = Table.ofList ((inputMembers c).map Member.row ++
      (elementMembers t).map Member.row ++ ownRows c) := by
  have hinputs : ((inputsOf (some c)).map fun i => (i.property,
      if (assignedInputs c (inputsOf (some c))).any (·.property == i.property) then
        valueOf i.variableName else i.variableName)) = (inputMembers c).map Member.row := by
    rw [inputMembers, List.map_map]
    refine List.map_congr_left fun i hi => ?_
    rw [any_assignedInputs hi, Function.comp_apply, Member.row]
    split
    · rfl
    · exact congrArg (Prod.mk _) String.append_empty.symm
  have helements : t.refs.map (fun r => (r, r ++ ".current")) =
      (elementMembers t).map Member.row := by
    rw [elementMembers, List.map_map]
    rfl
  rw [islandNames, islandRenaming]
  simp only [hinputs, helements, ownRows, List.append_assoc]

section

variable {c : ClassModel} {t : Transformed} {m : Member}

theorem apply_of_get? {r : Renaming} {member generated : String}
    (h : r.get? member = some generated) : r.apply member = generated := by
  rw [Renaming.apply, h, Option.getD_some]

theorem row_mem_ownRows (h : m ∈ classMembers c) : m.row ∈ ownRows c := by
  simp only [classMembers, List.mem_append, List.mem_map] at h
  simp only [ownRows, List.mem_append, List.mem_map]
  rcases h with ((⟨p, hp, rfl⟩ | ⟨g, hg, rfl⟩) | ⟨f, hf, rfl⟩) | ⟨d, hd, rfl⟩
  · exact .inl (.inl (.inl ⟨p, hp, rfl⟩))
  · exact .inl (.inl (.inr ⟨g, hg, rfl⟩))
  · exact .inl (.inr ⟨f, (List.mem_filter.mp hf).1, congrArg _ String.append_empty.symm⟩)
  · exact .inr ⟨d, hd, congrArg _ String.append_empty.symm⟩

theorem length_safeVariable (name : String) :
    (Naming.safeVariable name).length = name.length + 4 ∨
      (Naming.safeVariable name).length = name.length + 1 ∨
      (Naming.safeVariable name).length = name.length := by
  rw [Naming.safeVariable]
  split
  · next hclass =>
    subst hclass
    exact .inl rfl
  · split
    · rw [String.length_append, Nat.add_comm]
      exact .inr (.inl rfl)
    · exact .inr (.inr rfl)

/-- What an element is read through is not how an input of its name is read, not even one whose name
is reserved. -/
theorem current_ne_value (name : String) (written : Bool) :
    name ++ ".current" ≠
      Local.value ⟨Naming.safeVariable name, if written then .signal else .plain⟩ := by
  intro h
  have hlength := congrArg String.length h
  have hcurrent : ".current".length = 8 := rfl
  have hsignal : Hook.signal.accessor.length = 6 := rfl
  have hplain : Hook.plain.accessor.length = 0 := rfl
  have hname := length_safeVariable name
  cases written with
  | true =>
    simp only [Local.value, String.length_append, if_true, hcurrent, hsignal] at hlength
    omega
  | false =>
    simp only [Local.value, String.length_append, Bool.false_eq_true, if_false, hcurrent, hplain]
      at hlength
    omega

/-- These members hide all others of their names. -/
theorem apply_ownRow (hmembers : (memberNames c).Nodup) {row : String × String}
    (h : row ∈ ownRows c) : (islandNames c t).apply row.1 = row.2 := by
  have hkeys : ((ownRows c).map (·.1)).Nodup := by
    rw [keys_ownRows]
    exact (List.nodup_append.mp (nodup_inputs_ownNames hmembers)).2.1
  rw [islandNames_eq]
  exact apply_of_get? (Table.get?_ofList_append_of_mem _ hkeys h)

/-- Fields, getters, methods and services are always read as they were set up. -/
theorem apply_classMember (hmembers : (memberNames c).Nodup) (h : m ∈ classMembers c) :
    (islandNames c t).apply m.name = m.target.value :=
  apply_ownRow hmembers (row_mem_ownRows h)

theorem apply_element (hrefs : t.refs.Nodup) {r : String} (hr : r ∈ t.refs) (h : r ∉ ownNames c) :
    (islandNames c t).apply r = r ++ ".current" := by
  have hkeys : (((elementMembers t).map Member.row).map (·.1)).Nodup := by
    rw [keys_elementMembers]
    exact hrefs
  have hrow : (r, r ++ ".current") ∈ (elementMembers t).map Member.row :=
    List.mem_map_of_mem (List.mem_map_of_mem hr)
  rw [← keys_ownRows] at h
  rw [islandNames_eq]
  apply apply_of_get?
  rw [Table.get?_ofList_append_of_not_mem _ h]
  exact Table.get?_ofList_append_of_mem _ hkeys hrow

/-- An element whose name no service has is read through its reference exactly if the class has no
member of the name at all. -/
theorem apply_elementMember_iff (hmembers : (memberNames c).Nodup) (hrefs : t.refs.Nodup)
    (h : m ∈ elementMembers t) (hservice : m.name ∉ c.dependencies.map (·.name)) :
    (islandNames c t).apply m.name = m.target.value ↔ m.name ∉ ownNames c := by
  obtain ⟨r, hr, rfl⟩ := List.mem_map.mp h
  refine ⟨fun happly hown => ?_, apply_element hrefs hr⟩
  -- The member of that name is a signal or a method, and its value is another one.
  have hrow : (r, valueOf r) ∈ ownRows c ∨ (r, r) ∈ ownRows c := by
    simp only [ownNames, ownRows, List.mem_append, List.mem_map] at hown hservice ⊢
    rcases hown with ((⟨p, hp, rfl⟩ | ⟨g, hg, rfl⟩) | ⟨f, hf, rfl⟩) | hd
    · exact .inl (.inl (.inl (.inl ⟨p, hp, rfl⟩)))
    · exact .inl (.inl (.inl (.inr ⟨g, hg, rfl⟩)))
    · exact .inr (.inl (.inr ⟨f, hf, rfl⟩))
    · exact absurd hd hservice
  have hcurrent : (islandNames c t).apply r = r ++ ".current" := happly
  rcases hrow with hrow | hrow
  · have hvalue : (islandNames c t).apply r = valueOf r := apply_ownRow hmembers hrow
    simp [hvalue, valueOf] at hcurrent
  · have hself : (islandNames c t).apply r = r := apply_ownRow hmembers hrow
    exact absurd (hcurrent.symm.trans hself) (by simp)

/-- An input is read as it was set up exactly if it is not also a reference. -/
theorem apply_inputMember_iff (hmembers : (memberNames c).Nodup) (hrefs : t.refs.Nodup)
    (h : m ∈ inputMembers c) :
    (islandNames c t).apply m.name = m.target.value ↔ m.name ∉ t.refs := by
  obtain ⟨hinputs, -, hdisjoint⟩ := List.nodup_append.mp (nodup_inputs_ownNames hmembers)
  have hown : m.name ∉ ownNames c := by
    intro hmem
    have hinput : m.name ∈ ((inputMembers c).map Member.row).map (·.1) :=
      List.mem_map_of_mem (List.mem_map_of_mem h)
    rw [keys_inputMembers] at hinput
    exact hdisjoint _ hinput _ hmem rfl
  constructor
  · intro happly href
    rw [apply_element hrefs href hown] at happly
    obtain ⟨i, -, rfl⟩ := List.mem_map.mp h
    exact current_ne_value i.property _ happly
  · intro hfree
    rw [← keys_ownRows] at hown
    rw [← keys_elementMembers] at hfree
    rw [← keys_inputMembers] at hinputs
    rw [islandNames_eq]
    apply apply_of_get?
    rw [Table.get?_ofList_append_of_not_mem _ hown, Table.get?_ofList_append_of_not_mem _ hfree]
    exact Table.get?_ofList_append_of_mem [] hinputs (List.mem_map_of_mem h)

end

end Trellis.Output
