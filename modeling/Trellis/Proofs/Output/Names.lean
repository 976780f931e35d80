import Trellis.Proofs.Output.Members

/-!
# Names of members

The code of a class asks `this` for members that the class may declare several times, or not at
all. A renaming answers every such question with the value of one local, and which local it is can
be said without any condition on the class.

* `serverLocal` and `islandLocal` are the locals behind a member of `this`, for a view that runs on
  the server and for an island; `apply_serverNames` and `apply_islandNames` say that the code of the
  class is written with their values.
* `name_serverLocal` and `name_islandLocal`: but for services, a local has the name of its member,
  unless it is that of an input, which may not be a reserved word.
-/

namespace Trellis.Table

variable {β : Type}

/-- Rows that come later are asked first. -/
theorem get?_ofList_append (rows more : List (String × β)) (k : String) :
    (ofList (rows ++ more)).get? k = ((ofList more).get? k).or ((ofList rows).get? k) := by
  rw [get?_ofList, get?_ofList, get?_ofList, List.filter_append, List.getLast?_append,
    Option.map_or]

/-- Rows whose values are made from their names. -/
theorem get?_ofList_map {α : Type} (as : List α) (name : α → String) (value : String → β)
    (k : String) :
    (ofList (as.map fun a => (name a, value (name a)))).get? k =
      if k ∈ as.map name then some (value k) else none := by
  induction as using List.reverseRecOn with
  | nil => rfl
  | append_singleton as a ih =>
    rw [List.map_append, List.map_singleton, ofList_snoc, get?_put, ih]
    by_cases hk : k = name a
    · simp [hk]
    · simp [hk]

end Trellis.Table

namespace Trellis.Output

open Trellis.Jsx
open Trellis.Project
open Trellis.TypeScript

/-! ## Locals behind members -/

/-- The service that a member holds. -/
def service? (c : ClassModel) (member : String) : Option Dependency :=
  (c.dependencies.filter (·.name == member)).getLast?

theorem get?_services (c : ClassModel) (member : String) :
    (Table.ofList (c.dependencies.map serviceRow)).get? member =
      (service? c member).map fun d => Naming.serviceVariable d.type := by
  rw [Table.get?_ofList, List.filter_map, List.getLast?_map, Option.map_map]
  rfl

/-- The names of the fields that are inputs. -/
def inputNames (c : ClassModel) : List String := (inputsOf (some c)).map (·.property)

/-- The names that the code of a class is written with on the server. -/
def serverNames (c : ClassModel) : Renaming := serverRenaming (inputsOf (some c)) c.dependencies

/-- The local behind a member, for a view that runs on the server. -/
def serverLocal (c : ClassModel) (member : String) : Local :=
  match service? c member with
  | some d => ⟨Naming.serviceVariable d.type, .plain⟩
  | none =>
    if member ∈ inputNames c then ⟨Naming.safeVariable member, .plain⟩ else ⟨member, .plain⟩

/-- The local behind a member, for an island. -/
def islandLocal (c : ClassModel) (t : Transformed) (member : String) : Local :=
  match service? c member with
  | some d => ⟨Naming.serviceVariable d.type, .plain⟩
  | none =>
    if member ∈ c.methods.map (·.name) then ⟨member, .plain⟩
    else if member ∈ c.getters.map (·.name) then ⟨member, .signal⟩
    else if member ∈ c.state.map (·.name) then ⟨member, .signal⟩
    else if member ∈ t.refs then ⟨member, .element⟩
    else if member ∈ inputNames c then
      ⟨Naming.safeVariable member,
        if member ∈ (assignedInputs c (inputsOf (some c))).map (·.property) then .signal
        else .plain⟩
    else ⟨member, .plain⟩

theorem value_plain (name : String) : Local.value ⟨name, .plain⟩ = name := String.append_empty

/-- The question goes on if a row does not answer it. -/
theorem getD_or_row {p : Prop} [Decidable p] (value default : String) (rest : Option String) :
    ((if p then some value else none).or rest).getD default =
      if p then value else rest.getD default := by
  split <;> rfl

/-- **On the server** the code of a class is written with the values of its locals. -/
theorem apply_serverNames (c : ClassModel) (member : String) :
    (serverNames c).apply member = (serverLocal c member).value := by
  have hinputs :
      (Table.ofList ((inputsOf (some c)).map fun i => (i.property, i.variableName))).get? member =
        if member ∈ inputNames c then some (Naming.safeVariable member) else none :=
    Table.get?_ofList_map (inputsOf (some c)) (·.property) Naming.safeVariable member
  rw [serverNames, serverRenaming, Renaming.apply, Table.get?_ofList_append, get?_services, hinputs,
    serverLocal]
  cases service? c member with
  | some d => exact (value_plain _).symm
  | none =>
    by_cases hinput : member ∈ inputNames c
    · simp only [if_pos hinput, value_plain]
      rfl
    · simp only [if_neg hinput, value_plain]
      rfl

/-- **In an island** the code of a class is written with the values of its locals. -/
theorem apply_islandNames (c : ClassModel) (t : Transformed) (member : String) :
    (islandNames c t).apply member = (islandLocal c t member).value := by
  have hassigned : (assignedInputs c (inputsOf (some c))).any (·.property == member) = true ↔
      member ∈ (assignedInputs c (inputsOf (some c))).map (·.property) := by
    simp only [List.any_eq_true, beq_iff_eq, List.mem_map]
  have hinputs : (Table.ofList ((inputsOf (some c)).map fun i => (i.property,
      if (assignedInputs c (inputsOf (some c))).any (·.property == i.property) then
        valueOf i.variableName else i.variableName))).get? member =
      if member ∈ inputNames c then
        some (if (assignedInputs c (inputsOf (some c))).any (·.property == member) then
          valueOf (Naming.safeVariable member) else Naming.safeVariable member)
      else none :=
    Table.get?_ofList_map (inputsOf (some c)) (·.property) (fun n =>
      if (assignedInputs c (inputsOf (some c))).any (·.property == n) then
        valueOf (Naming.safeVariable n) else Naming.safeVariable n) member
  have hrefs := Table.get?_ofList_map t.refs (fun r => r) (· ++ ".current") member
  have hstate := Table.get?_ofList_map c.state (·.name) valueOf member
  have hgetters := Table.get?_ofList_map c.getters (·.name) valueOf member
  have hmethods := Table.get?_ofList_map c.methods (·.name) (fun n => n) member
  rw [islandNames, islandRenaming, Renaming.apply, islandLocal]
  simp only [Table.get?_ofList_append, get?_services, hstate, hgetters, hmethods, hrefs,
    hinputs, hassigned, List.map_id']
  cases service? c member with
  | some d => exact (value_plain _).symm
  | none =>
    simp only [Option.map_none, Option.none_or, getD_or_row]
    -- The rows are asked from the last one on, as `islandLocal` does.
    by_cases hmethod : member ∈ c.methods.map (·.name)
    · simp only [if_pos hmethod, value_plain]
    by_cases hgetter : member ∈ c.getters.map (·.name)
    · simp only [if_neg hmethod, if_pos hgetter]
      rfl
    by_cases hfield : member ∈ c.state.map (·.name)
    · simp only [if_neg hmethod, if_neg hgetter, if_pos hfield]
      rfl
    by_cases href : member ∈ t.refs
    · simp only [if_neg hmethod, if_neg hgetter, if_neg hfield, if_pos href]
      rfl
    simp only [if_neg hmethod, if_neg hgetter, if_neg hfield, if_neg href]
    by_cases hinput : member ∈ inputNames c
    · simp only [if_pos hinput, Option.getD_some]
      split
      · rfl
      · exact (value_plain _).symm
    · simp only [if_neg hinput, value_plain]
      rfl

/-! ## Names of the locals -/

/-- The names that are no inputs in an island, although an input may have them too. -/
def hidingNames (c : ClassModel) (t : Transformed) : List String :=
  c.methods.map (·.name) ++ c.getters.map (·.name) ++ c.state.map (·.name) ++ t.refs

section

variable {c : ClassModel} {t : Transformed} {member : String}

theorem name_serverLocal (h : service? c member = none) :
    (serverLocal c member).name =
      if member ∈ inputNames c then Naming.safeVariable member else member := by
  simp only [serverLocal, h]
  split
  · rfl
  · rfl

theorem name_islandLocal (h : service? c member = none) :
    (islandLocal c t member).name =
      if member ∈ inputNames c ∧ member ∉ hidingNames c t then Naming.safeVariable member
      else member := by
  have hhiding : member ∈ hidingNames c t ↔ ((member ∈ c.methods.map (·.name) ∨
      member ∈ c.getters.map (·.name)) ∨ member ∈ c.state.map (·.name)) ∨ member ∈ t.refs := by
    simp only [hidingNames, List.mem_append]
  simp only [islandLocal, h]
  split
  · next hmethod =>
    rw [if_neg fun hinput => hinput.2 (hhiding.mpr (.inl (.inl (.inl hmethod))))]
  split
  · next hgetter =>
    rw [if_neg fun hinput => hinput.2 (hhiding.mpr (.inl (.inl (.inr hgetter))))]
  split
  · next hfield =>
    rw [if_neg fun hinput => hinput.2 (hhiding.mpr (.inl (.inr hfield)))]
  split
  · next href =>
    rw [if_neg fun hinput => hinput.2 (hhiding.mpr (.inr href))]
  next hmethod hgetter hfield href =>
  have hfree : member ∉ hidingNames c t := by
    rw [hhiding]
    rintro (((h | h) | h) | h)
    · exact hmethod h
    · exact hgetter h
    · exact hfield h
    · exact href h
  by_cases hinput : member ∈ inputNames c
  · have hboth : member ∈ inputNames c ∧ member ∉ hidingNames c t := ⟨hinput, hfree⟩
    rw [if_pos hinput, if_pos hboth]
  · rw [if_neg hinput, if_neg fun hboth => hinput hboth.1]

end

end Trellis.Output
