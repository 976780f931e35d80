import Trellis.Proofs.Build.Links

/-!
# Exact accounting of pipes

A module imports the pipes and the runtime functions that its template notes while it is emitted. A
note too few is a call of something that is not there, a note too many an import of something that
nobody uses. The notes are exact: they are those of a reference that reads the tree alone.

* `helper?_eq_some_iff`: a built-in pipe notes the function that its code calls, and only it.
* `transform_pipes`: the pipes of a compiled template are the entries of the registered pipes that
  the calls of its chains name, and its functions those that the code of built-in pipes calls.
-/

namespace Trellis.Jsx

open Trellis.Text
open Trellis.Template
open Trellis.Build
open Trellis.Output

/-! ## What the code of a built-in pipe calls -/

namespace Pipe

/-- The code of a built-in pipe is a call of the function `f` on the value. -/
def BuiltIn.Calls (p : BuiltIn) (args : List String) (f : String) : Prop :=
  ∃ after, ∀ value, p.render value args = f ++ "(" ++ value ++ after

theorem calls_callText (f : String) (args more : List String) {p : BuiltIn}
    (h : ∀ value, p.render value args = callText f value more) : p.Calls args f := by
  cases more with
  | nil =>
    refine ⟨")", fun value => ?_⟩
    rw [h, callText]
    simp [String.intercalate_singleton, String.append_assoc]
  | cons x more =>
    refine ⟨", " ++ ", ".intercalate (x :: more) ++ ")", fun value => ?_⟩
    rw [h, callText]
    simp [String.intercalate_cons_cons, String.append_assoc]

/-- **The function that a built-in pipe needs is the one that its code calls.** -/
theorem helper?_eq_some_iff {p : BuiltIn} {args : List String} {f : String} :
    p.helper? args = some f ↔ f ∈ runtimeHelpers ∧ p.Calls args f := by
  constructor
  · intro h
    refine ⟨helper?_mem h, ?_⟩
    cases p with
    | uppercase | lowercase | json | slice | default => cases h
    | titlecase | async | currency | date | percent =>
      cases h
      exact calls_callText _ _ _ fun _ => rfl
    | number =>
      rw [BuiltIn.helper?] at h
      split at h
      · cases h
      · next hargs =>
        cases h
        exact calls_callText _ _ _ fun value => if_neg hargs
  · rintro ⟨hf, after, hcalls⟩
    have hstart := congrArg String.toList (hcalls "")
    simp only [runtimeHelpers, List.mem_cons, List.not_mem_nil, or_false] at hf
    cases p with
    | number =>
      by_cases hargs : args.isEmpty = true
      · rcases hf with rfl | rfl | rfl | rfl | rfl | rfl <;>
          simp [BuiltIn.render, callText, hargs] at hstart
      · rcases hf with rfl | rfl | rfl | rfl | rfl | rfl <;>
          simp [BuiltIn.render, BuiltIn.helper?, callText, hargs] at hstart ⊢
    | _ =>
      rcases hf with rfl | rfl | rfl | rfl | rfl | rfl <;>
        simp [BuiltIn.render, BuiltIn.helper?, callText] at hstart ⊢

/-- A name in a table is that of one of its rows. -/
theorem ofName?_eq_number {name : String} (h : BuiltIn.ofName? name = some .number) :
    name = "number" := by
  obtain ⟨before, after, hrows, -⟩ := List.lookup_eq_some_iff.mp h
  have hmem : (name, BuiltIn.number) ∈ before ++ (name, BuiltIn.number) :: after := by simp
  rw [← hrows] at hmem
  simpa using hmem

/-- Numbers are formatted only if the call says how. -/
theorem runtime?_eq_formatNumber (c : Call) :
    c.runtime? = some "formatNumber" ↔ c.name = "number" ∧ c.args ≠ [] := by
  constructor
  · intro h
    obtain ⟨p, hp, hhelper⟩ := Option.bind_eq_some_iff.mp h
    cases p with
    | number =>
      refine ⟨ofName?_eq_number hp, ?_⟩
      intro hargs
      rw [hargs] at hhelper
      cases hhelper
    | _ => simp [BuiltIn.helper?] at hhelper
  · rintro ⟨hname, hargs⟩
    rw [Call.runtime?, hname]
    change BuiltIn.helper? .number c.args = _
    rw [BuiltIn.helper?, if_neg (by simpa using hargs)]

/-- A registered pipe has an entry. -/
theorem isSome_of_registered? {registry : Option PipeRegistry} {c : Call} {name : String}
    (h : c.registered? registry = some name) : (registry.bind (·.get? name)).isSome = true := by
  rw [Call.registered?] at h
  split at h
  · cases h
  · obtain ⟨entry, hentry, rfl⟩ := Option.map_eq_some_iff.mp h
    rw [hentry]
    rfl

end Pipe

/-! ## Templates -/

/-- The calls of the pipe chains of a template, in source order. -/
def pipeCalls (d : Document) : List Pipe.Call := d.chains.flatMap Pipe.callsOf

/-- **The pipes and functions of a compiled template are those of its tree**, each once in first-use
order. Every registered pipe that a call names has its entry, the functions are those that the code
of built-in pipes calls, and the module of runtime functions exports them. -/
theorem transform_pipes (env : Environment) (inLayout : Bool) (template : String) :
    let calls := pipeCalls (parseTemplate template).document
    let t := (transform env inLayout template).value
    t.pipes.map some =
        (calls.filterMap (·.registered? env.pipes)).eraseDups.map
          (fun name => env.pipes.bind (·.get? name)) ∧
      t.helpers = (calls.filterMap Pipe.Call.runtime?).eraseDups ∧
      (∀ (c : Pipe.Call) (f : String), c.runtime? = some f ↔
        f ∈ runtimeHelpers ∧ ∃ p, Pipe.BuiltIn.ofName? c.name = some p ∧ p.Calls c.args f) ∧
      (∀ c : Pipe.Call, c.runtime? = some "formatNumber" ↔ c.name = "number" ∧ c.args ≠ []) ∧
      ∀ folder : String, ∀ f ∈ t.helpers, Exports (helpersFile folder) f := by
  refine ⟨?_, helpers_transform_eq env inLayout template, fun c f => ?_,
    Pipe.runtime?_eq_formatNumber, fun folder f hf => ?_⟩
  · rw [pipes_transform_eq]
    refine map_some_lookUpAll fun name hname => ?_
    obtain ⟨c, -, hc⟩ := List.mem_filterMap.mp (List.mem_eraseDups.mp hname)
    exact Pipe.isSome_of_registered? hc
  · constructor
    · intro h
      obtain ⟨p, hp, hhelper⟩ := Option.bind_eq_some_iff.mp h
      obtain ⟨hf, hcalls⟩ := Pipe.helper?_eq_some_iff.mp hhelper
      exact ⟨hf, p, hp, hcalls⟩
    · rintro ⟨hf, p, hp, hcalls⟩
      rw [Pipe.Call.runtime?, hp]
      exact Pipe.helper?_eq_some_iff.mpr ⟨hf, hcalls⟩
  · exact exports_helpersFile folder (helpers_transform env inLayout template hf)

end Trellis.Jsx
