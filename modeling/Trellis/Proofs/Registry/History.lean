import Trellis.Proofs.Jsx.Chains
import Trellis.Proofs.Registry

/-!
# Histories of registries

A registry is worked with by calls: classes are registered, the registry is frozen, entries are
asked for. This module says what any sequence of calls makes of an empty registry.

* `Table.ordered` is a table without a history: each name once, in the order of its first row, with
  its last row. `rows_ofList`: putting rows into a table, one after the other, gives it.
* `after` is the registry after calls, `accepted` are the classes registered before it was frozen.
* `after_eq`: the registry is the table of the accepted classes, and is frozen by the first freeze.
* `registry_calls` states this of both kinds of registries, with what their entries say, and what
  an attribute of a template looks up.
-/

namespace Trellis.Table

variable {β : Type}

/-- The rows of a table that was filled in order: each name stands where it came first, with the
row that came last. -/
def ordered (rows : List (String × β)) : List (String × β) :=
  (rows.map (·.1)).eraseDups.filterMap fun key => (rows.filter (·.1 == key)).getLast?

/-- One more name, if it is not there yet. -/
theorem eraseDups_snoc (names : List String) (name : String) :
    (names ++ [name]).eraseDups =
      if name ∈ names then names.eraseDups else names.eraseDups ++ [name] := by
  rw [List.eraseDups_append, List.removeAll]
  by_cases hname : name ∈ names <;> simp [hname, List.eraseDups_cons]

/-- Putting in a row, where each name has one row. -/
theorem putRow_filterMap {names : List String} (hnodup : names.Nodup)
    {rowOf : String → Option (String × β)}
    (hrow : ∀ name ∈ names, ∃ value, rowOf name = some (name, value)) (key : String) (value : β) :
    putRow key value (names.filterMap rowOf) =
      (if key ∈ names then names else names ++ [key]).filterMap fun name =>
        if name = key then some (key, value) else rowOf name := by
  induction names with
  | nil => simp [putRow]
  | cons name names ih =>
    obtain ⟨hnew, hnodup⟩ := List.nodup_cons.mp hnodup
    obtain ⟨old, hold⟩ := hrow name List.mem_cons_self
    have hnames := ih hnodup fun n hn => hrow n (List.mem_cons_of_mem _ hn)
    rw [List.filterMap_cons_some hold, putRow]
    by_cases hname : name = key
    · -- its row is replaced, and no later name is the same
      subst hname
      rw [if_pos rfl, if_pos List.mem_cons_self, List.filterMap_cons, if_pos rfl]
      refine congrArg _ (List.filterMap_congr fun n hn => ?_)
      rw [if_neg fun h : n = name => hnew (h ▸ hn)]
    · rw [if_neg hname, hnames]
      by_cases hkey : key ∈ names
      · rw [if_pos hkey, if_pos (List.mem_cons_of_mem _ hkey), List.filterMap_cons, if_neg hname,
          hold]
      · rw [if_neg hkey, if_neg (by simp [Ne.symm hname, hkey]), List.cons_append,
          List.filterMap_cons, if_neg hname, hold]

/-- A name that has a row has a last one. -/
theorem exists_last {rows : List (String × β)} {key : String} (h : key ∈ rows.map (·.1)) :
    ∃ value, (rows.filter (·.1 == key)).getLast? = some (key, value) := by
  obtain ⟨row, hrow, rfl⟩ := List.mem_map.mp h
  have hmem : row ∈ rows.filter (·.1 == row.1) := List.mem_filter.mpr ⟨hrow, beq_self_eq_true _⟩
  obtain ⟨last, hlast⟩ := Option.ne_none_iff_exists'.mp
    (mt List.getLast?_eq_none_iff.mp (List.ne_nil_of_mem hmem))
  have hname := (List.mem_filter.mp (List.mem_of_getLast? hlast)).2
  refine ⟨last.2, hlast.trans ?_⟩
  rw [← beq_iff_eq.mp hname]

theorem ordered_snoc (rows : List (String × β)) (row : String × β) :
    ordered (rows ++ [row]) = putRow row.1 row.2 (ordered rows) := by
  have hnodup : (rows.map (·.1)).eraseDups.Nodup :=
    Jsx.Pipe.foldl_addOnce_nil _ ▸ Jsx.Pipe.nodup_foldl_addOnce List.nodup_nil
  have hrow : ∀ name ∈ (rows.map (·.1)).eraseDups, ∃ value,
      (rows.filter (·.1 == name)).getLast? = some (name, value) :=
    fun name hname => exists_last (List.mem_eraseDups.mp hname)
  have hlast : ∀ key, ((rows ++ [row]).filter (·.1 == key)).getLast? =
      if key = row.1 then some row else (rows.filter (·.1 == key)).getLast? := by
    intro key
    rw [List.filter_append]
    by_cases hkey : key = row.1
    · simp [hkey]
    · simp [hkey, Ne.symm hkey]
  rw [ordered, ordered, putRow_filterMap hnodup hrow]
  simp only [List.map_append, List.map_singleton, eraseDups_snoc, List.mem_eraseDups, hlast]

/-- **Filling a table in order.** -/
theorem rows_ofList (rows : List (String × β)) : (ofList rows).rows = ordered rows := by
  induction rows using List.reverseRecOn with
  | nil => rfl
  | append_singleton rows row ih =>
    rw [ofList_snoc, ordered_snoc, ← ih]
    rfl

end Trellis.Table

namespace Trellis.Registry

variable {κ ε : Type}

/-! ## Calls -/

/-- A call on a registry that takes classes of type `κ`. -/
inductive Call (κ : Type) where
  | register (c : κ)
  | freeze
  | get (name : String)
  | has (name : String)
  | all

/-- The call closes the registry. -/
def Call.isFreeze : Call κ → Bool
  | .freeze => true
  | _ => false

/-- The class that the call registers. -/
def Call.registers? : Call κ → Option κ
  | .register c => some c
  | _ => none

/-- What a call gives back. -/
inductive Answer (ε : Type) where
  | registered (entry : ε)
  | refused (error : RegistryFrozen)
  | frozen
  | entry (found : Option ε)
  | known (found : Bool)
  | entries (all : List ε)

/-- What a call gives back, and the registry after it. A registry that refuses a class stays as it
is. -/
def call (add : Registry ε → κ → Except RegistryFrozen (ε × Registry ε)) (r : Registry ε) :
    Call κ → Answer ε × Registry ε
  | .register c =>
    match add r c with
    | .ok (entry, r) => (.registered entry, r)
    | .error error => (.refused error, r)
  | .freeze => (.frozen, r.freeze)
  | .get name => (.entry (r.get? name), r)
  | .has name => (.known (r.has name), r)
  | .all => (.entries r.all, r)

/-- An empty registry after calls. -/
def after (kind : RegistryKind) (add : Registry ε → κ → Except RegistryFrozen (ε × Registry ε))
    (calls : List (Call κ)) : Registry ε :=
  calls.foldl (fun r c => (call add r c).2) { kind }

/-- The classes that are registered before the first freeze. -/
def accepted (calls : List (Call κ)) : List κ :=
  (calls.takeWhile (!·.isFreeze)).filterMap Call.registers?

theorem accepted_cons (c : Call κ) (calls : List (Call κ)) :
    accepted (c :: calls) =
      if c.isFreeze then [] else c.registers?.toList ++ accepted calls := by
  cases c <;> rfl

/-- One more call counts if none before it is a freeze. -/
theorem accepted_snoc (calls : List (Call κ)) (c : Call κ) :
    accepted (calls ++ [c]) =
      if calls.any Call.isFreeze then accepted calls
      else accepted calls ++ c.registers?.toList := by
  induction calls with
  | nil => cases c <;> rfl
  | cons first calls ih =>
    rw [List.cons_append, accepted_cons, accepted_cons, List.any_cons, ih]
    cases first.isFreeze with
    | true => rfl
    | false =>
      rw [Bool.false_or]
      cases calls.any Call.isFreeze <;> simp

/-! ## Histories -/

/-- The classes are added under their names, with their entries. -/
def AddsRows (add : Registry ε → κ → Except RegistryFrozen (ε × Registry ε))
    (row : κ → String × ε) : Prop :=
  ∀ r c, add r c = (r.register (row c).1 (row c).2).map fun r => ((row c).2, r)

section

variable {kind : RegistryKind} {add : Registry ε → κ → Except RegistryFrozen (ε × Registry ε)}
  {row : κ → String × ε}

theorem after_snoc (calls : List (Call κ)) (c : Call κ) :
    after kind add (calls ++ [c]) = (call add (after kind add calls) c).2 := by
  rw [after, List.foldl_append]
  rfl

/-- A frozen registry refuses a class and stays as it is. -/
theorem call_register_frozen (hadd : AddsRows add row) {r : Registry ε} (h : r.frozen = true)
    (c : κ) : call add r (.register c) = (.refused ⟨r.kind, (row c).1⟩, r) := by
  rw [call, hadd, register, h]
  rfl

/-- An open registry takes a class. -/
theorem call_register_open (hadd : AddsRows add row) {r : Registry ε} (h : r.frozen = false)
    (c : κ) : call add r (.register c) =
      (.registered (row c).2, { r with entries := r.entries.put (row c).1 (row c).2 }) := by
  rw [call, hadd, register, h]
  rfl

/-- **What calls make of an empty registry**: the table of the accepted classes, frozen by the first
freeze. -/
theorem after_eq (hadd : AddsRows add row) (calls : List (Call κ)) :
    after kind add calls =
      ⟨kind, Table.ofList ((accepted calls).map row), calls.any Call.isFreeze⟩ := by
  induction calls using List.reverseRecOn with
  | nil => rfl
  | append_singleton calls c ih =>
    rw [after_snoc, ih, accepted_snoc, List.any_append, List.any_cons, List.any_nil, Bool.or_false]
    cases hfrozen : calls.any Call.isFreeze with
    | true =>
      cases c with
      | register c => rw [call_register_frozen hadd rfl]; rfl
      | freeze | get name | has name | all => rfl
    | false =>
      cases c with
      | register c =>
        rw [call_register_open hadd rfl]
        simp [Call.registers?, Call.isFreeze, Table.ofList_snoc]
      | freeze | get name | has name | all =>
        simp [call, freeze, Call.registers?, Call.isFreeze]

end

/-- **The history of a registry**, which was empty and has had the given calls. -/
structure History (kind : RegistryKind)
    (add : Registry ε → κ → Except RegistryFrozen (ε × Registry ε)) (row : κ → String × ε)
    (calls : List (Call κ)) : Prop where
  /-- It holds the rows of the accepted classes: each name in the place of its first class, with the
  entry of its last. -/
  rows : (after kind add calls).entries.rows = Table.ordered ((accepted calls).map row)
  /-- A class is refused exactly after a freeze. -/
  refuses : ∀ c, (∃ error, add (after kind add calls) c = .error error) ↔ .freeze ∈ calls
  /-- A refused class leaves everything as it is. -/
  refused : ∀ c error, add (after kind add calls) c = .error error →
    error = ⟨kind, (row c).1⟩ ∧
      call add (after kind add calls) (.register c) = (.refused error, after kind add calls)
  /-- A class that is taken gives its entry, which is put in under its name. -/
  taken : ∀ c entry r, add (after kind add calls) c = .ok (entry, r) →
    entry = (row c).2 ∧
      call add (after kind add calls) (.register c) = (.registered entry, r) ∧
      r.entries.rows = Table.ordered ((accepted calls ++ [c]).map row)
  /-- Asking for an entry changes nothing. -/
  get : ∀ name, call add (after kind add calls) (.get name) =
    (.entry ((Table.ordered ((accepted calls).map row)).lookup name), after kind add calls)
  /-- Asking for a name changes nothing. -/
  has : ∀ name, call add (after kind add calls) (.has name) =
    (.known ((Table.ordered ((accepted calls).map row)).lookup name).isSome, after kind add calls)
  /-- Asking for all entries changes nothing. -/
  all : call add (after kind add calls) .all =
    (.entries ((Table.ordered ((accepted calls).map row)).map (·.2)), after kind add calls)

theorem mem_freeze_iff {calls : List (Call κ)} :
    .freeze ∈ calls ↔ calls.any Call.isFreeze = true := by
  rw [List.any_eq_true]
  refine ⟨fun h => ⟨_, h, rfl⟩, ?_⟩
  rintro ⟨c, hc, hfreeze⟩
  cases c with
  | freeze => exact hc
  | register c | get name | has name | all => cases hfreeze

/-- Registries that are filled with rows have such a history. -/
theorem history {add : Registry ε → κ → Except RegistryFrozen (ε × Registry ε)}
    {row : κ → String × ε} (hadd : AddsRows add row) (kind : RegistryKind)
    (calls : List (Call κ)) : History kind add row calls := by
  have hafter : after kind add calls = _ := after_eq hadd calls
  have hrows : (after kind add calls).entries.rows = Table.ordered ((accepted calls).map row) := by
    rw [hafter, Table.rows_ofList]
  have hlookup : ∀ name, (after kind add calls).get? name =
      (Table.ordered ((accepted calls).map row)).lookup name :=
    fun name => congrArg (List.lookup name) hrows
  refine
    { rows := hrows
      refuses := fun c => ?_
      refused := fun c error herror => ?_
      taken := fun c entry r hok => ?_
      get := fun name => by rw [call, hlookup]
      has := fun name => by rw [← hlookup]; rfl
      all := by rw [← hrows]; rfl }
  · rw [mem_freeze_iff, hadd, register, hafter]
    cases calls.any Call.isFreeze <;> simp [Except.map]
  · rw [call, herror]
    refine ⟨?_, rfl⟩
    rw [hadd, register, hafter] at herror
    cases hfrozen : calls.any Call.isFreeze <;> rw [hfrozen] at herror <;> cases herror
    rfl
  · rw [call, hok]
    rw [hadd, register, hafter] at hok
    cases hfrozen : calls.any Call.isFreeze <;> rw [hfrozen] at hok <;> cases hok
    refine ⟨rfl, rfl, ?_⟩
    rw [List.map_append, List.map_singleton, Table.ordered_snoc, ← Table.rows_ofList]
    rfl

end Trellis.Registry

namespace Trellis

open Trellis.Text
open Trellis.Template
open Trellis.Registry (after accepted History)

/-! ## Directives and pipes -/

/-- A directive class as it is registered. -/
structure DirectiveClass where
  selector : String
  className : String
  outputDir : String := "directives"
  aliasName : String := "@"
  source : Option Path := none

/-- The entry of a directive class. -/
def DirectiveClass.entry (c : DirectiveClass) : DirectiveEntry :=
  .make c.selector c.className c.outputDir c.aliasName c.source

/-- The entry under its selector. -/
def DirectiveClass.row (c : DirectiveClass) : String × DirectiveEntry := (c.entry.selector, c.entry)

/-- Registers a directive class. -/
def DirectiveRegistry.addClass (r : DirectiveRegistry) (c : DirectiveClass) :
    Except RegistryFrozen (DirectiveEntry × DirectiveRegistry) :=
  r.add c.selector c.className c.outputDir c.aliasName c.source

/-- A pipe class as it is registered. -/
structure PipeClass where
  name : String
  className : String
  outputDir : String := "pipes"
  aliasName : String := "@"
  source : Option Path := none
  pure : Bool := true

/-- The entry of a pipe class. -/
def PipeClass.entry (c : PipeClass) : PipeEntry :=
  .make c.name c.className c.outputDir c.aliasName c.source c.pure

/-- The entry under its name. -/
def PipeClass.row (c : PipeClass) : String × PipeEntry := (c.entry.name, c.entry)

/-- Registers a pipe class. -/
def PipeRegistry.addClass (r : PipeRegistry) (c : PipeClass) :
    Except RegistryFrozen (PipeEntry × PipeRegistry) :=
  r.add c.name c.className c.outputDir c.aliasName c.source c.pure

/-- The entry of a directive class says what its users import under the name it stands under. -/
structure DirectiveEntry.StandsUnder (e : DirectiveEntry) (key : String) (c : DirectiveClass) :
    Prop where
  made : e = c.entry
  bare : bareSelector c.selector = key
  selector : e.selector = key
  applyName : e.applyName = "apply" ++ c.className
  importPath : e.importPath = c.aliasName ++ "/" ++ c.outputDir ++ "/" ++ key ++ ".ts"

/-- The entry of a pipe class says what its users import under the name it stands under. -/
structure PipeEntry.StandsUnder (e : PipeEntry) (key : String) (c : PipeClass) : Prop where
  made : e = c.entry
  name : e.name = key
  functionName : e.functionName = key
  importPath : e.importPath = c.aliasName ++ "/" ++ c.outputDir ++ "/" ++ key ++ ".ts"

/-- The name of an attribute with an asterisk before it. -/
theorem classify_directive (s : String) : Binding.classify ("*" ++ s) = (.directive, s) := by
  have hunwrap : Binding.unwrap? .directive ("*" ++ s) = some s := by
    simp [Binding.unwrap?, Binding.between?, Binding.marks]
  rw [Binding.classify, Binding.order, List.findSome?_cons, hunwrap]
  rfl

/-- A name without an asterisk before it has two selectors. -/
theorem bareSelector_eq_iff {s : String} (hs : hasStart s "*" = false) (selector : String) :
    bareSelector selector = s ↔ selector = s ∨ selector = "*" ++ s := by
  rw [bareSelector]
  split
  · next cs hcs =>
    have hne : selector ≠ s := by
      rintro rfl
      rw [hasStart, hcs] at hs
      simp at hs
    have hstarred : selector = "*" ++ s ↔ cs = s.toList := by
      rw [← String.toList_inj, hcs]
      simp
    rw [hstarred, ← String.toList_inj, String.toList_ofList]
    simp [hne]
  · next hno =>
    have hne : selector ≠ "*" ++ s := by
      rintro rfl
      exact hno s.toList (by simp)
    simp [hne]

/-- The entry that a directive registry has for a name, after calls. -/
theorem get?_after_directives (calls : List (Registry.Call DirectiveClass)) {s : String}
    (hs : hasStart s "*" = false) :
    (after .directive DirectiveRegistry.addClass calls).get? s =
      ((accepted calls).filter fun c => c.selector == s || c.selector == "*" ++ s).getLast?.map
        DirectiveClass.entry := by
  have hadd : Registry.AddsRows DirectiveRegistry.addClass DirectiveClass.row := fun _ _ => rfl
  have hselector : (fun c : DirectiveClass => c.row.1 == s) =
      fun c => c.selector == s || c.selector == "*" ++ s := by
    funext c
    rw [Bool.eq_iff_iff, Bool.or_eq_true, beq_iff_eq, beq_iff_eq, beq_iff_eq]
    exact bareSelector_eq_iff hs c.selector
  rw [Registry.after_eq hadd, Registry.get?, Table.get?_ofList, List.filter_map, List.getLast?_map,
    Option.map_map, ← hselector]
  rfl

/-- **What becomes of a registry.** Whatever calls are made, a registry of directives or of pipes
holds the classes registered before the first freeze, as a table filled in order; it refuses classes
exactly after a freeze, and neither a refusal nor a question changes it. Every entry agrees with the
name under which it stands. In a template `*s` looks up the last directive that was accepted with
the selector `s` or `*s`. -/
theorem registry_calls :
    (∀ calls : List (Registry.Call DirectiveClass),
      History .directive DirectiveRegistry.addClass DirectiveClass.row calls ∧
      (∀ row ∈ (after .directive DirectiveRegistry.addClass calls).entries.rows,
        ∃ c ∈ accepted calls, row.2.StandsUnder row.1 c) ∧
      ∀ s : String, hasStart s "*" = false →
        Binding.classify ("*" ++ s) = (.directive, s) ∧
        (after .directive DirectiveRegistry.addClass calls).get? s =
          ((accepted calls).filter fun c =>
            c.selector == s || c.selector == "*" ++ s).getLast?.map DirectiveClass.entry) ∧
    ∀ calls : List (Registry.Call PipeClass),
      History .pipe PipeRegistry.addClass PipeClass.row calls ∧
      ∀ row ∈ (after .pipe PipeRegistry.addClass calls).entries.rows,
        ∃ c ∈ accepted calls, row.2.StandsUnder row.1 c := by
  have hdirectives : Registry.AddsRows DirectiveRegistry.addClass DirectiveClass.row :=
    fun _ _ => rfl
  have hpipes : Registry.AddsRows PipeRegistry.addClass PipeClass.row := fun _ _ => rfl
  refine ⟨fun calls => ⟨Registry.history hdirectives _ calls, fun row hrow => ?_, fun s hs =>
    ⟨classify_directive s, get?_after_directives calls hs⟩⟩, fun calls =>
      ⟨Registry.history hpipes _ calls, fun row hrow => ?_⟩⟩
  · rw [Registry.after_eq hdirectives] at hrow
    obtain ⟨c, hc, rfl⟩ := List.mem_map.mp (Table.mem_of_mem_ofList hrow)
    exact ⟨c, hc, rfl, rfl, rfl, rfl, rfl⟩
  · rw [Registry.after_eq hpipes] at hrow
    obtain ⟨c, hc, rfl⟩ := List.mem_map.mp (Table.mem_of_mem_ofList hrow)
    exact ⟨c, hc, rfl, rfl, rfl, rfl⟩

/-- A directive in both spellings, another one, a freeze, and one that comes too late. -/
def tipCalls : List (Registry.Call DirectiveClass) :=
  [.register { selector := "*tip", className := "Tip" },
    .register { selector := "badge", className := "Badge" },
    .register { selector := "tip", className := "Hint", aliasName := "~" }, .get "tip", .freeze,
    .register { selector := "*tip", className := "Late" }, .all]

theorem registry_calls_tip :
    hasStart "tip" "*" = false ∧ Binding.classify "*tip" = (.directive, "tip") ∧
      (after .directive DirectiveRegistry.addClass tipCalls).get? "tip" =
        some ⟨"tip", "Hint", "applyHint", "~/directives/tip.ts", none⟩ := by
  obtain ⟨-, -, hlookup⟩ := registry_calls.1 tipCalls
  obtain ⟨hclassify, hget⟩ := hlookup "tip" (by decide)
  exact ⟨by decide, hclassify, hget.trans (by decide)⟩

end Trellis
