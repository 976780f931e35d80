import Mathlib.Data.List.Basic
import Mathlib.Data.List.Induction
import Trellis.Jsx.Transform

/-!
# What registries hold

A registry is a table of entries by name. A table keeps one row for each name, and of the rows that
are put in under one name the last one counts.

* `Table.get?_put`, `Table.get?_ofList` and `Table.get?_ofList_append_of_mem` say what a table gives
  for a name.
* `map_some_lookUpAll`: of names that all have entries none is lost when they are looked up.
* `DirectiveRegistry.Filled` are the registries that registering can make; `selector_of_get?`: such
  a registry has every entry under its own selector.
-/

namespace Trellis.Table

variable {β : Type}

theorem lookup_cons_eq (k key : String) (value : β) (rows : List (String × β)) :
    List.lookup k ((key, value) :: rows) = if k = key then some value else rows.lookup k := by
  rw [List.lookup_cons]
  by_cases hk : k = key
  · simp [hk]
  · rw [beq_false_of_ne hk, if_neg hk]

theorem lookup_putRow (key : String) (value : β) (rows : List (String × β)) (k : String) :
    (putRow key value rows).lookup k = if k = key then some value else rows.lookup k := by
  induction rows with
  | nil => rw [putRow, lookup_cons_eq]
  | cons row rows ih =>
    obtain ⟨first, v⟩ := row
    rw [putRow]
    split
    · next hfirst =>
      subst hfirst
      rw [lookup_cons_eq, lookup_cons_eq]
      split <;> rfl
    · next hfirst =>
      rw [lookup_cons_eq, lookup_cons_eq, ih]
      by_cases hk : k = first
      · rw [if_pos hk, if_neg (hk ▸ hfirst), if_pos hk]
      · rw [if_neg hk, if_neg hk]

theorem get?_put (t : Table β) (key : String) (value : β) (k : String) :
    (t.put key value).get? k = if k = key then some value else t.get? k :=
  lookup_putRow key value t.rows k

theorem ofList_snoc (rows : List (String × β)) (row : String × β) :
    ofList (rows ++ [row]) = (ofList rows).put row.1 row.2 := by
  rw [ofList, List.foldl_append]
  rfl

/-- Of the rows with one name the last one counts. -/
theorem get?_ofList (rows : List (String × β)) (k : String) :
    (ofList rows).get? k = (rows.filter (·.1 == k)).getLast?.map (·.2) := by
  induction rows using List.reverseRecOn with
  | nil => rfl
  | append_singleton rows row ih =>
    rw [ofList_snoc, get?_put, ih, List.filter_append]
    by_cases hk : k = row.1
    · simp [hk]
    · have hrow : [row].filter (·.1 == k) = [] := by simpa using Ne.symm hk
      rw [if_neg hk, hrow, List.append_nil]

/-- Rows of other names do not matter. -/
theorem get?_ofList_append_of_not_mem (rows : List (String × β)) {more : List (String × β)}
    {k : String} (h : k ∉ more.map (·.1)) :
    (ofList (rows ++ more)).get? k = (ofList rows).get? k := by
  induction more using List.reverseRecOn with
  | nil => rw [List.append_nil]
  | append_singleton more row ih =>
    rw [List.map_append, List.mem_append, not_or] at h
    have hrow : k ≠ row.1 := fun hk => h.2 (List.mem_singleton.mpr hk)
    rw [← List.append_assoc, ofList_snoc, get?_put, if_neg hrow, ih h.1]

/-- The last row of a name counts. -/
theorem get?_ofList_append_of_mem (rows : List (String × β)) {more : List (String × β)}
    (hnodup : (more.map (·.1)).Nodup) {row : String × β} (h : row ∈ more) :
    (ofList (rows ++ more)).get? row.1 = some row.2 := by
  obtain ⟨before, after, rfl⟩ := List.append_of_mem h
  have hafter : row.1 ∉ after.map (·.1) := by
    rw [List.map_append, List.map_cons] at hnodup
    exact (List.nodup_cons.mp (List.nodup_append.mp hnodup).2.1).1
  have hsplit : rows ++ (before ++ row :: after) = rows ++ before ++ [row] ++ after := by simp
  rw [hsplit, get?_ofList_append_of_not_mem _ hafter, ofList_snoc, get?_put, if_pos rfl]

theorem mem_putRow {key : String} {value : β} {rows : List (String × β)} {row : String × β}
    (h : row ∈ putRow key value rows) : row = (key, value) ∨ row ∈ rows := by
  induction rows with
  | nil => exact .inl (List.mem_singleton.mp h)
  | cons first rows ih =>
    obtain ⟨k, v⟩ := first
    rw [putRow] at h
    split at h
    · next hk =>
      subst hk
      exact (List.mem_cons.mp h).imp id (List.mem_cons_of_mem _)
    · rcases List.mem_cons.mp h with rfl | h
      · exact .inr List.mem_cons_self
      · exact (ih h).imp id (List.mem_cons_of_mem _)

/-- A table holds no rows but those put in. -/
theorem mem_of_mem_ofList {rows : List (String × β)} {row : String × β}
    (h : row ∈ (ofList rows).rows) : row ∈ rows := by
  have hrun : ∀ t : Table β, row ∈ (rows.foldl (fun t r => t.put r.1 r.2) t).rows →
      row ∈ t.rows ∨ row ∈ rows := by
    clear h
    induction rows with
    | nil => exact fun t h => .inl h
    | cons first rows ih =>
      intro t h
      rcases ih _ h with h | h
      · rcases mem_putRow h with rfl | h
        · exact .inr List.mem_cons_self
        · exact .inl h
      · exact .inr (List.mem_cons_of_mem _ h)
  exact (hrun ⟨[]⟩ h).resolve_left List.not_mem_nil

end Trellis.Table

namespace Trellis.Jsx

variable {ε : Type}

/-- What is looked up in a closed registry was registered. -/
theorem mem_of_mem_lookUpAll {kind : RegistryKind} {rows : List (String × ε)} {names : List String}
    {entry : ε} (h : entry ∈ lookUpAll (some (Registry.closed kind rows)) names) :
    ∃ name, (name, entry) ∈ rows := by
  obtain ⟨name, -, hname⟩ := List.mem_filterMap.mp h
  obtain ⟨before, after, hrows, -⟩ := List.lookup_eq_some_iff.mp hname
  refine ⟨name, Table.mem_of_mem_ofList ?_⟩
  rw [show (Table.ofList rows).rows = _ from hrows]
  exact List.mem_append_right _ List.mem_cons_self

/-- No entry is missing where every name has one. -/
theorem map_some_lookUpAll {registry : Option (Registry ε)} {names : List String}
    (h : ∀ name ∈ names, (registry.bind (·.get? name)).isSome = true) :
    (lookUpAll registry names).map some = names.map fun name => registry.bind (·.get? name) := by
  induction names with
  | nil => rfl
  | cons name names ih =>
    obtain ⟨entry, hentry⟩ := Option.isSome_iff_exists.mp (h name List.mem_cons_self)
    have hnames := ih fun name hname => h name (List.mem_cons_of_mem _ hname)
    rw [List.map_cons, hentry, ← hnames, lookUpAll, List.filterMap_cons, hentry]
    rfl

/-- Registries that give the same entries for names. -/
theorem lookUpAll_congr {r s : Option (Registry ε)} {names : List String}
    (h : ∀ name ∈ names, r.bind (·.get? name) = s.bind (·.get? name)) :
    lookUpAll r names = lookUpAll s names :=
  List.filterMap_congr h

end Trellis.Jsx

namespace Trellis.DirectiveRegistry

/-- The registries that registering directives and closing them can make. -/
inductive Filled : DirectiveRegistry → Prop
  | empty : Filled { kind := .directive }
  | add {r r' : DirectiveRegistry} {entry : DirectiveEntry} {selector className outputDir : String}
      {aliasName : String} {source : Option Path} (hr : Filled r)
      (h : r.add selector className outputDir aliasName source = .ok (entry, r')) : Filled r'
  | freeze {r : DirectiveRegistry} (hr : Filled r) : Filled r.freeze

/-- An open registry takes every directive, under its selector. -/
theorem add_eq_ok {r r' : DirectiveRegistry} {entry : DirectiveEntry}
    {selector className outputDir aliasName : String} {source : Option Path}
    (h : r.add selector className outputDir aliasName source = .ok (entry, r')) :
    r' = { r with entries := r.entries.put entry.selector entry } := by
  unfold add Registry.register at h
  dsimp only at h
  split at h
  · cases h
  · cases h
    rfl

/-- **Entries stand under their selectors.** -/
theorem selector_of_get? {r : DirectiveRegistry} (hr : r.Filled) {name : String}
    {entry : DirectiveEntry} (h : r.get? name = some entry) : entry.selector = name := by
  induction hr with
  | empty => cases h
  | freeze hr ih => exact ih h
  | add hr hadd ih =>
    rw [add_eq_ok hadd] at h
    unfold Registry.get? at h
    rw [Table.get?_put] at h
    split at h
    · next hname =>
      cases h
      exact hname.symm
    · exact ih h

/-- The registry of a whole site can be made. -/
theorem filled_closed {entries : List DirectiveEntry}
    (h : ∀ e ∈ entries, ∃ selector className outputDir aliasName source,
      e = .make selector className outputDir aliasName source) :
    Filled (Registry.closed .directive (entries.map fun e => (e.selector, e))) := by
  refine .freeze (r := { kind := .directive, entries := Table.ofList _ }) ?_
  induction entries using List.reverseRecOn with
  | nil => exact .empty
  | append_singleton entries e ih =>
    obtain ⟨selector, className, outputDir, aliasName, source, rfl⟩ :=
      h e (List.mem_append_right _ List.mem_cons_self)
    have hopen := ih fun e he => h e (List.mem_append_left _ he)
    rw [List.map_append, List.map_singleton, Table.ofList_snoc]
    have hadd : DirectiveRegistry.add
        { kind := .directive, entries := Table.ofList (entries.map fun e => (e.selector, e)) }
        selector className outputDir aliasName source = .ok (_, _) := rfl
    exact hopen.add hadd

end Trellis.DirectiveRegistry
