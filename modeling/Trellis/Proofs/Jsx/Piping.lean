import Trellis.Proofs.Jsx.Pieces
import Trellis.Proofs.Registry.History
import Trellis.Proofs.Text.Strip

/-!
# Pipe chains as they are written

A chain is a value and calls, each call after a bar, each argument after a colon.

* `chainText` writes a chain. It can be read back if the value is `Whole` and the calls are
  `Legible`.
* `parse_chainText`: what is written as a chain is read as that chain, whatever its length.
* `compile_chain`: it is compiled to its calls, applied to the value from left to right. An
  expression without single bars outside quotes is no chain and stays as it is.
-/

namespace Trellis.Jsx.Pipe

open Trellis.Text

/-! ## Written chains -/

/-- A call as it is written: its name, and each argument after a colon. -/
def Call.chars (c : Call) : List Char :=
  c.name.toList ++ c.args.flatMap fun a => ':' :: a.toList

/-- Calls as they are written after a value. -/
def segments (calls : List Call) : List Char :=
  calls.flatMap fun c => ' ' :: '|' :: ' ' :: c.chars

/-- A chain as it is written. -/
def chainText (value : String) (calls : List Call) : String :=
  String.ofList (value.toList ++ segments calls)

/-- A text that can stand in a chain as it is: there is no white space at its ends and no backslash
in it, it closes the quotes that it opens, and its bars stand in quotes or in runs of even
length. -/
structure Whole (s : String) : Prop where
  stripped : strip s = s
  unescaped : '\\' ∉ s.toList
  quotes : (Spot.after {} s.toList).quote = none
  bars : EvenRuns (outside {} s.toList)

/-- A call that can be written in a chain: the name has no quotes, bars and colons, the arguments
have colons in quotes only, and none of them is empty. -/
structure Call.Legible (c : Call) : Prop where
  name : Whole c.name
  named : c.name ≠ ""
  plain : ∀ ch ∈ ['"', '\x27', '|', ':'], ch ∉ c.name.toList
  args : ∀ a ∈ c.args, Whole a
  given : ∀ a ∈ c.args, a ≠ ""
  colons : ∀ a ∈ c.args, ':' ∉ outside {} a.toList

instance (s : String) : Decidable (Whole s) :=
  decidable_of_iff (strip s = s ∧ '\\' ∉ s.toList ∧ (Spot.after {} s.toList).quote = none ∧
    EvenRuns (outside {} s.toList))
    ⟨fun ⟨h, hu, hq, hb⟩ => ⟨h, hu, hq, hb⟩, fun h => ⟨h.stripped, h.unescaped, h.quotes, h.bars⟩⟩

instance (c : Call) : Decidable c.Legible :=
  haveI := List.decidableBAll (· ∉ c.name.toList) ['"', '\x27', '|', ':']
  decidable_of_iff (Whole c.name ∧ c.name ≠ "" ∧
    (∀ ch ∈ ['"', '\x27', '|', ':'], ch ∉ c.name.toList) ∧ (∀ a ∈ c.args, Whole a) ∧
    (∀ a ∈ c.args, a ≠ "") ∧ ∀ a ∈ c.args, ':' ∉ outside {} a.toList)
    ⟨fun ⟨h, hn, hp, ha, hg, hc⟩ => ⟨h, hn, hp, ha, hg, hc⟩,
      fun h => ⟨h.name, h.named, h.plain, h.args, h.given, h.colons⟩⟩

theorem Whole.closed {s : String} (h : Whole s) : Closed s.toList :=
  ⟨h.unescaped, h.quotes, (evenRuns_iff _).mp h.bars⟩

theorem Whole.stripChars {s : String} (h : Whole s) : stripChars s.toList = s.toList := by
  have hstrip := congrArg String.toList h.stripped
  rwa [strip, String.toList_ofList] at hstrip

/-- The text ends with no white space. -/
def EndsSolid (s : List Char) : Prop := ∀ c ∈ s.getLast?, isBlank c = false

theorem EndsSolid.append {s t : List Char} (ht : EndsSolid t) (hne : t ≠ []) :
    EndsSolid (s ++ t) := by
  intro c hc
  rw [List.getLast?_append_of_ne_nil _ hne] at hc
  exact ht c hc

namespace Call.Legible

variable {c : Call} (h : c.Legible)

include h

theorem name_ne_nil : c.name.toList ≠ [] := fun hnil => h.named (String.toList_eq_nil_iff.mp hnil)

theorem chars_ne_nil : c.chars ≠ [] := List.append_ne_nil_of_left_ne_nil h.name_ne_nil _

theorem closed_chars : Closed c.chars := by
  refine h.name.closed.append ?_
  have hargs := h.args
  generalize c.args = args at hargs
  induction args with
  | nil => exact Closed.nil
  | cons a args ih =>
    rw [List.forall_mem_cons] at hargs
    exact closed_cons (by decide) (hargs.1.closed.append (ih hargs.2))

/-- A call neither starts nor ends with white space. -/
theorem stripChars_chars : stripChars c.chars = c.chars := by
  obtain ⟨hhead, hlast⟩ := stripChars_eq_self_iff.mp h.name.stripChars
  refine stripChars_eq_self_iff.mpr ⟨?_, ?_⟩
  · rw [Call.chars, List.head?_append_of_ne_nil _ h.name_ne_nil]
    exact hhead
  · rw [Call.chars]
    have hargs : ∀ a ∈ c.args, a.toList ≠ [] ∧ EndsSolid a.toList := fun a ha =>
      ⟨fun hnil => h.given a ha (String.toList_eq_nil_iff.mp hnil),
        (stripChars_eq_self_iff.mp (h.args a ha).stripChars).2⟩
    generalize c.name.toList = start at hlast
    generalize c.args = args at hargs
    change EndsSolid _
    induction args generalizing start with
    | nil => rwa [List.flatMap_nil, List.append_nil]
    | cons a args ih =>
      rw [List.forall_mem_cons] at hargs
      rw [List.flatMap_cons, ← List.append_assoc]
      refine ih (start ++ ':' :: a.toList) ?_ hargs.2
      rw [← List.singleton_append, ← List.append_assoc]
      exact hargs.1.2.append hargs.1.1

end Call.Legible

/-! ## Reading a chain -/

theorem cutBars_bar (prev : Option Char) (s : List Char) :
    cutBars prev none ('|' :: ' ' :: s) = [] :: cutBars (some '|') none (' ' :: s) :=
  rfl

theorem isBlank_nil : ∀ c ∈ ([] : List Char), isBlank c = true := nofun

theorem isBlank_space : ∀ c ∈ [' '], isBlank c = true := List.forall_mem_singleton.mpr rfl

/-- The pieces between bars are the value and the calls, with white space around them. -/
theorem map_stripChars_cutBars {calls : List Call} (h : ∀ c ∈ calls, c.Legible)
    {prev : Option Char} (hprev : prev ≠ some '\\') {pad s : List Char}
    (hpad : ∀ c ∈ pad, isBlank c = true) (hs : stripChars s = s) (hclosed : Closed (pad ++ s)) :
    (cutBars prev none (pad ++ s ++ segments calls)).map stripChars =
      s :: calls.map Call.chars := by
  induction calls generalizing prev pad s with
  | nil =>
    obtain ⟨prev', -, hcut⟩ := hclosed.cutBars hprev
    have hpiece := stripChars_surround hpad isBlank_nil hs
    rw [segments, List.flatMap_nil, hcut]
    simpa [cutBars, extendFirst] using hpiece
  | cons c calls ih =>
    rw [List.forall_mem_cons] at h
    obtain ⟨prev', hprev', hcut⟩ := hclosed.cutBars hprev
    obtain ⟨prev'', -, hspace⟩ := (closed_cons (c := ' ') (by decide) Closed.nil).cutBars hprev'
    have hnext : Closed ([' '] ++ c.chars) := closed_cons (by decide) h.1.closed_chars
    have hbar : some '|' ≠ some '\\' := by decide
    have htail := ih h.2 hbar isBlank_space h.1.stripChars_chars hnext
    have hpiece := stripChars_surround hpad isBlank_space hs
    have hwhole : pad ++ s ++ segments (c :: calls) =
        pad ++ s ++ ([' '] ++ '|' :: ' ' :: (c.chars ++ segments calls)) := by
      simp [segments]
    rw [hwhole, hcut, hspace, cutBars_bar, extendFirst_extendFirst]
    rw [List.append_assoc] at htail
    rw [List.append_assoc] at hpiece
    rw [List.map_cons, ← htail]
    simp [extendFirst, hpiece]

/-- The pieces between colons are the name and the arguments. -/
theorem cutColons_flatMap {args : List String} (h : ∀ a ∈ args, Whole a)
    (hcolons : ∀ a ∈ args, ':' ∉ outside {} a.toList) {prev : Option Char}
    (hprev : prev ≠ some '\\') {s : List Char} (hs : Closed s) (hscolon : ':' ∉ outside {} s) :
    cutColons prev none (s ++ args.flatMap fun a => ':' :: a.toList) =
      s :: args.map String.toList := by
  induction args generalizing prev s with
  | nil =>
    obtain ⟨prev', -, hcut⟩ := hs.cutColons hscolon hprev
    rw [List.flatMap_nil, hcut]
    simp [cutColons, extendFirst]
  | cons a args ih =>
    rw [List.forall_mem_cons] at h hcolons
    obtain ⟨prev', -, hcut⟩ := hs.cutColons hscolon hprev
    have hcolon : some ':' ≠ some '\\' := by decide
    have htail := ih h.2 hcolons.2 hcolon h.1.closed hcolons.1
    rw [List.flatMap_cons, List.cons_append, hcut, cutColons, htail]
    simp [extendFirst]

/-- A call is read as it was written. -/
theorem callOf_chars {c : Call} (h : c.Legible) : callOf (String.ofList c.chars) = c := by
  have hcolon : ':' ∉ outside {} c.name.toList :=
    fun hmem => h.plain ':' (by decide) (outside_subset _ _ hmem)
  have hnone : (none : Option Char) ≠ some '\\' := nofun
  have hcut := cutColons_flatMap h.args h.colons hnone h.name.closed hcolon
  have hpieces : ((c.name :: c.args).map fun s => stripChars s.toList) =
      (c.name :: c.args).map String.toList := by
    refine List.map_congr_left fun s hs => ?_
    rcases List.mem_cons.mp hs with rfl | hs
    · exact h.name.stripChars
    · exact (h.args s hs).stripChars
  have hgiven : ∀ s ∈ c.name :: c.args, s.toList.isEmpty = false := by
    intro s hs
    rw [List.isEmpty_eq_false_iff, Ne, String.toList_eq_nil_iff]
    rcases List.mem_cons.mp hs with rfl | hs
    · exact h.named
    · exact h.given s hs
  have hargs : splitArgs (String.ofList c.chars) = c.name :: c.args := by
    rw [splitArgs, String.toList_ofList, Call.chars, hcut, ← List.map_cons, List.map_map]
    change ((c.name :: c.args).map fun s => stripChars s.toList).filterMap _ = _
    rw [hpieces, List.filterMap_map]
    conv_rhs => rw [← List.filterMap_some (l := c.name :: c.args)]
    refine List.filterMap_congr fun s hs => ?_
    rw [Function.comp, hgiven s hs]
    exact congrArg some String.ofList_toList
  rw [callOf, hargs]

/-- The pieces between bars decide what is read. -/
theorem parse_of_pieces {e value : String} {calls : List Call} (h : ∀ c ∈ calls, c.Legible)
    (hpieces : (cutBars none none e.toList).map stripChars =
      value.toList :: calls.map Call.chars) :
    parse e = (value, calls) := by
  have hsplit : split e = value :: calls.map fun c => String.ofList c.chars := by
    have hmap := congrArg (List.map String.ofList) hpieces
    rw [List.map_map, List.map_cons, List.map_map, String.ofList_toList] at hmap
    exact hmap
  have hcalls : (calls.map fun c => String.ofList c.chars).map callOf = calls := by
    clear hpieces hsplit
    induction calls with
    | nil => rfl
    | cons c calls ih =>
      rw [List.forall_mem_cons] at h
      rw [List.map_cons, List.map_cons, callOf_chars h.1, ih h.2]
  rw [parse, hsplit]
  exact congrArg (Prod.mk value) hcalls

section

variable {value : String} {calls : List Call} (hvalue : Whole value) (h : ∀ c ∈ calls, c.Legible)

include hvalue h

/-- **A chain is read as it was written.** -/
theorem parse_chainText : parse (chainText value calls) = (value, calls) := by
  refine parse_of_pieces h ?_
  rw [chainText, String.toList_ofList]
  have hnone : (none : Option Char) ≠ some '\\' := nofun
  exact map_stripChars_cutBars h hnone isBlank_nil hvalue.stripChars hvalue.closed

omit hvalue in
theorem endsSolid_segments {s : List Char} (hs : EndsSolid s) :
    EndsSolid (s ++ segments calls) := by
  induction calls generalizing s with
  | nil => rwa [segments, List.flatMap_nil, List.append_nil]
  | cons c calls ih =>
    rw [List.forall_mem_cons] at h
    have hcall : EndsSolid c.chars := (stripChars_eq_self_iff.mp h.1.stripChars_chars).2
    have hnext : EndsSolid (s ++ [' ', '|', ' '] ++ c.chars) := hcall.append h.1.chars_ne_nil
    have hrest := ih h.2 hnext
    rwa [List.append_assoc, List.append_assoc] at hrest

/-- White space around the whole chain is dropped first; there is some if the value is empty. -/
theorem parse_strip_chainText : parse (strip (chainText value calls)) = (value, calls) := by
  obtain ⟨hhead, hlast⟩ := stripChars_eq_self_iff.mp hvalue.stripChars
  by_cases hempty : value.toList = []
  · cases calls with
    | nil =>
      obtain rfl := String.toList_eq_nil_iff.mp hempty
      rfl
    | cons c calls =>
      rw [List.forall_mem_cons] at h
      have hcall : EndsSolid c.chars := (stripChars_eq_self_iff.mp h.1.stripChars_chars).2
      have hend : EndsSolid (['|', ' '] ++ c.chars ++ segments calls) :=
        endsSolid_segments h.2 (hcall.append h.1.chars_ne_nil)
      have hstrip : strip (chainText value (c :: calls)) =
          String.ofList ('|' :: ' ' :: (c.chars ++ segments calls)) := by
        have hcore : stripChars ('|' :: ' ' :: (c.chars ++ segments calls)) =
            '|' :: ' ' :: (c.chars ++ segments calls) := by
          refine stripChars_eq_self_iff.mpr ⟨fun x hx => ?_, hend⟩
          obtain rfl := Option.some.inj hx
          decide
        have hpad := stripChars_surround isBlank_space isBlank_nil hcore
        rw [strip, chainText, String.toList_ofList, hempty, ← hpad]
        simp [segments]
      have hnext : Closed ([' '] ++ c.chars) := closed_cons (by decide) h.1.closed_chars
      have hbar : some '|' ≠ some '\\' := by decide
      have hpieces := map_stripChars_cutBars h.2 hbar isBlank_space h.1.stripChars_chars hnext
      rw [hstrip]
      refine parse_of_pieces (List.forall_mem_cons.mpr h) ?_
      rw [String.toList_ofList, cutBars_bar, List.map_cons, hempty, List.map_cons, ← hpieces]
      rfl
  · have hchain : strip (chainText value calls) = chainText value calls := by
      rw [strip, chainText, String.toList_ofList]
      refine congrArg String.ofList (stripChars_eq_self_iff.mpr ⟨?_, ?_⟩)
      · rwa [List.head?_append_of_ne_nil _ hempty]
      · exact endsSolid_segments h hlast
    rw [hchain]
    exact parse_chainText hvalue h

end

/-! ## Compiling a chain -/

/-- The code of a call that is applied to code. A built-in pipe gets it as a single operand. -/
def applied (code : String) (c : Call) : String :=
  match BuiltIn.ofName? c.name with
  | some p => p.render (operand code) c.args
  | none => callText c.name code c.args

/-- The call names a pipe that is neither built in nor registered. -/
def Call.isUnknown (registry : Option PipeRegistry) (c : Call) : Bool :=
  (BuiltIn.ofName? c.name).isNone && (registry.bind (·.get? c.name)).isNone

/-- The warning about such a call. -/
def Call.unknownWarning (c : Call) : Warning :=
  ⟨.unknownPipe, "Unknown pipe '" ++ c.name ++ "'; emitted as a call to " ++ c.name ++ "()",
    .warning⟩

/-- Registered pipes are called by the names they are registered under. -/
theorem functionName_of_get? {calls : List (Registry.Call PipeClass)} {name : String}
    {entry : PipeEntry}
    (h : (Registry.after .pipe PipeRegistry.addClass calls).get? name = some entry) :
    entry.functionName = name := by
  have hadd : Registry.AddsRows PipeRegistry.addClass PipeClass.row := fun _ _ => rfl
  rw [Registry.after_eq hadd] at h
  obtain ⟨before, after, hrows, -⟩ := List.lookup_eq_some_iff.mp h
  have hmem : (name, entry) ∈ (Table.ofList ((Registry.accepted calls).map PipeClass.row)).rows :=
    hrows ▸ List.mem_append_right _ List.mem_cons_self
  obtain ⟨c, -, hc⟩ := List.mem_map.mp (Table.mem_of_mem_ofList hmem)
  cases hc
  rfl

section

variable {registry : Option PipeRegistry}
  (hregistry : ∀ name entry, registry.bind (·.get? name) = some entry → entry.functionName = name)

include hregistry

/-- What one call does to the code and to the warnings. -/
theorem applyCall_eq (source : String) (o : Outcome) {c : Call} (h : c.name ≠ "") :
    (applyCall registry source o c).text = applied o.text c ∧
      (applyCall registry source o c).warnings =
        o.warnings ++ if c.isUnknown registry then [c.unknownWarning] else [] := by
  rw [applyCall, if_neg (by simpa using h), applied, Call.isUnknown]
  cases hbuiltIn : BuiltIn.ofName? c.name with
  | some p => simp
  | none =>
    cases hentry : registry.bind (·.get? c.name) with
    | some entry => simp [hregistry _ _ hentry]
    | none => simp [Call.unknownWarning]

/-- What calls do, one after the other. -/
theorem foldl_applyCall_eq (source : String) {calls : List Call} (h : ∀ c ∈ calls, c.name ≠ "")
    (o : Outcome) :
    (calls.foldl (applyCall registry source) o).text = calls.foldl applied o.text ∧
      (calls.foldl (applyCall registry source) o).warnings =
        o.warnings ++ (calls.filter (·.isUnknown registry)).map Call.unknownWarning := by
  induction calls generalizing o with
  | nil => exact ⟨rfl, (List.append_nil _).symm⟩
  | cons c calls ih =>
    rw [List.forall_mem_cons] at h
    obtain ⟨htext, hwarnings⟩ := applyCall_eq hregistry source o h.1
    obtain ⟨htexts, hall⟩ := ih h.2 (applyCall registry source o c)
    rw [List.foldl_cons, List.foldl_cons, htexts, hall, htext, hwarnings, List.filter_cons]
    refine ⟨rfl, ?_⟩
    split <;> simp

end

/-! ### Expressions without pipes -/

theorem ne_of_isBlank {c : Char} (h : isBlank c = true) : c ∉ ['"', '\x27', '|', '\\'] := by
  intro hc
  simp only [List.mem_cons, List.not_mem_nil, or_false] at hc
  rcases hc with rfl | rfl | rfl | rfl <;> exact absurd h (by decide)

theorem closed_of_isBlank {s : List Char} (h : ∀ c ∈ s, isBlank c = true) : Closed s := by
  induction s with
  | nil => exact Closed.nil
  | cons c s ih =>
    rw [List.forall_mem_cons] at h
    exact closed_cons (ne_of_isBlank h.1) (ih h.2)

/-- No bar can be missing at the end of a text but one that stands after it. -/
theorem paired_of_append {s t : List Char} (h : paired (s ++ t) = true) (ht : '|' ∉ t) :
    paired s = true := by
  fun_induction paired s with
  | case1 => rfl
  | case2 s ih => exact ih h
  | case3 s hs =>
    rw [List.cons_append, paired.eq_def] at h
    simp only [if_pos] at h
    split at h
    · next rest hrest =>
      cases s with
      | nil =>
        rw [List.nil_append] at hrest
        exact absurd (hrest ▸ List.mem_cons_self) ht
      | cons d s =>
        rw [List.cons_append, List.cons.injEq] at hrest
        exact (hs s (by rw [hrest.1])).elim
    · cases h
  | case4 c s hc ih =>
    rw [List.cons_append, paired_cons hc] at h
    exact ih h

/-- **An expression without single bars outside quotes** is left as it is. -/
theorem compile_of_evenRuns (registry : Option PipeRegistry) {expression : String}
    (h : EvenRuns (outside {} expression.toList)) :
    compile registry expression = { text := strip expression } := by
  obtain ⟨left, right, hsplit, hleft, hright⟩ := exists_surround expression.toList
  have hcore : paired (outside {} (stripChars expression.toList)) = true := by
    rw [evenRuns_iff, hsplit, List.append_assoc] at h
    generalize stripChars expression.toList = core at h
    have hnone : (none : Option Char) ≠ some '\\' := nofun
    obtain ⟨prev, hprev, hafter⟩ := (closed_of_isBlank hleft).after hnone
    rw [outside_append, paired_append (closed_of_isBlank hleft).bars, hafter, outside_prev hprev,
      outside_append] at h
    refine paired_of_append h fun hbar => ?_
    exact ne_of_isBlank (hright _ (outside_subset _ _ hbar)) (by decide)
  have hpiece := cutBars_append (stripChars expression.toList) [] {} hcore
  have hparse : parse (strip expression) = (strip expression, []) := by
    refine parse_of_pieces nofun ?_
    rw [List.append_nil] at hpiece
    rw [strip, String.toList_ofList, hpiece]
    simp [cutBars, extendFirst, stripChars_stripChars]
  rw [compile, hparse]
  rfl

/-! ### All chains -/

/-- **Pipe chains.** Whatever pipes are registered, a chain that is written with texts that stand
for themselves is read as its value and its calls, and compiled to the calls, applied to the value
from left to right, with one warning for each call of a pipe that there is not. An expression
without single bars outside quotes is left as it is, up to white space at its ends. -/
theorem compile_chain (history : Option (List (Registry.Call PipeClass))) :
    let registry := history.map (Registry.after .pipe PipeRegistry.addClass)
    (∀ (value : String) (calls : List Call), Whole value → (∀ c ∈ calls, c.Legible) →
      parse (chainText value calls) = (value, calls) ∧
      (compile registry (chainText value calls)).text = calls.foldl applied value ∧
      (compile registry (chainText value calls)).warnings =
        (calls.filter (·.isUnknown registry)).map Call.unknownWarning) ∧
    ∀ expression : String, EvenRuns (outside {} expression.toList) →
      compile registry expression = { text := strip expression } := by
  intro registry
  have hregistry : ∀ name entry, registry.bind (·.get? name) = some entry →
      entry.functionName = name := by
    intro name entry hentry
    cases history with
    | none => cases hentry
    | some calls => exact functionName_of_get? hentry
  refine ⟨fun value calls hvalue h => ⟨parse_chainText hvalue h, ?_⟩,
    fun _ => compile_of_evenRuns registry⟩
  obtain ⟨htext, hwarnings⟩ := foldl_applyCall_eq hregistry (strip (chainText value calls))
    (fun c hc => (h c hc).named) { text := value }
  rw [compile, parse_strip_chainText hvalue h]
  exact ⟨htext, hwarnings⟩

/-- A chain with an operator and quotes, a built-in pipe, a pipe that there is not, and a registered
one. -/
theorem compile_chain_label :
    let calls : List Call := [⟨"default", ["'x|y:z'"]⟩, ⟨"mystery", ["1", "c"]⟩, ⟨"shout", []⟩]
    let registry := Registry.after .pipe PipeRegistry.addClass
      [.register { name := "shout", className := "ShoutPipe" }, .freeze]
    chainText "a || b" calls = "a || b | default:'x|y:z' | mystery:1:c | shout" ∧
      (Whole "a || b" ∧ ∀ c ∈ calls, c.Legible) ∧
      (compile (some registry) (chainText "a || b" calls)).text =
        "shout(mystery(((a || b) ?? 'x|y:z'), 1, c))" ∧
      (compile (some registry) (chainText "a || b" calls)).warnings =
        [Call.unknownWarning ⟨"mystery", ["1", "c"]⟩] := by
  intro calls registry
  have hvalue : Whole "a || b" := by decide +kernel
  have hcalls : ∀ c ∈ calls, c.Legible := by decide +kernel
  obtain ⟨-, htext, hwarnings⟩ := (compile_chain (some _)).1 "a || b" calls hvalue hcalls
  exact ⟨by decide, ⟨hvalue, hcalls⟩, htext.trans (by decide), hwarnings.trans (by decide)⟩

end Trellis.Jsx.Pipe
