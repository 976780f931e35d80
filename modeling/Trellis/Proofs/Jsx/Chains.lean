import Trellis.Jsx.Transform

/-!
# The pipe chains of a template

While a template is emitted, pipe chains are compiled at three places: for bindings, for the
expressions inside of plain attributes, and for interpolations. What these chains need can be read
off the tree.

* `Document.chains` are the pipe chains of a tree in the order of its source: of each element that
  is no place for content and in none, the chains of its attributes, then those of its children.
* `Call.registered?` and `Call.runtime?` say what a call of a chain needs, a registered pipe or a
  runtime function. Compiling a chain notes what its calls need (`compile_notes`).
* `expressions_valuePartsFrom`: the lexer of attribute values finds the expressions between doubled
  braces.
-/

namespace Trellis.Jsx

open Trellis.Text
open Trellis.Template

/-! ## The chains of a tree -/

theorem length_breakAt? {pat cs before after : List Char}
    (h : breakAt? pat cs = some (before, after)) (hpat : pat ≠ []) :
    after.length < cs.length := by
  induction cs generalizing before with
  | nil =>
    rw [breakAt?, if_neg (by simpa using hpat)] at h
    cases h
  | cons c cs ih =>
    rw [breakAt?] at h
    split at h
    · cases h
      have hlen : 0 < pat.length := List.length_pos_iff.mpr hpat
      rw [List.length_drop, List.length_cons]
      omega
    · obtain ⟨rest, hrest, heq⟩ := Option.map_eq_some_iff.mp h
      cases heq
      exact Nat.lt_succ_of_lt (ih hrest)

/-- The expressions between doubled braces, from left to right. -/
def bracedExpressions (cs : List Char) : List String :=
  match _hopen : breakAt? ['\x7b', '\x7b'] cs with
  | none => []
  | some (_, after) =>
    match _hclose : breakAt? ['\x7d', '\x7d'] after with
    | none => []
    | some (inside, rest) => String.ofList (stripChars inside) :: bracedExpressions rest
termination_by cs.length
decreasing_by
  exact Nat.lt_trans (length_breakAt? _hclose nofun) (length_breakAt? _hopen nofun)

end Trellis.Jsx

namespace Trellis.Template

open Trellis.Text
open Trellis.Jsx

/-- The pipe chains of an attribute: the expression of a property or attribute binding, if it is
not blank, and those inside of a plain value. Classes, styles and references have none. -/
def Attribute.chains (a : Attribute) : List String :=
  match a.binding with
  | .property => if a.name = "class" ∨ isBlankText a.expression then [] else [a.expression]
  | .attribute => if isBlankText a.expression then [] else [a.expression]
  | .standard =>
    if a.name = "class" ∨ a.name = "style" ∨ hasStart a.name "#" then []
    else bracedExpressions a.expression.toList
  | _ => []

mutual

/-- The pipe chains of a node: those of its attributes, then those inside of it. A place for content
has none. -/
def Node.chains : Node → List String
  | .text _ _ => []
  | .comment _ _ => []
  | .interpolation expression _ => if isBlankText expression then [] else [expression]
  | .element tag _ attributes children _ =>
    if isSlot tag || isOutlet tag then []
    else attributes.flatMap Attribute.chains ++ Node.chainsOf children

/-- The pipe chains of nodes, one after the other. -/
def Node.chainsOf : List Node → List String
  | [] => []
  | n :: ns => n.chains ++ Node.chainsOf ns

end

/-- The pipe chains of a template, in source order. -/
def Document.chains (d : Document) : List String := Node.chainsOf d.children

end Trellis.Template

namespace Trellis.Jsx

open Trellis.Text
open Trellis.Template

/-! ## What a call needs -/

namespace Pipe

/-- The registered pipe that the call needs. Built-in pipes win, and an empty segment names none. -/
def Call.registered? (registry : Option PipeRegistry) (c : Call) : Option String :=
  if c.name = "" ∨ (BuiltIn.ofName? c.name).isSome then none
  else (registry.bind (·.get? c.name)).map fun _ => c.name

/-- The runtime function that the call needs. -/
def Call.runtime? (c : Call) : Option String := (BuiltIn.ofName? c.name).bind (·.helper? c.args)

/-- The calls of a chain. -/
def callsOf (chain : String) : List Call := (parse (strip chain)).2

/-! ## Names in first-use order -/

theorem mem_addOnce {xs : List String} {x y : String} : y ∈ addOnce xs x ↔ y ∈ xs ∨ y = x := by
  rw [addOnce]
  split
  · next h =>
    refine ⟨.inl, ?_⟩
    rintro (hy | rfl)
    · exact hy
    · exact List.contains_iff_mem.mp h
  · rw [List.mem_append, List.mem_singleton]

theorem mem_foldl_addOnce {xs ys : List String} {y : String} :
    y ∈ xs.foldl addOnce ys ↔ y ∈ ys ∨ y ∈ xs := by
  induction xs generalizing ys with
  | nil => simp
  | cons x xs ih => rw [List.foldl_cons, ih, mem_addOnce, or_assoc, List.mem_cons]

theorem nodup_addOnce {xs : List String} (h : xs.Nodup) (x : String) : (addOnce xs x).Nodup := by
  rw [addOnce]
  split
  · exact h
  · next hx =>
    refine List.nodup_append.mpr ⟨h, List.pairwise_singleton _ x, ?_⟩
    rintro y hy _ hx' rfl
    cases List.mem_singleton.mp hx'
    exact hx (List.contains_iff_mem.mpr hy)

theorem nodup_foldl_addOnce {xs ys : List String} (h : ys.Nodup) : (xs.foldl addOnce ys).Nodup := by
  induction xs generalizing ys with
  | nil => exact h
  | cons x xs ih => exact ih (nodup_addOnce h x)

/-- Adding names that are each once. -/
theorem foldl_addOnce_foldl (xs ys zs : List String) :
    (xs.foldl addOnce ys).foldl addOnce zs = xs.foldl addOnce (ys.foldl addOnce zs) := by
  induction xs generalizing ys with
  | nil => rfl
  | cons x xs ih =>
    have hx : (addOnce ys x).foldl addOnce zs = addOnce (ys.foldl addOnce zs) x := by
      rw [addOnce]
      split
      · next h =>
        have hmem : x ∈ ys.foldl addOnce zs :=
          mem_foldl_addOnce.mpr (.inr (List.contains_iff_mem.mp h))
        rw [addOnce, if_pos (List.contains_iff_mem.mpr hmem)]
      · rw [List.foldl_append]
        rfl
    rw [List.foldl_cons, ih, hx, List.foldl_cons]

/-- Adding names keeps the first of each. -/
theorem foldl_addOnce (xs ys : List String) :
    xs.foldl addOnce ys = ys ++ (xs.filter fun x => !ys.contains x).eraseDups := by
  induction xs generalizing ys with
  | nil => simp
  | cons x xs ih =>
    rw [List.foldl_cons, addOnce]
    by_cases hx : ys.contains x = true
    · rw [if_pos hx, ih, List.filter_cons_of_neg (by simpa using hx)]
    · rw [if_neg hx, ih, List.filter_cons_of_pos (by simpa using hx), List.eraseDups_cons,
        List.filter_filter, List.append_assoc, List.singleton_append]
      refine congrArg (fun zs => ys ++ x :: List.eraseDups zs) (List.filter_congr fun y _ => ?_)
      by_cases hy : y = x <;> simp [hy]

theorem foldl_addOnce_nil (xs : List String) : xs.foldl addOnce [] = xs.eraseDups := by
  have hall : (xs.filter fun x => !([] : List String).contains x) = xs :=
    List.filter_eq_self.mpr fun _ _ => rfl
  rw [foldl_addOnce, List.nil_append, hall]

/-- Choosing names before or after they are added. -/
theorem filter_addOnce (p : String → Bool) (xs : List String) (x : String) :
    (addOnce xs x).filter p = if p x then addOnce (xs.filter p) x else xs.filter p := by
  by_cases hx : x ∈ xs
  · have hadd : addOnce xs x = xs := if_pos (List.contains_iff_mem.mpr hx)
    rw [hadd]
    split
    · next hp =>
      exact (if_pos (List.contains_iff_mem.mpr (List.mem_filter.mpr ⟨hx, hp⟩))).symm
    · rfl
  · have hadd : addOnce xs x = xs ++ [x] := if_neg (by simpa using hx)
    rw [hadd, List.filter_append]
    split
    · next hp =>
      have hnew : x ∉ xs.filter p := fun h => hx (List.mem_filter.mp h).1
      rw [addOnce, if_neg (by simpa using hnew), List.filter_cons_of_pos hp, List.filter_nil]
    · next hp => rw [List.filter_cons_of_neg hp, List.filter_nil, List.append_nil]

theorem filter_eraseDups (p : String → Bool) (xs : List String) :
    xs.eraseDups.filter p = (xs.filter p).eraseDups := by
  have hrun : ∀ ys, (xs.foldl addOnce ys).filter p = (xs.filter p).foldl addOnce (ys.filter p) := by
    induction xs with
    | nil => exact fun ys => rfl
    | cons x xs ih =>
      intro ys
      rw [List.foldl_cons, ih, filter_addOnce]
      by_cases hp : p x = true
      · rw [if_pos hp, List.filter_cons_of_pos hp, List.foldl_cons]
      · rw [if_neg hp, List.filter_cons_of_neg hp]
  rw [← foldl_addOnce_nil, ← foldl_addOnce_nil, hrun]
  rfl

/-! ## Compiling a chain -/

/-- What a call notes. -/
theorem applyCall_notes (registry : Option PipeRegistry) (source : String) (o : Outcome)
    (c : Call) :
    (applyCall registry source o c).used =
        (c.registered? registry).toList.foldl addOnce o.used ∧
      (applyCall registry source o c).helpers = c.runtime?.toList.foldl addOnce o.helpers := by
  rw [applyCall, Call.registered?, Call.runtime?]
  by_cases hname : c.name = ""
  · rw [if_pos (by simp [hname]), if_pos (.inl hname), hname]
    exact ⟨rfl, rfl⟩
  · rw [if_neg (by simpa using hname)]
    cases hbuiltIn : BuiltIn.ofName? c.name with
    | some p =>
      rw [if_pos (.inr rfl)]
      refine ⟨rfl, ?_⟩
      change (p.helper? c.args).elim o.helpers (addOnce o.helpers) =
        (p.helper? c.args).toList.foldl addOnce o.helpers
      cases p.helper? c.args <;> rfl
    | none =>
      rw [if_neg (by simp [hname])]
      cases registry.bind (·.get? c.name) <;> exact ⟨rfl, rfl⟩

/-- What calls note, one after the other. -/
theorem foldl_applyCall_notes (registry : Option PipeRegistry) (source : String)
    (calls : List Call) (o : Outcome) :
    (calls.foldl (applyCall registry source) o).used =
        (calls.filterMap (·.registered? registry)).foldl addOnce o.used ∧
      (calls.foldl (applyCall registry source) o).helpers =
        (calls.filterMap Call.runtime?).foldl addOnce o.helpers := by
  induction calls generalizing o with
  | nil => exact ⟨rfl, rfl⟩
  | cons c calls ih =>
    obtain ⟨hused, hhelpers⟩ := applyCall_notes registry source o c
    rw [List.foldl_cons, (ih _).1, (ih _).2, hused, hhelpers, List.filterMap_cons,
      List.filterMap_cons]
    refine ⟨?_, ?_⟩
    · cases c.registered? registry <;> rfl
    · cases c.runtime? <;> rfl

/-- What a chain notes. -/
theorem compile_notes (registry : Option PipeRegistry) (chain : String) :
    (compile registry chain).used =
        ((callsOf chain).filterMap (·.registered? registry)).foldl addOnce [] ∧
      (compile registry chain).helpers =
        ((callsOf chain).filterMap Call.runtime?).foldl addOnce [] := by
  rw [compile, callsOf]
  generalize parse (strip chain) = parsed
  obtain ⟨value, calls⟩ := parsed
  exact foldl_applyCall_notes registry (strip chain) calls { text := value }

/-- A warning about a call is about its pipe. -/
theorem code_of_mem_applyCall {registry : Option PipeRegistry} {source : String} {o : Outcome}
    {c : Call} {w : Warning} (hw : w ∈ (applyCall registry source o c).warnings) :
    w ∈ o.warnings ∨ w.code = .unknownPipe ∨ w.code = .emptyPipeName := by
  rw [applyCall] at hw
  split at hw
  · rcases List.mem_append.mp hw with hw | hw
    · exact .inl hw
    · rw [List.mem_singleton.mp hw]
      exact .inr (.inr rfl)
  · split at hw
    · exact .inl hw
    · split at hw
      · exact .inl hw
      · rcases List.mem_append.mp hw with hw | hw
        · exact .inl hw
        · rw [List.mem_singleton.mp hw]
          exact .inr (.inl rfl)

/-- The warnings about a chain are about pipes. -/
theorem code_of_mem_compile {registry : Option PipeRegistry} {chain : String} {w : Warning}
    (hw : w ∈ (compile registry chain).warnings) :
    w.code = .unknownPipe ∨ w.code = .emptyPipeName := by
  have hcalls : ∀ (cs : List Call) (source : String) (o : Outcome),
      w ∈ (cs.foldl (applyCall registry source) o).warnings →
        w ∈ o.warnings ∨ w.code = .unknownPipe ∨ w.code = .emptyPipeName := by
    intro cs source
    induction cs with
    | nil => exact fun o ho => .inl ho
    | cons c cs ih =>
      intro o ho
      rcases ih _ ho with hw | hcode
      · exact code_of_mem_applyCall hw
      · exact .inr hcode
  rw [compile] at hw
  generalize parse (strip chain) = parsed at hw
  obtain ⟨value, calls⟩ := parsed
  exact (hcalls calls _ { text := value } hw).resolve_left List.not_mem_nil

end Pipe

/-! ## Expressions inside of attribute values -/

/-- The expression of a piece of an attribute value. -/
def ValuePart.expression? : ValuePart → Option String
  | .text _ => none
  | .expression e => some e

/-- The two parts around the first occurrence of a pattern. -/
theorem eq_of_breakAt? {pat cs before after : List Char}
    (h : breakAt? pat cs = some (before, after)) : cs = before ++ (pat ++ after) := by
  induction cs generalizing before with
  | nil =>
    rw [breakAt?] at h
    split at h
    · next hpat =>
      cases h
      simpa using hpat
    · cases h
  | cons c cs ih =>
    rw [breakAt?] at h
    split at h
    · next hpat =>
      cases h
      exact (List.prefix_iff_eq_append.mp (List.isPrefixOf_iff_prefix.mp hpat)).symm
    · obtain ⟨rest, hrest, heq⟩ := Option.map_eq_some_iff.mp h
      cases heq
      rw [List.cons_append, ← ih hrest]

/-- What does not occur in a text does not occur in what is left of it. -/
theorem breakAt?_of_append {pat cs : List Char} (before : List Char)
    (h : breakAt? pat (before ++ cs) = none) : breakAt? pat cs = none := by
  induction before with
  | nil => exact h
  | cons c before ih =>
    rw [List.cons_append, breakAt?] at h
    split at h
    · cases h
    · exact ih (Option.map_eq_none_iff.mp h)

theorem bracedExpressions_eq (cs : List Char) :
    bracedExpressions cs =
      match breakAt? ['\x7b', '\x7b'] cs with
      | none => []
      | some (_, after) =>
        match breakAt? ['\x7d', '\x7d'] after with
        | none => []
        | some (inside, rest) =>
          String.ofList (stripChars inside) :: bracedExpressions rest := by
  rw [bracedExpressions]
  split
  · next hopen => rw [hopen]
  · next hopen =>
    rw [hopen]
    dsimp only
    split
    · next hclose => rw [hclose]
    · next hclose => rw [hclose]

/-- Without a closing pair there is no expression. -/
theorem bracedExpressions_of_unclosed {cs : List Char} (h : breakAt? ['\x7d', '\x7d'] cs = none) :
    bracedExpressions cs = [] := by
  rw [bracedExpressions_eq]
  cases hopen : breakAt? ['\x7b', '\x7b'] cs with
  | none => rfl
  | some parts =>
    obtain ⟨before, after⟩ := parts
    rw [eq_of_breakAt? hopen, ← List.append_assoc] at h
    dsimp only
    rw [breakAt?_of_append _ h]

/-- Before the first opening pair there is no expression. -/
theorem bracedExpressions_cons {c : Char} {cs : List Char}
    (h : ¬ ['\x7b', '\x7b'].isPrefixOf (c :: cs) = true) :
    bracedExpressions (c :: cs) = bracedExpressions cs := by
  rw [bracedExpressions_eq, bracedExpressions_eq cs, breakAt?, if_neg h]
  cases breakAt? ['\x7b', '\x7b'] cs <;> rfl

theorem bracedExpressions_opened (cs : List Char) :
    bracedExpressions ('\x7b' :: '\x7b' :: cs) =
      match breakAt? ['\x7d', '\x7d'] cs with
      | none => []
      | some (inside, rest) => String.ofList (stripChars inside) :: bracedExpressions rest := by
  rw [bracedExpressions_eq]
  rfl

theorem expressions_extend (c : Char) (parts : List ValuePart) :
    (ValuePart.extend c parts).filterMap ValuePart.expression? =
      parts.filterMap ValuePart.expression? := by
  match parts with
  | [] => rfl
  | .text cs :: parts => rfl
  | .expression e :: parts => rfl

theorem valuePartsFrom_skip (skip : Nat) (cs : List Char) :
    valuePartsFrom skip cs = valuePartsFrom 0 (cs.drop skip) := by
  induction cs generalizing skip with
  | nil => cases skip <;> rfl
  | cons c cs ih =>
    cases skip with
    | zero => rfl
    | succ skip => rw [valuePartsFrom, ih, List.drop_succ_cons]

/-- **Reading an attribute value**: it is empty, or starts with text, with an opening pair of braces
that is not closed, or with an expression. -/
theorem valueParts_induction {P : List Char → List ValuePart → Prop} (nil : P [] [])
    (text : ∀ c cs, ¬ ['\x7b', '\x7b'].isPrefixOf (c :: cs) = true → P cs (valuePartsFrom 0 cs) →
      P (c :: cs) (ValuePart.extend c (valuePartsFrom 0 cs)))
    (unclosed : ∀ cs, breakAt? ['\x7d', '\x7d'] cs = none →
      P ('\x7b' :: cs) (valuePartsFrom 0 ('\x7b' :: cs)) →
      P ('\x7b' :: '\x7b' :: cs) (ValuePart.extend '\x7b' (valuePartsFrom 0 ('\x7b' :: cs))))
    (expression : ∀ cs inside rest, breakAt? ['\x7d', '\x7d'] cs = some (inside, rest) →
      P rest (valuePartsFrom 0 rest) →
      P ('\x7b' :: '\x7b' :: cs)
        (.expression (String.ofList (stripChars inside)) :: valuePartsFrom 0 rest))
    (cs : List Char) : P cs (valuePartsFrom 0 cs) := by
  induction hlen : cs.length using Nat.strongRecOn generalizing cs with
  | ind n ih =>
    cases cs with
    | nil => exact nil
    | cons c cs =>
      rw [List.length_cons] at hlen
      have htail := ih cs.length (by omega) cs rfl
      rw [valuePartsFrom]
      split
      · next hopen =>
        obtain ⟨rfl, after, rfl⟩ : c = '\x7b' ∧ ∃ after, cs = '\x7b' :: after := by
          obtain ⟨after, hafter⟩ := List.isPrefixOf_iff_prefix.mp hopen
          cases hafter
          exact ⟨rfl, after, rfl⟩
        rw [List.drop_one, List.tail_cons]
        cases hclose : breakAt? ['\x7d', '\x7d'] after with
        | none => exact unclosed after hclose htail
        | some parts =>
          obtain ⟨inside, rest⟩ := parts
          have hdrop : ('\x7b' :: after).drop (inside.length + 3) = rest := by
            rw [eq_of_breakAt? hclose, List.drop_succ_cons, ← List.append_assoc]
            exact List.drop_left' (by simp)
          have hlt : rest.length < n := by
            have hbreak := length_breakAt? hclose nofun
            rw [List.length_cons] at hlen
            omega
          dsimp only
          rw [valuePartsFrom_skip, hdrop]
          exact expression after inside rest hclose (ih rest.length hlt rest rfl)
      · next hopen => exact text c cs hopen htail

/-- **The expressions among the pieces of a value** are those between doubled braces. -/
theorem expressions_valuePartsFrom (cs : List Char) :
    (valuePartsFrom 0 cs).filterMap ValuePart.expression? = bracedExpressions cs := by
  refine valueParts_induction
    (P := fun cs parts => parts.filterMap ValuePart.expression? = bracedExpressions cs)
    ?_ ?_ ?_ ?_ cs
  · exact (bracedExpressions_of_unclosed rfl).symm
  · intro c cs hopen ih
    rw [expressions_extend, ih, bracedExpressions_cons hopen]
  · intro cs hclose ih
    have hnone : bracedExpressions ('\x7b' :: cs) = [] :=
      bracedExpressions_of_unclosed (by simp [breakAt?, hclose])
    rw [expressions_extend, ih, hnone, bracedExpressions_opened, hclose]
  · intro cs inside rest hclose ih
    rw [bracedExpressions_opened, hclose, List.filterMap_cons, ih]
    rfl

/-- The expressions of a plain attribute. -/
def PlainForm.expressions : PlainForm → List String
  | .interpolated parts => parts.filterMap ValuePart.expression?
  | _ => []

/-- **The expressions of a plain attribute** are those of its value, however it is written. -/
theorem expressions_plainForm (name : String) (value : Option String) :
    (plainForm name value).expressions = bracedExpressions (value.getD "").toList := by
  have hnone : ∀ {cs : List Char}, breakAt? ['\x7b', '\x7b'] cs = none →
      bracedExpressions cs = [] := by
    intro cs h
    rw [bracedExpressions_eq, h]
  cases value with
  | none => exact (hnone rfl).symm
  | some value =>
    rw [plainForm, Option.getD_some]
    split
    · next htrue =>
      rw [htrue]
      exact (hnone rfl).symm
    · split
      · next hdigits =>
        refine (hnone ?_).symm
        cases hopen : breakAt? ['\x7b', '\x7b'] value.toList with
        | none => rfl
        | some parts =>
          obtain ⟨before, after⟩ := parts
          simp only [Bool.and_eq_true, List.all_eq_true] at hdigits
          have hbrace := hdigits.2 '\x7b' (by rw [eq_of_breakAt? hopen]; simp)
          exact absurd hbrace (by decide)
      · split
        · exact expressions_valuePartsFrom value.toList
        · next hno =>
          refine (hnone ?_).symm
          rw [occurs, Bool.not_eq_true, Option.isSome_eq_false_iff,
            Option.isNone_iff_eq_none] at hno
          exact hno

end Trellis.Jsx
