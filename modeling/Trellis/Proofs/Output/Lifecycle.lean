import Mathlib.Algebra.GroupWithZero.Nat
import Trellis.Proofs.Output.Locals
import Trellis.Proofs.Output.Members

/-!
# Lifecycle methods

The effect of an island runs the methods for its coming (`initMethods`) when the component comes,
and those for its going (`destroyMethods`) when it goes. A class can have several of either kind,
and any of them can be asynchronous.

* `Effect` is the code of an effect with any number of bodies, perhaps with code around each of
  them, in functions that may be asynchronous. `Effect.Serves` says that it serves a class: every
  body is in it, in order, and those of asynchronous methods are in asynchronous functions.
* `effect_serves_iff`: the effect that is written serves a class exactly if of either kind at most
  the last method has a body, and is not asynchronous then (`Lone`).
* `component_lifecycle`: the same for the module of an island.
-/

namespace Trellis.Output

open Trellis.Build
open Trellis.Jsx
open Trellis.Project
open Trellis.Text
open Trellis.TypeScript

/-! ## Effects -/

/-- A body in an effect, with the code before and after it. -/
structure EffectBody where
  text : String
  before : String := ""
  after : String := ""

/-- The code of a body. -/
def EffectBody.code (margin : String) (b : EffectBody) : String :=
  b.before ++ indent b.text margin ++ b.after

/-- A function with bodies in it, one after the other. -/
structure EffectFunction where
  isAsync : Bool
  bodies : List EffectBody

/-- How the function starts. -/
def EffectFunction.opening (f : EffectFunction) : String :=
  (if f.isAsync then "async " else "") ++ "() => \x7b"

/-- An effect: what runs when a component comes, and what runs when it goes. -/
structure Effect where
  setup : EffectFunction
  cleanup : EffectFunction

/-- The lines of the function that runs when a component goes, if there is anything to run. -/
def EffectFunction.cleanupLines (f : EffectFunction) : List String :=
  if f.bodies.isEmpty then []
  else ("    return " ++ f.opening) :: f.bodies.map (·.code "      ") ++ ["    \x7d;"]

/-- The lines of an effect, if there is anything to run. -/
def Effect.lines (e : Effect) : List String :=
  if e.setup.bodies.isEmpty && e.cleanup.bodies.isEmpty then []
  else
    ("  useEffect(" ++ e.setup.opening) :: e.setup.bodies.map (·.code "    ") ++
      e.cleanup.cleanupLines ++ ["  \x7d, []);"]

/-! ## What an effect has to do -/

/-- The methods of a class with one of these names, in declaration order. -/
def methodsNamed (names : List String) (c : ClassModel) : List Method :=
  c.methods.filter fun m => names.contains m.name

/-- A body of an effect is that of a method, and if this is asynchronous, so is the function around
the body. -/
structure RunsBody (r : Renaming) (isAsync : Bool) (m : Method) (b : EffectBody) : Prop where
  text : b.text = bodyText r m.body
  async : m.isAsync = true → isAsync = true ∨ occurs "async" b.before = true

/-- The bodies of a function are those of the methods, in order. -/
def EffectFunction.Serves (r : Renaming) (methods : List Method) (f : EffectFunction) : Prop :=
  List.Forall₂ (RunsBody r f.isAsync) (methods.filter fun m => bodyText r m.body ≠ "") f.bodies

/-- An effect serves a class. -/
structure Effect.Serves (r : Renaming) (c : ClassModel) (e : Effect) : Prop where
  setup : e.setup.Serves r (methodsNamed initMethods c)
  cleanup : e.cleanup.Serves r (methodsNamed destroyMethods c)

/-- At most the last method has a body, and it is not asynchronous then. -/
structure Lone (r : Renaming) (methods : List Method) : Prop where
  earlier : ∀ m ∈ methods.dropLast, bodyText r m.body = ""
  last : ∀ m ∈ methods.getLast?, m.isAsync = true → bodyText r m.body = ""

/-- The lines that are written. -/
def writtenEffect (r : Renaming) (c : ClassModel) : List String :=
  effectLines (lastBody r initMethods c) (lastBody r destroyMethods c)

/-! ## Lone methods -/

section

variable {r : Renaming} {methods : List Method} {f : EffectFunction}

/-- The body of the last method. -/
def lastText (r : Renaming) (methods : List Method) : String :=
  ((methods.getLast?).map (bodyText r ·.body)).getD ""

theorem lastText_concat (front : List Method) (m : Method) :
    lastText r (front ++ [m]) = bodyText r m.body := by
  rw [lastText, List.getLast?_concat]
  rfl

theorem lone_concat_iff {front : List Method} {m : Method} :
    Lone r (front ++ [m]) ↔
      (∀ n ∈ front, bodyText r n.body = "") ∧ (m.isAsync = true → bodyText r m.body = "") := by
  constructor
  · intro h
    exact ⟨fun n hn => h.earlier n (by rwa [List.dropLast_concat]),
      h.last m List.getLast?_concat⟩
  · rintro ⟨hfront, hm⟩
    refine ⟨fun n hn => hfront n (by rwa [List.dropLast_concat] at hn), fun n hn => ?_⟩
    rw [List.getLast?_concat] at hn
    rwa [← Option.mem_some_iff.mp hn]

theorem lone_of_empty (h : ∀ m ∈ methods, bodyText r m.body = "") : Lone r methods :=
  ⟨fun m hm => h m (List.dropLast_subset _ hm),
    fun m hm _ => h m (List.mem_of_getLast? hm)⟩

/-- Of lone methods there is one body at most. -/
theorem bodies_of_lone (h : Lone r methods) :
    (methods.filter fun m => bodyText r m.body ≠ "").map (bodyText r ·.body) =
      if lastText r methods = "" then [] else [lastText r methods] := by
  rcases List.eq_nil_or_concat methods with rfl | ⟨front, m, hm⟩
  · rfl
  · rw [List.concat_eq_append] at hm
    subst hm
    have hfront : front.filter (fun m => bodyText r m.body ≠ "") = [] := by
      rw [List.filter_eq_nil_iff]
      intro n hn
      simpa using (lone_concat_iff.mp h).1 n hn
    rw [List.filter_append, hfront, List.nil_append, lastText_concat]
    by_cases hempty : bodyText r m.body = "" <;> simp [hempty]

theorem not_async_of_lone (h : Lone r methods) {m : Method} (hm : m ∈ methods)
    (hbody : bodyText r m.body ≠ "") : m.isAsync = false := by
  rcases List.eq_nil_or_concat methods with rfl | ⟨front, n, hn⟩
  · cases hm
  · rw [List.concat_eq_append] at hn
    subst hn
    obtain ⟨hfront, hlast⟩ := lone_concat_iff.mp h
    rcases List.mem_append.mp hm with hm | hm
    · exact absurd (hfront m hm) hbody
    · obtain rfl := List.mem_singleton.mp hm
      exact Bool.eq_false_iff.mpr (mt hlast hbody)

/-- The bodies of the methods with nothing around them. -/
def plainFunction (r : Renaming) (methods : List Method) : EffectFunction :=
  ⟨false, (methods.filter fun m => bodyText r m.body ≠ "").map fun m =>
    { text := bodyText r m.body }⟩

/-- Lone methods need no asynchronous function. -/
theorem serves_plainFunction (h : Lone r methods) : (plainFunction r methods).Serves r methods := by
  rw [EffectFunction.Serves, plainFunction, List.forall₂_map_right_iff, List.forall₂_same]
  intro m hm
  obtain ⟨hmem, hbody⟩ := List.mem_filter.mp hm
  refine ⟨rfl, fun hasync => ?_⟩
  rw [not_async_of_lone h hmem (by simpa using hbody)] at hasync
  cases hasync

theorem code_plain (margin text : String) :
    EffectBody.code margin { text } = indent text margin := by
  simp [EffectBody.code]

theorem map_code_plainFunction (h : Lone r methods) (margin : String) :
    (plainFunction r methods).bodies.map (·.code margin) =
      if lastText r methods = "" then [] else [indent (lastText r methods) margin] := by
  have hcode : (plainFunction r methods).bodies.map (·.code margin) =
      ((methods.filter fun m => bodyText r m.body ≠ "").map (bodyText r ·.body)).map
        (indent · margin) := by
    simp only [plainFunction, List.map_map, Function.comp_def, code_plain]
  rw [hcode, bodies_of_lone h]
  split <;> rfl

end

/-! ## The size of a text -/

/-- The length of lines with their ends. -/
def lineSize (ls : List String) : Nat := (ls.map fun l => l.length + 1).sum

theorem lineSize_append (ls ms : List String) :
    lineSize (ls ++ ms) = lineSize ls + lineSize ms := by
  rw [lineSize, List.map_append, List.sum_append]
  rfl

theorem lineSize_cons (l : String) (ls : List String) :
    lineSize (l :: ls) = l.length + 1 + lineSize ls := by
  rw [lineSize, List.map_cons, List.sum_cons]
  rfl

theorem lineSize_eq_zero {ls : List String} : lineSize ls = 0 ↔ ls = [] := by
  cases ls with
  | nil => exact iff_of_true rfl rfl
  | cons l ls =>
    rw [lineSize_cons]
    exact iff_of_false (by omega) (List.cons_ne_nil _ _)

theorem length_lines {ls : List String} (h : ls ≠ []) : (lines ls).length + 1 = lineSize ls := by
  induction ls with
  | nil => exact absurd rfl h
  | cons l ls ih =>
    by_cases hls : ls = []
    · subst hls
      rw [lines, String.intercalate_singleton]
      rfl
    · have hparts := lines_append (List.cons_ne_nil l []) hls
      rw [List.singleton_append] at hparts
      rw [hparts, lineSize_cons, ← ih hls, lines, String.intercalate_singleton,
        String.length_append, String.length_append]
      have hfeed : "\n".length = 1 := by decide
      omega

/-- Functions of one text have lines of one size. -/
theorem lineSize_of_functionText {head returned : String} {ls ms : List String}
    (h : functionText head ls returned = functionText head ms returned) :
    lineSize ls = lineSize ms := by
  have hlength := congrArg String.length h
  simp only [functionText, String.length_append] at hlength
  have hsize (ls : List String) :
      (if ls.isEmpty then "" else lines ls ++ "\n\n").length =
        if lineSize ls = 0 then 0 else lineSize ls + 1 := by
    cases ls with
    | nil => rfl
    | cons l ls =>
      have hlines := length_lines (List.cons_ne_nil l ls)
      have hends : "\n\n".length = 2 := by decide
      rw [if_neg (by simp), if_neg (by omega), String.length_append]
      omega
  rw [hsize, hsize] at hlength
  split at hlength <;> split at hlength <;> omega

/-! ## Every effect that serves is as long -/

/-- The size of a body that is written alone. -/
def bodySize (margin text : String) : Nat :=
  if text = "" then 0 else (indent text margin).length + 1

/-- The size of the bodies of a function, and of the word that makes it asynchronous. -/
def EffectFunction.size (margin : String) (f : EffectFunction) : Nat :=
  (if f.isAsync then 6 else 0) + lineSize (f.bodies.map (·.code margin))

/-- The size of the function that runs when a component goes. -/
def EffectFunction.cleanupSize (f : EffectFunction) : Nat :=
  if f.bodies = [] then 0 else 26 + f.size "      "

theorem length_opening (f : EffectFunction) :
    f.opening.length = 7 + if f.isAsync then 6 else 0 := by
  rw [EffectFunction.opening, String.length_append]
  cases f.isAsync <;> decide

theorem lineSize_cleanupLines (f : EffectFunction) : lineSize f.cleanupLines = f.cleanupSize := by
  rw [EffectFunction.cleanupLines, EffectFunction.cleanupSize]
  by_cases hbodies : f.bodies = []
  · simp [hbodies, lineSize]
  · have hreturn : "    return ".length = 11 := by decide
    have hclose : lineSize ["    \x7d;"] = 7 := by decide
    rw [if_neg (by simpa using hbodies), if_neg hbodies, List.cons_append, lineSize_cons,
      lineSize_append, hclose, String.length_append, hreturn, length_opening,
      EffectFunction.size]
    omega

theorem lineSize_effect (e : Effect) :
    lineSize e.lines =
      if e.setup.bodies = [] ∧ e.cleanup.bodies = [] then 0
      else 30 + e.setup.size "    " + e.cleanup.cleanupSize := by
  rw [Effect.lines]
  by_cases hbodies : e.setup.bodies = [] ∧ e.cleanup.bodies = []
  · simp [hbodies, lineSize]
  · have huse : "  useEffect(".length = 12 := by decide
    have hclose : lineSize ["  \x7d, []);"] = 10 := by decide
    rw [if_neg (by simpa using hbodies), if_neg hbodies, lineSize_append, List.cons_append,
      lineSize_cons, lineSize_append, hclose, String.length_append, huse, length_opening,
      lineSize_cleanupLines, EffectFunction.size]
    omega

theorem lineSize_effectLines (init destroy : String) :
    lineSize (effectLines init destroy) =
      if init = "" ∧ destroy = "" then 0
      else 30 + bodySize "    " init +
        if destroy = "" then 0 else 26 + bodySize "      " destroy := by
  have hcoming : lineSize (if init.isEmpty then [] else [indent init "    "]) =
      bodySize "    " init := by
    rw [bodySize]
    by_cases hinit : init = "" <;> simp [hinit, lineSize]
  have hgoing : lineSize (if destroy.isEmpty then [] else
      ["    return () => \x7b\n" ++ indent destroy "      " ++ "\n    \x7d;"]) =
        if destroy = "" then 0 else 26 + bodySize "      " destroy := by
    rw [bodySize]
    by_cases hdestroy : destroy = ""
    · simp [hdestroy, lineSize]
    · have hopen : "    return () => \x7b\n".length = 19 := by decide
      have hclose : "\n    \x7d;".length = 7 := by decide
      rw [if_neg (by simpa using hdestroy), if_neg hdestroy, if_neg hdestroy, lineSize_cons,
        String.length_append, String.length_append, hopen, hclose, lineSize_eq_zero.mpr rfl]
      omega
  rw [effectLines]
  by_cases hempty : init = "" ∧ destroy = ""
  · simp [hempty, lineSize]
  · have hopen : "  useEffect(() => \x7b".length = 19 := by decide
    have hclose : lineSize ["  \x7d, []);"] = 10 := by decide
    rw [if_neg (by simpa using hempty), if_neg hempty, lineSize_append, lineSize_append,
      lineSize_cons, hcoming, hgoing, hopen, hclose]
    omega

section

variable {r : Renaming} {methods : List Method} {f : EffectFunction}

theorem EffectFunction.Serves.of_nil (h : f.Serves r methods) (hbodies : f.bodies = []) :
    Lone r methods ∧ lastText r methods = "" := by
  rw [EffectFunction.Serves, hbodies, List.forall₂_nil_right_iff, List.filter_eq_nil_iff] at h
  have hempty : ∀ m ∈ methods, bodyText r m.body = "" := fun m hm => by simpa using h m hm
  refine ⟨lone_of_empty hempty, ?_⟩
  rw [lastText]
  cases hlast : methods.getLast? with
  | none => rfl
  | some m => exact hempty m (List.mem_of_getLast? hlast)

/-- The body of a last method that has one. -/
theorem EffectFunction.Serves.of_concat {front : List Method} {m : Method}
    (h : f.Serves r (front ++ [m])) (hm : bodyText r m.body ≠ "") :
    ∃ bs b, f.bodies = bs ++ [b] ∧ RunsBody r f.isAsync m b ∧
      (bs = [] → ∀ n ∈ front, bodyText r n.body = "") := by
  have hlast : [m].filter (fun m => bodyText r m.body ≠ "") = [m] := by simp [hm]
  rw [EffectFunction.Serves, List.filter_append, hlast] at h
  have hfront := List.forall₂_take_append _ _ _ h.flip
  have hback := List.forall₂_drop_append _ _ _ h.flip
  rw [List.forall₂_cons_right_iff] at hback
  obtain ⟨b, rest, hb, hrest, hdrop⟩ := hback
  rw [List.forall₂_nil_right_iff] at hrest
  subst hrest
  refine ⟨f.bodies.take (front.filter fun m => bodyText r m.body ≠ "").length, b, ?_, hb,
    fun hnil n hn => ?_⟩
  · rw [← hdrop, List.take_append_drop]
  · rw [hnil, List.forall₂_nil_left_iff, List.filter_eq_nil_iff] at hfront
    simpa using hfront n hn

/-- **A function that serves methods is at least as long** as the body of the last one, and as long
only if that is all there is to run. -/
theorem EffectFunction.Serves.size_le (h : f.Serves r methods) (hbodies : f.bodies ≠ [])
    (margin : String) :
    bodySize margin (lastText r methods) ≤ f.size margin ∧
      (bodySize margin (lastText r methods) = f.size margin → Lone r methods) := by
  have hpositive : 0 < f.size margin := by
    obtain ⟨b, rest, hrest⟩ := List.exists_cons_of_ne_nil hbodies
    rw [EffectFunction.size, hrest, List.map_cons, lineSize_cons]
    omega
  rcases List.eq_nil_or_concat methods with rfl | ⟨front, m, hm⟩
  · rw [EffectFunction.Serves, List.filter_nil, List.forall₂_nil_left_iff] at h
    exact absurd h hbodies
  · rw [List.concat_eq_append] at hm
    subst hm
    rw [lastText_concat, bodySize]
    by_cases hempty : bodyText r m.body = ""
    · rw [if_pos hempty]
      exact ⟨Nat.zero_le _, fun heq => absurd heq (by omega)⟩
    · rw [if_neg hempty]
      obtain ⟨bs, b, hsplit, hb, hfront⟩ := h.of_concat hempty
      have hcode : (b.code margin).length =
          b.before.length + (indent (bodyText r m.body) margin).length + b.after.length := by
        rw [EffectBody.code, String.length_append, String.length_append, hb.text]
      have hsize : f.size margin = (if f.isAsync then 6 else 0) +
          (lineSize (bs.map (·.code margin)) + ((b.code margin).length + 1)) := by
        rw [EffectFunction.size, hsplit, List.map_append, lineSize_append, List.map_singleton,
          lineSize_cons, lineSize_eq_zero.mpr rfl, Nat.add_zero]
      refine ⟨by omega, fun heq => lone_concat_iff.mpr ⟨hfront ?_, fun hasync => ?_⟩⟩
      · have hnil : lineSize (bs.map (·.code margin)) = 0 := by omega
        simpa using lineSize_eq_zero.mp hnil
      · rcases hb.async hasync with hfunction | haround
        · rw [if_pos hfunction] at hsize
          omega
        · have hbefore : b.before = "" := String.length_eq_zero_iff.mp (by omega)
          rw [hbefore] at haround
          exact absurd haround (by decide)

/-- The same for what runs when a component goes. -/
theorem EffectFunction.Serves.cleanup_le (h : f.Serves r methods) :
    (if lastText r methods = "" then 0 else 26 + bodySize "      " (lastText r methods)) ≤
        f.cleanupSize ∧
      ((if lastText r methods = "" then 0 else 26 + bodySize "      " (lastText r methods)) =
        f.cleanupSize → Lone r methods) := by
  rw [EffectFunction.cleanupSize]
  by_cases hbodies : f.bodies = []
  · obtain ⟨hlone, hempty⟩ := h.of_nil hbodies
    rw [if_pos hempty, if_pos hbodies]
    exact ⟨Nat.le_refl _, fun _ => hlone⟩
  · obtain ⟨hle, heq⟩ := h.size_le hbodies "      "
    rw [if_neg hbodies]
    split
    · exact ⟨Nat.zero_le _, fun habsurd => absurd habsurd (by omega)⟩
    · exact ⟨by omega, fun hsame => heq (by omega)⟩

/-- The same for what runs when a component comes. -/
theorem EffectFunction.Serves.setup_le (h : f.Serves r methods) :
    bodySize "    " (lastText r methods) ≤ f.size "    " ∧
      (bodySize "    " (lastText r methods) = f.size "    " → Lone r methods) := by
  by_cases hbodies : f.bodies = []
  · obtain ⟨hlone, hempty⟩ := h.of_nil hbodies
    rw [hempty]
    exact ⟨Nat.zero_le _, fun _ => hlone⟩
  · exact h.size_le hbodies "    "

end

/-- An effect that serves a class and has the size of the one that is written. -/
theorem lone_of_serves {r : Renaming} {c : ClassModel} {e : Effect} (h : e.Serves r c)
    (hsize : lineSize e.lines = lineSize (writtenEffect r c)) :
    Lone r (methodsNamed initMethods c) ∧ Lone r (methodsNamed destroyMethods c) := by
  rw [writtenEffect, lineSize_effect, lineSize_effectLines] at hsize
  change _ = if lastText r (methodsNamed initMethods c) = "" ∧
    lastText r (methodsNamed destroyMethods c) = "" then 0 else
      30 + bodySize "    " (lastText r (methodsNamed initMethods c)) +
        if lastText r (methodsNamed destroyMethods c) = "" then 0 else
          26 + bodySize "      " (lastText r (methodsNamed destroyMethods c)) at hsize
  obtain ⟨hsetup, hlone⟩ := h.setup.setup_le
  obtain ⟨hcleanup, hlone'⟩ := h.cleanup.cleanup_le
  by_cases hnil : e.setup.bodies = [] ∧ e.cleanup.bodies = []
  · exact ⟨(h.setup.of_nil hnil.1).1, (h.cleanup.of_nil hnil.2).1⟩
  · rw [if_neg hnil] at hsize
    split at hsize
    · omega
    · exact ⟨hlone (by omega), hlone' (by omega)⟩

/-! ## The effect that is written -/

/-- The effect of lone methods. -/
def plainEffect (r : Renaming) (c : ClassModel) : Effect :=
  ⟨plainFunction r (methodsNamed initMethods c), plainFunction r (methodsNamed destroyMethods c)⟩

theorem plainFunction_bodies_eq_nil {r : Renaming} {methods : List Method} (h : Lone r methods) :
    (plainFunction r methods).bodies = [] ↔ lastText r methods = "" := by
  have hcode := map_code_plainFunction h ""
  constructor
  · intro hnil
    by_contra hlast
    rw [hnil, if_neg hlast] at hcode
    cases hcode
  · intro hlast
    rw [if_pos hlast] at hcode
    exact List.map_eq_nil_iff.mp hcode

theorem lines_plainEffect {r : Renaming} {c : ClassModel}
    (hinit : Lone r (methodsNamed initMethods c))
    (hdestroy : Lone r (methodsNamed destroyMethods c)) :
    (plainEffect r c).lines =
      if lastBody r initMethods c = "" ∧ lastBody r destroyMethods c = "" then []
      else
        "  useEffect(() => \x7b" ::
          (if lastBody r initMethods c = "" then []
            else [indent (lastBody r initMethods c) "    "]) ++
          (if lastBody r destroyMethods c = "" then []
            else ["    return () => \x7b", indent (lastBody r destroyMethods c) "      ",
              "    \x7d;"]) ++ ["  \x7d, []);"] := by
  have hcoming := plainFunction_bodies_eq_nil hinit
  have hgoing := plainFunction_bodies_eq_nil hdestroy
  have hopening (methods : List Method) : (plainFunction r methods).opening = "() => \x7b" := rfl
  have hcleanup : (plainFunction r (methodsNamed destroyMethods c)).cleanupLines =
      if lastBody r destroyMethods c = "" then []
      else ["    return () => \x7b", indent (lastBody r destroyMethods c) "      ",
        "    \x7d;"] := by
    rw [EffectFunction.cleanupLines, map_code_plainFunction hdestroy, hopening]
    by_cases hempty : lastText r (methodsNamed destroyMethods c) = ""
    · rw [if_pos (List.isEmpty_iff.mpr (hgoing.mpr hempty))]
      exact (if_pos hempty).symm
    · rw [if_neg (mt (fun h => hgoing.mp (List.isEmpty_iff.mp h)) hempty), if_neg hempty]
      exact (if_neg hempty).symm
  rw [Effect.lines, plainEffect, map_code_plainFunction hinit, hopening, hcleanup]
  simp only [Bool.and_eq_true, List.isEmpty_iff, hcoming, hgoing]
  rfl

/-- The effect of lone methods is written. -/
theorem functionText_plainEffect {r : Renaming} {c : ClassModel}
    (hinit : Lone r (methodsNamed initMethods c))
    (hdestroy : Lone r (methodsNamed destroyMethods c))
    (head returned : String) (before after : List String) :
    functionText head (before ++ (plainEffect r c).lines ++ after) returned =
      functionText head (before ++ writtenEffect r c ++ after) returned := by
  rw [lines_plainEffect hinit hdestroy, writtenEffect, effectLines]
  simp only [Bool.and_eq_true, String.isEmpty_iff]
  generalize lastBody r initMethods c = init
  generalize lastBody r destroyMethods c = destroy
  by_cases hempty : init = "" ∧ destroy = ""
  · rw [if_pos hempty, if_pos hempty]
  · rw [if_neg hempty, if_neg hempty]
    by_cases hnone : destroy = ""
    · rw [if_pos hnone, if_pos hnone]
    · have hgoing : "    return () => \x7b\n" ++ indent destroy "      " ++ "\n    \x7d;" =
          lines ["    return () => \x7b", indent destroy "      ", "    \x7d;"] := by
        rw [← String.toList_inj]
        simp [lines]
      rw [if_neg hnone, if_neg hnone, hgoing]
      generalize (if init = "" then [] else [indent init "    "]) = coming
      have hflatten := functionText_flatten head returned
        (before ++ "  useEffect(() => \x7b" :: coming) ("  \x7d, []);" :: after)
        (List.cons_ne_nil "    return () => \x7b" [indent destroy "      ", "    \x7d;"])
      simpa using hflatten.symm

/-- **An effect that serves a class is written** exactly if its methods for both are lone. -/
theorem effect_serves_iff (r : Renaming) (c : ClassModel) (head returned : String)
    (before after : List String) :
    (∃ e : Effect, e.Serves r c ∧
        functionText head (before ++ e.lines ++ after) returned =
          functionText head (before ++ writtenEffect r c ++ after) returned) ↔
      Lone r (methodsNamed initMethods c) ∧ Lone r (methodsNamed destroyMethods c) := by
  constructor
  · rintro ⟨e, hserves, htext⟩
    have hsize := lineSize_of_functionText htext
    simp only [lineSize_append] at hsize
    exact lone_of_serves hserves (by omega)
  · rintro ⟨hinit, hdestroy⟩
    exact ⟨plainEffect r c, ⟨serves_plainFunction hinit, serves_plainFunction hdestroy⟩,
      functionText_plainEffect hinit hdestroy head returned before after⟩

/-! ## Islands -/

/-- The module of an island with an effect between its signals and its methods. -/
def moduleAround (v : View) (t : Transformed) (top returned : String)
    (setup effect : List String) : String :=
  top ++ functionText ("export default function " ++ v.className ++ parameterText v t)
    (setup ++ effect ++ (v.model.methods.filter (!·.isLifecycle)).map
      (islandMethod (islandNames v.model t))) returned ++ "\n"

/-- **Lifecycle methods of an island.** The function of its module has the effect of the class
between the locals and the methods. This is an effect that serves the class exactly if of the
methods for coming, and of those for going, at most the last one has a body, and it is not
asynchronous then. -/
theorem component_lifecycle {env : Environment} {v : View} {stylePath helpersImport : Option String}
    {file : File} (hfile : (component env v stylePath helpersImport).value = .ok file)
    (hisland : v.isIsland = true) :
    ∃ template t top returned setup,
      serviceReferences v.template v.model.dependencies = .ok template ∧
      t = (transform env false template).value ∧
      List.Forall₂ Local.SetBy (islandSetup v.model t) setup ∧
      file.content =
        moduleAround v t top returned setup (writtenEffect (islandNames v.model t) v.model) ∧
      ((∃ e : Effect, e.Serves (islandNames v.model t) v.model ∧
          file.content = moduleAround v t top returned setup e.lines) ↔
        Lone (islandNames v.model t) (methodsNamed initMethods v.model) ∧
          Lone (islandNames v.model t) (methodsNamed destroyMethods v.model)) := by
  obtain ⟨template, htemplate, rfl⟩ := component_eq_ok hfile
  obtain ⟨interface, hcontent, -⟩ :=
    content_componentModule env v template stylePath helpersImport rfl rfl
  simp only [if_pos hisland] at hcontent
  generalize ht : (transform env false template).value = t at hcontent
  obtain ⟨setup, htext, hsetup, -⟩ := functionText_island hisland t
    ("export default function " ++ v.className ++ parameterText v t)
    (returnExpression
      (signalReferences t.jsx (signalNames v.model (assignedInputs v.model v.inputs)))) rfl rfl
  rw [htext] at hcontent
  refine ⟨template, t, _, _, setup, htemplate, ht.symm, hsetup, hcontent, ?_⟩
  rw [← effect_serves_iff, hcontent]
  simp only [moduleAround, String.append_left_inj, String.append_right_inj]
  exact exists_congr fun e => and_congr_right fun _ => eq_comm

/-! ### A class with methods of both kinds -/

/-- A class with one method for coming and one for going. -/
def clockView : View :=
  ⟨.ofString "clock", "clock", .component { className := "Clock", island := some true },
    .ofString ("export class Clock \x7b ngOnInit() \x7b start(); \x7d " ++
      "ngOnDestroy() \x7b stop(); \x7d \x7d"), "<p/>", "mod.ts"⟩

theorem model_clockView : clockView.model.dependencies = [] ∧
    (methodsNamed initMethods clockView.model).map (·.isAsync) = [false] ∧
    (methodsNamed destroyMethods clockView.model).map (·.isAsync) = [false] := by
  decide +kernel

theorem exists_component_clockView : ∃ file, (component {} clockView).value = .ok file := by
  have htemplate :
      serviceReferences clockView.template clockView.model.dependencies = .ok "<p/>" := by
    rw [model_clockView.1]
    rfl
  rw [component, htemplate]
  exact ⟨_, rfl⟩

theorem lone_of_single {methods : List Method} (r : Renaming)
    (h : methods.map (·.isAsync) = [false]) : Lone r methods := by
  obtain ⟨m, rfl, hm⟩ := List.map_eq_singleton_iff.mp h
  refine ⟨fun n hn => absurd hn List.not_mem_nil, fun n hn hasync => ?_⟩
  obtain rfl : m = n := Option.some.inj hn
  rw [hm] at hasync
  cases hasync

theorem component_lifecycle_clockView :
    ∃ file, (component {} clockView).value = .ok file ∧ clockView.isIsland = true ∧
      ∃ t top returned setup, ∃ e : Effect,
        e.Serves (islandNames clockView.model t) clockView.model ∧
          file.content = moduleAround clockView t top returned setup e.lines := by
  obtain ⟨file, hfile⟩ := exists_component_clockView
  obtain ⟨template, t, top, returned, setup, -, -, -, -, hserves⟩ := component_lifecycle hfile rfl
  obtain ⟨-, hcoming, hgoing⟩ := model_clockView
  exact ⟨file, hfile, rfl, t, top, returned, setup,
    hserves.mpr ⟨lone_of_single _ hcoming, lone_of_single _ hgoing⟩⟩

/-- A class with two methods for coming, of which the second is asynchronous. -/
def twiceView : View :=
  ⟨.ofString "twice", "twice", .component { className := "Twice", island := some true },
    .ofString ("export class Twice \x7b ngOnInit() \x7b first(); \x7d " ++
      "async onInit() \x7b await second(); \x7d \x7d"), "<p/>", "mod.ts"⟩

theorem bodies_twiceView :
    (methodsNamed initMethods twiceView.model).map (fun m => (m.isAsync,
        bodyText (islandNames twiceView.model (transform {} false "<p/>").value) m.body)) =
      [(false, "first();"), (true, "await second();")] ∧
    writtenEffect (islandNames twiceView.model (transform {} false "<p/>").value) twiceView.model =
      ["  useEffect(() => \x7b", "    await second();", "  \x7d, []);"] := by
  decide +kernel

/-- The first body is lost, and the second one waits in a function that is not asynchronous. -/
theorem lost_twiceView :
    writtenEffect (islandNames twiceView.model (transform {} false "<p/>").value) twiceView.model =
      ["  useEffect(() => \x7b", "    await second();", "  \x7d, []);"] ∧
    ∀ head returned before after, ¬∃ e : Effect,
      e.Serves (islandNames twiceView.model (transform {} false "<p/>").value) twiceView.model ∧
        functionText head (before ++ e.lines ++ after) returned =
          functionText head (before ++ writtenEffect
            (islandNames twiceView.model (transform {} false "<p/>").value) twiceView.model ++
            after) returned := by
  obtain ⟨hbodies, hwritten⟩ := bodies_twiceView
  refine ⟨hwritten, fun head returned before after hserves => ?_⟩
  obtain ⟨hlone, -⟩ := (effect_serves_iff _ _ head returned before after).mp hserves
  generalize islandNames twiceView.model (transform {} false "<p/>").value = r at *
  obtain ⟨m, rest, hmethods, hfirst, hrest⟩ := List.map_eq_cons_iff.mp hbodies
  obtain ⟨n, rfl, -⟩ := List.map_eq_singleton_iff.mp hrest
  rw [hmethods] at hlone
  have hempty := hlone.earlier m List.mem_cons_self
  rw [(Prod.mk.inj hfirst).2] at hempty
  exact absurd hempty (by decide)

end Trellis.Output
