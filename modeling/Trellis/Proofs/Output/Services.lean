import Mathlib.Data.Bool.AllAny
import Mathlib.Data.List.Nodup
import Trellis.Output.References
import Trellis.Proofs.Output.Mentions
import Trellis.Proofs.Template.Seams

/-!
# Services called by their locals

A template is changed service by service, as text. What becomes of a mention is what the services
make of it one after the other (`resolve`), and not what the first of its name makes of it (`once`).

* `withService_eq`: one service renames the mentions of its name, with `this` before it or not.
* `splits_withServices`: services are called in every token alike, whatever its kind.
* `resolve_perm` and `exists_orders`: the order of the services counts exactly if the local of one
  is the name of another that has a different local.
* `serviceReferences_exact` puts these together.
-/

namespace Trellis.Output

open Trellis.Text
open Trellis.Template (tokenize slice isBorder Borderless split_token)
open Trellis.TypeScript (Dependency)

/-! ## The rule of one mention -/

/-- Puts a name in the place of one mention, at the places that are free. -/
def mentionPut (free : Option Char → Bool) (m : Mention) (name : List Char) : Rule := fun prev cs =>
  if free prev && (m.text ++ ['.']).isPrefixOf cs then
    some ((m.text ++ ['.']).length, name ++ ['.'])
  else none

section

variable {free : Option Char → Bool} {m : Mention} {name : List Char} {prev : Option Char}
  {s : List Char}

theorem mentionPut_hit (hfree : free prev = true) (h : m.text ++ ['.'] <+: s) :
    mentionPut free m name prev s = some ((m.text ++ ['.']).length, name ++ ['.']) := by
  rw [mentionPut, hfree, List.isPrefixOf_iff_prefix.mpr h, Bool.and_self, if_pos rfl]

theorem mentionPut_miss (h : m.text ++ ['.'] <+: s → free prev = false) :
    mentionPut free m name prev s = none := by
  rw [mentionPut]
  by_cases hfront : m.text ++ ['.'] <+: s
  · simp [h hfront]
  · rw [← List.isPrefixOf_iff_prefix, Bool.not_eq_true] at hfront
    simp [hfront]

/-- The rule looks at paths only. -/
theorem within_mentionPut (hm : m.Valid)
    (hfree : ∀ c, isPathChar c = false → free (some c) = free none) :
    (mentionPut free m name).Within isPathChar := by
  have hpath (c : Char) (hc : c ∈ m.text ++ ['.']) := isPathChar_of_mem_text hm hc
  constructor
  case start =>
    intro c s hc
    rw [mentionPut, mentionPut, hfree c hc]
  case outside =>
    intro prev c s hc
    refine mentionPut_miss fun h => ?_
    obtain ⟨d, t, -, htext⟩ := exists_text m
    have hd : d ∈ m.text ++ ['.'] := by
      rw [htext]
      exact List.mem_cons_self
    rw [htext] at h
    rw [← (List.cons_prefix_cons.mp h).1, hpath d hd] at hc
    cases hc
  case ahead =>
    intro prev t c s _ hc
    have hfront := prefix_append_cons hpath hc t s
    unfold mentionPut
    rw [Bool.eq_iff_iff.mpr (List.isPrefixOf_iff_prefix.trans
      (hfront.trans List.isPrefixOf_iff_prefix.symm))]
  case bounded =>
    intro prev s found h
    unfold mentionPut at h
    split at h
    · next hfront =>
      obtain rfl := Option.some.inj h
      rw [Bool.and_eq_true, List.isPrefixOf_iff_prefix] at hfront
      exact hfront.2.length_le
    · cases h

/-- Some mentions give way to a name. -/
def putFor (P : Mention → Prop) [DecidablePred P] (name : List Char) (m : Mention) : Mention :=
  if P m then ⟨false, name⟩ else m

section

variable {P : Mention → Prop} [DecidablePred P]

theorem putFor_valid (hname : Mention.Valid ⟨false, name⟩) (hm : m.Valid) :
    (putFor P name m).Valid := by
  unfold putFor
  split
  · exact hname
  · exact hm

theorem plain_putFor (hname : ∀ c ∈ name, isWordChar c = true) : Plain (putFor P name) := by
  intro m
  unfold putFor
  split
  · exact .inr ⟨rfl, hname⟩
  · exact .inl rfl

end

/-- The rule renames one mention, if the places outside of paths are free and no others. -/
theorem renames_mentionPut (hm : m.Valid) (hfree : ∀ prev, isInside prev = false → free prev = true)
    (htaken : ∀ prev s, ThisLeads (prev.toList ++ s) → isInside prev = true →
      m.text ++ ['.'] <+: s → free prev = false) :
    Renames (mentionPut free m name) (putFor (· = m) name) := by
  constructor
  case pass =>
    rintro prev s hs (hprev | hnone)
    · exact mentionPut_miss (htaken prev s hs hprev)
    · refine mentionPut_miss fun h => ?_
      rw [mention?_eq_some.mpr ⟨hm, h⟩] at hnone
      cases hnone
  case mention =>
    intro prev m' s hprev hm'
    by_cases hsame : m' = m
    · left
      subst hsame
      have hfront : m'.text ++ ['.'] <+: m'.text ++ '.' :: s := ⟨s, List.append_assoc ..⟩
      rw [mentionPut_hit (hfree prev hprev) hfront, putFor, if_pos rfl, List.length_append]
      rfl
    · right
      refine ⟨if_neg hsame, mentionPut_miss fun h => absurd ?_ hsame⟩
      have hread := mention?_eq_some.mpr ⟨hm, h⟩
      rw [mention?_text hm'] at hread
      exact Option.some.inj hread

end

/-! ## One service -/

/-- The local of a service. -/
def serviceLocal (d : Dependency) : List Char := (Naming.serviceVariable d.type).toList

/-- The name and the local of a service are made of characters of names, and neither is `this`. -/
structure PlainService (d : Dependency) : Prop where
  name : ∀ c ∈ d.name.toList, isSegmentChar c = true
  /-- The name does not end with `this` behind a dollar sign. -/
  leads : ThisLeads (d.name.toList ++ ['.'])
  name_ne : d.name.toList ≠ "this".toList
  isLocal : ∀ c ∈ serviceLocal d, isWordChar c = true
  local_ne : serviceLocal d ≠ "this".toList

instance (d : Dependency) : Decidable (PlainService d) :=
  haveI := List.decidableBAll (isSegmentChar · = true) d.name.toList
  haveI := List.decidableBAll (isWordChar · = true) (serviceLocal d)
  decidable_of_iff ((∀ c ∈ d.name.toList, isSegmentChar c = true) ∧
      ThisLeads (d.name.toList ++ ['.']) ∧ d.name.toList ≠ "this".toList ∧
      (∀ c ∈ serviceLocal d, isWordChar c = true) ∧ serviceLocal d ≠ "this".toList)
    ⟨fun ⟨name, leads, name_ne, isLocal, local_ne⟩ => ⟨name, leads, name_ne, isLocal, local_ne⟩,
      fun ⟨name, leads, name_ne, isLocal, local_ne⟩ => ⟨name, leads, name_ne, isLocal, local_ne⟩⟩

/-- The mention of a service by its name alone. -/
def bareMention (d : Dependency) : Mention := ⟨false, d.name.toList⟩

/-- The mention of a service as a member of `this`. -/
def ownMention (d : Dependency) : Mention := ⟨true, d.name.toList⟩

/-- The mention of the local of a service. -/
def localMention (d : Dependency) : Mention := ⟨false, serviceLocal d⟩

/-- Calls a service by its local where a path starts with its name. -/
def bareRule (d : Dependency) : Rule :=
  mentionPut (fun prev => !isInside prev) (bareMention d) (serviceLocal d)

/-- Calls a service by its local where a word starts with `this` and its name. -/
def ownRule (d : Dependency) : Rule :=
  mentionPut (fun prev => !(prev.map isWordChar).getD false) (ownMention d) (serviceLocal d)

/-- The text with one service called by its local. -/
def withService (d : Dependency) (s : List Char) : List Char :=
  substituteFrom (bareRule d) none 0 (substituteFrom (ownRule d) none 0 s)

/-- What a service makes of a mention. -/
def take (d : Dependency) : Mention → Mention := putFor (·.name = d.name.toList) (serviceLocal d)

namespace PlainService

variable {d : Dependency} (hd : PlainService d)

include hd

theorem bare_valid : (bareMention d).Valid := ⟨hd.name, fun _ => hd.name_ne⟩

theorem own_valid : (ownMention d).Valid := ⟨hd.name, nofun⟩

theorem local_valid : (localMention d).Valid := by
  refine ⟨fun c hc => ?_, fun _ => hd.local_ne⟩
  rw [isSegmentChar, hd.isLocal c hc, Bool.true_or]

theorem take_valid (m : Mention) (hm : m.Valid) : (take d m).Valid :=
  putFor_valid hd.local_valid hm

/-- Behind `this` a member is asked for at the start of a path, or behind a dollar sign or a dot. -/
theorem renames_ownRule : Renames (ownRule d) (putFor (· = ownMention d) (serviceLocal d)) := by
  refine renames_mentionPut hd.own_valid ?_ ?_
  · rintro (_ | c) hprev
    · rfl
    · have hc : (isWordChar c || c == '$' || c == '.') = false := hprev
      simp only [Bool.or_eq_false_iff] at hc
      simp [hc.1.1]
  · rintro (_ | c) s hs hprev hfront
    · cases hprev
    · have hc : (isWordChar c || c == '$' || c == '.') = true := hprev
      have hthis : "this.".toList <+: s := by
        refine (List.prefix_append _ (d.name.toList ++ ['.'])).trans ?_
        rw [← List.append_assoc]
        exact hfront
      have hcons : c :: "this.".toList <:+: c :: s :=
        (List.cons_prefix_cons.mpr ⟨rfl, hthis⟩).isInfix
      simp only [Bool.or_eq_true, beq_iff_eq] at hc
      rcases hc with (hc | rfl) | rfl
      · simp [hc]
      · exact absurd hcons hs.1
      · exact absurd hcons hs.2

theorem renames_bareRule : Renames (bareRule d) (putFor (· = bareMention d) (serviceLocal d)) := by
  refine renames_mentionPut hd.bare_valid (fun prev hprev => ?_) fun prev s _ hprev _ => ?_
  · simp [hprev]
  · simp [hprev]

/-- **One service renames the mentions of its name.** -/
theorem withService_eq {s : List Char} (hs : ThisLeads s) :
    withService d s = renamed (take d) none s := by
  have hown := hd.renames_ownRule.substituteFrom_eq none s hs
  have hleads : ThisLeads (renamed (putFor (· = ownMention d) (serviceLocal d)) none s) :=
    hs.renamed (plain_putFor hd.isLocal)
  have hbare := hd.renames_bareRule.substituteFrom_eq none _ hleads
  have hvalid (m : Mention) (hm : m.Valid) :
      (putFor (· = ownMention d) (serviceLocal d) m).Valid := putFor_valid hd.local_valid hm
  rw [withService, hown]
  refine (hbare.trans (renamed_renamed hvalid none s)).trans ?_
  refine congrArg (renamed · none s) (funext fun m => ?_)
  obtain ⟨own, name⟩ := m
  simp only [Function.comp, take, putFor, ownMention, bareMention, Mention.mk.injEq]
  cases own <;> by_cases hname : name = d.name.toList <;> simp [hname]

theorem within_ownRule : (ownRule d).Within isPathChar := by
  refine within_mentionPut hd.own_valid fun c hc => ?_
  rw [isPathChar, Bool.or_eq_false_iff, Bool.or_eq_false_iff] at hc
  simp [hc.1.1]

theorem within_bareRule : (bareRule d).Within isPathChar := by
  refine within_mentionPut hd.bare_valid fun c hc => ?_
  simpa [isInside] using hc

/-- One service treats the two sides of a seam between paths alone. -/
theorem splits_withService : Splits isPathChar (withService d) :=
  hd.within_bareRule.splits_substitute.comp hd.within_ownRule.splits_substitute

end PlainService

/-! ### The local as a replacement text -/

/-- A text without backslashes stands for itself. -/
theorem parseFrom_literal {cs : List Char} (h : '\\' ∉ cs) (text : List Char) (place : Nat) :
    Replacement.parseFrom text place 0 cs = .ok (cs.map .literal) := by
  induction cs generalizing place with
  | nil => rfl
  | cons c cs ih =>
    rw [List.mem_cons, not_or] at h
    have hc : (c == '\\') = false := beq_eq_false_iff_ne.mpr (Ne.symm h.1)
    rw [Replacement.parseFrom, if_neg (Nat.lt_irrefl 0), hc, if_neg Bool.false_ne_true, ih h.2]
    rfl

theorem fill_literal (cs found : List Char) : Replacement.fill (cs.map .literal) found = cs := by
  rw [Replacement.fill, List.flatMap_map]
  exact List.flatMap_singleton' cs

/-- The rules of the template, with a literal replacement text. -/
theorem bareServiceRule_literal (d : Dependency) :
    bareServiceRule d.name.toList ((serviceLocal d ++ ['.']).map .literal) = bareRule d := by
  funext prev cs
  rw [bareServiceRule, fill_literal]
  rfl

theorem ownServiceRule_literal (d : Dependency) :
    ownServiceRule d.name.toList ((serviceLocal d ++ ['.']).map .literal) = ownRule d := by
  funext prev cs
  rw [ownServiceRule, fill_literal]
  rfl

/-- The local of a service is literal. -/
theorem PlainService.parse_local {d : Dependency} (hd : PlainService d) :
    Replacement.parse (Naming.serviceVariable d.type ++ ".") =
      .ok ((serviceLocal d ++ ['.']).map .literal) := by
  have hslash : '\\' ∉ serviceLocal d ++ ['.'] := by
    rw [List.mem_append, not_or]
    refine ⟨fun h => ?_, by decide⟩
    have hword := hd.isLocal _ h
    revert hword
    decide
  rw [Replacement.parse, String.toList_append]
  exact parseFrom_literal hslash _ _

theorem serviceReference_eq {d : Dependency} (hd : PlainService d) (t : String) :
    serviceReference t d = .ok (String.ofList (withService d t.toList)) := by
  rw [serviceReference, hd.parse_local]
  change Except.ok (substitute (bareServiceRule d.name.toList _)
    (substitute (ownServiceRule d.name.toList _) t)) = _
  rw [bareServiceRule_literal, ownServiceRule_literal, substitute, substitute, String.toList_ofList]
  rfl

/-! ## One service after the other -/

/-- The text with services called by their locals, one after the other. -/
def withServices (deps : List Dependency) (s : List Char) : List Char :=
  deps.foldl (fun s d => withService d s) s

/-- What services make of a mention, one after the other. -/
def resolve (deps : List Dependency) (m : Mention) : Mention := deps.foldl (fun m d => take d m) m

/-- What the first service of its name makes of a mention. -/
def once (deps : List Dependency) (m : Mention) : Mention :=
  match deps.find? fun d => d.name.toList = m.name with
  | some d => localMention d
  | none => m

section

variable {deps : List Dependency} (hdeps : ∀ d ∈ deps, PlainService d)

include hdeps

theorem serviceReferences_eq (t : String) :
    serviceReferences t deps = .ok (String.ofList (withServices deps t.toList)) := by
  induction deps generalizing t with
  | nil => exact congrArg Except.ok String.ofList_toList.symm
  | cons d deps ih =>
    rw [List.forall_mem_cons] at hdeps
    rw [serviceReferences, List.foldlM_cons, serviceReference_eq hdeps.1]
    change serviceReferences _ deps = _
    rw [ih hdeps.2, String.toList_ofList]
    rfl

theorem resolve_valid (m : Mention) (hm : m.Valid) : (resolve deps m).Valid := by
  induction deps generalizing m with
  | nil => exact hm
  | cons d deps ih =>
    rw [List.forall_mem_cons] at hdeps
    exact ih hdeps.2 _ (hdeps.1.take_valid m hm)

theorem once_valid (m : Mention) (hm : m.Valid) : (once deps m).Valid := by
  unfold once
  split
  · next d hd => exact (hdeps d (List.mem_of_find?_eq_some hd)).local_valid
  · exact hm

/-- **Services rename mentions**, one service after the other. -/
theorem withServices_eq {s : List Char} (hs : ThisLeads s) :
    withServices deps s = renamed (resolve deps) none s := by
  induction deps generalizing s with
  | nil => exact (renamed_id none s).symm
  | cons d deps ih =>
    rw [List.forall_mem_cons] at hdeps
    have hleads : ThisLeads (renamed (take d) none s) := hs.renamed (plain_putFor hdeps.1.isLocal)
    calc
      withServices (d :: deps) s = withServices deps (withService d s) := rfl
      _ = withServices deps (renamed (take d) none s) := by rw [hdeps.1.withService_eq hs]
      _ = renamed (resolve deps) none (renamed (take d) none s) := ih hdeps.2 hleads
      _ = renamed (resolve (d :: deps)) none s := renamed_renamed hdeps.1.take_valid none s

theorem splits_withServices : Splits isPathChar (withServices deps) := by
  induction deps with
  | nil => exact fun s t h => ⟨rfl, h⟩
  | cons d deps ih =>
    rw [List.forall_mem_cons] at hdeps
    exact (ih hdeps.2).comp hdeps.1.splits_withService

end

/-! ## The order of services -/

/-- A service whose name is the local of a service has this local itself. -/
def LocalsApart (deps : List Dependency) : Prop :=
  ∀ d ∈ deps, ∀ e ∈ deps, e.name.toList = serviceLocal d → serviceLocal e = serviceLocal d

section

variable {deps : List Dependency}

/-- A mention of no service stays. -/
theorem resolve_absent {m : Mention} (h : ∀ d ∈ deps, d.name.toList ≠ m.name) :
    resolve deps m = m := by
  induction deps with
  | nil => rfl
  | cons d deps ih =>
    rw [List.forall_mem_cons] at h
    have htake : take d m = m := if_neg (Ne.symm h.1)
    change resolve deps (take d m) = m
    rw [htake, ih h.2]

/-- The last two services see what the others leave. -/
theorem resolve_pair (deps : List Dependency) (d e : Dependency) (m : Mention) :
    resolve (deps ++ [d, e]) m = take e (take d (resolve deps m)) := List.foldl_append

/-- Two services can be moved to the front. -/
theorem exists_pair {d e : Dependency} (hd : d ∈ deps) (he : e ∈ deps) (hne : e ≠ d) :
    ∃ rest, deps.Perm (d :: e :: rest) := by
  obtain ⟨front, back, hdeps⟩ := List.append_of_mem hd
  have hother : e ∈ front ++ back := by
    rw [hdeps] at he
    simpa [hne] using he
  obtain ⟨front', back', hothers⟩ := List.append_of_mem hother
  refine ⟨front' ++ back', ?_⟩
  rw [hdeps]
  refine List.perm_middle.trans (List.Perm.cons d ?_)
  rw [hothers]
  exact List.perm_middle

variable (hnames : (deps.map (·.name)).Nodup)

include hnames

/-- Services that are apart do the same to mentions in every order. -/
theorem resolve_perm (h : LocalsApart deps) {deps' : List Dependency} (hperm : deps'.Perm deps)
    (m : Mention) : resolve deps' m = resolve deps m := by
  refine (hperm.symm.foldl_eq' (fun d hd e he m => ?_) m).symm
  have hsame : d.name.toList = e.name.toList → serviceLocal d = serviceLocal e := by
    intro hname
    rw [List.inj_on_of_nodup_map hnames hd he (String.toList_inj.mp hname)]
  have hde := h d hd e he
  have hed := h e he d hd
  -- what one of the two puts in is left, or put in again, by the other
  unfold take putFor
  grind

/-- If the local of a service is the name of another one, two orders tell them apart. -/
theorem exists_orders {d e : Dependency} (hd : d ∈ deps) (he : e ∈ deps)
    (hname : e.name.toList = serviceLocal d) (hlocal : serviceLocal e ≠ serviceLocal d) :
    ∃ first second, first.Perm deps ∧ second.Perm deps ∧
      resolve first (bareMention d) ≠ resolve second (bareMention d) := by
  have hne : e ≠ d := by
    rintro rfl
    exact hlocal rfl
  obtain ⟨rest, hrest⟩ := exists_pair hd he hne
  have hdistinct : ((d :: e :: rest).map (·.name)).Nodup := (hrest.map _).nodup_iff.mp hnames
  simp only [List.map_cons, List.nodup_cons, List.mem_cons, not_or] at hdistinct
  have hothers : resolve rest (bareMention d) = bareMention d := by
    refine resolve_absent fun c hc hsame => hdistinct.1.2 ?_
    rw [← String.toList_inj.mp hsame]
    exact List.mem_map_of_mem hc
  have hfirst : resolve (rest ++ [d, e]) (bareMention d) = localMention e := by
    have hd : take d (bareMention d) = localMention d := if_pos rfl
    have he : take e (localMention d) = localMention e := if_pos hname.symm
    rw [resolve_pair, hothers, hd, he]
  have hsecond : resolve (rest ++ [e, d]) (bareMention d) = localMention d := by
    have he : take e (bareMention d) = bareMention d :=
      if_neg fun h => hdistinct.1.1 (String.toList_inj.mp h)
    have hd : take d (bareMention d) = localMention d := if_pos rfl
    rw [resolve_pair, hothers, he, hd]
  refine ⟨rest ++ [d, e], rest ++ [e, d], ?_, ?_, ?_⟩
  · have hback : (rest ++ [d, e]).Perm (d :: e :: rest) := List.perm_append_comm
    exact hback.trans hrest.symm
  · have hback : (rest ++ [e, d]).Perm (e :: d :: rest) := List.perm_append_comm
    exact hback.trans ((List.Perm.swap d e rest).trans hrest.symm)
  · rw [hfirst, hsecond]
    exact fun h => hlocal (congrArg Mention.name h)

end

/-! ## Templates -/

/-- No path reaches over a border of tokens. -/
theorem borderless_isPathChar : Borderless isPathChar := by
  intro c hc
  have hborder : c ∈ " \t\n\r\"\x27<>/=\x7b\x7d".toList := by
    simpa [isBorder, Template.Lexer.isSpace, Template.Lexer.isQuote, or_assoc] using hc
  have houtside : ∀ c ∈ " \t\n\r\"\x27<>/=\x7b\x7d".toList, isPathChar c = false :=
    List.all_iff_forall_prop.mp (by decide)
  exact houtside c hborder

/-- **The order never counts exactly if no local is the name of another service.** -/
theorem orders_agree_iff {deps : List Dependency} (hdeps : ∀ d ∈ deps, PlainService d)
    (hnames : (deps.map (·.name)).Nodup) :
    (∀ deps', deps'.Perm deps → ∀ t : String, ThisLeads t.toList →
      serviceReferences t deps' = serviceReferences t deps) ↔ LocalsApart deps := by
  have hplain {deps' : List Dependency} (hperm : deps'.Perm deps) : ∀ d ∈ deps', PlainService d :=
    fun d hd => hdeps d (hperm.mem_iff.mp hd)
  constructor
  · intro h d hd e he hname
    by_contra hlocal
    obtain ⟨first, second, hfirst, hsecond, hne⟩ := exists_orders hnames hd he hname hlocal
    have hd := hdeps d hd
    -- the name with a dot behind it is a text that tells the orders apart
    have hleads : ThisLeads (String.ofList (d.name.toList ++ ['.'])).toList := by
      rw [String.toList_ofList]
      exact hd.leads
    have hsame := (h first hfirst _ hleads).trans (h second hsecond _ hleads).symm
    rw [serviceReferences_eq (hplain hfirst), serviceReferences_eq (hplain hsecond),
      Except.ok.injEq, String.ofList_inj, withServices_eq (hplain hfirst) hleads,
      withServices_eq (hplain hsecond) hleads, String.toList_ofList,
      renamed_eq_iff (resolve_valid (hplain hfirst)) (resolve_valid (hplain hsecond))] at hsame
    exact hne (hsame (bareMention d) ⟨hd.bare_valid, [], [], rfl, rfl⟩)
  · intro h deps' hperm t hs
    rw [serviceReferences_eq hdeps, serviceReferences_eq (hplain hperm), withServices_eq hdeps hs,
      withServices_eq (hplain hperm) hs, funext (resolve_perm hnames h hperm)]

/-- **Services are called wherever a path starts with their name**, with `this` before it or not,
one service after the other.

* The names that a template mentions become what all services make of them. So it is as if all
  were replaced at once exactly if no replacement of a mentioned name is replaced again, and the
  template stays as it is exactly if every name that it mentions does.
* What a token is does not count: the characters of every token, be it a text, a comment, a name
  of a tag, an attribute or an expression, become what they would become on their own.
* The order of the services never counts exactly if no local is the name of another service. -/
theorem serviceReferences_exact {deps : List Dependency} (hdeps : ∀ d ∈ deps, PlainService d)
    (hnames : (deps.map (·.name)).Nodup) :
    (∀ t : String, ∃ t', serviceReferences t deps = .ok t' ∧
      (ThisLeads t.toList →
        t' = String.ofList (renamed (resolve deps) none t.toList) ∧
        (t' = String.ofList (renamed (once deps) none t.toList) ↔
          ∀ m, Mentions none t.toList m → resolve deps m = once deps m) ∧
        (t' = t ↔ ∀ m, Mentions none t.toList m → resolve deps m = m)) ∧
      ∀ k ∈ (tokenize t).toList, ∃ before after before' k' after',
        t.toList = before ++ (slice t.toList k.span.start k.span.stop ++ after) ∧
        before.length = k.span.start ∧
        serviceReferences (String.ofList before) deps = .ok before' ∧
        serviceReferences (String.ofList (slice t.toList k.span.start k.span.stop)) deps = .ok k' ∧
        serviceReferences (String.ofList after) deps = .ok after' ∧
        t' = before' ++ (k' ++ after')) ∧
    ((∀ deps', deps'.Perm deps → ∀ t : String, ThisLeads t.toList →
        serviceReferences t deps' = serviceReferences t deps) ↔ LocalsApart deps) := by
  have hof (cs : List Char) : serviceReferences (String.ofList cs) deps =
      .ok (String.ofList (withServices deps cs)) := by
    rw [serviceReferences_eq hdeps, String.toList_ofList]
  refine ⟨fun t => ⟨_, serviceReferences_eq hdeps t, fun hs => ?_, fun k hk => ?_⟩,
    orders_agree_iff hdeps hnames⟩
  · have hvalid := resolve_valid hdeps
    rw [withServices_eq hdeps hs]
    refine ⟨rfl, ?_, ?_⟩
    · rw [String.ofList_inj, renamed_eq_iff hvalid (once_valid hdeps)]
    · rw [← String.toList_inj, String.toList_ofList]
      nth_rewrite 2 [← renamed_id none t.toList]
      exact renamed_eq_iff hvalid (fun _ hm => hm) none t.toList
  · obtain ⟨before, after, ht, hstart, hsplit⟩ :=
      split_token (splits_withServices hdeps) borderless_isPathChar t hk
    refine ⟨before, after, _, _, _, ht, hstart, hof _, hof _, hof _, ?_⟩
    rw [hsplit, String.ofList_append, String.ofList_append]

/-! ### Services that are apart, and services that are not -/

/-- Services whose locals are no names of services. -/
def apartServices : List Dependency :=
  [⟨"private", "api", "ApiService"⟩, ⟨"private", "log", "LogService"⟩]

/-- Services of which one has the name of another one's local. -/
def chainedServices : List Dependency := [⟨"private", "a", "B"⟩, ⟨"private", "b", "C"⟩]

theorem serviceReferences_exact_api :
    (∀ d ∈ apartServices, PlainService d) ∧ (apartServices.map (·.name)).Nodup ∧
      (∀ deps', deps'.Perm apartServices → ∀ t : String, ThisLeads t.toList →
        serviceReferences t deps' = serviceReferences t apartServices) ∧
      serviceReferences "\x7b\x7b api.load() \x7d\x7d \x7b\x7b this.log.last \x7d\x7d"
          apartServices =
        .ok "\x7b\x7b apiService.load() \x7d\x7d \x7b\x7b logService.last \x7d\x7d" := by
  have hdeps : ∀ d ∈ apartServices, PlainService d := by decide +kernel
  have hnames : (apartServices.map (·.name)).Nodup := by decide
  have hapart : LocalsApart apartServices := by
    unfold LocalsApart
    decide +kernel
  exact ⟨hdeps, hnames, (serviceReferences_exact hdeps hnames).2.mpr hapart, by decide +kernel⟩

/-- What one service puts in is replaced by the next one, so their order counts; and words of static
texts and of comments are taken for services. -/
theorem not_once_chained :
    (∀ d ∈ chainedServices, PlainService d) ∧ (chainedServices.map (·.name)).Nodup ∧
      String.ofList (renamed (once chainedServices) none
          "\x7b\x7b a.x + b.y \x7d\x7d".toList) = "\x7b\x7b b.x + c.y \x7d\x7d" ∧
      serviceReferences "\x7b\x7b a.x + b.y \x7d\x7d" chainedServices =
        .ok "\x7b\x7b c.x + c.y \x7d\x7d" ∧
      serviceReferences "\x7b\x7b a.x + b.y \x7d\x7d" chainedServices.reverse =
        .ok "\x7b\x7b b.x + c.y \x7d\x7d" ∧
      serviceReferences "<p>The api. Done</p><!-- The api. -->" apartServices =
        .ok "<p>The apiService. Done</p><!-- The apiService. -->" := by
  decide +kernel

end Trellis.Output
