import Trellis.Proofs.Jsx.Clauses

/-!
# Loops as they are written

What stands behind `*for` is a head, `let item of items`, and clauses behind semicolons, in any
order and number. This module says what a loop is written as and what is read of it.

* `Source` is a whole loop as it is written. Its `loop` is what it says: the last index and the last
  key count. Its `findings` are those about the clauses of no known form, one for each.
* `parse_source`: a loop is read as what it says. Without the `let`, that is found and all else is
  the same.
-/

namespace Trellis.Jsx.Loop

open Trellis.Text

/-! ## Segments -/

/-- What stands behind a semicolon: a clause with white space around it, or white space only. -/
inductive Segment where
  | blank (g : List Char)
  | clause (left : List Char) (spelling : Spelling) (right : List Char)

namespace Segment

def chars : Segment → List Char
  | blank g => g
  | clause left s right => left ++ s.chars ++ right

def Valid : Segment → Prop
  | blank g => Spaces g
  | clause left s right => Spaces left ∧ s.Valid ∧ Spaces right

/-- The clause, if there is one. -/
def spelling? : Segment → Option Spelling
  | blank _ => none
  | clause _ s _ => some s

theorem Valid.free {x : Segment} (hx : x.Valid) : ';' ∉ x.chars := by
  cases x with
  | blank g => exact Spaces.not_mem hx isBlank_semicolon
  | clause left s right =>
    obtain ⟨hleft, hs, hright⟩ := hx
    simp [chars, hleft.not_mem isBlank_semicolon, hs.phrase.free,
      hright.not_mem isBlank_semicolon]

/-- The text of a segment without the white space around it. -/
theorem Valid.stripChars {x : Segment} (hx : x.Valid) :
    stripChars x.chars = (x.spelling?.map Spelling.chars).getD [] := by
  cases x with
  | blank g =>
    have hblank : Text.stripChars (g ++ [] ++ []) = [] :=
      stripChars_surround hx (List.forall_mem_nil _) rfl
    rwa [List.append_nil, List.append_nil] at hblank
  | clause left s right =>
    obtain ⟨hleft, hs, hright⟩ := hx
    exact stripChars_surround hleft hright hs.phrase.stripped

end Segment

/-- The clauses behind an iterable are those that are written there. -/
theorem clausesOf_segments {xs : List Segment} (hxs : ∀ x ∈ xs, x.Valid) :
    clausesOf (xs.flatMap fun x => ';' :: x.chars) =
      (xs.filterMap Segment.spelling?).map Spelling.clause := by
  have hpieces : splitAtEach (· == ';') (xs.flatMap fun x => ';' :: x.chars) =
      [] :: xs.map Segment.chars := by
    refine splitAtEach_flatMap rfl (List.forall_mem_nil _) fun x hx c hc => ?_
    have hne : c ≠ ';' := fun h => (hxs x hx).free (h ▸ hc)
    simpa using hne
  rw [clausesOf, hpieces, List.map_cons, List.filter_cons_of_neg (by decide)]
  clear hpieces
  induction xs with
  | nil => rfl
  | cons x xs ih =>
    obtain ⟨hx, hrest⟩ := List.forall_mem_cons.mp hxs
    rw [List.map_cons, List.map_cons, hx.stripChars]
    cases x with
    | blank g => exact ih hrest
    | clause left s right =>
      have hs := hx.2.1
      rw [Segment.spelling?, Option.map_some, Option.getD_some,
        List.filter_cons_of_pos (by simp [hs.phrase.nonempty]), List.map_cons, ih hrest, hs.ofChars]
      rfl

/-! ## Whole loops -/

/-- A loop as it is written. -/
structure Source where
  before : List Char
  afterLet : List Char
  item : List Char
  afterItem : List Char
  afterOf : List Char
  iterable : List Char
  afterIterable : List Char
  segments : List Segment

namespace Source

/-- The loop is well written. -/
structure Valid (s : Source) : Prop where
  before : Spaces s.before
  afterLet : Gap s.afterLet
  item : Name s.item
  afterItem : Gap s.afterItem
  afterOf : Gap s.afterOf
  iterable : Phrase s.iterable
  afterIterable : Spaces s.afterIterable
  segments : ∀ x ∈ s.segments, x.Valid

variable (s : Source)

/-- The text behind `of`. -/
def body : List Char :=
  s.iterable ++ (s.afterIterable ++ s.segments.flatMap fun x => ';' :: x.chars)

/-- The text from the item on, up to what stands behind `of`. -/
def head (rest : List Char) : List Char :=
  s.item ++ (s.afterItem ++ ("of".toList ++ (s.afterOf ++ rest)))

/-- The whole text. -/
def chars : List Char := s.before ++ ("let".toList ++ (s.afterLet ++ s.head s.body))

/-- The whole text without its `let`. -/
def bareChars : List Char := s.before ++ s.head s.body

/-- The clauses, in order. -/
def spellings : List Spelling := s.segments.filterMap Segment.spelling?

/-- What the text says. -/
def loop : Loop where
  item := String.ofList s.item
  iterable := String.ofList s.iterable
  index := (s.spellings.filterMap Spelling.index?).getLast?
  trackBy := (s.spellings.filterMap Spelling.key?).getLast?

/-- What is found in the text. -/
def findings : List Warning := (s.spellings.filterMap Spelling.unknown?).map unknownClause

/-- The finding about a text without its `let`. -/
def missingLet : Warning :=
  malformed ("is missing 'let' keyword. Expected: *for=\"let " ++ String.ofList s.item ++ " of " ++
    String.ofList s.iterable ++ "\"")

end Source

section

variable {cs rest : List Char} {s : Source}

theorem headWith?_of (hs : s.Valid) (hrest : StartsOff isBlank rest) :
    headWith? "of" (s.head rest) = some (s.item, rest) := by
  have hof : StartsOff isBlank ("of".toList ++ (s.afterOf ++ rest)) :=
    startsOff_append (by decide) (by decide) _
  have hword : word? (s.head rest) =
      some (s.item, s.afterItem ++ ("of".toList ++ (s.afterOf ++ rest))) :=
    word?_eq_some_iff.mpr ⟨hs.item, hs.afterItem.startsOff _, rfl⟩
  have hitem := gap?_eq_some_iff.mpr ⟨s.afterItem, hs.afterItem, hof, rfl⟩
  have hkeyword := literal?_eq_some_iff.mpr (Eq.refl ("of".toList ++ (s.afterOf ++ rest)))
  have hgap := gap?_eq_some_iff.mpr ⟨s.afterOf, hs.afterOf, hrest, rfl⟩
  simp only [headWith?, Option.bind_eq_bind, hword, hitem, hkeyword, hgap, Option.bind_some]
  rfl

theorem afterLet?_head (hs : s.Valid) (hitem : s.item ≠ "let".toList) :
    afterLet? (s.head rest) = none := by
  by_contra hsome
  obtain ⟨after, hafter⟩ := Option.ne_none_iff_exists'.mp hsome
  obtain ⟨g, hg, -, hhead⟩ := afterLet?_eq_some_iff.mp hafter
  have hword : ∀ c ∈ "let".toList, isWordChar c = true :=
    List.all_eq_true.mp (by decide +kernel)
  have hleft := takeWhile_run hs.item.2 (hs.afterItem.startsOff
    ("of".toList ++ (s.afterOf ++ rest)))
  have hright := takeWhile_run hword (hg.startsOff after)
  rw [← hhead] at hright
  exact hitem (hleft.symm.trans hright)

/-- What stands behind `of` is the iterable and the clauses that are written there. -/
theorem iterable_and_clauses (hs : s.Valid) :
    stripChars (s.body.takeWhile (· != ';')) = s.iterable ∧
      clausesOf (s.body.dropWhile (· != ';')) = s.spellings.map Spelling.clause := by
  have hstart : StartsOff (· != ';') (s.segments.flatMap fun x => ';' :: x.chars) := by
    cases s.segments with
    | nil => nofun
    | cons x xs =>
      intro c hc
      obtain rfl := Option.some.inj hc
      rfl
  have hfree : ';' ∉ s.iterable ++ s.afterIterable := by
    simp [hs.iterable.free, hs.afterIterable.not_mem isBlank_semicolon]
  rw [Source.body, ← List.append_assoc, takeWhile_run (forall_bne hfree) hstart,
    dropWhile_run (forall_bne hfree) hstart]
  constructor
  · rw [stripChars_append _ hs.afterIterable, hs.iterable.stripped]
  · exact clausesOf_segments hs.segments

theorem clausesOf_append_spaces {right : List Char} (hright : Spaces right) (cs : List Char) :
    clausesOf (cs ++ right) = clausesOf cs := by
  have hsolid (c : Char) (hc : isBlank c = true) : (c == ';') = false := by
    refine beq_false_of_ne fun h => ?_
    rw [h] at hc
    revert hc
    decide
  rw [clausesOf, map_stripChars_splitAtEach_append cs hright hsolid, clausesOf]

/-- White space at the end belongs neither to the iterable nor to a clause. -/
theorem iterable_and_clauses_append_spaces {right : List Char} (hright : Spaces right)
    (rest : List Char) :
    stripChars ((rest ++ right).takeWhile (· != ';')) = stripChars (rest.takeWhile (· != ';')) ∧
      clausesOf ((rest ++ right).dropWhile (· != ';')) =
        clausesOf (rest.dropWhile (· != ';')) := by
  have hfree : ';' ∉ rest.takeWhile (· != ';') := fun hmem => by
    have hne := List.mem_takeWhile_imp hmem
    revert hne
    decide
  have hstart : StartsOff (· != ';') (rest.dropWhile (· != ';')) := head?_dropWhile _ _
  have hrest : rest.takeWhile (· != ';') ++ rest.dropWhile (· != ';') = rest :=
    List.takeWhile_append_dropWhile
  rw [← hrest, List.append_assoc]
  generalize rest.takeWhile (· != ';') = front at hfree
  generalize rest.dropWhile (· != ';') = back at hstart
  rw [takeWhile_run (forall_bne hfree) hstart, dropWhile_run (forall_bne hfree) hstart]
  cases back with
  | nil =>
    have hwhole : ';' ∉ front ++ right := by simp [hfree, hright.not_mem isBlank_semicolon]
    have hnil : StartsOff (· != ';') [] := head?_dropWhile (· != ';') []
    rw [List.nil_append, ← List.append_nil (front ++ right),
      takeWhile_run (forall_bne hwhole) hnil, dropWhile_run (forall_bne hwhole) hnil,
      stripChars_append front hright]
    exact ⟨rfl, rfl⟩
  | cons c back =>
    have hlong := startsOff_append (List.cons_ne_nil c back) hstart right
    rw [takeWhile_run (forall_bne hfree) hlong, dropWhile_run (forall_bne hfree) hlong,
      clausesOf_append_spaces hright]
    exact ⟨rfl, rfl⟩

/-- What is read of the text starts at its first character other than white space and ends
somewhere behind the start of the iterable. -/
theorem exists_stripChars (hs : s.Valid) {front : List Char} (hfront : StartsOff isBlank front)
    (hne : front ≠ []) :
    ∃ rest right, Spaces right ∧ StartsOff isBlank rest ∧ s.body = rest ++ right ∧
      stripChars (s.before ++ (front ++ s.body)) = front ++ rest := by
  obtain ⟨c, cs, hiterable⟩ := List.exists_cons_of_ne_nil hs.iterable.nonempty
  have hc : isBlank c = false := by
    refine (startsOff_of_stripped hs.iterable.stripped) c ?_
    rw [hiterable]
    rfl
  obtain ⟨m, hbody⟩ : ∃ m, s.body = c :: m := by
    rw [Source.body, hiterable]
    exact ⟨_, rfl⟩
  refine ⟨c :: dropTrailing isBlank m, m.rtakeWhile isBlank, fun _ => List.mem_rtakeWhile_imp,
    ?_, ?_, ?_⟩
  · intro d hd
    rwa [← Option.some.inj hd]
  · rw [hbody, List.cons_append, dropTrailing_append_rtakeWhile]
  · rw [hbody, stripChars, trimBoth,
      dropWhile_run hs.before (startsOff_append hne hfront _),
      dropTrailing_append_cons _ _ hc]

/-- The head of a loop is read with what stands behind it. -/
theorem ofHead_of_body {right : List Char} (hs : s.Valid) (hright : Spaces right)
    (hbody : s.body = rest ++ right) (ws : List Warning) :
    stripChars (rest.takeWhile (· != ';')) = s.iterable ∧
      ofHead s.item rest ws = (some s.loop, ws ++ s.findings) := by
  obtain ⟨hiterable, hclauses⟩ := iterable_and_clauses hs
  obtain ⟨hfront, hback⟩ := iterable_and_clauses_append_spaces hright rest
  rw [hbody, hfront] at hiterable
  rw [hbody, hback] at hclauses
  refine ⟨hiterable, ?_⟩
  rw [ofHead, hiterable, hclauses, foldl_addClause]
  simp [hs.iterable.nonempty, Source.loop, Source.findings]

theorem head_append (front rest : List Char) : s.head (front ++ rest) = s.head front ++ rest := by
  simp only [Source.head, List.append_assoc]

theorem parse_chars (hs : s.Valid) : parse (String.ofList s.chars) = (some s.loop, s.findings) := by
  have hlet : StartsOff isBlank ("let".toList ++ (s.afterLet ++ s.head [])) :=
    startsOff_append (by decide) (by decide) _
  obtain ⟨rest, right, hright, hrest, hbody, hstrip⟩ := exists_stripChars hs hlet (by simp)
  have hhead (rest : List Char) : "let".toList ++ (s.afterLet ++ s.head []) ++ rest =
      "let".toList ++ (s.afterLet ++ s.head rest) := by
    rw [List.append_assoc, List.append_assoc, ← head_append, List.nil_append]
  rw [hhead, hhead] at hstrip
  have hafter : afterLet? ("let".toList ++ (s.afterLet ++ s.head rest)) = some (s.head rest) :=
    afterLet?_eq_some_iff.mpr ⟨s.afterLet, hs.afterLet, hs.item.phrase.startsOff _, rfl⟩
  have htext : (strip (String.ofList s.chars)).toList =
      "let".toList ++ (s.afterLet ++ s.head rest) := by
    rw [strip, String.toList_ofList, String.toList_ofList, ← hstrip, Source.chars]
  rw [parse, htext, if_neg (by simp), hafter, Option.bind_some, headWith?_of hs hrest]
  exact (ofHead_of_body hs hright hbody []).2

theorem parse_bareChars (hs : s.Valid) (hitem : s.item ≠ "let".toList) :
    parse (String.ofList s.bareChars) = (some s.loop, s.missingLet :: s.findings) := by
  have hstart (rest : List Char) : StartsOff isBlank (s.head rest) := hs.item.phrase.startsOff _
  have hne (rest : List Char) : s.head rest ≠ [] := by
    simp [Source.head, hs.item.phrase.nonempty]
  obtain ⟨rest, right, hright, hrest, hbody, hstrip⟩ := exists_stripChars hs (hstart []) (hne [])
  rw [← head_append, ← head_append, List.nil_append, List.nil_append] at hstrip
  have htext : (strip (String.ofList s.bareChars)).toList = s.head rest := by
    rw [strip, String.toList_ofList, String.toList_ofList, ← hstrip, Source.bareChars]
  obtain ⟨hiterable, hread⟩ := ofHead_of_body hs hright hbody [s.missingLet]
  rw [parse, htext, if_neg (by simp [hne]), afterLet?_head hs hitem, Option.bind_none,
    headWith?_of hs hrest]
  dsimp only
  rw [hiterable]
  exact hread

end

namespace Source

variable (s : Source)

/-- The variables of the function that is called for each element, as they are written. -/
def params : List String := s.loop.item :: (s.loop.index.map (· ++ ": number")).toList

/-- The function that is called for each element. -/
def callback (element : String) : String :=
  "(" ++ ", ".intercalate s.params ++ ") => " ++ element

theorem mapText_loop (element : String) :
    s.loop.mapText element =
      Pipe.operand (String.ofList s.iterable) ++ ".map(" ++ s.callback element ++ ")" := by
  rw [mapText, callback, params]
  cases s.loop.index with
  | none => simp [loop, String.append_assoc]
  | some i => simp [loop, String.append_assoc]

/-- The loop with other segments. -/
def withSegments (xs : List Segment) : Source := { s with segments := xs }

variable {s}

theorem Valid.withSegments (hs : s.Valid) {xs : List Segment} (hxs : ∀ x ∈ xs, x.Valid) :
    (s.withSegments xs).Valid :=
  { hs with segments := hxs }

/-- A clause of no known form is one more finding and says nothing. -/
theorem insert_unknown {xs ys : List Segment} {left text right : List Char}
    (hsegments : s.segments = xs ++ .clause left (.other text) right :: ys) :
    s.loop = (s.withSegments (xs ++ ys)).loop ∧
      ∃ before after, (s.withSegments (xs ++ ys)).findings = before ++ after ∧
        s.findings = before ++ unknownClause (String.ofList text) :: after := by
  have hspellings : s.spellings = xs.filterMap Segment.spelling? ++
      .other text :: ys.filterMap Segment.spelling? := by
    rw [spellings, hsegments, List.filterMap_append]
    rfl
  have hshort : (s.withSegments (xs ++ ys)).spellings =
      xs.filterMap Segment.spelling? ++ ys.filterMap Segment.spelling? :=
    List.filterMap_append
  constructor
  · rw [loop, loop, hspellings, hshort]
    simp only [List.filterMap_append, List.filterMap_cons, Spelling.index?, Spelling.key?]
    rfl
  · rw [findings, findings, hspellings, hshort]
    simp only [List.filterMap_append, List.filterMap_cons, Spelling.unknown?, List.map_append,
      List.map_cons]
    exact ⟨_, _, rfl, rfl⟩

/-- Nothing is found about clauses of the known forms. -/
theorem findings_of_known (hs : ∀ x ∈ s.spellings, x.Known) : s.findings = [] := by
  rw [findings, List.map_eq_nil_iff, List.filterMap_eq_nil_iff]
  intro x hx
  have hknown := hs x hx
  cases x with
  | other text => exact hknown.elim
  | indexAs | letIndex | trackBy => rfl

theorem code_of_mem_findings {w : Warning} (hw : w ∈ s.missingLet :: s.findings) :
    w.code = .malformedFor := by
  rcases List.mem_cons.mp hw with rfl | hw
  · rfl
  · obtain ⟨text, -, rfl⟩ := List.mem_map.mp hw
    rfl

end Source

/-- **A loop is read as what it says.** Clauses of the known forms stand in any order and number,
with any white space, and of each kind the last counts. A clause of no known form is one more
finding and changes nothing else; neither does the missing `let`. -/
theorem parse_source (s : Source) (hs : s.Valid) :
    parse (String.ofList s.chars) = (some s.loop, s.findings) ∧
      (s.item ≠ "let".toList →
        parse (String.ofList s.bareChars) = (some s.loop, s.missingLet :: s.findings)) ∧
      ((∀ x ∈ s.spellings, x.Known) → s.findings = []) ∧
      (∀ w ∈ s.missingLet :: s.findings, w.code = .malformedFor) ∧
      (∀ xs ys left text right, s.segments = xs ++ .clause left (.other text) right :: ys →
        (s.withSegments (xs ++ ys)).Valid ∧ s.loop = (s.withSegments (xs ++ ys)).loop ∧
          ∃ before after, (s.withSegments (xs ++ ys)).findings = before ++ after ∧
            s.findings = before ++ unknownClause (String.ofList text) :: after) ∧
      (∀ element, s.loop.mapText element =
        Pipe.operand (String.ofList s.iterable) ++ ".map(" ++ s.callback element ++ ")") ∧
      s.loop.key = (s.spellings.filterMap Spelling.key?).getLast?.getD
        ((s.spellings.filterMap Spelling.index?).getLast?.getD (String.ofList s.item)) := by
  refine ⟨parse_chars hs, parse_bareChars hs, Source.findings_of_known,
    fun w => Source.code_of_mem_findings, fun xs ys left text right hsegments => ⟨?_, ?_⟩,
    s.mapText_loop, ?_⟩
  · refine hs.withSegments fun x hx => hs.segments x ?_
    rw [hsegments]
    rcases List.mem_append.mp hx with hx | hx
    · exact List.mem_append_left _ hx
    · exact List.mem_append_right _ (List.mem_cons_of_mem _ hx)
  · exact Source.insert_unknown hsegments
  · rw [key, Source.loop]
    cases (s.spellings.filterMap Spelling.key?).getLast? <;>
      cases (s.spellings.filterMap Spelling.index?).getLast? <;> rfl

/-- `let x of of ?? [] ; index as i;; odd as o; let n=index ; trackBy : x.id `. -/
def crowded : Source where
  before := []
  afterLet := [' ']
  item := ['x']
  afterItem := [' ']
  afterOf := [' ']
  iterable := "of ?? []".toList
  afterIterable := [' ']
  segments := [.clause [' '] (.indexAs [' '] [' '] ['i']) [], .blank [],
    .clause [' '] (.other "odd as o".toList) [], .clause [' '] (.letIndex [' '] ['n'] [] []) [' '],
    .clause [' '] (.trackBy [' '] [' '] "x.id".toList) [' ']]

theorem parse_crowded :
    crowded.Valid ∧ crowded.item ≠ "let".toList ∧
      parse (String.ofList crowded.chars) =
        (some ⟨"x", "of ?? []", some "n", some "x.id"⟩, [unknownClause "odd as o"]) ∧
      crowded.loop.mapText "<li />" = "(of ?? []).map((x, n: number) => <li />)" := by
  have hvalid : crowded.Valid := by
    have hother : (Spelling.other "odd as o".toList).Valid :=
      Spelling.valid_other (by decide +kernel) (by decide +kernel)
    refine ⟨by decide, by decide, by decide +kernel, by decide, by decide, by decide, by decide, ?_⟩
    simp only [crowded, List.forall_mem_cons]
    exact ⟨⟨by decide, .known (by decide +kernel), by decide⟩, List.forall_mem_nil _,
      ⟨by decide, hother, by decide⟩, ⟨by decide, .known (by decide +kernel), by decide⟩,
      ⟨by decide, .known (by decide +kernel), by decide⟩, List.forall_mem_nil _⟩
  obtain ⟨hparse, -, -, -, -, hmap, -⟩ := parse_source crowded hvalid
  exact ⟨hvalid, by decide, hparse, hmap "<li />"⟩

end Trellis.Jsx.Loop
