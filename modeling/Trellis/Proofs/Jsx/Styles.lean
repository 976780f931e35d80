import Trellis.Proofs.Jsx.Keys
import Trellis.Proofs.Registry.History
import Trellis.Proofs.Text.Segments

/-!
# Styles as they are written

A style attribute is merged from declarations, `property: value` between semicolons, and from style
bindings. In JSX it is an object.

* `Declaration` is a declaration as it is written, `StyleSegment` what stands between semicolons.
* `parseStyle_styleText`: the declarations are read as they are written exactly if no value has a
  semicolon in it, wherever it stands.
* `styleAttribute_styleText` puts this together with the order of the entries and with their keys.
* `styleAttribute_cut`: an address with a semicolon in it loses its end, and a custom property is
  written as no object can be.
-/

namespace Trellis.Jsx

open Trellis.Text Trellis.Naming

/-! ## Declarations -/

/-- A declaration as it is written, with the white space around its parts. -/
structure Declaration where
  left : List Char
  property : List Char
  beforeColon : List Char
  afterColon : List Char
  value : List Char
  right : List Char

namespace Declaration

def chars (d : Declaration) : List Char :=
  (d.left ++ d.property ++ d.beforeColon) ++ ':' :: (d.afterColon ++ d.value ++ d.right)

/-- The parts are a name and a value with white space around them. -/
structure Valid (d : Declaration) : Prop where
  left : Spaces d.left
  beforeColon : Spaces d.beforeColon
  afterColon : Spaces d.afterColon
  right : Spaces d.right
  property : isCssName d.property = true
  propertyStripped : stripChars d.property = d.property
  valueStripped : stripChars d.value = d.value

instance (d : Declaration) : Decidable d.Valid :=
  decidable_of_iff (Spaces d.left ∧ Spaces d.beforeColon ∧ Spaces d.afterColon ∧ Spaces d.right ∧
      isCssName d.property = true ∧ stripChars d.property = d.property ∧
      stripChars d.value = d.value)
    ⟨fun ⟨h₁, h₂, h₃, h₄, h₅, h₆, h₇⟩ => ⟨h₁, h₂, h₃, h₄, h₅, h₆, h₇⟩,
      fun ⟨h₁, h₂, h₃, h₄, h₅, h₆, h₇⟩ => ⟨h₁, h₂, h₃, h₄, h₅, h₆, h₇⟩⟩

/-- The key and the value. -/
def row (d : Declaration) : String × String :=
  (camelCase (String.ofList d.property), String.ofList d.value)

end Declaration

/-- What stands between semicolons: a declaration, or white space only. -/
inductive StyleSegment where
  | blank (g : List Char)
  | declaration (d : Declaration)

namespace StyleSegment

def chars : StyleSegment → List Char
  | blank g => g
  | declaration d => d.chars

def Valid : StyleSegment → Prop
  | blank g => Spaces g
  | declaration d => d.Valid

instance : (x : StyleSegment) → Decidable x.Valid
  | blank g => inferInstanceAs (Decidable (Spaces g))
  | declaration d => inferInstanceAs (Decidable d.Valid)

def declaration? : StyleSegment → Option Declaration
  | blank _ => none
  | declaration d => some d

end StyleSegment

/-- The text of a style attribute. -/
def styleText (segments : List StyleSegment) : String :=
  String.ofList ([';'].intercalate (segments.map StyleSegment.chars))

/-- The declarations of a style attribute, in order. -/
def declarations (segments : List StyleSegment) : List Declaration :=
  segments.filterMap StyleSegment.declaration?

/-! ## Reading declarations -/

/-- What is read between two semicolons. -/
def readDeclaration? (cs : List Char) : Option (String × String) :=
  match breakAt? [':'] cs with
  | none => none
  | some (name, value) =>
    let name := String.ofList (stripChars name)
    if name.isEmpty then none else some (camelCase name, String.ofList (stripChars value))

theorem parseStyle_eq (style : String) :
    parseStyle style = (splitAtEach (· == ';') style.toList).filterMap readDeclaration? :=
  rfl

theorem breakAt?_colon {before : List Char} (hbefore : ':' ∉ before) (after : List Char) :
    breakAt? [':'] (before ++ ':' :: after) = some (before, after) := by
  induction before with
  | nil => simp [breakAt?]
  | cons c before ih =>
    obtain ⟨hc, hbefore⟩ := not_or.mp (mt List.mem_cons.mpr hbefore)
    simp [breakAt?, ih hbefore, hc]

theorem breakAt?_colon_eq_none {cs : List Char} (hcs : ':' ∉ cs) : breakAt? [':'] cs = none := by
  induction cs with
  | nil => rfl
  | cons c cs ih =>
    obtain ⟨hc, hcs⟩ := not_or.mp (mt List.mem_cons.mpr hcs)
    simp [breakAt?, ih hcs, hc]

section

variable {d : Declaration} {segments : List StyleSegment}

/-- A character that is neither part of a name nor white space is in no name of a property, and in
no white space around it. -/
theorem Declaration.Valid.not_mem (hd : d.Valid) {c : Char} (hpart : isCssPart c = false)
    (hsolid : isBlank c = false) :
    c ∉ d.left ++ d.property ++ d.beforeColon ∧ c ∉ d.afterColon ∧ c ∉ d.right := by
  have hspaces {g : List Char} (hg : Spaces g) : c ∉ g := hg.not_mem hsolid
  have hproperty : c ∉ d.property := fun hc => by
    rw [isCssPart_of_isCssName hd.property c hc] at hpart
    cases hpart
  simp [hspaces hd.left, hspaces hd.beforeColon, hspaces hd.afterColon, hspaces hd.right, hproperty]

theorem readDeclaration?_chars (hd : d.Valid) : readDeclaration? d.chars = some d.row := by
  have hcolon := (hd.not_mem (c := ':') (by decide) (by decide)).1
  have hne : (String.ofList d.property).isEmpty = false := by
    have hproperty := hd.property
    cases hcs : d.property with
    | nil => simp [hcs, isCssName] at hproperty
    | cons c cs => simp
  rw [readDeclaration?, Declaration.chars, breakAt?_colon hcolon]
  simp only [stripChars_surround hd.left hd.beforeColon hd.propertyStripped,
    stripChars_surround hd.afterColon hd.right hd.valueStripped, hne]
  rfl

theorem readDeclaration?_spaces {g : List Char} (hg : Spaces g) : readDeclaration? g = none := by
  rw [readDeclaration?, breakAt?_colon_eq_none (hg.not_mem (by decide))]

/-- What is read of a value ends at a semicolon. -/
theorem semicolon_not_mem_of_mem_parseStyle {style : String} {row : String × String}
    (hrow : row ∈ parseStyle style) : ';' ∉ row.2.toList := by
  rw [parseStyle_eq, List.mem_filterMap] at hrow
  obtain ⟨cs, hcs, hread⟩ := hrow
  have hfree : ';' ∉ cs := fun hmem => by
    have hsep := splitAtEach_free hcs ';' hmem
    cases hsep
  rw [readDeclaration?] at hread
  split at hread
  · cases hread
  · next name value hbreak =>
    obtain ⟨-, hrow⟩ := Option.ite_none_left_eq_some.mp hread
    rw [← Option.some.inj hrow, String.toList_ofList]
    obtain ⟨left, right, hvalue, -⟩ := exists_surround value
    intro hmem
    refine hfree ?_
    rw [eq_of_breakAt? hbreak, hvalue]
    simp [hmem]

theorem StyleSegment.Valid.free {x : StyleSegment} (hx : x.Valid)
    (hvalue : ∀ d ∈ x.declaration?, ';' ∉ d.value) : ∀ c ∈ x.chars, (c == ';') = false := by
  suffices hmem : ';' ∉ x.chars from fun c hc => beq_false_of_ne fun h => hmem (h ▸ hc)
  cases x with
  | blank g => exact Spaces.not_mem hx (by decide)
  | declaration d =>
    have hd : d.Valid := hx
    obtain ⟨hname, hafter, hright⟩ := hd.not_mem (c := ';') (by decide) (by decide)
    have hend : ';' ∉ d.afterColon ++ d.value ++ d.right := by simp [hafter, hvalue d rfl, hright]
    exact List.not_mem_append hname (List.not_mem_cons_of_ne_of_not_mem (by decide) hend)

/-- Without such values, what stands between two semicolons is a declaration or nothing. -/
theorem parseStyle_of_free (hs : ∀ x ∈ segments, x.Valid)
    (hvalues : ∀ d ∈ declarations segments, ';' ∉ d.value) :
    parseStyle (styleText segments) = (declarations segments).map Declaration.row := by
  have hread : ∀ x ∈ segments, readDeclaration? x.chars = x.declaration?.map Declaration.row := by
    intro x hx
    have hvalid := hs x hx
    cases x with
    | blank g => exact readDeclaration?_spaces hvalid
    | declaration d => exact readDeclaration?_chars hvalid
  have hfree : ∀ l ∈ segments.map StyleSegment.chars, ∀ c ∈ l, (c == ';') = false := by
    intro l hl
    obtain ⟨x, hx, rfl⟩ := List.mem_map.mp hl
    exact (hs x hx).free fun d hd => hvalues d (List.mem_filterMap.mpr ⟨x, hx, hd⟩)
  rw [parseStyle_eq, styleText, String.toList_ofList]
  cases segments with
  | nil => rfl
  | cons x xs =>
    rw [splitAtEach_intercalate rfl (by simp) hfree, List.filterMap_map, declarations,
      List.map_filterMap]
    exact List.filterMap_congr hread

/-- **The declarations are read as they are written exactly if no value has a semicolon in it.** -/
theorem parseStyle_styleText (hs : ∀ x ∈ segments, x.Valid) :
    parseStyle (styleText segments) = (declarations segments).map Declaration.row ↔
      ∀ d ∈ declarations segments, ';' ∉ d.value := by
  refine ⟨fun hread d hd => ?_, parseStyle_of_free hs⟩
  have hrow : d.row ∈ parseStyle (styleText segments) := hread ▸ List.mem_map_of_mem hd
  have hfree := semicolon_not_mem_of_mem_parseStyle hrow
  rwa [Declaration.row, String.toList_ofList] at hfree

end

/-! ## The style attribute -/

/-- An object with given entries, as the style attribute has it; nothing without entries. -/
def styleObject (entries : List (String × String)) : Option String :=
  if entries = [] then none
  else
    let written := entries.map fun (name, value) => name ++ ": " ++ value
    some ("style=" ++ braced (braced (", ".intercalate written)))

theorem styleAttribute_eq (fixed : Option String) (bindings : List (String × String)) :
    styleAttribute fixed bindings = styleObject (Table.ordered
      ((parseStyle (fixed.getD "")).map (fun row => (row.1, jsonQuote row.2)) ++ bindings)) := by
  rw [styleAttribute, styleObject]
  dsimp only
  rw [Table.rows_ofList]
  split
  · next h => rw [if_pos h]
  · next h => rw [if_neg h]

theorem styleBinding_fst (name expression : String) :
    (styleBinding name expression).1 = camelCase (styleProperty name).1 := by
  rw [styleBinding]
  split
  · next h => rw [h]
  · next h => rw [h]

/-- The rows of declarations and bindings, in order: each with its key, and with its value as it
stands in the object. -/
def styleRows (segments : List StyleSegment) (bound : List (String × String)) :
    List (String × String) :=
  (declarations segments).map (fun d => (d.row.1, jsonQuote d.row.2)) ++
    bound.map fun b => styleBinding b.1 b.2

/-- The properties of declarations and bindings, in order. -/
def styleProperties (segments : List StyleSegment) (bound : List (String × String)) :
    List (List Char) :=
  (declarations segments).map Declaration.property ++
    bound.map fun b => (styleProperty b.1).1.toList

theorem map_fst_styleRows (segments : List StyleSegment) (bound : List (String × String)) :
    (styleRows segments bound).map (·.1) =
      (styleProperties segments bound).map fun p => camelCase (String.ofList p) := by
  rw [styleRows, styleProperties, List.map_append, List.map_append, List.map_map, List.map_map,
    List.map_map, List.map_map]
  refine congrArg _ (List.map_congr_left fun b _ => ?_)
  simp only [Function.comp_apply, styleBinding_fst, String.ofList_toList]

/-- **The style attribute.** The declarations are read as they are written exactly if no value has a
semicolon in it. Then the entries are those of the declarations and the bindings: each key stands
where it came first, with the value that came last. A key is a name in JavaScript exactly if each
hyphen of its property joins two words, and of properties without capitals no two share a key. -/
theorem styleAttribute_styleText {segments : List StyleSegment} (hs : ∀ x ∈ segments, x.Valid)
    (bound : List (String × String)) :
    (parseStyle (styleText segments) = (declarations segments).map Declaration.row ↔
      ∀ d ∈ declarations segments, ';' ∉ d.value) ∧
    ((∀ d ∈ declarations segments, ';' ∉ d.value) →
      styleAttribute (some (styleText segments)) (bound.map fun b => styleBinding b.1 b.2) =
        styleObject (Table.ordered (styleRows segments bound))) ∧
    (styleRows segments bound).map (·.1) =
      (styleProperties segments bound).map (fun p => camelCase (String.ofList p)) ∧
    (∀ p ∈ styleProperties segments bound, isCssName p = true → ∀ wideStart widePart,
      (IsKey wideStart widePart (camelCase (String.ofList p)).toList ↔
        Joined p ∧ (∀ c ∈ p.head?, 128 ≤ c.toNat → wideStart c = true) ∧
          ∀ c ∈ p.tail, 128 ≤ c.toNat → widePart c = true)) ∧
    ∀ p ∈ styleProperties segments bound, ∀ q ∈ styleProperties segments bound,
      (∀ c ∈ p, c.isUpper = false) → (∀ c ∈ q, c.isUpper = false) →
        camelCase (String.ofList p) = camelCase (String.ofList q) → p = q := by
  refine ⟨parseStyle_styleText hs, fun hvalues => ?_, map_fst_styleRows segments bound,
    fun p _ hp wideStart widePart => ?_, fun p _ q _ => camelCase_injective⟩
  · rw [styleAttribute_eq, Option.getD_some, parseStyle_of_free hs hvalues, List.map_map]
    rfl
  · rw [camelCase_ofList, String.toList_ofList]
    exact isKey_camelChars hp

/-- `color: red;; -webkit-box-flex: 1; color:"a:b"`. -/
def boxStyle : List StyleSegment :=
  [.declaration ⟨[], "color".toList, [], [' '], "red".toList, []⟩, .blank [],
    .declaration ⟨[' '], "-webkit-box-flex".toList, [], [' '], ['1'], []⟩,
    .declaration ⟨[' '], "color".toList, [], [], "\"a:b\"".toList, []⟩]

theorem styleAttribute_boxStyle :
    (∀ x ∈ boxStyle, x.Valid) ∧ (∀ d ∈ declarations boxStyle, ';' ∉ d.value) ∧
      styleAttribute (some (styleText boxStyle)) [styleBinding "width.px" "w"] =
        some ("style=\x7b\x7bcolor: \"\\\"a:b\\\"\", WebkitBoxFlex: \"1\", " ++
          "width: \x60$\x7bw\x7dpx\x60\x7d\x7d") := by
  have hvalid : ∀ x ∈ boxStyle, x.Valid := by decide +kernel
  have hvalues : ∀ d ∈ declarations boxStyle, ';' ∉ d.value := by decide
  have hentries := (styleAttribute_styleText hvalid [("width.px", "w")]).2.1 hvalues
  exact ⟨hvalid, hvalues, hentries.trans (by decide +kernel)⟩

/-- `background: url(data:image/png;base64,AA==)`. -/
def imageStyle : List StyleSegment :=
  [.declaration ⟨[], "background".toList, [], [' '], "url(data:image/png;base64,AA==)".toList, []⟩]

/-- `--main-color: red`. -/
def customStyle : List StyleSegment :=
  [.declaration ⟨[], "--main-color".toList, [], [' '], "red".toList, []⟩]

/-- An address that has its data in it is cut at the semicolon, and a custom property has a key that
is no name. -/
theorem styleAttribute_cut :
    (∀ x ∈ imageStyle ++ customStyle, x.Valid) ∧
      styleAttribute (some (styleText imageStyle)) [] =
        some "style=\x7b\x7bbackground: \"url(data:image/png\"\x7d\x7d" ∧
      styleObject (Table.ordered (styleRows imageStyle [])) =
        some "style=\x7b\x7bbackground: \"url(data:image/png;base64,AA==)\"\x7d\x7d" ∧
      styleAttribute (some (styleText customStyle)) [] =
        some "style=\x7b\x7b-MainColor: \"red\"\x7d\x7d" ∧
      ∀ wideStart widePart, ¬ IsKey wideStart widePart "-MainColor".toList := by
  refine ⟨by decide +kernel, by decide +kernel, by decide +kernel, by decide +kernel,
    fun wideStart _ h => ?_⟩
  have hstart : isKeyStart wideStart '-' = true := h.1
  simp [isKeyStart] at hstart

end Trellis.Jsx
