import Trellis.Proofs.Template.Lossless
import Trellis.Proofs.Template.Progress

/-!
# A parser driven by calls

A parser may be asked for a token, a node or a document in any order, also in the middle of a tag.
To say that nothing can go wrong then, this module puts the parser on a machine where things can:
the place is an index into a list, open tags are pushed on one stack that all calls share, and the
recursion takes fuel.

* `Machine` is the state, `Mishap` what can go wrong: an index without a token, a pop of the empty
  stack, and too little fuel. The operations are those of the parser, step by step.
* `Parser.onMachine` is the state of a parser, inside the given open tags. Every operation of the
  machine does there what the parser does, and ends with the open tags it started with: `adequate`
  for nodes, elements and children, by induction on the fuel, and `parse_onMachine` for documents.
* `session_sound`: whatever calls are made, the machine answers as the parser does, without a mishap
  and with fuel linear in the number of tokens; the place only moves forward, up to the end of
  input, and errors are only added.
-/

namespace Trellis.Template

/-! ## The machine -/

/-- What can go wrong. -/
inductive Mishap where
  | noToken (index : Nat)
  | noOpenTag
  | noFuel
  deriving DecidableEq, Repr

/-- A parser as an index into its tokens, with the errors so far and the tags that are open,
innermost first. -/
structure Machine where
  tokens : List Token
  pos : Nat
  errors : List ParseError
  openTags : List String

/-- A step of the machine. -/
abbrev Work (α : Type) := StateT Machine (Except Mishap) α

namespace Machine

def tokenAt (index : Nat) : Work Token := do
  match (← get).tokens[index]? with
  | some t => pure t
  | none => throw (.noToken index)

def current : Work Token := do
  let m ← get
  tokenAt (min m.pos (m.tokens.length - 1))

def peek (offset : Nat) : Work Token := do
  let m ← get
  tokenAt (if m.pos + offset < m.tokens.length then m.pos + offset else m.tokens.length - 1)

def previous : Work (Option Token) := do
  let m ← get
  if 0 < m.pos then some <$> tokenAt (m.pos - 1) else pure none

def advance : Work Token := do
  let token ← current
  if token.kind = .eof then pure token
  else
    modify fun m => { m with pos := m.pos + 1 }
    pure token

/-- The current token is of one of the given kinds. -/
def isAt (kinds : List TokenKind) : Work Bool := do
  let token ← current
  pure (kinds.contains token.kind)

def report (flaw : Flaw) (span : Span) : Work Unit :=
  modify fun m => { m with errors := m.errors ++ [⟨flaw, span⟩] }

def expect (k : TokenKind) : Work (Option Token) := do
  let token ← current
  if token.kind = k then some <$> advance
  else
    report (.expected k token.kind) token.span
    pure none

def spanFrom (first : Token) : Work Span := do
  match ← previous with
  | some t => pure (first.span.upTo t.span)
  | none => pure (first.span.upTo first.span)

/-- Opens a tag. -/
def push (tag : String) : Work Unit := modify fun m => { m with openTags := tag :: m.openTags }

/-- Closes the tag that was opened last. -/
def pop : Work Unit := do
  let m ← get
  match m.openTags with
  | [] => throw .noOpenTag
  | _ :: tags => set { m with openTags := tags }

/-- Passes tokens through the end of the current tag, but none that opens another one. -/
def skipTag : Nat → Work Unit
  | 0 => throw .noFuel
  | fuel + 1 => do
    if ← isAt [.eof] then pure ()
    else
      let token ← advance
      if Parser.endsTag token then pure ()
      else if ← isAt [.tagOpen, .tagEndOpen] then pure ()
      else skipTag fuel

def parseValue (name : Token) : Work (Option String) := do
  if ← isAt [.attrEquals] then
    let _ ← advance
    if ← isAt [.attrValue] then (fun t => some t.value) <$> advance
    else
      report (.missingValue name.value) name.span
      pure none
  else pure none

def parseAttributes : Nat → Work (List Attribute)
  | 0 => throw .noFuel
  | fuel + 1 => do
    if ← isAt [.attrName] then
      let name ← advance
      let value ← parseValue name
      let span ← spanFrom name
      let later ← parseAttributes fuel
      pure (Attribute.ofRaw name.value value span :: later)
    else pure []

/-- The end of an opening tag, and whether it closes itself. -/
def endOpening (name : Token) : Work Bool := do
  if ← isAt [.tagSelfClose] then
    let _ ← advance
    pure true
  else if ← isAt [.tagClose] then
    let _ ← advance
    pure false
  else
    report (.unclosedTag name.value) name.span
    pure false

/-- The opening tag at the current place. Without a name the rest of the tag is skipped. -/
def openingTag (fuel : Nat) : Work (Option Parser.OpeningTag) := do
  let first ← advance
  match ← expect .tagName with
  | none => do
    skipTag fuel
    pure none
  | some name => do
    let attributes ← parseAttributes fuel
    let selfClosing ← endOpening name
    pure (some ⟨first, name, attributes, selfClosing⟩)

/-- The name of the closing tag at the current place, if there is one. -/
def closingName : Work (Option String) := do
  if ← isAt [.tagEndOpen] then
    let next ← peek 1
    pure (if next.kind = .tagName then some next.value else none)
  else pure none

def passClosingTag : Work Unit := do
  let _ ← advance
  let _ ← advance
  if ← isAt [.tagClose] then
    let _ ← advance
    pure ()
  else pure ()

mutual

def parseNode : Nat → Work (Option Node)
  | 0 => throw .noFuel
  | fuel + 1 => do
    let token ← current
    match token.kind with
    | .text => do
      let _ ← advance
      pure (some (.text token.value token.span))
    | .interpolation => do
      let _ ← advance
      pure (some (.interpolation token.value token.span))
    | .comment => do
      let _ ← advance
      pure (some (.comment token.value token.span))
    | .tagOpen => parseElement fuel
    | .tagEndOpen => do
      skipTag fuel
      pure none
    | _ => do
      let _ ← advance
      pure none

def parseElement : Nat → Work (Option Node)
  | 0 => throw .noFuel
  | fuel + 1 => do
    match ← openingTag fuel with
    | none => pure none
    | some tag =>
      let name := tag.name.value
      if tag.selfClosing || isVoid name then do
        let span ← spanFrom tag.first
        pure (some (.element name tag.selfClosing tag.attributes [] span))
      else do
        push name
        let children ← parseChildren fuel name
        pop
        let span ← spanFrom tag.first
        pure (some (.element name false tag.attributes children span))

/-- The children of the element that was opened last. -/
def parseChildren : Nat → String → Work (List Node)
  | 0, _ => throw .noFuel
  | fuel + 1, tag => do
    if ← isAt [.eof] then pure []
    else
      let name ← closingName
      let outer := (← get).openTags.tail
      if name = some tag then do
        passClosingTag
        pure []
      else if name.any outer.contains then pure []
      else
        let child ← parseNode fuel
        let later ← parseChildren fuel tag
        pure (child.toList ++ later)

end

/-- All nodes up to the end of input. -/
def parseNodes : Nat → Work (List Node)
  | 0 => throw .noFuel
  | fuel + 1 => do
    if ← isAt [.eof] then pure []
    else
      let child ← parseNode fuel
      let later ← parseNodes fuel
      pure (child.toList ++ later)

def parse (fuel : Nat) : Work Document := do
  let first ← current
  let children ← parseNodes fuel
  let span ← spanFrom first
  pure ⟨children, span⟩

end Machine

/-! ## A parser on the machine -/

/-- A stream is read to its end only: the end of input comes last and nowhere else. -/
structure Parser.Closed (p : Parser) : Prop where
  eof : p.eof.kind = .eof
  ahead : ∀ t ∈ p.ahead, t.kind ≠ .eof

/-- The parser on the machine, inside the given open tags. -/
def Parser.onMachine (p : Parser) (tags : List String) : Machine :=
  ⟨p.passed.reverse ++ p.ahead ++ [p.eof], p.position, p.errors, tags⟩

namespace Parser

theorem Closed.reaches {p q : Parser} (h : p.Closed) (hq : Reaches p q) : q.Closed :=
  ⟨by rw [hq.eof, h.eof], fun t ht => h.ahead t (hq.ahead_subset ht)⟩

theorem Closed.current_kind {p : Parser} (h : p.Closed) :
    p.current.kind = .eof ↔ p.ahead = [] := by
  rw [current]
  cases hahead : p.ahead with
  | nil => simpa using h.eof
  | cons t ts => simpa using h.ahead t (hahead ▸ List.mem_cons_self)

/-- On the way the machine keeps its tokens. -/
theorem Reaches.onMachine {p q : Parser} (h : Reaches p q) (tags : List String) :
    q.onMachine tags = { p.onMachine tags with pos := q.position, errors := q.errors } := by
  rw [Parser.onMachine, Parser.onMachine, h.tokens, h.eof]

theorem getElem?_onMachine (p : Parser) (tags : List String) (i : Nat) :
    (p.onMachine tags).tokens[p.position + i]? = (p.ahead ++ [p.eof])[i]? := by
  rw [onMachine, List.append_assoc, position, ← List.length_reverse,
    List.getElem?_append_right (Nat.le_add_right _ _), Nat.add_sub_cancel_left]

theorem length_onMachine (p : Parser) (tags : List String) :
    (p.onMachine tags).tokens.length = p.position + p.ahead.length + 1 := by
  simp [onMachine, position, Nat.add_assoc]

end Parser

namespace Machine

variable {α β : Type} {m m' : Machine}

theorem bind_ok {x : Work α} {a : α} (h : x m = .ok (a, m')) (f : α → Work β) :
    (x >>= f) m = f a m' := by
  change (x m >>= fun r => f r.1 r.2) = f a m'
  rw [h]
  rfl

theorem map_ok {x : Work α} {a : α} (h : x m = .ok (a, m')) (f : α → β) :
    (f <$> x) m = .ok (f a, m') := by
  change (x m >>= fun r => pure (f r.1, r.2)) = _
  rw [h]
  rfl

theorem tokenAt_ok {index : Nat} {t : Token} (h : m.tokens[index]? = some t) :
    tokenAt index m = .ok (t, m) := by
  rw [tokenAt, bind_ok (rfl : (get : Work Machine) m = _), h]
  rfl

variable {p : Parser} {tags : List String}

theorem current_onMachine (p : Parser) (tags : List String) :
    current (p.onMachine tags) = .ok (p.current, p.onMachine tags) := by
  have htoken : (p.onMachine tags).tokens[p.position]? = some p.current := by
    rw [← Nat.add_zero p.position, p.getElem?_onMachine, Parser.current]
    cases p.ahead <;> rfl
  have hindex : min (p.onMachine tags).pos ((p.onMachine tags).tokens.length - 1) =
      p.position := by
    rw [p.length_onMachine]
    exact Nat.min_eq_left (Nat.le_add_right _ _)
  rw [current, bind_ok rfl, hindex, tokenAt_ok htoken]

theorem peek_onMachine (p : Parser) (tags : List String) (offset : Nat) :
    peek offset (p.onMachine tags) = .ok (p.peek offset, p.onMachine tags) := by
  have hlength := p.length_onMachine tags
  have hpos : (p.onMachine tags).pos = p.position := rfl
  rw [peek, bind_ok rfl, hlength, hpos]
  split
  · next hinside =>
    refine tokenAt_ok ?_
    rw [p.getElem?_onMachine, Parser.peek, List.getD_eq_getElem?_getD]
    obtain hlt | heq : offset < p.ahead.length ∨ offset = p.ahead.length := by omega
    · simp [List.getElem?_append_left hlt, hlt]
    · simp [heq]
  · next hbeyond =>
    have hoffset : p.ahead.length ≤ offset := by omega
    refine tokenAt_ok ?_
    rw [Nat.add_sub_cancel, p.getElem?_onMachine, Parser.peek, List.getD_eq_getElem?_getD,
      List.getElem?_eq_none hoffset]
    simp

theorem previous_onMachine (p : Parser) (tags : List String) :
    previous (p.onMachine tags) = .ok (p.previous?, p.onMachine tags) := by
  obtain ⟨passed, ahead, eof, errors⟩ := p
  cases passed with
  | nil => rfl
  | cons t ts =>
    rw [previous, bind_ok rfl]
    refine map_ok (tokenAt_ok ?_) some
    simp [Parser.onMachine, Parser.position]

theorem isAt_onMachine (p : Parser) (tags : List String) (kinds : List TokenKind) :
    isAt kinds (p.onMachine tags) =
      .ok (kinds.contains p.current.kind, p.onMachine tags) := by
  rw [isAt, bind_ok (current_onMachine p tags)]
  rfl

theorem advance_onMachine (h : p.Closed) (tags : List String) :
    advance (p.onMachine tags) = .ok (p.current, p.advance.onMachine tags) := by
  rw [advance, bind_ok (current_onMachine p tags)]
  split
  · next heof =>
    have hahead := h.current_kind.mp heof
    have hstay : p.advance = p := by rw [Parser.advance, hahead]
    rw [hstay]
    rfl
  · next hne =>
    have hahead : p.ahead ≠ [] := fun hnil => hne (h.current_kind.mpr hnil)
    have hnext : p.advance.position = p.position + 1 ∧ p.advance.errors = p.errors := by
      obtain ⟨passed, ahead, eof, errors⟩ := p
      cases ahead with
      | nil => exact absurd rfl hahead
      | cons t ts => exact ⟨rfl, rfl⟩
    rw [(Parser.reaches_advance p).onMachine, hnext.1, hnext.2]
    rfl

theorem at_onMachine (p : Parser) (tags : List String) (k : TokenKind) :
    isAt [k] (p.onMachine tags) = .ok (p.at? k, p.onMachine tags) := by
  rw [isAt_onMachine, Parser.at?, List.contains_cons, List.contains_nil, Bool.or_false]

theorem expect_onMachine (h : p.Closed) (tags : List String) (k : TokenKind) :
    expect k (p.onMachine tags) = .ok ((p.expect k).1, (p.expect k).2.onMachine tags) := by
  rw [expect, bind_ok (current_onMachine p tags), Parser.expect]
  by_cases hk : p.current.kind = k
  · rw [if_pos hk, if_pos (by simpa [Parser.at?] using hk)]
    exact map_ok (advance_onMachine h tags) some
  · rw [if_neg hk, if_neg (by simpa [Parser.at?] using hk)]
    rfl

theorem spanFrom_onMachine (p : Parser) (tags : List String) (first : Token) :
    spanFrom first (p.onMachine tags) = .ok (p.spanFrom first, p.onMachine tags) := by
  rw [spanFrom, bind_ok (previous_onMachine p tags), Parser.spanFrom]
  cases p.previous? <;> rfl

/-! ### Tags -/

/-- The rest of a tag, one token at a time. -/
theorem skipTag_step (h : p.Closed) (hahead : p.ahead ≠ []) :
    p.skipTag =
      if Parser.endsTag p.current || Parser.opensTag p.advance.current then p.advance
      else p.advance.skipTag := by
  obtain ⟨passed, ahead, eof, errors⟩ := p
  match ahead, hahead with
  | [t], _ =>
    have heof : eof.kind = .eof := h.eof
    have hstop : Parser.opensTag eof = false := by simp [Parser.opensTag, heof]
    simp [Parser.skipTag, Parser.skipTagFrom, Parser.current, Parser.advance, hstop]
  | t :: u :: ts, _ =>
    by_cases hstop : (Parser.endsTag t || Parser.opensTag u) = true
    · simp [Parser.skipTag, Parser.skipTagFrom, Parser.current, Parser.advance, hstop]
    · simp [Parser.skipTag, Parser.skipTagFrom, Parser.current, Parser.advance, hstop]

theorem skipTag_onMachine (h : p.Closed) (tags : List String) {fuel : Nat}
    (hfuel : p.ahead.length < fuel) :
    skipTag fuel (p.onMachine tags) = .ok ((), p.skipTag.onMachine tags) := by
  induction fuel generalizing p with
  | zero => exact absurd hfuel (Nat.not_lt_zero _)
  | succ fuel ih =>
    rw [skipTag, bind_ok (at_onMachine p tags _)]
    by_cases hahead : p.ahead = []
    · have hstay : p.skipTag = p := by rw [Parser.skipTag, hahead, Parser.skipTagFrom, ← hahead]
      have hend : p.at? .eof = true := by simpa [Parser.at?] using h.current_kind.mpr hahead
      rw [if_pos hend, hstay]
      rfl
    · have hgo : ¬ p.at? .eof = true := by
        simpa [Parser.at?] using mt h.current_kind.mp hahead
      have hq := h.reaches (Parser.reaches_advance p)
      have hlt := Parser.length_advance_lt hahead
      rw [if_neg hgo, bind_ok (advance_onMachine h tags), skipTag_step h hahead]
      by_cases hends : Parser.endsTag p.current = true
      · rw [if_pos hends, hends, Bool.true_or, if_pos rfl]
        rfl
      · have hopens : [TokenKind.tagOpen, .tagEndOpen].contains p.advance.current.kind =
            Parser.opensTag p.advance.current := by
          rw [Parser.opensTag, List.contains_cons, List.contains_cons, List.contains_nil,
            Bool.or_false]
        rw [if_neg hends, bind_ok (isAt_onMachine _ tags _), hopens,
          Bool.eq_false_iff.mpr hends, Bool.false_or]
        split
        · rfl
        · exact ih hq (by omega)

theorem parseValue_onMachine (h : p.Closed) (tags : List String) (name : Token) :
    parseValue name (p.onMachine tags) =
      .ok ((p.parseValue name).1, (p.parseValue name).2.onMachine tags) := by
  have hq := h.reaches (Parser.reaches_advance p)
  rw [parseValue, bind_ok (at_onMachine p tags _), Parser.parseValue]
  split
  · rw [bind_ok (advance_onMachine h tags), bind_ok (at_onMachine p.advance tags _)]
    dsimp only
    split
    · exact map_ok (advance_onMachine hq tags) _
    · rfl
  · rfl

theorem parseAttributes_onMachine (h : p.Closed) (tags : List String) {fuel : Nat}
    (hfuel : p.ahead.length < fuel) :
    parseAttributes fuel (p.onMachine tags) =
      .ok (p.parseAttributes.1, p.parseAttributes.2.onMachine tags) := by
  induction fuel generalizing p with
  | zero => exact absurd hfuel (Nat.not_lt_zero _)
  | succ fuel ih =>
    rw [parseAttributes, bind_ok (at_onMachine p tags _), Parser.parseAttributes]
    cases hahead : p.ahead with
    | nil =>
      have hnone : p.at? .attrName = false := by
        simp [Parser.at?, h.current_kind.mpr hahead]
      rw [hnone]
      rfl
    | cons name rest =>
      have hname : p.current = name := by rw [Parser.current, hahead, List.headD_cons]
      have hq := h.reaches (Parser.reaches_advance p)
      have hr := hq.reaches (Parser.reaches_parseValue p.advance name)
      have hlt : (p.advance.parseValue name).2.ahead.length < p.ahead.length :=
        Nat.lt_of_le_of_lt (Parser.length_parseValue_le _ _)
          (Parser.length_advance_lt (by simp [hahead]))
      have hat : p.at? .attrName = decide (name.kind = .attrName) := by
        rw [Parser.at?, hname]
        rfl
      simp only [hat, decide_eq_true_eq]
      split
      · rw [bind_ok (advance_onMachine h tags), hname, bind_ok (parseValue_onMachine hq tags name),
          bind_ok (spanFrom_onMachine _ tags name), bind_ok (ih hr (by omega))]
        rfl
      · rfl

theorem endOpening_onMachine (h : p.Closed) (tags : List String) (name : Token) :
    endOpening name (p.onMachine tags) =
      .ok (p.at? .tagSelfClose,
        (if p.at? .tagSelfClose || p.at? .tagClose then p.advance
          else p.report (.unclosedTag name.value) name.span).onMachine tags) := by
  rw [endOpening, bind_ok (at_onMachine p tags _)]
  cases hself : p.at? .tagSelfClose with
  | true =>
    rw [if_pos rfl, bind_ok (advance_onMachine h tags)]
    rfl
  | false =>
    rw [if_neg Bool.false_ne_true, bind_ok (at_onMachine p tags _), Bool.false_or]
    split
    · rw [bind_ok (advance_onMachine h tags)]
      rfl
    · rfl

theorem closingName_onMachine (p : Parser) (tags : List String) :
    closingName (p.onMachine tags) = .ok (p.closingName?, p.onMachine tags) := by
  rw [closingName, bind_ok (at_onMachine p tags _), Parser.closingName?]
  cases hend : p.at? .tagEndOpen with
  | true =>
    rw [if_pos rfl, bind_ok (peek_onMachine p tags 1), Bool.true_and]
    simp only [beq_iff_eq]
    rfl
  | false => rfl

theorem passClosingTag_onMachine (h : p.Closed) (tags : List String) :
    passClosingTag (p.onMachine tags) = .ok ((), p.passClosingTag.onMachine tags) := by
  have hq := h.reaches (Parser.reaches_advance p)
  have hr := hq.reaches (Parser.reaches_advance p.advance)
  rw [passClosingTag, bind_ok (advance_onMachine h tags), bind_ok (advance_onMachine hq tags),
    bind_ok (at_onMachine _ tags _), Parser.passClosingTag]
  split
  · rw [bind_ok (advance_onMachine hr tags)]
    rfl
  · rfl

theorem openingTag_onMachine (h : p.Closed) (tags : List String) {fuel : Nat}
    (hfuel : p.ahead.length ≤ fuel) (hpos : 0 < fuel) :
    openingTag fuel (p.onMachine tags) =
      .ok (p.parseOpeningTag.1, p.parseOpeningTag.2.onMachine tags) := by
  have hq := h.reaches (Parser.reaches_advance p)
  have hr := hq.reaches (Parser.reaches_expect p.advance .tagName)
  have hlt : (p.advance.expect .tagName).2.ahead.length < fuel := by
    refine Nat.lt_of_le_of_lt (Parser.length_expect_le _ _) ?_
    by_cases hahead : p.ahead = []
    · have hstay : p.advance = p := by rw [Parser.advance, hahead]
      rw [hstay, hahead]
      exact hpos
    · exact Nat.lt_of_lt_of_le (Parser.length_advance_lt hahead) hfuel
  rw [openingTag, bind_ok (advance_onMachine h tags), bind_ok (expect_onMachine hq tags _),
    Parser.parseOpeningTag]
  rcases hexpect : p.advance.expect .tagName with ⟨_ | name, q⟩
  · rw [hexpect] at hr hlt
    dsimp only
    rw [bind_ok (skipTag_onMachine hr tags hlt)]
    rfl
  · rw [hexpect] at hr hlt
    have hs := hr.reaches (Parser.reaches_parseAttributes q)
    dsimp only
    rw [bind_ok (parseAttributes_onMachine hr tags hlt),
      bind_ok (endOpening_onMachine hs tags name)]
    cases q.parseAttributes.2.at? .tagSelfClose with
    | true => rfl
    | false => cases q.parseAttributes.2.at? .tagClose <;> rfl

/-! ### Nodes -/

/-- With this much fuel the machine reads what the parser reads. A token takes three steps: an
element's tag, its list of children and the node in it. -/
structure Adequate (fuel : Nat) : Prop where
  node : ∀ (p : Parser) (tags : List String), p.Closed → 3 * p.ahead.length + 1 ≤ fuel →
    parseNode fuel (p.onMachine tags) =
      .ok ((Parser.parseNodeIn tags p).1, (Parser.parseNodeIn tags p).2.onMachine tags)
  element : ∀ (p : Parser) (tags : List String) (hahead : p.ahead ≠ []), p.Closed →
    3 * p.ahead.length ≤ fuel →
    parseElement fuel (p.onMachine tags) =
      .ok ((Parser.parseElementIn tags p hahead).1,
        (Parser.parseElementIn tags p hahead).2.onMachine tags)
  children : ∀ (p : Parser) (tag : String) (outer : List String), p.Closed →
    3 * p.ahead.length + 2 ≤ fuel →
    parseChildren fuel tag (p.onMachine (tag :: outer)) =
      .ok ((Parser.parseChildrenIn (tag :: outer) p).1,
        (Parser.parseChildrenIn (tag :: outer) p).2.onMachine (tag :: outer))

theorem push_onMachine (p : Parser) (tags : List String) (tag : String) :
    push tag (p.onMachine tags) = .ok ((), p.onMachine (tag :: tags)) := rfl

theorem pop_onMachine (p : Parser) (tags : List String) (tag : String) :
    pop (p.onMachine (tag :: tags)) = .ok ((), p.onMachine tags) := rfl

theorem Adequate.node_succ {fuel : Nat} (ih : Adequate fuel) (h : p.Closed) (tags : List String)
    (hfuel : 3 * p.ahead.length ≤ fuel) :
    parseNode (fuel + 1) (p.onMachine tags) =
      .ok ((Parser.parseNodeIn tags p).1, (Parser.parseNodeIn tags p).2.onMachine tags) := by
  have hpass : ∀ node : Option Node, (do let _ ← advance; pure node : Work (Option Node))
      (p.onMachine tags) = .ok (node, p.advance.onMachine tags) := fun node => by
    rw [bind_ok (advance_onMachine h tags)]
    rfl
  rw [parseNode, bind_ok (current_onMachine p tags), Parser.parseNodeIn]
  split
  · next hahead =>
    have hstay : p.advance = p := by rw [Parser.advance, hahead]
    simpa only [h.current_kind.mpr hahead, hstay] using hpass none
  · next t ts hahead =>
    have hcurrent : p.current = t := by rw [Parser.current, hahead, List.headD_cons]
    have hne : p.ahead ≠ [] := by simp [hahead]
    have hlength : p.ahead.length = ts.length + 1 := by rw [hahead, List.length_cons]
    rw [hcurrent]
    split
    · next hkind => simpa only [hkind] using hpass _
    · next hkind => simpa only [hkind] using hpass _
    · next hkind => simpa only [hkind] using hpass _
    · next hkind => simpa only [hkind] using ih.element p tags hne h hfuel
    · next hkind =>
      simp only [hkind]
      rw [bind_ok (skipTag_onMachine h tags (by omega))]
      rfl
    · next htext hinterpolation hcomment hopen hend =>
      cases hkind : t.kind with
      | text => exact absurd hkind htext
      | interpolation => exact absurd hkind hinterpolation
      | comment => exact absurd hkind hcomment
      | tagOpen => exact absurd hkind hopen
      | tagEndOpen => exact absurd hkind hend
      | _ => exact hpass none

theorem Adequate.element_succ {fuel : Nat} (ih : Adequate fuel) (h : p.Closed)
    (tags : List String) (hahead : p.ahead ≠ []) (hfuel : 3 * p.ahead.length ≤ fuel + 1) :
    parseElement (fuel + 1) (p.onMachine tags) =
      .ok ((Parser.parseElementIn tags p hahead).1,
        (Parser.parseElementIn tags p hahead).2.onMachine tags) := by
  have hq := h.reaches (Parser.reaches_parseOpeningTag p)
  have hlt := Parser.length_parseOpeningTag_lt hahead
  have hopening : openingTag fuel (p.onMachine tags) =
      .ok (p.parseOpeningTag.1, p.parseOpeningTag.2.onMachine tags) :=
    openingTag_onMachine h tags (by omega) (by omega)
  rw [parseElement, bind_ok hopening, Parser.parseElementIn]
  dsimp only
  split
  · next htag =>
    rw [htag]
    rfl
  · next tag htag =>
    simp only [htag]
    split
    · rw [bind_ok (spanFrom_onMachine _ tags _)]
      rfl
    · rw [bind_ok (push_onMachine _ tags _),
        bind_ok (ih.children _ tag.name.value tags hq (by omega)),
        bind_ok (pop_onMachine _ tags _), bind_ok (spanFrom_onMachine _ tags _)]
      rfl

theorem Adequate.children_succ {fuel : Nat} (ih : Adequate fuel) (h : p.Closed) (tag : String)
    (outer : List String) (hfuel : 3 * p.ahead.length + 1 ≤ fuel) :
    parseChildren (fuel + 1) tag (p.onMachine (tag :: outer)) =
      .ok ((Parser.parseChildrenIn (tag :: outer) p).1,
        (Parser.parseChildrenIn (tag :: outer) p).2.onMachine (tag :: outer)) := by
  rw [parseChildren, bind_ok (at_onMachine p _ _), Parser.parseChildrenIn]
  by_cases hahead : p.ahead = []
  · have hend : p.at? .eof = true := by simpa [Parser.at?] using h.current_kind.mpr hahead
    rw [if_pos hend, if_pos (by simp [Parser.isAtEnd, hahead])]
    rfl
  have hgo : ¬ p.at? .eof = true := by simpa [Parser.at?] using mt h.current_kind.mp hahead
  rw [if_neg hgo, if_neg (by simpa [Parser.isAtEnd] using hahead),
    bind_ok (closingName_onMachine p _), bind_ok (rfl : (get : Work Machine) _ = _)]
  have hlt := Parser.length_parseNodeIn_lt (tag :: outer) p hahead
  have hq := h.reaches (Parser.reaches_parseNodeIn (tag :: outer) p)
  have hchild : (do
        let child ← parseNode fuel
        let later ← parseChildren fuel tag
        pure (child.toList ++ later) : Work (List Node)) (p.onMachine (tag :: outer)) =
      .ok ((Parser.parseChildInto (tag :: outer) p).1,
        (Parser.parseChildInto (tag :: outer) p).2.onMachine (tag :: outer)) := by
    rw [bind_ok (ih.node p _ h hfuel), bind_ok (ih.children _ tag outer hq (by omega)),
      Parser.parseChildInto]
    dsimp only
    rw [if_pos hlt]
    rfl
  cases hname : p.closingName? with
  | none => exact hchild
  | some name =>
    have hmine : (some name = some tag) = ((tag :: outer).head? = some name) :=
      propext ⟨Eq.symm, Eq.symm⟩
    have houter : (p.onMachine (tag :: outer)).openTags.tail = (tag :: outer).tail := rfl
    simp only [hmine, houter, Option.any_some]
    split
    · rw [bind_ok (passClosingTag_onMachine h _)]
      rfl
    · split
      · rfl
      · exact hchild

theorem adequate (fuel : Nat) : Adequate fuel := by
  induction fuel with
  | zero =>
    refine ⟨fun p _ _ hfuel => ?_, fun p _ hahead _ hfuel => ?_, fun p _ _ _ hfuel => ?_⟩
    · exact absurd hfuel (by omega)
    · exact absurd (List.length_eq_zero_iff.mp (by omega)) hahead
    · exact absurd hfuel (by omega)
  | succ fuel ih =>
    exact ⟨fun p tags h hfuel => ih.node_succ h tags (by omega),
      fun p tags hahead h hfuel => ih.element_succ h tags hahead hfuel,
      fun p tag outer h hfuel => ih.children_succ h tag outer (by omega)⟩

/-- An element may be asked for at any token; at the end of input there is none. -/
theorem parseElement_onMachine (h : p.Closed) {fuel : Nat}
    (hfuel : 3 * p.ahead.length + 2 ≤ fuel) :
    parseElement fuel (p.onMachine []) =
      .ok (p.parseElement.1, p.parseElement.2.onMachine []) := by
  rw [Parser.parseElement]
  split
  · next hahead =>
    obtain ⟨fuel, rfl⟩ : ∃ n, fuel = n + 1 := ⟨fuel - 1, by omega⟩
    have hstay : p.advance = p := by rw [Parser.advance, hahead]
    have hname : p.at? .tagName = false := by
      simp [Parser.at?, h.current_kind.mpr hahead]
    have hnone : p.parseOpeningTag.1 = none := by
      rw [Parser.parseOpeningTag, hstay, Parser.expect, hname]
      rfl
    rw [parseElement, bind_ok (openingTag_onMachine h [] (by omega) (by omega)), hnone]
    rfl
  · next hahead => exact (adequate fuel).element p [] hahead h (by omega)

theorem parseNodes_onMachine (h : p.Closed) {fuel : Nat}
    (hfuel : 3 * p.ahead.length + 2 ≤ fuel) :
    parseNodes fuel (p.onMachine []) = .ok (p.parseNodes.1, p.parseNodes.2.onMachine []) := by
  induction fuel generalizing p with
  | zero => exact absurd hfuel (by omega)
  | succ fuel ih =>
    rw [parseNodes, bind_ok (at_onMachine p _ _), Parser.parseNodes]
    by_cases hahead : p.ahead = []
    · have hend : p.at? .eof = true := by simpa [Parser.at?] using h.current_kind.mpr hahead
      rw [if_pos hend, if_pos (by simp [Parser.isAtEnd, hahead])]
      rfl
    · have hgo : ¬ p.at? .eof = true := by simpa [Parser.at?] using mt h.current_kind.mp hahead
      have hlt := Parser.length_parseNodeIn_lt [] p hahead
      have hq := h.reaches (Parser.reaches_parseNodeIn [] p)
      rw [if_neg hgo, if_neg (by simpa [Parser.isAtEnd] using hahead),
        bind_ok ((adequate fuel).node p [] h (by omega)), bind_ok (ih hq (by omega))]
      simp only [Parser.parseNode, hlt, if_true]
      rfl

theorem parse_onMachine (h : p.Closed) {fuel : Nat} (hfuel : 3 * p.ahead.length + 2 ≤ fuel) :
    parse fuel (p.onMachine []) = .ok (p.parseDocument.1, p.parseDocument.2.onMachine []) := by
  rw [parse, bind_ok (current_onMachine p []), bind_ok (parseNodes_onMachine h hfuel),
    bind_ok (spanFrom_onMachine _ [] _)]
  rfl

end Machine

/-! ## Calls -/

/-- What may be asked of a parser. -/
inductive Call where
  | advance
  | expect (kind : TokenKind)
  | isAt (kinds : List TokenKind)
  | peek (offset : Nat)
  | current
  | previous
  | skipTag
  | node
  | element
  | document

/-- What a parser answers. -/
inductive Answer where
  | done
  | truth (b : Bool)
  | token (t : Option Token)
  | node (n : Option Node)
  | document (d : Document)

/-- The call, as a parser answers it. -/
def Parser.call (p : Parser) : Call → Answer × Parser
  | .advance => (.token p.current, p.advance)
  | .expect kind => (.token (p.expect kind).1, (p.expect kind).2)
  | .isAt kinds => (.truth (kinds.contains p.current.kind), p)
  | .peek offset => (.token (p.peek offset), p)
  | .current => (.token p.current, p)
  | .previous => (.token p.previous?, p)
  | .skipTag => (.done, p.skipTag)
  | .node => (.node p.parseNode.1, p.parseNode.2)
  | .element => (.node p.parseElement.1, p.parseElement.2)
  | .document => (.document p.parseDocument.1, p.parseDocument.2)

/-- The call, as the machine answers it. -/
def Machine.call (fuel : Nat) : Call → Work Answer
  | .advance => (fun t => .token (some t)) <$> advance
  | .expect kind => .token <$> expect kind
  | .isAt kinds => .truth <$> isAt kinds
  | .peek offset => (fun t => .token (some t)) <$> peek offset
  | .current => (fun t => .token (some t)) <$> current
  | .previous => .token <$> previous
  | .skipTag => (fun _ => .done) <$> skipTag fuel
  | .node => .node <$> parseNode fuel
  | .element => .node <$> parseElement fuel
  | .document => .document <$> parse fuel

/-- The answers of the machine to calls in a row, each with the state after it. -/
def Machine.run (fuel : Nat) : List Call → Machine → Except Mishap (List (Answer × Machine))
  | [], _ => pure []
  | c :: calls, m => do
    let (answer, m) ← call fuel c m
    let later ← run fuel calls m
    pure ((answer, m) :: later)

/-- A call of a session, with the parser before and after it. -/
structure Parser.Exchange where
  before : Parser
  call : Call
  answer : Answer
  after : Parser

/-- Calls in a row, all to the same parser. -/
def Parser.session (p : Parser) : List Call → List Exchange
  | [] => []
  | c :: calls => ⟨p, c, (p.call c).1, (p.call c).2⟩ :: (p.call c).2.session calls

theorem Parser.reaches_call (p : Parser) (c : Call) : Reaches p (p.call c).2 := by
  cases c with
  | advance => exact reaches_advance p
  | expect kind => exact reaches_expect p kind
  | isAt kinds => exact .refl p
  | peek offset => exact .refl p
  | current => exact .refl p
  | previous => exact .refl p
  | skipTag => exact reaches_skipTag p
  | node => exact reaches_parseNodeIn [] p
  | element => exact reaches_parseElement p
  | document => exact reaches_parseNodes p

/-- **A call to the machine** gives what the parser gives, and leaves no tag open. -/
theorem Machine.call_onMachine {p : Parser} (h : p.Closed) {fuel : Nat}
    (hfuel : 3 * p.ahead.length + 2 ≤ fuel) (c : Call) :
    call fuel c (p.onMachine []) = .ok ((p.call c).1, (p.call c).2.onMachine []) := by
  cases c with
  | advance => exact map_ok (advance_onMachine h []) _
  | expect kind => exact map_ok (expect_onMachine h [] kind) _
  | isAt kinds => exact map_ok (isAt_onMachine p [] kinds) _
  | peek offset => exact map_ok (peek_onMachine p [] offset) _
  | current => exact map_ok (current_onMachine p []) _
  | previous => exact map_ok (previous_onMachine p []) _
  | skipTag => exact map_ok (skipTag_onMachine h [] (by omega)) _
  | node => exact map_ok ((adequate fuel).node p [] h (by omega)) _
  | element => exact map_ok (parseElement_onMachine h hfuel) _
  | document => exact map_ok (parse_onMachine h hfuel) _

/-! ## Sessions -/

namespace Parser

/-- An exchange of a session takes place where the calls before it have led, and its result is that
of its call. -/
theorem mem_session {p : Parser} {calls : List Call} {x : Exchange} (hx : x ∈ p.session calls) :
    Reaches p x.before ∧ x.after = (x.before.call x.call).2 := by
  induction calls generalizing p with
  | nil => exact absurd hx List.not_mem_nil
  | cons c calls ih =>
    rcases List.mem_cons.mp hx with rfl | hx
    · exact ⟨.refl p, rfl⟩
    · obtain ⟨hreaches, hafter⟩ := ih hx
      exact ⟨(reaches_call p c).trans hreaches, hafter⟩

/-- **Calls in a row**: as long as the fuel is enough for the tokens ahead, the machine answers as
the parser does. -/
theorem run_onMachine {p : Parser} (h : p.Closed) {fuel : Nat}
    (hfuel : 3 * p.ahead.length + 2 ≤ fuel) (calls : List Call) :
    Machine.run fuel calls (p.onMachine []) =
      .ok ((p.session calls).map fun x => (x.answer, x.after.onMachine [])) := by
  induction calls generalizing p with
  | nil => rfl
  | cons c calls ih =>
    have hreaches := reaches_call p c
    have hlength := hreaches.position_add
    have hforward := hreaches.position_le
    rw [Machine.run, Machine.call_onMachine h hfuel]
    change (Machine.run fuel calls _ >>= _) = _
    rw [ih (h.reaches hreaches) (by omega)]
    rfl

/-- What holds of a call to a parser of a stream. -/
structure Exchange.Sound (stream : TokenStream) (x : Exchange) : Prop where
  /-- The place moves forward only. -/
  forward : x.before.position ≤ x.after.position
  /-- The end of input is not passed. -/
  within : x.after.position ≤ stream.tokens.length
  /-- Errors are only added. -/
  errors : x.before.errors <+: x.after.errors
  /-- To read a node takes a token, if there is one. -/
  progress : x.call = .node ∨ x.call = .element → x.before.current.kind ≠ .eof →
    x.before.position < x.after.position
  /-- To read a document takes them all. -/
  finished : x.call = .document → x.after.current.kind = .eof

theorem closed_ofStream (source : String) : (ofStream (tokenize source)).Closed :=
  ⟨rfl, kind_tokenize source⟩

theorem sound_of_mem_session {source : String} {calls : List Call} {x : Exchange}
    (hx : x ∈ (ofStream (tokenize source)).session calls) : x.Sound (tokenize source) := by
  obtain ⟨hbefore, hafter⟩ := mem_session hx
  have hcall : Reaches x.before x.after := hafter ▸ reaches_call x.before x.call
  have hclosed := (closed_ofStream source).reaches hbefore
  have htokens := (hbefore.trans hcall).position_add
  refine ⟨hcall.position_le, ?_, hcall.errors, fun hnode hkind => ?_, fun hdocument => ?_⟩
  · have hstart : (ofStream (tokenize source)).position = 0 := rfl
    have hahead : (ofStream (tokenize source)).ahead = (tokenize source).tokens := rfl
    rw [hstart, hahead] at htokens
    omega
  · have hne : x.before.ahead ≠ [] := mt hclosed.current_kind.mpr hkind
    rw [hcall.position_lt_iff, hafter]
    rcases hnode with hnode | hnode
    · rw [hnode]
      exact length_parseNodeIn_lt [] _ hne
    · rw [hnode]
      exact length_parseElement_lt hne
  · refine (hclosed.reaches hcall).current_kind.mpr ?_
    rw [hafter, hdocument]
    exact ahead_parseNodes x.before

end Parser

/-- **A session with a parser**: whatever is asked of it, in any order, the machine answers without
a mishap, with the answers of the parser, on the tokens of the source and with no tag left open.
Every exchange is sound. Fuel linear in the number of tokens is enough for every call. -/
theorem session_sound (source : String) (calls : List Call) (extra : Nat) :
    let stream := tokenize source
    let session := (Parser.ofStream stream).session calls
    Machine.run (3 * stream.tokens.length + 2 + extra) calls ⟨stream.toList, 0, [], []⟩ =
        .ok (session.map fun x =>
          (x.answer, ⟨stream.toList, x.after.position, x.after.errors, []⟩)) ∧
      ∀ x ∈ session, x.Sound stream := by
  refine ⟨?_, fun x hx => Parser.sound_of_mem_session hx⟩
  have hrun := Parser.run_onMachine (Parser.closed_ofStream source)
    (Nat.le_add_right (3 * (tokenize source).tokens.length + 2) extra) calls
  refine hrun.trans (congrArg Except.ok (List.map_congr_left fun x hx => ?_))
  obtain ⟨hbefore, hafter⟩ := Parser.mem_session hx
  have hreaches := hbefore.trans (Parser.reaches_call x.before x.call)
  rw [hafter, hreaches.onMachine]
  rfl

end Trellis.Template
