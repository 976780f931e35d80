import Trellis.Proofs.Template.Parsing

/-!
# The way of a parser through its tokens

A parser moves forward only, whatever is asked of it and wherever it stands.

* `Reaches p q` says that `q` is where `p` can get: in the same stream, at the same place or a later
  one, with the errors of `p` and possibly more after them. Every operation of the parser reaches
  its result (`reaches_parseNodeIn` for nodes, and so on).
* `position_lt_iff`: the place is a later one exactly if fewer tokens are ahead.
* `ahead_parseNodes`: a whole document takes all tokens.
-/

namespace Trellis.Template.Parser

/-- From `p` one can get to `q`. -/
structure Reaches (p q : Parser) : Prop where
  /-- Some tokens that were ahead have been passed. -/
  moved : ∃ ts, q.passed = ts.reverse ++ p.passed ∧ p.ahead = ts ++ q.ahead
  eof : q.eof = p.eof
  /-- Errors are only added. -/
  errors : p.errors <+: q.errors

namespace Reaches

variable {p q r : Parser}

theorem refl (p : Parser) : Reaches p p := ⟨⟨[], rfl, rfl⟩, rfl, List.prefix_refl _⟩

theorem trans (hpq : Reaches p q) (hqr : Reaches q r) : Reaches p r := by
  obtain ⟨ts, hpassed, hahead⟩ := hpq.moved
  obtain ⟨us, hpassed', hahead'⟩ := hqr.moved
  refine ⟨⟨ts ++ us, ?_, ?_⟩, hqr.eof.trans hpq.eof, hpq.errors.trans hqr.errors⟩
  · rw [hpassed', hpassed, List.reverse_append, List.append_assoc]
  · rw [hahead, hahead', List.append_assoc]

/-- The tokens stay what they are. -/
theorem tokens (h : Reaches p q) : q.passed.reverse ++ q.ahead = p.passed.reverse ++ p.ahead := by
  obtain ⟨ts, hpassed, hahead⟩ := h.moved
  rw [hpassed, hahead, List.reverse_append, List.reverse_reverse, List.append_assoc]

theorem position_le (h : Reaches p q) : p.position ≤ q.position := by
  obtain ⟨ts, hpassed, -⟩ := h.moved
  rw [position, position, hpassed, List.length_append]
  exact Nat.le_add_left _ _

theorem position_add (h : Reaches p q) :
    q.position + q.ahead.length = p.position + p.ahead.length := by
  simpa [position] using congrArg List.length h.tokens

/-- The place is a later one exactly if fewer tokens are ahead. -/
theorem position_lt_iff (h : Reaches p q) :
    p.position < q.position ↔ q.ahead.length < p.ahead.length := by
  have hadd := h.position_add
  omega

theorem ahead_subset (h : Reaches p q) : q.ahead ⊆ p.ahead := by
  obtain ⟨ts, -, hahead⟩ := h.moved
  rw [hahead]
  exact List.subset_append_right _ _

end Reaches

/-! ## Single tokens -/

theorem reaches_advance (p : Parser) : Reaches p p.advance := by
  obtain ⟨passed, ahead, eof, errors⟩ := p
  cases ahead with
  | nil => exact .refl _
  | cons t ts => exact ⟨⟨[t], rfl, rfl⟩, rfl, List.prefix_refl _⟩

theorem reaches_report (p : Parser) (flaw : Flaw) (span : Span) :
    Reaches p (p.report flaw span) := ⟨⟨[], rfl, rfl⟩, rfl, List.prefix_append _ _⟩

theorem reaches_expect (p : Parser) (k : TokenKind) : Reaches p (p.expect k).2 := by
  rw [expect]
  split
  · exact reaches_advance p
  · exact reaches_report p _ _

theorem exists_skipTagFrom (passed ts : List Token) :
    ∃ cut, (skipTagFrom passed ts).1 = cut.reverse ++ passed ∧
      ts = cut ++ (skipTagFrom passed ts).2 := by
  fun_induction skipTagFrom passed ts with
  | case1 passed => exact ⟨[], rfl, rfl⟩
  | case2 passed t ts hstop => exact ⟨[t], rfl, rfl⟩
  | case3 passed t ts hgo ih =>
    obtain ⟨cut, hpassed, hts⟩ := ih
    refine ⟨t :: cut, ?_, by rw [List.cons_append, ← hts]⟩
    rw [hpassed, List.reverse_cons, List.append_assoc]
    rfl

theorem reaches_skipTag (p : Parser) : Reaches p p.skipTag :=
  ⟨exists_skipTagFrom p.passed p.ahead, rfl, List.prefix_refl _⟩

/-! ## Tags -/

theorem reaches_parseValue (p : Parser) (name : Token) : Reaches p (p.parseValue name).2 := by
  rw [parseValue]
  split
  · dsimp only
    split
    · exact (reaches_advance p).trans (reaches_advance _)
    · exact (reaches_advance p).trans (reaches_report _ _ _)
  · exact .refl p

theorem reaches_parseAttributes (p : Parser) : Reaches p p.parseAttributes.2 := by
  fun_induction parseAttributes p with
  | case1 p => exact .refl p
  | case2 p name rest hahead hname r later ih =>
    exact ((reaches_advance p).trans (reaches_parseValue _ _)).trans ih
  | case3 p name rest hahead hname => exact .refl p

theorem reaches_parseOpeningTag (p : Parser) : Reaches p p.parseOpeningTag.2 := by
  have hexpect := (reaches_advance p).trans (reaches_expect p.advance .tagName)
  rw [parseOpeningTag]
  split
  · next q hq =>
    rw [hq] at hexpect
    exact hexpect.trans (reaches_skipTag q)
  · next name q hq =>
    rw [hq] at hexpect
    have hattributes := hexpect.trans (reaches_parseAttributes q)
    dsimp only
    split
    · exact hattributes.trans (reaches_advance _)
    · split
      · exact hattributes.trans (reaches_advance _)
      · exact hattributes.trans (reaches_report _ _ _)

theorem reaches_passClosingTag (p : Parser) : Reaches p p.passClosingTag := by
  have htwo := (reaches_advance p).trans (reaches_advance p.advance)
  rw [passClosingTag]
  split
  · exact htwo.trans (reaches_advance _)
  · exact htwo

/-! ## Nodes -/

mutual

/-- **A node reaches a later place**, whatever token it starts at. -/
theorem reaches_parseNodeIn (outer : List String) (p : Parser) :
    Reaches p (parseNodeIn outer p).2 := by
  rw [parseNodeIn]
  split
  · exact .refl p
  · split
    · exact reaches_advance p
    · exact reaches_advance p
    · exact reaches_advance p
    · exact reaches_parseElementIn outer p _
    · exact reaches_skipTag p
    · exact reaches_advance p
termination_by (p.ahead.length, 1)

theorem reaches_parseElementIn (outer : List String) (p : Parser) (h : p.ahead ≠ []) :
    Reaches p (parseElementIn outer p h).2 := by
  have hopen := reaches_parseOpeningTag p
  have hlt := length_parseOpeningTag_lt h
  rw [parseElementIn]
  dsimp only
  split
  · exact hopen
  · split
    · exact hopen
    · exact hopen.trans (reaches_parseChildrenIn _ _)
termination_by (p.ahead.length, 0)

theorem reaches_parseChildrenIn (inner : List String) (p : Parser) :
    Reaches p (parseChildrenIn inner p).2 := by
  rw [parseChildrenIn]
  split
  · exact .refl p
  · split
    · split
      · exact reaches_passClosingTag p
      · split
        · exact .refl p
        · exact reaches_parseChildInto inner p
    · exact reaches_parseChildInto inner p
termination_by (p.ahead.length, 3)

theorem reaches_parseChildInto (inner : List String) (p : Parser) :
    Reaches p (parseChildInto inner p).2 := by
  have hnode := reaches_parseNodeIn inner p
  rw [parseChildInto]
  dsimp only
  split
  · exact hnode.trans (reaches_parseChildrenIn _ _)
  · exact hnode
termination_by (p.ahead.length, 2)

end

theorem reaches_parseElement (p : Parser) : Reaches p p.parseElement.2 := by
  rw [parseElement]
  split
  · exact reaches_parseOpeningTag p
  · exact reaches_parseElementIn [] p _

theorem reaches_parseNodes (p : Parser) : Reaches p p.parseNodes.2 := by
  fun_induction parseNodes p with
  | case1 p hend => exact .refl p
  | case2 p hgo child hlt later ih => exact (reaches_parseNodeIn [] p).trans ih
  | case3 p hgo child hlt => exact reaches_parseNodeIn [] p

/-- **A document takes all tokens.** -/
theorem ahead_parseNodes (p : Parser) : p.parseNodes.2.ahead = [] := by
  fun_induction parseNodes p with
  | case1 p hend => simpa [isAtEnd] using hend
  | case2 p hgo child hlt later ih => exact ih
  | case3 p hgo child hlt =>
    have hahead : p.ahead ≠ [] := by simpa [isAtEnd] using hgo
    exact absurd (length_parseNodeIn_lt [] p hahead) hlt

theorem length_parseElement_lt {p : Parser} (h : p.ahead ≠ []) :
    p.parseElement.2.ahead.length < p.ahead.length := by
  rw [parseElement, dif_neg h]
  exact length_parseElementIn_lt [] p h

end Trellis.Template.Parser
