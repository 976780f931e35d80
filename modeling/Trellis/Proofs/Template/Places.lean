import Trellis.Proofs.Template.Lossless
import Trellis.Proofs.Template.Openings

/-!
# Where tokens, nodes and errors stand

The lexer counts lines and columns while it reads, one character at a time, and the parser spans an
element from its first token to the last token it has passed, however the element came to its end.
Both are exact, and the spans of a tree nest as the tree does.

* `Span.Located` says what the numbers of a span mean: line feeds before the start, the distance
  from the last of them, offsets in bounds. Cursors count so (`located_between`), hence every token
  is located, and so is a stretch from one token to the end of another (`Span.Located.upTo`).
* `Node.Stands` is what is asked of a node: it is located, an element starts at its `<`, and its
  attributes and children lie inside of it, the children one after the other.
* `Nest.Holds` is the invariant of the stack machine. The open elements, from the innermost one
  outwards, each hold their children up to the place where the element inside of them starts.
  Passing tokens moves that place on (`Holds.past`), closing an element makes a node that ends
  there (`Holds.close`), and one step keeps the invariant (`Holds.step`), so a run does.
* `parseTemplate_places`: tokens, tree and errors of every source stand where they say.
-/

namespace Trellis.Template

open Trellis.Text Lexer

/-! ## Lines and columns -/

/-- The last line feed before offset `i` is at index `k`, which is -1 if there is none. -/
structure LastBreak (s : List Char) (i : Nat) (k : Int) : Prop where
  feed : k = -1 ∨ ∃ j : Nat, k = j ∧ j < i ∧ s[j]? = some '\n'
  last : ∀ j : Nat, k < j → j < i → s[j]? ≠ some '\n'

/-- **What the numbers of a span say** about the source `s`. -/
structure Span.Located (s : List Char) (p : Span) : Prop where
  /-- Lines count from one, and every line feed before the start begins one. -/
  line : p.line = 1 + (s.take p.start).count '\n'
  /-- The column is the distance from the last line feed. -/
  column : ∃ k, LastBreak s p.start k ∧ (p.column : Int) = p.start - k
  ordered : p.start ≤ p.stop
  bounded : p.stop ≤ s.length

/-- The span lies between two offsets. -/
def Span.Within (p : Span) (lo hi : Nat) : Prop := lo ≤ p.start ∧ p.stop ≤ hi

theorem Cursor.skip_snoc (p : Cursor) (cs : List Char) (c : Char) :
    p.skip (cs ++ [c]) = (p.skip cs).next c :=
  List.foldl_concat _ _ _ _

/-- A cursor's line, after any run of characters. -/
theorem Cursor.line_skip (cs : List Char) : (Cursor.skip {} cs).line = 1 + cs.count '\n' := by
  induction cs using List.reverseRecOn with
  | nil => rfl
  | append_singleton cs c ih =>
    rw [Cursor.skip_snoc, Cursor.next, List.count_append]
    by_cases hc : c = '\n'
    · rw [if_pos hc, hc, ih, List.count_singleton_self, Nat.add_assoc]
    · rw [if_neg hc, List.count_singleton, if_neg (by simpa using hc)]
      exact ih

/-- A cursor's column, after any run of characters and whatever follows them. -/
theorem Cursor.column_skip (cs rest : List Char) :
    ∃ k, LastBreak (cs ++ rest) cs.length k ∧
      ((Cursor.skip {} cs).column : Int) = cs.length - k := by
  induction cs using List.reverseRecOn generalizing rest with
  | nil => exact ⟨-1, ⟨.inl rfl, fun j _ hj => absurd hj (Nat.not_lt_zero j)⟩, rfl⟩
  | append_singleton cs c ih =>
    rw [Cursor.skip_snoc, Cursor.next, List.append_assoc, List.singleton_append, List.length_append,
      List.length_singleton]
    have hhere : (cs ++ c :: rest)[cs.length]? = some c := by simp
    by_cases hc : c = '\n'
    · subst hc
      refine ⟨cs.length, ⟨.inr ⟨_, rfl, Nat.lt_succ_self _, hhere⟩, fun j hlt hle => ?_⟩, ?_⟩
      · omega
      · rw [if_pos rfl]
        push_cast
        omega
    · obtain ⟨k, ⟨hfeed, hlast⟩, hcolumn⟩ := ih (c :: rest)
      refine ⟨k, ⟨?_, fun j hlt hle => ?_⟩, ?_⟩
      · rcases hfeed with rfl | ⟨j, rfl, hj, hget⟩
        · exact .inl rfl
        · exact .inr ⟨j, rfl, Nat.lt_succ_of_lt hj, hget⟩
      · rcases Nat.lt_succ_iff_lt_or_eq.mp hle with hj | rfl
        · exact hlast j hlt hj
        · rw [hhere]
          exact fun h => hc (Option.some.inj h)
      · rw [if_neg hc]
        push_cast
        omega

/-- **Cursors count exactly.** -/
theorem located_between (before cs after : List Char) :
    (Span.between (Cursor.skip {} before) ((Cursor.skip {} before).skip cs)).Located
      (before ++ (cs ++ after)) := by
  have hstart : (Cursor.skip {} before).offset = before.length := by simp
  obtain ⟨k, hbreak, hcolumn⟩ := Cursor.column_skip before (cs ++ after)
  refine ⟨?_, ⟨k, ?_, ?_⟩, ?_, ?_⟩
  · rw [Span.between, hstart, List.take_left, Cursor.line_skip]
  · rw [Span.between, hstart]
    exact hbreak
  · rw [Span.between, hstart]
    exact hcolumn
  · simp [Span.between]
  · simp [Span.between]

/-- A stretch starts where its first part does. -/
theorem Span.Located.upTo {s : List Char} {p q : Span} (hp : p.Located s)
    (hq : q.stop ≤ s.length) : (p.upTo q).Located s where
  line := hp.line
  column := hp.column
  ordered := Nat.le_max_right _ _
  bounded := Nat.max_le.mpr ⟨hq, Nat.le_trans hp.ordered hp.bounded⟩

/-! ## Tokens -/

/-- The token is located, and the mark of an opening tag is a `<`. -/
structure Token.Stands (s : List Char) (t : Token) : Prop where
  located : t.span.Located s
  mark : t.kind = .tagOpen → s[t.span.start]? = some '<'

/-- The mark of an opening tag, as a reading takes it. -/
theorem Lexer.Reads.mark {m m' : Mode} {cs r : List Char} {ps : List Piece}
    (h : Reads m cs ps m' r) {value chars : List Char}
    (hmem : Piece.token .tagOpen value chars ∈ ps) : chars = ['<'] := by
  cases h <;> simp_all [Piece.plain]

/-- The tokens of a scan stand in what it has read. -/
theorem Lexer.Scan.stands {source : List Char} {ps : List Piece} {m : Mode}
    (h : Scan source ps m []) {t : Token} (ht : t ∈ layout {} ps) : t.Stands source := by
  obtain ⟨front, p, after, rfl, hp⟩ := mem_layout ht
  have hsource : source = written front ++ (p.chars ++ written after) := by
    simpa using h.source_eq
  cases p with
  | token kind value chars =>
    obtain rfl := List.mem_singleton.mp hp
    rw [hsource]
    refine ⟨located_between _ _ _, fun hkind => ?_⟩
    obtain rfl : kind = .tagOpen := hkind
    have hmem : Piece.token .tagOpen value chars ∈
        front ++ .token .tagOpen value chars :: after :=
      List.mem_append_right _ List.mem_cons_self
    obtain ⟨_, _, _, _, _, -, hread, hmem⟩ := h.exists_reads hmem
    have hchars : chars = ['<'] := hread.mark hmem
    simp [Span.between, hchars]
  | spaces cs => exact absurd hp List.not_mem_nil
  | slash => exact absurd hp List.not_mem_nil
  | quote q => exact absurd hp List.not_mem_nil

/-- **Every token of a source stands where it says.** -/
theorem stands_tokenize (source : String) :
    ∀ t ∈ (tokenize source).toList, t.Stands source.toList := by
  obtain ⟨ps, m, hscan, heq⟩ := tokenize_scan source
  rw [heq]
  intro t ht
  rcases List.mem_append.mp ht with ht | ht
  · exact hscan.stands ht
  · obtain rfl := List.mem_singleton.mp ht
    have heof := located_between source.toList [] []
    rw [List.append_nil, List.append_nil] at heof
    exact ⟨heof, TokenKind.noConfusion⟩

/-- The tokens stand in the source one after the other, from offset `lo` on. -/
structure Follow (s : List Char) (lo : Nat) (ts : List Token) : Prop where
  stands : ∀ t ∈ ts, t.Stands s
  above : ∀ t ∈ ts, lo ≤ t.span.start
  ordered : ts.Pairwise fun t u => t.span.stop ≤ u.span.start

/-- The offset where the last token ends; `lo` if there is none. -/
def endOf (lo : Nat) (last : Option Token) : Nat := (last.map (·.span.stop)).getD lo

namespace Follow

variable {s : List Char} {lo : Nat} {ts us : List Token}

theorem left (h : Follow s lo (ts ++ us)) : Follow s lo ts :=
  ⟨fun t ht => h.stands t (List.mem_append_left _ ht),
    fun t ht => h.above t (List.mem_append_left _ ht), (List.pairwise_append.mp h.ordered).1⟩

/-- Every token ends before the end of the last one. -/
theorem stop_le (h : Follow s lo ts) : ∀ t ∈ ts, t.span.stop ≤ endOf lo ts.getLast? := by
  rcases List.eq_nil_or_concat ts with rfl | ⟨front, x, rfl⟩
  · exact fun t ht => absurd ht List.not_mem_nil
  · rw [List.concat_eq_append] at h ⊢
    intro t ht
    rw [List.getLast?_concat]
    change t.span.stop ≤ x.span.stop
    have hx := (h.stands x (by simp)).located.ordered
    rcases List.mem_append.mp ht with ht | ht
    · exact Nat.le_trans ((List.pairwise_append.mp h.ordered).2.2 t ht x (by simp)) hx
    · rw [List.mem_singleton.mp ht]

theorem le_endOf (h : Follow s lo ts) : lo ≤ endOf lo ts.getLast? := by
  cases ts with
  | nil => exact Nat.le_refl lo
  | cons t ts =>
    have ht : t ∈ t :: ts := List.mem_cons_self
    exact Nat.le_trans (h.above t ht)
      (Nat.le_trans (h.stands t ht).located.ordered (h.stop_le t ht))

theorem endOf_le (h : Follow s lo ts) (hlo : lo ≤ s.length) :
    endOf lo ts.getLast? ≤ s.length := by
  rcases List.eq_nil_or_concat ts with rfl | ⟨front, x, rfl⟩
  · exact hlo
  · rw [List.concat_eq_append] at h ⊢
    rw [List.getLast?_concat]
    exact (h.stands x (by simp)).located.bounded

/-- What follows some tokens stands after them. -/
theorem right (h : Follow s lo (ts ++ us)) : Follow s (endOf lo ts.getLast?) us := by
  obtain ⟨-, hus, hafter⟩ := List.pairwise_append.mp h.ordered
  refine ⟨fun t ht => h.stands t (List.mem_append_right _ ht), fun u hu => ?_, hus⟩
  cases hlast : ts.getLast? with
  | none => exact h.above u (List.mem_append_right _ hu)
  | some x => exact hafter x (List.mem_of_getLast? hlast) u hu

/-- Tokens stand from their first one on. -/
theorem fromHead {t : Token} (h : Follow s lo (t :: ts)) : Follow s t.span.start (t :: ts) := by
  refine ⟨h.stands, fun u hu => ?_, h.ordered⟩
  rcases List.mem_cons.mp hu with rfl | hu
  · exact Nat.le_refl _
  · exact Nat.le_trans (h.stands t List.mem_cons_self).located.ordered
      ((List.pairwise_cons.mp h.ordered).1 u hu)

/-- Tokens of a stretch stand in it. -/
theorem within (h : Follow s lo ts) {t u : Token} (ht : t ∈ ts) (hu : u ∈ ts) :
    (t.span.upTo u.span).Located s ∧ (t.span.upTo u.span).Within lo (endOf lo ts.getLast?) := by
  have hstands := h.stands t ht
  refine ⟨hstands.located.upTo (h.stands u hu).located.bounded, h.above t ht, ?_⟩
  exact Nat.max_le.mpr ⟨h.stop_le u hu, Nat.le_trans hstands.located.ordered (h.stop_le t ht)⟩

end Follow

/-! ## Nodes -/

/-- The children of a node. -/
def Node.children : Node → List Node
  | .element _ _ _ children _ => children
  | _ => []

/-- The nodes stand between two offsets, one after the other. -/
structure Row (lo hi : Nat) (ns : List Node) : Prop where
  within : ∀ n ∈ ns, n.span.Within lo hi
  ordered : ns.Pairwise fun m n => m.span.stop ≤ n.span.start

/-- **A node at its place**: an element starts at its `<`, and what belongs to a node lies inside
of it. -/
structure Node.Stands (s : List Char) (n : Node) : Prop where
  located : n.span.Located s
  mark : n.tag?.isSome = true → s[n.span.start]? = some '<'
  attributes : ∀ a ∈ n.attributes, a.span.Located s ∧ a.span.Within n.span.start n.span.stop
  children : Row n.span.start n.span.stop n.children

theorem Row.nil (lo hi : Nat) : Row lo hi [] := ⟨fun _ h => absurd h List.not_mem_nil, .nil⟩

theorem Row.singleton {lo hi : Nat} {n : Node} (h : n.span.Within lo hi) : Row lo hi [n] :=
  ⟨fun _ hm => List.mem_singleton.mp hm ▸ h, List.pairwise_singleton _ _⟩

theorem Row.mono {lo hi hi' : Nat} {ns : List Node} (h : Row lo hi ns) (hle : hi ≤ hi') :
    Row lo hi' ns :=
  ⟨fun n hn => ⟨(h.within n hn).1, Nat.le_trans (h.within n hn).2 hle⟩, h.ordered⟩

/-- A row goes on with another one that starts where it ends. -/
theorem Row.append {lo mid hi : Nat} {xs ys : List Node} (hxs : Row lo mid xs)
    (hys : Row mid hi ys) (hlo : lo ≤ mid) (hhi : mid ≤ hi) : Row lo hi (xs ++ ys) := by
  refine ⟨fun n hn => ?_, List.pairwise_append.mpr ⟨hxs.ordered, hys.ordered, fun m hm n hn => ?_⟩⟩
  · rcases List.mem_append.mp hn with hn | hn
    · exact (hxs.mono hhi).within n hn
    · exact ⟨Nat.le_trans hlo (hys.within n hn).1, (hys.within n hn).2⟩
  · exact Nat.le_trans (hxs.within m hm).2 (hys.within n hn).1

@[simp] theorem Attribute.span_ofRaw (raw : String) (value : Option String) (p : Span) :
    (Attribute.ofRaw raw value p).span = p := by
  unfold Attribute.ofRaw
  split
  split <;> rfl

/-- The attributes of a tag lie among its tokens. -/
theorem Follow.attributes {s : List Char} {lo : Nat} {ts : List Token} (h : Follow s lo ts)
    (us : List Token) (hus : ∀ t ∈ us, t ∈ ts) :
    ∀ a ∈ attributesOf us, a.span.Located s ∧ a.span.Within lo (endOf lo ts.getLast?) := by
  fun_induction attributesOf us with
  | case1 => exact fun a ha => absurd ha List.not_mem_nil
  | case2 name us own value ih =>
    intro a ha
    rcases List.mem_cons.mp ha with rfl | ha
    · rw [Attribute.span_ofRaw]
      have hlast : (name :: own).getLastD name ∈ name :: us := by
        rw [List.getLastD_eq_getLast?, List.getLast?_eq_some_getLast (List.cons_ne_nil _ _)]
        exact List.cons_subset_cons _ (List.takeWhile_subset _) (List.getLast_mem _)
      exact h.within (hus name List.mem_cons_self) (hus _ hlast)
    · refine ih (fun t ht => hus t (List.mem_cons_of_mem _ ?_)) a ha
      exact (List.dropWhile_suffix _).subset ht

/-- A leaf stands where its token does. -/
theorem stands_leaf {s : List Char} (kind : LeafKind) {x : Lexeme} (h : x.span.Located s) :
    ∀ n ∈ Node.allOf [kind.node x], n.Stands s := by
  have hall : Node.allOf [kind.node x] = [kind.node x] := by cases kind <;> rfl
  rw [hall]
  intro n hn
  rw [List.mem_singleton.mp hn]
  cases kind <;> exact ⟨h, nofun, nofun, Row.nil _ _⟩

/-! ## The stack machine -/

theorem cutHead_append (p : Token → Bool) (ts : List Token) :
    (cutHead p ts).1 ++ (cutHead p ts).2 = ts := by
  unfold cutHead
  split
  · rfl
  · split <;> rfl

theorem cutStray_append (ts : List Token) : (cutStray ts).1 ++ (cutStray ts).2 = ts := by
  fun_induction cutStray ts with
  | case1 => rfl
  | case2 t ts h => rfl
  | case3 t ts h h' => rfl
  | case4 t ts h h' ih => rw [List.cons_append, ih]

/-- The open element stands in the source, and holds its attributes and children up to `hi`. -/
structure OpenElement.Holds (s : List Char) (hi : Nat) (e : OpenElement) : Prop where
  first : e.first.Stands s
  mark : e.first.kind = .tagOpen
  before : e.first.span.start ≤ hi
  attributes : ∀ a ∈ e.attributes, a.span.Located s ∧ a.span.Within e.first.span.start hi
  children : Row e.first.span.start hi e.children
  inside : ∀ n ∈ Node.allOf e.children, n.Stands s

/-- The open elements hold up to `hi`, the innermost one first; each one further out, and at last
the document, up to the start of the one inside of it. -/
def Stacked (s : List Char) (lo : Nat) (roots : List Node) : List OpenElement → Nat → Prop
  | [], hi => lo ≤ hi ∧ Row lo hi roots ∧ ∀ n ∈ Node.allOf roots, n.Stands s
  | e :: es, hi => e.Holds s hi ∧ Stacked s lo roots es e.first.span.start

theorem OpenElement.Holds.mono {s : List Char} {hi hi' : Nat} {e : OpenElement}
    (h : e.Holds s hi) (hle : hi ≤ hi') : e.Holds s hi' where
  first := h.first
  mark := h.mark
  before := Nat.le_trans h.before hle
  attributes a ha :=
    ⟨(h.attributes a ha).1, (h.attributes a ha).2.1, Nat.le_trans (h.attributes a ha).2.2 hle⟩
  children := h.children.mono hle
  inside := h.inside

theorem Stacked.mono {s : List Char} {lo hi hi' : Nat} {roots : List Node}
    {opened : List OpenElement} (h : Stacked s lo roots opened hi) (hle : hi ≤ hi') :
    Stacked s lo roots opened hi' := by
  cases opened with
  | nil => exact ⟨Nat.le_trans h.1 hle, h.2.1.mono hle, h.2.2⟩
  | cons e es => exact ⟨h.1.mono hle, h.2⟩

/-- An element that is closed ends where the last token does. -/
theorem OpenElement.Holds.element {s : List Char} {e : OpenElement} {last : Token}
    (h : e.Holds s last.span.stop) (hlast : last.span.stop ≤ s.length) (tag : String)
    (selfClosing : Bool) :
    ∀ n ∈ Node.allOf [.element tag selfClosing e.attributes e.children
      (e.first.span.upTo last.span)], n.Stands s := by
  have hstop : (e.first.span.upTo last.span).stop = last.span.stop := Nat.max_eq_left h.before
  rw [Node.allOf, Node.allOf, List.append_nil, Node.all]
  intro n hn
  rcases List.mem_cons.mp hn with rfl | hn
  · refine ⟨h.first.located.upTo hlast, fun _ => h.first.mark h.mark, ?_, ?_⟩
    · rw [Node.span, hstop]
      exact h.attributes
    · rw [Node.span, hstop]
      exact h.children
  · exact h.inside n hn

namespace Nest

/-- The offset where the token passed last ends. -/
def reach (lo : Nat) (n : Nest) : Nat := endOf lo n.last

/-- **The invariant of the stack machine** over the tokens from offset `lo` on. -/
structure Holds (s : List Char) (lo : Nat) (n : Nest) : Prop where
  stack : Stacked s lo n.roots n.opened (n.reach lo)
  bounded : n.reach lo ≤ s.length
  started : n.last = none → n.opened = []

variable {s : List Char} {lo : Nat} {n : Nest}

/-- The invariant once a token has been passed. -/
theorem holds_of_last {last : Token} (hlast : n.last = some last)
    (hstack : Stacked s lo n.roots n.opened last.span.stop) (hbounded : last.span.stop ≤ s.length) :
    n.Holds s lo := by
  have hreach : n.reach lo = last.span.stop := by
    rw [reach, hlast]
    rfl
  refine ⟨?_, ?_, fun hnone => ?_⟩
  · rwa [hreach]
  · rwa [hreach]
  · rw [hlast] at hnone
    cases hnone

theorem reach_past (n : Nest) (ts : List Token) :
    (n.past ts).reach lo = endOf (n.reach lo) ts.getLast? := by
  rw [reach, past]
  cases ts.getLast? <;> rfl

theorem reach_add (n : Nest) (xs : List Node) : (n.add xs).reach lo = n.reach lo := by
  rw [reach, last_add, reach]

theorem reach_begin (n : Nest) (first : Token) (tag : String) (selfClosing : Bool)
    (attributes : List Attribute) : (n.begin first tag selfClosing attributes).reach lo =
      n.reach lo := by
  unfold begin
  split
  · exact reach_add n _
  · rfl

theorem reach_close (n : Nest) : n.close.reach lo = n.reach lo := by
  rw [reach, last_close, reach]

theorem reach_iterate_close (n : Nest) (k : Nat) : (close^[k] n).reach lo = n.reach lo := by
  refine Function.Iterate.rec (fun m : Nest => m.reach lo = n.reach lo) rfl (fun m hm => ?_) k
  rw [reach_close, hm]

/-- Passing tokens moves on. -/
theorem Holds.past (h : n.Holds s lo) {ts us : List Token}
    (hts : Follow s (n.reach lo) (ts ++ us)) :
    (n.past ts).Holds s lo ∧ Follow s ((n.past ts).reach lo) us := by
  rw [reach_past]
  refine ⟨⟨?_, ?_, fun hnone => ?_⟩, hts.right⟩
  · rw [reach_past]
    exact h.stack.mono hts.left.le_endOf
  · rw [reach_past]
    exact hts.left.endOf_le h.bounded
  · refine h.started ?_
    rw [Nest.past] at hnone
    cases hlast : ts.getLast? with
    | none => simpa [hlast] using hnone
    | some t => simp [hlast] at hnone

/-- Nodes are added where what has been placed ends. -/
theorem stacked_add {mid hi : Nat} {xs : List Node} (h : Stacked s lo n.roots n.opened mid)
    (hxs : Row mid hi xs) (hmid : mid ≤ hi) (hstands : ∀ x ∈ Node.allOf xs, x.Stands s) :
    Stacked s lo (n.add xs).roots (n.add xs).opened hi := by
  obtain ⟨roots, opened, last⟩ := n
  cases opened with
  | nil =>
    obtain ⟨hlo, hrow, hinside⟩ := h
    refine ⟨Nat.le_trans hlo hmid, hrow.append hxs hlo hmid, fun x hx => ?_⟩
    change x ∈ Node.allOf (roots ++ xs) at hx
    rw [Node.allOf_append] at hx
    exact (List.mem_append.mp hx).elim (hinside x) (hstands x)
  | cons e es =>
    obtain ⟨he, hes⟩ := h
    have he' := he.mono hmid
    refine ⟨⟨he.first, he.mark, he'.before, he'.attributes,
      he.children.append hxs he.before hmid, fun x hx => ?_⟩, hes⟩
    rw [Node.allOf_append] at hx
    exact (List.mem_append.mp hx).elim (he.inside x) (hstands x)

/-- An element closed where the last token ends. -/
theorem stacked_element {e : OpenElement} {last : Token} (he : e.Holds s last.span.stop)
    (hes : Stacked s lo n.roots n.opened e.first.span.start)
    (hlast : last.span.stop ≤ s.length) (tag : String) (selfClosing : Bool) :
    let m := n.add [.element tag selfClosing e.attributes e.children
      (e.first.span.upTo last.span)]
    Stacked s lo m.roots m.opened last.span.stop :=
  stacked_add hes (Row.singleton ⟨Nat.le_refl _, Nat.max_le.mpr ⟨Nat.le_refl _, he.before⟩⟩)
    he.before (he.element hlast tag selfClosing)

/-- Closing the innermost element. -/
theorem Holds.close (h : n.Holds s lo) : n.close.Holds s lo := by
  obtain ⟨roots, opened, last⟩ := n
  cases opened with
  | nil => exact h
  | cons e es =>
    cases last with
    | none => exact absurd (h.started rfl) (List.cons_ne_nil _ _)
    | some last =>
      exact holds_of_last (last_close _)
        (stacked_element (n := ⟨roots, es, some last⟩) h.stack.1 h.stack.2 h.bounded e.tag false)
        h.bounded

theorem Holds.iterate_close (h : n.Holds s lo) (k : Nat) : (Nest.close^[k] n).Holds s lo := by
  exact Function.Iterate.rec (fun m : Nest => m.Holds s lo) h (fun _ hm => hm.close) k

/-- An opening tag, once its tokens are passed. -/
theorem Holds.begin (h : n.Holds s lo) {first : Token} {ts us : List Token}
    (hts : Follow s (n.reach lo) (first :: ts ++ us)) (hmark : first.kind = .tagOpen)
    {inside : List Token} (hinside : ∀ t ∈ inside, t ∈ ts) (tag : String) (selfClosing : Bool) :
    ((n.past (first :: ts)).begin first tag selfClosing (attributesOf inside)).Holds s lo := by
  have hfollow := hts.left.fromHead
  have hfirst : first ∈ first :: ts := List.mem_cons_self
  obtain ⟨last, hget⟩ : ∃ last, (first :: ts).getLast? = some last :=
    ⟨_, List.getLast?_eq_some_getLast (List.cons_ne_nil _ _)⟩
  have hlast : (n.past (first :: ts)).last = some last := by
    rw [Nest.past, hget, Option.some_or]
  have hend : endOf first.span.start (first :: ts).getLast? = last.span.stop := by
    rw [hget]
    rfl
  have hbounded : last.span.stop ≤ s.length :=
    (hfollow.stands last (List.mem_of_getLast? hget)).located.bounded
  -- Whether the element stays open or not, it holds what was passed.
  have he : (⟨first, tag, attributesOf inside, []⟩ : OpenElement).Holds s last.span.stop := by
    rw [← hend]
    exact ⟨hfollow.stands first hfirst, hmark, hfollow.le_endOf,
      hfollow.attributes inside fun t ht => List.mem_cons_of_mem _ (hinside t ht),
      Row.nil _ _, fun m hm => absurd hm List.not_mem_nil⟩
  have hes : Stacked s lo n.roots n.opened first.span.start :=
    h.stack.mono (hts.above first (List.mem_append_left _ hfirst))
  unfold Nest.begin
  split
  · refine holds_of_last ((last_add _ _).trans hlast) ?_ hbounded
    rw [Nest.spanFrom, hlast]
    exact stacked_element (n := n.past (first :: ts)) he hes hbounded tag selfClosing
  · exact holds_of_last hlast ⟨he, hes⟩ hbounded

/-- An opening tag. -/
theorem Holds.enter (h : n.Holds s lo) {first : Token} {ts : List Token}
    (hts : Follow s (n.reach lo) (first :: ts)) (hmark : first.kind = .tagOpen) :
    (n.enter first ts).1.Holds s lo ∧
      Follow s ((n.enter first ts).1.reach lo) (n.enter first ts).2 := by
  cases ts with
  | nil => exact h.past (List.singleton_append ▸ hts)
  | cons name ts =>
    rw [Nest.enter]
    set inside := ts.takeWhile (·.kind.isAttr)
    set after := ts.dropWhile (·.kind.isAttr)
    have hcut : first :: name :: ts =
        first :: (name :: inside ++ (cutHead Parser.endsTag after).1) ++
          (cutHead Parser.endsTag after).2 := by
      rw [List.cons_append, List.append_assoc, cutHead_append, List.cons_append,
        List.takeWhile_append_dropWhile]
    rw [hcut] at hts
    refine ⟨h.begin hts hmark (fun t ht => ?_) _ _, ?_⟩
    · exact List.mem_append_left _ (List.mem_cons_of_mem _ ht)
    · rw [reach_begin]
      exact (h.past hts).2

/-- A closing tag. -/
theorem Holds.leave (h : n.Holds s lo) {first : Token} {ts : List Token}
    (hts : Follow s (n.reach lo) (first :: ts)) :
    (n.leave first ts).1.Holds s lo ∧
      Follow s ((n.leave first ts).1.reach lo) (n.leave first ts).2 := by
  cases ts with
  | nil => exact h.past (List.singleton_append ▸ hts)
  | cons name ts =>
    rw [Nest.leave]
    split
    · have hcut : first :: name :: ts =
          first :: name :: (cutHead (·.kind == .tagClose) ts).1 ++
            (cutHead (·.kind == .tagClose) ts).2 := by
        rw [List.cons_append, List.cons_append, cutHead_append]
      rw [hcut, ← reach_iterate_close n (n.tags.idxOf name.value)] at hts
      obtain ⟨hholds, hrest⟩ := (h.iterate_close (n.tags.idxOf name.value)).past hts
      refine ⟨hholds.close, ?_⟩
      rw [reach_close]
      exact hrest
    · have hcut : first :: name :: ts =
          first :: (cutStray (name :: ts)).1 ++ (cutStray (name :: ts)).2 := by
        rw [List.cons_append, cutStray_append]
      rw [hcut] at hts
      exact h.past hts

/-- A leaf, once it is passed. -/
theorem Holds.leaf (h : n.Holds s lo) {t : Token} {us : List Token}
    (hts : Follow s (n.reach lo) ([t] ++ us)) (kind : LeafKind) :
    ((n.past [t]).add [kind.node ⟨t.value, t.span⟩]).Holds s lo := by
  have ht := (hts.stands t List.mem_cons_self).located
  have habove := hts.above t List.mem_cons_self
  have hspan : (kind.node ⟨t.value, t.span⟩).span = t.span := by cases kind <;> rfl
  refine holds_of_last (last_add _ _) (stacked_add (n := n.past [t]) h.stack (Row.singleton ?_)
    (Nat.le_trans habove ht.ordered) (stands_leaf kind ht)) ht.bounded
  rw [hspan]
  exact ⟨habove, Nat.le_refl _⟩

/-- **One step keeps the invariant**, and the tokens that it leaves follow. -/
theorem Holds.step (h : n.Holds s lo) {t : Token} {ts : List Token}
    (hts : Follow s (n.reach lo) (t :: ts)) :
    (n.step t ts).1.Holds s lo ∧ Follow s ((n.step t ts).1.reach lo) (n.step t ts).2 := by
  have hpast := h.past (List.singleton_append ▸ hts)
  have leaf : ∀ kind : LeafKind, ((n.past [t]).add [kind.node ⟨t.value, t.span⟩]).Holds s lo ∧
      Follow s (((n.past [t]).add [kind.node ⟨t.value, t.span⟩]).reach lo) ts := by
    intro kind
    rw [reach_add]
    exact ⟨h.leaf hts kind, hpast.2⟩
  unfold Nest.step
  split
  · exact leaf .text
  · exact leaf .interpolation
  · exact leaf .comment
  · exact h.enter hts ‹_›
  · exact h.leave hts
  · exact hpast

/-- **A run keeps the invariant**, by one step and the rest. -/
theorem Holds.read (h : n.Holds s lo) {ts : List Token} (hts : Follow s (n.reach lo) ts) :
    (n.read ts).Holds s lo := by
  fun_induction Nest.read n ts with
  | case1 n => exact h.iterate_close _
  | case2 n t ts ih =>
    obtain ⟨hstep, hrest⟩ := h.step hts
    exact ih hstep hrest

end Nest

/-! ## Errors -/

/-- The tokens of a tag's attributes are among those of the sentence. -/
theorem Sentence.attrTokens_subset {s : Sentence} {attrs : List AttrPhrase}
    (h : attrs ∈ s.tags) : attrTokens attrs ⊆ s.tokens := by
  intro t ht
  rcases List.mem_append.mp h with h | h
  · obtain ⟨p, hp, rfl⟩ := List.mem_map.mp h
    refine List.mem_append_left _ (List.mem_flatMap.mpr ⟨p, hp, ?_⟩)
    cases p with
    | leaf kind x => exact absurd ht List.not_mem_nil
    | opening first name attrs selfClosing close =>
      simp only [Phrase.tokens, openingTokens, List.mem_append, List.mem_cons]
      exact .inl (.inr (.inr ht))
    | closing first name close => exact absurd ht List.not_mem_nil
  · obtain rfl := List.mem_singleton.mp h
    refine List.mem_append_right _ ?_
    cases hending : s.ending with
    | whole =>
      rw [hending] at ht
      exact absurd ht List.not_mem_nil
    | opening first name attrs =>
      rw [hending] at ht
      exact List.mem_cons_of_mem _ (List.mem_cons_of_mem _ ht)
    | closing first =>
      rw [hending] at ht
      exact absurd ht List.not_mem_nil

/-- Every error stands where a token does. -/
theorem Sentence.span_of_mem_faults {s : Sentence} {e : ParseError} (h : e ∈ s.faults) :
    ∃ t ∈ s.tokens, e.span = t.span := by
  rcases List.mem_append.mp h with h | h
  · obtain ⟨attrs, hattrs, he⟩ := List.mem_flatMap.mp h
    obtain ⟨a, ha, he⟩ := List.mem_flatMap.mp he
    cases a with
    | bare name => exact absurd he List.not_mem_nil
    | dangling name equals =>
      refine ⟨name.token .attrName, attrTokens_subset hattrs ?_, ?_⟩
      · exact List.mem_flatMap.mpr ⟨_, ha, List.mem_cons_self⟩
      · rw [List.mem_singleton.mp he]
        rfl
    | valued name equals value => exact absurd he List.not_mem_nil
  · cases hending : s.ending with
    | whole =>
      rw [hending] at h
      exact absurd h List.not_mem_nil
    | opening first name attrs =>
      rw [hending] at h
      refine ⟨name.token .tagName, List.mem_append_right _ ?_, ?_⟩
      · rw [hending]
        exact List.mem_cons_of_mem _ List.mem_cons_self
      · rw [List.mem_singleton.mp h]
        rfl
    | closing first =>
      rw [hending] at h
      exact absurd h List.not_mem_nil

/-! ## Templates -/

/-- **A template at its place** in the source `s`. -/
structure Document.Stands (s : List Char) (d : Document) : Prop where
  located : d.span.Located s
  children : Row d.span.start d.span.stop d.children
  nodes : ∀ n ∈ d.nodes, n.Stands s

/-- The document that the machine assembles stands where it says. -/
theorem stands_assemble {s : List Char} {ts : TokenStream} (hts : ∀ t ∈ ts.toList, t.Stands s)
    (hordered : ts.tokens.Pairwise fun t u => t.span.stop ≤ u.span.start) :
    (assemble ts).Stands s := by
  obtain ⟨tokens, eof⟩ := ts
  have hfirst : tokens.headD eof ∈ tokens ++ [eof] := by
    cases tokens with
    | nil => exact List.mem_cons_self
    | cons t tokens => exact List.mem_cons_self
  have hlocated := (hts _ hfirst).located
  have hfollow : Follow s (tokens.headD eof).span.start tokens := by
    have htokens : Follow s 0 tokens :=
      ⟨fun t ht => hts t (List.mem_append_left _ ht), fun _ _ => Nat.zero_le _, hordered⟩
    cases tokens with
    | nil => exact ⟨nofun, nofun, .nil⟩
    | cons t tokens => exact htokens.fromHead
  have hstart : Nest.Holds s (tokens.headD eof).span.start {} :=
    ⟨⟨Nat.le_refl _, Row.nil _ _, fun n hn => absurd hn List.not_mem_nil⟩,
      Nat.le_trans hlocated.ordered hlocated.bounded, fun _ => rfl⟩
  obtain ⟨hstack, hbounded, -⟩ := hstart.read hfollow
  rw [Nest.opened_read] at hstack
  obtain ⟨-, hrow, hnodes⟩ := hstack
  -- What was passed ends where the document does.
  have hstop : ((Nest.read {} tokens).last.getD (tokens.headD eof)).span.stop ≤ s.length ∧
      (Nest.read {} tokens).reach (tokens.headD eof).span.start ≤
        max ((Nest.read {} tokens).last.getD (tokens.headD eof)).span.stop
          (tokens.headD eof).span.start := by
    rw [Nest.reach] at hbounded ⊢
    cases hlast : (Nest.read {} tokens).last with
    | none => exact ⟨hlocated.bounded, Nat.le_max_right _ _⟩
    | some last =>
      rw [hlast] at hbounded
      exact ⟨hbounded, Nat.le_max_left _ _⟩
  exact ⟨hlocated.upTo hstop.1, hrow.mono hstop.2, hnodes⟩

/-- **Tokens, nodes and errors stand where they say**, for every source. Lines and columns are
exact; the spans of the tree nest as the tree does, and those of siblings follow each other. -/
theorem parseTemplate_places (source : String) :
    (∀ t ∈ (tokenize source).toList, t.span.Located source.toList) ∧
      (parseTemplate source).document.Stands source.toList ∧
      ∀ e ∈ (parseTemplate source).errors, e.span.Located source.toList := by
  have hstands := stands_tokenize source
  obtain ⟨s, htokens, -⟩ := tokenize_sentence source
  refine ⟨fun t ht => (hstands t ht).located, ?_, fun e he => ?_⟩
  · have hdocument : (parseTemplate source).document = assemble (tokenize source) :=
      (parseDocument_sentence htokens rfl).1
    rw [hdocument]
    exact stands_assemble hstands (ordered_tokenize source)
  · have herrors : (parseTemplate source).errors = s.faults :=
      (parseDocument_sentence htokens rfl).2
    rw [herrors] at he
    obtain ⟨t, ht, hspan⟩ := Sentence.span_of_mem_faults he
    rw [hspan]
    refine (hstands t (List.mem_append_left _ ?_)).located
    rwa [htokens]

end Trellis.Template
