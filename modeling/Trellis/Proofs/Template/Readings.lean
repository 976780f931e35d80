import Trellis.Proofs.Template.Sentence

/-!
# How far the lexer gets

The lexer reads while characters are left. A reading may take none of them: it only turns to
another mode then, and what it has seen of the next character makes sure that the reading after it
takes some.

* `After source n ts l`: `n` readings of the source have found the tokens `ts` and lead to `l`.
* `Ready` is what a reading has made sure of when it turns to a mode, and `Moves` says in which
  modes the next reading takes a character. A reading leaves the lexer ready (`Reads.ready`), and
  one that takes nothing leaves it where the next one does (`Reads.moves_of_still`).
* `After.room`: the readings so far, and two for each character that is left, are at most twice as
  many as the source has characters.
* `lexer_progress`: of two readings in a row one moves on, no reading leaves the source, so the
  loop ends; and the modes in which a reading can take nothing.
-/

namespace Trellis.Template.Lexer

open Trellis.Text

/-! ## Readings in a row -/

/-- **The loop of the lexer**: after `n` readings of the source, which found the tokens `ts`, the
lexer is at `l`. Nothing is read once no character is left. -/
inductive After (source : String) : Nat → List Token → Lexer → Prop
  | start : After source 0 [] (start source)
  | read {n : Nat} {ts : List Token} {l : Lexer} (h : After source n ts l) (hrest : l.rest ≠ []) :
      After source (n + 1) (ts ++ l.step.1) l.step.2

/-- The reading at this place takes no character. -/
def Stands (l : Lexer) : Prop := l.step.2.cursor.offset = l.cursor.offset

instance : DecidablePred Stands := fun l =>
  inferInstanceAs (Decidable (l.step.2.cursor.offset = l.cursor.offset))

/-! ## What the next character is -/

/-- What is known of the rest when the lexer turns to a mode. -/
def Ready : Mode → List Char → Prop
  | .tagName, r => ∃ c, r.head? = some c ∧ isLetter c = true
  | .afterAttrName, r => ∃ c, r.head? = some c ∧ isSpace c = true
  | .unquotedValue, r => ¬EndsTag r ∧ ∃ c, r.head? = some c ∧ isSpace c = false
  | _, _ => True

/-- The next reading takes a character. -/
def Moves : Mode → List Char → Prop
  | .beforeAttrName, r => EndsTag r
  | .beforeAttrValue, _ => False
  | .endTagName, _ => False
  | _, _ => True

theorem ready_modeAfterName (r : List Char) : Ready (modeAfterName r) r := by
  unfold modeAfterName
  split
  · next h =>
    cases hr : r.head? with
    | none => simp [hr] at h
    | some c => exact ⟨c, hr, by simpa [hr] using h⟩
  · trivial

variable {m m' : Mode} {cs r : List Char} {ps : List Piece}

/-- **A reading leaves the lexer ready** for the mode that it turns to. -/
theorem Reads.ready (h : Reads m cs ps m' r) : Ready m' r := by
  cases h with
  | tagOpen hc => exact ⟨_, rfl, hc⟩
  | attrName hcut hr => exact ready_modeAfterName r
  | unquoted hsp hc hq hend => exact ⟨hend, _, rfl, hc⟩
  | _ => trivial

theorem cutAttrToken_ne_nil {name : List Char} (hcs : cs ≠ [])
    (h : cutAttrToken cs = (name, r)) : name ≠ [] := by
  rintro rfl
  have hshort := length_cutAttrToken_lt hcs
  rw [h, cutAttrToken_eq h] at hshort
  exact Nat.lt_irrefl _ hshort

/-- An unquoted value has a character, unless the tag ends or a separator follows. -/
theorem cutUnquoted_ne_nil {v : List Char} {c : Char} (hhead : cs.head? = some c)
    (hc : isSpace c = false) (hend : ¬EndsTag cs) (h : cutUnquoted cs = (v, r)) : v ≠ [] := by
  fun_cases cutUnquoted cs with
  | case1 => cases hhead
  | case2 cs => exact absurd ⟨cs, .inr rfl⟩ hend
  | case3 d cs _ hd =>
    obtain rfl : d = c := Option.some.inj hhead
    obtain rfl : d = '>' := by simpa [hc] using hd
    exact absurd ⟨cs, .inl rfl⟩ hend
  | case4 d cs hno hd =>
    rw [cutUnquoted, if_neg hd] at h
    · cases h
      exact List.cons_ne_nil _ _
    · exact hno

/-- **Where the lexer moves, a reading takes a character.** -/
theorem Reads.written_ne_nil (h : Reads m cs ps m' r) (hcs : cs ≠ []) (hready : Ready m cs)
    (hmoves : Moves m cs) : written ps ≠ [] := by
  cases h with
  | text _ _ => exact List.cons_ne_nil _ _
  | interpolation _ => exact List.cons_ne_nil _ _
  | comment _ => exact List.cons_ne_nil _ _
  | endTagOpen => exact List.cons_ne_nil _ _
  | tagOpen _ => exact List.cons_ne_nil _ _
  | tagName hname hr =>
    obtain ⟨c, hhead, hc⟩ := hready
    simpa using name_ne_nil hr hhead hc
  | tagUnclosed hsp => simpa using hcs
  | tagClose hsp => simp
  | tagSelfClose hsp => simp
  | straySlash hsp hr => simp
  | @attrStart sp c r hsp hc hclose hslash =>
    have hstay : ¬EndsTag (sp ++ c :: r) := by
      refine not_endsTag_spaces hsp (not_endsTag_of_head ?_ ?_)
      · simpa using hclose
      · simpa using hslash
    exact absurd hmoves hstay
  | attrNameEquals hcut => simp
  | attrName hcut hr => simpa using cutAttrToken_ne_nil hcs hcut
  | lateEquals hsp => simp
  | @noEquals sp r hsp hstop hr =>
    obtain ⟨c, hhead, hc⟩ := hready
    intro hnil
    obtain rfl : sp = [] := by simpa using hnil
    rw [hstop c hhead] at hc
    cases hc
  | quotedValue hv => simp
  | quotedUnclosed hv => simpa using hcs
  | unquotedValue hcut =>
    obtain ⟨hend, c, hhead, hc⟩ := hready
    simpa using cutUnquoted_ne_nil hhead hc hend hcut
  | _ => exact hmoves.elim

/-- **After a reading that takes nothing the lexer moves.** -/
theorem Reads.moves_of_still (h : Reads m cs ps m' r) (hcs : cs ≠ []) (hready : Ready m cs)
    (hstill : written ps = []) : Moves m' r := by
  have hstay : ¬Moves m cs := fun hmoves => h.written_ne_nil hcs hready hmoves hstill
  cases m with
  | beforeAttrName =>
    cases h with
    | tagUnclosed _ => exact absurd (by simpa using hstill) hcs
    | straySlash _ _ => simp at hstill
    | _ => trivial
  | beforeAttrValue =>
    cases h with
    | valueMissing _ => exact absurd (by simpa using hstill) hcs
    | noValue _ hend => exact hend
    | _ => trivial
  | endTagName => cases h <;> trivial
  | _ => exact absurd trivial hstay

/-- The modes in which a reading can take nothing. -/
theorem Reads.mode_of_still (h : Reads m cs ps m' r) (hcs : cs ≠ []) (hready : Ready m cs)
    (hstill : written ps = []) :
    m = .beforeAttrName ∨ m = .beforeAttrValue ∨ m = .endTagName := by
  have hstay : ¬Moves m cs := fun hmoves => h.written_ne_nil hcs hready hmoves hstill
  cases m with
  | beforeAttrName => exact .inl rfl
  | beforeAttrValue => exact .inr (.inl rfl)
  | endTagName => exact .inr (.inr rfl)
  | _ => exact absurd trivial hstay

/-! ## Along the loop -/

/-- The pieces of the reading at a place, and how far it moves the lexer. -/
theorem exists_pieces {l : Lexer} (hrest : l.rest ≠ []) :
    ∃ ps, Reads l.mode l.rest ps l.step.2.mode l.step.2.rest ∧
      l.step.2.cursor.offset = l.cursor.offset + (written ps).length := by
  obtain ⟨ps, m, r, hread⟩ := exists_reads l.mode hrest
  have hstep : l.step = _ := step_of_reads hread l.cursor
  rw [hstep]
  exact ⟨ps, hread, Cursor.offset_skip _ _⟩

theorem stands_iff_still {l : Lexer} {ps : List Piece}
    (hoffset : l.step.2.cursor.offset = l.cursor.offset + (written ps).length) :
    l.Stands ↔ written ps = [] := by
  rw [Stands, hoffset, Nat.add_eq_left, List.length_eq_zero_iff]

namespace After

variable {source : String} {n : Nat} {ts : List Token} {l : Lexer}

theorem ready (h : After source n ts l) : Ready l.mode l.rest := by
  cases h with
  | start => trivial
  | read h hrest =>
    obtain ⟨ps, hread, -⟩ := exists_pieces hrest
    exact hread.ready

/-- What has been read and what is left make up the source. -/
theorem offset_add (h : After source n ts l) :
    l.cursor.offset + l.rest.length = source.toList.length := by
  induction h with
  | start => exact Nat.zero_add _
  | read h hrest ih =>
    obtain ⟨ps, hread, hoffset⟩ := exists_pieces hrest
    have hlength := congrArg List.length hread.rest_eq
    rw [List.length_append] at hlength
    omega

/-- **Two readings in a row take a character.** -/
theorem advances (h : After source n ts l) (hrest : l.rest ≠ []) (hnext : l.step.2.rest ≠ []) :
    l.cursor.offset < l.step.2.step.2.cursor.offset := by
  obtain ⟨ps, hread, hoffset⟩ := exists_pieces hrest
  obtain ⟨qs, hread', hoffset'⟩ := exists_pieces hnext
  rw [hoffset', hoffset]
  by_cases hstill : written ps = []
  · have hmoves := hread.moves_of_still hrest h.ready hstill
    have hpos := List.length_pos_iff.mpr (hread'.written_ne_nil hnext hread.ready hmoves)
    omega
  · have hpos := List.length_pos_iff.mpr hstill
    omega

/-- The readings so far, and two for each character that is left, are at most two for each
character of the source; there is room for a reading that takes nothing wherever one can follow. -/
theorem room (h : After source n ts l) :
    n + 2 * l.rest.length ≤ 2 * source.toList.length ∧
      (Moves l.mode l.rest ∨ n + 2 * l.rest.length < 2 * source.toList.length) := by
  induction h with
  | start => exact ⟨Nat.le_of_eq (Nat.zero_add _), .inl trivial⟩
  | @read n ts l h hrest ih =>
    obtain ⟨ps, hread, -⟩ := exists_pieces hrest
    have hlength := congrArg List.length hread.rest_eq
    rw [List.length_append] at hlength
    obtain ⟨hle, hroom⟩ := ih
    by_cases hstill : written ps = []
    · have hlt : n + 2 * l.rest.length < 2 * source.toList.length :=
        hroom.resolve_left fun hmoves => hread.written_ne_nil hrest h.ready hmoves hstill
      rw [hstill, List.length_nil] at hlength
      exact ⟨by omega, .inl (hread.moves_of_still hrest h.ready hstill)⟩
    · have hpos := List.length_pos_iff.mpr hstill
      exact ⟨by omega, .inr (by omega)⟩

/-- The loop ends, with what the lexer's run gives. -/
theorem exists_end (h : After source n ts l) :
    ∃ k later place, After source k (ts ++ later) place ∧ place.rest = [] ∧
      l.run = (later, place.cursor) := by
  fun_induction run l generalizing n ts with
  | case1 l hrest => exact ⟨n, [], l, by rwa [List.append_nil], hrest, rfl⟩
  | case2 l hrest later place hrun ih =>
    obtain ⟨k, found, last, hlast, hend, heq⟩ := ih (h.read hrest)
    rw [hrun] at heq
    cases heq
    exact ⟨k, l.step.1 ++ later, last, by rwa [← List.append_assoc], hend, rfl⟩

end After

/-! ## Progress -/

/-- For each of these modes there is a source in which a reading stands still. -/
theorem exists_stands {m : Mode}
    (h : m = .beforeAttrName ∨ m = .beforeAttrValue ∨ m = .endTagName) :
    ∃ source n ts l, After source n ts l ∧ l.rest ≠ [] ∧ l.mode = m ∧ l.Stands := by
  rcases h with rfl | rfl | rfl
  · have hname : After "<a b\"" 4 _ _ :=
      (((After.start.read (by decide)).read (by decide)).read (by decide)).read (by decide)
    exact ⟨_, _, _, _, hname, by decide +kernel, by decide +kernel, by decide +kernel⟩
  · have hvalue : After "<a b=c" 4 _ _ :=
      (((After.start.read (by decide)).read (by decide)).read (by decide)).read (by decide)
    exact ⟨_, _, _, _, hvalue, by decide +kernel, by decide +kernel, by decide +kernel⟩
  · have hend : After "</<" 1 _ _ := After.start.read (by decide)
    exact ⟨_, _, _, _, hend, by decide, by decide, by decide⟩

/-- **The lexer makes progress.** Wherever the loop has come, it is inside the source and reads no
character twice, and of the next two readings one takes a character; so it comes to the end of every
source, after at most two readings for each character, and the tokens are those found on the way.
Only in the three modes of the last clause a reading can take nothing. -/
theorem lexer_progress :
    (∀ source : String,
      (∀ n ts l, After source n ts l →
        l.cursor.offset ≤ source.toList.length ∧ n ≤ 2 * source.toList.length ∧
          (l.rest ≠ [] → l.cursor.offset ≤ l.step.2.cursor.offset) ∧
          (l.rest ≠ [] → l.step.2.rest ≠ [] →
            l.cursor.offset < l.step.2.step.2.cursor.offset)) ∧
      ∃ n ts l, After source n ts l ∧ l.rest = [] ∧ l.cursor.offset = source.toList.length ∧
        tokenize source = ⟨ts, ⟨.eof, "", Span.between l.cursor l.cursor⟩⟩) ∧
    ∀ m : Mode,
      (∃ source n ts l, After source n ts l ∧ l.rest ≠ [] ∧ l.mode = m ∧ l.Stands) ↔
        m = .beforeAttrName ∨ m = .beforeAttrValue ∨ m = .endTagName := by
  refine ⟨fun source => ⟨fun n ts l h => ?_, ?_⟩, fun m => ⟨?_, exists_stands⟩⟩
  · have hoffset := h.offset_add
    have hroom := h.room.1
    refine ⟨by omega, by omega, fun hrest => ?_, h.advances⟩
    obtain ⟨ps, -, hstep⟩ := exists_pieces hrest
    exact hstep ▸ Nat.le_add_right _ _
  · have hstart : After source 0 [] (start source) := .start
    obtain ⟨n, ts, l, hend, hrest, hrun⟩ := hstart.exists_end
    refine ⟨n, ts, l, hend, hrest, ?_, ?_⟩
    · have hoffset := hend.offset_add
      rwa [hrest] at hoffset
    · rw [tokenize, hrun]
  · rintro ⟨source, n, ts, l, h, hrest, rfl, hstands⟩
    obtain ⟨ps, hread, hoffset⟩ := exists_pieces hrest
    exact hread.mode_of_still hrest h.ready ((stands_iff_still hoffset).mp hstands)

end Trellis.Template.Lexer
