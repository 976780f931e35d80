/-!
# Searching, cutting and replacing

Text is searched as a list of characters. `breakAt?` cuts at the first occurrence of a pattern,
`splitAtEach` at every separator, and `substitute` applies a replacement rule from left to right,
each character being part of one match at most.
-/

namespace Trellis.Text

/-- The text starts with `pat`. -/
def hasStart (s pat : String) : Bool := pat.toList.isPrefixOf s.toList

/-- The text ends with `pat`. -/
def hasEnd (s pat : String) : Bool := pat.toList.isSuffixOf s.toList

/-- The parts before and after the first occurrence of `pat`. -/
def breakAt? (pat : List Char) : List Char → Option (List Char × List Char)
  | [] => if pat.isEmpty then some ([], []) else none
  | c :: cs =>
    if pat.isPrefixOf (c :: cs) then some ([], (c :: cs).drop pat.length)
    else (breakAt? pat cs).map fun (before, after) => (c :: before, after)

/-- The pattern occurs in the text. -/
def occurs (pat s : String) : Bool := (breakAt? pat.toList s.toList).isSome

/-- The pieces between the characters that satisfy `p`; one more than there are such characters. -/
def splitAtEach (p : Char → Bool) : List Char → List (List Char)
  | [] => [[]]
  | c :: cs =>
    if p c then [] :: splitAtEach p cs
    else
      match splitAtEach p cs with
      | [] => [[c]]
      | piece :: pieces => (c :: piece) :: pieces

/-- The pieces of a text between the occurrences of `sep`. -/
def splitOn (sep : Char) (s : String) : List String :=
  (splitAtEach (· == sep) s.toList).map String.ofList

/-- What a substitution rule sees: the character before the current place, if any, and the
characters from there on. It answers with the number of characters to replace, at least one, and
what to put in their place. -/
abbrev Rule := Option Char → List Char → Option (Nat × List Char)

/-- Applies a rule from left to right; matches do not overlap, and what was put in is not looked at
again. `skip` characters of the last match are still to be passed. -/
def substituteFrom (rule : Rule) : Option Char → Nat → List Char → List Char
  | _, _, [] => []
  | _, skip + 1, c :: cs => substituteFrom rule (some c) skip cs
  | prev, 0, c :: cs =>
    match rule prev (c :: cs) with
    | some (n, new) => new ++ substituteFrom rule (some c) (n - 1) cs
    | none => c :: substituteFrom rule (some c) 0 cs

/-- Applies a rule to a whole text. -/
def substitute (rule : Rule) (s : String) : String :=
  String.ofList (substituteFrom rule none 0 s.toList)

/-- The rule that replaces a fixed non-empty pattern. -/
def patternRule (pat new : List Char) : Rule := fun _ cs =>
  if pat.isPrefixOf cs then some (pat.length, new) else none

/-- Every occurrence of the non-empty pattern replaced, from left to right. -/
def replaceAll (s pat new : String) : String := substitute (patternRule pat.toList new.toList) s

/-- The characters without one line feed at their end. -/
def beforeFinalBreak (cs : List Char) : List Char :=
  if cs.getLast? = some '\n' then cs.dropLast else cs

/-- The text without its first `n` characters. -/
def dropFirst (n : Nat) (s : String) : String := String.ofList (s.toList.drop n)

/-- The text without its last `n` characters. -/
def dropLast (n : Nat) (s : String) : String :=
  String.ofList (s.toList.take (s.toList.length - n))

/-- The text between its first and last characters. -/
def inner (s : String) : String := dropFirst 1 (dropLast 1 s)

/-- The elements in first-occurrence order, each once. -/
def distinct {α : Type} [BEq α] (xs : List α) : List α :=
  xs.foldl (fun seen x => if seen.contains x then seen else seen ++ [x]) []

end Trellis.Text
