import Trellis.Style.Value

/-!
# Functions of style sheets

The functions that a style sheet computes itself: colours by channels, lighter and darker colours,
mixtures and percentages. Any other function is left to the reader of the compiled sheet.

* `Shade.ofColour` and `Shade.toColour` go between channels and hue, saturation and lightness.
-/

namespace Trellis.Style

/-- A whole number as a fraction. -/
def whole (n : Int) : Rat := mkRat n 1

/-! ## Lightness -/

/-- A colour by hue (in turns), saturation and lightness (from 0 to 1). -/
structure Shade where
  hue : Rat
  saturation : Rat
  lightness : Rat

/-- The greater of two fractions. -/
def greater (x y : Rat) : Rat := if x.blt y then y else x

/-- The lesser of two fractions. -/
def lesser (x y : Rat) : Rat := if x.blt y then x else y

/-- The shade of a colour. -/
def Shade.ofColour (c : Colour) : Shade :=
  let r := mkRat c.red 255
  let g := mkRat c.green 255
  let b := mkRat c.blue 255
  let high := greater r (greater g b)
  let low := lesser r (lesser g b)
  let spread := Rat.sub high low
  let sum := Rat.add high low
  let lightness := Rat.div sum (whole 2)
  if spread.num == 0 then ⟨whole 0, whole 0, lightness⟩
  else
    let saturation :=
      Rat.div spread (if lightness.blt (mkRat 1 2) then sum else Rat.sub (whole 2) sum)
    let sixths :=
      if high == r then
        Rat.add (Rat.div (Rat.sub g b) spread) (whole (if g.blt b then 6 else 0))
      else if high == g then Rat.add (Rat.div (Rat.sub b r) spread) (whole 2)
      else Rat.add (Rat.div (Rat.sub r g) spread) (whole 4)
    ⟨Rat.div sixths (whole 6), saturation, lightness⟩

/-- The part of a channel that is `turn` away from the hue, between the bounds `low` and `high`. -/
def Shade.channel (low high turn : Rat) : Rat :=
  let turn := Rat.sub turn (Rat.ofInt turn.floor)
  let rise := Rat.mul (Rat.sub high low) (whole 6)
  if (Rat.mul turn (whole 6)).blt (whole 1) then Rat.add low (Rat.mul rise turn)
  else if (Rat.mul turn (whole 2)).blt (whole 1) then high
  else if (Rat.mul turn (whole 3)).blt (whole 2) then
    Rat.add low (Rat.mul rise (Rat.sub (mkRat 2 3) turn))
  else low

/-- The colour of a shade. -/
def Shade.toColour (s : Shade) (alpha : Rat) : Colour :=
  let high :=
    if (mkRat 1 2).blt s.lightness then
      Rat.sub (Rat.add s.lightness s.saturation) (Rat.mul s.lightness s.saturation)
    else Rat.mul s.lightness (Rat.add s.saturation (whole 1))
  let low := Rat.sub (Rat.mul s.lightness (whole 2)) high
  let channel (turn : Rat) : Rat := Rat.mul (whole 255) (Shade.channel low high turn)
  Colour.ofChannels (channel (Rat.add s.hue (mkRat 1 3))) (channel s.hue)
    (channel (Rat.sub s.hue (mkRat 1 3))) alpha

/-- A colour with its lightness changed by a number of hundredths. -/
def lighten (c : Colour) (percent : Rat) : Colour :=
  let s := Shade.ofColour c
  Shade.toColour
    { s with lightness := Colour.share (Rat.add s.lightness (Rat.div percent (whole 100))) } c.alpha

/-! ## Mixtures -/

/-- Two colours mixed; the first one has the share `weight`. -/
def mix (c d : Colour) (weight : Rat) : Colour :=
  let tilt := Rat.sub (Rat.mul (whole 2) weight) (whole 1)
  let gap := Rat.sub c.alpha d.alpha
  let product := Rat.mul tilt gap
  let balance :=
    if product == whole (-1) then tilt
    else Rat.div (Rat.add tilt gap) (Rat.add (whole 1) product)
  let first := Rat.div (Rat.add balance (whole 1)) (whole 2)
  let blend (share x y : Rat) : Rat :=
    Rat.add (Rat.mul share x) (Rat.mul (Rat.sub (whole 1) share) y)
  Colour.ofChannels (blend first (whole c.red) (whole d.red))
    (blend first (whole c.green) (whole d.green)) (blend first (whole c.blue) (whole d.blue))
    (blend weight c.alpha d.alpha)

/-! ## Calls -/

/-- A number as a share of `all`, if it is a percentage, and as it is otherwise. -/
def shareOf (all : Rat) (q : Quantity) : Rat :=
  if q.units == ["%"] then Rat.div (Rat.mul q.value all) (whole 100) else q.value

/-- The value of a call that is computed. -/
def computed? (name : String) (args : List Value) : Option Value :=
  let channel := shareOf (whole 255)
  let colour (c : Colour) : Option Value := some (.colour { c with computed := true })
  match name, args with
  | "rgb", [.number r, .number g, .number b] =>
    colour (Colour.ofChannels (channel r) (channel g) (channel b) (whole 1))
  | "rgba", [.number r, .number g, .number b, .number a] =>
    colour (Colour.ofChannels (channel r) (channel g) (channel b) (shareOf (whole 1) a))
  | "rgba", [.colour c, .number a] =>
    colour { c with alpha := Colour.share (shareOf (whole 1) a), written := none }
  | "lighten", [.colour c, .number q] => colour (lighten c q.value)
  | "darken", [.colour c, .number q] => colour (lighten c (Rat.neg q.value))
  | "mix", [.colour c, .colour d] => colour (mix c d (mkRat 1 2))
  | "mix", [.colour c, .colour d, .number q] => colour (mix c d (Rat.div q.value (whole 100)))
  | "percentage", [.number q] =>
    some (.number { value := Rat.mul q.value (whole 100), units := ["%"] })
  | _, _ => none

/-- The value of a call. A function that is not known here is written with its arguments. -/
def call? (name : String) (args : List Value) : Option Value :=
  match (args.mapM Value.settle?).bind (computed? name) with
  | some v => some v
  | none => do
    let texts ← args.mapM Value.text?
    pure (.word (name ++ "(" ++ ", ".intercalate texts ++ ")"))

end Trellis.Style
