import ImportLint.Decimal.Binary64

/-!
Decimal notation of floating-point numbers.
-/

namespace ImportLint.Decimal

/-- A floating-point number. -/
inductive Floating where
  | finite (negative : Bool) (magnitude : Binary64)
  | infinite (negative : Bool)
  | notANumber
  deriving DecidableEq, Repr

/-- A decimal literal: an integer times a power of ten. -/
structure Literal where
  negative : Bool
  digits : Nat
  place : Int
  deriving DecidableEq, Repr

/-- The number nearest to a literal.  A power of ten beyond all numbers is not computed. -/
def Literal.nearest (literal : Literal) : Floating :=
  if literal.digits = 0 then .finite literal.negative ⟨0, Binary64.finest⟩
  else
    let lead := (Binary64.digitCount literal.digits : Int) + literal.place
    if lead > 400 then .infinite literal.negative
    else if lead < -400 then .finite literal.negative ⟨0, Binary64.finest⟩
    else
      let rounded :=
        if literal.place ≥ 0 then Binary64.round (literal.digits * Nat.pow 10 literal.place.toNat) 1
        else Binary64.round literal.digits (Nat.pow 10 (-literal.place).toNat)
      match rounded with
      | some magnitude => .finite literal.negative magnitude
      | none => .infinite literal.negative

/-- Decisions of a decimal notation: the places of the first digit for which no exponent is
written. -/
structure Notation where
  positional : Int → Bool

/-- The notation without exponents. -/
def Notation.plain : Notation := ⟨fun _ => true⟩

/-- The notation with exponents for very large and very small numbers. -/
def Notation.scientific : Notation := ⟨fun lead => -5 ≤ lead && lead < 16⟩

/-- An exponent with its sign and at least two digits. -/
def exponentText (exponent : Int) : String :=
  let digits := toString exponent.natAbs
  "e" ++ (if exponent < 0 then "-" else "+") ++ (if digits.length < 2 then "0" ++ digits else digits)

/-- Writes the digits of a positive number, the first of them at the place `lead`. -/
def Notation.digits (style : Notation) (digits : List Char) (lead : Int) : String :=
  let whole := lead.toNat + 1
  if !style.positional lead then
    match digits with
    | first :: rest =>
      first.toString ++ (if rest = [] then "" else "." ++ String.ofList rest) ++ exponentText lead
    | [] => ""
  else if lead < 0 then
    "0." ++ String.ofList (List.replicate (-lead - 1).toNat '0' ++ digits)
  else if digits.length ≤ whole then
    String.ofList (digits ++ List.replicate (whole - digits.length) '0') ++ ".0"
  else
    String.ofList (digits.take whole) ++ "." ++ String.ofList (digits.drop whole)

/-- The decimal text of a number: the fewest digits that read back, and always a point or an
exponent. -/
def Notation.text (style : Notation) : Floating → String
  | .finite negative ⟨0, _⟩ => if negative then "-0.0" else "0.0"
  | .finite negative magnitude =>
    let (number, place) := magnitude.shortest
    let written := Nat.toDigits 10 number
    let kept := (written.reverse.dropWhile (· = '0')).reverse
    let lead := (written.length : Int) - 1 + place
    (if negative then "-" else "") ++ style.digits kept lead
  | .infinite negative => if negative then "-inf" else "inf"
  | .notANumber => "NaN"

end ImportLint.Decimal
