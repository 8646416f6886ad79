/-!
Binary floating point with 53 bits, in exact arithmetic.  `round` finds the number nearest to a ratio,
and `shortest` the fewest decimal digits that are nearer to a number than to any other.
-/

namespace ImportLint.Decimal

/-- A finite magnitude `mantissa · 2 ^ exponent`. -/
structure Binary64 where
  mantissa : Nat
  exponent : Int
  deriving DecidableEq, Repr

namespace Binary64

/-- The exponent of the finest numbers. -/
def finest : Int := -1074

/-- The first mantissa that is too large. -/
def mantissaEnd : Nat := Nat.pow 2 53

/-- A ratio with the factor `2 ^ e` moved into its numerator or its denominator. -/
def scaled (num den : Nat) (e : Int) : Nat × Nat :=
  if e ≥ 0 then (num * Nat.pow 2 e.toNat, den) else (num, den * Nat.pow 2 (-e).toNat)

/-- The quotient of a ratio, rounded to the nearest number, a half to the even one. -/
def roundHalfEven (num den : Nat) : Nat :=
  let quotient := num / den
  let twice := 2 * (num % den)
  if twice > den ∨ (twice = den ∧ quotient % 2 = 1) then quotient + 1 else quotient

/-- The number nearest to `num / den`, or `none` beyond the largest one. -/
def round (num den : Nat) : Option Binary64 :=
  if num = 0 then some ⟨0, finest⟩
  else
    let guess : Int := (num.log2 : Int) - (den.log2 : Int) - 53
    let start := max guess finest
    let (n, d) := scaled num den (-start)
    let e := if n / d ≥ mantissaEnd then start + 1 else start
    let (n, d) := scaled num den (-e)
    let m := roundHalfEven n d
    let result : Binary64 :=
      if m = mantissaEnd then ⟨m / 2, e + 1⟩ else ⟨m, e⟩
    if result.exponent > 971 then none else some result

/-- A magnitude as a ratio. -/
def ratio (x : Binary64) : Nat × Nat := scaled x.mantissa 1 x.exponent

/-- Whether the decimal `digits · 10 ^ place` is nearer to a magnitude than to its neighbours; the
middle between two belongs to the one with the even mantissa. -/
def owns (x : Binary64) (digits : Nat) (place : Int) : Bool :=
  let below := if x.mantissa = mantissaEnd / 2 ∧ x.exponent > finest then 1 else 2
  let (num, den) :=
    if place ≥ 0 then (digits * Nat.pow 10 place.toNat, 1)
    else (digits, Nat.pow 10 (-place).toNat)
  let (unit, unitDen) := scaled 1 1 (x.exponent - 2)
  let value := num * unitDen
  let low := (4 * x.mantissa - below) * unit * den
  let high := (4 * x.mantissa + 2) * unit * den
  if x.mantissa % 2 = 0 then low ≤ value && value ≤ high else low < value && value < high

/-- How many decimal digits a number has. -/
def digitCount (n : Nat) : Nat := (Nat.toDigits 10 n).length

/-- The place of the first digit of a ratio: the largest `p` with `10 ^ p ≤ num / den`. -/
def leadingPlace (num den : Nat) : Int :=
  if num ≥ den then (digitCount (num / den) : Int) - 1
  else
    let p := digitCount (den / num)
    if num * Nat.pow 10 (p - 1) ≥ den then 1 - (p : Int) else -(p : Int)

/-- The quotient of a ratio and a power of ten, rounded down, and whether the next number up is
nearer. -/
def gridBelow (num den : Nat) (place : Int) : Nat × Bool :=
  let (n, d) :=
    if place ≥ 0 then (num, den * Nat.pow 10 place.toNat)
    else (num * Nat.pow 10 (-place).toNat, den)
  (n / d, 2 * (n % d) > d)

/-- Tries `count` digits, then one more, as long as fuel is left. -/
def shortestFrom (x : Binary64) (lead : Int) (count : Nat) : Nat → Nat × Int
  | 0 => (x.mantissa, 0)
  | fuel + 1 =>
    let place := lead - (count : Int) + 1
    let (num, den) := x.ratio
    let (low, upIsNearer) := gridBelow num den place
    match x.owns low place, x.owns (low + 1) place with
    | true, true => (if upIsNearer then low + 1 else low, place)
    | true, false => (low, place)
    | false, true => (low + 1, place)
    | false, false => shortestFrom x lead (count + 1) fuel

/-- The fewest digits that read back as a positive magnitude, and the place of the last one. -/
def shortest (x : Binary64) : Nat × Int :=
  let (num, den) := x.ratio
  shortestFrom x (leadingPlace num den) 1 17

end Binary64

end ImportLint.Decimal
