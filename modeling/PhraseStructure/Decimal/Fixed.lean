/-!
# Decimals with fixed places

A float is written with a fixed number of decimal places. Its exact binary value is rounded, and
what lies halfway between two decimals goes to the one whose last digit is even.
-/

namespace PhraseStructure.Decimal

/-- The integer nearest to `num / den`, the even one of two. -/
def roundDiv (num den : Nat) : Nat :=
  let q := num / den
  let twice := 2 * (num % den)
  if twice < den then q
  else if den < twice then q + 1
  else if q % 2 = 0 then q else q + 1

/-- The parts of a finite float: it is `mantissa * 2 ^ exponent`, or less than zero by that. -/
structure Parts where
  isNegative : Bool
  mantissa : Nat
  exponent : Int
  deriving DecidableEq, Repr

/-- The parts of a float by its bits, if they are those of a finite float. -/
def parts? (bits : UInt64) : Option Parts :=
  let isNegative := bits >>> 63 != 0
  let exponent := (bits >>> 52 &&& 0x7FF).toNat
  let fraction := (bits &&& 0xFFFFFFFFFFFFF).toNat
  if exponent = 0x7FF then none
  else if exponent = 0 then some ⟨isNegative, fraction, -1074⟩
  else some ⟨isNegative, 0x10000000000000 + fraction, (exponent : Int) - 1075⟩

/-- The absolute value of a float, times `10 ^ places`, rounded to an integer. -/
def Parts.scaled (p : Parts) (places : Nat) : Nat :=
  let m := p.mantissa * Nat.pow 10 places
  if 0 ≤ p.exponent then m * Nat.pow 2 p.exponent.toNat
  else roundDiv m (Nat.pow 2 (-p.exponent).toNat)

def padded (width n : Nat) : String :=
  let digits := n.repr
  "".pushn '0' (width - digits.length) ++ digits

/-- A finite float with a fixed number of places, of which there is at least one. A value below zero
keeps its sign even if it is rounded to zero. -/
def Parts.fixed (p : Parts) (places : Nat) : String :=
  let n := p.scaled places
  let unit := Nat.pow 10 places
  (if p.isNegative then "-" else "") ++ (n / unit).repr ++ "." ++ padded places (n % unit)

def fixed (places : Nat) (x : Float) : String :=
  match parts? x.toBits with
  | some p => p.fixed places
  | none => if x.isNaN then "NaN" else if x < 0 then "-inf" else "inf"

end PhraseStructure.Decimal
