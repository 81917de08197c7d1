/-!
# Reading decimal numbers

Integers must fit 64 bits with sign. A number with a point becomes the nearest IEEE double, given
by its 64 bits, ties going to the even neighbour; the reading is exact arithmetic on naturals, so
no step rounds twice.
-/

namespace StoryCheck.Decimal

/-- The natural number that decimal digits write. -/
def ofDigits (digits : List Char) : Nat :=
  digits.foldl (fun n d => n * 10 + (d.toNat - '0'.toNat)) 0

/-- Whether a number fits 64 bits with sign. -/
def fitsInt64 (n : Int) : Bool := -9223372036854775808 ≤ n && n < 9223372036854775808

/-- The integer that digits behind an optional hyphen write, if it fits 64 bits with sign. -/
def int64? (text : List Char) : Option Int :=
  let n : Int :=
    match text with
    | '-' :: digits => -(ofDigits digits : Int)
    | digits => ofDigits digits
  if fitsInt64 n then some n else none

/-- `num / den` rounded to the nearest natural, a half going to the even neighbour. -/
def roundDiv (num den : Nat) : Nat :=
  let q := num / den
  let r := num % den
  if 2 * r < den then q
  else if den < 2 * r then q + 1
  else if q % 2 = 0 then q
  else q + 1

/-- `num / den` in units of `2 ^ e`, rounded. -/
def scaled (num den : Nat) (e : Int) : Nat :=
  if 0 ≤ e then roundDiv num (den * Nat.pow 2 e.toNat)
  else roundDiv (num * Nat.pow 2 (-e).toNat) den

/-- Exponent of the last place of a double close to `num / den`: the place at which 53 binary
digits are kept, and at least that of the smallest double. -/
def lastPlace (num den : Nat) : Int :=
  let guess : Int := (num.log2 : Int) - den.log2 - 52
  -- the quotient of the leading digits may fall one place short
  let short : Bool :=
    if 0 ≤ guess then num < den * Nat.pow 2 (guess.toNat + 52)
    else num * Nat.pow 2 (-guess).toNat < den * Nat.pow 2 52
  max (-1074) (if short then guess - 1 else guess)

/-- Bits of positive infinity. -/
def infinityBits : Nat := 0x7FF * Nat.pow 2 52

/-- Bits of the double nearest to `num / den`. Counting the places above the smallest one in units
of `2 ^ 52` and adding the digits lets a carry out of the digits raise the exponent by itself. -/
def bitsOfRatio (num den : Nat) : Nat :=
  if num = 0 then 0
  else
    let e := lastPlace num den
    min infinityBits ((e + 1074).toNat * Nat.pow 2 52 + scaled num den e)

/-- Bits of the double nearest to the number that is written as an optional hyphen, digits, a
point, and digits or nothing. -/
def doubleBits (text : List Char) : UInt64 :=
  let (sign, body) :=
    match text with
    | '-' :: body => (Nat.pow 2 63, body)
    | body => (0, body)
  let whole := body.takeWhile (· != '.')
  let fraction := (body.dropWhile (· != '.')).drop 1
  UInt64.ofNat (sign + bitsOfRatio (ofDigits (whole ++ fraction)) (Nat.pow 10 fraction.length))

end StoryCheck.Decimal
