import StoryCheck.Text.Decimal
import StoryCheck.Toml.Value
/-!
# Numbers, truth values and dates of TOML

Everything that stands without quotation marks. Digits may have underscores between them. Integers
are written to base ten, or to another base behind a sign of it; they fit 128 bits. Numbers with a
point or exponent are not too large for a double.
-/

namespace StoryCheck.Toml

/-! ## Digits -/

/-- The rest of a run of digits with single underscores between them, without these. -/
def moreDigits? (isDigit : Char → Bool) : List Char → Option (List Char)
  | [] => some []
  | '_' :: c :: rest => if isDigit c then (moreDigits? isDigit rest).map (c :: ·) else none
  | c :: rest => if isDigit c then (moreDigits? isDigit rest).map (c :: ·) else none

/-- A run of digits with single underscores between them, without these. -/
def digits? (isDigit : Char → Bool) : List Char → Option (List Char)
  | [] => none
  | c :: rest => if isDigit c then (moreDigits? isDigit rest).map (c :: ·) else none

/-- A run of decimal digits that starts with zero only if it is zero. -/
def plainDigits? (cs : List Char) : Option (List Char) :=
  (digits? Char.isDigit cs).filter fun digits => digits.length == 1 || digits.head? != some '0'

/-- A sign, if there is one, and what follows it; the sign counts as negative or not. -/
def splitSign : List Char → Bool × List Char
  | '-' :: rest => (true, rest)
  | '+' :: rest => (false, rest)
  | rest => (false, rest)

/-! ## Integers -/

/-- The value of a digit to a base up to sixteen. -/
def digitValue (c : Char) : Nat :=
  if c.isDigit then c.toNat - '0'.toNat
  else if c.isLower then c.toNat - 'a'.toNat + 10
  else c.toNat - 'A'.toNat + 10

/-- The number that digits write to a base. -/
def ofDigits (base : Nat) (digits : List Char) : Nat :=
  digits.foldl (fun n c => n * base + digitValue c) 0

/-- Whether a character is a digit to a base. -/
def isDigitTo (base : Nat) (c : Char) : Bool :=
  (c.isDigit || ('a' ≤ c && c ≤ 'f') || ('A' ≤ c && c ≤ 'F')) && digitValue c < base

/-- The integer that a text writes. -/
def integer? (cs : List Char) : Option Int :=
  let written : Option Int :=
    match cs with
    | '0' :: 'x' :: rest => (digits? (isDigitTo 16) rest).map fun ds => (ofDigits 16 ds : Int)
    | '0' :: 'o' :: rest => (digits? (isDigitTo 8) rest).map fun ds => (ofDigits 8 ds : Int)
    | '0' :: 'b' :: rest => (digits? (isDigitTo 2) rest).map fun ds => (ofDigits 2 ds : Int)
    | cs =>
      let (negative, rest) := splitSign cs
      (plainDigits? rest).map fun ds =>
        let n : Int := ofDigits 10 ds
        if negative then -n else n
  written.filter fun n =>
    if n < 0 then n.natAbs ≤ Nat.pow 2 127 else n.natAbs < Nat.pow 2 128

/-! ## Numbers with a point or exponent -/

/-- The least number that a double cannot hold, being halfway beyond the largest one. -/
def doubleLimit : Nat := Nat.pow 2 1024 - Nat.pow 2 970

/-- Whether `m * 10 ^ e` is below the limit of doubles. The limit has 309 digits, so the exact
comparison is needed only for numbers of about as many. -/
def fitsDouble (m : Nat) (e : Int) : Bool :=
  let size : Int := (Nat.toDigits 10 m).length + e
  if m = 0 || size < 300 then true
  else if 320 < size then false
  else if 0 ≤ e then m * Nat.pow 10 e.toNat < doubleLimit
  else m < doubleLimit * Nat.pow 10 (-e).toNat

/-- The exponent that a text writes, if it is empty or one. -/
def exponent? : List Char → Option Int
  | [] => some 0
  | c :: rest =>
    if c = 'e' ∨ c = 'E' then
      let (negative, rest) := splitSign rest
      (digits? Char.isDigit rest).map fun ds =>
        let n : Int := ofDigits 10 ds
        if negative then -n else n
    else
      none

/-- Whether a character belongs to a run of digits. -/
def isDigitOrUnderscore (c : Char) : Bool := c.isDigit || c == '_'

/-- Whether a text writes a number with a point or an exponent that a double can hold. -/
def isReal (cs : List Char) : Bool :=
  let (_, body) := splitSign cs
  let whole := body.takeWhile isDigitOrUnderscore
  let rest := body.dropWhile isDigitOrUnderscore
  let fraction : Option (List Char) × List Char :=
    match rest with
    | '.' :: rest =>
      (digits? Char.isDigit (rest.takeWhile isDigitOrUnderscore),
        rest.dropWhile isDigitOrUnderscore)
    | rest => (some [], rest)
  !rest.isEmpty
    && match plainDigits? whole, fraction.1, exponent? fraction.2 with
      | some whole, some digits, some e =>
        fitsDouble (Decimal.ofDigits (whole ++ digits)) (e - digits.length)
      | _, _, _ => false

/-- Whether a text writes infinity or the value that is no number. -/
def isSpecialReal (cs : List Char) : Bool :=
  let (_, body) := splitSign cs
  body == ['i', 'n', 'f'] || body == ['n', 'a', 'n']

/-! ## Dates and times -/

/-- The number that two decimal digits write. -/
def twoDigits? (a b : Char) : Option Nat :=
  if a.isDigit && b.isDigit then some (Decimal.ofDigits [a, b]) else none

/-- Whether a year has a 29th of February. -/
def isLeapYear (year : Nat) : Bool := year % 4 == 0 && (year % 100 != 0 || year % 400 == 0)

/-- Number of days of a month; none if there is no such month. -/
def daysIn (year month : Nat) : Nat :=
  match month with
  | 2 => if isLeapYear year then 29 else 28
  | 4 | 6 | 9 | 11 => 30
  | 1 | 3 | 5 | 7 | 8 | 10 | 12 => 31
  | _ => 0

/-- What follows a date. -/
def afterDate? : List Char → Option (List Char)
  | a :: b :: c :: d :: '-' :: m :: m' :: '-' :: t :: t' :: rest => do
    let century ← twoDigits? a b
    let year ← twoDigits? c d
    let month ← twoDigits? m m'
    let day ← twoDigits? t t'
    if 1 ≤ day ∧ day ≤ daysIn (century * 100 + year) month then some rest else none
  | _ => none

/-- What follows the fraction of a second, if there is one. -/
def afterFraction? : List Char → Option (List Char)
  | '.' :: c :: rest => if c.isDigit then some (rest.dropWhile Char.isDigit) else none
  | '.' :: [] => none
  | rest => some rest

/-- What follows the second of a time of day, if there is one. A minute may have a leap second. -/
def afterSecond? : List Char → Option (List Char)
  | ':' :: s :: s' :: rest => do
    let second ← twoDigits? s s'
    if second ≤ 60 then afterFraction? rest else none
  | ':' :: _ => none
  | rest => some rest

/-- What follows a time of day. -/
def afterTime? : List Char → Option (List Char)
  | h :: h' :: ':' :: m :: m' :: rest => do
    let hour ← twoDigits? h h'
    let minute ← twoDigits? m m'
    if hour ≤ 23 ∧ minute ≤ 59 then afterSecond? rest else none
  | _ => none

/-- Whether a text is empty or writes the distance from universal time. -/
def isOffset : List Char → Bool
  | [] => true
  | [c] => c == 'Z' || c == 'z'
  | [sign, h, h', ':', m, m'] =>
    (sign == '+' || sign == '-')
      && match twoDigits? h h', twoDigits? m m' with
        | some hour, some minute => hour ≤ 23 && minute ≤ 59
        | _, _ => false
  | _ => false

/-- Whether a text writes a date, a time of day, or both. -/
def isMoment (cs : List Char) : Bool :=
  match afterDate? cs with
  | some [] => true
  | some (separator :: rest) =>
    (separator == 'T' || separator == 't' || separator == ' ')
      && (afterTime? rest).any isOffset
  | none => afterTime? cs == some []

/-! ## Scalars -/

/-- The value that a text without quotation marks writes. -/
def scalar? (cs : List Char) : Option Value :=
  if cs = ['t', 'r', 'u', 'e'] then some (.boolean true)
  else if cs = ['f', 'a', 'l', 's', 'e'] then some (.boolean false)
  else
    match integer? cs with
    | some n => some (.integer n)
    | none =>
      if isReal cs || isSpecialReal cs then some .real
      else if isMoment cs then some .moment
      else none

/-- A character of a value without quotation marks. -/
def isScalarChar (c : Char) : Bool :=
  c.isAlphanum || c == '_' || c == '+' || c == '-' || c == '.' || c == ':'

/-- A value without quotation marks. A single space may stand between a date and a time. -/
def scalar (cs : List Char) : Option (Value × List Char) := do
  let word := cs.takeWhile isScalarChar
  let rest := cs.dropWhile isScalarChar
  match afterDate? word, rest with
  | some [], ' ' :: c :: more =>
    if c.isDigit then
      let time := (c :: more).takeWhile isScalarChar
      return (← scalar? (word ++ ' ' :: time), (c :: more).dropWhile isScalarChar)
    else
      return (← scalar? word, rest)
  | _, _ => return (← scalar? word, rest)

end StoryCheck.Toml
