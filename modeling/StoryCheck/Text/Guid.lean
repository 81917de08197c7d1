import StoryCheck.Text.Position
/-!
# Identifiers of instances

An instance is named by 32 hexadecimal digits in groups of 8, 4, 4, 4 and 12, parted by hyphens.
In a source it may stand behind a name and an underscore, as in `Sword_` followed by the digits.
-/

namespace StoryCheck.Guid

/-- Length of the written form. -/
def length : Nat := 36

/-- A hexadecimal digit of either case. -/
def isHexDigit (c : Char) : Bool :=
  c.isDigit || ('a' ≤ c && c ≤ 'f') || ('A' ≤ c && c ≤ 'F')

/-- A letter, a digit or an underscore, of which names are made. -/
def isWordChar (c : Char) : Bool := c.isAlphanum || c == '_'

/-- What follows `n` hexadecimal digits. -/
def afterDigits : (n : Nat) → List Char → Option (List Char)
  | 0, cs => some cs
  | _ + 1, [] => none
  | n + 1, c :: cs => if isHexDigit c then afterDigits n cs else none

/-- What follows one hyphen. -/
def afterHyphen : List Char → Option (List Char)
  | '-' :: cs => some cs
  | _ => none

/-- What follows the written form at the start of a text. -/
def rest? (cs : List Char) : Option (List Char) := do
  let cs ← afterHyphen (← afterDigits 8 cs)
  let cs ← afterHyphen (← afterDigits 4 cs)
  let cs ← afterHyphen (← afterDigits 4 cs)
  let cs ← afterHyphen (← afterDigits 4 cs)
  afterDigits 12 cs

/-- Whether a text starts with the written form and the form does not run on: no letter, digit,
underscore or hyphen follows. -/
def startsText (cs : List Char) : Bool :=
  match rest? cs with
  | some (c :: _) => !(isWordChar c || c == '-')
  | some [] => true
  | none => false

/-- The name and the digits of a text that is the written form, alone or behind a name and an
underscore. -/
def split? (cs : List Char) : Option (List Char × List Char) :=
  let head := cs.take (cs.length - length)
  let digits := cs.drop (cs.length - length)
  if rest? digits = some [] then
    if head.isEmpty then some ([], digits)
    else if head.all isWordChar && head.getLast? == some '_' then some (head.dropLast, digits)
    else none
  else
    none

/-- Whether a text is the written form, alone or behind a name and an underscore. -/
def isGuidString (cs : List Char) : Bool := (split? cs).isSome

end StoryCheck.Guid
