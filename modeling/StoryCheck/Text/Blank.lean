/-!
# Blank characters

The characters with the Unicode property `White_Space`, and cutting them off the ends of a text.
-/

namespace StoryCheck

/-- Whether a character is blank: the tab, line and page controls, the spaces of every width, and
the line and paragraph separators. -/
def isBlank (c : Char) : Bool :=
  let n := c.toNat
  (0x9 ≤ n && n ≤ 0xD) || n == 0x20 || n == 0x85 || n == 0xA0 || n == 0x1680
    || (0x2000 ≤ n && n ≤ 0x200A) || n == 0x2028 || n == 0x2029 || n == 0x202F || n == 0x205F
    || n == 0x3000

/-- Drops characters from the end of a text as long as they pass the test. -/
def dropEndWhile (p : Char → Bool) (cs : List Char) : List Char :=
  (cs.reverse.dropWhile p).reverse

/-- Drops the blank characters at the end. -/
def trimEnd (cs : List Char) : List Char := dropEndWhile isBlank cs

/-- Drops the blank characters at both ends. -/
def trim (cs : List Char) : List Char := trimEnd (cs.dropWhile isBlank)

/-- What follows `lead`, if the text starts with it. -/
def afterLead? : (lead text : List Char) → Option (List Char)
  | [], text => some text
  | _ :: _, [] => none
  | a :: lead, b :: text => if a = b then afterLead? lead text else none

theorem length_lt_of_afterLead? {a : Char} {lead text rest : List Char}
    (h : afterLead? (a :: lead) text = some rest) : rest.length < text.length := by
  induction lead generalizing a text with
  | nil =>
    cases text with
    | nil => simp [afterLead?] at h
    | cons b text =>
      simp only [afterLead?] at h
      split at h
      · cases h; simp
      · simp at h
  | cons c lead ih =>
    cases text with
    | nil => simp [afterLead?] at h
    | cons b text =>
      rw [afterLead?] at h
      split at h
      · have := ih h
        simp only [List.length_cons]
        omega
      · simp at h

/-- Drops `lead` from the start of a text as often as it stands there. -/
def dropLeads (a : Char) (lead text : List Char) : List Char :=
  match h : afterLead? (a :: lead) text with
  | some rest =>
    have := length_lt_of_afterLead? h
    dropLeads a lead rest
  | none => text
termination_by text.length

end StoryCheck
