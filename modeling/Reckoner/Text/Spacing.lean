import Reckoner.Text.Basic

/-!
# Spacing around texts

The characters that count as spacing at the two ends of a line: the white space of all scripts and
the four information separators.  Around a numeral the separators do not count.
-/

namespace Reckoner.Text

/-- The four information separators among the controls. -/
def isSeparator (c : Char) : Bool := 0x1c ≤ c.toNat && c.toNat ≤ 0x1f

/-- The white space of all scripts and the line ends. -/
def isSpacing (c : Char) : Bool :=
  let n := c.toNat
  (0x09 ≤ n && n ≤ 0x0d) || n == 0x20 || n == 0x85 || n == 0xa0 || n == 0x1680 ||
    (0x2000 ≤ n && n ≤ 0x200a) || n == 0x2028 || n == 0x2029 || n == 0x202f || n == 0x205f ||
    n == 0x3000

/-- A text without the characters of a class at its two ends. -/
def strip (p : Char → Bool) (t : Text) : Text :=
  ((t.dropWhile p).reverse.dropWhile p).reverse

/-- A line without the spacing at its two ends. -/
def trimLine (t : Text) : Text := strip (fun c => isSpacing c || isSeparator c) t

/-- The lines of a text, each closed by a line feed, a carriage return or both together.  What
stands behind the last line end is a line unless it is empty. -/
def lines : Text → List Text
  | [] => []
  | '\r' :: '\n' :: cs => [] :: lines cs
  | c :: cs =>
    if c = '\n' ∨ c = '\r' then [] :: lines cs
    else
      match lines cs with
      | [] => [[c]]
      | first :: rest => (c :: first) :: rest

end Reckoner.Text
