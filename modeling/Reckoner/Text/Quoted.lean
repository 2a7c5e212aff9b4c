import Reckoner.Text.Basic
import Reckoner.Text.Unprintable

/-!
# Quoted texts

The form in which a text appears inside a message: between quotes, on one line, and without
unprintable characters.  Single quotes are used unless the text holds one and holds no double quote.
-/

namespace Reckoner.Text

/-- A number in base sixteen, with at least `width` digits. -/
def hex (width n : Nat) : Text :=
  let digits := Nat.toDigits 16 n
  List.replicate (width - digits.length) '0' ++ digits

/-- The quote that encloses a text. -/
def quoteFor (t : Text) : Char :=
  if '\'' ∈ t ∧ '"' ∉ t then '"' else '\''

/-- A character inside quotes: the quote and the backslash take a backslash, and unprintable
characters are given by number, in as many digits as their size asks for. -/
def escape (quote c : Char) : Text :=
  if c = quote ∨ c = '\\' then ['\\', c]
  else if c = '\t' then ['\\', 't']
  else if c = '\n' then ['\\', 'n']
  else if c = '\r' then ['\\', 'r']
  else if isUnprintable c then
    if c.toNat < 0x100 then '\\' :: 'x' :: hex 2 c.toNat
    else if c.toNat < 0x10000 then '\\' :: 'u' :: hex 4 c.toNat
    else '\\' :: 'U' :: hex 8 c.toNat
  else [c]

/-- A text between quotes. -/
def quoted (t : Text) : Text :=
  let quote := quoteFor t
  quote :: (t.flatMap (escape quote) ++ [quote])

/-- A text between quotes, as a string for messages. -/
def quotedString (t : Text) : String := String.ofList (quoted t)

end Reckoner.Text
