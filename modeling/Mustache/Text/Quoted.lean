import Mustache.Text.ExtendingMark
import Mustache.Text.Unprintable

/-!
# Quoted names

Messages show a name between double quotes in a form that stays on one line and hides nothing:
the quote, the backslash and the common controls have a letter escape, and every other character
that has no glyph of its own, or would be drawn onto its neighbour, is written by its number.
-/

namespace Mustache.Text

/-- One character of a quoted name. -/
def quotedChar (c : Char) : List Char :=
  if c = '\x00' then ['\\', '0']
  else if c = '\t' then ['\\', 't']
  else if c = '\r' then ['\\', 'r']
  else if c = '\n' then ['\\', 'n']
  else if c = '\\' then ['\\', '\\']
  else if c = '"' then ['\\', '"']
  else if isExtendingMark c || isUnprintable c then
    ['\\', 'u', '\x7b'] ++ Nat.toDigits 16 c.toNat ++ ['\x7d']
  else [c]

/-- The name between double quotes. -/
def quoted (name : String) : String :=
  String.ofList ('"' :: (name.toList.flatMap quotedChar ++ ['"']))

end Mustache.Text
