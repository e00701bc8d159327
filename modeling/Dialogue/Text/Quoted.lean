/-
Texts in quotation marks.

A quoted text stands between two quotation marks, on one line, and reads without doubt: the mark
itself and the backslash are escaped, the common controls have a letter, and everything that would
not be seen is written by its code.
-/
import Dialogue.Text.Unprintable

namespace Dialogue.Text

/-- A character by its code, in as few digits as it needs. -/
def coded (c : Char) : List Char :=
  ['\\', 'u', '\x7b'] ++ Nat.toDigits 16 c.toNat ++ ['\x7d']

/-- A character inside quotation marks. -/
def quotedChar (c : Char) : List Char :=
  if c = '\x00' then ['\\', '0']
  else if c = '\t' then ['\\', 't']
  else if c = '\r' then ['\\', 'r']
  else if c = '\n' then ['\\', 'n']
  else if c = '"' then ['\\', '"']
  else if c = '\\' then ['\\', '\\']
  else if c.toNat < 0x20 || isUnprintable c then coded c
  else [c]

/-- A text in quotation marks. -/
def quoted (s : String) : String :=
  String.ofList (['"'] ++ s.toList.flatMap quotedChar ++ ['"'])

end Dialogue.Text
