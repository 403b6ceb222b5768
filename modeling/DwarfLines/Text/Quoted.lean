import DwarfLines.Text.Columns
import DwarfLines.Text.Visible

/-!
# Quoted text

Text between double quotes, on one line and in visible characters: quotes and backslashes have a
backslash in front, and characters that do not show are written by their numbers.
-/

namespace DwarfLines.Text

/-- A character as it stands between quotes. -/
def quotedChar (c : Char) : List Char :=
  if c = '"' ∨ c = '\\' then ['\\', c]
  else if c = '\n' then ['\\', 'n']
  else if c = '\r' then ['\\', 'r']
  else if c = '\t' then ['\\', 't']
  else if c = '\x00' then ['\\', '0']
  else if isVisible c then [c]
  else ("\\u\x7b" ++ hexDigits c.toNat ++ "\x7d").toList

/-- Text between quotes. -/
def quoted (text : String) : String :=
  "\"" ++ String.ofList (text.toList.flatMap quotedChar) ++ "\""

end DwarfLines.Text
