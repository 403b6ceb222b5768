/-!
# Numbers and columns

Hexadecimal numerals as messages and listings print them, and padding to a column.
-/

namespace DwarfLines.Text

/-- The lower-case hexadecimal digits of `n`, without leading zeros. -/
def hexDigits (n : Nat) : String := String.ofList (Nat.toDigits 16 n)

/-- A hexadecimal numeral such as `0x1f`. -/
def hex (n : Nat) : String := "0x" ++ hexDigits n

/-- Pads `text` on the left with copies of `fill` to at least `width` characters. -/
def padLeft (fill : Char) (width : Nat) (text : String) : String :=
  String.ofList (List.replicate (width - text.length) fill) ++ text

/-- Pads `text` on the right with blanks to at least `width` characters. -/
def padRight (width : Nat) (text : String) : String :=
  text ++ String.ofList (List.replicate (width - text.length) ' ')

/-- A hexadecimal numeral of at least eight digits, such as `0x0000001f`. -/
def hexWord (n : Nat) : String := "0x" ++ padLeft '0' 8 (hexDigits n)

/-- A column aligned to the right. -/
def right (width : Nat) (text : String) : String := padLeft ' ' width text

end DwarfLines.Text
