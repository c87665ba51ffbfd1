import IndentMarkup.Text.Code
import IndentMarkup.Text.Printable

/-!
# Quoted text

Text shown inside a message stands in single quotes, or in double quotes when it holds a single
quote and no double one. The backslash, the quote in use and everything that is not printable, halves
of surrogate pairs included, are escaped: tab, line feed and carriage return by a letter, the rest by
the shortest of the forms `\xNN`, `\uNNNN` and `\UNNNNNNNN`.
-/
namespace IndentMarkup.Text

/-- A number in lower-case hexadecimal with at least the given number of digits. -/
def hexDigits (width n : Nat) : Text :=
  let digits := Nat.toDigits 16 n
  List.replicate (width - digits.length) '0' ++ digits

def quoteMark (t : Codes) : Char :=
  if t.contains (.char '\'') && !t.contains (.char '"') then '"' else '\''

def escapeChar (quote c : Char) : Text :=
  if c == quote || c == '\\' then ['\\', c]
  else if c == '\t' then ['\\', 't']
  else if c == '\n' then ['\\', 'n']
  else if c == '\r' then ['\\', 'r']
  else if isPrintable c then [c]
  else if c.toNat < 0x100 then '\\' :: 'x' :: hexDigits 2 c.toNat
  else if c.toNat < 0x10000 then '\\' :: 'u' :: hexDigits 4 c.toNat
  else '\\' :: 'U' :: hexDigits 8 c.toNat

def escapeCode (quote : Char) : Code → Text
  | .char c => escapeChar quote c
  | .half n => '\\' :: 'u' :: hexDigits 4 (Code.half n).toNat

def quoted (t : Codes) : Text :=
  let quote := quoteMark t
  quote :: t.flatMap (escapeCode quote) ++ [quote]

@[simp] theorem quoted_nil : quoted [] = ['\'', '\''] := rfl

end IndentMarkup.Text
