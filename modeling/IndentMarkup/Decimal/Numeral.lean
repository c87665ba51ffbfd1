import IndentMarkup.Text.Digit

/-!
# Numerals

How a text is read as an integer in a given base. Blanks may stand around the number, a sign and the
mark of the base in front of it, and its digits may be those of any script. The information
separators are no blanks here. In a base that is no power of two a number of more than 4300 digits
is refused, whether it is read or written.
-/
namespace IndentMarkup.Numeral

def isPadding (c : Char) : Bool := Text.isBlank c && !(0x1C ≤ c.toNat && c.toNat ≤ 0x1F)

/-- A text without the blanks around it and with its digits in ASCII. -/
def normal (t : Text) : Text :=
  (((t.dropWhile isPadding).reverse.dropWhile isPadding).reverse).map Text.plainDigit

/-- Whether a number is negative, and what stands behind its sign. -/
def splitSign : Text → Bool × Text
  | '-' :: t => (true, t)
  | '+' :: t => (false, t)
  | t => (false, t)

/-- The most digits that a decimal number may have. -/
def digitLimit : Nat := 4300

def baseMark? : Nat → Option Char
  | 2 => some 'b'
  | 8 => some 'o'
  | 16 => some 'x'
  | _ => none

def dropBaseMark (base : Nat) : Text → Text
  | '0' :: c :: rest => if baseMark? base = some c.toLower then rest else '0' :: c :: rest
  | t => t

/-- What a digit or letter counts, if that is below the base. -/
def digitValue? (base : Nat) (c : Char) : Option Nat :=
  let value :=
    if c.isDigit then c.toNat - '0'.toNat
    else if c.isAlpha then c.toLower.toNat - 'a'.toNat + 10
    else base
  if value < base then some value else none

def natOfDigits? (base : Nat) (digits : Text) : Option Nat :=
  if digits.isEmpty then none
  else digits.foldlM (fun n c => (digitValue? base c).map (base * n + ·)) 0

def readInt? (base : Nat) (t : Text) : Option Int :=
  let (negative, body) := splitSign (normal t)
  let digits := dropBaseMark base body
  if baseMark? base = none && digitLimit < digits.length then none
  else (natOfDigits? base digits).map fun n => if negative then -(n : Int) else n

/-- The decimal digits of an integer, unless there are too many. -/
def writeInt? (n : Int) : Option Text :=
  let digits := Text.ofNat n.natAbs
  if digitLimit < digits.length then none
  else some (if n < 0 then '-' :: digits else digits)

@[simp] theorem natOfDigits?_nil (base : Nat) : natOfDigits? base [] = none := rfl

end IndentMarkup.Numeral
