import IndentMarkup.Decimal.Numeral

/-!
# Binary floating point

A number of 53 binary digits is a natural mantissa times a power of two, with a sign; beside the
finite numbers stand two infinities and one value that is no number. A fraction is rounded to the
nearest of them, and of two equally near ones to the even. All arithmetic is exact until that
rounding.
-/
namespace IndentMarkup

inductive Binary64 where
  | nan
  | infinite (negative : Bool)
  /-- The number `mantissa * 2 ^ exponent`. -/
  | finite (negative : Bool) (mantissa : Nat) (exponent : Int)
  deriving DecidableEq, Repr

namespace Binary64

def leastExponent : Int := -1074

def greatestExponent : Int := 971

/-- The nearest natural number to a fraction, a half going to the even neighbour. -/
def roundDiv (num den : Nat) : Nat :=
  let q := num / den
  let r := num % den
  if 2 * r < den then q
  else if 2 * r = den then q + q % 2
  else q + 1

def scale (num den : Nat) (e : Int) : Nat × Nat :=
  if 0 ≤ e then (num * Nat.pow 2 e.toNat, den) else (num, den * Nat.pow 2 (-e).toNat)

/-- The greatest power of two that is at most a positive fraction, as an exponent. -/
def floorLog (num den : Nat) : Int :=
  let guess : Int := (Nat.log2 num : Int) - Nat.log2 den
  let (n, d) := scale num den (-guess)
  if d ≤ n then guess else guess - 1

/-- The number nearest to a fraction. -/
def ofRatio (negative : Bool) (num den : Nat) : Binary64 :=
  if num = 0 then .finite negative 0 leastExponent
  else
    let e := max (floorLog num den - 52) leastExponent
    let (n, d) := scale num den (-e)
    let m := roundDiv n d
    let (m, e) := if m = Nat.pow 2 53 then (Nat.pow 2 52, e + 1) else (m, e)
    if greatestExponent < e then .infinite negative else .finite negative m e

/-- The number nearest to `digits * 10 ^ exponent`. Beyond 10^400 and below 10^-400 the answer is
known without the power. -/
def ofDecimal (negative : Bool) (digits : Nat) (exponent : Int) : Binary64 :=
  let magnitude : Int := (Nat.toDigits 10 digits).length + exponent
  if digits = 0 || magnitude < -400 then .finite negative 0 leastExponent
  else if 400 < magnitude then .infinite negative
  else if 0 ≤ exponent then ofRatio negative (digits * Nat.pow 10 exponent.toNat) 1
  else ofRatio negative digits (Nat.pow 10 (-exponent).toNat)

def ofNat (n : Nat) : Binary64 := ofRatio false n 1

def neg : Binary64 → Binary64
  | .nan => .nan
  | .infinite s => .infinite !s
  | .finite s m e => .finite (!s) m e

def isZero : Binary64 → Bool
  | .finite _ 0 _ => true
  | _ => false

def isNegative : Binary64 → Bool
  | .nan => false
  | .infinite s => s
  | .finite s _ _ => s

def mul (x y : Binary64) : Binary64 :=
  let negative := x.isNegative != y.isNegative
  match x, y with
  | .finite _ m e, .finite _ n f =>
    let (num, den) := scale (m * n) 1 (e + f)
    ofRatio negative num den
  | .nan, _ => .nan
  | _, .nan => .nan
  | x, y => if x.isZero || y.isZero then .nan else .infinite negative

/-- The sum of two numbers, rounded. A sum of zero is negative only if both numbers are. -/
def add : Binary64 → Binary64 → Binary64
  | .finite s m e, .finite t n f =>
    let low := min e f
    let part := fun (negative : Bool) (k : Nat) (g : Int) =>
      let shifted : Int := k * Nat.pow 2 (g - low).toNat
      if negative then -shifted else shifted
    let sum := part s m e + part t n f
    let (num, den) := scale sum.natAbs 1 low
    ofRatio (if sum = 0 then s && t else sum < 0) num den
  | .nan, _ => .nan
  | _, .nan => .nan
  | .infinite s, .infinite t => if s = t then .infinite s else .nan
  | .infinite s, .finite _ _ _ => .infinite s
  | .finite _ _ _, .infinite t => .infinite t

def eqInt (x : Binary64) (n : Int) : Bool :=
  match x with
  | .finite s m e =>
    let (num, den) := scale m 1 e
    num == n.natAbs * den && (num == 0 || s == (n < 0))
  | _ => false

/-- Equality of numbers: the zeros are equal, and what is no number equals nothing. -/
def numEq : Binary64 → Binary64 → Bool
  | .finite s m e, .finite t n f => (m == 0 && n == 0) || (s == t && m == n && e == f)
  | .infinite s, .infinite t => s == t
  | _, _ => false

/-! ## Reading decimals -/

def readExponent? (t : Text) : Option Int :=
  match t with
  | [] => some 0
  | c :: rest =>
    if c == 'e' || c == 'E' then
      let (negative, digits) := Numeral.splitSign rest
      (Numeral.natOfDigits? 10 digits).map fun n => if negative then -(n : Int) else n
    else none

/-- A decimal without a sign: digits with at most one point among them, then an exponent. -/
def readUnsigned? (negative : Bool) (t : Text) : Option Binary64 :=
  let whole := t.takeWhile Char.isDigit
  let (fraction, rest) := match t.dropWhile Char.isDigit with
    | '.' :: r => (r.takeWhile Char.isDigit, r.dropWhile Char.isDigit)
    | r => ([], r)
  match Numeral.natOfDigits? 10 (whole ++ fraction), readExponent? rest with
  | some digits, some e => some (ofDecimal negative digits (e - fraction.length))
  | _, _ => none

/-- A text without its underscores, each of which has to stand between two digits. -/
def dropUnderscores? : Text → Option Text
  | [] => some []
  | c :: '_' :: d :: rest =>
    if c.isDigit && d.isDigit then (dropUnderscores? (d :: rest)).map (c :: ·) else none
  | c :: rest => if c == '_' then none else (dropUnderscores? rest).map (c :: ·)

/-- The number that a decimal text, or one of the words for the special values, stands for. -/
def read? (t : Text) : Option Binary64 :=
  (dropUnderscores? (Numeral.normal t)).bind fun plain =>
    let (negative, body) := Numeral.splitSign plain
    let word := body.map Char.toLower
    if word = "inf".toList ∨ word = "infinity".toList then some (.infinite negative)
    else if word = "nan".toList then some .nan
    else readUnsigned? negative body

end Binary64
end IndentMarkup
