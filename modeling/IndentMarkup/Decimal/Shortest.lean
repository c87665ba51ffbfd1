import IndentMarkup.Decimal.Binary64

/-!
# Shortest decimals

The decimal text of a binary number has the fewest digits that read back as the same number and,
among those, lies nearest to it. The reals that read back as a number form an interval around it;
its ends belong to it exactly when the mantissa is even. For one digit, two digits and so on, the
two neighbours of the number on that decimal grid are tried.
-/
namespace IndentMarkup.Decimal

/-- A positive decimal `digits * 10 ^ exponent`. -/
structure Scientific where
  digits : Nat
  exponent : Int
  deriving DecidableEq, Repr

/-- The interval of reals that round to a number, in units of a quarter of its last place. -/
structure Interval where
  low : Nat
  value : Nat
  high : Nat
  closed : Bool

/-- The interval of `m * 2 ^ e`, to be multiplied by `2 ^ (e - 2)`. Below a power of two the numbers
lie twice as close. -/
def interval (m : Nat) (e : Int) : Interval :=
  let gap := if m = Nat.pow 2 52 ∧ Binary64.leastExponent < e then 1 else 2
  ⟨4 * m - gap, 4 * m, 4 * m + 2, m % 2 = 0⟩

def Interval.holds (i : Interval) (num den : Nat) : Bool :=
  if i.closed then i.low * den ≤ num && num ≤ i.high * den
  else i.low * den < num && num < i.high * den

/-- A number of grid units as a fraction of the interval's units: `n * 10 ^ k / 2 ^ e`. -/
def gridPoint (n : Nat) (k e : Int) : Nat × Nat :=
  let num := n * Nat.pow 10 k.toNat * Nat.pow 2 (-e).toNat
  let den := Nat.pow 10 (-k).toNat * Nat.pow 2 e.toNat
  (num, den)

/-- The neighbour of the number on the grid `10 ^ k` that reads back, the nearer one if both do. -/
def onGrid? (i : Interval) (k e : Int) : Option Nat :=
  let (unit, den) := gridPoint 1 k e
  let below := i.value * den / unit
  let above := below + 1
  let fits := fun n => i.holds (n * unit) den
  match fits below, fits above with
  | true, false => some below
  | false, true => some above
  | false, false => none
  | true, true =>
    let fromBelow := i.value * den - below * unit
    let fromAbove := above * unit - i.value * den
    if fromBelow < fromAbove then some below
    else if fromAbove < fromBelow then some above
    else some (below + below % 2)

/-- Try grids from coarse to fine. -/
def search (i : Interval) (e : Int) : Nat → Int → Scientific
  | 0, k => ⟨(onGrid? i k e).getD 0, k⟩
  | tries + 1, k =>
    match onGrid? i k e with
    | some n => if n = 0 then search i e tries (k - 1) else ⟨n, k⟩
    | none => search i e tries (k - 1)

def Scientific.reduce (s : Scientific) : Scientific :=
  let rec go : Nat → Nat → Int → Scientific
    | 0, n, k => ⟨n, k⟩
    | fuel + 1, n, k => if n % 10 = 0 ∧ n ≠ 0 then go fuel (n / 10) (k + 1) else ⟨n, k⟩
  go (Nat.toDigits 10 s.digits).length s.digits s.exponent

/-- The shortest decimal that reads back as `m * 2 ^ e`, where `m` is positive. -/
def shortest (m : Nat) (e : Int) : Scientific :=
  let log2 : Int := Nat.log2 m + e
  -- 10 ^ top is above the number: one decimal digit is worth more than three binary ones.
  let top : Int := if 0 ≤ log2 then log2 / 3 + 1 else log2 / 4 + 1
  (search (interval m e) (e - 2) 340 top).reduce

/-! ## Layout -/

structure Layout where
  /-- The point may stand this many places left of the first digit. -/
  leastPoint : Int
  /-- The point may stand this many places right of the first digit's left side. -/
  greatestPoint : Int
  /-- Digits that an exponent has at least. -/
  exponentDigits : Nat

def Scientific.point (s : Scientific) : Int := (Text.ofNat s.digits).length + s.exponent

/-- Digits with a point among or beside them; at least one digit stands on each side of it. -/
def positional (digits : Text) (point : Int) : Text :=
  if point ≤ 0 then ['0', '.'] ++ List.replicate (-point).toNat '0' ++ digits
  else
    let whole := digits.take point.toNat
    let padding := List.replicate (point.toNat - digits.length) '0'
    let fraction := digits.drop point.toNat
    whole ++ padding ++ '.' :: (if fraction.isEmpty then ['0'] else fraction)

/-- A digit, further digits after a point, and the power of ten with its sign. -/
def exponential (exponentDigits : Nat) (digits : Text) (point : Int) : Text :=
  let power := point - 1
  let powerDigits := Text.ofNat power.natAbs
  digits.take 1 ++ (if digits.length ≤ 1 then [] else '.' :: digits.drop 1) ++
    ['e', if power < 0 then '-' else '+'] ++
    List.replicate (exponentDigits - powerDigits.length) '0' ++ powerDigits

def Scientific.format (layout : Layout) (s : Scientific) : Text :=
  let digits := Text.ofNat s.digits
  if layout.leastPoint ≤ s.point ∧ s.point ≤ layout.greatestPoint then positional digits s.point
  else exponential layout.exponentDigits digits s.point

end IndentMarkup.Decimal
