import IndentMarkup.Value
import IndentMarkup.Yaml.Token

/-!
# Scalar types

Which type a plain scalar has, and which value a scalar of a type stands for. Integers are decimal,
octal with a leading zero, hexadecimal, binary or of base sixty; floating-point numbers need a
point, and an exponent in them a sign; underscores may stand between digits anywhere. A date may be
followed by a time and a zone.

A form decides the type only. What a scalar of a stated type may look like is decided when it is
read, and that is more: blanks around a number, digits of any script, a second sign.
-/
namespace IndentMarkup.Yaml

inductive Tag where
  | null | bool | int | float | timestamp | text | binary | merge | defaultValue
  | sequence | mapping | set | orderedMap | pairs
  /-- A tag that nothing is known about. -/
  | unknown
  deriving DecidableEq, Repr

/-- The beginning of the tags of the standard types. -/
def standardTag : Text := "tag:yaml.org,2002:"

def Tag.ofName (name : Text) : Tag :=
  let names : List (Text × Tag) :=
    [("null".toList, .null), ("bool".toList, .bool), ("int".toList, .int), ("float".toList, .float),
     ("timestamp".toList, .timestamp), ("str".toList, .text), ("binary".toList, .binary),
     ("merge".toList, .merge), ("value".toList, .defaultValue), ("seq".toList, .sequence),
     ("map".toList, .mapping), ("set".toList, .set), ("omap".toList, .orderedMap),
     ("pairs".toList, .pairs)]
  ((names.find? fun n => n.1 == name).map (·.2)).getD .unknown

def Tag.ofUri (uri : Text) : Tag :=
  if standardTag.isPrefixOf uri then Tag.ofName (uri.drop standardTag.length) else .unknown

/-! ## Forms of plain scalars -/

def isDigitOrUnderscore (c : Char) : Bool := c.isDigit || c == '_'

def dropSign : Text → Text
  | '-' :: t => t
  | '+' :: t => t
  | t => t

def isRun (test : Char → Bool) (t : Text) : Bool := !t.isEmpty && t.all test

/-- A digit of base sixty: one or two decimal digits, below sixty. -/
def isSixtyDigit : Text → Bool
  | [d] => d.isDigit
  | [t, d] => '0' ≤ t && t ≤ '5' && d.isDigit
  | _ => false

/-- Digits and underscores behind a first digit from a range. -/
def isNumeral (least : Char) : Text → Bool
  | [] => false
  | d :: rest => least ≤ d && d ≤ '9' && rest.all isDigitOrUnderscore

/-- A numeral and at least one digit of base sixty, with colons between them. -/
def isSixtyNumeral (least : Char) (t : Text) : Bool :=
  match Text.pieces ':' t with
  | first :: second :: rest => isNumeral least first && (second :: rest).all isSixtyDigit
  | _ => false

def isIntForm (t : Text) : Bool :=
  match dropSign t with
  | '0' :: 'b' :: rest => isRun (fun c => c == '0' || c == '1' || c == '_') rest
  | '0' :: 'x' :: rest =>
    isRun (fun c => c.isDigit || c == '_' || ('a' ≤ c && c ≤ 'f') || ('A' ≤ c && c ≤ 'F')) rest
  | '0' :: rest => rest.all fun c => ('0' ≤ c && c ≤ '7') || c == '_'
  | body => isNumeral '1' body || isSixtyNumeral '1' body

/-- An exponent with a sign, or nothing. -/
def isExponentForm : Text → Bool
  | [] => true
  | e :: s :: digits =>
    (e == 'e' || e == 'E') && (s == '-' || s == '+') && isRun Char.isDigit digits
  | _ => false

def isFractionForm (t : Text) : Bool := isExponentForm (t.dropWhile isDigitOrUnderscore)

def isFloatForm (t : Text) : Bool :=
  let body := dropSign t
  let whole := body.takeWhile (· != '.')
  match body.dropWhile (· != '.') with
  | [] => false
  | _ :: fraction =>
    (isNumeral '0' whole && isFractionForm fraction) ||
    (isSixtyNumeral '0' whole && fraction.all isDigitOrUnderscore) ||
    (whole.isEmpty && (body == t) && isNumeral '0' (fraction.take 1) && isFractionForm fraction) ||
    (whole.isEmpty && ["inf".toList, "Inf".toList, "INF".toList].contains fraction) ||
    (t == body && whole.isEmpty && ["nan".toList, "NaN".toList, "NAN".toList].contains fraction)

def boolWords : List (Text × Bool) :=
  [("yes".toList, true), ("no".toList, false), ("true".toList, true), ("false".toList, false),
   ("on".toList, true), ("off".toList, false)]

/-- A word in lower case, in upper case, or with its first letter in upper case. -/
def isCasing (word t : Text) : Bool :=
  t == word || t == word.map Char.toUpper ||
    t == (word.take 1).map Char.toUpper ++ word.drop 1

def isBoolForm (t : Text) : Bool := boolWords.any fun w => isCasing w.1 t

def isNullForm (t : Text) : Bool := t.isEmpty || t == ['~'] || isCasing "null" t

/-! ## Dates -/

def readDigits? (least most : Nat) (t : Text) : Option (Nat × Text) :=
  let digits := (t.takeWhile Char.isDigit).take most
  if digits.length < least then none
  else some (digits.foldl (fun n d => 10 * n + (d.toNat - '0'.toNat)) 0, t.drop digits.length)

def readChar? (c : Char) : Text → Option Text
  | d :: rest => if c == d then some rest else none
  | [] => none

def microseconds (digits : Text) : Nat :=
  let six := digits.take 6
  (six ++ List.replicate (6 - six.length) '0').foldl (fun n d => 10 * n + (d.toNat - '0'.toNat)) 0

def readZone? (t : Text) : Option (Option Int) :=
  match t.dropWhile fun c => c == ' ' || c == '\t' with
  | [] => if t.isEmpty then some none else none
  | ['Z'] => some (some 0)
  | sign :: rest =>
    if sign == '+' || sign == '-' then do
      let (hours, rest) ← readDigits? 1 2 rest
      let minutes ← if rest.isEmpty then some 0 else do
        let rest ← readChar? ':' rest
        let (minutes, rest) ← readDigits? 2 2 rest
        if rest.isEmpty then some minutes else none
      let seconds : Int := hours * 3600 + minutes * 60
      return some (if sign == '-' then -seconds else seconds)
    else none

def readTime? (date : Date) (t : Text) : Option Timestamp := do
  let gap := t.takeWhile fun c => c == ' ' || c == '\t'
  let rest ← match t with
    | 'T' :: rest => some rest
    | 't' :: rest => some rest
    | _ => if gap.isEmpty then none else some (t.drop gap.length)
  let (hour, rest) ← readDigits? 1 2 rest
  let (minute, rest) ← readDigits? 2 2 (← readChar? ':' rest)
  let (second, rest) ← readDigits? 2 2 (← readChar? ':' rest)
  let (fraction, rest) := match rest with
    | '.' :: r => (r.takeWhile Char.isDigit, r.dropWhile Char.isDigit)
    | r => ([], r)
  let zone ← readZone? rest
  return ⟨date, hour, minute, second, microseconds fraction, zone⟩

def readTimestamp? (t : Text) : Option (Date ⊕ Timestamp) := do
  let (year, rest) ← readDigits? 4 4 t
  let (month, rest) ← readDigits? 1 2 (← readChar? '-' rest)
  let (day, rest) ← readDigits? 1 2 (← readChar? '-' rest)
  let date : Date := ⟨year, month, day⟩
  if rest.isEmpty then return .inl date else (readTime? date rest).map .inr

def dropLineFeed (t : Text) : Text := if t.getLast? = some '\n' then t.dropLast else t

/-- Without a time, month and day of a plain scalar have two digits. -/
def isTimestampForm (t : Text) : Bool :=
  match readTimestamp? t with
  | none => false
  | some (.inl _) => t.length == 10
  | some (.inr _) => true

/-- The type that the form of a scalar gives it. -/
def formTag (t : Text) : Tag :=
  if isBoolForm t then .bool
  else if isFloatForm t then .float
  else if isIntForm t then .int
  else if t == ['<', '<'] then .merge
  else if isNullForm t then .null
  else if isTimestampForm t then .timestamp
  else if t == ['='] then .defaultValue
  else if t == ['!'] || t == ['&'] || t == ['*'] then .unknown
  else .text

/-- The type of a scalar for which none is stated. A line feed at the end does not count, unless it
stands alone. -/
def implicitTag (t : Text) : Tag := if t == ['\n'] then .text else formTag (dropLineFeed t)

/-! ## Values -/

def sixtyValue (digits : List Int) : Int := digits.foldl (fun n d => 60 * n + d) 0

def readMagnitude? (t : Text) : Option Int :=
  match t with
  | '0' :: 'b' :: rest => Numeral.readInt? 2 rest
  | '0' :: 'x' :: rest => Numeral.readInt? 16 rest
  | '0' :: _ => Numeral.readInt? 8 t
  | _ =>
    if t.contains ':' then ((Text.pieces ':' t).mapM (Numeral.readInt? 10)).map sixtyValue
    else Numeral.readInt? 10 t

def readInt (t : Text) : Except Problem Value :=
  let (negative, body) := Numeral.splitSign (t.filter (· != '_'))
  match body, readMagnitude? body with
  | [], _ => .error .emptyNumber
  | _, none => .error .impossibleScalar
  | _, some n => .ok (.int (if negative then -n else n))

/-- The value of numbers of base sixty, given from the back, with the weight of the first and the
sum so far. A weight has to be a finite number. -/
def sixtyFloat : Nat → Binary64 → List Binary64 → Except Problem Binary64
  | _, sum, [] => .ok sum
  | weight, sum, d :: rest =>
    match Binary64.ofNat weight with
    | .finite s m e => sixtyFloat (60 * weight) (sum.add (d.mul (.finite s m e))) rest
    | _ => .error .tooManyPlaces

def readFloatMagnitude (t : Text) : Except Problem Binary64 :=
  if t.contains ':' then
    match (Text.pieces ':' t).mapM Binary64.read? with
    | none => .error .impossibleScalar
    | some digits => sixtyFloat 1 (.ofNat 0) digits.reverse
  else match Binary64.read? t with
    | none => .error .impossibleScalar
    | some x => .ok x

/-- The floating-point number of a node. What is no number is marked by the node it comes from, or
by zero if it is written as such. -/
def readFloat (node : Nat) (t : Text) : Except Problem Value :=
  let bare := (t.filter (· != '_')).map Char.toLower
  let (negative, body) := Numeral.splitSign bare
  let signed := fun x => if negative then Binary64.neg x else x
  if bare.isEmpty then .error .emptyNumber
  else if body = ".inf".toList then .ok (.float (signed (.infinite false)))
  else if body = ".nan".toList then .ok (.notNumber 0)
  else match readFloatMagnitude body with
    | .error p => .error p
    | .ok .nan => .ok (.notNumber (node + 1))
    | .ok x => .ok (.float (signed x))

def readBool (t : Text) : Except Problem Value :=
  match boolWords.find? fun w => w.1 == t.map Char.toLower with
  | none => .error .unknownWord
  | some w => .ok (.bool w.2)

def readTimestamp (t : Text) : Except Problem Value :=
  match readTimestamp? (dropLineFeed t) with
  | none => .error .notDate
  | some (.inl d) => if d.isValid then .ok (.date d) else .error .impossibleScalar
  | some (.inr s) => if s.isValid then .ok (.timestamp s) else .error .impossibleScalar

def sixBits? (c : Char) : Option Nat :=
  if 'A' ≤ c && c ≤ 'Z' then some (c.toNat - 'A'.toNat)
  else if 'a' ≤ c && c ≤ 'z' then some (c.toNat - 'a'.toNat + 26)
  else if c.isDigit then some (c.toNat - '0'.toNat + 52)
  else if c == '+' then some 62
  else if c == '/' then some 63
  else none

/-- The bytes of groups of four characters, the last of which may be cut. -/
def bytesOfBits : List Nat → Option Utf8.Bytes
  | [] => some []
  | [_] => none
  | [a, b] => some [(a * 4 + b / 16).toUInt8]
  | [a, b, c] => some [(a * 4 + b / 16).toUInt8, (b % 16 * 16 + c / 4).toUInt8]
  | a :: b :: c :: d :: rest =>
    (bytesOfBits rest).map fun more =>
      (a * 4 + b / 16).toUInt8 :: (b % 16 * 16 + c / 4).toUInt8 :: (c % 4 * 64 + d).toUInt8 :: more

/-- The signs of base sixty-four in a text, given how many the group at hand has and how many
padding signs follow them. A group of two or more is complete once padding fills it, and then the
data ends; other characters are skipped. No group may be left incomplete. -/
def sixBitGroups? (group padding : Nat) : Text → Option (List Nat)
  | [] => if group = 0 then some [] else none
  | c :: rest =>
    if c = '=' then
      if group < 2 then sixBitGroups? group padding rest
      else if 4 ≤ group + padding + 1 then some []
      else sixBitGroups? group (padding + 1) rest
    else match sixBits? c with
      | none => sixBitGroups? group padding rest
      | some bits => (sixBitGroups? ((group + 1) % 4) 0 rest).map (bits :: ·)

def readBinary (t : Text) : Except Problem Value :=
  if t.any (fun c => 0x80 ≤ c.toNat) then .error .malformed
  else match (sixBitGroups? 0 0 t).bind bytesOfBits with
    | none => .error .malformed
    | some bytes => .ok (.bytes bytes)

def scalarValue (node : Nat) (tag : Tag) (t : Text) : Except Problem Value :=
  match tag with
  | .null => .ok .null
  | .bool => readBool t
  | .int => readInt t
  | .float => readFloat node t
  | .timestamp => readTimestamp t
  | .text => .ok (.text t)
  | .binary => readBinary t
  | _ => .error .malformed

end IndentMarkup.Yaml
