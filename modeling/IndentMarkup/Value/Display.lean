import IndentMarkup.Decimal.Shortest
import IndentMarkup.Text.Quoted
import IndentMarkup.Value.Store

/-!
# Values in messages

How a message shows a configuration value. Text is quoted, a floating-point number has the fewest
digits that read back, dates and times are written as the call that would make them, and collections
list their members between brackets. Where a collection stands within itself there are three dots.
An integer with too many digits cannot be shown, nor can anything that holds it.
-/
namespace IndentMarkup

/-- Floating-point numbers are positional from a ten-thousandth up to below 10^16; an exponent has a
sign and at least two digits. -/
def numberLayout : Decimal.Layout := ⟨-3, 16, 2⟩

def Binary64.display : Binary64 → Text
  | .nan => "nan"
  | .infinite negative => if negative then "-inf" else "inf"
  | .finite negative m e =>
    (if negative then ['-'] else []) ++
      if m = 0 then "0.0".toList else (Decimal.shortest m e).format numberLayout

def commaList (items : List Text) : Text := [',', ' '].intercalate items

/-- The items of a tuple. A single one has a comma behind it. -/
def tupleList : List Text → Text
  | [item] => item ++ [',']
  | items => commaList items

def Date.fields (d : Date) : List Text := [Text.ofNat d.year, Text.ofNat d.month, Text.ofNat d.day]

def Date.display (d : Date) : Text := "datetime.date(".toList ++ commaList d.fields ++ [')']

/-- A zone by its distance in whole days and seconds, the seconds never negative. -/
def zoneText (z : Int) : Text :=
  if z = 0 then "datetime.timezone.utc"
  else
    let days := z.fdiv 86400
    let seconds := z.fmod 86400
    let parts := (if days = 0 then [] else ["days=".toList ++ Text.ofInt days]) ++
      (if seconds = 0 then [] else ["seconds=".toList ++ Text.ofInt seconds])
    "datetime.timezone(datetime.timedelta(".toList ++ commaList parts ++ "))".toList

/-- Microseconds are left out when zero, and then seconds when they are zero too. -/
def Timestamp.display (t : Timestamp) : Text :=
  let small :=
    if t.microsecond ≠ 0 then [Text.ofNat t.second, Text.ofNat t.microsecond]
    else if t.second ≠ 0 then [Text.ofNat t.second]
    else []
  let zone := match t.zone with
    | none => []
    | some z => ["tzinfo=".toList ++ zoneText z]
  "datetime.datetime(".toList ++
    commaList (t.date.fields ++ [Text.ofNat t.hour, Text.ofNat t.minute] ++ small ++ zone) ++ [')']

def escapeByte (quote : Char) (b : UInt8) : Text :=
  if b.toNat < 0x80 then Text.escapeChar quote (Char.ofNat b.toNat)
  else '\\' :: 'x' :: Text.hexDigits 2 b.toNat

def displayBytes (b : Utf8.Bytes) : Text :=
  let quote := Text.quoteMark (b.map fun x => .char (Char.ofNat x.toNat))
  'b' :: quote :: b.flatMap (escapeByte quote) ++ [quote]

namespace Value

/-- How a collection is shown at a place within itself. -/
def elision : Value → Text
  | .map _ => "\x7b...\x7d"
  | .tuple _ => "(...)"
  | .set _ => "set(...)"
  | _ => "[...]"

mutual

/-- How a value is shown, given how numbered collections are. -/
def display? (numbered : Nat → Option Text) : Value → Option Text
  | .null => some "None"
  | .bool b => some (if b then "True" else "False")
  | .int n => Numeral.writeInt? n
  | .float x => some x.display
  | .notNumber _ => some Binary64.nan.display
  | .text t => some (Text.quoted t)
  | .date d => some d.display
  | .timestamp t => some t.display
  | .bytes b => some (displayBytes b)
  | .list items => (displayAll? numbered items).map fun ts => '[' :: commaList ts ++ [']']
  | .tuple items => (displayAll? numbered items).map fun ts => '(' :: tupleList ts ++ [')']
  | .map entries => (displayEntries? numbered entries).map fun ts => '{' :: commaList ts ++ ['}']
  | .set items =>
    if items.isEmpty then some "set()"
    else (displayAll? numbered items).map fun ts => '{' :: commaList ts ++ ['}']
  | .stored number => numbered number

def displayAll? (numbered : Nat → Option Text) : List Value → Option (List Text)
  | [] => some []
  | v :: rest => do
    let first ← display? numbered v
    let others ← displayAll? numbered rest
    return first :: others

def displayEntries? (numbered : Nat → Option Text) : List (Value × Value) → Option (List Text)
  | [] => some []
  | (k, v) :: rest => do
    let key ← display? numbered k
    let value ← display? numbered v
    let others ← displayEntries? numbered rest
    return (key ++ [':', ' '] ++ value) :: others

end

end Value

namespace Store

/-- How the collection under a number is shown within those under other numbers. Every turn adds a
number to them, so that as many turns as there are collections are enough. -/
def displayNumbered? (s : Store) : Nat → List Nat → Nat → Option Text
  | 0, _, number => some ((s.look (.stored number)).elision)
  | turns + 1, around, number =>
    let v := s.look (.stored number)
    if around.contains number then some v.elision
    else v.display? fun n => displayNumbered? s turns (number :: around) n

def display? (s : Store) (v : Value) : Option Text := v.display? (s.displayNumbered? s.size [])

end Store
end IndentMarkup
