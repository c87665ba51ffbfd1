import IndentMarkup.Decimal.Binary64
import IndentMarkup.Text.Code

/-!
# Configuration values

The data a build file holds: scalars of several types, lists and mappings. A mapping is a list of
entries in order of first appearance. Keys compare by value, so that a truth value, an integer and a
floating-point number can be the same key.

A collection can be named by a number instead of being written out. What the numbers stand for is
kept in a store, so that a collection may occur at several places and even within itself.
-/
namespace IndentMarkup

structure Date where
  year : Nat
  month : Nat
  day : Nat
  deriving DecidableEq, Repr

namespace Date

def isLeap (year : Nat) : Bool := year % 4 == 0 && (year % 100 != 0 || year % 400 == 0)

def daysInMonth (year month : Nat) : Nat :=
  if month == 2 then (if isLeap year then 29 else 28)
  else if month == 4 || month == 6 || month == 9 || month == 11 then 30
  else 31

def isValid (d : Date) : Bool :=
  1 ≤ d.year && 1 ≤ d.month && d.month ≤ 12 && 1 ≤ d.day && d.day ≤ daysInMonth d.year d.month

def ordinal (d : Date) : Nat :=
  let y := d.year - 1
  365 * y + y / 4 - y / 100 + y / 400 +
    (List.range (d.month - 1)).foldl (fun days m => days + daysInMonth d.year (m + 1)) d.day

end Date

structure Timestamp where
  date : Date
  hour : Nat
  minute : Nat
  second : Nat
  microsecond : Nat
  /-- Seconds east of the reference meridian, if a zone is given. -/
  zone : Option Int
  deriving DecidableEq, Repr

namespace Timestamp

/-- Whether there is such a day and time of day, in a zone less than a day away. -/
def isValid (t : Timestamp) : Bool :=
  t.date.isValid && t.hour < 24 && t.minute < 60 && t.second < 60 &&
    t.zone.all fun z => z.natAbs < 86400

/-- The point in time in microseconds, as seen from the reference meridian. -/
def instant (t : Timestamp) : Int :=
  (((t.date.ordinal * 24 + t.hour) * 60 + t.minute) * 60 + t.second - t.zone.getD 0) * 1000000 +
    t.microsecond

/-- Two timestamps with zones are the same when they name the same instant. -/
def same (s t : Timestamp) : Bool :=
  match s.zone, t.zone with
  | some _, some _ => s.instant == t.instant
  | none, none => s == t
  | _, _ => false

end Timestamp

inductive Value where
  | null
  | bool (b : Bool)
  | int (n : Int)
  | float (x : Binary64)
  /-- A floating-point value that is no number. The mark tells it from others of its kind. -/
  | notNumber (mark : Nat)
  | text (t : Codes)
  | date (d : Date)
  | timestamp (t : Timestamp)
  | bytes (b : Utf8.Bytes)
  | list (items : List Value)
  | tuple (items : List Value)
  | map (entries : List (Value × Value))
  | set (items : List Value)
  /-- The collection that a store keeps under a number. -/
  | stored (number : Nat)

instance : Inhabited Value := ⟨.null⟩

namespace Value

/-- The number that a value counts as when it is compared, if it is an integer. -/
def asInt? : Value → Option Int
  | .bool b => some (if b then 1 else 0)
  | .int n => some n
  | _ => none

def sameKey (v w : Value) : Bool :=
  match v.asInt?, w.asInt? with
  | some m, some n => m == n
  | some m, none => match w with | .float x => x.eqInt m | _ => false
  | none, some n => match v with | .float x => x.eqInt n | _ => false
  | none, none =>
    match v, w with
    | .null, .null => true
    | .float x, .float y => x.numEq y
    | .notNumber m, .notNumber n => m == n
    | .text s, .text t => s == t
    | .date d, .date e => d == e
    | .timestamp s, .timestamp t => s.same t
    | .bytes b, .bytes c => b == c
    | _, _ => false

def entry? (entries : List (Value × Value)) (key : Codes) : Option Value :=
  (entries.find? fun e => e.1.sameKey (.text key)).map (·.2)

/-- Set an entry: a key that is there keeps its place, a new one goes last. -/
def setEntry (entries : List (Value × Value)) (key value : Value) : List (Value × Value) :=
  match entries with
  | [] => [(key, value)]
  | (k, v) :: rest =>
    if k.sameKey key then (k, value) :: rest else (k, v) :: setEntry rest key value

def setEntries (entries : List (Value × Value)) : List (Value × Value) :=
  entries.foldl (fun es e => setEntry es e.1 e.2) []

def ofEntries (entries : List (Value × Value)) : Value := .map (setEntries entries)

/-- The set of several values that differ. Its members have no order of their own; integers are put
in ascending order. -/
def ofMembers (members : List Value) : Value :=
  if members.all fun v => v.asInt?.isSome then
    .set (members.mergeSort fun v w => (v.asInt?.getD 0) ≤ (w.asInt?.getD 0))
  else .set members

/-- A value that can be a key: no collection that can change. -/
def isKey : Value → Bool
  | .list _ | .map _ | .set _ | .stored _ => false
  | _ => true

/-- Values that count as nothing where something optional is expected. -/
def isEmpty : Value → Bool
  | .null => true
  | .bool b => !b
  | .int n => n == 0
  | .float x => x.isZero
  | .text t => t.isEmpty
  | .bytes b => b.isEmpty
  | .list items => items.isEmpty
  | .tuple items => items.isEmpty
  | .map entries => entries.isEmpty
  | .set items => items.isEmpty
  | _ => false

end Value
end IndentMarkup
