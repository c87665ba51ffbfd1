import IndentMarkup.Yaml.Cursor

/-!
# YAML tokens

The tokens a YAML text is made of. Indentation is turned into tokens that open and close block
collections, and a key written without an indicator has its token in front of it all the same.
-/
namespace IndentMarkup.Yaml

inductive Token where
  /-- A version directive. -/
  | version (major : Nat)
  /-- A directive that gives a tag handle its beginning. -/
  | handle (handle beginning : Text)
  /-- Any other directive. -/
  | directive
  | documentStart
  | documentEnd
  | blockSequenceStart
  | blockMappingStart
  | blockEnd
  | flowSequenceStart
  | flowSequenceEnd
  | flowMappingStart
  | flowMappingEnd
  | blockEntry
  | flowEntry
  | key
  | value
  /-- An alias for the node with an anchor. -/
  | reference (name : Text)
  | anchor (name : Text)
  | tag (handle : Option Text) (suffix : Text)
  | scalar (value : Text) (plain : Bool)
  /-- A quoted scalar with code points that are no characters. -/
  | brokenScalar (codes : List Nat)
  deriving DecidableEq, Repr

inductive Problem where
  /-- It is not well formed, or asks for data that cannot be built. -/
  | malformed
  /-- It ends where something has to follow. -/
  | unfinished
  /-- Its bytes are not UTF-8. -/
  | undecodable
  /-- A character is escaped by a number beyond the last code point. -/
  | noSuchChar
  /-- A character is escaped by a number of more than 31 bits. -/
  | noSuchCode
  /-- A scalar has the form of a number or date but no value, or too many digits. -/
  | impossibleScalar
  /-- A number of base sixty has more places than a floating-point number can count. -/
  | tooManyPlaces
  /-- A scalar tagged as a truth value is none of its words. -/
  | unknownWord
  /-- A scalar tagged as a date has not the form of one. -/
  | notDate
  /-- A mapping is tagged as a date. -/
  | dateOfMapping
  /-- A scalar tagged as a number is empty. -/
  | emptyNumber
  /-- A mapping that stands for a scalar stands for itself. -/
  | endless
  deriving DecidableEq, Repr

def require (condition : Bool) : Except Problem Unit :=
  if condition then .ok () else .error .malformed

/-- Fail at a place unless a condition holds, and tell the end of the text from other places. -/
def Cursor.demand (c : Cursor) (condition : Bool) : Except Problem Unit :=
  if condition then .ok ()
  else if c.rest.isEmpty then .error .unfinished
  else .error .malformed

end IndentMarkup.Yaml
