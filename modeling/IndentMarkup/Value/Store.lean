import IndentMarkup.Value

/-!
# Stores

The collections that values name by numbers. To look at a value is to replace a number by the
collection under it; the members of that collection are not looked at.
-/
namespace IndentMarkup

structure Store where
  contents : Array Value

namespace Store

def empty : Store := ⟨#[]⟩

def size (s : Store) : Nat := s.contents.size

def get? (s : Store) (number : Nat) : Option Value := s.contents[number]?

def set (s : Store) (number : Nat) (v : Value) : Store := ⟨s.contents.setIfInBounds number v⟩

/-- A value as it is seen, with a number replaced by the collection under it. -/
def look (s : Store) : Value → Value
  | .stored number => (s.get? number).getD .null
  | v => v

@[simp] theorem size_set (s : Store) (number : Nat) (v : Value) :
    (s.set number v).size = s.size := by
  simp [set, size]

end Store
end IndentMarkup
