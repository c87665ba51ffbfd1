/-!
# Maps in order of first insertion

A map is its list of bindings. Inserting under a key that is already bound replaces the value and
keeps the place; a new key goes last.
-/
namespace IndentMarkup

abbrev OrderedMap (κ ν : Type) := List (κ × ν)

namespace OrderedMap

variable {κ ν : Type} [BEq κ]

def insert (m : OrderedMap κ ν) (k : κ) (v : ν) : OrderedMap κ ν :=
  match m with
  | [] => [(k, v)]
  | (k', v') :: rest => if k' == k then (k', v) :: rest else (k', v') :: insert rest k v

def get? (m : OrderedMap κ ν) (k : κ) : Option ν :=
  (m.find? fun b => b.1 == k).map (·.2)

def keys (m : OrderedMap κ ν) : List κ := m.map (·.1)

def ofList (bindings : List (κ × ν)) : OrderedMap κ ν :=
  bindings.foldl (fun m b => m.insert b.1 b.2) []

@[simp] theorem insert_nil (k : κ) (v : ν) : insert [] k v = [(k, v)] := rfl
@[simp] theorem get?_nil (k : κ) : get? ([] : OrderedMap κ ν) k = none := rfl
@[simp] theorem ofList_nil : ofList ([] : List (κ × ν)) = [] := rfl

/-- What was inserted is found. -/
theorem get?_insert_self [ReflBEq κ] (m : OrderedMap κ ν) (k : κ) (v : ν) :
    (m.insert k v).get? k = some v := by
  induction m with
  | nil => simp [get?]
  | cons b rest ih =>
    by_cases h : b.1 == k
    · simp [insert, get?, h]
    · have hb : (b.1 == k) = false := by simpa using h
      simpa [insert, get?, hb] using ih

/-- What is found under another key stays. -/
theorem get?_insert_of_ne [LawfulBEq κ] (m : OrderedMap κ ν) {k k' : κ} (v : ν) (h : k ≠ k') :
    (m.insert k v).get? k' = m.get? k' := by
  induction m with
  | nil => simp [get?, h]
  | cons b rest ih =>
    obtain ⟨key, value⟩ := b
    by_cases hk : key = k
    · subst hk
      simp [insert, get?, h]
    · have hk' : (key == k) = false := by simpa using hk
      by_cases hq : key = k'
      · simp [insert, get?, hq, beq_eq_false_iff_ne.mpr (hq ▸ hk)]
      · have hq' : (key == k') = false := by simpa using hq
        simpa [insert, get?, hk', hq'] using ih

end OrderedMap
end IndentMarkup
