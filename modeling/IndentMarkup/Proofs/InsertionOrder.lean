import IndentMarkup.OrderedMap
import Mathlib.Data.List.Basic

/-!
# What many insertions build

A map that is built by one insertion after another has each key once, at the place of its first
appearance, and under it the value of its last. A map with different keys is given by the order of
its keys and by what is found under each of them.
-/
namespace IndentMarkup.OrderedMap

section Repetitions

variable {α : Type} [BEq α] [LawfulBEq α]

theorem filter_not_beq_of_not_mem {xs : List α} {x : α} (h : x ∉ xs) :
    xs.filter (fun y => !y == x) = xs := by
  apply List.filter_eq_self.mpr
  intro y hy
  have hne : y ≠ x := by
    rintro rfl
    exact h hy
  simpa using hne

theorem eraseDups_of_nodup {xs : List α} (h : xs.Nodup) : xs.eraseDups = xs := by
  induction xs with
  | nil => rfl
  | cons x xs ih =>
    obtain ⟨hx, hrest⟩ := List.nodup_cons.mp h
    rw [List.eraseDups_cons, filter_not_beq_of_not_mem hx, ih hrest]

theorem nodup_eraseDups (xs : List α) : xs.eraseDups.Nodup := by
  cases xs with
  | nil => simp
  | cons x xs =>
    rw [List.eraseDups_cons, List.nodup_cons, List.mem_eraseDups]
    exact ⟨by simp, nodup_eraseDups _⟩
termination_by xs.length
decreasing_by
  have := List.length_filter_le (fun b => !b == x) xs
  simp only [List.length_cons]
  omega

/-- What stands further to the front does not appear again. -/
theorem eraseDups_append_cons_of_mem {xs ys : List α} {x : α} (h : x ∈ xs) :
    (xs ++ x :: ys).eraseDups = (xs ++ ys).eraseDups := by
  simp [List.eraseDups_append, List.cons_removeAll, h]

end Repetitions

variable {κ ν : Type}

@[simp] theorem keys_nil : keys ([] : OrderedMap κ ν) = [] := rfl
@[simp] theorem keys_cons (b : κ × ν) (m : OrderedMap κ ν) : keys (b :: m) = b.1 :: keys m := rfl

@[simp] theorem keys_append (m m' : OrderedMap κ ν) : keys (m ++ m') = keys m ++ keys m' := by
  simp [keys]

variable [BEq κ] [LawfulBEq κ] {m : OrderedMap κ ν}

theorem get?_cons_self (k : κ) (v : ν) (m : OrderedMap κ ν) : get? ((k, v) :: m) k = some v := by
  simp [get?]

theorem get?_cons_of_ne {k k' : κ} (h : k ≠ k') (v : ν) (m : OrderedMap κ ν) :
    get? ((k, v) :: m) k' = get? m k' := by
  simp [get?, h]

omit [LawfulBEq κ] in
theorem get?_append (m m' : OrderedMap κ ν) (k : κ) :
    get? (m ++ m') k = (m.get? k).or (m'.get? k) := by
  simp only [get?, List.find?_append]
  cases m.find? fun b => b.1 == k <;> rfl

/-- A key that is there keeps its place. -/
theorem keys_insert_of_mem {k : κ} (h : k ∈ m.keys) (v : ν) : (m.insert k v).keys = m.keys := by
  induction m with
  | nil => simp at h
  | cons b rest ih =>
    obtain ⟨k', v'⟩ := b
    by_cases hk : k' = k
    · simp [insert, hk]
    · have hrest : k ∈ keys rest := by
        rcases List.mem_cons.mp h with rfl | hrest
        · exact absurd rfl hk
        · exact hrest
      simp [insert, hk, ih hrest]

/-- A new key goes last. -/
theorem keys_insert_of_not_mem {k : κ} (h : k ∉ m.keys) (v : ν) :
    (m.insert k v).keys = m.keys ++ [k] := by
  induction m with
  | nil => rfl
  | cons b rest ih =>
    obtain ⟨hne, hrest⟩ : k ≠ b.1 ∧ k ∉ keys rest := by simpa using h
    simp [insert, hne.symm, ih hrest]

theorem nodup_keys_insert (h : m.keys.Nodup) (k : κ) (v : ν) : (m.insert k v).keys.Nodup := by
  by_cases hk : k ∈ m.keys
  · rwa [keys_insert_of_mem hk]
  · rw [keys_insert_of_not_mem hk, List.nodup_append]
    refine ⟨h, by simp, ?_⟩
    intro k₁ hmem k₂ hk₂ he
    rw [List.mem_singleton.mp hk₂] at he
    exact hk (he ▸ hmem)

/-- What is in a map with different keys after an insertion. -/
theorem mem_insert_iff (h : m.keys.Nodup) {k : κ} {v : ν} {b : κ × ν} :
    b ∈ m.insert k v ↔ b = (k, v) ∨ b ∈ m ∧ k ≠ b.1 := by
  induction m with
  | nil => simp
  | cons first rest ih =>
    obtain ⟨k', v'⟩ := first
    obtain ⟨hk', hrest⟩ := List.nodup_cons.mp h
    have hother : ∀ b ∈ rest, k' ≠ b.1 := by
      intro b hb he
      have hmem : b.1 ∈ keys rest := List.mem_map_of_mem hb
      exact hk' (he ▸ hmem)
    by_cases hk : k' = k
    · subst hk
      simp only [insert, beq_self_eq_true, if_true, List.mem_cons]
      grind
    · have hne : (k' == k) = false := by simpa using hk
      simp only [insert, hne, Bool.false_eq_true, if_false, List.mem_cons, ih hrest]
      grind

theorem nodup_keys_foldl_insert (h : m.keys.Nodup) (bindings : List (κ × ν)) :
    (bindings.foldl (fun m b => m.insert b.1 b.2) m).keys.Nodup := by
  induction bindings generalizing m with
  | nil => exact h
  | cons b rest ih => exact ih (nodup_keys_insert h b.1 b.2)

/-- Insertions keep the keys that are there and add the others in the order in which they come. -/
theorem keys_foldl_insert (h : m.keys.Nodup) (bindings : List (κ × ν)) :
    (bindings.foldl (fun m b => m.insert b.1 b.2) m).keys =
      (m.keys ++ bindings.map (·.1)).eraseDups := by
  induction bindings generalizing m with
  | nil => simp [eraseDups_of_nodup h]
  | cons b rest ih =>
    rw [List.foldl_cons, List.map_cons, ih (nodup_keys_insert h b.1 b.2)]
    by_cases hk : b.1 ∈ m.keys
    · rw [keys_insert_of_mem hk, eraseDups_append_cons_of_mem hk]
    · rw [keys_insert_of_not_mem hk, List.append_assoc, List.singleton_append]

/-- What is found after insertions is what was inserted last, or what was there before. -/
theorem get?_foldl_insert (m : OrderedMap κ ν) (bindings : List (κ × ν)) (k : κ) :
    (bindings.foldl (fun m b => m.insert b.1 b.2) m).get? k =
      ((bindings.filter (·.1 == k)).getLast?.map (·.2)).or (m.get? k) := by
  induction bindings generalizing m with
  | nil => simp
  | cons b rest ih =>
    rw [List.foldl_cons, ih]
    by_cases hk : b.1 = k
    · subst hk
      rw [get?_insert_self, List.filter_cons_of_pos (by simp), List.getLast?_cons]
      cases (rest.filter (·.1 == b.1)).getLast? <;> rfl
    · rw [get?_insert_of_ne m b.2 hk, List.filter_cons_of_neg (by simpa using hk)]

/-- A map with different keys is given by them and by what is found under each. -/
theorem filterMap_keys (h : m.keys.Nodup) :
    m.keys.filterMap (fun k => (m.get? k).map fun v => (k, v)) = m := by
  induction m with
  | nil => rfl
  | cons b rest ih =>
    obtain ⟨k, v⟩ := b
    obtain ⟨hk, hrest⟩ := List.nodup_cons.mp h
    have hsame : ∀ k' ∈ keys rest,
        ((get? ((k, v) :: rest) k').map fun v => (k', v)) = (get? rest k').map fun v => (k', v) := by
      intro k' hk'
      have hne : k ≠ k' := by
        rintro rfl
        exact hk hk'
      rw [get?_cons_of_ne hne]
    rw [keys_cons, List.filterMap_cons, get?_cons_self, List.filterMap_congr hsame, ih hrest]
    rfl

end IndentMarkup.OrderedMap
