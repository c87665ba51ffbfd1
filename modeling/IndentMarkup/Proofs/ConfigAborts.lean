import IndentMarkup.Config
import IndentMarkup.Proofs.Descents

/-!
# Configurations that are not reported on

Reading a configuration is a row of checks, and the first one that fails decides the answer. Most
checks end with a fault. Three of them can end with an abort instead: an entry that is no pair
cannot be shown in the report, a pattern has no component or leads to something too long to be looked
up, and an option has a name that is no text. There is no other way.
-/
namespace IndentMarkup

/-! ## The first that fails -/

/-- The first of the items that is not good. -/
def FirstFailing {α : Type} (good : α → Prop) (items : List α) (x : α) : Prop :=
  ∃ done rest, items = done ++ x :: rest ∧ (∀ y ∈ done, good y) ∧ ¬good x

section

variable {α β ε : Type} {good : α → Prop} {f : α → Except ε β} {x y : α} {items : List α}

theorem not_firstFailing_nil : ¬FirstFailing good [] x := by
  rintro ⟨done, rest, h, -⟩
  simp at h

theorem firstFailing_cons_of_not (hx : ¬good x) : FirstFailing good (x :: items) y ↔ y = x := by
  constructor
  · rintro ⟨done, rest, h, hdone, -⟩
    cases done with
    | nil => exact (List.cons.inj h).1.symm
    | cons z done => exact absurd ((List.cons.inj h).1 ▸ hdone z (by simp)) hx
  · rintro rfl
    exact ⟨[], items, rfl, by simp, hx⟩

theorem firstFailing_cons_of_good (hx : good x) :
    FirstFailing good (x :: items) y ↔ FirstFailing good items y := by
  constructor
  · rintro ⟨done, rest, h, hdone, hy⟩
    cases done with
    | nil => exact absurd ((List.cons.inj h).1 ▸ hx) hy
    | cons z done =>
      exact ⟨done, rest, (List.cons.inj h).2, fun w hw => hdone w (List.mem_cons_of_mem z hw), hy⟩
  · rintro ⟨done, rest, rfl, hdone, hy⟩
    exact ⟨x :: done, rest, rfl, List.forall_mem_cons.mpr ⟨hx, hdone⟩, hy⟩

def Works (f : α → Except ε β) (x : α) : Prop := ∃ r, f x = .ok r

/-- A row of attempts ends with the error of the first that fails. -/
theorem mapM_eq_error_iff {e : ε} :
    items.mapM f = .error e ↔ ∃ x, FirstFailing (Works f) items x ∧ f x = .error e := by
  induction items with
  | nil => simp [not_firstFailing_nil, pure, Except.pure]
  | cons x items ih =>
    rw [List.mapM_cons]
    cases hx : f x with
    | error e' =>
      have hfails : ¬Works f x := by simp [Works, hx]
      simp [bind, Except.bind, firstFailing_cons_of_not hfails, hx]
    | ok r =>
      have hworks : Works f x := ⟨r, hx⟩
      simp only [firstFailing_cons_of_good hworks, ← ih]
      cases items.mapM f <;> simp [bind, Except.bind, pure, Except.pure]

theorem bind_eq_error_iff {r : Except ε α} {e : ε} :
    (r >>= f) = .error e ↔ r = .error e ∨ ∃ x, r = .ok x ∧ f x = .error e := by
  cases r <;> simp [bind, Except.bind]

theorem bind_eq_ok_iff {r : Except ε α} {b : β} :
    (r >>= f) = .ok b ↔ ∃ x, r = .ok x ∧ f x = .ok b := by
  cases r <;> simp [bind, Except.bind]

theorem map_eq_error_iff {γ : Type} {r : Except ε β} {g : β → γ} {e : ε} :
    r.map g = .error e ↔ r = .error e := by
  cases r <;> simp [Except.map]

theorem mapM_works_iff : (∃ rs, items.mapM f = .ok rs) ↔ ∀ x ∈ items, Works f x := by
  induction items with
  | nil => simp [pure, Except.pure]
  | cons x items ih =>
    rw [List.mapM_cons, List.forall_mem_cons, ← ih, Works]
    cases f x <;> cases items.mapM f <;> simp [bind, Except.bind, pure, Except.pure]

end

/-! ## Entries -/

def Value.IsPathText (v : Value) : Prop := ∃ t, v.text? = some t ∧ Codes.isBlankText t = false

/-- A mapping that names a source and a destination. -/
def IsPair (s : Store) (v : Value) : Prop :=
  ∃ entries source destination, s.look v = .map entries ∧
    Value.entry? entries sourceKey = some source ∧ source.IsPathText ∧
    Value.entry? entries destinationKey = some destination ∧ destination.IsPathText

theorem pathText?_eq_some_iff {v : Value} {t : Codes} :
    pathText? v = some t ↔ v.text? = some t ∧ Codes.isBlankText t = false := by
  simp [pathText?, Option.filter_eq_some_iff]

theorem pathText?_isSome_iff {v : Value} : (∃ t, pathText? v = some t) ↔ v.IsPathText := by
  simp [pathText?, Value.IsPathText, Option.filter_eq_some_iff]

theorem readEntry?_isSome_iff (s : Store) (base : Path) (v : Value) :
    (∃ pair, readEntry? s base v = some pair) ↔ IsPair s v := by
  unfold readEntry? IsPair
  simp only [← pathText?_isSome_iff]
  split
  next entries hlook =>
    simp only [hlook, Value.map.injEq, bind, Option.bind_eq_some_iff, pure, Option.some.injEq]
    grind
  next hlook => simp_all

/-- The problem reported is that of the first entry that is no pair. -/
theorem readEntries_eq_error_iff {s : Store} {base : Path} {pairs : OrderedMap Path Path}
    {items : List Value} {e : ConfigProblem} : readEntries s base pairs items = .error e ↔
      ∃ entry, FirstFailing (IsPair s) items entry ∧ e = entryProblem s entry := by
  induction items generalizing pairs with
  | nil => simp [readEntries, not_firstFailing_nil]
  | cons entry items ih =>
    rw [readEntries]
    cases hread : readEntry? s base entry with
    | none =>
      have hbad : ¬IsPair s entry := by simp [← readEntry?_isSome_iff s base, hread]
      simp [firstFailing_cons_of_not hbad, eq_comm]
    | some pair =>
      have hgood : IsPair s entry := (readEntry?_isSome_iff s base entry).mp ⟨pair, hread⟩
      simpa only [firstFailing_cons_of_good hgood] using ih

theorem readEntries_eq_ok_iff {s : Store} {base : Path} {pairs : OrderedMap Path Path}
    {items : List Value} : (∃ r, readEntries s base pairs items = .ok r) ↔
      ∀ entry ∈ items, IsPair s entry := by
  induction items generalizing pairs with
  | nil => simp [readEntries]
  | cons entry items ih =>
    rw [readEntries, List.forall_mem_cons]
    cases hread : readEntry? s base entry with
    | none => simp [← readEntry?_isSome_iff s base, hread]
    | some pair =>
      have hgood : IsPair s entry := (readEntry?_isSome_iff s base entry).mp ⟨pair, hread⟩
      simpa only [hgood, true_and] using ih

/-- A problem with an entry aborts exactly when the entry cannot be shown. -/
theorem entryProblem_eq_abort_iff {s : Store} {entry : Value} {a : Abort} :
    .abort a = entryProblem s entry ↔ a = .impossibleScalar ∧ s.display? entry = none := by
  unfold entryProblem
  cases s.display? entry <;> simp

/-! ## What cannot be shown -/

namespace Value

mutual

/-- The integers in a value, those in numbered collections left out. -/
def integers : Value → List Int
  | .int n => [n]
  | .list items => integersAll items
  | .tuple items => integersAll items
  | .map entries => integersEntries entries
  | .set items => integersAll items
  | _ => []

def integersAll : List Value → List Int
  | [] => []
  | v :: rest => integers v ++ integersAll rest

def integersEntries : List (Value × Value) → List Int
  | [] => []
  | (k, v) :: rest => integers k ++ integers v ++ integersEntries rest

end

/-- An integer has too many digits to be written. -/
def IsTooLarge (n : Int) : Prop := Numeral.digitLimit < (Text.ofNat n.natAbs).length

theorem writeInt?_of_not_isTooLarge {n : Int} (h : ¬IsTooLarge n) :
    ∃ t, Numeral.writeInt? n = some t := by
  unfold IsTooLarge at h
  rw [Numeral.writeInt?, if_neg h]
  exact ⟨_, rfl⟩

mutual

/-- A value can be shown unless an integer in it is too large. -/
theorem exists_display? {numbered : Nat → Option Text} (hn : ∀ k, ∃ t, numbered k = some t) :
    ∀ {v : Value}, (∀ n ∈ v.integers, ¬IsTooLarge n) → ∃ t, v.display? numbered = some t
  | .int n, h => by
    rw [display?]
    exact writeInt?_of_not_isTooLarge (h n (by simp [integers]))
  | .list items, h => by
    have hitems : ∀ n ∈ integersAll items, ¬IsTooLarge n := by simpa [integers] using h
    obtain ⟨ts, hts⟩ := exists_displayAll? hn hitems
    simp [display?, hts]
  | .tuple items, h => by
    have hitems : ∀ n ∈ integersAll items, ¬IsTooLarge n := by simpa [integers] using h
    obtain ⟨ts, hts⟩ := exists_displayAll? hn hitems
    simp [display?, hts]
  | .map entries, h => by
    have hentries : ∀ n ∈ integersEntries entries, ¬IsTooLarge n := by simpa [integers] using h
    obtain ⟨ts, hts⟩ := exists_displayEntries? hn hentries
    simp [display?, hts]
  | .set items, h => by
    have hitems : ∀ n ∈ integersAll items, ¬IsTooLarge n := by simpa [integers] using h
    obtain ⟨ts, hts⟩ := exists_displayAll? hn hitems
    rw [display?]
    split <;> simp [hts]
  | .stored k, _ => by
    rw [display?]
    exact hn k
  | .null, _ => by simp [display?]
  | .bool b, _ => by simp [display?]
  | .float x, _ => by simp [display?]
  | .notNumber mark, _ => by simp [display?]
  | .text t, _ => by simp [display?]
  | .date d, _ => by simp [display?]
  | .timestamp t, _ => by simp [display?]
  | .bytes b, _ => by simp [display?]

theorem exists_displayAll? {numbered : Nat → Option Text} (hn : ∀ k, ∃ t, numbered k = some t) :
    ∀ {items : List Value}, (∀ n ∈ integersAll items, ¬IsTooLarge n) →
      ∃ ts, displayAll? numbered items = some ts
  | [], _ => ⟨[], by simp [displayAll?]⟩
  | v :: rest, h => by
    simp only [integersAll, List.forall_mem_append] at h
    obtain ⟨t, ht⟩ := exists_display? hn h.1
    obtain ⟨ts, hts⟩ := exists_displayAll? hn h.2
    exact ⟨t :: ts, by simp [displayAll?, ht, hts]⟩

theorem exists_displayEntries? {numbered : Nat → Option Text} (hn : ∀ k, ∃ t, numbered k = some t) :
    ∀ {entries : List (Value × Value)}, (∀ n ∈ integersEntries entries, ¬IsTooLarge n) →
      ∃ ts, displayEntries? numbered entries = some ts
  | [], _ => ⟨[], by simp [displayEntries?]⟩
  | (k, v) :: rest, h => by
    simp only [integersEntries, List.forall_mem_append] at h
    obtain ⟨key, hkey⟩ := exists_display? hn h.1.1
    obtain ⟨value, hvalue⟩ := exists_display? hn h.1.2
    obtain ⟨ts, hts⟩ := exists_displayEntries? hn h.2
    exact ⟨(key ++ [':', ' '] ++ value) :: ts, by simp [displayEntries?, hkey, hvalue, hts]⟩

end

end Value

/-- Numbered collections can be shown if all integers anywhere in them can. -/
theorem Store.exists_displayNumbered? {s : Store}
    (h : ∀ v ∈ s.contents, ∀ n ∈ v.integers, ¬Value.IsTooLarge n) (turns : Nat)
    (around : List Nat) (number : Nat) : ∃ t, s.displayNumbered? turns around number = some t := by
  induction turns generalizing around number with
  | zero => exact ⟨_, rfl⟩
  | succ turns ih =>
    rw [displayNumbered?]
    split
    · exact ⟨_, rfl⟩
    · refine Value.exists_display? (fun k => ih (number :: around) k) ?_
      -- what stands under no number is shown as nothing
      cases hget : s.get? number with
      | none => simp [Store.look, hget, Value.integers]
      | some v =>
        simp only [Store.look, hget, Option.getD_some]
        exact h v (Array.mem_of_getElem? hget)

/-- What cannot be shown holds an integer that is too large. -/
theorem Store.exists_isTooLarge {s : Store} {v : Value} (h : s.display? v = none) :
    ∃ n, (n ∈ v.integers ∨ ∃ w ∈ s.contents, n ∈ w.integers) ∧ Value.IsTooLarge n := by
  by_contra hsmall
  simp only [not_exists, not_and] at hsmall
  obtain ⟨shown, hshown⟩ := Value.exists_display?
    (s.exists_displayNumbered? (fun w hw n hn => hsmall n (.inr ⟨w, hw, hn⟩)) s.size [])
    fun n hn => hsmall n (.inl hn)
  rw [Store.display?, hshown] at h
  cases h

/-! ## Patterns -/

/-- The path cannot be looked up: it is too long as a whole, or a name in it is. -/
def Path.IsTooLong (p : Path) : Prop := ¬p.Short ∨ ∃ name ∈ p.parts, ¬ShortName name

/-- The path leads to the base or to something below it. -/
structure Path.IsFrom (base p : Path) : Prop where
  root : p.root = base.root
  parts : base.parts <+: p.parts

theorem Path.IsFrom.of_append {base p : Path} {more : List Codes}
    (h : IsFrom ⟨base.root, base.parts ++ more⟩ p) : IsFrom base p :=
  ⟨h.root, (List.prefix_append _ _).trans h.parts⟩

namespace FileTree

/-- A walk that finds a name too long has met it among the components. -/
theorem walk_eq_nameTooLong {t : FileTree} {here : Location} {parts : List Codes}
    (h : t.walk here parts = .error .nameTooLong) : ∃ name ∈ parts, ¬ShortName name := by
  induction parts generalizing here with
  | nil => simp [walk] at h
  | cons name rest ih =>
    rw [walk] at h
    split at h
    · simp at h
    · simp at h
    · split at h
      · obtain ⟨found, hmem, hlong⟩ := ih h
        exact ⟨found, List.mem_cons_of_mem _ hmem, hlong⟩
      · split at h
        next hlong => exact ⟨name, by simp, Nat.not_le.mpr hlong⟩
        next =>
          obtain ⟨found, hmem, hlong⟩ := ih h
          exact ⟨found, List.mem_cons_of_mem _ hmem, hlong⟩

/-- Only a path that is too long makes looking for it fail. -/
theorem lookFor_eq_error {t : FileTree} {p : Path} {e : OsError} (h : t.lookFor p = .error e) :
    e = .nameTooLong ∧ p.IsTooLong := by
  unfold lookFor at h
  split at h
  · simp at h
  · split at h
    · simp at h
    · rename_i hfind
      refine ⟨(Except.error.inj h).symm, ?_⟩
      by_cases hshort : p.Short
      · right
        unfold find at hfind
        rw [locate_of_short hshort] at hfind
        split at hfind
        next e' hwalk =>
          obtain rfl := Except.error.inj hfind
          exact walk_eq_nameTooLong hwalk
        next => split at hfind <;> simp at hfind
      · exact .inl hshort
    · simp at h

theorem isDir_eq_error {t : FileTree} {p : Path} {e : OsError} (h : t.isDir p = .error e) :
    e = .nameTooLong ∧ p.IsTooLong := by
  unfold isDir at h
  cases hlook : t.lookFor p with
  | ok found => simp [hlook, Except.map] at h
  | error e' =>
    rw [hlook] at h
    exact Except.error.inj h ▸ lookFor_eq_error hlook

theorem isThere_eq_error {t : FileTree} {p : Path} {e : OsError} (h : t.isThere p = .error e) :
    e = .nameTooLong ∧ p.IsTooLong := by
  unfold isThere at h
  cases hlook : t.lookFor p with
  | ok found => simp [hlook, Except.map] at h
  | error e' =>
    rw [hlook] at h
    exact Except.error.inj h ▸ lookFor_eq_error hlook

end FileTree

namespace Pattern

/-- Following components fails only where a path from the start is too long. -/
theorem select_eq_error {t : FileTree} {dirsOnly : Bool} {parts : List PatternPart} {p : Path}
    {e : OsError} (h : select t dirsOnly parts p = .error e) :
    e = .nameTooLong ∧ ∃ q, p.IsFrom q ∧ q.IsTooLong := by
  induction parts generalizing p with
  | nil => simp [select] at h
  | cons part rest ih =>
    -- whatever comes next starts further down
    have hnext (more : List Codes)
        (h : select t dirsOnly rest ⟨p.root, p.parts ++ more⟩ = .error e) :
        e = .nameTooLong ∧ ∃ q, p.IsFrom q ∧ q.IsTooLong := by
      obtain ⟨he, q, hq, hlong⟩ := ih h
      exact ⟨he, q, hq.of_append, hlong⟩
    cases part with
    | exact name =>
      -- the name is looked for as a directory or as anything
      have hlooked (look : Except OsError Bool)
          (hfails : look = .error e → e = .nameTooLong ∧ (p.child name).IsTooLong)
          (h : (look >>= fun found => if found = true then select t dirsOnly rest (p.child name)
            else pure []) = .error e) :
          e = .nameTooLong ∧ ∃ q, p.IsFrom q ∧ q.IsTooLong := by
        rcases bind_eq_error_iff.mp h with hlook | ⟨found, -, hrest⟩
        · obtain ⟨he, hlong⟩ := hfails hlook
          exact ⟨he, p.child name, ⟨rfl, List.prefix_append _ _⟩, hlong⟩
        · split at hrest
          · exact hnext [name] hrest
          · cases hrest
      rw [select] at h
      split at h
      · exact hlooked _ FileTree.isDir_eq_error h
      · exact hlooked _ FileTree.isThere_eq_error h
    | wild wildcards =>
      rw [select] at h
      split at h
      · simp at h
      · rename_i l _
        obtain ⟨c, -, hc⟩ := mapM_eq_error_iff.mp (map_eq_error_iff.mp h)
        exact hnext [c.1] hc
    | anyDepth =>
      rw [select] at h
      split at h
      · simp at h
      · obtain ⟨way, -, hway⟩ := mapM_eq_error_iff.mp (map_eq_error_iff.mp h)
        exact hnext way hway

/-- Matching fails only where a path from the base on is too long. -/
theorem matching_eq_error {pattern : Pattern} {t : FileTree} {base : Path} {e : OsError}
    (h : pattern.matching t base = .error e) :
    e = .nameTooLong ∧ ∃ q, base.IsFrom q ∧ q.IsTooLong := by
  rcases bind_eq_error_iff.mp h with hlook | ⟨found, -, hselect⟩
  · obtain ⟨he, hlong⟩ := FileTree.isDir_eq_error hlook
    exact ⟨he, base, ⟨rfl, List.prefix_refl _⟩, hlong⟩
  · split at hselect
    · exact select_eq_error hselect
    · cases hselect

/-- Two stars beside something else are the one fault of a component. -/
theorem read_part_eq_error {t : Codes} {e : PatternError} (h : PatternPart.read t = .error e) :
    e = .doubleStar := by
  unfold PatternPart.read at h
  split at h
  · simp at h
  · split at h
    · exact (Except.error.inj h).symm
    · split at h <;> simp at h

/-- A text without components is no pattern, in one way or the other as it ends with a slash. -/
theorem read_eq_empty_iff {t : Codes} {e : PatternError} (he : e = .empty ∨ e = .emptyDir) :
    read t = .error e ↔ Path.ofText t = .here ∧ (e = .emptyDir ↔ t.getLast? = some (.char '/')) := by
  have hparts (parts : List Codes) : (parts.mapM PatternPart.read).map (fun parts =>
      Pattern.mk parts (t.getLast? == some (.char '/'))) ≠ .error e := by
    intro h
    obtain ⟨part, -, hpart⟩ := mapM_eq_error_iff.mp (map_eq_error_iff.mp h)
    obtain rfl := read_part_eq_error hpart
    simp at he
  have hrooted : Except.error PatternError.rooted ≠ (.error e : Except PatternError Pattern) := by
    rcases he with rfl | rfl <;> simp
  generalize hp : Path.ofText t = p
  simp only [read, hp]
  obtain ⟨root, parts⟩ := p
  cases root with
  | none =>
    cases parts with
    | nil =>
      by_cases hlast : t.getLast? = some (.char '/') <;> rcases he with rfl | rfl <;>
        simp [hlast, Path.here]
    | cons part rest => simpa [Path.here] using hparts (part :: rest)
  | slash => simp [Path.here, hrooted]
  | doubleSlash => simp [Path.here, hrooted]

end Pattern

/-- How a pattern ends the reading of a configuration without a report. -/
inductive PatternAborts (t : FileTree) (base : Path) (pattern : Codes) : Abort → Prop where
  | empty : Path.ofText pattern = .here → pattern.getLast? ≠ some (.char '/') →
      PatternAborts t base pattern .emptyPattern
  | emptyDir : Path.ofText pattern = .here → pattern.getLast? = some (.char '/') →
      PatternAborts t base pattern .emptyDirPattern
  /-- Something that the pattern leads to is too long to be looked up. -/
  | tooLong {p : Pattern} {e : OsError} : Pattern.read pattern = .ok p →
      p.matching t base = .error e → PatternAborts t base pattern .nameTooLong

/-- A pattern aborts in the listed ways and in no others. -/
theorem expandPattern_abort_iff {t : FileTree} {base : Path} {pattern : Codes} {a : Abort} :
    expandPattern t base pattern = .error (.abort a) ↔ PatternAborts t base pattern a := by
  unfold expandPattern
  constructor
  · intro h
    cases hread : Pattern.read pattern with
    | error e =>
      simp only [hread, Except.error.injEq] at h
      cases e with
      | rooted => cases h
      | doubleStar => cases h
      | empty =>
        obtain ⟨hhere, hlast⟩ := (Pattern.read_eq_empty_iff (.inl rfl)).mp hread
        obtain rfl : Abort.emptyPattern = a := by simpa [PatternError.problem] using h
        exact .empty hhere (by simpa using hlast)
      | emptyDir =>
        obtain ⟨hhere, hlast⟩ := (Pattern.read_eq_empty_iff (.inr rfl)).mp hread
        obtain rfl : Abort.emptyDirPattern = a := by simpa [PatternError.problem] using h
        exact .emptyDir hhere (by simpa using hlast)
    | ok p =>
      simp only [hread] at h
      cases hmatch : p.matching t base with
      | ok found => simp [hmatch] at h
      | error e =>
        obtain rfl : Abort.nameTooLong = a := by simpa [hmatch] using h
        exact .tooLong hread hmatch
  · intro h
    cases h with
    | empty hhere hlast =>
      rw [(Pattern.read_eq_empty_iff (.inl rfl)).mpr ⟨hhere, by simpa using hlast⟩]
      rfl
    | emptyDir hhere hlast =>
      rw [(Pattern.read_eq_empty_iff (.inr rfl)).mpr ⟨hhere, by simpa using hlast⟩]
      rfl
    | tooLong hread hmatch => simp [hread, hmatch]

/-! ## Options -/

theorem textKeys?_eq_none_iff {entries : List (Value × Value)} :
    textKeys? entries = none ↔ ∃ entry ∈ entries, entry.1.text? = none := by
  unfold textKeys?
  induction entries with
  | nil => simp
  | cons entry entries ih =>
    rw [List.mapM_cons, List.exists_mem_cons_iff, ← ih]
    cases entry.1.text? <;> cases entries.mapM (·.1.text?) <;> simp

/-- Options abort exactly when some name among them is no text. -/
theorem readOptions_abort_iff {s : Store} {options : Value} {a : Abort} :
    readOptions s options = .error (.abort a) ↔ a = .optionName ∧ ∃ entries,
      s.look options = .map entries ∧ ∃ entry ∈ entries, entry.1.text? = none := by
  unfold readOptions
  simp only [← textKeys?_eq_none_iff]
  split
  next hlook => simp [hlook]
  next entries hlook =>
    simp only [hlook, Value.map.injEq, exists_eq_left']
    cases hkeys : textKeys? entries with
    | none => simp [eq_comm]
    | some names =>
      simp only [reduceCtorEq, and_false, iff_false]
      split
      · split
        · simp
        · split <;> simp
      · simp
  next hlook => simp_all

/-! ## Whole configurations -/

/-- A mapping with a list of entries to write. -/
structure AsksFor (s : Store) (config : Value) (entries : List (Value × Value))
    (items : List Value) : Prop where
  mapping : s.look config = .map entries
  write : (Value.entry? entries writeKey).map s.look = some (.list items)

def valueUnder (entries : List (Value × Value)) (key : Codes) : Value :=
  (Value.entry? entries key).getD .null

/-- How the reading of a configuration ends without a report: at the first check that fails, and
only at these. -/
inductive ConfigAborts (t : FileTree) (base : Path) (s : Store) (config : Value) :
    Abort → Prop where
  | unshown {entries : List (Value × Value)} {items : List Value} {entry : Value} :
      AsksFor s config entries items → FirstFailing (IsPair s) items entry →
      s.display? entry = none → ConfigAborts t base s config .impossibleScalar
  | pattern {entries : List (Value × Value)} {items : List Value} {patterns : List Codes}
      {pattern : Codes} {a : Abort} :
      AsksFor s config entries items → (∀ entry ∈ items, IsPair s entry) →
      readPatterns? s (valueUnder entries watchKey) = some patterns →
      FirstFailing (Works (expandPattern t base)) patterns pattern →
      PatternAborts t base pattern a → ConfigAborts t base s config a
  | optionName {entries options : List (Value × Value)} {items : List Value} {patterns : List Codes}
      {option : Value × Value} :
      AsksFor s config entries items → (∀ entry ∈ items, IsPair s entry) →
      readPatterns? s (valueUnder entries watchKey) = some patterns →
      (∀ pattern ∈ patterns, Works (expandPattern t base) pattern) →
      s.look (valueUnder entries optionsKey) = .map options → option ∈ options →
      option.1.text? = none → ConfigAborts t base s config .optionName

section

variable {t : FileTree} {base : Path} {s : Store} {config : Value}
  {entries : List (Value × Value)} {items : List Value} {patterns : List Codes} {a : Abort}

/-- A configuration with any result but the faults of the first two checks has passed these. -/
theorem asksFor_of_readConfig {r : Except ConfigProblem BuildConfig}
    (h : readConfig t base s config = r) (hmapping : r ≠ .error (.fault .notMapping))
    (hwrite : r ≠ .error (.fault .noWriteList)) : ∃ entries items, AsksFor s config entries items := by
  unfold readConfig at h
  split at h
  next entries hmap =>
    split at h
    next items hlist => exact ⟨entries, items, hmap, hlist⟩
    next => exact absurd h.symm hwrite
  next => exact absurd h.symm hmapping

/-- The checks behind the list of entries, one after the other. -/
theorem readConfig_of_asksFor (h : AsksFor s config entries items) :
    readConfig t base s config = readEntries s base [] items >>= fun pairs =>
      match readPatterns? s (valueUnder entries watchKey) with
      | none => .error (.fault .badWatch)
      | some patterns => expandPatterns t base patterns >>= fun watch =>
        readOptions s (valueUnder entries optionsKey) >>= fun separator =>
          .ok ⟨pairs, watch, separator⟩ := by
  simp only [readConfig, h.mapping, h.write]
  rfl

/-- A configuration is accepted when each of the checks is passed. -/
theorem readConfig_eq_ok_iff {c : BuildConfig} : readConfig t base s config = .ok c ↔
    ∃ entries items patterns, AsksFor s config entries items ∧
      readEntries s base [] items = .ok c.pairs ∧
      readPatterns? s (valueUnder entries watchKey) = some patterns ∧
      expandPatterns t base patterns = .ok c.watch ∧
      readOptions s (valueUnder entries optionsKey) = .ok c.separator := by
  constructor
  · intro h
    obtain ⟨entries, items, hasks⟩ := asksFor_of_readConfig h (by simp) (by simp)
    rw [readConfig_of_asksFor hasks] at h
    obtain ⟨pairs, hpairs, h⟩ := bind_eq_ok_iff.mp h
    cases hwatch : readPatterns? s (valueUnder entries watchKey) with
    | none => simp [hwatch] at h
    | some patterns =>
      simp only [hwatch] at h
      obtain ⟨watch, hexpand, h⟩ := bind_eq_ok_iff.mp h
      obtain ⟨separator, hoptions, h⟩ := bind_eq_ok_iff.mp h
      obtain rfl := Except.ok.inj h
      exact ⟨entries, items, patterns, hasks, hpairs, hwatch, hexpand, hoptions⟩
  · rintro ⟨entries, items, patterns, hasks, hpairs, hwatch, hexpand, hoptions⟩
    rw [readConfig_of_asksFor hasks, hpairs, hwatch]
    change expandPatterns t base _ >>= _ = _
    rw [hexpand]
    change readOptions s _ >>= _ = _
    rw [hoptions]
    rfl

/-- Of several patterns, the first that has no result decides. -/
theorem expandPatterns_abort_iff : expandPatterns t base patterns = .error (.abort a) ↔
    ∃ pattern, FirstFailing (Works (expandPattern t base)) patterns pattern ∧
      PatternAborts t base pattern a := by
  rw [expandPatterns, map_eq_error_iff, mapM_eq_error_iff]
  simp only [expandPattern_abort_iff]

theorem expandPatterns_works_iff : (∃ watch, expandPatterns t base patterns = .ok watch) ↔
    ∀ pattern ∈ patterns, Works (expandPattern t base) pattern := by
  rw [expandPatterns, ← mapM_works_iff]
  cases patterns.mapM (expandPattern t base) <;> simp [Except.map]

/-- Every abort comes from the first check that fails. -/
theorem configAborts_of_readConfig (h : readConfig t base s config = .error (.abort a)) :
    ConfigAborts t base s config a := by
  obtain ⟨entries, items, hasks⟩ := asksFor_of_readConfig h (by simp) (by simp)
  rw [readConfig_of_asksFor hasks] at h
  rcases bind_eq_error_iff.mp h with hentries | ⟨pairs, hentries, h⟩
  · obtain ⟨entry, hfirst, hproblem⟩ := readEntries_eq_error_iff.mp hentries
    obtain ⟨rfl, hshown⟩ := entryProblem_eq_abort_iff.mp hproblem
    exact .unshown hasks hfirst hshown
  have hpairs := readEntries_eq_ok_iff.mp ⟨pairs, hentries⟩
  cases hwatch : readPatterns? s (valueUnder entries watchKey) with
  | none => simp [hwatch] at h
  | some patterns =>
    simp only [hwatch] at h
    rcases bind_eq_error_iff.mp h with hexpand | ⟨watch, hexpand, h⟩
    · obtain ⟨pattern, hfirst, haborts⟩ := expandPatterns_abort_iff.mp hexpand
      exact .pattern hasks hpairs hwatch hfirst haborts
    have hworks := expandPatterns_works_iff.mp ⟨watch, hexpand⟩
    rcases bind_eq_error_iff.mp h with hoptions | ⟨separator, -, h⟩
    · obtain ⟨rfl, options, hlook, option, hmem, hname⟩ := readOptions_abort_iff.mp hoptions
      exact .optionName hasks hpairs hwatch hworks hlook hmem hname
    · cases h

/-- The first check that fails aborts the reading if it is one of those listed. -/
theorem readConfig_of_configAborts (h : ConfigAborts t base s config a) :
    readConfig t base s config = .error (.abort a) := by
  cases h with
  | unshown hasks hfirst hshown =>
    rw [readConfig_of_asksFor hasks, readEntries_eq_error_iff.mpr
      ⟨_, hfirst, entryProblem_eq_abort_iff.mpr ⟨rfl, hshown⟩⟩]
    rfl
  | pattern hasks hpairs hwatch hfirst haborts =>
    obtain ⟨pairs, hentries⟩ := readEntries_eq_ok_iff.mpr hpairs
    rw [readConfig_of_asksFor hasks, hentries, hwatch]
    change expandPatterns t base _ >>= _ = _
    rw [expandPatterns_abort_iff.mpr ⟨_, hfirst, haborts⟩]
    rfl
  | optionName hasks hpairs hwatch hworks hlook hmem hname =>
    obtain ⟨pairs, hentries⟩ := readEntries_eq_ok_iff.mpr hpairs
    obtain ⟨watch, hexpand⟩ := expandPatterns_works_iff.mpr hworks
    rw [readConfig_of_asksFor hasks, hentries, hwatch]
    change expandPatterns t base _ >>= _ = _
    rw [hexpand]
    change readOptions s _ >>= _ = _
    rw [readOptions_abort_iff.mpr ⟨rfl, _, hlook, _, hmem, hname⟩]
    rfl

end

end IndentMarkup
