import IndentMarkup.Proofs.ConfigAborts
import IndentMarkup.Proofs.InsertionOrder
import Mathlib.Algebra.Group.Int.Defs
import Mathlib.Algebra.Group.Nat.Defs
import Mathlib.Data.Char
import Mathlib.Data.List.Lex
import Mathlib.Data.List.Sort

/-!
# What a configuration has to be

A configuration is accepted when it meets seven requirements. They are said here of the values under
its keys, without the order in which they are read. Of a configuration that does not meet them all,
the report is on the first requirement that it misses. One report cannot be written: that on an
entry to write which holds an integer of too many digits.
-/
namespace IndentMarkup

/-! ## The order of code points -/

theorem Code.toNat_injective : Function.Injective Code.toNat := by
  intro c d h
  -- no character has the number of half a pair
  have hother (c : Char) (n : Fin 0x800) : c.toNat ≠ 0xD800 + n.val := by
    have hvalid : c.toNat < 0xD800 ∨ 0xDFFF < c.toNat ∧ c.toNat < 0x110000 := c.valid
    omega
  cases c with
  | char c =>
    cases d with
    | char d => rw [Char.toNat_inj.mp h]
    | half n => exact absurd h (hother c n)
  | half m =>
    cases d with
    | char d => exact absurd h.symm (hother d m)
    | half n => rw [Fin.ext (Nat.add_left_cancel h)]

instance : LinearOrder Code := .lift' Code.toNat Code.toNat_injective

/-- Lists of code points are sorted in their lexicographic order. -/
theorem Codes.lt_iff (s t : Codes) : Codes.lt s t = true ↔ s < t := by
  induction s generalizing t with
  | nil => cases t <;> simp [Codes.lt]
  | cons c s ih =>
    cases t with
    | nil => simp [Codes.lt]
    | cons d t =>
      simp only [Codes.lt, Bool.or_eq_true, decide_eq_true_eq, Bool.and_eq_true, beq_iff_eq, ih,
        List.cons_lt_cons_iff]
      rfl

/-- Sorting puts texts in the order of their code points, and there is one such order. -/
theorem Codes.eq_sort_iff {names sorted : List Codes} :
    sorted = Codes.sort names ↔ sorted.Pairwise (· ≤ ·) ∧ sorted.Perm names := by
  have hle : (fun s t : Codes => !Codes.lt t s) = fun s t => decide (s ≤ t) := by
    funext s t
    rw [Bool.eq_iff_iff, Bool.not_eq_true', ← Bool.not_eq_true, Codes.lt_iff, decide_eq_true_eq]
    exact not_lt
  have hsorted : (Codes.sort names).Pairwise (· ≤ ·) := by
    rw [Codes.sort, hle]
    exact List.pairwise_mergeSort' (· ≤ ·) names
  have hperm : (Codes.sort names).Perm names := List.mergeSort_perm names _
  constructor
  · rintro rfl
    exact ⟨hsorted, hperm⟩
  · rintro ⟨hs, hp⟩
    exact (hp.trans hperm.symm).eq_of_pairwise' hs hsorted

/-- The integers that are too large to be shown. -/
theorem Value.isTooLarge_iff {n : Int} : IsTooLarge n ↔ 10 ^ 4300 ≤ n.natAbs := by
  have hdigits (k : Nat) (hk : 0 < k) : (Text.ofNat n.natAbs).length ≤ k ↔ n.natAbs < 10 ^ k :=
    Nat.length_toDigits_le_iff (by decide) hk
  rw [IsTooLarge, ← not_le, Numeral.digitLimit, hdigits 4300 (by decide), not_lt]

/-! ## Parts of a configuration -/

/-- A list has at most one first item that fails. -/
theorem FirstFailing.unique {α : Type} {good : α → Prop} {items : List α} {x y : α}
    (hx : FirstFailing good items x) (hy : FirstFailing good items y) : x = y := by
  induction items with
  | nil => exact absurd hx not_firstFailing_nil
  | cons z items ih =>
    by_cases hz : good z
    · rw [firstFailing_cons_of_good hz] at hx hy
      exact ih hx hy
    · rw [firstFailing_cons_of_not hz] at hx hy
      rw [hx, hy]

/-- The value under a key of a configuration, if it is a mapping that has the key. -/
def Store.under? (s : Store) (config : Value) (key : Codes) : Option Value :=
  match s.look config with
  | .map entries => (Value.entry? entries key).map s.look
  | _ => none

theorem Store.under?_of_mapping {s : Store} {config : Value} {entries : List (Value × Value)}
    (h : s.look config = .map entries) (key : Codes) :
    s.under? config key = (Value.entry? entries key).map s.look := by
  simp only [under?, h]

theorem look_valueUnder {s : Store} {config : Value} {entries : List (Value × Value)}
    (h : s.look config = .map entries) (key : Codes) :
    s.look (valueUnder entries key) = (s.under? config key).getD .null := by
  rw [Store.under?_of_mapping h, valueUnder]
  cases Value.entry? entries key <;> rfl

theorem under?_eq_list_iff {s : Store} {config : Value} {entries : List (Value × Value)}
    (h : s.look config = .map entries) {key : Codes} {items : List Value} :
    s.under? config key = some (.list items) ↔ s.look (valueUnder entries key) = .list items := by
  rw [look_valueUnder h]
  cases s.under? config key <;> simp

theorem asksFor_iff {s : Store} {config : Value} {entries : List (Value × Value)}
    {items : List Value} : AsksFor s config entries items ↔
      s.look config = .map entries ∧ s.under? config writeKey = some (.list items) := by
  constructor
  · intro h
    exact ⟨h.mapping, (Store.under?_of_mapping h.mapping writeKey).trans h.write⟩
  · rintro ⟨hmap, hwrite⟩
    exact ⟨hmap, (Store.under?_of_mapping hmap writeKey).symm.trans hwrite⟩

/-- The values that stand for no patterns. -/
inductive Value.CountsAsNothing : Value → Prop where
  | null : CountsAsNothing .null
  | no : CountsAsNothing (.bool false)
  | zero : CountsAsNothing (.int 0)
  | floatingZero (negative : Bool) (exponent : Int) :
      CountsAsNothing (.float (.finite negative 0 exponent))
  | text : CountsAsNothing (.text [])
  | bytes : CountsAsNothing (.bytes [])
  | list : CountsAsNothing (.list [])
  | tuple : CountsAsNothing (.tuple [])
  | map : CountsAsNothing (.map [])
  | set : CountsAsNothing (.set [])

theorem Value.isEmpty_iff (v : Value) : v.isEmpty = true ↔ v.CountsAsNothing := by
  constructor
  · intro h
    cases v with
    | null => exact .null
    | bool b =>
      obtain rfl : b = false := by simpa [isEmpty] using h
      exact .no
    | int n =>
      obtain rfl : n = 0 := by simpa [isEmpty] using h
      exact .zero
    | float x =>
      cases x with
      | finite negative m exponent =>
        cases m with
        | zero => exact .floatingZero negative exponent
        | succ m => simp [isEmpty, Binary64.isZero] at h
      | nan => simp [isEmpty, Binary64.isZero] at h
      | infinite negative => simp [isEmpty, Binary64.isZero] at h
    | text t =>
      obtain rfl : t = [] := by simpa [isEmpty] using h
      exact .text
    | bytes b =>
      obtain rfl : b = [] := by simpa [isEmpty] using h
      exact .bytes
    | list items =>
      obtain rfl : items = [] := by simpa [isEmpty] using h
      exact .list
    | tuple items =>
      obtain rfl : items = [] := by simpa [isEmpty] using h
      exact .tuple
    | map entries =>
      obtain rfl : entries = [] := by simpa [isEmpty] using h
      exact .map
    | set items =>
      obtain rfl : items = [] := by simpa [isEmpty] using h
      exact .set
    | notNumber mark => simp [isEmpty] at h
    | date d => simp [isEmpty] at h
    | timestamp t => simp [isEmpty] at h
    | stored number => simp [isEmpty] at h
  · intro h
    cases h <;> rfl

def unknownNames (options : List (Value × Value)) : List Codes :=
  (options.filterMap (·.1.text?)).filter (· != separatorKey)

/-! ## Requirements -/

/-- What is asked of a configuration. -/
inductive Requirement where
  | mapping | writeList | entries | patterns | options | optionNames | separator

namespace Requirement

/-- The order in which a report is made. -/
def inOrder : List Requirement :=
  [.mapping, .writeList, .entries, .patterns, .options, .optionNames, .separator]

/-- A configuration meets a requirement; one about a part that is missing or of another form is
met. -/
def Holds (s : Store) (config : Value) : Requirement → Prop
  | .mapping => ∃ entries, s.look config = .map entries
  | .writeList => ∃ items, s.under? config writeKey = some (.list items)
  | .entries => ∀ items, s.under? config writeKey = some (.list items) →
    ∀ entry ∈ items, IsPair s entry
  | .patterns => ∀ v, s.under? config watchKey = some v →
    v.CountsAsNothing ∨ ∃ items, v = .list items ∧ ∀ item ∈ items, item.IsPathText
  | .options => ∀ v, s.under? config optionsKey = some v → v = .null ∨ ∃ options, v = .map options
  | .optionNames => ∀ options, s.under? config optionsKey = some (.map options) →
    ∀ option ∈ options, option.1.text? = some separatorKey
  | .separator => ∀ options, s.under? config optionsKey = some (.map options) →
    ∀ v, Value.entry? options separatorKey = some v → ∃ t, v.text? = some t

/-- The wording of the report on a requirement that is not met. -/
def Reports (s : Store) (config : Value) : Requirement → Codes → Prop
  | .mapping, t => t = "Build config must be a mapping."
  | .writeList, t => t = "Build config needs a 'write' list of \x7bsrc, dst\x7d entries."
  | .entries, t => ∃ items entry shown, s.under? config writeKey = some (.list items) ∧
    FirstFailing (IsPair s) items entry ∧ s.display? entry = some shown ∧
    t = "Invalid 'write' entry: " ++ shown ++ ". Expected 'src' and 'dst' paths."
  | .patterns, t => t = "'watch' must be a list of glob patterns."
  | .options, t => t = "'options' must be a mapping."
  | .optionNames, t => ∃ options, ∃ names : List Codes,
    s.under? config optionsKey = some (.map options) ∧ names.Pairwise (· ≤ ·) ∧
    names.Perm (unknownNames options) ∧
    t = "Unknown compiler option(s): " ++ [.char ',', .char ' '].intercalate names ++ "."
  | .separator, t => t = "Compiler option 'text_separator' must be a string."

end Requirement

section

variable {t : FileTree} {base : Path} {s : Store} {config : Value}

/-! ## Patterns and options -/

theorem mapM_eq_some_iff_filterMap {α β : Type} {f : α → Option β} {items : List α} {rs : List β} :
    items.mapM f = some rs ↔ (∀ x ∈ items, ∃ r, f x = some r) ∧ rs = items.filterMap f := by
  induction items generalizing rs with
  | nil => simp [eq_comm]
  | cons x items ih =>
    rw [List.mapM_cons, List.forall_mem_cons, List.filterMap_cons]
    simp only [bind, Option.bind_eq_some_iff, pure, Option.some.injEq, ih]
    cases f x with
    | none => simp
    | some r =>
      simp only [Option.some.injEq, exists_eq_left', exists_eq', true_and]
      constructor
      · rintro ⟨_, ⟨hall, rfl⟩, rfl⟩
        exact ⟨hall, rfl⟩
      · rintro ⟨hall, rfl⟩
        exact ⟨_, ⟨hall, rfl⟩, rfl⟩

/-- Watch patterns can be read when the requirement on them is met. -/
theorem readPatterns?_eq_some_iff {v : Value} {patterns : List Codes} :
    readPatterns? s v = some patterns ↔
      (s.look v).CountsAsNothing ∧ patterns = [] ∨
      ∃ items, s.look v = .list items ∧ (∀ item ∈ items, item.IsPathText) ∧
        patterns = items.filterMap pathText? := by
  simp only [readPatterns?, ← Value.isEmpty_iff]
  split
  next hempty =>
    -- an empty list has no patterns either way
    constructor
    · intro h
      exact .inl ⟨hempty, (Option.some.inj h).symm⟩
    · rintro (⟨-, rfl⟩ | ⟨items, hitems, -, rfl⟩)
      · rfl
      · rw [hitems] at hempty
        obtain rfl : items = [] := by simpa [Value.isEmpty] using hempty
        rfl
  next hfull =>
    have hnothing : ¬((s.look v).isEmpty = true ∧ patterns = []) := fun h => hfull h.1
    rw [or_iff_right hnothing]
    simp only [← pathText?_isSome_iff, ← mapM_eq_some_iff_filterMap]
    split
    next items hitems => simp [hitems]
    next hother =>
      simp only [reduceCtorEq, false_iff]
      rintro ⟨items, hitems, -⟩
      exact hother items hitems

/-- Nothing is unknown exactly when the separator is all that is set. -/
theorem unknownNames_eq_nil_iff {options : List (Value × Value)}
    (h : ∀ option ∈ options, ∃ name, option.1.text? = some name) :
    unknownNames options = [] ↔ ∀ option ∈ options, option.1.text? = some separatorKey := by
  simp only [unknownNames, List.filter_eq_nil_iff, List.mem_filterMap, bne_iff_ne, ne_eq, not_not,
    forall_exists_index, and_imp]
  constructor
  · intro hall option hmem
    obtain ⟨name, hname⟩ := h option hmem
    rw [hname, hall name option hmem hname]
  · intro hall name option hmem hname
    rw [hall option hmem] at hname
    exact (Option.some.inj hname).symm

section

variable {v : Value} {options : List (Value × Value)}

theorem textKeys?_of_names (h : ∀ option ∈ options, ∃ name, option.1.text? = some name) :
    textKeys? options = some (options.filterMap (·.1.text?)) :=
  mapM_eq_some_iff_filterMap.mpr ⟨h, rfl⟩

/-- All unknown names are reported at once, in their order. -/
theorem readOptions_of_unknown (hlook : s.look v = .map options)
    (h : ∀ option ∈ options, ∃ name, option.1.text? = some name)
    (hnames : unknownNames options ≠ []) :
    readOptions s v = .error (.fault (.unknownOptions (Codes.sort (unknownNames options)))) := by
  simp only [readOptions, hlook, textKeys?_of_names h]
  split
  next hnil => exact absurd hnil hnames
  next => rfl

/-- With no unknown names the separator alone decides. -/
theorem readOptions_of_known (hlook : s.look v = .map options)
    (h : ∀ option ∈ options, option.1.text? = some separatorKey) :
    readOptions s v =
      match Value.entry? options separatorKey with
      | none => .ok defaultSeparator
      | some v =>
        match v.text? with
        | none => .error (.fault (.optionNotText separatorKey))
        | some t => .ok t := by
  have hnames : ∀ option ∈ options, ∃ name, option.1.text? = some name :=
    fun option hmem => ⟨separatorKey, h option hmem⟩
  have hnil := (unknownNames_eq_nil_iff hnames).mpr h
  simp only [readOptions, hlook, textKeys?_of_names hnames]
  split
  next => rfl
  next hother => exact absurd hnil hother

end

/-! ## The first requirement that is missed -/

/-- The reading ends with the report on the first requirement that is missed. -/
structure EndsWith (t : FileTree) (base : Path) (s : Store) (config : Value) (r : Requirement)
    (f : ConfigFault) : Prop where
  read : readConfig t base s config = .error (.fault f)
  first : FirstFailing (Requirement.Holds s config) Requirement.inOrder r
  report : ∀ detail, r.Reports s config detail ↔ detail = f.detail

theorem endsWith_notMapping (h : ¬Requirement.mapping.Holds s config) :
    EndsWith t base s config .mapping .notMapping := by
  refine ⟨?_, (firstFailing_cons_of_not h).mpr rfl, fun _ => Iff.rfl⟩
  unfold readConfig
  split
  next entries hmap => exact absurd ⟨entries, hmap⟩ h
  next => rfl

theorem endsWith_noWriteList (hmap : Requirement.mapping.Holds s config)
    (h : ¬Requirement.writeList.Holds s config) :
    EndsWith t base s config .writeList .noWriteList := by
  refine ⟨?_, ?_, fun _ => Iff.rfl⟩
  · obtain ⟨entries, hmap⟩ := hmap
    simp only [Requirement.Holds, Store.under?_of_mapping hmap] at h
    simp only [readConfig, hmap]
    split
    next items hwrite => exact absurd ⟨items, hwrite⟩ h
    next => rfl
  · rw [Requirement.inOrder, firstFailing_cons_of_good hmap, firstFailing_cons_of_not h]

section

variable {entries : List (Value × Value)} {items : List Value}

theorem AsksFor.under? (h : AsksFor s config entries items) :
    s.under? config writeKey = some (.list items) := (asksFor_iff.mp h).2

theorem AsksFor.met (h : AsksFor s config entries items) :
    Requirement.mapping.Holds s config ∧ Requirement.writeList.Holds s config :=
  ⟨⟨entries, h.mapping⟩, items, h.under?⟩

theorem AsksFor.entries_iff (h : AsksFor s config entries items) :
    Requirement.entries.Holds s config ↔ ∀ entry ∈ items, IsPair s entry := by
  constructor
  · exact fun hall => hall items h.under?
  · intro hall items' hwrite
    obtain rfl : items' = items := by simpa [h.under?] using hwrite.symm
    exact hall

/-- An entry that is no pair is reported ahead of patterns and options. -/
theorem AsksFor.first_entries {entry : Value} (h : AsksFor s config entries items)
    (hfirst : FirstFailing (IsPair s) items entry) :
    FirstFailing (Requirement.Holds s config) Requirement.inOrder .entries := by
  have hbad : ¬Requirement.entries.Holds s config := by
    rw [h.entries_iff]
    obtain ⟨done, rest, rfl, -, hbad⟩ := hfirst
    exact fun hall => hbad (hall entry (by simp))
  rw [Requirement.inOrder, firstFailing_cons_of_good h.met.1, firstFailing_cons_of_good h.met.2,
    firstFailing_cons_of_not hbad]

/-- An entry that is no pair is reported on if it can be shown. -/
theorem endsWith_badEntry {entry : Value} {shown : Text} (h : AsksFor s config entries items)
    (hfirst : FirstFailing (IsPair s) items entry) (hshown : s.display? entry = some shown) :
    EndsWith t base s config .entries (.badEntry shown) := by
  refine ⟨?_, h.first_entries hfirst, ?_⟩
  · rw [readConfig_of_asksFor h, readEntries_eq_error_iff.mpr ⟨entry, hfirst, rfl⟩, entryProblem,
      hshown]
    rfl
  · intro detail
    constructor
    · rintro ⟨items', entry', shown', hwrite, hfirst', hshown', rfl⟩
      obtain rfl : items' = items := by simpa [h.under?] using hwrite.symm
      obtain rfl := hfirst'.unique hfirst
      obtain rfl : shown' = shown := by simpa [hshown] using hshown'.symm
      rfl
    · rintro rfl
      exact ⟨items, entry, shown, h.under?, hfirst, hshown, rfl⟩

theorem patterns_iff (hmap : s.look config = .map entries) :
    Requirement.patterns.Holds s config ↔
      ∃ patterns, readPatterns? s (valueUnder entries watchKey) = some patterns := by
  simp only [readPatterns?_eq_some_iff, look_valueUnder hmap, Requirement.Holds]
  cases s.under? config watchKey with
  | none => simp [Value.CountsAsNothing.null]
  | some v =>
    simp only [Option.some.injEq, forall_eq', Option.getD_some]
    constructor
    · rintro (hnothing | ⟨list, rfl, hall⟩)
      · exact ⟨[], .inl ⟨hnothing, rfl⟩⟩
      · exact ⟨_, .inr ⟨list, rfl, hall, rfl⟩⟩
    · rintro ⟨patterns, ⟨hnothing, -⟩ | ⟨list, hlist, hall, -⟩⟩
      · exact .inl hnothing
      · exact .inr ⟨list, hlist, hall⟩

theorem endsWith_badWatch (h : AsksFor s config entries items)
    (hpairs : Requirement.entries.Holds s config) (hbad : ¬Requirement.patterns.Holds s config) :
    EndsWith t base s config .patterns .badWatch := by
  refine ⟨?_, ?_, fun _ => Iff.rfl⟩
  · have hnone : readPatterns? s (valueUnder entries watchKey) = none := by
      rw [patterns_iff h.mapping, not_exists] at hbad
      exact Option.eq_none_iff_forall_ne_some.mpr hbad
    obtain ⟨pairs, hread⟩ := readEntries_eq_ok_iff.mpr (h.entries_iff.mp hpairs)
    rw [readConfig_of_asksFor h, hread, hnone]
    rfl
  · rw [Requirement.inOrder, firstFailing_cons_of_good h.met.1, firstFailing_cons_of_good h.met.2,
      firstFailing_cons_of_good hpairs, firstFailing_cons_of_not hbad]

/-- All checks up to the options are passed. -/
structure ReachesOptions (t : FileTree) (base : Path) (s : Store) (config : Value)
    (entries : List (Value × Value)) : Prop where
  asks : ∃ items, AsksFor s config entries items
  pairs : Requirement.entries.Holds s config
  patterns : Requirement.patterns.Holds s config
  watch : ∀ patterns, readPatterns? s (valueUnder entries watchKey) = some patterns →
    ∃ watch, expandPatterns t base patterns = .ok watch

namespace ReachesOptions

variable {options : List (Value × Value)}

theorem mapping (h : ReachesOptions t base s config entries) : s.look config = .map entries := by
  obtain ⟨items, hasks⟩ := h.asks
  exact hasks.mapping

/-- Past the patterns, the outcome is that of the options. -/
theorem read_eq (h : ReachesOptions t base s config entries) :
    ∃ pairs watch, readConfig t base s config =
      (readOptions s (valueUnder entries optionsKey)).map fun separator =>
        ⟨pairs, watch, separator⟩ := by
  obtain ⟨items, hasks⟩ := h.asks
  obtain ⟨pairs, hpairs⟩ := readEntries_eq_ok_iff.mpr (hasks.entries_iff.mp h.pairs)
  obtain ⟨patterns, hpatterns⟩ := (patterns_iff hasks.mapping).mp h.patterns
  obtain ⟨watch, hwatch⟩ := h.watch patterns hpatterns
  refine ⟨pairs, watch, ?_⟩
  rw [readConfig_of_asksFor hasks, hpairs, hpatterns]
  change expandPatterns t base patterns >>= _ = _
  rw [hwatch]
  change readOptions s _ >>= _ = _
  cases readOptions s (valueUnder entries optionsKey) <;> rfl

theorem read_error (h : ReachesOptions t base s config entries) {e : ConfigProblem}
    (ho : readOptions s (valueUnder entries optionsKey) = .error e) :
    readConfig t base s config = .error e := by
  obtain ⟨pairs, watch, hread⟩ := h.read_eq
  rw [hread, ho]
  rfl

/-- Past the patterns, the first requirement that is missed is one about the options. -/
theorem first_iff (h : ReachesOptions t base s config entries) {r : Requirement} :
    FirstFailing (Requirement.Holds s config) Requirement.inOrder r ↔
      FirstFailing (Requirement.Holds s config) [.options, .optionNames, .separator] r := by
  obtain ⟨items, hasks⟩ := h.asks
  rw [Requirement.inOrder, firstFailing_cons_of_good hasks.met.1,
    firstFailing_cons_of_good hasks.met.2, firstFailing_cons_of_good h.pairs,
    firstFailing_cons_of_good h.patterns]

theorem look_options (h : ReachesOptions t base s config entries) {v : Value}
    (hv : s.under? config optionsKey = some v) : s.look (valueUnder entries optionsKey) = v := by
  rw [look_valueUnder h.mapping, hv]
  rfl

theorem endsWith_notMapping (h : ReachesOptions t base s config entries)
    (hbad : ¬Requirement.options.Holds s config) :
    EndsWith t base s config .options .optionsNotMapping := by
  refine ⟨h.read_error ?_, h.first_iff.mpr ((firstFailing_cons_of_not hbad).mpr rfl),
    fun _ => Iff.rfl⟩
  simp only [Requirement.Holds, not_forall, not_or] at hbad
  obtain ⟨v, hv, hnull, hmap⟩ := hbad
  unfold readOptions
  rw [h.look_options hv]
  split
  next => exact absurd rfl hnull
  next options => exact absurd ⟨options, rfl⟩ hmap
  next => rfl

/-- Unknown names are reported as long as all names are texts. -/
theorem endsWith_unknown (h : ReachesOptions t base s config entries)
    (ho : Requirement.options.Holds s config)
    (hnames : ∀ options, s.under? config optionsKey = some (.map options) →
      ∀ option ∈ options, ∃ name, option.1.text? = some name)
    (hbad : ¬Requirement.optionNames.Holds s config) :
    ∃ f, EndsWith t base s config .optionNames f := by
  have hfirst : FirstFailing (Requirement.Holds s config) [.optionNames, .separator]
      .optionNames := (firstFailing_cons_of_not hbad).mpr rfl
  have hfound : ∃ options, s.under? config optionsKey = some (.map options) ∧
      unknownNames options ≠ [] := by
    by_contra hnone
    apply hbad
    intro options hmap
    rw [← unknownNames_eq_nil_iff (hnames options hmap)]
    by_contra hne
    exact hnone ⟨options, hmap, hne⟩
  obtain ⟨options, hmap, hunknown⟩ := hfound
  refine ⟨_, h.read_error (readOptions_of_unknown (h.look_options hmap) (hnames options hmap)
    hunknown), h.first_iff.mpr ((firstFailing_cons_of_good ho).mpr hfirst), ?_⟩
  intro detail
  constructor
  · rintro ⟨options', names, hmap', hsorted, hperm, rfl⟩
    obtain rfl : options' = options := by simpa [hmap] using hmap'.symm
    rw [Codes.eq_sort_iff.mpr ⟨hsorted, hperm⟩]
    rfl
  · rintro rfl
    obtain ⟨hsorted, hperm⟩ := Codes.eq_sort_iff.mp (Eq.refl (Codes.sort (unknownNames options)))
    exact ⟨options, _, hmap, hsorted, hperm, rfl⟩

theorem endsWith_notText (h : ReachesOptions t base s config entries)
    (ho : Requirement.options.Holds s config) (hn : Requirement.optionNames.Holds s config)
    (hbad : ¬Requirement.separator.Holds s config) :
    EndsWith t base s config .separator (.optionNotText separatorKey) := by
  refine ⟨h.read_error ?_, ?_, fun _ => Iff.rfl⟩
  · simp only [Requirement.Holds, not_forall] at hbad
    obtain ⟨options, hmap, v, hv, hnot⟩ := hbad
    have hnone : v.text? = none := Option.eq_none_iff_forall_ne_some.mpr (not_exists.mp hnot)
    rw [readOptions_of_known (h.look_options hmap) (hn options hmap), hv]
    simp only [hnone]
  · rw [h.first_iff, firstFailing_cons_of_good ho, firstFailing_cons_of_good hn,
      firstFailing_cons_of_not hbad]

theorem accepted (h : ReachesOptions t base s config entries)
    (ho : Requirement.options.Holds s config) (hn : Requirement.optionNames.Holds s config)
    (hs : Requirement.separator.Holds s config) : ∃ c, readConfig t base s config = .ok c := by
  have hworks : ∃ separator, readOptions s (valueUnder entries optionsKey) = .ok separator := by
    have hnull (hlook : s.look (valueUnder entries optionsKey) = .null) :
        readOptions s (valueUnder entries optionsKey) = .ok defaultSeparator := by
      simp only [readOptions, hlook]
    cases hv : s.under? config optionsKey with
    | none => exact ⟨_, hnull (by rw [look_valueUnder h.mapping, hv]; rfl)⟩
    | some v =>
      obtain rfl | ⟨options, rfl⟩ := ho v hv
      · exact ⟨_, hnull (h.look_options hv)⟩
      · rw [readOptions_of_known (h.look_options hv) (hn options hv)]
        cases hentry : Value.entry? options separatorKey with
        | none => exact ⟨_, rfl⟩
        | some value =>
          obtain ⟨t, ht⟩ := hs options hv value hentry
          exact ⟨t, by simp only [ht]⟩
  obtain ⟨separator, hseparator⟩ := hworks
  obtain ⟨pairs, watch, hread⟩ := h.read_eq
  exact ⟨_, by rw [hread, hseparator]; rfl⟩

end ReachesOptions

end

/-! ## Accepted configurations -/

/-- What the separator of an accepted configuration is. -/
def IsSeparator (s : Store) (config : Value) (separator : Codes) : Prop :=
  (∃ options v, s.under? config optionsKey = some (.map options) ∧
    Value.entry? options separatorKey = some v ∧ v.text? = some separator) ∨
  (∀ options, s.under? config optionsKey = some (.map options) →
    Value.entry? options separatorKey = none) ∧ separator = [.char ' ']

/-- A pattern to watch matches the path. -/
def IsMatch (t : FileTree) (base : Path) (s : Store) (config : Value) (p : Path) : Prop :=
  ∃ items item pattern found, s.under? config watchKey = some (.list items) ∧ item ∈ items ∧
    item.text? = some pattern ∧ expandPattern t base pattern = .ok found ∧ p ∈ found

theorem isSeparator_of_readOptions {entries : List (Value × Value)} {separator : Codes}
    (hmap : s.look config = .map entries)
    (h : readOptions s (valueUnder entries optionsKey) = .ok separator) :
    IsSeparator s config separator := by
  have hlook := look_valueUnder hmap optionsKey
  unfold readOptions at h
  split at h
  next hnull =>
    obtain rfl := Except.ok.inj h
    refine .inr ⟨?_, rfl⟩
    intro options hv
    simp [hnull, hv] at hlook
  next options hmap' =>
    have hv : s.under? config optionsKey = some (.map options) := by
      cases hv : s.under? config optionsKey with
      | none => simp [hmap', hv] at hlook
      | some v => simpa [hmap', hv] using hlook.symm
    split at h
    · cases h
    · split at h
      · split at h
        next hentry =>
          obtain rfl := Except.ok.inj h
          refine .inr ⟨?_, rfl⟩
          intro options' hv'
          obtain rfl : options' = options := by simpa [hv] using hv'.symm
          exact hentry
        next v hentry =>
          split at h
          · cases h
          next t ht =>
            obtain rfl := Except.ok.inj h
            exact .inl ⟨options, v, hv, hentry, ht⟩
      · cases h
  next => cases h

theorem mem_flatten_of_mapM {α β ε : Type} {f : α → Except ε (List β)} {items : List α}
    {rs : List (List β)} (h : items.mapM f = .ok rs) (y : β) :
    y ∈ rs.flatten ↔ ∃ x ∈ items, ∃ r, f x = .ok r ∧ y ∈ r := by
  induction items generalizing rs with
  | nil =>
    obtain rfl : rs = [] := by simpa [pure, Except.pure, eq_comm] using h
    simp
  | cons x items ih =>
    rw [List.mapM_cons] at h
    obtain ⟨r, hr, h⟩ := bind_eq_ok_iff.mp h
    obtain ⟨others, hothers, h⟩ := bind_eq_ok_iff.mp h
    obtain rfl := Except.ok.inj h
    simp [hr, ih hothers]

/-- A path is a match when one of the patterns that are read expands to it. -/
theorem isMatch_iff {entries : List (Value × Value)} {patterns : List Codes}
    (hmap : s.look config = .map entries)
    (hpatterns : readPatterns? s (valueUnder entries watchKey) = some patterns) (p : Path) :
    IsMatch t base s config p ↔
      ∃ pattern ∈ patterns, ∃ found, expandPattern t base pattern = .ok found ∧ p ∈ found := by
  simp only [IsMatch, under?_eq_list_iff hmap]
  obtain ⟨hnothing, rfl⟩ | ⟨items, hitems, hall, rfl⟩ := readPatterns?_eq_some_iff.mp hpatterns
  · simp only [List.not_mem_nil, false_and, exists_false, iff_false]
    rintro ⟨items, item, pattern, found, hitems, hmem, -⟩
    rw [hitems] at hnothing
    cases hnothing
    simp at hmem
  · -- every item of an accepted list is a pattern
    have hsame : ∀ item ∈ items, pathText? item = item.text? := by
      intro item hmem
      obtain ⟨pattern, htext, hfull⟩ := hall item hmem
      simp [pathText?, htext, hfull]
    simp only [List.mem_filterMap, hitems, Value.list.injEq]
    constructor
    · rintro ⟨_, item, pattern, found, rfl, hmem, htext, hfound⟩
      exact ⟨pattern, ⟨item, hmem, (hsame item hmem).trans htext⟩, found, hfound⟩
    · rintro ⟨pattern, ⟨item, hmem, hpath⟩, found, hfound⟩
      exact ⟨items, item, pattern, found, rfl, hmem, (hsame item hmem).symm.trans hpath, hfound⟩

/-- The paths to watch are those that some pattern matches, each once. -/
theorem watch_of_expandPatterns {entries : List (Value × Value)} {patterns : List Codes}
    {watch : List Path} (hmap : s.look config = .map entries)
    (hpatterns : readPatterns? s (valueUnder entries watchKey) = some patterns)
    (hwatch : expandPatterns t base patterns = .ok watch) :
    watch.Nodup ∧ ∀ p, p ∈ watch ↔ IsMatch t base s config p := by
  unfold expandPatterns at hwatch
  cases hfound : patterns.mapM (expandPattern t base) with
  | error e => simp [hfound, Except.map] at hwatch
  | ok found =>
    obtain rfl : sortPaths found.flatten = watch := by simpa [hfound, Except.map] using hwatch
    constructor
    · exact (List.mergeSort_perm _ _).nodup_iff.mpr (OrderedMap.nodup_eraseDups _)
    · intro p
      rw [isMatch_iff hmap hpatterns, ← mem_flatten_of_mapM hfound, sortPaths, List.mem_mergeSort,
        List.mem_eraseDups]

/-- The first entry that is no pair cannot be shown. -/
def Unshown (s : Store) (config : Value) : Prop :=
  ∃ items entry, s.under? config writeKey = some (.list items) ∧
    FirstFailing (IsPair s) items entry ∧ s.display? entry = none

/-- What cannot be shown is not reported on. -/
theorem Unshown.not_reports (h : Unshown s config) (detail : Codes) :
    ¬Requirement.entries.Reports s config detail := by
  obtain ⟨items, entry, hitems, hfirst, hshown⟩ := h
  rintro ⟨items', entry', shown, hitems', hfirst', hshown', -⟩
  obtain rfl : items' = items := by simpa [hitems] using hitems'.symm
  obtain rfl := hfirst'.unique hfirst
  simp [hshown] at hshown'

theorem FirstFailing.not_all {r : Requirement}
    (h : FirstFailing (Requirement.Holds s config) Requirement.inOrder r) :
    ¬∀ r : Requirement, r.Holds s config := by
  obtain ⟨-, -, -, -, hbad⟩ := h
  exact fun hall => hbad (hall r)

/-! ## All configurations -/

/-- The three ways in which the reading can end. -/
inductive Ending (t : FileTree) (base : Path) (s : Store) (config : Value) : Prop where
  | accepted {c : BuildConfig} : readConfig t base s config = .ok c →
      (∀ r : Requirement, r.Holds s config) → Ending t base s config
  | reported {r : Requirement} {f : ConfigFault} : EndsWith t base s config r f →
      Ending t base s config
  | unshown : readConfig t base s config = .error (.abort .impossibleScalar) →
      Unshown s config → FirstFailing (Requirement.Holds s config) Requirement.inOrder .entries →
      Ending t base s config

namespace Ending

/-- An entry that is no pair ends the reading, with a report if the entry can be shown. -/
theorem of_entries {entries : List (Value × Value)} {items : List Value}
    (h : AsksFor s config entries items) (hbad : ¬Requirement.entries.Holds s config) :
    Ending t base s config := by
  cases hread : readEntries s base [] items with
  | ok pairs => exact absurd (h.entries_iff.mpr (readEntries_eq_ok_iff.mp ⟨pairs, hread⟩)) hbad
  | error e =>
    obtain ⟨entry, hfirst, rfl⟩ := readEntries_eq_error_iff.mp hread
    cases hshown : s.display? entry with
    | some shown => exact .reported (endsWith_badEntry h hfirst hshown)
    | none =>
      refine .unshown ?_ ⟨items, entry, h.under?, hfirst, hshown⟩ (h.first_entries hfirst)
      rw [readConfig_of_asksFor h, hread, entryProblem, hshown]
      rfl

/-- The requirements are looked at one after the other. -/
theorem of_configuration
    (hnames : ∀ options, s.under? config optionsKey = some (.map options) →
      ∀ option ∈ options, ∃ name, option.1.text? = some name)
    (hpatterns : Requirement.patterns.Holds s config → ∀ items item pattern,
      s.under? config watchKey = some (.list items) → item ∈ items →
      item.text? = some pattern → ∃ found, expandPattern t base pattern = .ok found) :
    Ending t base s config := by
  by_cases hmap : Requirement.mapping.Holds s config
  swap
  · exact .reported (endsWith_notMapping hmap)
  by_cases hwrite : Requirement.writeList.Holds s config
  swap
  · exact .reported (endsWith_noWriteList hmap hwrite)
  obtain ⟨entries, hentries⟩ := hmap
  obtain ⟨items, hitems⟩ := hwrite
  have hasks : AsksFor s config entries items := asksFor_iff.mpr ⟨hentries, hitems⟩
  by_cases hpairs : Requirement.entries.Holds s config
  swap
  · exact of_entries hasks hpairs
  by_cases hwatch : Requirement.patterns.Holds s config
  swap
  · exact .reported (endsWith_badWatch hasks hpairs hwatch)
  have hreaches : ReachesOptions t base s config entries := by
    refine ⟨⟨items, hasks⟩, hpairs, hwatch, ?_⟩
    intro patterns hread
    rw [expandPatterns_works_iff]
    intro pattern hmem
    obtain ⟨-, rfl⟩ | ⟨list, hlist, -, rfl⟩ := readPatterns?_eq_some_iff.mp hread
    · simp at hmem
    · obtain ⟨item, hitem, hpath⟩ := List.mem_filterMap.mp hmem
      exact hpatterns hwatch list item pattern ((under?_eq_list_iff hentries).mpr hlist) hitem
        (pathText?_eq_some_iff.mp hpath).1
  by_cases ho : Requirement.options.Holds s config
  swap
  · exact .reported (hreaches.endsWith_notMapping ho)
  by_cases hn : Requirement.optionNames.Holds s config
  swap
  · obtain ⟨f, hends⟩ := hreaches.endsWith_unknown ho hnames hn
    exact .reported hends
  by_cases hs : Requirement.separator.Holds s config
  swap
  · exact .reported (hreaches.endsWith_notText ho hn hs)
  obtain ⟨c, hread⟩ := hreaches.accepted ho hn hs
  refine .accepted hread ?_
  intro r
  cases r with
  | mapping => exact ⟨entries, hentries⟩
  | writeList => exact ⟨items, hitems⟩
  | entries => exact hpairs
  | patterns => exact hwatch
  | options => exact ho
  | optionNames => exact hn
  | separator => exact hs

/-- Accepted are the configurations that meet every requirement. -/
theorem accepted_iff (h : Ending t base s config) :
    (∃ c, readConfig t base s config = .ok c) ↔ ∀ r : Requirement, r.Holds s config := by
  cases h with
  | accepted hread hall => exact ⟨fun _ => hall, fun _ => ⟨_, hread⟩⟩
  | reported hends => exact ⟨by simp [hends.read], fun hall => absurd hall hends.first.not_all⟩
  | unshown hread _ hfirst => exact ⟨by simp [hread], fun hall => absurd hall hfirst.not_all⟩

/-- Reported is the first requirement that is missed, with its own wording. -/
theorem reported_iff (h : Ending t base s config) (message : Codes) :
    (∃ f, readConfig t base s config = .error (.fault f) ∧ f.toError.message = message) ↔
      ∃ r detail, FirstFailing (Requirement.Holds s config) Requirement.inOrder r ∧
        r.Reports s config detail ∧ message = "Emblem Compile Error: " ++ detail := by
  cases h with
  | accepted hread hall =>
    constructor
    · rintro ⟨f, hf, -⟩
      simp [hread] at hf
    · rintro ⟨r, detail, hfirst, -⟩
      exact absurd hall hfirst.not_all
  | @reported r f hends =>
    constructor
    · rintro ⟨f', hf, rfl⟩
      obtain rfl : f = f' := by simpa [hends.read] using hf
      exact ⟨r, f.detail, hends.first, (hends.report _).mpr rfl, rfl⟩
    · rintro ⟨r', detail, hfirst, hreport, rfl⟩
      obtain rfl := hfirst.unique hends.first
      obtain rfl := (hends.report _).mp hreport
      exact ⟨f, hends.read, rfl⟩
  | unshown hread hentry hfirst =>
    constructor
    · rintro ⟨f, hf, -⟩
      simp [hread] at hf
    · rintro ⟨r, detail, hfirst', hreport, -⟩
      obtain rfl := hfirst'.unique hfirst
      exact absurd hreport (hentry.not_reports detail)

/-- Without a report ends only the reading of an entry that is no pair and cannot be shown. -/
theorem unshown_iff (h : Ending t base s config) (a : Abort) :
    readConfig t base s config = .error (.abort a) ↔ a = .impossibleScalar ∧
      FirstFailing (Requirement.Holds s config) Requirement.inOrder .entries ∧
      Unshown s config := by
  cases h with
  | accepted hread hall =>
    constructor
    · intro ha
      simp [hread] at ha
    · rintro ⟨-, hfirst, -⟩
      exact absurd hall hfirst.not_all
  | reported hends =>
    constructor
    · intro ha
      simp [hends.read] at ha
    · rintro ⟨-, hfirst, hentry⟩
      obtain rfl := hfirst.unique hends.first
      exact absurd ((hends.report _).mpr rfl) (hentry.not_reports _)
  | unshown hread hentry hfirst =>
    constructor
    · intro ha
      obtain rfl : .impossibleScalar = a := by simpa [hread] using ha
      exact ⟨rfl, hfirst, hentry⟩
    · rintro ⟨rfl, -, -⟩
      exact hread

end Ending

end

/-- A configuration whose options have texts for names, and whose patterns can all be matched, is
accepted exactly when it meets all requirements. Otherwise the report is on the first one that it
misses, in its wording, unless that is an entry to write that cannot be shown: it holds an integer
of too many digits, and there is no report. The separator of an accepted configuration is the one
that is given or a space, and it watches what any of the patterns matches. -/
theorem readConfig_accepts_iff (t : FileTree) (base : Path) (s : Store) (config : Value)
    (hnames : ∀ options, s.under? config optionsKey = some (.map options) →
      ∀ option ∈ options, ∃ name, option.1.text? = some name)
    (hpatterns : Requirement.patterns.Holds s config → ∀ items item pattern,
      s.under? config watchKey = some (.list items) → item ∈ items →
      item.text? = some pattern → ∃ found, expandPattern t base pattern = .ok found) :
    ((∃ c, readConfig t base s config = .ok c) ↔ ∀ r : Requirement, r.Holds s config) ∧
    (∀ message, (∃ f, readConfig t base s config = .error (.fault f) ∧
        f.toError.message = message) ↔
      ∃ r detail, FirstFailing (Requirement.Holds s config) Requirement.inOrder r ∧
        r.Reports s config detail ∧ message = "Emblem Compile Error: " ++ detail) ∧
    (∀ a, readConfig t base s config = .error (.abort a) ↔ a = .impossibleScalar ∧
      FirstFailing (Requirement.Holds s config) Requirement.inOrder .entries ∧
      Unshown s config) ∧
    (∀ entry, s.display? entry = none → ∃ n,
      (n ∈ entry.integers ∨ ∃ v ∈ s.contents, n ∈ v.integers) ∧ 10 ^ 4300 ≤ n.natAbs) ∧
    ∀ c, readConfig t base s config = .ok c → IsSeparator s config c.separator ∧
      c.watch.Nodup ∧ ∀ p, p ∈ c.watch ↔ IsMatch t base s config p := by
  have hending := Ending.of_configuration hnames hpatterns
  refine ⟨hending.accepted_iff, hending.reported_iff, hending.unshown_iff, ?_, ?_⟩
  · intro entry hentry
    obtain ⟨n, hn, hlarge⟩ := s.exists_isTooLarge hentry
    exact ⟨n, hn, Value.isTooLarge_iff.mp hlarge⟩
  · intro c hc
    obtain ⟨entries, items, patterns, hasks, -, hread, hwatch, hoptions⟩ :=
      readConfig_eq_ok_iff.mp hc
    exact ⟨isSeparator_of_readOptions hasks.mapping hoptions,
      watch_of_expandPatterns hasks.mapping hread hwatch⟩

/-- Two patterns, one of them with a wildcard, and a separator. -/
def watchingConfig : Value :=
  .map [(.text writeKey, .list []), (.text watchKey, .list [.text "a", .text "?"]),
    (.text optionsKey, .map [(.text separatorKey, .text "+")])]

theorem readConfig_accepts_iff_watching :
    let t := ((FileTree.empty ["w"]).set ["w", "a"] (.file [])).set ["w", "b"] (.file [])
    ∃ c, readConfig t .here .empty watchingConfig = .ok c ∧
      (∀ r : Requirement, r.Holds .empty watchingConfig) ∧
      IsSeparator .empty watchingConfig c.separator ∧
      c.watch.Nodup ∧ ∀ p, p ∈ c.watch ↔ IsMatch t .here .empty watchingConfig p := by
  intro t
  have ha : expandPattern t .here "a" = .ok [.ofText "a"] := by with_unfolding_all rfl
  have hany : expandPattern t .here "?" = .ok [.ofText "a", .ofText "b"] := by
    with_unfolding_all rfl
  have hwatch : expandPatterns t .here ["a", "?"] = .ok [.ofText "a", .ofText "b"] := by
    have hsort : sortPaths [.ofText "a", .ofText "a", .ofText "b"] =
        [.ofText "a", .ofText "b"] := by
      have hdups : [Path.ofText "a", .ofText "a", .ofText "b"].eraseDups =
          [.ofText "a", .ofText "b"] := by decide +kernel
      rw [sortPaths, hdups]
      exact List.mergeSort_of_pairwise (by decide +kernel)
    rw [expandPatterns, List.mapM_cons, ha, List.mapM_cons, hany]
    exact congrArg Except.ok hsort
  have hread : readConfig t .here .empty watchingConfig =
      .ok ⟨[], [.ofText "a", .ofText "b"], "+"⟩ :=
    readConfig_eq_ok_iff.mpr ⟨_, [], ["a", "?"], ⟨rfl, rfl⟩, rfl, rfl, hwatch, rfl⟩
  have hnames : ∀ options, Store.empty.under? watchingConfig optionsKey = some (.map options) →
      ∀ option ∈ options, ∃ name, option.1.text? = some name := by
    intro options hoptions
    obtain rfl : [(.text separatorKey, .text "+")] = options :=
      Value.map.inj (Option.some.inj hoptions)
    exact List.forall_mem_singleton.mpr ⟨separatorKey, rfl⟩
  have hpatterns : Requirement.patterns.Holds .empty watchingConfig → ∀ items item pattern,
      Store.empty.under? watchingConfig watchKey = some (.list items) → item ∈ items →
      item.text? = some pattern → ∃ found, expandPattern t .here pattern = .ok found := by
    intro _ items item pattern hitems hmem htext
    obtain rfl : [.text "a", .text "?"] = items := Value.list.inj (Option.some.inj hitems)
    rcases List.mem_cons.mp hmem with rfl | hmem
    · obtain rfl : [Code.char 'a'] = pattern := Option.some.inj htext
      exact ⟨_, ha⟩
    · obtain rfl := List.mem_singleton.mp hmem
      obtain rfl : [Code.char '?'] = pattern := Option.some.inj htext
      exact ⟨_, hany⟩
  obtain ⟨haccepts, -, -, -, hsuccess⟩ :=
    readConfig_accepts_iff t .here .empty watchingConfig hnames hpatterns
  exact ⟨_, hread, haccepts.mp ⟨_, hread⟩, hsuccess _ hread⟩

/-- An entry that is no pair but an integer of too many digits ends the reading without a report;
with one digit fewer there is a report. -/
theorem readConfig_unshown :
    let config (n : Int) : Value := .map [(.text writeKey, .list [.int n])]
    readConfig (FileTree.empty ["w"]) .here .empty (config (10 ^ 4300)) =
        .error (.abort .impossibleScalar) ∧
      ∃ shown, readConfig (FileTree.empty ["w"]) .here .empty (config (10 ^ 4300 - 1)) =
        .error (.fault (.badEntry shown)) := by
  intro config
  have hread (n : Int) : readConfig (FileTree.empty ["w"]) .here .empty (config n) =
      .error (entryProblem .empty (.int n)) := rfl
  constructor
  · have hnone : Store.empty.display? (.int (10 ^ 4300)) = none := by decide +kernel
    rw [hread, entryProblem, hnone]
  · have hsome : ∃ shown, Store.empty.display? (.int (10 ^ 4300 - 1)) = some shown :=
      Option.isSome_iff_exists.mp (by decide +kernel)
    obtain ⟨shown, hshown⟩ := hsome
    exact ⟨shown, by rw [hread, entryProblem, hshown]⟩

end IndentMarkup
