import IndentMarkup.Proofs.Files
import Mathlib.Data.List.Infix

/-!
# Paths that only go down

A path without double dots passes one directory after the other, and what an operation does with it
can be said in full. Files and names that are too long stop it; gaps do not, since missing directories
are made. So the directories that are made, and whether a file can be written in the end, depend on
the files that stand on the way and on nothing else.
-/
namespace IndentMarkup

abbrev ShortName (name : Codes) : Prop := name.nameBytes.length ≤ FileTree.nameLimit

namespace Path

abbrev Short (p : Path) : Prop := p.text.nameBytes.length ≤ FileTree.pathLimit

/-- No component goes up, and none is refused. -/
structure IsPlain (p : Path) : Prop where
  descends : parentMark ∉ p.parts
  usable : p.isRefused = false

instance (p : Path) : Decidable p.IsPlain :=
  decidable_of_iff (parentMark ∉ p.parts ∧ p.isRefused = false)
    ⟨fun h => ⟨h.1, h.2⟩, fun h => ⟨h.descends, h.usable⟩⟩

def start (workingDir : Location) (p : Path) : Location :=
  match p.root with
  | .none => workingDir
  | _ => []

/-- The place that the first components lead down to. -/
def stage (workingDir : Location) (p : Path) (n : Nat) : Location :=
  p.start workingDir ++ p.parts.take n

theorem follow_of_descends {parts : List Codes} (h : parentMark ∉ parts) (here : Location) :
    Location.follow here parts = here ++ parts := by
  induction parts generalizing here with
  | nil => simp [Location.follow]
  | cons name rest ih =>
    have hname : name ≠ parentMark := fun he => h (by simp [he])
    have hrest := ih (fun hmem => h (List.mem_cons_of_mem name hmem)) (here ++ [name])
    simpa [Location.follow, hname] using hrest

theorem resolve_of_descends {p : Path} (h : parentMark ∉ p.parts) (workingDir : Location) :
    p.resolve workingDir = p.start workingDir ++ p.parts := by
  cases hr : p.root <;> simp only [resolve, start, hr, follow_of_descends h]

theorem stage_length {p : Path} (h : parentMark ∉ p.parts) (workingDir : Location) :
    p.stage workingDir p.parts.length = p.resolve workingDir := by
  rw [stage, List.take_length, resolve_of_descends h]

/-- The places on the way to a path are beginnings of its own. -/
theorem stage_begins {p : Path} (h : parentMark ∉ p.parts) (workingDir : Location) (n : Nat) :
    p.stage workingDir n <+: p.resolve workingDir := by
  have hbegins := List.take_prefix n p.parts
  rw [resolve_of_descends h, stage]
  exact (List.prefix_append_right_inj _).mpr hbegins

theorem parent_eq_front (p : Path) : p.parent = p.front (p.parts.length - 1) := by
  rw [parent, front, List.dropLast_eq_take]

theorem stage_front {p : Path} {m n : Nat} (h : n ≤ m) (workingDir : Location) :
    (p.front m).stage workingDir n = p.stage workingDir n := by
  simp [stage, start, front, List.take_take, Nat.min_eq_left h]

theorem IsPlain.front {p : Path} (h : p.IsPlain) (n : Nat) : (p.front n).IsPlain := by
  refine ⟨fun hmem => h.descends (List.mem_of_mem_take hmem), ?_⟩
  have hall := h.usable
  simp only [isRefused, List.any_eq_false] at hall ⊢
  exact fun part hpart => hall part (List.mem_of_mem_take hpart)

theorem intercalate_take_begins (parts : List Codes) (n : Nat) :
    [Code.char '/'].intercalate (parts.take n) <+: [Code.char '/'].intercalate parts := by
  induction parts generalizing n with
  | nil => simp
  | cons first rest ih =>
    cases n with
    | zero => simp
    | succ n =>
      cases rest with
      | nil => simp
      | cons second rest =>
        cases n with
        | zero => simp [List.intercalate_cons_cons]
        | succ n =>
          have hrest := ih (n + 1)
          simp only [List.take_succ_cons, List.intercalate_cons_cons] at hrest ⊢
          exact (List.prefix_append_right_inj _).mpr hrest

/-- The first components make up a single dot or the beginning of the text. -/
theorem text_front (p : Path) (n : Nat) :
    (p.front n).text = [.char '.'] ∨ (p.front n).text <+: p.text := by
  obtain ⟨root, parts⟩ := p
  have hbegins := (List.prefix_append_right_inj root.text).mpr (intercalate_take_begins parts n)
  cases root with
  | none =>
    cases parts with
    | nil => exact .inl (by simp [front, text])
    | cons first rest =>
      cases n with
      | zero => exact .inl rfl
      | succ n => exact .inr hbegins
  | slash => exact .inr hbegins
  | doubleSlash => exact .inr hbegins

theorem Short.front {p : Path} (h : p.Short) (n : Nat) : (p.front n).Short := by
  rcases p.text_front n with hdot | ⟨rest, hrest⟩
  · rw [Short, hdot]
    decide
  · rw [Short, ← hrest, Codes.nameBytes, List.flatMap_append, List.length_append] at h
    rw [Short, Codes.nameBytes]
    omega

end Path

namespace FileTree

variable {t t' : FileTree} {p : Path} {l : Location}

def isFile (t : FileTree) (l : Location) : Bool :=
  match t.at? l with
  | some (.file _) => true
  | _ => false

theorem isFile_iff : t.isFile l = true ↔ ∃ content, t.at? l = some (.file content) := by
  unfold isFile
  split
  · rename_i content h
    exact ⟨fun _ => ⟨content, h⟩, fun _ => rfl⟩
  · rename_i h
    exact ⟨fun hfalse => absurd hfalse (by simp), fun ⟨content, hc⟩ => absurd hc (h content)⟩

theorem isFile_of_file {content : Utf8.Bytes} (h : t.at? l = some (.file content)) :
    t.isFile l = true :=
  isFile_iff.mpr ⟨content, h⟩

theorem isFile_of_dir (h : t.at? l = some .dir) : t.isFile l = false := by
  simp [isFile, h]

theorem isFile_of_none (h : t.at? l = none) : t.isFile l = false := by
  simp [isFile, h]

/-! ## Trees that hang together -/

/-- What stands somewhere stands in a directory, and the working directory is one. -/
structure Coherent (t : FileTree) : Prop where
  dir_of_child : ∀ (l : Location) (name : Codes), t.at? (l ++ [name]) ≠ none → t.at? l = some .dir
  workingDir : t.at? t.workingDir = some .dir

/-- What stands somewhere has directories above it all the way up. -/
theorem Coherent.dir_above (ht : t.Coherent) {names : List Codes} (hne : names ≠ [])
    (h : t.at? (l ++ names) ≠ none) : t.at? l = some .dir := by
  induction names generalizing l with
  | nil => exact absurd rfl hne
  | cons name rest ih =>
    have hnext : t.at? (l ++ [name]) ≠ none := by
      cases rest with
      | nil => exact h
      | cons next rest =>
        rw [ih (by simp) (by simpa using h)]
        simp
    exact ht.dir_of_child l name hnext

theorem Coherent.start (ht : t.Coherent) (p : Path) : t.at? (p.start t.workingDir) = some .dir := by
  unfold Path.start
  split
  · exact ht.workingDir
  · rfl

theorem at?_ne_none_iff (h : l ≠ []) : t.at? l ≠ none ↔ ∃ b ∈ t.entries, b.1 = l := by
  rw [at?.eq_2 t l h, OrderedMap.get?, Ne, Option.map_eq_none_iff, List.find?_eq_none]
  simp

/-- Only the places that occur among the entries have to be looked at. -/
theorem coherent_iff : t.Coherent ↔
    (∀ b ∈ t.entries, t.at? b.1.dropLast = some .dir) ∧ t.at? t.workingDir = some .dir := by
  constructor
  · intro ht
    refine ⟨fun b hb => ?_, ht.workingDir⟩
    rcases List.eq_nil_or_concat b.1 with hnil | ⟨l, name, hplace⟩
    · rw [hnil]
      rfl
    · rw [List.concat_eq_append] at hplace
      rw [hplace, List.dropLast_concat]
      exact ht.dir_of_child l name ((at?_ne_none_iff (by simp)).mpr ⟨b, hb, hplace⟩)
  · rintro ⟨hentries, hwd⟩
    refine ⟨fun l name hne => ?_, hwd⟩
    obtain ⟨b, hb, hplace⟩ := (at?_ne_none_iff (by simp)).mp hne
    have hdir := hentries b hb
    rwa [hplace, List.dropLast_concat] at hdir

instance (t : FileTree) : Decidable t.Coherent := decidable_of_iff _ coherent_iff.symm

/-! ## Following a path down -/

theorem locate_of_short (h : p.Short) : t.locate p = t.walk (p.start t.workingDir) p.parts := by
  rw [locate, if_neg (Nat.not_lt.mpr h)]
  cases hr : p.root <;> simp only [Path.start, hr]

theorem locate_of_not_short (h : ¬p.Short) : t.locate p = .error .nameTooLong := by
  rw [locate, if_pos (Nat.lt_of_not_le h)]

/-- Neither a file nor a name that is too long is in the way of the first `n` components. -/
structure Reaches (t : FileTree) (p : Path) (n : Nat) : Prop where
  noFile : ∀ i ≤ n, t.isFile (p.stage t.workingDir i) = false
  short : ∀ name ∈ p.parts.take n, ShortName name

theorem Reaches.mono {m n : Nat} (h : t.Reaches p n) (hm : m ≤ n) : t.Reaches p m := by
  refine ⟨fun i hi => h.noFile i (by omega), fun name hname => h.short name ?_⟩
  exact (List.take_prefix_take_left hm).subset hname

/-- Only the files on the way count. -/
theorem Reaches.congr {n : Nat} (hwd : t'.workingDir = t.workingDir)
    (hfile : ∀ i ≤ n, t'.isFile (p.stage t.workingDir i) = t.isFile (p.stage t.workingDir i)) :
    t'.Reaches p n ↔ t.Reaches p n := by
  constructor
  · rintro ⟨hno, hshort⟩
    exact ⟨fun i hi => by rw [← hfile i hi, ← hwd]; exact hno i hi, hshort⟩
  · rintro ⟨hno, hshort⟩
    exact ⟨fun i hi => by rw [hwd, hfile i hi]; exact hno i hi, hshort⟩

theorem DirsAdded.isFile_eq {places : Location → Prop} (h : DirsAdded places t t') (l : Location) :
    t'.isFile l = t.isFile l := by
  rw [Bool.eq_iff_iff, isFile_iff, isFile_iff]
  exact exists_congr fun content => h.file_iff l content

theorem DirsAdded.reaches_iff {places : Location → Prop} {n : Nat} (h : DirsAdded places t t') :
    t'.Reaches p n ↔ t.Reaches p n :=
  Reaches.congr h.workingDir fun _ _ => h.isFile_eq _

/-- A file or a name that is too long is in the way of the first `n` components. -/
def Stops (t : FileTree) (p : Path) (n : Nat) : Prop :=
  (∃ k < n, t.isFile (p.stage t.workingDir k) = true) ∨ ∃ name ∈ p.parts.take n, ¬ShortName name

theorem Stops.not_reaches {n : Nat} (h : t.Stops p n) : ¬t.Reaches p n := by
  rintro ⟨hno, hshort⟩
  obtain ⟨k, hk, hfile⟩ | ⟨name, hin, hlong⟩ := h
  · simp [hno k (by omega)] at hfile
  · exact hlong (hshort name hin)

theorem Stops.mono {m n : Nat} (h : t.Stops p m) (hm : m ≤ n) : t.Stops p n := by
  refine h.imp (fun ⟨k, hk, hfile⟩ => ⟨k, by omega, hfile⟩) fun ⟨name, hin, hlong⟩ => ⟨name, ?_, hlong⟩
  exact (List.take_prefix_take_left hm).subset hin

/-- Where the first `n` components lead: to their place, to a gap above it, or to what stops them,
and then all that is reached before is a directory. -/
inductive Leads (t : FileTree) (p : Path) (n : Nat) : Except OsError Location → Prop where
  | there : (∀ k < n, t.at? (p.stage t.workingDir k) = some .dir) →
      (∀ name ∈ p.parts.take n, ShortName name) → Leads t p n (.ok (p.stage t.workingDir n))
  | gap {k : Nat} : k < n → t.at? (p.stage t.workingDir k) = none → Leads t p n (.error .notFound)
  | stopped {e : OsError} : e ≠ .notFound → t.Stops p n →
      (∀ k ≤ n, t.Reaches p k → t.at? (p.stage t.workingDir k) = some .dir) → Leads t p n (.error e)

/-- A walk can be taken up where another one ends. -/
theorem walk_append (t : FileTree) (here : Location) (xs ys : List Codes) :
    t.walk here (xs ++ ys) = (t.walk here xs).bind fun l => t.walk l ys := by
  induction xs generalizing here with
  | nil => rfl
  | cons name rest ih =>
    simp only [List.cons_append, walk]
    split
    · rfl
    · rfl
    · split
      · exact ih _
      · split
        · rfl
        · exact ih _

/-- One step further from the place of the first `n` components. -/
theorem leads_next {n : Nat} (hn : n < p.parts.length) (hname : p.parts[n] ≠ parentMark)
    (hdirs : ∀ k < n, t.at? (p.stage t.workingDir k) = some .dir)
    (hnames : ∀ name ∈ p.parts.take n, ShortName name) :
    Leads t p (n + 1) (t.walk (p.stage t.workingDir n) [p.parts[n]]) := by
  have htake : p.parts.take (n + 1) = p.parts.take n ++ [p.parts[n]] :=
    List.take_succ_eq_append_getElem hn
  have hmem : p.parts[n] ∈ p.parts.take (n + 1) := by
    rw [htake]
    exact List.mem_append_right _ (List.mem_singleton.mpr rfl)
  simp only [walk, if_neg hname]
  cases hat : t.at? (p.stage t.workingDir n) with
  | none => exact .gap (Nat.lt_succ_self n) hat
  | some entry =>
    cases entry with
    | file content =>
      have hfile := isFile_of_file hat
      refine .stopped (by simp) (.inl ⟨n, by omega, hfile⟩) fun k hk h => hdirs k ?_
      by_contra hle
      simp [h.noFile n (by omega)] at hfile
    | dir =>
      have hdirs' : ∀ k < n + 1, t.at? (p.stage t.workingDir k) = some .dir := by
        intro k hk
        rcases Nat.lt_succ_iff_lt_or_eq.mp hk with hk | rfl
        · exact hdirs k hk
        · exact hat
      by_cases hshort : ShortName p.parts[n]
      · have hplace : p.stage t.workingDir n ++ [p.parts[n]] = p.stage t.workingDir (n + 1) := by
          rw [Path.stage, Path.stage, htake, List.append_assoc]
        simp only [if_neg (Nat.not_lt.mpr hshort), hplace]
        refine .there hdirs' fun name hin => ?_
        rw [htake] at hin
        rcases List.mem_append.mp hin with hin | hin
        · exact hnames name hin
        · rwa [List.mem_singleton.mp hin]
      · simp only [if_pos (Nat.lt_of_not_le hshort)]
        refine .stopped (by simp) (.inr ⟨_, hmem, hshort⟩) fun k hk h => hdirs' k ?_
        by_contra hle
        obtain rfl : k = n + 1 := by omega
        exact hshort (h.short _ hmem)

/-- A look-up comes to the place, to a gap above it, or to what stops it. -/
theorem leads_locate (t : FileTree) {n : Nat} (hp : parentMark ∉ p.parts) (hshort : p.Short)
    (hn : n ≤ p.parts.length) : Leads t p n (t.locate (p.front n)) := by
  rw [show t.locate (p.front n) = t.walk (p.start t.workingDir) (p.parts.take n) from
    locate_of_short (hshort.front n)]
  induction n with
  | zero =>
    have hplace : p.start t.workingDir = p.stage t.workingDir 0 := by simp [Path.stage]
    rw [List.take_zero, walk, hplace]
    exact .there (by simp) (by simp)
  | succ n ih =>
    have hname : p.parts[n] ≠ parentMark := fun he => hp (he ▸ List.getElem_mem _)
    rw [List.take_succ_eq_append_getElem hn, walk_append]
    have hleads := ih (by omega)
    generalize t.walk (p.start t.workingDir) (p.parts.take n) = result at hleads
    cases hleads with
    | there hdirs hnames => exact leads_next hn hname hdirs hnames
    | gap hk hnone => exact .gap (by omega) hnone
    | stopped hne hstops hdirs =>
      refine .stopped hne (hstops.mono (by omega)) fun k hk h => hdirs k ?_ h
      by_contra hle
      exact hstops.not_reaches (h.mono (by omega))

/-! ## Directories that are made -/

/-- How making a directory on the way can go: it is made or there, or lacks one above, or is
stopped. -/
inductive Ensures (t : FileTree) (p : Path) (n : Nat) : Except OsError FileTree → Prop where
  | ready {made : FileTree} : DirsAdded (· = p.stage t.workingDir n) t made → t.Reaches p n →
      (∀ k ≤ n, made.at? (p.stage t.workingDir k) = some .dir) → Ensures t p n (.ok made)
  | gap {k : Nat} : k < n → t.at? (p.stage t.workingDir k) = none → Ensures t p n (.error .notFound)
  | stopped {e : OsError} : e ≠ .notFound → ¬t.Reaches p n →
      (∀ k ≤ n, t.Reaches p k → t.at? (p.stage t.workingDir k) = some .dir) →
      Ensures t p n (.error e)

theorem ensures_ensureDir (t : FileTree) {n : Nat} (hp : parentMark ∉ p.parts) (hshort : p.Short)
    (hn : n ≤ p.parts.length) : Ensures t p n (t.ensureDir (p.front n)) := by
  have hleads := t.leads_locate hp hshort hn
  unfold ensureDir makeDir find
  generalize t.locate (p.front n) = result at hleads
  cases hleads with
  | gap hk hnone => exact .gap hk hnone
  | stopped hne hstops hdirs => exact .stopped hne hstops.not_reaches hdirs
  | there habove hnames =>
    have hreach (hlast : t.isFile (p.stage t.workingDir n) = false) : t.Reaches p n := by
      refine ⟨fun i hi => ?_, hnames⟩
      rcases Nat.lt_or_eq_of_le hi with hi | rfl
      · exact isFile_of_dir (habove i hi)
      · exact hlast
    cases hat : t.at? (p.stage t.workingDir n) with
    | none =>
      have hadded := dirsAdded_set t hat
      simp only [hat]
      refine .ready hadded (hreach (isFile_of_none hat)) fun k hk => ?_
      rcases Nat.lt_or_eq_of_le hk with hk | rfl
      · exact hadded.dir (habove k hk)
      · exact at?_set_of_ne_dir (by simp [hat])
    | some entry =>
      cases entry with
      | dir =>
        simp only [hat]
        refine .ready (.refl _ t) (hreach (isFile_of_dir hat)) fun k hk => ?_
        rcases Nat.lt_or_eq_of_le hk with hk | rfl
        · exact habove k hk
        · exact hat
      | file content =>
        have hfile := isFile_of_file hat
        simp only [hat]
        refine .stopped (by simp) (fun h => ?_) fun k hk h => ?_
        · simp [h.noFile n le_rfl] at hfile
        · rcases Nat.lt_or_eq_of_le hk with hk | rfl
          · exact habove k hk
          · simp [h.noFile k le_rfl] at hfile

/-- The places on the way to a path that are directories once it has been made. -/
def Made (t : FileTree) (p : Path) (l : Location) : Prop :=
  p.Short ∧ ∃ k ≤ p.parts.length, l = p.stage t.workingDir k ∧ t.Reaches p k

theorem Made.congr (hwd : t'.workingDir = t.workingDir)
    (hfile : ∀ k ≤ p.parts.length,
      t'.isFile (p.stage t.workingDir k) = t.isFile (p.stage t.workingDir k)) :
    t'.Made p l ↔ t.Made p l := by
  refine and_congr_right fun _ => exists_congr fun k => and_congr_right fun hk => ?_
  rw [hwd]
  exact and_congr_right fun _ => Reaches.congr hwd fun i hi => hfile i (by omega)

/-- Directories are made down to the first file or name that is too long, and making them fails
exactly when there is one. -/
structure DirsMade (t : FileTree) (p : Path) (n : Nat) (result : FileTree × Option Failure) : Prop where
  added : DirsAdded (t.Made p) t result.1
  dirs : ∀ k ≤ n, t.Reaches p k → result.1.at? (p.stage t.workingDir k) = some .dir
  complete : result.2 = none ↔ t.Reaches p n

theorem makeDirsUpTo_of_ok {n : Nat} (h : t.ensureDir (p.front n) = .ok t') :
    t.makeDirsUpTo p n = (t', none) := by
  cases n with
  | zero =>
    rw [makeDirsUpTo]
    rw [show t.ensureDir ⟨p.root, []⟩ = .ok t' from h]
  | succ n =>
    rw [makeDirsUpTo]
    rw [show t.ensureDir ⟨p.root, p.parts.take (n + 1)⟩ = .ok t' from h]

theorem makeDirsUpTo_of_error {n : Nat} {e : OsError} (hne : e ≠ .notFound)
    (h : t.ensureDir (p.front n) = .error e) :
    t.makeDirsUpTo p n = (t, some ⟨e, p.front n⟩) := by
  cases n with
  | zero =>
    rw [makeDirsUpTo]
    rw [show t.ensureDir ⟨p.root, []⟩ = .error e from h]
    rfl
  | succ n =>
    rw [makeDirsUpTo]
    rw [show t.ensureDir ⟨p.root, p.parts.take (n + 1)⟩ = .error e from h]
    cases e with
    | notFound => exact absurd rfl hne
    | _ => rfl

/-- Behind a gap the directories above come first. -/
theorem makeDirsUpTo_of_gap {n : Nat} (h : t.ensureDir (p.front (n + 1)) = .error .notFound) :
    t.makeDirsUpTo p (n + 1) =
      match t.makeDirsUpTo p n with
      | (upper, some f) => (upper, some f)
      | (upper, none) =>
        match upper.ensureDir (p.front (n + 1)) with
        | .ok made => (made, none)
        | .error e => (upper, some ⟨e, p.front (n + 1)⟩) := by
  rw [makeDirsUpTo]
  rw [show t.ensureDir ⟨p.root, p.parts.take (n + 1)⟩ = .error .notFound from h]
  rfl

namespace DirsMade

theorem of_ready {n : Nat} {made : FileTree} (hshort : p.Short) (hn : n ≤ p.parts.length)
    (hupper : DirsAdded (t.Made p) t t') (hadded : DirsAdded (· = p.stage t.workingDir n) t' made)
    (hreach : t.Reaches p n) (hdirs : ∀ k ≤ n, made.at? (p.stage t.workingDir k) = some .dir) :
    DirsMade t p n (made, none) := by
  refine ⟨hupper.trans (hadded.mono ?_), fun k hk _ => hdirs k hk, by simp [hreach]⟩
  exact fun l hl => ⟨hshort, n, hn, hl, hreach⟩

theorem of_stopped {n : Nat} {f : Failure} (hadded : DirsAdded (t.Made p) t t') (hstop : ¬t.Reaches p n)
    (hdirs : ∀ k ≤ n, t.Reaches p k → t'.at? (p.stage t.workingDir k) = some .dir) :
    DirsMade t p n (t', some f) :=
  ⟨hadded, hdirs, by simp [hstop]⟩

end DirsMade

/-- Behind a gap, the last directory is made once those above are there. -/
theorem dirsMade_of_gap {n : Nat} (hp : parentMark ∉ p.parts) (hshort : p.Short)
    (hn : n + 1 ≤ p.parts.length) (hgap : t.ensureDir (p.front (n + 1)) = .error .notFound)
    (habove : DirsMade t p n (t.makeDirsUpTo p n)) :
    DirsMade t p (n + 1) (t.makeDirsUpTo p (n + 1)) := by
  rw [makeDirsUpTo_of_gap hgap]
  generalize t.makeDirsUpTo p n = result at habove
  obtain ⟨upper, failure⟩ := result
  obtain ⟨hupper, hbefore, hcomplete⟩ := habove
  cases failure with
  | some f =>
    have hstop : ¬t.Reaches p n := by simpa using hcomplete
    refine .of_stopped hupper (fun h => hstop (h.mono (by omega))) fun k hk h => hbefore k ?_ h
    by_contra hle
    exact hstop (h.mono (by omega))
  | none =>
    dsimp only at hupper hbefore ⊢
    have hreach : t.Reaches p n := hcomplete.mp rfl
    have hiff {k : Nat} : upper.Reaches p k ↔ t.Reaches p k := hupper.reaches_iff
    have hlast := upper.ensures_ensureDir hp hshort hn
    generalize upper.ensureDir (p.front (n + 1)) = result at hlast
    cases hlast with
    | ready hadded hlast hdirs =>
      rw [hupper.workingDir] at hadded hdirs
      exact .of_ready hshort hn hupper hadded (hiff.mp hlast) hdirs
    | gap hk hnone =>
      rw [hupper.workingDir, hbefore _ (by omega) (hreach.mono (by omega))] at hnone
      simp at hnone
    | stopped hne hstop hdirs =>
      rw [hupper.workingDir] at hdirs
      exact .of_stopped hupper (mt hiff.mpr hstop) fun k hk h => hdirs k hk (hiff.mpr h)

/-- Without a gap above it, the last directory is made or stopped at once. -/
theorem dirsMade_or_gap (t : FileTree) (hp : parentMark ∉ p.parts) (hshort : p.Short) {n : Nat}
    (hn : n ≤ p.parts.length) : DirsMade t p n (t.makeDirsUpTo p n) ∨
      (0 < n ∧ t.ensureDir (p.front n) = .error .notFound) := by
  have hensures := t.ensures_ensureDir hp hshort hn
  generalize hresult : t.ensureDir (p.front n) = result at hensures
  cases hensures with
  | ready hadded hreach hdirs =>
    rw [makeDirsUpTo_of_ok hresult]
    exact .inl (.of_ready hshort hn (.refl _ t) hadded hreach hdirs)
  | gap hk _ => exact .inr ⟨by omega, rfl⟩
  | stopped hne hstop hdirs =>
    rw [makeDirsUpTo_of_error hne hresult]
    exact .inl (.of_stopped (.refl _ t) hstop hdirs)

/-- Made from the top down, directories are there up to the first thing in their way. -/
theorem dirsMade_makeDirsUpTo (t : FileTree) (hp : parentMark ∉ p.parts) (hshort : p.Short) {n : Nat}
    (hn : n ≤ p.parts.length) : DirsMade t p n (t.makeDirsUpTo p n) := by
  induction n with
  | zero => exact (t.dirsMade_or_gap hp hshort hn).resolve_right (by omega)
  | succ n ih =>
    rcases t.dirsMade_or_gap hp hshort hn with hmade | ⟨-, hgap⟩
    · exact hmade
    · exact dirsMade_of_gap hp hshort hn hgap (ih (by omega))

/-- What making a directory and those above it does, and when it succeeds. -/
theorem makeDirs_exact (t : FileTree) (hp : parentMark ∉ p.parts) :
    DirsAdded (t.Made p) t (t.makeDirs p).1 ∧
      (∀ l, t.Made p l → (t.makeDirs p).1.at? l = some .dir) ∧
      ((t.makeDirs p).2 = none ↔ p.Short ∧ t.Reaches p p.parts.length) := by
  by_cases hshort : p.Short
  · obtain ⟨hadded, hdirs, hcomplete⟩ := t.dirsMade_makeDirsUpTo hp hshort le_rfl
    refine ⟨hadded, ?_, hcomplete.trans (by simp [hshort])⟩
    rintro l ⟨-, k, hk, rfl, hreach⟩
    exact hdirs k hk hreach
  · have hfront : p.front p.parts.length = p := by simp [Path.front]
    have herror : t.ensureDir (p.front p.parts.length) = .error .nameTooLong := by
      simp [hfront, ensureDir, makeDir, find, locate_of_not_short hshort]
    rw [makeDirs, makeDirsUpTo_of_error (by simp) herror]
    exact ⟨.refl _ t, fun l h => absurd h.1 hshort, by simp [hshort]⟩

/-! ## Reading and writing -/

/-- A path leads to its place exactly when it is short, in its names as well, and passes
directories only. -/
theorem locate_eq_ok_iff (hp : parentMark ∉ p.parts) :
    t.locate p = .ok l ↔ l = p.resolve t.workingDir ∧ p.Short ∧ (∀ name ∈ p.parts, ShortName name) ∧
      ∀ k < p.parts.length, t.at? (p.stage t.workingDir k) = some .dir := by
  by_cases hshort : p.Short
  · have hfront : p.front p.parts.length = p := by simp [Path.front]
    have hleads := t.leads_locate hp hshort le_rfl
    rw [hfront] at hleads
    generalize t.locate p = result at hleads
    cases hleads with
    | there hdirs hnames =>
      rw [List.take_length] at hnames
      rw [Except.ok.injEq, Path.stage_length hp]
      exact ⟨fun h => ⟨h.symm, hshort, hnames, hdirs⟩, fun h => h.1.symm⟩
    | gap hk hnone =>
      simp only [reduceCtorEq, false_iff]
      rintro ⟨-, -, -, hdirs⟩
      simp [hdirs _ hk] at hnone
    | stopped _ hstops _ =>
      simp only [reduceCtorEq, false_iff]
      rintro ⟨-, -, hnames, hdirs⟩
      obtain ⟨k, hk, hfile⟩ | ⟨name, hin, hlong⟩ := hstops
      · simp [isFile_of_dir (hdirs k hk)] at hfile
      · exact hlong (hnames name (List.mem_of_mem_take hin))
  · simp [locate_of_not_short hshort, hshort]

/-- Reading works exactly on short paths to the place of a file. -/
theorem read_eq_ok_iff (ht : t.Coherent) (hp : parentMark ∉ p.parts) {bytes : Utf8.Bytes} :
    t.read p = .ok bytes ↔ p.Short ∧ (∀ name ∈ p.parts, ShortName name) ∧
      t.at? (p.resolve t.workingDir) = some (.file bytes) := by
  constructor
  · intro h
    have hat := at?_of_read h
    cases hl : t.locate p with
    | error e => simp [read, find, hl] at h
    | ok l =>
      obtain ⟨-, hshort, hnames, -⟩ := (locate_eq_ok_iff hp).mp hl
      exact ⟨hshort, hnames, hat⟩
  · rintro ⟨hshort, hnames, hat⟩
    have hdirs : ∀ k < p.parts.length, t.at? (p.stage t.workingDir k) = some .dir := by
      intro k hk
      have hbelow : t.at? (p.stage t.workingDir k ++ p.parts.drop k) ≠ none := by
        rw [Path.stage, List.append_assoc, List.take_append_drop, ← Path.resolve_of_descends hp, hat]
        simp
      exact ht.dir_above (by simpa using hk) hbelow
    simp [read, find, (locate_eq_ok_iff hp).mpr ⟨rfl, hshort, hnames, hdirs⟩, hat]

/-- A file can be put where a path leads, once the missing directories are made. -/
structure Writable (t : FileTree) (p : Path) : Prop where
  short : p.Short
  names : ∀ name ∈ p.parts, ShortName name
  noFile : ∀ k < p.parts.length, t.isFile (p.stage t.workingDir k) = false
  notDir : t.at? (p.resolve t.workingDir) ≠ some .dir

/-- Only the files above the place and a directory at it count. -/
theorem Writable.congr (hwd : t'.workingDir = t.workingDir)
    (hfile : ∀ k < p.parts.length,
      t'.isFile (p.stage t.workingDir k) = t.isFile (p.stage t.workingDir k))
    (hdir : t'.at? (p.resolve t.workingDir) = some .dir ↔
      t.at? (p.resolve t.workingDir) = some .dir) : t'.Writable p ↔ t.Writable p := by
  constructor
  · rintro ⟨hshort, hnames, hno, hnot⟩
    rw [hwd] at hno hnot
    exact ⟨hshort, hnames, fun k hk => by rw [← hfile k hk]; exact hno k hk, mt hdir.mpr hnot⟩
  · rintro ⟨hshort, hnames, hno, hnot⟩
    refine ⟨hshort, hnames, fun k hk => ?_, ?_⟩
    · rw [hwd, hfile k hk]
      exact hno k hk
    · rw [hwd]
      exact mt hdir.mp hnot

instance (t : FileTree) (p : Path) : Decidable (t.Writable p) :=
  decidable_of_iff (p.Short ∧ (∀ name ∈ p.parts, ShortName name) ∧
      (∀ k < p.parts.length, t.isFile (p.stage t.workingDir k) = false) ∧
      t.at? (p.resolve t.workingDir) ≠ some .dir)
    ⟨fun h => ⟨h.1, h.2.1, h.2.2.1, h.2.2.2⟩, fun h => ⟨h.short, h.names, h.noFile, h.notDir⟩⟩

/-- Writing works exactly where all directories above are there, and sets this one place. -/
theorem write_eq_ok_iff (hp : parentMark ∉ p.parts) {content : Utf8.Bytes} :
    t.write p content = .ok t' ↔ t' = t.set (p.resolve t.workingDir) (.file content) ∧
      t.at? (p.resolve t.workingDir) ≠ some .dir ∧ p.Short ∧ (∀ name ∈ p.parts, ShortName name) ∧
      ∀ k < p.parts.length, t.at? (p.stage t.workingDir k) = some .dir := by
  constructor
  · intro h
    obtain ⟨heq, hdir⟩ := eq_set_of_write h
    cases hl : t.locate p with
    | error e => simp [write, hl] at h
    | ok l => exact ⟨heq, hdir, ((locate_eq_ok_iff hp).mp hl).2⟩
  · rintro ⟨rfl, hdir, hway⟩
    simp only [write, (locate_eq_ok_iff hp).mpr ⟨rfl, hway⟩]

end FileTree
end IndentMarkup
