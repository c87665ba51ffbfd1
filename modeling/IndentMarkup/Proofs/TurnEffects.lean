import IndentMarkup.Proofs.BuildEffects
import IndentMarkup.Proofs.Descents

/-!
# What a turn does, exactly

For paths that only go down, a turn is settled by two questions: what the source compiles to, and
whether a file can be put at the destination. `Effect` gives the status and the tree in these terms.
What they depend on is little: the file at the source's place, and the files above the destination.
-/
namespace IndentMarkup

/-- The same entries at the same places. -/
structure FileTree.Alike (t t' : FileTree) : Prop where
  workingDir : t.workingDir = t'.workingDir
  entries : ∀ l, t.at? l = t'.at? l

/-- Every path only goes down and can be opened. -/
abbrev PlainPairs (pairs : Pairs) : Prop := ∀ pair ∈ pairs, pair.1.IsPlain ∧ pair.2.IsPlain

theorem PlainPairs.usable {pairs : Pairs} (h : PlainPairs pairs) :
    ∀ pair ∈ pairs, pair.1.isRefused = false ∧ pair.2.isRefused = false :=
  fun pair hpair => ⟨(h pair hpair).1.usable, (h pair hpair).2.usable⟩

/-- What the source compiles to, if it can be read and has no half dedent. -/
def output? (separator : Text) (t : FileTree) (source : Path) : Option Text :=
  match t.readText source with
  | .error _ => none
  | .ok text => (compile separator text).toOption

theorem output?_eq_some_iff {separator : Text} {t : FileTree} {source : Path} {output : Text} :
    output? separator t source = some output ↔
      ∃ text, t.readText source = .ok text ∧ compile separator text = .ok output := by
  unfold output?
  cases t.readText source with
  | error e => simp
  | ok text =>
    simp only [Except.ok.injEq, exists_eq_left']
    cases compile separator text <;> simp [Except.toOption]

/-- The files at the places of the sources are texts. -/
def SourcesAreTexts (t : FileTree) (pairs : Pairs) : Prop :=
  ∀ pair ∈ pairs, ∀ bytes, t.at? (pair.1.resolve t.workingDir) = some (.file bytes) →
    Utf8.decode? bytes ≠ none

instance (entry : Option Entry) :
    Decidable (∀ bytes, entry = some (.file bytes) → Utf8.decode? bytes ≠ none) :=
  match entry with
  | some (.file bytes) => decidable_of_iff (Utf8.decode? bytes ≠ none) (by simp)
  | some .dir => .isTrue (by simp)
  | none => .isTrue (by simp)

instance (t : FileTree) (pairs : Pairs) : Decidable (SourcesAreTexts t pairs) :=
  inferInstanceAs (Decidable (∀ pair ∈ pairs, _))

/-- The source compiles and a file can be put at the destination. -/
def Succeeds (separator : Text) (t : FileTree) (pair : Path × Path) : Prop :=
  (output? separator t pair.1).isSome = true ∧ t.Writable pair.2

instance (separator : Text) (t : FileTree) (pair : Path × Path) :
    Decidable (Succeeds separator t pair) :=
  inferInstanceAs (Decidable (_ ∧ _))

namespace FileTree

variable {t t' : FileTree} {p : Path} {l : Location}

/-- In a tree that hangs together, only the file at its place decides what a path reads. -/
theorem readText_eq_ok_iff (ht : t.Coherent) (hp : p.IsPlain) {text : Text} :
    t.readText p = .ok text ↔ p.Short ∧ (∀ name ∈ p.parts, ShortName name) ∧
      ∃ bytes raw, t.at? (p.resolve t.workingDir) = some (.file bytes) ∧
        Utf8.decode? bytes = some raw ∧ Text.unifyBreaks raw = text := by
  have hread {bytes : Utf8.Bytes} : t.read p = .ok bytes ↔ p.Short ∧
      (∀ name ∈ p.parts, ShortName name) ∧ t.at? (p.resolve t.workingDir) = some (.file bytes) :=
    read_eq_ok_iff ht hp.descends
  rw [readText, readBytes_of_not_refused hp.usable]
  cases hr : t.read p with
  | error e =>
    simp only [Except.mapError, bind, Except.bind, reduceCtorEq, false_iff]
    rintro ⟨hshort, hnames, bytes, raw, hat, -⟩
    simp [hread.mpr ⟨hshort, hnames, hat⟩] at hr
  | ok bytes =>
    obtain ⟨hshort, hnames, hat⟩ := hread.mp hr
    simp only [Except.mapError, bind, Except.bind, hshort, hat, true_and]
    cases hd : Utf8.decode? bytes with
    | none => simp [hd]
    | some raw => simpa [hd, pure, Except.pure] using fun _ => hnames

/-- What is read depends on the tree through the file at the path's place. -/
theorem readText_congr (ht : t.Coherent) (ht' : t'.Coherent) (hp : p.IsPlain)
    (hwd : t'.workingDir = t.workingDir)
    (hfile : ∀ bytes, t'.at? (p.resolve t.workingDir) = some (.file bytes) ↔
      t.at? (p.resolve t.workingDir) = some (.file bytes)) {text : Text} :
    t'.readText p = .ok text ↔ t.readText p = .ok text := by
  rw [readText_eq_ok_iff ht hp, readText_eq_ok_iff ht' hp, hwd]
  simp only [hfile]

/-- The missing directories above the place that a path leads to can be made. -/
theorem Writable.reaches_parent (ht : t.Coherent) (h : t.Writable p) :
    p.parent.Short ∧ t.Reaches p.parent p.parent.parts.length := by
  rw [Path.parent_eq_front]
  refine ⟨h.short.front _, fun i hi => ?_, fun name hname => ?_⟩
  · have hi' : i ≤ p.parts.length - 1 := by simpa [Path.front] using hi
    rw [Path.stage_front hi']
    rcases Nat.eq_zero_or_pos p.parts.length with hzero | hpos
    · -- a path without components leads to the directory that it sets out from
      obtain rfl : i = 0 := by omega
      exact isFile_of_dir (by simpa [Path.stage] using ht.start p)
    · exact h.noFile i (by omega)
  · exact h.names name (List.mem_of_mem_take (List.mem_of_mem_take hname))

/-- All that a path passes on its way down is made. -/
theorem Writable.made_stage (ht : t.Coherent) (h : t.Writable p) {k : Nat} (hk : k < p.parts.length) :
    t.Made p.parent (p.stage t.workingDir k) := by
  obtain ⟨hshort, hreach⟩ := h.reaches_parent ht
  have hlen : k ≤ p.parent.parts.length := by
    simp [Path.parent]
    omega
  refine ⟨hshort, k, hlen, ?_, hreach.mono hlen⟩
  rw [Path.parent_eq_front, Path.stage_front (by omega)]

/-- The directory that a written file stands in is made. -/
theorem Writable.made_above (ht : t.Coherent) (hp : parentMark ∉ p.parts) (h : t.Writable p)
    {name : Codes} (heq : p.resolve t.workingDir = l ++ [name]) : t.Made p.parent l := by
  obtain ⟨hshort, hreach⟩ := h.reaches_parent ht
  refine ⟨hshort, p.parent.parts.length, le_rfl, ?_, hreach⟩
  have hdir := h.notDir
  rw [Path.resolve_of_descends hp] at heq hdir
  rcases List.eq_nil_or_concat p.parts with hnil | ⟨init, last, hparts⟩
  · rw [hnil, List.append_nil] at hdir
    exact absurd (ht.start p) hdir
  · rw [hparts, List.concat_eq_append, ← List.append_assoc] at heq
    obtain ⟨rfl, -⟩ := List.append_inj' heq rfl
    simp [Path.stage, Path.parent, Path.start, hparts]

/-- The directories that are made for a destination are above it. -/
theorem Made.begins_resolve (hp : parentMark ∉ p.parts) (h : t.Made p.parent l) :
    l <+: p.resolve t.workingDir := by
  obtain ⟨-, k, hk, rfl, -⟩ := h
  rw [Path.parent_eq_front] at hk ⊢
  rw [Path.stage_front (by simpa [Path.front] using hk)]
  exact Path.stage_begins hp _ k

theorem Made.parent_ne (ht : t.Coherent) (hp : parentMark ∉ p.parts) (h : t.Made p.parent l)
    (hdir : t.at? (p.resolve t.workingDir) ≠ some .dir) : l ≠ p.resolve t.workingDir := by
  rintro rfl
  obtain ⟨-, k, hk, heq, -⟩ := h
  rw [Path.parent_eq_front] at hk heq
  have hk' : k ≤ p.parts.length - 1 := by simpa [Path.front] using hk
  rw [Path.stage_front hk', Path.resolve_of_descends hp, Path.stage,
    List.append_cancel_left_eq] at heq
  have hlen := congrArg List.length heq
  rw [List.length_take] at hlen
  have hnil : p.parts = [] := List.length_eq_zero_iff.mp (by omega)
  rw [Path.resolve_of_descends hp, hnil, List.append_nil] at hdir
  exact hdir (ht.start p)

/-- A directory that is made stands in one that is made too, unless it was there before. -/
theorem Made.above (ht : t.Coherent) {name : Codes} (h : t.Made p (l ++ [name])) :
    t.Made p l ∨ t.at? l = some .dir := by
  obtain ⟨hshort, k, hk, heq, hreach⟩ := h
  cases k with
  | zero =>
    have hstart := ht.start p
    rw [show p.start t.workingDir = l ++ [name] by simpa [Path.stage] using heq.symm] at hstart
    exact .inr (ht.dir_of_child l name (by simp [hstart]))
  | succ k =>
    rw [Path.stage, List.take_succ_eq_append_getElem hk, ← List.append_assoc] at heq
    obtain ⟨rfl, -⟩ := List.append_inj' heq rfl
    exact .inl ⟨hshort, k, by omega, rfl, hreach.mono (by omega)⟩

section

variable {made last : FileTree} {content : Utf8.Bytes}

/-- No directory that is made is in the way of the file. -/
theorem Writable.open_of_made (ht : t.Coherent) (hp : parentMark ∉ p.parts) (h : t.Writable p)
    (hdirs : ∀ l, made.at? l = some .dir ↔ t.at? l = some .dir ∨ t.Made p.parent l) :
    made.at? (p.resolve t.workingDir) ≠ some .dir := by
  intro hdir
  rcases (hdirs _).mp hdir with hold | hnew
  · exact h.notDir hold
  · exact hnew.parent_ne ht hp h.notDir rfl

/-- With the directories above it made, a writable destination can be written, and no other. -/
theorem write_made_iff (ht : t.Coherent) (hp : parentMark ∉ p.parts)
    (hadded : DirsAdded (t.Made p.parent) t made)
    (hdirs : ∀ l, made.at? l = some .dir ↔ t.at? l = some .dir ∨ t.Made p.parent l) :
    made.write p content = .ok last ↔
      last = made.set (p.resolve t.workingDir) (.file content) ∧ t.Writable p := by
  rw [write_eq_ok_iff hp, hadded.workingDir]
  refine and_congr_right fun _ => ⟨?_, fun h => ?_⟩
  · rintro ⟨hopen, hshort, hnames, hway⟩
    refine ⟨hshort, hnames, fun k hk => ?_, fun h => hopen (hadded.dir h)⟩
    rw [← hadded.isFile_eq]
    exact isFile_of_dir (hway k hk)
  · exact ⟨h.open_of_made ht hp hdirs, h.short, h.names,
      fun k hk => (hdirs _).mpr (.inr (h.made_stage ht hk))⟩

end

end FileTree

theorem output?_congr {separator : Text} {t t' : FileTree} {source : Path} (ht : t.Coherent)
    (ht' : t'.Coherent) (hp : source.IsPlain) (hwd : t'.workingDir = t.workingDir)
    (hfile : ∀ bytes, t'.at? (source.resolve t.workingDir) = some (.file bytes) ↔
      t.at? (source.resolve t.workingDir) = some (.file bytes)) :
    output? separator t' source = output? separator t source := by
  apply Option.ext
  intro output
  rw [output?_eq_some_iff, output?_eq_some_iff]
  exact exists_congr fun text => and_congr_left fun _ =>
    FileTree.readText_congr ht ht' hp hwd hfile

/-- The status of a turn and the tree it leaves, from what the source compiles to and from the files
above the destination. -/
structure Effect (separator : Text) (t : FileTree) (source destination : Path)
    (outcome : PairOutcome) : Prop where
  workingDir : outcome.tree.workingDir = t.workingDir
  written_iff : outcome.status = .written ↔ Succeeds separator t (source, destination)
  failed_iff : outcome.status = .failed ↔ ¬Succeeds separator t (source, destination)
  dir_iff : ∀ l, outcome.tree.at? l = some .dir ↔ t.at? l = some .dir ∨
    ((output? separator t source).isSome = true ∧ t.Made destination.parent l)
  file_iff : ∀ l, (Succeeds separator t (source, destination) →
      destination.resolve t.workingDir ≠ l) →
    ∀ content, outcome.tree.at? l = some (.file content) ↔ t.at? l = some (.file content)
  output : ∀ text, output? separator t source = some text → t.Writable destination →
    outcome.tree.at? (destination.resolve t.workingDir) = some (.file (Utf8.encode text))

section

variable {separator : Text} {t : FileTree} {source destination : Path}

/-- Writing makes the directories that it can, and then the file if nothing is in the way. -/
theorem writeOutput_exact (ht : t.Coherent) (hp : destination.IsPlain) (output : Text) :
    let outcome := writeOutput t source destination output
    (outcome.status = .written ∧ t.Writable destination ∨
      outcome.status = .failed ∧ ¬t.Writable destination) ∧
    ∀ l, outcome.tree.at? l = some .dir ↔ t.at? l = some .dir ∨ t.Made destination.parent l := by
  have hparent : destination.parent.IsPlain := by
    rw [Path.parent_eq_front]
    exact hp.front _
  obtain ⟨hadded, hmade, hcomplete⟩ := t.makeDirs_exact hparent.descends
  have hdirs (l : Location) : (t.makeDirs destination.parent).1.at? l = some .dir ↔
      t.at? l = some .dir ∨ t.Made destination.parent l :=
    ⟨hadded.dir_or, fun h => h.elim hadded.dir (hmade l)⟩
  simp only [writeOutput, Path.refusal?_eq_none_iff.mpr hparent.usable,
    Path.refusal?_eq_none_iff.mpr hp.usable, Codes.encode?_codes, Option.getD_some,
    Option.isSome_some, if_true]
  cases hm : t.makeDirs destination.parent with
  | mk made failure =>
    rw [hm] at hadded hmade hcomplete hdirs
    cases failure with
    | some f =>
      refine ⟨.inr ⟨rfl, fun h => ?_⟩, hdirs⟩
      simpa using hcomplete.mpr (h.reaches_parent ht)
    | none =>
      have hwrite {last : FileTree} : made.write destination (Utf8.encode output) = .ok last ↔ _ :=
        FileTree.write_made_iff ht hp.descends hadded hdirs
      dsimp only
      cases hw : made.write destination (Utf8.encode output) with
      | error e =>
        refine ⟨.inr ⟨rfl, fun h => ?_⟩, hdirs⟩
        simp [hwrite.mpr ⟨rfl, h⟩] at hw
      | ok last =>
        obtain ⟨rfl, hwritable⟩ := hwrite.mp hw
        have hopen := hwritable.open_of_made ht hp.descends hdirs
        refine ⟨.inl ⟨rfl, hwritable⟩, fun l => ?_⟩
        exact (FileTree.dir_set_iff hopen).trans (hdirs l)

/-- A turn has its effect, whichever way the attempt goes. -/
theorem effect_buildPair (ht : t.Coherent) (hs : source.IsPlain) (hd : destination.IsPlain)
    (htext : ∀ bytes, t.at? (source.resolve t.workingDir) = some (.file bytes) →
      Utf8.decode? bytes ≠ none) :
    Effect separator t source destination (buildPair separator t source destination) := by
  have hattempt := attempt_buildPair separator t source destination
  have hgoal : ((buildPair separator t source destination).status = .written ∧
        Succeeds separator t (source, destination) ∨
      (buildPair separator t source destination).status = .failed ∧
        ¬Succeeds separator t (source, destination)) ∧
      ∀ l, (buildPair separator t source destination).tree.at? l = some .dir ↔
        t.at? l = some .dir ∨
          ((output? separator t source).isSome = true ∧ t.Made destination.parent l) := by
    simp only [buildPair, Succeeds, output?]
    cases hr : t.readText source with
    | error f =>
      cases f with
      | error e => simp
      | abort a =>
        obtain ⟨-, bytes, hread, hnone⟩ := undecodable_of_readText hr hs.usable
        exact absurd hnone (htext bytes (FileTree.at?_of_read hread))
    | ok text =>
      simp only [compileCodes_codes]
      obtain ⟨e, hc⟩ | ⟨output, hc⟩ := compile_cases separator text
      · simp [hc, Except.toOption, Except.map]
      · simpa [hc, Except.toOption, Except.map] using writeOutput_exact ht hd output
  obtain ⟨hstatus, hdirs⟩ := hgoal
  have hwritten : (buildPair separator t source destination).status = .written ↔
      Succeeds separator t (source, destination) := by
    rcases hstatus with ⟨hw, hyes⟩ | ⟨hf, hno⟩
    · simp [hw, hyes]
    · simp [hf, hno]
  refine ⟨hattempt.workingDir, hwritten, ?_, hdirs, ?_, ?_⟩
  · rcases hstatus with ⟨hw, hyes⟩ | ⟨hf, hno⟩
    · simp [hw, hyes]
    · simp [hf, hno]
  · intro l hl
    exact hattempt.file_iff fun hw => hl (hwritten.mp hw)
  · intro output hout hwritable
    obtain ⟨text, output', hr, hc, hat, -⟩ :=
      hattempt.of_written (hwritten.mpr ⟨by simp [hout], hwritable⟩)
    obtain ⟨text', hr', hc'⟩ := output?_eq_some_iff.mp hout
    obtain rfl : text = text' := by simpa [hr] using hr'
    obtain rfl : output' = output := by simpa [compileCodes_codes_eq_ok_iff.mp hc] using hc'
    exact hat

end

namespace Effect

variable {separator : Text} {t : FileTree} {source destination : Path} {outcome : PairOutcome}

theorem dir (h : Effect separator t source destination outcome) {l : Location}
    (hl : t.at? l = some .dir) : outcome.tree.at? l = some .dir :=
  (h.dir_iff l).mpr (.inl hl)

theorem not_aborted (h : Effect separator t source destination outcome) (a : Abort) :
    outcome.status ≠ .aborted a := by
  by_cases hyes : Succeeds separator t (source, destination)
  · simp [h.written_iff.mpr hyes]
  · simp [h.failed_iff.mpr hyes]

theorem isFile_eq (h : Effect separator t source destination outcome) {l : Location}
    (hl : Succeeds separator t (source, destination) → destination.resolve t.workingDir ≠ l) :
    outcome.tree.isFile l = t.isFile l := by
  rw [Bool.eq_iff_iff, FileTree.isFile_iff, FileTree.isFile_iff]
  exact exists_congr fun content => h.file_iff l hl content

/-- Nothing changes but the destination and the directories that are new. -/
theorem at?_eq (h : Effect separator t source destination outcome) {l : Location}
    (hl : Succeeds separator t (source, destination) → destination.resolve t.workingDir ≠ l)
    (hdir : outcome.tree.at? l = some .dir → t.at? l = some .dir) :
    outcome.tree.at? l = t.at? l := by
  apply Option.ext
  intro entry
  cases entry with
  | dir => exact ⟨hdir, h.dir⟩
  | file content => exact h.file_iff l hl content

/-- A file stays a file, whatever is written. -/
theorem isFile (h : Effect separator t source destination outcome) {l : Location}
    (hl : t.isFile l = true) : outcome.tree.isFile l = true := by
  obtain ⟨content, hcontent⟩ := FileTree.isFile_iff.mp hl
  by_cases hw : Succeeds separator t (source, destination) ∧ destination.resolve t.workingDir = l
  · obtain ⟨⟨hsome, hwritable⟩, rfl⟩ := hw
    obtain ⟨text, htext⟩ := Option.isSome_iff_exists.mp hsome
    exact FileTree.isFile_of_file (h.output text htext hwritable)
  · refine FileTree.isFile_of_file ((h.file_iff l (fun hyes heq => hw ⟨hyes, heq⟩) content).mpr ?_)
    exact hcontent

/-- A turn that aborts nothing, in front of the others. -/
theorem build_cons (h : Effect separator t source destination
      (buildPair separator t source destination)) (rest : Pairs) :
    let others := build separator (buildPair separator t source destination).tree rest
    (build separator t ((source, destination) :: rest)).abort = others.abort ∧
      (build separator t ((source, destination) :: rest)).tree = others.tree ∧
      (build separator t ((source, destination) :: rest)).failures =
        others.failures + if Succeeds separator t (source, destination) then 0 else 1 := by
  rw [build_of_not_aborted h.not_aborted]
  simp [h.failed_iff]

/-- A turn leaves a tree that hangs together. -/
theorem coherent (h : Effect separator t source destination outcome) (ht : t.Coherent)
    (hp : parentMark ∉ destination.parts) : outcome.tree.Coherent := by
  refine ⟨fun l name hne => ?_, by rw [h.workingDir]; exact h.dir ht.workingDir⟩
  cases hat : outcome.tree.at? (l ++ [name]) with
  | none => exact absurd hat hne
  | some entry =>
    cases entry with
    | dir =>
      rcases (h.dir_iff _).mp hat with hold | ⟨hsome, hmade⟩
      · exact h.dir (ht.dir_of_child l name (by simp [hold]))
      · rcases hmade.above ht with hmade | hold
        · exact (h.dir_iff l).mpr (.inr ⟨hsome, hmade⟩)
        · exact h.dir hold
    | file content =>
      by_cases hw : Succeeds separator t (source, destination) ∧
          destination.resolve t.workingDir = l ++ [name]
      · obtain ⟨⟨hsome, hwritable⟩, heq⟩ := hw
        exact (h.dir_iff l).mpr (.inr ⟨hsome, hwritable.made_above ht hp heq⟩)
      · have hold := (h.file_iff _ (fun hyes heq => hw ⟨hyes, heq⟩) content).mp hat
        exact h.dir (ht.dir_of_child l name (by simp [hold]))

end Effect
end IndentMarkup
