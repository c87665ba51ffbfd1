import IndentMarkup.Proofs.TurnEffects

/-!
# Building again

A build settles of what kind everything is: what it finds stays a file or a directory, and what it
makes stays so in all later turns. A second build therefore finds each pair as the first one left it:
the pair succeeds again or fails again, and makes no directory. Destinations that coincide are written
over in turn, as in the first build, and end with the same content.
-/
namespace IndentMarkup

namespace FileTree

variable {t t' t'' : FileTree} {p : Path} {l : Location}

/-! ## Kinds of entries -/

/-- What stands stays of its kind. -/
structure Grown (t t' : FileTree) : Prop where
  workingDir : t'.workingDir = t.workingDir
  dir : ∀ l, t.at? l = some .dir → t'.at? l = some .dir
  isFile : ∀ l, t.isFile l = true → t'.isFile l = true

/-- The same files and directories, whatever the files hold. -/
structure SameKinds (t t' : FileTree) : Prop where
  workingDir : t'.workingDir = t.workingDir
  dir_iff : ∀ l, t'.at? l = some .dir ↔ t.at? l = some .dir
  isFile_eq : ∀ l, t'.isFile l = t.isFile l

theorem Grown.refl (t : FileTree) : Grown t t := ⟨rfl, fun _ h => h, fun _ h => h⟩

theorem Grown.trans (h : Grown t t') (h' : Grown t' t'') : Grown t t'' :=
  ⟨h'.workingDir.trans h.workingDir, fun l hl => h'.dir l (h.dir l hl),
    fun l hl => h'.isFile l (h.isFile l hl)⟩

theorem SameKinds.refl (t : FileTree) : SameKinds t t := ⟨rfl, fun _ => .rfl, fun _ => rfl⟩

theorem SameKinds.grown (h : SameKinds t t') : Grown t t' :=
  ⟨h.workingDir, fun l hl => (h.dir_iff l).mpr hl, fun l hl => (h.isFile_eq l).trans hl⟩

/-- Nothing stands where neither a directory nor a file does. -/
theorem at?_eq_none_iff : t.at? l = none ↔ t.at? l ≠ some .dir ∧ t.isFile l = false := by
  cases hat : t.at? l with
  | none => simp [isFile, hat]
  | some entry => cases entry <;> simp [isFile, hat]

theorem SameKinds.coherent (h : SameKinds t t') (ht : t.Coherent) : t'.Coherent := by
  refine ⟨fun l name hne => ?_, by rw [h.workingDir]; exact (h.dir_iff _).mpr ht.workingDir⟩
  refine (h.dir_iff l).mpr (ht.dir_of_child l name ?_)
  rw [Ne, at?_eq_none_iff] at hne ⊢
  simpa only [ne_eq, h.dir_iff, h.isFile_eq] using hne

theorem Grown.noFile (h : Grown t t') (hl : t'.isFile l = false) : t.isFile l = false := by
  rw [← Bool.not_eq_true] at hl ⊢
  exact fun hfile => hl (h.isFile l hfile)

/-- Fewer files stop fewer directories. -/
theorem Grown.made (h : Grown t t') (hmade : t'.Made p l) : t.Made p l := by
  obtain ⟨hshort, k, hk, rfl, hno, hnames⟩ := hmade
  rw [h.workingDir] at hno ⊢
  exact ⟨hshort, k, hk, rfl, fun i hi => h.noFile (hno i hi), hnames⟩

/-- What can be written in a grown tree could be written before. -/
theorem Grown.writable (h : Grown t t') (hw : t'.Writable p) : t.Writable p := by
  obtain ⟨hshort, hnames, hno, hdir⟩ := hw
  rw [h.workingDir] at hno hdir
  exact ⟨hshort, hnames, fun k hk => h.noFile (hno k hk), fun hat => hdir (h.dir _ hat)⟩

end FileTree

/-! ## One turn, once and again -/

namespace Effect

variable {separator : Text} {t t' s : FileTree} {p : Path × Path} {outcome : PairOutcome}

/-- A turn leaves files and directories what they are. -/
theorem grown (h : Effect separator t p.1 p.2 outcome) : FileTree.Grown t outcome.tree :=
  ⟨h.workingDir, fun _ => h.dir, fun _ => h.isFile⟩

/-- In a tree that has grown from what a turn left, the pair makes no directory. -/
theorem dir_of_made (h : Effect separator t p.1 p.2 outcome)
    (hout : (output? separator t p.1).isSome = true) (hgrown : FileTree.Grown outcome.tree s)
    {l : Location} (hmade : s.Made p.2.parent l) : s.at? l = some .dir := by
  have hold : t.Made p.2.parent l := (h.grown.trans hgrown).made hmade
  exact hgrown.dir l ((h.dir_iff l).mpr (.inr ⟨hout, hold⟩))

/-- Once it is written, a destination stays a file. -/
theorem isFile_destination (h : Effect separator t p.1 p.2 outcome)
    (hyes : Succeeds separator t p) (hgrown : FileTree.Grown outcome.tree s) :
    s.isFile (p.2.resolve t.workingDir) = true := by
  obtain ⟨output, hout⟩ := Option.isSome_iff_exists.mp hyes.1
  exact hgrown.isFile _ (FileTree.isFile_of_file (h.output output hout hyes.2))

/-- In a tree that has grown from what a turn left, the pair succeeds if it did. -/
theorem writable_iff_of_grown (h : Effect separator t p.1 p.2 outcome) (ht : t.Coherent)
    (hout : (output? separator t p.1).isSome = true) (hgrown : FileTree.Grown outcome.tree s) :
    s.Writable p.2 ↔ t.Writable p.2 := by
  refine ⟨(h.grown.trans hgrown).writable, fun hw => ?_⟩
  have hwd : s.workingDir = t.workingDir := hgrown.workingDir.trans h.workingDir
  refine ⟨hw.short, hw.names, fun k hk => ?_, ?_⟩
  · have hmade := (h.dir_iff _).mpr (.inr ⟨hout, hw.made_stage ht hk⟩)
    rw [hwd]
    exact FileTree.isFile_of_dir (hgrown.dir _ hmade)
  · intro hdir
    have hfile := h.isFile_destination ⟨hout, hw⟩ hgrown
    rw [hwd] at hdir
    simp [FileTree.isFile_of_dir hdir] at hfile

/-- The pair's second turn changes no more than the content of its destination. -/
theorem sameKinds (h : Effect separator t p.1 p.2 outcome)
    (hgrown : FileTree.Grown outcome.tree s) (hout : output? separator s p.1 = output? separator t p.1)
    {again : PairOutcome} (hagain : Effect separator s p.1 p.2 again)
    (hyes : Succeeds separator s p ↔ Succeeds separator t p) :
    FileTree.SameKinds s again.tree := by
  have hwd : s.workingDir = t.workingDir := hgrown.workingDir.trans h.workingDir
  refine ⟨hagain.workingDir, fun l => ?_, fun l => ?_⟩
  · rw [hagain.dir_iff l, hout]
    exact or_iff_left_of_imp fun ⟨hsome, hmade⟩ => h.dir_of_made hsome hgrown hmade
  · by_cases hl : Succeeds separator s p ∧ p.2.resolve s.workingDir = l
    · obtain ⟨hsuccess, rfl⟩ := hl
      have hfile : s.isFile (p.2.resolve s.workingDir) = true := by
        rw [hwd]
        exact h.isFile_destination (hyes.mp hsuccess) hgrown
      rw [hfile, hagain.isFile hfile]
    · exact hagain.isFile_eq fun hsuccess heq => hl ⟨hsuccess, heq⟩

end Effect

/-! ## All turns, once and again -/

/-- A tree that hangs together, and pairs whose paths only go down, whose sources are texts and whose
destinations are at no source's place. -/
structure Repeatable (t : FileTree) (pairs : Pairs) : Prop where
  coherent : t.Coherent
  plain : PlainPairs pairs
  texts : SourcesAreTexts t pairs
  sources : ∀ p ∈ pairs, ∀ q ∈ pairs, p.2.resolve t.workingDir ≠ q.1.resolve t.workingDir

namespace Repeatable

variable {separator : Text} {t s : FileTree} {p : Path × Path} {pairs rest : Pairs}

theorem effect (h : Repeatable t (p :: rest)) :
    Effect separator t p.1 p.2 (buildPair separator t p.1 p.2) :=
  effect_buildPair h.coherent (h.plain p (by simp)).1 (h.plain p (by simp)).2
    (h.texts p (by simp))

/-- What is asked of a tree for a second build, it keeps from turn to turn. -/
theorem next (h : Repeatable t (p :: rest)) :
    Repeatable (buildPair separator t p.1 p.2).tree rest := by
  have heffect : Effect separator t p.1 p.2 (buildPair separator t p.1 p.2) := h.effect
  refine ⟨heffect.coherent h.coherent (h.plain p (by simp)).2.descends,
    fun q hq => h.plain q (List.mem_cons_of_mem p hq), ?_, ?_⟩
  · intro q hq bytes hat
    rw [heffect.workingDir] at hat
    have hother := h.sources p (by simp) q (List.mem_cons_of_mem p hq)
    exact h.texts q (List.mem_cons_of_mem p hq) bytes
      ((heffect.file_iff _ (fun _ => hother) bytes).mp hat)
  · rw [heffect.workingDir]
    exact fun q hq r hr => h.sources q (List.mem_cons_of_mem p hq) r (List.mem_cons_of_mem p hr)

/-- A build leaves everything of its kind, and a tree that hangs together. -/
theorem grown_build (h : Repeatable t pairs) :
    FileTree.Grown t (build separator t pairs).tree ∧ (build separator t pairs).tree.Coherent := by
  induction pairs generalizing t with
  | nil => exact ⟨.refl t, h.coherent⟩
  | cons p rest ih =>
    have heffect : Effect separator t p.1 p.2 (buildPair separator t p.1 p.2) := h.effect
    have hnext : Repeatable (buildPair separator t p.1 p.2).tree rest := h.next
    obtain ⟨hgrown, hcoherent⟩ := ih hnext
    rw [(heffect.build_cons rest).2.1]
    exact ⟨heffect.grown.trans hgrown, hcoherent⟩

/-- No source is touched. -/
theorem source_iff (h : Repeatable t pairs) (hp : p ∈ pairs) (bytes : Utf8.Bytes) :
    (build separator t pairs).tree.at? (p.1.resolve t.workingDir) = some (.file bytes) ↔
      t.at? (p.1.resolve t.workingDir) = some (.file bytes) := by
  rw [(build_eq_turns separator t pairs).1]
  refine (successive_turns separator t pairs).file_iff (fun u hu _ => ?_) bytes
  exact h.sources u.pair (pair_mem_of_mem_turns hu) p hp

end Repeatable

/-- Everything is of the kind that the build leaves, and stands at each place as before or after it. -/
structure Midway (separator : Text) (t : FileTree) (pairs : Pairs) (s : FileTree) : Prop where
  kinds : FileTree.SameKinds (build separator t pairs).tree s
  mixed : ∀ l, s.at? l = t.at? l ∨ s.at? l = (build separator t pairs).tree.at? l

namespace Midway

variable {separator : Text} {t s : FileTree} {p : Path × Path} {pairs rest : Pairs}

theorem workingDir (hs : Midway separator t pairs s) (h : Repeatable t pairs) :
    s.workingDir = t.workingDir := by
  have hgrown : FileTree.Grown t (build separator t pairs).tree := h.grown_build.1
  exact hs.kinds.workingDir.trans hgrown.workingDir

/-- Midway through the second build, the sources are as before the first one. -/
theorem source_iff (hs : Midway separator t pairs s) (h : Repeatable t pairs) (hp : p ∈ pairs)
    (bytes : Utf8.Bytes) :
    s.at? (p.1.resolve t.workingDir) = some (.file bytes) ↔
      t.at? (p.1.resolve t.workingDir) = some (.file bytes) := by
  rcases hs.mixed (p.1.resolve t.workingDir) with heq | heq
  · rw [heq]
  · rw [heq]
    exact h.source_iff hp bytes

theorem repeatable (hs : Midway separator t pairs s) (h : Repeatable t pairs) :
    Repeatable s pairs := by
  have hcoherent : (build separator t pairs).tree.Coherent := h.grown_build.2
  refine ⟨hs.kinds.coherent hcoherent, h.plain, fun q hq bytes hat => ?_, ?_⟩
  · rw [hs.workingDir h] at hat
    exact h.texts q hq bytes ((hs.source_iff h hq bytes).mp hat)
  · rw [hs.workingDir h]
    exact h.sources

/-- The tree that the rest of the pairs find, in the first build and in the one midway. -/
theorem next (hs : Midway separator t (p :: rest) s) (h : Repeatable t (p :: rest)) :
    (Succeeds separator s p ↔ Succeeds separator t p) ∧
      Midway separator (buildPair separator t p.1 p.2).tree rest
        (buildPair separator s p.1 p.2).tree := by
  have hfirst : Effect separator t p.1 p.2 (buildPair separator t p.1 p.2) := h.effect
  have hagain : Effect separator s p.1 p.2 (buildPair separator s p.1 p.2) :=
    (hs.repeatable h).effect
  have hrest : Repeatable (buildPair separator t p.1 p.2).tree rest := h.next
  have hlater : FileTree.Grown (buildPair separator t p.1 p.2).tree
      (build separator (buildPair separator t p.1 p.2).tree rest).tree := hrest.grown_build.1
  have hkinds := hs.kinds
  have hmixed := hs.mixed
  rw [(hfirst.build_cons rest).2.1] at hkinds hmixed
  have hgrown := hlater.trans hkinds.grown
  have hout : output? separator s p.1 = output? separator t p.1 :=
    output?_congr h.coherent (hs.repeatable h).coherent (h.plain p (by simp)).1 (hs.workingDir h)
      (hs.source_iff h (by simp))
  have hyes : Succeeds separator s p ↔ Succeeds separator t p := by
    rw [Succeeds, Succeeds, hout]
    exact and_congr_right fun hsome => hfirst.writable_iff_of_grown h.coherent hsome hgrown
  have hsame := hfirst.sameKinds hgrown hout hagain hyes
  refine ⟨hyes, ?_, fun l => ?_⟩
  · exact ⟨hsame.workingDir.trans hkinds.workingDir,
      fun l => (hsame.dir_iff l).trans (hkinds.dir_iff l),
      fun l => (hsame.isFile_eq l).trans (hkinds.isFile_eq l)⟩
  · by_cases hl : Succeeds separator t p ∧ p.2.resolve t.workingDir = l
    · -- both turns have put the same text in place
      obtain ⟨hsuccess, rfl⟩ := hl
      obtain ⟨output, houtput⟩ := Option.isSome_iff_exists.mp hsuccess.1
      have hput := hagain.output output (hout.trans houtput) (hyes.mpr hsuccess).2
      rw [hs.workingDir h] at hput
      exact .inl (hput.trans (hfirst.output output houtput hsuccess.2).symm)
    · have hkept : (buildPair separator s p.1 p.2).tree.at? l = s.at? l := by
        refine hagain.at?_eq (fun hsuccess heq => hl ⟨hyes.mp hsuccess, ?_⟩) (hsame.dir_iff l).mp
        rwa [hs.workingDir h] at heq
      rw [hkept]
      by_cases hdir : (buildPair separator t p.1 p.2).tree.at? l = some .dir
      · -- a directory that the first turn made is there at the end, and midway
        have hend := hlater.dir l hdir
        exact .inr (((hkinds.dir_iff l).mpr hend).trans hend.symm)
      · rw [hfirst.at?_eq (fun hsuccess heq => hl ⟨hsuccess, heq⟩) (absurd · hdir)]
        exact hmixed l

end Midway

/-- The end of the build is midway as well. -/
theorem midway_build (separator : Text) (t : FileTree) (pairs : Pairs) :
    Midway separator t pairs (build separator t pairs).tree :=
  ⟨.refl _, fun _ => .inr rfl⟩

/-- From midway, the same build leads to the same end. -/
theorem build_of_midway {separator : Text} {t s : FileTree} {pairs : Pairs} (h : Repeatable t pairs)
    (hs : Midway separator t pairs s) :
    (build separator s pairs).tree.Alike (build separator t pairs).tree ∧
      (build separator s pairs).failures = (build separator t pairs).failures := by
  induction pairs generalizing t s with
  | nil => exact ⟨⟨hs.kinds.workingDir, fun l => (hs.mixed l).elim id id⟩, rfl⟩
  | cons p rest ih =>
    have hfirst : Effect separator t p.1 p.2 (buildPair separator t p.1 p.2) := h.effect
    have hagain : Effect separator s p.1 p.2 (buildPair separator s p.1 p.2) :=
      (hs.repeatable h).effect
    obtain ⟨hyes, hnext⟩ := hs.next h
    obtain ⟨halike, hcount⟩ := ih h.next hnext
    obtain ⟨-, htree, hfailures⟩ := hfirst.build_cons rest
    obtain ⟨-, htree', hfailures'⟩ := hagain.build_cons rest
    refine ⟨by rw [htree, htree']; exact halike, ?_⟩
    rw [hfailures, hfailures', hcount]
    simp only [hyes]

end IndentMarkup
