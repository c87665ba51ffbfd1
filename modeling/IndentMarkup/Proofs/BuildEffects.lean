import IndentMarkup.Proofs.Turns

/-!
# What a build does to the tree

A build touches the files at its destinations and makes the directories above them, and nothing else.
Each turn is looked at by itself: it leaves the tree alone unless its source compiles, makes
directories whether or not it can write in the end, and changes one file when it can. The rest is a
matter of following places through the turns that come after.
-/
namespace IndentMarkup

/-! ## One turn -/

namespace FileTree

variable {t : FileTree} {place l : Location} {bytes content : Utf8.Bytes}

/-- A file that is put where no directory stands makes no difference to directories. -/
theorem dir_set_iff (hdir : t.at? place ≠ some .dir) :
    (t.set place (.file bytes)).at? l = some .dir ↔ t.at? l = some .dir := by
  by_cases hl : place = l
  · subst hl
    simp [at?_set_of_ne_dir hdir, hdir]
  · rw [at?_set_of_ne _ _ hl]

/-- A file is the one that was put in place, or was there before. -/
theorem file_set_or (hdir : t.at? place ≠ some .dir)
    (hl : (t.set place (.file bytes)).at? l = some (.file content)) :
    t.at? l = some (.file content) ∨ content = bytes := by
  by_cases hplace : place = l
  · subst hplace
    rw [at?_set_of_ne_dir hdir] at hl
    exact .inr (by simpa using hl.symm)
  · rw [at?_set_of_ne _ _ hplace] at hl
    exact .inl hl

end FileTree

section

variable {separator : Codes} {t : FileTree} {source destination : Path} {outcome : PairOutcome}
  {l : Location}

namespace Attempt

theorem workingDir (h : Attempt separator t source destination outcome) :
    outcome.tree.workingDir = t.workingDir := by
  cases h with
  | unread _ => rfl
  | aborted _ => rfl
  | halfDedent _ _ => rfl
  | unwritten _ _ hmade => exact hmade.workingDir
  | refused _ _ _ hmade => exact hmade.workingDir
  | emptied _ _ _ _ hmade _ => exact hmade.workingDir
  | written _ _ hmade _ => exact hmade.workingDir

/-- A source that is missing, is no file or does not compile leaves the tree alone. -/
theorem tree_eq (h : Attempt separator t source destination outcome)
    (hc : ¬Compiles separator t source) : outcome.tree = t := by
  cases h with
  | unread _ => rfl
  | aborted _ => rfl
  | halfDedent _ _ => rfl
  | unwritten hr hcompile _ => exact absurd ⟨_, _, hr, hcompile⟩ hc
  | refused hr hcompile _ _ => exact absurd ⟨_, _, hr, hcompile⟩ hc
  | emptied hr hcompile _ _ _ _ => exact absurd ⟨_, _, hr, hcompile⟩ hc
  | written hr hcompile _ _ => exact absurd ⟨_, _, hr, hcompile⟩ hc

/-- With a separator that is a text, no file but that of a destination which is written is made,
changed or taken away. -/
theorem file_iff {separator : Text} (h : Attempt separator t source destination outcome)
    (hl : outcome.status = .written → destination.resolve t.workingDir ≠ l)
    (content : Utf8.Bytes) :
    outcome.tree.at? l = some (.file content) ↔ t.at? l = some (.file content) := by
  cases h with
  | unread _ => rfl
  | aborted _ => rfl
  | halfDedent _ _ => rfl
  | unwritten _ _ hmade => exact hmade.file_iff l content
  | refused _ _ _ hmade => exact hmade.file_iff l content
  | emptied _ hc hnone _ _ _ => exact absurd hnone (text?_of_compileCodes hc)
  | written _ _ hmade _ =>
    rw [FileTree.at?_set_of_ne _ _ (hl rfl)]
    exact hmade.file_iff l content

/-- No directory is taken away. -/
theorem dir (h : Attempt separator t source destination outcome) (hl : t.at? l = some .dir) :
    outcome.tree.at? l = some .dir := by
  cases h with
  | unread _ => exact hl
  | aborted _ => exact hl
  | halfDedent _ _ => exact hl
  | unwritten _ _ hmade => exact hmade.dir hl
  | refused _ _ _ hmade => exact hmade.dir hl
  | emptied _ _ _ _ hmade hdir => exact (FileTree.dir_set_iff hdir).mpr (hmade.dir hl)
  | written _ _ hmade hdir => exact (FileTree.dir_set_iff hdir).mpr (hmade.dir hl)

/-- A new directory is above the destination of a source that compiles. -/
theorem dir_or (h : Attempt separator t source destination outcome)
    (hl : outcome.tree.at? l = some .dir) :
    t.at? l = some .dir ∨ (Compiles separator t source ∧ AboveDestination t destination l) := by
  have hnew {made : FileTree} (hc : Compiles separator t source)
      (hmade : FileTree.DirsAdded (AboveDestination t destination) t made)
      (hdir : made.at? l = some .dir) :
      t.at? l = some .dir ∨ (Compiles separator t source ∧ AboveDestination t destination l) :=
    (hmade.dir_or hdir).imp_right fun habove => ⟨hc, habove⟩
  cases h with
  | unread _ => exact .inl hl
  | aborted _ => exact .inl hl
  | halfDedent _ _ => exact .inl hl
  | unwritten hr hc hmade => exact hnew ⟨_, _, hr, hc⟩ hmade hl
  | refused hr hc _ hmade => exact hnew ⟨_, _, hr, hc⟩ hmade hl
  | emptied hr hc _ _ hmade hdir =>
    exact hnew ⟨_, _, hr, hc⟩ hmade ((FileTree.dir_set_iff hdir).mp hl)
  | written hr hc hmade hdir =>
    exact hnew ⟨_, _, hr, hc⟩ hmade ((FileTree.dir_set_iff hdir).mp hl)

/-- Every file is an old one or holds a text. -/
theorem file_or (h : Attempt separator t source destination outcome) {content : Utf8.Bytes}
    (hl : outcome.tree.at? l = some (.file content)) :
    t.at? l = some (.file content) ∨ ∃ output, content = Utf8.encode output := by
  cases h with
  | unread _ => exact .inl hl
  | aborted _ => exact .inl hl
  | halfDedent _ _ => exact .inl hl
  | unwritten _ _ hmade => exact .inl ((hmade.file_iff l content).mp hl)
  | refused _ _ _ hmade => exact .inl ((hmade.file_iff l content).mp hl)
  | emptied _ _ _ _ hmade hdir =>
    exact (FileTree.file_set_or hdir hl).imp (hmade.file_iff l content).mp fun hempty =>
      ⟨[], hempty⟩
  | written _ _ hmade hdir =>
    exact (FileTree.file_set_or hdir hl).imp (hmade.file_iff l content).mp fun houtput =>
      ⟨_, houtput⟩

end Attempt
end

/-! ## Turns one after the other -/

namespace Successive

variable {separator : Codes} {t : FileTree} {us : List Turn} {l : Location}

/-- All turns see one working directory, so that paths keep their places throughout a build. -/
theorem workingDir (h : Successive separator t us) :
    (treeAfter t us).workingDir = t.workingDir ∧ ∀ u ∈ us, u.found.workingDir = t.workingDir := by
  induction h with
  | nil => simp [treeAfter]
  | cons hfound hu _ ih =>
    rw [hu.workingDir] at ih
    refine ⟨ih.1, ?_⟩
    intro v hv
    rcases List.mem_cons.mp hv with rfl | hv
    · rw [hfound]
    · exact ih.2 v hv

/-- A file stays as it is for as long as no turn is written at its place. -/
theorem file_iff {separator : Text} (h : Successive separator t us)
    (hl : ∀ u ∈ us, u.outcome.status = .written → u.destination.resolve t.workingDir ≠ l)
    (content : Utf8.Bytes) :
    (treeAfter t us).at? l = some (.file content) ↔ t.at? l = some (.file content) := by
  induction h with
  | nil => rfl
  | @cons t u us hfound hu _ ih =>
    rw [hu.workingDir] at ih
    exact (ih fun v hv => hl v (List.mem_cons_of_mem u hv)).trans
      (hu.file_iff (hl u (by simp)) content)

/-- A build takes no directory away. -/
theorem dir (h : Successive separator t us) (hl : t.at? l = some .dir) :
    (treeAfter t us).at? l = some .dir := by
  induction h with
  | nil => exact hl
  | cons _ hu _ ih => exact ih (hu.dir hl)

/-- Every directory was there, or was made above the destination of a source that compiles. -/
theorem dir_or (h : Successive separator t us) (hl : (treeAfter t us).at? l = some .dir) :
    t.at? l = some .dir ∨
      ∃ u ∈ us, Compiles separator u.found u.source ∧ AboveDestination t u.destination l := by
  induction h with
  | nil => exact .inl hl
  | @cons t u us hfound hu _ ih =>
    rcases ih hl with hdir | ⟨v, hv, hc, habove⟩
    · rcases hu.dir_or hdir with hdir | ⟨hc, habove⟩
      · exact .inl hdir
      · exact .inr ⟨u, by simp, by rwa [hfound], habove⟩
    · rw [AboveDestination, hu.workingDir] at habove
      exact .inr ⟨v, List.mem_cons_of_mem u hv, hc, habove⟩

/-- Every file is an old one or holds a text. -/
theorem file_or (h : Successive separator t us) {content : Utf8.Bytes}
    (hl : (treeAfter t us).at? l = some (.file content)) :
    t.at? l = some (.file content) ∨ ∃ output, content = Utf8.encode output := by
  induction h with
  | nil => exact .inl hl
  | cons _ hu _ ih =>
    rcases ih hl with hold | hnew
    · exact hu.file_or hold
    · exact .inr hnew

end Successive

/-- Where the files at the places of all sources are texts, no turn comes upon one that is not: what
an earlier turn left is a text as well. -/
theorem not_undecodable_of_mem_turns {separator : Codes} {t : FileTree} {pairs : Pairs}
    (htext : ∀ pair ∈ pairs, ∀ bytes, t.at? (pair.1.resolve t.workingDir) = some (.file bytes) →
      Utf8.decode? bytes ≠ none) :
    ∀ u ∈ turns separator t pairs, ¬Undecodable u.found u.source := by
  rintro u hu ⟨bytes, hread, hnone⟩
  have hsucc := successive_turns separator t pairs
  obtain ⟨before, after, hturns⟩ := List.append_of_mem hu
  rw [hturns, Successive.append_iff] at hsucc
  obtain ⟨hbefore, _ | ⟨hfound, -, -⟩⟩ := hsucc
  have hat := FileTree.at?_of_read hread
  rw [hfound, hbefore.workingDir.1] at hat
  rcases hbefore.file_or hat with hold | ⟨output, rfl⟩
  · exact htext _ (pair_mem_of_mem_turns hu) bytes hold hnone
  · rw [Utf8.decode?_encode] at hnone
    simp at hnone

/-- Where all sources are texts and no path is refused, every pair has its turn. -/
theorem turns_of_decodable {separator : Text} {t : FileTree} {pairs : Pairs}
    (husable : ∀ pair ∈ pairs, pair.1.isRefused = false ∧ pair.2.isRefused = false)
    (htext : ∀ pair ∈ pairs, ∀ bytes, t.at? (pair.1.resolve t.workingDir) = some (.file bytes) →
      Utf8.decode? bytes ≠ none) :
    (build separator t pairs).abort = none ∧ (turns separator t pairs).map Turn.pair = pairs := by
  obtain ⟨habort, hpairs, -⟩ | ⟨a, done, last, missed, -, hturns, hpairs, hlast, -⟩ :=
    turns_complete separator t pairs
  · exact ⟨habort, hpairs⟩
  · have hmem : last ∈ turns separator t pairs := by simp [hturns]
    obtain ⟨hsource, hdestination⟩ := husable _ (pair_mem_of_mem_turns hmem)
    have hattempt := (successive_turns separator t pairs).attempt last hmem
    obtain ⟨hbad, -⟩ := hattempt.of_aborted hsource hdestination hlast
    exact absurd hbad (not_undecodable_of_mem_turns htext last hmem)

end IndentMarkup
