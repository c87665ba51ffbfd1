import IndentMarkup.Proofs.TurnEffects

/-!
# Halves of surrogate pairs in a build

A build file can spell half of a surrogate pair in the paths and in the separator. Such a path cannot
be opened and such a template cannot be written, and neither is a failure that a build reports: it
ends with the turn that comes upon the half. Where paths hold no NUL and sources are texts, that is
the only way for a build to end early.
-/
namespace IndentMarkup

/-! ## Paths -/

def Path.NulFree (p : Path) : Prop := ∀ part ∈ p.parts, Code.char (Char.ofNat 0) ∉ part

instance (p : Path) : Decidable p.NulFree := inferInstanceAs (Decidable (∀ part ∈ p.parts, _))

namespace Path.NulFree

variable {p : Path} {a : Abort}

theorem parent (h : p.NulFree) : p.parent.NulFree :=
  fun part hpart => h part (List.dropLast_subset _ hpart)

/-- A path without a NUL is refused for a half. -/
theorem eq_halfInPath (h : p.NulFree) (hrefused : p.refusal? = some a) : a = .halfInPath := by
  unfold refusal? refusalOf? at hrefused
  split at hrefused
  · cases hrefused
  next hbad =>
    split at hrefused
    next honly =>
      -- all that is no NUL can be named, so there would be a NUL
      refine absurd (List.all_eq_true.mpr fun c hc => ?_) hbad
      obtain ⟨part, hpart, hcpart⟩ := List.mem_flatten.mp hc
      have hne : c ≠ .char (Char.ofNat 0) := fun heq => h part hpart (heq ▸ hcpart)
      simpa [hne] using List.all_eq_true.mp honly c hc
    next => exact (Option.some.inj hrefused).symm

end Path.NulFree

/-! ## One turn -/

/-- How a turn comes upon a half: in the path of its source, in that of a destination which it goes on
to open, or in the template for a destination which it has opened. -/
inductive MeetsHalf (separator : Codes) (t : FileTree) (source destination : Path) :
    Abort → Prop where
  | source : source.refusal? = some .halfInPath →
      MeetsHalf separator t source destination .halfInPath
  | destination : Compiles separator t source → Refuses t destination .halfInPath →
      MeetsHalf separator t source destination .halfInPath
  | template {text : Text} {output : Codes} : t.readText source = .ok text →
      compileCodes separator text = .ok output → output.text? = none → Opens t destination →
      MeetsHalf separator t source destination .halfInOutput

section

variable {separator : Codes} {t : FileTree} {source destination : Path} {outcome : PairOutcome}
  {a : Abort}

theorem Refuses.eq_halfInPath (h : Refuses t destination a) (hd : destination.NulFree) :
    a = .halfInPath := by
  rcases h with hparent | ⟨-, -, hself⟩
  · exact hd.parent.eq_halfInPath hparent
  · exact hd.eq_halfInPath hself

/-- A turn that is aborted has come upon a half. -/
theorem Attempt.meetsHalf (h : Attempt separator t source destination outcome)
    (hs : source.NulFree) (hd : destination.NulFree) (htext : ¬Undecodable t source)
    (ha : outcome.status = .aborted a) : MeetsHalf separator t source destination a := by
  cases h with
  | @aborted b hr =>
    obtain rfl : b = a := by simpa using ha
    cases hpath : source.refusal? with
    | none =>
      have husable := Path.refusal?_eq_none_iff.mp hpath
      exact absurd (undecodable_of_readText hr husable).2 htext
    | some b' =>
      obtain rfl : b' = b := by
        simpa [FileTree.readText, FileTree.readBytes, hpath, bind, Except.bind] using hr
      obtain rfl := hs.eq_halfInPath hpath
      exact .source hpath
  | @refused _ _ _ b hr hc hrefused _ =>
    obtain rfl : b = a := by simpa using ha
    obtain rfl := hrefused.eq_halfInPath hd
    exact .destination ⟨_, _, hr, hc⟩ hrefused
  | emptied hr hc hnone hopens _ _ =>
    obtain rfl : .halfInOutput = a := by simpa using ha
    exact .template hr hc hnone hopens
  | unread _ => simp at ha
  | halfDedent _ _ => simp at ha
  | unwritten _ _ _ => simp at ha
  | written _ _ _ _ => simp at ha

/-- Where the destination cannot be opened, nothing is written. -/
theorem status_of_refuses (h : Refuses t destination a) (output : Codes) :
    (writeOutput t source destination output).status = .aborted a := by
  unfold writeOutput
  rcases h with hparent | ⟨hparent, hmade, hself⟩
  · simp only [hparent]
  · cases hdirs : t.makeDirs destination.parent with
    | mk made failure =>
      obtain rfl : failure = none := by simpa [hdirs] using hmade
      simp only [hparent, hself]

/-- A destination that is opened for a template without bytes is left empty. -/
theorem writeOutput_of_opens (h : Opens t destination) {output : Codes}
    (hnone : output.text? = none) :
    (writeOutput t source destination output).status = .aborted .halfInOutput ∧
      (writeOutput t source destination output).tree.at? (destination.resolve t.workingDir) =
        some (.file []) := by
  obtain ⟨husable, hmade, opened, hwrite⟩ := h
  have hparent := Path.isRefused_parent husable
  have hadded := t.dirsAdded_makeDirs destination.parent
  cases hdirs : t.makeDirs destination.parent with
  | mk made failure =>
    rw [hdirs] at hmade hwrite hadded
    obtain rfl : failure = none := hmade
    have hwd : made.workingDir = t.workingDir := hadded.workingDir
    obtain ⟨rfl, hdir⟩ := FileTree.eq_set_of_write hwrite
    rw [hwd] at hdir
    have hbytes : output.encode? = none := by rw [Codes.encode?, hnone]; rfl
    simp only [writeOutput, Path.refusal?_eq_none_iff.mpr hparent, hdirs,
      Path.refusal?_eq_none_iff.mpr husable, hbytes, Option.getD_none, hwrite, hwd]
    exact ⟨rfl, FileTree.at?_set_of_ne_dir hdir⟩

/-- A turn that comes upon a half is aborted, and if it has opened its destination, that is empty. -/
theorem MeetsHalf.aborted (h : MeetsHalf separator t source destination a) :
    (buildPair separator t source destination).status = .aborted a ∧
      (a = .halfInOutput → (buildPair separator t source destination).tree.at?
        (destination.resolve t.workingDir) = some (.file [])) := by
  cases h with
  | source hpath =>
    have hread : t.readText source = .error (.abort .halfInPath) := by
      simp [FileTree.readText, FileTree.readBytes, hpath, bind, Except.bind]
    simp [buildPair, hread]
  | destination hcompiles hrefused =>
    obtain ⟨text, output, hread, hcompile⟩ := hcompiles
    simp [buildPair, hread, hcompile, status_of_refuses hrefused output]
  | template hread hcompile hnone hopens =>
    simp [buildPair, hread, hcompile, writeOutput_of_opens hopens hnone]

/-- Paths and a separator without halves give a turn none to come upon. -/
theorem not_meetsHalf {separator : Text} (hs : source.isRefused = false)
    (hd : destination.isRefused = false) : ¬MeetsHalf separator t source destination a := by
  rintro (hpath | ⟨-, hrefused⟩ | ⟨-, hc, hnone, -⟩)
  · simp [Path.refusal?_eq_none_iff.mpr hs] at hpath
  · exact not_refuses hd hrefused
  · exact text?_of_compileCodes hc hnone

end

/-! ## All turns -/

def Turn.MeetsHalf (separator : Codes) (u : Turn) (a : Abort) : Prop :=
  IndentMarkup.MeetsHalf separator u.found u.source u.destination a

/-- The paths of the pairs hold no NUL, and the files at the places of the sources are texts. -/
structure Buildable (t : FileTree) (pairs : Pairs) : Prop where
  nulFree : ∀ pair ∈ pairs, pair.1.NulFree ∧ pair.2.NulFree
  texts : SourcesAreTexts t pairs

/-- The turn is the last one, and the pairs behind it have none. -/
def EndsWithTurn (us : List Turn) (pairs : Pairs) (u : Turn) : Prop :=
  ∃ done missed, us = done ++ [u] ∧ pairs = done.map Turn.pair ++ u.pair :: missed

section

variable {separator : Codes} {t : FileTree} {pairs : Pairs} {u : Turn} {a : Abort}

theorem outcome_of_mem_turns (h : u ∈ turns separator t pairs) :
    u.outcome = buildPair separator u.found u.source u.destination := by
  induction pairs generalizing t with
  | nil => simp [turns] at h
  | cons first rest ih =>
    obtain ⟨source, destination⟩ := first
    by_cases ha : ∃ a, (buildPair separator t source destination).status = .aborted a
    · obtain ⟨a, ha⟩ := ha
      rw [turns_of_aborted ha, List.mem_singleton] at h
      rw [h]
    · rw [turns_of_not_aborted fun a h => ha ⟨a, h⟩] at h
      rcases List.mem_cons.mp h with rfl | h
      · rfl
      · exact ih h

/-- A turn that is aborted is the last, and the build is aborted with it. -/
theorem endsWithTurn_of_aborted (h : u ∈ turns separator t pairs)
    (ha : u.outcome.status = .aborted a) :
    (build separator t pairs).abort = some a ∧ EndsWithTurn (turns separator t pairs) pairs u := by
  obtain ⟨-, -, hall⟩ | ⟨b, done, last, missed, habort, hturns, hpairs, hlast, hdone⟩ :=
    turns_complete separator t pairs
  · exact absurd ha (hall u h a)
  · rw [hturns, List.mem_append, List.mem_singleton] at h
    rcases h with h | rfl
    · exact absurd ha (hdone u h a)
    · obtain rfl : b = a := by simpa [hlast] using ha
      exact ⟨habort, done, missed, hturns, hpairs⟩

/-- The build ends with the first turn that comes upon a half. -/
theorem endsWithTurn_of_meetsHalf (h : u ∈ turns separator t pairs) (hu : u.MeetsHalf separator a) :
    (build separator t pairs).abort = some a ∧
      EndsWithTurn (turns separator t pairs) pairs u ∧
      (a = .halfInOutput →
        (build separator t pairs).tree.at? (u.destination.resolve t.workingDir) =
          some (.file [])) := by
  obtain ⟨hstatus, hempty⟩ := hu.aborted
  rw [← outcome_of_mem_turns h] at hstatus hempty
  obtain ⟨habort, hends⟩ := endsWithTurn_of_aborted h hstatus
  refine ⟨habort, hends, fun houtput => ?_⟩
  obtain ⟨done, missed, hturns, -⟩ := hends
  have htree : (build separator t pairs).tree = u.outcome.tree := by
    rw [(build_eq_turns separator t pairs).1, hturns, treeAfter_append]
    rfl
  rw [htree, ← (successive_turns separator t pairs).workingDir.2 u h]
  exact hempty houtput

/-- Otherwise every pair has its turn. -/
theorem Buildable.turns (h : Buildable t pairs)
    (hno : ∀ u ∈ turns separator t pairs, ∀ a, ¬u.MeetsHalf separator a) :
    (build separator t pairs).abort = none ∧
      (IndentMarkup.turns separator t pairs).map Turn.pair = pairs := by
  obtain ⟨habort, hpairs, -⟩ | ⟨a, done, last, missed, -, hturns, -, hlast, -⟩ :=
    turns_complete separator t pairs
  · exact ⟨habort, hpairs⟩
  · have hmem : last ∈ IndentMarkup.turns separator t pairs := by simp [hturns]
    obtain ⟨hs, hd⟩ := h.nulFree _ (pair_mem_of_mem_turns hmem)
    have hattempt := (successive_turns separator t pairs).attempt last hmem
    have htext := not_undecodable_of_mem_turns h.texts last hmem
    exact absurd (hattempt.meetsHalf hs hd htext hlast) (hno last hmem a)

end

end IndentMarkup
