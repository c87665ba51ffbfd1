import IndentMarkup.Build
import IndentMarkup.Proofs.Files
import IndentMarkup.Proofs.Joints

/-!
# A build, turn by turn

In a build every pair has its turn with the tree that the pair before it left. `Attempt` says once
what a turn can do, and what is true of a whole build follows from it along the turns.

A failure ends a turn and is logged and counted. Where the paths can be opened and the separator is a
text, one thing ends the build: a source that is a file, but not of text. Then the pairs behind it
have no turn, and nothing is counted for it.
-/
namespace IndentMarkup

/-! ## One turn -/

/-- The source can be read as text and has no half dedent. -/
def Compiles (separator : Codes) (t : FileTree) (source : Path) : Prop :=
  ∃ text output, t.readText source = .ok text ∧ compileCodes separator text = .ok output

/-- The source is a file whose bytes are no text. -/
def Undecodable (t : FileTree) (source : Path) : Prop :=
  ∃ bytes, t.read source = .ok bytes ∧ Utf8.decode? bytes = none

/-- The places of the directories above a destination. -/
abbrev AboveDestination (t : FileTree) (destination : Path) : Location → Prop :=
  FileTree.OnTheWay t.workingDir destination.parent

/-- The system refuses the destination, or a directory above it. -/
def Refuses (t : FileTree) (destination : Path) (a : Abort) : Prop :=
  destination.parent.refusal? = some a ∨
    (destination.parent.refusal? = none ∧ (t.makeDirs destination.parent).2 = none ∧
      destination.refusal? = some a)

/-- The directories above the destination can be made, and the destination can be opened. -/
def Opens (t : FileTree) (destination : Path) : Prop :=
  destination.isRefused = false ∧ (t.makeDirs destination.parent).2 = none ∧
    ∃ opened, (t.makeDirs destination.parent).1.write destination [] = .ok opened

/-- How the turn of a pair can go. -/
inductive Attempt (separator : Codes) (t : FileTree) (source destination : Path) :
    PairOutcome → Prop where
  | unread {e : OsError} : t.readText source = .error (.error e) →
      Attempt separator t source destination
        ⟨t, [compileFailure source (e.message source)], .failed⟩
  | aborted {a : Abort} : t.readText source = .error (.abort a) →
      Attempt separator t source destination ⟨t, [], .aborted a⟩
  | halfDedent {text : Text} {e : HalfDedent} : t.readText source = .ok text →
      compileCodes separator text = .error (.halfDedent e) →
      Attempt separator t source destination
        ⟨t, openingLog text ++ [compileFailure source e.toError.message], .failed⟩
  /-- The directories that were made before the failure stay. -/
  | unwritten {text : Text} {output reason : Codes} {made : FileTree} :
      t.readText source = .ok text → compileCodes separator text = .ok output →
      FileTree.DirsAdded (AboveDestination t destination) t made →
      Attempt separator t source destination
        ⟨made, openingLog text ++ [writeFailure destination reason], .failed⟩
  | refused {text : Text} {output : Codes} {made : FileTree} {a : Abort} :
      t.readText source = .ok text → compileCodes separator text = .ok output →
      Refuses t destination a → FileTree.DirsAdded (AboveDestination t destination) t made →
      Attempt separator t source destination ⟨made, openingLog text ++ [], .aborted a⟩
  /-- The destination is opened before the template turns out to have no bytes. -/
  | emptied {text : Text} {output : Codes} {made : FileTree} : t.readText source = .ok text →
      compileCodes separator text = .ok output → output.text? = none → Opens t destination →
      FileTree.DirsAdded (AboveDestination t destination) t made →
      made.at? (destination.resolve t.workingDir) ≠ some .dir →
      Attempt separator t source destination
        ⟨made.set (destination.resolve t.workingDir) (.file []), openingLog text ++ [],
          .aborted .halfInOutput⟩
  | written {text output : Text} {made : FileTree} : t.readText source = .ok text →
      compileCodes separator text = .ok output →
      FileTree.DirsAdded (AboveDestination t destination) t made →
      made.at? (destination.resolve t.workingDir) ≠ some .dir →
      Attempt separator t source destination
        ⟨made.set (destination.resolve t.workingDir) (.file (Utf8.encode output)),
          openingLog text ++ [compileSuccess source destination], .written⟩

/-- Writing a template ends in one of the ways in which a turn can end. -/
theorem attempt_writeOutput {separator : Codes} {t : FileTree} {source destination : Path}
    {text : Text} {output : Codes} (hr : t.readText source = .ok text)
    (hc : compileCodes separator text = .ok output) :
    let outcome := writeOutput t source destination output
    Attempt separator t source destination
      { outcome with log := openingLog text ++ outcome.log } := by
  simp only [writeOutput]
  cases hparent : destination.parent.refusal? with
  | some a => exact .refused hr hc (.inl hparent) (.refl _ t)
  | none =>
    have hmade := t.dirsAdded_makeDirs destination.parent
    cases hdirs : t.makeDirs destination.parent with
    | mk made failure =>
      rw [hdirs] at hmade
      cases failure with
      | some f => exact .unwritten hr hc hmade
      | none =>
        cases hpath : destination.refusal? with
        | some a => exact .refused hr hc (.inr ⟨hparent, by rw [hdirs], hpath⟩) hmade
        | none =>
          dsimp only
          cases hw : made.write destination (output.encode?.getD []) with
          | error e => exact .unwritten hr hc hmade
          | ok last =>
            obtain ⟨rfl, hdir⟩ := FileTree.eq_set_of_write hw
            rw [hmade.workingDir] at hdir ⊢
            cases htext : output.text? with
            | none =>
              have hnone : output.encode? = none := by rw [Codes.encode?, htext]; rfl
              have hopens : Opens t destination :=
                ⟨Path.refusal?_eq_none_iff.mp hpath, by rw [hdirs], _,
                  by rw [hdirs]; simpa [hnone] using hw⟩
              rw [hnone]
              exact .emptied hr hc htext hopens hmade hdir
            | some template =>
              have hsome : output.encode? = some (Utf8.encode template) := by
                rw [Codes.encode?, htext]
                rfl
              obtain rfl := Codes.text?_eq_some_iff.mp htext
              rw [hsome]
              exact .written hr hc hmade hdir

/-- Every turn goes in one of the listed ways. -/
theorem attempt_buildPair (separator : Codes) (t : FileTree) (source destination : Path) :
    Attempt separator t source destination (buildPair separator t source destination) := by
  unfold buildPair
  cases hr : t.readText source with
  | error f =>
    cases f with
    | error e => exact .unread hr
    | abort a => exact .aborted hr
  | ok text =>
    simp only
    obtain ⟨e, hc⟩ | ⟨output, hc⟩ := compileCodes_cases separator text
    · rw [hc]
      exact .halfDedent hr hc
    · rw [hc]
      exact attempt_writeOutput hr hc

/-- A text that cannot be read is no text, or the path cannot be opened. -/
theorem undecodable_of_readText {t : FileTree} {source : Path} {a : Abort}
    (h : t.readText source = .error (.abort a)) (hpath : source.isRefused = false) :
    a = .undecodable ∧ Undecodable t source := by
  rw [FileTree.readText, FileTree.readBytes_of_not_refused hpath] at h
  cases hr : t.read source with
  | error e => simp [hr, Except.mapError, bind, Except.bind] at h
  | ok bytes =>
    simp only [hr, Except.mapError, bind, Except.bind] at h
    cases hd : Utf8.decode? bytes with
    | none =>
      simp only [hd, Except.error.injEq, ReadFailure.abort.injEq] at h
      exact ⟨h.symm, bytes, hr, hd⟩
    | some text => simp [hd, pure, Except.pure] at h

theorem readText_of_undecodable {t : FileTree} {source : Path} (h : Undecodable t source)
    (hpath : source.isRefused = false) : t.readText source = .error (.abort .undecodable) := by
  obtain ⟨bytes, hr, hd⟩ := h
  simp [FileTree.readText, FileTree.readBytes_of_not_refused hpath, hr, hd, Except.mapError, bind,
    Except.bind]

/-! ## All turns -/

/-- A pair's turn: the tree it finds, and how it ends. -/
structure Turn where
  source : Path
  destination : Path
  found : FileTree
  outcome : PairOutcome

namespace Turn

def pair (u : Turn) : Path × Path := (u.source, u.destination)

/-- The compiled text stands at the destination, and the log says so. -/
def IsWritten (separator : Codes) (u : Turn) : Prop :=
  u.outcome.status = .written ∧
    ∃ (text output : Text), u.found.readText u.source = .ok text ∧
      compileCodes separator text = .ok output ∧
      u.outcome.tree.at? (u.destination.resolve u.found.workingDir) =
        some (.file (Utf8.encode output)) ∧
      u.outcome.log = openingLog text ++ [compileSuccess u.source u.destination]

/-- The turn failed, and after the levels that were opened the log gives the one error. -/
def IsSkipped (u : Turn) : Prop :=
  u.outcome.status = .failed ∧
    ∃ opened reason, (∀ e ∈ opened, LogEntry.severity e = .debug) ∧
      (u.outcome.log = opened ++ [compileFailure u.source reason] ∨
        u.outcome.log = opened ++ [writeFailure u.destination reason])

end Turn

/-- The turns of a build, up to the first that aborts it. -/
def turns (separator : Codes) : FileTree → Pairs → List Turn
  | _, [] => []
  | t, (source, destination) :: rest =>
    let outcome := buildPair separator t source destination
    ⟨source, destination, t, outcome⟩ ::
      match outcome.status with
      | .aborted _ => []
      | _ => turns separator outcome.tree rest

def treeAfter (t : FileTree) : List Turn → FileTree
  | [] => t
  | u :: rest => treeAfter u.outcome.tree rest

theorem treeAfter_append (t : FileTree) (us vs : List Turn) :
    treeAfter t (us ++ vs) = treeAfter (treeAfter t us) vs := by
  induction us generalizing t with
  | nil => rfl
  | cons u us ih => exact ih _

/-- Turns one after the other, each with the tree that the one before it left. -/
inductive Successive (separator : Codes) : FileTree → List Turn → Prop where
  | nil (t : FileTree) : Successive separator t []
  | cons {t : FileTree} {u : Turn} {us : List Turn} : u.found = t →
      Attempt separator t u.source u.destination u.outcome →
      Successive separator u.outcome.tree us → Successive separator t (u :: us)

namespace Successive

variable {separator : Codes} {t : FileTree} {us vs : List Turn}

theorem append_iff : Successive separator t (us ++ vs) ↔
    Successive separator t us ∧ Successive separator (treeAfter t us) vs := by
  induction us generalizing t with
  | nil => exact ⟨fun h => ⟨.nil t, h⟩, fun h => h.2⟩
  | cons u us ih =>
    constructor
    · rintro (_ | ⟨hfound, hu, hrest⟩)
      obtain ⟨hus, hvs⟩ := ih.mp hrest
      exact ⟨.cons hfound hu hus, hvs⟩
    · rintro ⟨_ | ⟨hfound, hu, hus⟩, hvs⟩
      exact .cons hfound hu (ih.mpr ⟨hus, hvs⟩)

theorem attempt (h : Successive separator t us) :
    ∀ u ∈ us, Attempt separator u.found u.source u.destination u.outcome := by
  induction h with
  | nil => simp
  | cons hfound hu _ ih =>
    intro v hv
    rcases List.mem_cons.mp hv with rfl | hv
    · rw [hfound]
      exact hu
    · exact ih v hv

end Successive

section

variable {separator : Codes} {t : FileTree} {source destination : Path} {rest : Pairs}

theorem turns_of_aborted {a : Abort}
    (h : (buildPair separator t source destination).status = .aborted a) :
    turns separator t ((source, destination) :: rest) =
      [⟨source, destination, t, buildPair separator t source destination⟩] := by
  simp only [turns, h]

theorem turns_of_not_aborted
    (h : ∀ a, (buildPair separator t source destination).status ≠ .aborted a) :
    turns separator t ((source, destination) :: rest) =
      ⟨source, destination, t, buildPair separator t source destination⟩ ::
        turns separator (buildPair separator t source destination).tree rest := by
  rw [turns]
  cases hs : (buildPair separator t source destination).status with
  | aborted a => exact absurd hs (h a)
  | written => rfl
  | failed => rfl

theorem build_of_aborted {a : Abort}
    (h : (buildPair separator t source destination).status = .aborted a) :
    build separator t ((source, destination) :: rest) =
      ⟨(buildPair separator t source destination).tree,
        (buildPair separator t source destination).log, 0, some a⟩ := by
  simp only [build, h]

theorem build_of_not_aborted
    (h : ∀ a, (buildPair separator t source destination).status ≠ .aborted a) :
    let pair := buildPair separator t source destination
    let others := build separator pair.tree rest
    build separator t ((source, destination) :: rest) =
      ⟨others.tree, pair.log ++ others.log,
        others.failures + (if pair.status = .failed then 1 else 0), others.abort⟩ := by
  intro pair others
  rw [build]
  cases hs : (buildPair separator t source destination).status with
  | aborted a => exact absurd hs (h a)
  | written => simp [pair, others]
  | failed => simp [pair, others]

end

/-- The turns of a build follow on each other's trees. -/
theorem successive_turns (separator : Codes) (t : FileTree) (pairs : Pairs) :
    Successive separator t (turns separator t pairs) := by
  induction pairs generalizing t with
  | nil => exact .nil t
  | cons first rest ih =>
    obtain ⟨source, destination⟩ := first
    have hattempt := attempt_buildPair separator t source destination
    by_cases ha : ∃ a, (buildPair separator t source destination).status = .aborted a
    · obtain ⟨a, ha⟩ := ha
      rw [turns_of_aborted ha]
      exact .cons rfl hattempt (.nil _)
    · rw [turns_of_not_aborted fun a h => ha ⟨a, h⟩]
      exact .cons rfl hattempt (ih _)

/-- A build ends with what its turns leave, say and count. -/
theorem build_eq_turns (separator : Codes) (t : FileTree) (pairs : Pairs) :
    let b := build separator t pairs
    let us := turns separator t pairs
    b.tree = treeAfter t us ∧ b.log = us.flatMap (·.outcome.log) ∧
      b.failures = us.countP (·.outcome.status = .failed) := by
  intro b us
  induction pairs generalizing t with
  | nil => exact ⟨rfl, rfl, rfl⟩
  | cons first rest ih =>
    obtain ⟨source, destination⟩ := first
    by_cases ha : ∃ a, (buildPair separator t source destination).status = .aborted a
    · obtain ⟨a, ha⟩ := ha
      simp only [b, us, build_of_aborted ha, turns_of_aborted ha]
      simp [treeAfter, ha]
    · have hgo : ∀ a, (buildPair separator t source destination).status ≠ .aborted a :=
        fun a h => ha ⟨a, h⟩
      obtain ⟨htree, hlog, hcount⟩ := ih (buildPair separator t source destination).tree
      simp only [b, us, build_of_not_aborted hgo, turns_of_not_aborted hgo]
      refine ⟨htree, by rw [hlog]; rfl, ?_⟩
      rw [hcount, List.countP_cons]
      simp

/-- Every pair has its turn, unless the last turn aborts the build. -/
theorem turns_complete (separator : Codes) (t : FileTree) (pairs : Pairs) :
    ((build separator t pairs).abort = none ∧
        (turns separator t pairs).map Turn.pair = pairs ∧
        ∀ u ∈ turns separator t pairs, ∀ a, u.outcome.status ≠ .aborted a) ∨
    ∃ a done last missed, (build separator t pairs).abort = some a ∧
      turns separator t pairs = done ++ [last] ∧
      pairs = done.map Turn.pair ++ last.pair :: missed ∧ last.outcome.status = .aborted a ∧
      ∀ u ∈ done, ∀ a, u.outcome.status ≠ .aborted a := by
  induction pairs generalizing t with
  | nil => exact .inl ⟨rfl, rfl, by simp [turns]⟩
  | cons first rest ih =>
    obtain ⟨source, destination⟩ := first
    by_cases ha : ∃ a, (buildPair separator t source destination).status = .aborted a
    · obtain ⟨a, ha⟩ := ha
      rw [build_of_aborted ha, turns_of_aborted ha]
      exact .inr ⟨a, [], _, rest, rfl, rfl, rfl, ha, by simp⟩
    · have hgo : ∀ a, (buildPair separator t source destination).status ≠ .aborted a :=
        fun a h => ha ⟨a, h⟩
      simp only [build_of_not_aborted hgo, turns_of_not_aborted hgo]
      obtain ⟨habort, hpairs, hall⟩ | ⟨a, done, last, missed, habort, hturns, hpairs, hlast, hdone⟩ :=
        ih (buildPair separator t source destination).tree
      · refine .inl ⟨habort, by rw [List.map_cons, hpairs]; rfl, ?_⟩
        intro u hu
        rcases List.mem_cons.mp hu with rfl | hu
        · exact hgo
        · exact hall u hu
      · refine .inr ⟨a, ⟨source, destination, t, _⟩ :: done, last, missed, habort,
          by rw [hturns]; rfl, by rw [hpairs]; rfl, hlast, ?_⟩
        intro u hu
        rcases List.mem_cons.mp hu with rfl | hu
        · exact hgo
        · exact hdone u hu

theorem pair_mem_of_mem_turns {separator : Codes} {t : FileTree} {pairs : Pairs} {u : Turn}
    (h : u ∈ turns separator t pairs) : u.pair ∈ pairs := by
  obtain ⟨-, hpairs, -⟩ | ⟨-, done, last, missed, -, hturns, hpairs, -, -⟩ :=
    turns_complete separator t pairs
  · rw [← hpairs]
    exact List.mem_map_of_mem h
  · rw [hturns] at h
    rw [hpairs]
    rcases List.mem_append.mp h with h | h
    · exact List.mem_append_left _ (List.mem_map_of_mem h)
    · rw [List.mem_singleton.mp h]
      simp

/-! ## Where a build stops -/

section

variable {separator : Codes} {t : FileTree} {source destination : Path} {outcome : PairOutcome}

/-- Neither the destination nor a directory above it is refused if its components can be names. -/
theorem not_refuses {a : Abort} (h : destination.isRefused = false) : ¬Refuses t destination a := by
  have hparent := Path.isRefused_parent h
  rintro (hrefused | ⟨-, -, hrefused⟩)
  · simp [Path.refusal?_eq_none_iff.mpr hparent] at hrefused
  · simp [Path.refusal?_eq_none_iff.mpr h] at hrefused

/-- A separator that is a text makes a template that is one. -/
theorem text?_of_compileCodes {separator source : Text} {output : Codes}
    (h : compileCodes separator source = .ok output) : output.text? ≠ none := by
  rw [compileCodes_codes] at h
  cases hc : compile separator source with
  | error e => simp [hc, Except.map] at h
  | ok text =>
    obtain rfl : text.codes = output := by simpa [hc, Except.map] using h
    simp

/-- With a separator that is a text, only a file that is no text aborts a turn, and then the turn does
nothing. -/
theorem Attempt.of_aborted {separator : Text} {a : Abort}
    (h : Attempt separator t source destination outcome) (hs : source.isRefused = false)
    (hd : destination.isRefused = false) (ha : outcome.status = .aborted a) :
    Undecodable t source ∧ outcome = ⟨t, [], .aborted .undecodable⟩ := by
  cases h with
  | aborted hr =>
    obtain ⟨rfl, hu⟩ := undecodable_of_readText hr hs
    exact ⟨hu, rfl⟩
  | refused _ _ hrefused _ => exact absurd hrefused (not_refuses hd)
  | emptied _ hc hnone _ _ _ => exact absurd hnone (text?_of_compileCodes hc)
  | unread _ => simp at ha
  | halfDedent _ _ => simp at ha
  | unwritten _ _ _ => simp at ha
  | written _ _ _ _ => simp at ha

/-- A source whose bytes are no text aborts its turn. -/
theorem Attempt.of_undecodable (h : Attempt separator t source destination outcome)
    (hs : source.isRefused = false) (hu : Undecodable t source) :
    outcome.status = .aborted .undecodable := by
  have habort := readText_of_undecodable hu hs
  cases h with
  | aborted hr => simpa [hr] using habort
  | unread hr => simp [hr] at habort
  | halfDedent hr _ => simp [hr] at habort
  | unwritten hr _ _ => simp [hr] at habort
  | refused hr _ _ _ => simp [hr] at habort
  | emptied hr _ _ _ _ _ => simp [hr] at habort
  | written hr _ _ _ => simp [hr] at habort

/-- What is written is the template of the source as text, and the log says so. -/
theorem Attempt.of_written (h : Attempt separator t source destination outcome)
    (hw : outcome.status = .written) :
    ∃ (text output : Text), t.readText source = .ok text ∧
      compileCodes separator text = .ok output ∧
      outcome.tree.at? (destination.resolve t.workingDir) = some (.file (Utf8.encode output)) ∧
      outcome.log = openingLog text ++ [compileSuccess source destination] := by
  cases h with
  | written hr hc _ hdir => exact ⟨_, _, hr, hc, FileTree.at?_set_of_ne_dir hdir, rfl⟩
  | unread _ => simp at hw
  | aborted _ => simp at hw
  | halfDedent _ _ => simp at hw
  | unwritten _ _ _ => simp at hw
  | refused _ _ _ _ => simp at hw
  | emptied _ _ _ _ _ _ => simp at hw

theorem severity_of_mem_openingLog {text : Text} :
    ∀ e ∈ openingLog text, LogEntry.severity e = .debug := by
  simp [openingLog]

/-- A turn that aborts nothing puts its text in place, or is skipped with an error in the log. -/
theorem Turn.isWritten_or_isSkipped {u : Turn}
    (h : Attempt separator u.found u.source u.destination u.outcome)
    (hgo : ∀ a, u.outcome.status ≠ .aborted a) : u.IsWritten separator ∨ u.IsSkipped := by
  by_cases hw : u.outcome.status = .written
  · exact .inl ⟨hw, h.of_written hw⟩
  obtain ⟨source, destination, found, outcome⟩ := u
  simp only at h
  cases h with
  | unread _ => exact .inr ⟨rfl, [], _, by simp, .inl rfl⟩
  | halfDedent _ _ => exact .inr ⟨rfl, _, _, severity_of_mem_openingLog, .inl rfl⟩
  | unwritten _ _ _ => exact .inr ⟨rfl, _, _, severity_of_mem_openingLog, .inr rfl⟩
  | aborted _ => exact absurd rfl (hgo _)
  | refused _ _ _ _ => exact absurd rfl (hgo _)
  | emptied _ _ _ _ _ _ => exact absurd rfl (hgo _)
  | written _ _ _ _ => exact absurd rfl hw

end

/-- A build gets to its end exactly when no source is, at its turn, a file whose bytes are no text.
Then every pair had its turn, in order: it was written, or logged as an error and skipped, and the
count is that of the pairs that were not written. Otherwise the build ends at the first such source,
and the pairs behind it have no turn. -/
theorem build_stops_iff_undecodable (separator : Text) (t : FileTree) (pairs : Pairs)
    (husable : ∀ pair ∈ pairs, pair.1.isRefused = false ∧ pair.2.isRefused = false) :
    ((build separator t pairs).abort = none ↔
      ∀ u ∈ turns separator t pairs, ¬Undecodable u.found u.source) ∧
    ((build separator t pairs).abort = none →
      (turns separator t pairs).map Turn.pair = pairs ∧
      (∀ u ∈ turns separator t pairs, u.IsWritten separator ∨ u.IsSkipped) ∧
      (build separator t pairs).log = (turns separator t pairs).flatMap (·.outcome.log) ∧
      (build separator t pairs).failures =
        (turns separator t pairs).countP (·.outcome.status ≠ .written)) ∧
    ∀ a, (build separator t pairs).abort = some a →
      a = .undecodable ∧ ∃ done last missed, turns separator t pairs = done ++ [last] ∧
        pairs = done.map Turn.pair ++ last.pair :: missed ∧
        Undecodable last.found last.source ∧ (∀ u ∈ done, ¬Undecodable u.found u.source) ∧
        (build separator t pairs).tree = last.found ∧
        (build separator t pairs).log = done.flatMap (·.outcome.log) := by
  have hattempt := (successive_turns separator t pairs).attempt
  have hpaths : ∀ u ∈ turns separator t pairs,
      u.source.isRefused = false ∧ u.destination.isRefused = false :=
    fun u hu => husable _ (pair_mem_of_mem_turns hu)
  obtain ⟨htree, hlog, hcount⟩ := build_eq_turns separator t pairs
  have hdecodable : ∀ u ∈ turns separator t pairs, (∀ a, u.outcome.status ≠ .aborted a) →
      ¬Undecodable u.found u.source := by
    intro u hu hgo hbad
    exact hgo _ ((hattempt u hu).of_undecodable (hpaths u hu).1 hbad)
  obtain ⟨habort, hpairs, hall⟩ | ⟨a, done, last, missed, habort, hturns, hpairs, hlast, hdone⟩ :=
    turns_complete separator t pairs
  · refine ⟨⟨fun _ u hu => hdecodable u hu (hall u hu), fun _ => habort⟩, fun _ => ?_, ?_⟩
    · refine ⟨hpairs, fun u hu => Turn.isWritten_or_isSkipped (hattempt u hu) (hall u hu), hlog, ?_⟩
      rw [hcount]
      -- without an abort, a turn that is not written has failed
      refine List.countP_congr fun u hu => ?_
      cases hs : u.outcome.status with
      | aborted a => exact absurd hs (hall u hu a)
      | written => simp
      | failed => simp
    · intro a ha
      simp [habort] at ha
  · have hmem : last ∈ turns separator t pairs := by simp [hturns]
    obtain ⟨hbad, hout⟩ :=
      (hattempt last hmem).of_aborted (hpaths last hmem).1 (hpaths last hmem).2 hlast
    refine ⟨⟨fun h => by simp [habort] at h, fun h => absurd hbad (h last hmem)⟩,
      fun h => by simp [habort] at h, ?_⟩
    intro b hb
    obtain rfl : a = b := by simpa [habort] using hb
    obtain rfl : .undecodable = a := by simpa [hout] using hlast
    refine ⟨rfl, done, last, missed, hturns, hpairs, hbad, ?_, ?_, ?_⟩
    · intro u hu
      exact hdecodable u (by simp [hturns, hu]) (hdone u hu)
    · rw [htree, hturns, treeAfter_append]
      simp [treeAfter, hout]
    · rw [hlog, hturns, List.flatMap_append]
      simp [hout]

/-- A tree with a file that is no text and one that is. -/
def mixedTree : FileTree :=
  ((FileTree.empty ["w"]).set ["w", "a"] (.file [0xFF])).set ["w", "b"] (.file [0x7C, 0x62])

/-- A source that is no text ends the build without being counted or logged, and the good source
behind it is not compiled. -/
theorem build_stopped_by_undecodable :
    let pairs : Pairs := [(.ofText "a", .ofText "x"), (.ofText "b", .ofText "y")]
    (build defaultSeparator mixedTree pairs).abort = some .undecodable ∧
      (build defaultSeparator mixedTree pairs).failures = 0 ∧
      (build defaultSeparator mixedTree pairs).log = [] ∧
      (build defaultSeparator mixedTree pairs).tree.at? ["w", "y"] = none ∧
      (build defaultSeparator mixedTree [(.ofText "b", .ofText "y")]).tree.at? ["w", "y"] =
        some (.file [0x62]) := by
  decide +kernel

/-- Behind a source that is no text there is no turn; behind one that is missing there is. -/
theorem build_stops_iff_undecodable_mixed :
    let bad : Pairs := [(.ofText "a", .ofText "x"), (.ofText "b", .ofText "y")]
    let missing : Pairs := [(.ofText "c", .ofText "x"), (.ofText "b", .ofText "y")]
    (∃ u ∈ turns defaultSeparator mixedTree bad, Undecodable u.found u.source) ∧
      (turns defaultSeparator mixedTree missing).map Turn.pair = missing ∧
      (turns defaultSeparator mixedTree missing).countP (·.outcome.status ≠ .written) = 1 := by
  intro bad missing
  have habort : (build defaultSeparator mixedTree bad).abort = some .undecodable := by
    decide +kernel
  have hnone : (build defaultSeparator mixedTree missing).abort = none := by decide +kernel
  have hone : (build defaultSeparator mixedTree missing).failures = 1 := by decide +kernel
  obtain ⟨-, -, hstop⟩ :=
    build_stops_iff_undecodable defaultSeparator mixedTree bad (by decide +kernel)
  obtain ⟨-, hall, -⟩ :=
    build_stops_iff_undecodable defaultSeparator mixedTree missing (by decide +kernel)
  obtain ⟨-, done, last, -, hturns, -, hbad, -⟩ := hstop _ habort
  obtain ⟨hpairs, -, -, hcount⟩ := hall hnone
  exact ⟨⟨last, by simp [hturns], hbad⟩, hpairs, hcount.symm.trans hone⟩

end IndentMarkup
