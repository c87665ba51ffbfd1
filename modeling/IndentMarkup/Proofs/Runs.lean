import IndentMarkup.Program
import IndentMarkup.Proofs.Halves
import IndentMarkup.Proofs.WatcherLife
import IndentMarkup.Proofs.Watching

/-!
# Runs of the program

A single run reads its build file once. A watching run reads it again after every sleep until it
has a configuration, and keeps that one: the first build, the watcher and all rebuilds go by it,
whatever becomes of the build file.

Between the loads nothing but the outside world touches the tree, so a failing load is as if the run
began after the sleep. From the load that succeeds on, the tree goes through the first build and
then through a course of outside changes and rebuilds. How build files are read is left open: all
that is said here holds for every loader.

One thing breaks the contract of a run. Half of a surrogate pair in the configuration can be met by a
turn of the build, and then the run ends there without an exit code.
-/
namespace IndentMarkup

/-! ## Loads that fail -/

/-- The tree at a load, if all before it fail: what the sleeps before it made of the first one. -/
def atLoad (t : FileTree) (sleeps : List (List Action)) (k : Nat) : FileTree :=
  (sleeps.take k).foldl (fun t actions => actions.foldl Action.change t) t

namespace Program

variable {load : Loader} {config : Path} {waits : List (List Action)}

theorem runWatching_of_ok {t : FileTree} {c : BuildConfig} {sleeps : List (List Action)}
    (h : loadConfig load t config = .ok c) :
    runWatching load config waits t sleeps = buildAndWatch t c waits := by
  rw [runWatching.eq_def]
  simp only [h]

/-- With a faulty build file the run goes on behind the sleep, over the tree it leaves. -/
theorem runWatching_of_fault {t : FileTree} {f : ConfigFault} {actions : List Action}
    {sleeps : List (List Action)} (h : loadConfig load t config = .error (.fault f)) :
    let later := runWatching load config waits (actions.foldl Action.change t) sleeps
    runWatching load config waits t (actions :: sleeps) =
      { later with log := retryLog f ++ later.log, calls := .sleep :: later.calls } := by
  intro later
  rw [runWatching.eq_def]
  simp only [h, later]

/-- Loads that fail come to their messages and to as many sleeps. -/
theorem runWatching_of_faults {faults : List ConfigFault} {t : FileTree}
    {sleeps : List (List Action)} (hlength : faults.length ≤ sleeps.length)
    (hfaults : ∀ j f, faults[j]? = some f →
      loadConfig load (atLoad t sleeps j) config = .error (.fault f)) :
    let later := runWatching load config waits (atLoad t sleeps faults.length)
      (sleeps.drop faults.length)
    runWatching load config waits t sleeps =
      { later with
        log := faults.flatMap retryLog ++ later.log
        calls := List.replicate faults.length .sleep ++ later.calls } := by
  induction faults generalizing t sleeps with
  | nil => rfl
  | cons f faults ih =>
    cases sleeps with
    | nil => simp at hlength
    | cons actions sleeps =>
      have hfirst : loadConfig load t config = .error (.fault f) := hfaults 0 f rfl
      have hrest := ih (Nat.le_of_succ_le_succ hlength) fun j f hj => hfaults (j + 1) f hj
      simp only [runWatching_of_fault hfirst, hrest, List.flatMap_cons, List.append_assoc]
      rfl

end Program

/-! ## The course of watching -/

section

variable (separator : Codes) (pairs : Pairs) (watch : List Path)

/-- What an action comes to. All rebuilds are of the same pairs, with the same separator. -/
inductive Happens (t : FileTree) : Action → FileTree → List LogEntry → Prop where
  | changed {a : Action} : (∀ e, a ≠ .event e) → Happens t a (a.change t) []
  | ignored {e : Event} : ¬e.Concerns t.workingDir watch → Happens t (.event e) t []
  | rebuilt {e : Event} : e.Concerns t.workingDir watch →
      Happens t (.event e) (build separator t pairs).tree
        (Handler.detected (e.path.resolve t.workingDir) :: (build separator t pairs).log)

/-- The action ends the watching: it ends any wait, or asks for a rebuild that is aborted. -/
def EndsWatching (t : FileTree) (a : Action) : Prop :=
  a.endsWait = true ∨
    ∃ e, a = .event e ∧ e.Concerns t.workingDir watch ∧ (build separator t pairs).abort ≠ none

/-- Actions one after the other, up to the first that ends the watching. -/
inductive Course : FileTree → List Action → FileTree → List LogEntry → Prop where
  | over (t : FileTree) : Course t [] t []
  | next {t t' t'' : FileTree} {a : Action} {rest : List Action} {log log' : List LogEntry} :
      Happens separator pairs watch t a t' log → ¬EndsWatching separator pairs watch t a →
      Course t' rest t'' log' → Course t (a :: rest) t'' (log ++ log')
  | left {t t' : FileTree} {a : Action} {rest : List Action} {log : List LogEntry} :
      Happens separator pairs watch t a t' log → EndsWatching separator pairs watch t a →
      Course t (a :: rest) t' log

end

theorem build_workingDir (separator : Codes) (t : FileTree) (pairs : Pairs) :
    (build separator t pairs).tree.workingDir = t.workingDir := by
  rw [(build_eq_turns separator t pairs).1]
  exact (successive_turns separator t pairs).workingDir.1

section

variable {separator : Codes} {pairs : Pairs} {watch : List Path} {t : FileTree}

theorem Happens.workingDir {a : Action} {t' : FileTree} {log : List LogEntry}
    (h : Happens separator pairs watch t a t' log) : t'.workingDir = t.workingDir := by
  cases h with
  | ignored _ => rfl
  | rebuilt _ => exact build_workingDir separator t pairs
  | changed hother =>
    cases a with
    | plant path entry => exact t.plant_workingDir path entry
    | uproot path => rfl
    | interrupt => rfl
    | event e => exact absurd rfl (hother e)

variable {h : Handler}

/-- An event comes to what is described, and aborts exactly when it ends the watching. -/
theorem happens_handle (hwatch : resolveAll t.workingDir watch = .ok h.watched) (e : Event) :
    Happens h.separator h.pairs watch t (.event e) (h.handle t e).tree (h.handle t e).log ∧
      ((h.handle t e).abort = none ↔ ¬EndsWatching h.separator h.pairs watch t (.event e)) := by
  by_cases he : e.Concerns t.workingDir watch
  · rw [Handler.handle_of_concerns hwatch he]
    exact ⟨.rebuilt he, by simp [EndsWatching, he, he.goesOn]⟩
  · obtain ⟨htree, hlog, hgoes⟩ := Handler.handle_of_not_concerns hwatch he
    rw [htree, hlog, hgoes]
    exact ⟨.ignored he, by simp [EndsWatching, he]⟩

/-- A wait that passes is the beginning of a course, and one that does not is all of it. -/
structure Begins (h : Handler) (watch : List Path) (t : FileTree) (actions : List Action)
    (outcome : WaitOutcome) : Prop where
  workingDir : outcome.tree.workingDir = t.workingDir
  passed : outcome.ending = .elapsed → ∀ rest t' log,
    Course h.separator h.pairs watch outcome.tree rest t' log →
    Course h.separator h.pairs watch t (actions ++ rest) t' (outcome.log ++ log)
  cut : outcome.ending ≠ .elapsed → ∀ rest,
    Course h.separator h.pairs watch t (actions ++ rest) outcome.tree outcome.log

theorem Begins.cons {a : Action} {actions : List Action} {t' : FileTree} {log : List LogEntry}
    {outcome : WaitOutcome} (hbegins : Begins h watch t' actions outcome)
    (hhappens : Happens h.separator h.pairs watch t a t' log)
    (hgoes : ¬EndsWatching h.separator h.pairs watch t a) :
    Begins h watch t (a :: actions) { outcome with log := log ++ outcome.log } where
  workingDir := hbegins.workingDir.trans hhappens.workingDir
  passed := fun hend rest t' log hcourse => by
    rw [List.append_assoc]
    exact .next hhappens hgoes (hbegins.passed hend rest t' log hcourse)
  cut := fun hend rest => .next hhappens hgoes (hbegins.cut hend rest)

/-- A wait that passes begins a course, and one that does not is all of it. -/
theorem begins_wait (hwatch : resolveAll t.workingDir watch = .ok h.watched)
    (actions : List Action) : Begins h watch t actions (wait h t actions) := by
  induction actions generalizing t with
  | nil => exact ⟨rfl, fun _ _ _ _ hcourse => hcourse, fun hnot => absurd rfl hnot⟩
  | cons a actions ih =>
    -- the rest of the wait, behind an action that does not end it
    have hcons {t' : FileTree} {log : List LogEntry}
        (hhappens : Happens h.separator h.pairs watch t a t' log)
        (hgoes : ¬EndsWatching h.separator h.pairs watch t a) :
        Begins h watch t (a :: actions)
          { wait h t' actions with log := log ++ (wait h t' actions).log } :=
      (ih (by rwa [hhappens.workingDir])).cons hhappens hgoes
    cases a with
    | plant path entry => exact hcons (.changed (by simp)) (by simp [EndsWatching, Action.endsWait])
    | uproot path => exact hcons (.changed (by simp)) (by simp [EndsWatching, Action.endsWait])
    | interrupt =>
      exact ⟨rfl, fun hend => absurd hend (by simp [wait]),
        fun _ _ => .left (.changed (by simp)) (.inl rfl)⟩
    | event e =>
      obtain ⟨hhappens, hgoes⟩ := happens_handle hwatch e
      simp only [wait]
      cases habort : (h.handle t e).abort with
      | none => exact hcons hhappens (hgoes.mp habort)
      | some a =>
        have hends : EndsWatching h.separator h.pairs watch t (.event e) := by
          simpa [habort] using hgoes
        exact ⟨hhappens.workingDir, fun hend => absurd hend (by simp),
          fun _ _ => .left hhappens hends⟩

/-- The waits together are a course of the script; every one that passes is a beginning of it. -/
theorem course_waitAll (hwatch : resolveAll t.workingDir watch = .ok h.watched)
    (script : List (List Action)) :
    ∃ steps closing, (waitAll h t script).log = steps ++ closing ∧
      Course h.separator h.pairs watch t script.flatten (waitAll h t script).tree steps := by
  induction script generalizing t with
  | nil => exact ⟨[], _, rfl, .over t⟩
  | cons actions script ih =>
    have hbegins := begins_wait hwatch actions
    simp only [waitAll, List.flatten_cons]
    cases hend : (wait h t actions).ending with
    | interrupted => exact ⟨_, _, rfl, hbegins.cut (by simp [hend]) _⟩
    | aborted a => exact ⟨_, _, rfl, hbegins.cut (by simp [hend]) _⟩
    | elapsed =>
      rw [← hbegins.workingDir] at hwatch
      obtain ⟨steps, closing, hlog, hcourse⟩ := ih hwatch
      refine ⟨(wait h t actions).log ++ steps, closing, ?_, hbegins.passed hend _ _ _ hcourse⟩
      simp only [hlog, List.append_assoc]

end

/-- A watcher that gets to its observer starts it once, and goes through a course of outside changes
and rebuilds. -/
theorem course_runWatcher (separator : Codes) (t : FileTree) (pairs : Pairs) (watch : List Path)
    (script : List (List Action)) :
    let outcome := runWatcher separator t pairs watch script
    .sleep ∉ outcome.calls ∧
    ((.start ∉ outcome.calls ∧ outcome.tree = t) ∨
      (outcome.calls.count .start = 1 ∧ ∃ opening steps closing,
        outcome.log = opening ++ steps ++ closing ∧
        Course separator pairs (pairs.keys ++ watch) t script.flatten outcome.tree steps)) := by
  intro outcome
  by_cases hcan : CanBeWatched t (pairs.keys ++ watch)
  · obtain ⟨files, dirs, log, hfiles, -, -, hsetUp⟩ := setUp_of_canBeWatched separator hcan
    by_cases hdirs : dirs = []
    · simp [outcome, runWatcher, hsetUp, hdirs]
    · rw [if_neg hdirs] at hsetUp
      obtain ⟨passed, hthrough⟩ := exists_waitsThrough ⟨files, pairs, separator⟩ t script
      obtain ⟨steps, closing, hlog, hcourse⟩ :=
        course_waitAll (h := ⟨files, pairs, separator⟩) hfiles script
      simp only [outcome, runWatcher, hsetUp]
      refine ⟨?_, .inr ⟨?_, log, steps, closing, by rw [hlog, List.append_assoc], hcourse⟩⟩
      · rw [hthrough.calls]
        split <;> simp
      · have hdirs : (dirs.map Call.schedule).count .start = 0 := by simp [List.count_eq_zero]
        rw [hthrough.calls]
        split <;> simp [hdirs, List.count_replicate]
  · obtain ⟨dirs, log, -, hsetUp⟩ := setUp_of_not_canBeWatched separator hcan
    simp [outcome, runWatcher, hsetUp]

/-! ## Exit codes -/

/-- A build that gets to its end has failures exactly when not all its turns are written. -/
theorem failures_eq_zero_iff {separator : Codes} {t : FileTree} {pairs : Pairs}
    (h : (build separator t pairs).abort = none) :
    (build separator t pairs).failures = 0 ↔
      ∀ u ∈ turns separator t pairs, u.IsWritten separator := by
  obtain ⟨-, -, hgo⟩ | ⟨a, _, _, _, habort, -⟩ := turns_complete separator t pairs
  · rw [(build_eq_turns separator t pairs).2.2, List.countP_eq_zero]
    refine forall₂_congr fun u hu => ?_
    have hturn := Turn.isWritten_or_isSkipped
      ((successive_turns separator t pairs).attempt u hu) (hgo u hu)
    constructor
    · intro hnot
      rcases hturn with hwritten | hskipped
      · exact hwritten
      · simp [hskipped.1] at hnot
    · intro hwritten
      simp [hwritten.1]
  · simp [h] at habort

namespace Program

theorem calls_runOnce (load : Loader) (t : FileTree) (config : Path) :
    (runOnce load t config).calls = [] := by
  unfold runOnce
  split <;> rfl

theorem runOnce_ending_iff (load : Loader) (t : FileTree) (config : Path) :
    (runOnce load t config).ending = .exit 2 ↔
      ∃ f, loadConfig load t config = .error (.fault f) := by
  unfold runOnce
  split
  next f hload => simp [hload, faultCode]
  next a hload => simp [hload]
  next c hload =>
    simp only [hload, endOfBuild, buildCode]
    split
    · simp
    · split <;> simp

variable {t : FileTree} {c : BuildConfig}

/-- A build without an abort ends a single run with one or with zero. -/
theorem endOfBuild_iff (habort : (build c.separator t c.pairs).abort = none) :
    let us := turns c.separator t c.pairs
    (endOfBuild (build c.separator t c.pairs) = .exit 1 ↔ ∃ u ∈ us, ¬u.IsWritten c.separator) ∧
      (endOfBuild (build c.separator t c.pairs) = .exit 0 ↔ ∀ u ∈ us, u.IsWritten c.separator) := by
  intro us
  have hfailures := failures_eq_zero_iff habort
  simp only [endOfBuild, habort, buildCode]
  by_cases hall : (build c.separator t c.pairs).failures = 0
  · rw [if_pos hall]
    exact ⟨by simpa using hfailures.mp hall, by simpa using hfailures.mp hall⟩
  · rw [if_neg hall]
    exact ⟨by simpa using mt hfailures.mpr hall, by simpa using mt hfailures.mpr hall⟩

/-- A build that is not aborted is followed by watching, over the tree that it leaves. -/
theorem buildAndWatch_of_built (habort : (build c.separator t c.pairs).abort = none)
    (waits : List (List Action)) :
    let us := turns c.separator t c.pairs
    let watching := runWatcher c.separator (treeAfter t us) c.pairs c.watch waits
    buildAndWatch t c waits =
      ⟨watching.tree, us.flatMap (·.outcome.log) ++ watching.log, watching.calls,
        watching.abort.elim (.exit 0) .aborted⟩ := by
  intro us watching
  obtain ⟨htree, hlog, -⟩ := build_eq_turns c.separator t c.pairs
  simp only [buildAndWatch, habort, htree, hlog, us, watching]
  cases (runWatcher c.separator (treeAfter t (turns c.separator t c.pairs)) c.pairs c.watch
    waits).abort <;> rfl

theorem buildAndWatch_of_aborted {a : Abort}
    (habort : (build c.separator t c.pairs).abort = some a) (waits : List (List Action)) :
    buildAndWatch t c waits =
      ⟨(build c.separator t c.pairs).tree, (build c.separator t c.pairs).log, [], .aborted a⟩ := by
  simp only [buildAndWatch, habort]

end Program

/-- The separator is a text, and the paths can be opened. -/
structure BuildConfig.HalfFree (c : BuildConfig) : Prop where
  separator : ∃ separator : Text, c.separator = separator
  paths : ∀ pair ∈ c.pairs, pair.1.isRefused = false ∧ pair.2.isRefused = false

/-- With a separator and paths free of halves, no turn comes upon one. -/
theorem BuildConfig.HalfFree.not_meetsHalf {c : BuildConfig} (h : c.HalfFree) {t : FileTree}
    {u : Turn} (hu : u ∈ turns c.separator t c.pairs) (a : Abort) :
    ¬u.MeetsHalf c.separator a := by
  obtain ⟨separator, hseparator⟩ := h.separator
  obtain ⟨hs, hd⟩ := h.paths _ (pair_mem_of_mem_turns hu)
  rw [Turn.MeetsHalf, hseparator]
  exact IndentMarkup.not_meetsHalf hs hd

/-- A single run ends with two exactly when the build file is faulty, and then leaves the tree
alone. Otherwise every pair has its turn, and it ends with one exactly when not all of them are
written, else with zero. It never sleeps or asks anything of an observer.

A watching run sleeps as often as the build file is faulty, and until it is not, only the outside
world changes the tree. Then it builds every pair once and runs one watcher, both by the
configuration that it has found, which all rebuilds go by as well. It ends with zero if the watcher
comes to its end, however many pairs have failed.

Both go wrong where a turn of the build comes upon half of a surrogate pair. The run is aborted with
that turn, the pairs behind it have none, and a destination that was opened is left empty. A
configuration without halves is safe from that. -/
theorem Invocation.run_once_or_watching (load : Loader) (i : Invocation) (t : FileTree)
    (waits sleeps : List (List Action)) :
    let config := Path.ofText i.config
    let outcome := i.run load t waits sleeps
    (i.once = true →
      outcome.calls = [] ∧
      (outcome.ending = .exit 2 ↔ ∃ f, loadConfig load t config = .error (.fault f)) ∧
      (outcome.ending = .exit 2 → outcome.tree = t) ∧
      ∀ c, loadConfig load t config = .ok c → Buildable t c.pairs →
        let us := turns c.separator t c.pairs
        outcome.tree = treeAfter t us ∧
        ((∀ u ∈ us, ∀ a, ¬u.MeetsHalf c.separator a) →
          us.map Turn.pair = c.pairs ∧
          (outcome.ending = .exit 1 ↔ ∃ u ∈ us, ¬u.IsWritten c.separator) ∧
          (outcome.ending = .exit 0 ↔ ∀ u ∈ us, u.IsWritten c.separator)) ∧
        ∀ u ∈ us, ∀ a, u.MeetsHalf c.separator a →
          outcome.ending = .aborted a ∧ EndsWithTurn us c.pairs u ∧
          (a = .halfInOutput →
            outcome.tree.at? (u.destination.resolve t.workingDir) = some (.file []))) ∧
    (i.once = false → ∀ (faults : List ConfigFault) (c : BuildConfig),
      faults.length ≤ sleeps.length →
      (∀ j f, faults[j]? = some f →
        loadConfig load (atLoad t sleeps j) config = .error (.fault f)) →
      let found := atLoad t sleeps faults.length
      loadConfig load found config = .ok c → Buildable found c.pairs →
        let us := turns c.separator found c.pairs
        let watching := runWatcher c.separator (treeAfter found us) c.pairs c.watch waits
        ((∀ u ∈ us, ∀ a, ¬u.MeetsHalf c.separator a) →
          us.map Turn.pair = c.pairs ∧
          outcome.calls = List.replicate faults.length .sleep ++ watching.calls ∧
          .sleep ∉ watching.calls ∧
          outcome.log =
            faults.flatMap Program.retryLog ++ us.flatMap (·.outcome.log) ++ watching.log ∧
          outcome.tree = watching.tree ∧
          ((.start ∉ watching.calls ∧ watching.tree = treeAfter found us) ∨
            (watching.calls.count .start = 1 ∧ ∃ opening steps closing,
              watching.log = opening ++ steps ++ closing ∧
              Course c.separator c.pairs (c.pairs.keys ++ c.watch) (treeAfter found us)
                waits.flatten watching.tree steps)) ∧
          (watching.abort = none → outcome.ending = .exit 0) ∧
          ∀ a, watching.abort = some a → outcome.ending = .aborted a) ∧
        ∀ u ∈ us, ∀ a, u.MeetsHalf c.separator a →
          outcome.ending = .aborted a ∧ EndsWithTurn us c.pairs u ∧
          outcome.calls = List.replicate faults.length .sleep ∧
          outcome.tree = treeAfter found us ∧
          (a = .halfInOutput →
            outcome.tree.at? (u.destination.resolve found.workingDir) = some (.file []))) ∧
    ∀ c : BuildConfig, c.HalfFree → ∀ tree, ∀ u ∈ turns c.separator tree c.pairs,
      ∀ a, ¬u.MeetsHalf c.separator a := by
  intro config outcome
  refine ⟨?_, ?_, fun c hfree tree u hu a => hfree.not_meetsHalf hu a⟩
  · intro honce
    have houtcome : outcome = Program.runOnce load t config := if_pos honce
    have hfault := Program.runOnce_ending_iff load t config
    rw [houtcome]
    refine ⟨Program.calls_runOnce load t config, hfault, fun hend => ?_, fun c hload hc => ?_⟩
    · obtain ⟨f, hload⟩ := hfault.mp hend
      simp [Program.runOnce, hload]
    · simp only [Program.runOnce, hload]
      refine ⟨(build_eq_turns c.separator t c.pairs).1, fun hno => ?_, fun u hu a hhalf => ?_⟩
      · obtain ⟨habort, hpairs⟩ := hc.turns hno
        exact ⟨hpairs, Program.endOfBuild_iff habort⟩
      · obtain ⟨habort, hends, hempty⟩ := endsWithTurn_of_meetsHalf hu hhalf
        exact ⟨by simp only [Program.endOfBuild, habort], hends, hempty⟩
  · intro honce faults c hlength hfaults found hload hc us watching
    -- all but the first build and the watching is what the faults come to
    have hrun : outcome = { Program.buildAndWatch found c waits with
        log := faults.flatMap Program.retryLog ++ (Program.buildAndWatch found c waits).log
        calls := List.replicate faults.length .sleep ++
          (Program.buildAndWatch found c waits).calls } := by
      simp only [outcome, Invocation.run, honce, Bool.false_eq_true, if_false]
      rw [Program.runWatching_of_faults hlength hfaults, Program.runWatching_of_ok hload]
    refine ⟨fun hno => ?_, fun u hu a hhalf => ?_⟩
    · obtain ⟨habort, hpairs⟩ := hc.turns hno
      obtain ⟨hsleep, hcourse⟩ :=
        course_runWatcher c.separator (treeAfter found us) c.pairs c.watch waits
      rw [hrun, Program.buildAndWatch_of_built habort]
      exact ⟨hpairs, rfl, hsleep, (List.append_assoc ..).symm, rfl, hcourse,
        fun hend => by simp only [watching, us, hend, Option.elim_none],
        fun a hend => by simp only [watching, us, hend, Option.elim_some]⟩
    · obtain ⟨habort, hends, hempty⟩ := endsWithTurn_of_meetsHalf hu hhalf
      rw [hrun, Program.buildAndWatch_of_aborted habort]
      exact ⟨rfl, hends, List.append_nil _, (build_eq_turns c.separator found c.pairs).1, hempty⟩

/-- A result that is there is the result. -/
theorem eq_ok_of_toOption {ε α : Type} {r : Except ε α} {a : α} (h : r.toOption = some a) :
    r = .ok a := by
  cases r with
  | ok b => exact congrArg _ (Option.some.inj h)
  | error e => cases h

/-- The build file of the runs below, with an entry for each pair and the options given. -/
def buildFile (pairs : List (Text × Text)) (options : List (Value × Value)) : Value :=
  .map [(.text writeKey, .list (pairs.map fun pair =>
      .map [(.text sourceKey, .text pair.1), (.text destinationKey, .text pair.2)])),
    (.text optionsKey, .map options)]

/-- The build file appears during the first sleep and is taken away while the program watches. One
of its two sources never is there. -/
theorem Invocation.run_once_or_watching_laterConfig :
    let t := (FileTree.empty ["w"]).set ["w", "a"] (.file [0x70])
    let text : Text := "write: [\x7bsrc: a, dst: b\x7d, \x7bsrc: x, dst: y\x7d]\noptions: \x7b\x7d"
    let load : Loader := fun bytes =>
      if bytes = Utf8.encode text then .ok (.empty, buildFile [("a", "b"), ("x", "y")] [])
      else .error .malformed
    let i : Invocation := ⟨"c", false, false⟩
    let sleeps : List (List Action) := [[.plant (.ofText "c") (.file (Utf8.encode text))]]
    let waits : List (List Action) := [[.uproot (.ofText "c"), .plant (.ofText "a") (.file [0x71]),
      .event ⟨.modified, false, .ofText "a"⟩], [.interrupt]]
    let outcome := i.run load t waits sleeps
    outcome.calls = [.sleep, .schedule ["w"], .start, .wait, .wait, .stop, .join] ∧
      outcome.ending = .exit 0 ∧
      outcome.tree.at? ["w", "b"] = some (.file (Utf8.encode "<q></q>")) := by
  intro t text load i sleeps waits outcome
  let c : BuildConfig :=
    ⟨[(.ofText "a", .ofText "b"), (.ofText "x", .ofText "y")], [], defaultSeparator⟩
  have hmissing : t.readBytes (.ofText "c") = .error (.error .notFound) := by decide +kernel
  have hfaults : ∀ j f, [ConfigFault.unreadable (.ofText "c") .notFound][j]? = some f →
      loadConfig load (atLoad t sleeps j) (.ofText "c") = .error (.fault f) := by
    intro j f hj
    cases j with
    | zero =>
      obtain rfl := Option.some.inj hj
      simp only [atLoad, List.take_zero, List.foldl_nil, loadConfig, hmissing]
    | succ j => cases hj
  have hload : loadConfig load (atLoad t sleeps 1) (.ofText "c") = .ok c :=
    eq_ok_of_toOption (by decide +kernel)
  obtain ⟨-, hwatching, hfree⟩ := Invocation.run_once_or_watching load i t waits sleeps
  obtain ⟨hruns, -⟩ := hwatching rfl _ c (by decide) hfaults hload
    ⟨by decide +kernel, by decide +kernel⟩
  obtain ⟨-, hcalls, -, -, htree, -, hend, -⟩ :=
    hruns (hfree c ⟨⟨_, rfl⟩, by decide +kernel⟩ _)
  have hdirs : watchedDirs [["w", "a"], ["w", "x"]] = ([["w"]] : List Location) :=
    List.mergeSort_of_pairwise (by decide +kernel)
  have hfiles : resolveAll (treeAfter (atLoad t sleeps 1)
      (turns c.separator (atLoad t sleeps 1) c.pairs)).workingDir (c.pairs.keys ++ c.watch) =
        .ok [["w", "a"], ["w", "x"]] := by decide +kernel
  simp only [List.length_singleton, runWatcher, setUp, hfiles, hdirs] at hcalls htree hend
  rw [hcalls, htree]
  exact ⟨by decide +kernel, hend (by decide +kernel), by decide +kernel⟩

/-- Half of a surrogate pair for a separator ends a single run without an exit code, although the
build file is accepted, the paths hold no NUL and the source is a text. The destination is emptied
and no error is logged. -/
theorem Invocation.run_half_separator :
    let text : Text :=
      "write: [\x7bsrc: a, dst: b\x7d]\noptions: \x7btext_separator: \"\\ud800\"\x7d\n"
    let load : Loader := fun bytes =>
      if bytes = Utf8.encode text then
        .ok (.empty, buildFile [("a", "b")] [(.text separatorKey, .text [.half 0])])
      else .error .malformed
    let t := (((FileTree.empty ["w"]).set ["w", "c"] (.file (Utf8.encode text))).set ["w", "a"]
      (.file (Utf8.encode "p x\n  y"))).set ["w", "b"] (.file [0x6F])
    let outcome := Invocation.run load ⟨"c", true, false⟩ t [] []
    (∃ c, loadConfig load t (.ofText "c") = .ok c ∧ Buildable t c.pairs) ∧
      outcome.ending = .aborted .halfInOutput ∧
      (∀ e ∈ outcome.log, LogEntry.severity e = .debug) ∧
      outcome.tree.at? ["w", "b"] = some (.file []) := by
  intro text load t outcome
  have hload : loadConfig load t (.ofText "c") =
      .ok ⟨[(.ofText "a", .ofText "b")], [], [.half 0]⟩ := eq_ok_of_toOption (by decide +kernel)
  exact ⟨⟨_, hload, by decide +kernel, by decide +kernel⟩, by decide +kernel⟩

end IndentMarkup
