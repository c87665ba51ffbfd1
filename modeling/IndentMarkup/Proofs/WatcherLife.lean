import IndentMarkup.Proofs.InsertionOrder
import IndentMarkup.Watch
import Mathlib.Data.List.Nodup

/-!
# The life of a watcher

A watcher is set up over the directories of the watched files and then waits. However the waiting
ends, the observer is stopped if it is still alive, and joined once. The observer is described by
what the calls make of it: it is alive from its start on, until it is stopped or the wait comes in
which it ends.
-/
namespace IndentMarkup

/-! ## Observers -/

structure Observer where
  alive : Bool
  /-- The waits that it lives through. -/
  left : Nat

namespace Observer

/-- What a call makes of the observer. -/
def take (o : Observer) : Call → Observer
  | .start => { o with alive := true }
  | .stop => { o with alive := false }
  | .wait => if o.left = 0 then { o with alive := false } else { o with left := o.left - 1 }
  | .schedule _ => o
  | .join => o
  | .sleep => o

def after (o : Observer) (calls : List Call) : Observer := calls.foldl take o

def fresh (left : Nat) : Observer := ⟨false, left⟩

theorem after_append (o : Observer) (xs ys : List Call) :
    o.after (xs ++ ys) = (o.after xs).after ys := List.foldl_append

theorem after_schedules (o : Observer) (dirs : List Location) :
    o.after (dirs.map Call.schedule) = o := by
  induction dirs with
  | nil => rfl
  | cons d dirs ih => exact ih

/-- An observer is alive for as many waits as it has left. -/
theorem alive_after_waits (left n : Nat) :
    ((Observer.mk true left).after (List.replicate n .wait)).alive = decide (n ≤ left) := by
  induction n generalizing left with
  | zero => simp [after]
  | succ n ih =>
    have hdead (left n : Nat) :
        ((Observer.mk false left).after (List.replicate n .wait)).alive = false := by
      induction n generalizing left with
      | zero => rfl
      | succ n ih =>
        rw [List.replicate_succ, after, List.foldl_cons]
        simp only [take]
        split
        · exact ih left
        · exact ih (left - 1)
    rw [List.replicate_succ, after, List.foldl_cons]
    cases left with
    | zero => exact hdead 0 n
    | succ left => exact (ih left).trans (by simp)

/-- Started over some directories, the observer lives through its waits and no further. -/
theorem alive_after (left : Nat) (dirs : List Location) (n : Nat) :
    ((fresh left).after (dirs.map Call.schedule ++ .start :: List.replicate n .wait)).alive =
      decide (n ≤ left) := by
  rw [after_append, after_schedules]
  exact alive_after_waits left n

end Observer

/-! ## The waits -/

/-- The tree before a wait, if those before it pass. -/
def treeBefore (h : Handler) (t : FileTree) (script : List (List Action)) (k : Nat) : FileTree :=
  (script.take k).foldl (fun t actions => (wait h t actions).tree) t

/-- How the waiting is left behind the waits that pass: the observer ends by itself when the script
is used up, or the next wait is cut short. -/
inductive LoopLeft (h : Handler) (t : FileTree) (script : List (List Action)) (passed : Nat) :
    Option Abort → Prop where
  | ended : passed = script.length → LoopLeft h t script passed none
  | interrupted {actions : List Action} : script[passed]? = some actions →
      (wait h (treeBefore h t script passed) actions).ending = .interrupted →
      LoopLeft h t script passed none
  | aborted {actions : List Action} {a : Abort} : script[passed]? = some actions →
      (wait h (treeBefore h t script passed) actions).ending = .aborted a →
      LoopLeft h t script passed (some a)

/-- The waiting goes on for as long as the waits pass, and is cleaned up however it is left. -/
structure WaitsThrough (h : Handler) (t : FileTree) (script : List (List Action)) (passed : Nat)
    (outcome : WatchOutcome) : Prop where
  le : passed ≤ script.length
  elapsed : ∀ k < passed, ∃ actions, script[k]? = some actions ∧
    (wait h (treeBefore h t script k) actions).ending = .elapsed
  calls : outcome.calls = List.replicate (passed + 1) .wait ++
    (if passed < script.length then [.stop] else []) ++ [.join]
  log : outcome.log.getLast? = some stoppedEntry
  left : LoopLeft h t script passed outcome.abort

/-- A wait that passes comes in front of the way in which the loop is left. -/
theorem LoopLeft.next {h : Handler} {t : FileTree} {actions : List Action}
    {script : List (List Action)} {passed : Nat} {abort : Option Abort}
    (hleft : LoopLeft h (wait h t actions).tree script passed abort) :
    LoopLeft h t (actions :: script) (passed + 1) abort := by
  cases hleft with
  | ended heq => exact .ended (by simp [heq])
  | interrupted hactions hend => exact .interrupted hactions hend
  | aborted hactions hend => exact .aborted hactions hend

/-- Some waits pass, and the waiting is cleaned up behind them. -/
theorem exists_waitsThrough (h : Handler) (t : FileTree) (script : List (List Action)) :
    ∃ passed, WaitsThrough h t script passed (waitAll h t script) := by
  induction script generalizing t with
  | nil => exact ⟨0, Nat.le_refl 0, by simp, rfl, rfl, .ended rfl⟩
  | cons actions script ih =>
    rw [waitAll]
    cases hend : (wait h t actions).ending with
    | interrupted =>
      exact ⟨0, Nat.zero_le _, by simp, by simp, by simp, .interrupted rfl hend⟩
    | aborted a => exact ⟨0, Nat.zero_le _, by simp, by simp, by simp, .aborted rfl hend⟩
    | elapsed =>
      obtain ⟨passed, hthrough⟩ := ih (wait h t actions).tree
      refine ⟨passed + 1, Nat.succ_le_succ hthrough.le, ?_, ?_, ?_, hthrough.left.next⟩
      · intro k hk
        cases k with
        | zero => exact ⟨actions, rfl, hend⟩
        | succ k => exact hthrough.elapsed k (by omega)
      · simp [hthrough.calls, List.replicate_succ]
      · simp [List.getLast?_append, hthrough.log]

/-! ## The directories -/

/-- The place is a directory, and a watched file stands in it. -/
def IsWatchedDir (t : FileTree) (paths : List Path) (d : Location) : Prop :=
  t.isDir (Location.path d) = .ok true ∧ ∃ p ∈ paths, (p.resolve t.workingDir).dropLast = d

/-- The paths can be followed, and the places above them can be looked up. -/
structure CanBeWatched (t : FileTree) (paths : List Path) : Prop where
  usable : ∀ p ∈ paths, p.isRefused = false
  found : ∀ p ∈ paths, ∃ there,
    t.isDir (Location.path (p.resolve t.workingDir).dropLast) = .ok there

theorem mem_watchedDirs_iff {files : List Location} {d : Location} :
    d ∈ watchedDirs files ↔ ∃ f ∈ files, f.dropLast = d := by
  simp [watchedDirs, List.mem_mergeSort, List.mem_eraseDups]

theorem nodup_watchedDirs (files : List Location) : (watchedDirs files).Nodup :=
  (List.mergeSort_perm _ _).nodup_iff.mpr (OrderedMap.nodup_eraseDups _)

section

variable {t : FileTree} {dirs : List Location}

/-- Nothing but directories is scheduled, each in its turn. -/
theorem schedule_dirs (t : FileTree) (dirs : List Location) :
    (schedule t dirs).dirs.Sublist dirs ∧
      ∀ d ∈ (schedule t dirs).dirs, t.isDir (Location.path d) = .ok true := by
  induction dirs with
  | nil => exact ⟨.slnil, by simp [schedule]⟩
  | cons d dirs ih =>
    obtain ⟨hsub, hdirs⟩ := ih
    cases hfound : t.isDir (Location.path d) with
    | error e => simp [schedule, hfound]
    | ok there =>
      cases there with
      | true => simpa [schedule, hfound] using ⟨hsub, hdirs⟩
      | false => simpa [schedule, hfound] using ⟨hsub.cons d, hdirs⟩

/-- Directories that can all be looked up are all gone through. -/
theorem schedule_of_found (h : ∀ d ∈ dirs, ∃ there, t.isDir (Location.path d) = .ok there) :
    (schedule t dirs).abort = none ∧
      ∀ d ∈ dirs, t.isDir (Location.path d) = .ok true → d ∈ (schedule t dirs).dirs := by
  induction dirs with
  | nil => simp [schedule]
  | cons d dirs ih =>
    obtain ⟨⟨there, hfound⟩, hrest⟩ := List.forall_mem_cons.mp h
    obtain ⟨hgoes, hdirs⟩ := ih hrest
    cases there with
    | true =>
      simp only [schedule, hfound, if_true]
      refine ⟨hgoes, List.forall_mem_cons.mpr ⟨fun _ => List.mem_cons_self, fun e he hdir => ?_⟩⟩
      exact List.mem_cons_of_mem d (hdirs e he hdir)
    | false =>
      simp only [schedule, hfound, Bool.false_eq_true, if_false]
      exact ⟨hgoes, List.forall_mem_cons.mpr ⟨by simp [hfound], hdirs⟩⟩

/-- A place that cannot be looked up ends the scheduling. -/
theorem schedule_of_not_found {d : Location} (hd : d ∈ dirs)
    (h : ∀ there, t.isDir (Location.path d) ≠ .ok there) :
    (schedule t dirs).abort = some .nameTooLong := by
  induction dirs with
  | nil => simp at hd
  | cons e dirs ih =>
    cases hfound : t.isDir (Location.path e) with
    | error _ => simp [schedule, hfound]
    | ok there =>
      have hrest : d ∈ dirs := (List.mem_cons.mp hd).resolve_left (by rintro rfl; exact h _ hfound)
      cases there <;> simpa [schedule, hfound] using ih hrest

end

theorem findSome?_wayRefusal?_eq_none_iff {paths : List Path} :
    paths.findSome? Path.wayRefusal? = none ↔ ∀ p ∈ paths, p.isRefused = false := by
  simp [List.findSome?_eq_none_iff, Path.wayRefusal?_eq_none_iff]

/-- Paths that are not refused all have their places. -/
theorem resolveAll_of_usable (workingDir : Location) {paths : List Path}
    (h : ∀ p ∈ paths, p.isRefused = false) :
    ∃ files, resolveAll workingDir paths = .ok files ∧
      ∀ l, l ∈ files ↔ ∃ p ∈ paths, p.resolve workingDir = l := by
  rw [resolveAll, findSome?_wayRefusal?_eq_none_iff.mpr h]
  exact ⟨_, rfl, fun l => by simp [List.mem_eraseDups]⟩

section

variable (separator : Codes) {t : FileTree} {pairs : Pairs} {watch : List Path}

/-- The directories of the watched files, once these are resolved. -/
theorem mem_watchedDirs_resolved_iff {paths : List Path} {files : List Location} {d : Location}
    (hmem : ∀ l, l ∈ files ↔ ∃ p ∈ paths, p.resolve t.workingDir = l) :
    d ∈ watchedDirs files ↔ ∃ p ∈ paths, (p.resolve t.workingDir).dropLast = d := by
  simp only [mem_watchedDirs_iff, hmem]
  constructor
  · rintro ⟨_, ⟨p, hp, rfl⟩, rfl⟩
    exact ⟨p, hp, rfl⟩
  · rintro ⟨p, hp, rfl⟩
    exact ⟨_, ⟨p, hp, rfl⟩, rfl⟩

/-- Without a watcher, some directories may have been scheduled all the same. -/
theorem setUp_of_not_canBeWatched (h : ¬CanBeWatched t (pairs.keys ++ watch)) :
    ∃ dirs log, (∀ d ∈ dirs, IsWatchedDir t (pairs.keys ++ watch) d) ∧
      setUp separator t pairs watch = .aborted
        (((pairs.keys ++ watch).findSome? Path.wayRefusal?).getD .nameTooLong) dirs log := by
  cases hrefused : (pairs.keys ++ watch).findSome? Path.wayRefusal? with
  | some a => exact ⟨[], [], by simp, by simp only [setUp, resolveAll, hrefused, Option.getD_some]⟩
  | none =>
    have husable := findSome?_wayRefusal?_eq_none_iff.mp hrefused
    have hfar : ∃ p ∈ pairs.keys ++ watch, ∀ there,
        t.isDir (Location.path (p.resolve t.workingDir).dropLast) ≠ .ok there := by
      by_contra hnot
      push Not at hnot
      exact h ⟨husable, hnot⟩
    obtain ⟨p, hp, hfar⟩ := hfar
    obtain ⟨files, hfiles, hmem⟩ := resolveAll_of_usable t.workingDir husable
    have hdir := (mem_watchedDirs_resolved_iff hmem).mpr ⟨p, hp, rfl⟩
    have habort := schedule_of_not_found hdir hfar
    obtain ⟨hsub, hthere⟩ := schedule_dirs t (watchedDirs files)
    refine ⟨(schedule t (watchedDirs files)).dirs,
      Handler.ready :: (schedule t (watchedDirs files)).log, fun d hd => ⟨hthere d hd, ?_⟩, ?_⟩
    · exact (mem_watchedDirs_resolved_iff hmem).mp (hsub.subset hd)
    · simp only [setUp, hfiles, Option.getD_none]
      cases hall : watchedDirs files with
      | nil => simp [hall] at hdir
      | cons first rest =>
        rw [hall] at habort
        simp only [habort]

/-- A watcher is placed over the directories of its files, or refused when there are none. -/
theorem setUp_of_canBeWatched (h : CanBeWatched t (pairs.keys ++ watch)) :
    ∃ files dirs log, resolveAll t.workingDir (pairs.keys ++ watch) = .ok files ∧ dirs.Nodup ∧
      (∀ d, d ∈ dirs ↔ IsWatchedDir t (pairs.keys ++ watch) d) ∧
      setUp separator t pairs watch =
        if dirs = [] then .refused log else .placed ⟨files, pairs, separator⟩ dirs log := by
  obtain ⟨files, hfiles, hmem⟩ := resolveAll_of_usable t.workingDir h.usable
  have hfound : ∀ d ∈ watchedDirs files, ∃ there, t.isDir (Location.path d) = .ok there := by
    intro d hd
    obtain ⟨p, hp, rfl⟩ := (mem_watchedDirs_resolved_iff hmem).mp hd
    exact h.found p hp
  obtain ⟨hsub, hthere⟩ := schedule_dirs t (watchedDirs files)
  obtain ⟨hgoes, hall⟩ := schedule_of_found hfound
  have hwatched (d : Location) :
      d ∈ (schedule t (watchedDirs files)).dirs ↔ IsWatchedDir t (pairs.keys ++ watch) d := by
    rw [IsWatchedDir, ← mem_watchedDirs_resolved_iff hmem]
    exact ⟨fun hd => ⟨hthere d hd, hsub.subset hd⟩, fun hd => hall d hd.2 hd.1⟩
  refine ⟨files, (schedule t (watchedDirs files)).dirs, ?_⟩
  simp only [setUp, hfiles, true_and]
  cases hdirs : watchedDirs files with
  | nil => exact ⟨_, .nil, hdirs ▸ hwatched, rfl⟩
  | cons first rest =>
    rw [hdirs] at hgoes hwatched
    have hnodup := (hdirs ▸ hsub).nodup (hdirs ▸ nodup_watchedDirs files)
    simp only [hgoes]
    generalize (schedule t (first :: rest)).dirs = there at hwatched hnodup ⊢
    cases there with
    | nil => exact ⟨_, hnodup, hwatched, by rw [if_pos rfl]⟩
    | cons d others => exact ⟨_, hnodup, hwatched, by rw [if_neg (by simp)]⟩

end

/-- A watcher does not start its observer where its files cannot be looked up or there is no directory
to watch. Otherwise it schedules every directory that holds a watched file once, starts the
observer, waits for as long as it is alive and nothing cuts a wait short, stops it if it is alive
then, and joins it. Its last word is that it has stopped; an interrupt is not passed on, and an
abort is. -/
theorem runWatcher_calls (separator : Codes) (t : FileTree) (pairs : Pairs) (watch : List Path)
    (script : List (List Action)) :
    let paths := pairs.keys ++ watch
    let outcome := runWatcher separator t pairs watch script
    (¬CanBeWatched t paths → .start ∉ outcome.calls ∧ .stop ∉ outcome.calls ∧
      .join ∉ outcome.calls ∧
      (∀ call ∈ outcome.calls, ∃ d, call = .schedule d ∧ IsWatchedDir t paths d) ∧
      outcome.tree = t ∧
      outcome.abort = some ((paths.findSome? Path.wayRefusal?).getD .nameTooLong)) ∧
    (CanBeWatched t paths → (∀ d, ¬IsWatchedDir t paths d) →
      outcome.calls = [] ∧ outcome.tree = t ∧ outcome.abort = none) ∧
    (CanBeWatched t paths → (∃ d, IsWatchedDir t paths d) →
      ∃ (files dirs : List Location) (passed : Nat),
        let h : Handler := ⟨files, pairs, separator⟩
        let observer := Observer.fresh script.length
        let begun := dirs.map Call.schedule ++ [.start]
        let waited := begun ++ List.replicate (passed + 1) .wait
        resolveAll t.workingDir paths = .ok files ∧
        dirs.Nodup ∧ (∀ d, d ∈ dirs ↔ IsWatchedDir t paths d) ∧
        outcome.calls =
          waited ++ (if (observer.after waited).alive then [.stop] else []) ++ [.join] ∧
        (∀ k ≤ passed, (observer.after (begun ++ List.replicate k .wait)).alive = true) ∧
        (∀ k < passed, ∃ actions, script[k]? = some actions ∧
          (wait h (treeBefore h t script k) actions).ending = .elapsed) ∧
        LoopLeft h t script passed outcome.abort ∧
        outcome.log.getLast? = some stoppedEntry) := by
  intro paths outcome
  refine ⟨fun hcannot => ?_, fun hcan hnone => ?_, fun hcan hsome => ?_⟩
  · obtain ⟨dirs, log, hdirs, hsetUp⟩ := setUp_of_not_canBeWatched separator hcannot
    simpa [outcome, runWatcher, hsetUp, paths] using hdirs
  · obtain ⟨files, dirs, log, -, -, hdirs, hsetUp⟩ := setUp_of_canBeWatched separator hcan
    obtain rfl : dirs = [] :=
      List.eq_nil_iff_forall_not_mem.mpr fun d hd => hnone d ((hdirs d).mp hd)
    simp [outcome, runWatcher, hsetUp]
  · obtain ⟨files, dirs, log, hfiles, hnodup, hdirs, hsetUp⟩ := setUp_of_canBeWatched separator hcan
    obtain ⟨d, hd⟩ := hsome
    have hne : dirs ≠ [] := List.ne_nil_of_mem ((hdirs d).mpr hd)
    rw [if_neg hne] at hsetUp
    obtain ⟨passed, hthrough⟩ := exists_waitsThrough ⟨files, pairs, separator⟩ t script
    have hrun : outcome = { waitAll ⟨files, pairs, separator⟩ t script with
        log := log ++ (waitAll ⟨files, pairs, separator⟩ t script).log
        calls := dirs.map Call.schedule ++
          .start :: (waitAll ⟨files, pairs, separator⟩ t script).calls } := by
      simp only [outcome, runWatcher, hsetUp]
    have halive (k : Nat) : ((Observer.fresh script.length).after
        (dirs.map Call.schedule ++ [.start] ++ List.replicate k .wait)).alive =
          decide (k ≤ script.length) := by
      rw [List.append_assoc]
      exact Observer.alive_after script.length dirs k
    refine ⟨files, dirs, passed, hfiles, hnodup, hdirs, ?_, ?_, hthrough.elapsed, ?_, ?_⟩
    · rw [hrun, halive, hthrough.calls]
      simp only [decide_eq_true_eq, Nat.succ_le_iff, List.append_assoc, List.cons_append,
        List.nil_append]
    · intro k hk
      rw [halive]
      exact decide_eq_true (Nat.le_trans hk hthrough.le)
    · rw [hrun]
      exact hthrough.left
    · rw [hrun, List.getLast?_append, hthrough.log]
      rfl

/-- Two sources share a directory, a third watched file is in another and a fourth in a missing one.
The first wait passes with a rebuild; in the second a source is no longer a text. -/
theorem runWatcher_calls_undecodable :
    let t := ((FileTree.empty ["w"]).set ["w", "a"] (.file [0x70])).set ["w", "d"] .dir
    let pairs : Pairs := [(.ofText "a", .ofText "x"), (.ofText "b", .ofText "y")]
    let watch : List Path := [.ofText "d/c", .ofText "e/c"]
    let changed : Action := .event ⟨.modified, false, .ofText "d/c"⟩
    let outcome := runWatcher defaultSeparator t pairs watch
      [[changed], [.plant (.ofText "b") (.file [0xFF]), changed, .interrupt], []]
    (outcome.calls = [.schedule ["w"], .schedule ["w", "d"], .start, .wait, .wait, .stop, .join]) ∧
      outcome.abort = some .undecodable ∧ outcome.log.getLast? = some stoppedEntry := by
  intro t pairs watch changed outcome
  have hcan : CanBeWatched t (pairs.keys ++ watch) := ⟨by decide +kernel, by decide +kernel⟩
  obtain ⟨-, -, hwatched⟩ := runWatcher_calls defaultSeparator t pairs watch
    [[changed], [.plant (.ofText "b") (.file [0xFF]), changed, .interrupt], []]
  obtain ⟨files, dirs, passed, -, -, -, -, -, -, -, hlast⟩ :=
    hwatched hcan ⟨["w"], by decide +kernel, .ofText "a", by decide +kernel, by decide +kernel⟩
  have hfiles : resolveAll t.workingDir (pairs.keys ++ watch) =
      .ok [["w", "a"], ["w", "b"], ["w", "d", "c"], ["w", "e", "c"]] := by decide +kernel
  -- sorting is by well-founded recursion, which does not evaluate
  have hdirs : watchedDirs [["w", "a"], ["w", "b"], ["w", "d", "c"], ["w", "e", "c"]] =
      ([["w"], ["w", "d"], ["w", "e"]] : List Location) :=
    List.mergeSort_of_pairwise (by decide +kernel)
  refine ⟨?_, ?_, hlast⟩
  · simp only [outcome, runWatcher, setUp, hfiles, hdirs]
    decide +kernel
  · simp only [outcome, runWatcher, setUp, hfiles, hdirs]
    decide +kernel

/-- A path with a NUL keeps the watcher from its observer, though there is a directory to watch. -/
theorem runWatcher_nul :
    let t := (FileTree.empty ["w"]).set ["w", "a"] (.file [0x70])
    let pairs : Pairs := [(.ofText "a", .ofText "x")]
    let watch : List Path := [.ofText (Text.codes ['b', '\x00'])]
    let outcome := runWatcher defaultSeparator t pairs watch []
    IsWatchedDir t (pairs.keys ++ watch) ["w"] ∧ outcome.calls = [] ∧
      outcome.abort = some .nulInPath :=
  ⟨⟨by decide +kernel, .ofText "a", by decide +kernel, by decide +kernel⟩, by decide +kernel,
    by decide +kernel⟩

end IndentMarkup
