import IndentMarkup.Proofs.Independence
import IndentMarkup.Proofs.Rebuilding
import IndentMarkup.Watch
import Mathlib.Data.List.Pairwise

/-!
# Outputs under watching

A wait is followed action by action. An action is a rebuild, or it leaves every destination alone: a
change from outside does so by assumption, and an event that does not concern the handler changes
nothing. In a rebuild a pair writes its destination or leaves it as it was. So a destination holds at
any time what its source compiled to at the latest rebuild in which the pair succeeded, and in between
neither a broken source nor another pair can spoil it.
-/
namespace IndentMarkup

/-! ## Actions -/

/-- A change from outside that touches no destination, neither brings nor takes a file above one,
and leaves a tree that hangs together, with texts at the sources. -/
structure FileTree.Spares (pairs : Pairs) (t t' : FileTree) : Prop where
  coherent : t'.Coherent
  texts : SourcesAreTexts t' pairs
  destination : ∀ pair ∈ pairs,
    t'.at? (pair.2.resolve t.workingDir) = t.at? (pair.2.resolve t.workingDir)
  above : ∀ pair ∈ pairs, ∀ l, l <+: pair.2.resolve t.workingDir → t'.isFile l = t.isFile l

instance (pairs : Pairs) (t t' : FileTree) : Decidable (FileTree.Spares pairs t t') :=
  decidable_of_iff (t'.Coherent ∧ SourcesAreTexts t' pairs ∧
      (∀ pair ∈ pairs,
        t'.at? (pair.2.resolve t.workingDir) = t.at? (pair.2.resolve t.workingDir)) ∧
      ∀ pair ∈ pairs, ∀ l ∈ (pair.2.resolve t.workingDir).inits, t'.isFile l = t.isFile l)
    ⟨fun h => ⟨h.1, h.2.1, h.2.2.1, fun pair hpair l hl =>
        h.2.2.2 pair hpair l ((List.mem_inits l _).mpr hl)⟩,
      fun h => ⟨h.coherent, h.texts, h.destination, fun pair hpair l hl =>
        h.above pair hpair l ((List.mem_inits l _).mp hl)⟩⟩

namespace Action

/-- What is done from outside spares the destinations. -/
def Spares (pairs : Pairs) (t : FileTree) : Action → Prop
  | .plant path entry => FileTree.Spares pairs t (t.plant path entry)
  | .uproot path => FileTree.Spares pairs t (t.uproot path)
  | .event _ => True
  | .interrupt => True

instance (pairs : Pairs) (t : FileTree) : (a : Action) → Decidable (a.Spares pairs t)
  | .plant path entry => inferInstanceAs (Decidable (FileTree.Spares pairs t (t.plant path entry)))
  | .uproot path => inferInstanceAs (Decidable (FileTree.Spares pairs t (t.uproot path)))
  | .event _ => .isTrue trivial
  | .interrupt => .isTrue trivial

/-- The action ends a wait: an interrupt, or the modification of a file whose path cannot be
followed. -/
def endsWait : Action → Bool
  | .event e => e.kind == .modified && !e.isDirectory && e.path.isRefused
  | .interrupt => true
  | _ => false

end Action

/-- The event tells of a modified file at the place of a watched path. -/
def Event.Concerns (workingDir : Location) (watch : List Path) (e : Event) : Prop :=
  e.kind = .modified ∧ e.isDirectory = false ∧ e.path.isRefused = false ∧
    ∃ p ∈ watch, p.resolve workingDir = e.path.resolve workingDir

instance (workingDir : Location) (watch : List Path) (e : Event) :
    Decidable (e.Concerns workingDir watch) :=
  inferInstanceAs (Decidable (_ ∧ _))

theorem Event.Concerns.goesOn {workingDir : Location} {watch : List Path} {e : Event}
    (h : e.Concerns workingDir watch) : (Action.event e).endsWait = false := by
  simp [Action.endsWait, h.2.2.1]

namespace Handler

variable {h : Handler} {t : FileTree} {watch : List Path} {e : Event}

theorem mem_watched_iff (hwatch : resolveAll t.workingDir watch = .ok h.watched) {l : Location} :
    l ∈ h.watched ↔ ∃ p ∈ watch, p.resolve t.workingDir = l := by
  unfold resolveAll at hwatch
  split at hwatch
  · cases hwatch
  · rw [← Except.ok.inj hwatch, List.mem_eraseDups, List.mem_map]

/-- An event that concerns the handler is logged and makes it build. -/
theorem handle_of_concerns (hwatch : resolveAll t.workingDir watch = .ok h.watched)
    (he : e.Concerns t.workingDir watch) :
    h.handle t e = { build h.separator t h.pairs with
      log := detected (e.path.resolve t.workingDir) :: (build h.separator t h.pairs).log } := by
  obtain ⟨hkind, hfile, husable, hplace⟩ := he
  have hwatched := (mem_watched_iff hwatch).mpr hplace
  simp [handle, isConcerned, hkind, hfile, husable, hwatched]

/-- Any other event changes nothing, unless its path cannot be followed. -/
theorem handle_of_not_concerns (hwatch : resolveAll t.workingDir watch = .ok h.watched)
    (he : ¬e.Concerns t.workingDir watch) :
    (h.handle t e).tree = t ∧ (h.handle t e).log = [] ∧
      ((h.handle t e).abort = none ↔ (Action.event e).endsWait = false) := by
  unfold handle
  split
  next hends =>
    have hrefused : e.path.wayRefusal? ≠ none := by
      rw [Ne, Path.wayRefusal?_eq_none_iff, (Bool.and_eq_true_iff.mp hends).2]
      simp
    simp [Action.endsWait, hends, hrefused]
  next hgoes =>
    have hnot : h.isConcerned t e = false := by
      rw [← Bool.not_eq_true]
      intro hyes
      simp only [isConcerned, Bool.and_eq_true, beq_iff_eq, Bool.not_eq_true',
        List.contains_iff_mem, mem_watched_iff hwatch] at hyes
      obtain ⟨⟨hkind, hfile⟩, hplace⟩ := hyes
      exact he ⟨hkind, hfile, by simpa [hkind, hfile] using hgoes, hplace⟩
    simp [hnot, Action.endsWait, Bool.not_eq_true _ ▸ hgoes]

end Handler

/-! ## Waits in parts -/

section

variable {h : Handler} {t : FileTree} {xs ys : List Action}

/-- A wait that passes is followed by the rest of its actions. -/
theorem wait_append_of_elapsed (hx : (wait h t xs).ending = .elapsed) :
    wait h t (xs ++ ys) =
      { wait h (wait h t xs).tree ys with
        log := (wait h t xs).log ++ (wait h (wait h t xs).tree ys).log } := by
  induction xs generalizing t with
  | nil => rfl
  | cons a xs ih =>
    cases a with
    | plant path entry => exact ih hx
    | uproot path => exact ih hx
    | interrupt => cases hx
    | event e =>
      simp only [List.cons_append, wait] at hx ⊢
      cases habort : (h.handle t e).abort with
      | some a => simp [habort] at hx
      | none =>
        simp only [habort] at hx ⊢
        rw [ih hx, List.append_assoc]

theorem wait_append_of_ended (hx : (wait h t xs).ending ≠ .elapsed) :
    wait h t (xs ++ ys) = wait h t xs := by
  induction xs generalizing t with
  | nil => exact absurd rfl hx
  | cons a xs ih =>
    cases a with
    | plant path entry => exact ih hx
    | uproot path => exact ih hx
    | interrupt => rfl
    | event e =>
      simp only [List.cons_append, wait] at hx ⊢
      cases habort : (h.handle t e).abort with
      | some a => rfl
      | none =>
        simp only [habort] at hx ⊢
        rw [ih hx]

end

/-! ## Runs -/

/-- What has come of the first actions. -/
def after (h : Handler) (t : FileTree) (actions : List Action) (n : Nat) : WaitOutcome :=
  wait h t (actions.take n)

/-- None of the first actions ends the wait, so that the next one takes place. -/
def Reached (actions : List Action) (n : Nat) : Prop := ∀ a ∈ actions.take n, a.endsWait = false

instance (actions : List Action) (n : Nat) : Decidable (Reached actions n) :=
  inferInstanceAs (Decidable (∀ a ∈ actions.take n, _))

instance (action : Option Action) (p : Event → Prop) [DecidablePred p] :
    Decidable (∃ e, action = some (.event e) ∧ p e) :=
  match action with
  | some (.event e) => decidable_of_iff (p e) (by simp)
  | some (.plant _ _) => .isFalse (by simp)
  | some (.uproot _) => .isFalse (by simp)
  | some .interrupt => .isFalse (by simp)
  | none => .isFalse (by simp)

/-- The action is an event that concerns the handler. -/
def Rebuilds (workingDir : Location) (watch : List Path) (actions : List Action) (k : Nat) : Prop :=
  Reached actions k ∧ ∃ e, actions[k]? = some (.event e) ∧ e.Concerns workingDir watch

instance (workingDir : Location) (watch : List Path) (actions : List Action) (k : Nat) :
    Decidable (Rebuilds workingDir watch actions k) :=
  inferInstanceAs (Decidable (_ ∧ _))

/-- In the rebuild that the action starts, the pair's turn ends with its output written. -/
def Renews (h : Handler) (watch : List Path) (t : FileTree) (actions : List Action)
    (pair : Path × Path) (k : Nat) : Prop :=
  Rebuilds t.workingDir watch actions k ∧
    ∃ u ∈ turns h.separator (after h t actions k).tree h.pairs,
      u.pair = pair ∧ u.outcome.status = .written

instance (h : Handler) (watch : List Path) (t : FileTree) (actions : List Action)
    (pair : Path × Path) (k : Nat) : Decidable (Renews h watch t actions pair k) :=
  inferInstanceAs (Decidable (_ ∧ _))

/-- A handler over pairs that do not meddle with each other, with a separator that is a text, and a
world that spares its destinations. -/
structure Watches (separator : Text) (h : Handler) (watch : List Path) (t : FileTree)
    (actions : List Action) : Prop where
  separator : h.separator = separator
  watched : resolveAll t.workingDir watch = .ok h.watched
  coherent : t.Coherent
  plain : PlainPairs h.pairs
  texts : SourcesAreTexts t h.pairs
  independent : Independent t.workingDir h.pairs
  world : ∀ k, (hk : k < actions.length) → Reached actions k →
    (actions[k]).Spares h.pairs (after h t actions k).tree

/-! ## What one action comes to -/

theorem reached_succ_iff {actions : List Action} {k : Nat} (hk : k < actions.length) :
    Reached actions (k + 1) ↔ Reached actions k ∧ (actions[k]).endsWait = false := by
  rw [Reached, List.take_succ_eq_append_getElem hk]
  simp only [List.mem_append, List.mem_singleton, or_imp, forall_and, forall_eq]
  rfl

namespace FileTree

variable {pairs : Pairs} {t t' : FileTree} {pair : Path × Path}

theorem Spares.refl (ht : t.Coherent) (htext : SourcesAreTexts t pairs) : Spares pairs t t :=
  ⟨ht, htext, fun _ _ => rfl, fun _ _ _ _ => rfl⟩

/-- A change that spares the destinations leaves them as writable as they were. -/
theorem Spares.writable_iff (h : Spares pairs t t') (hwd : t'.workingDir = t.workingDir)
    (hpair : pair ∈ pairs) (hp : parentMark ∉ pair.2.parts) :
    t'.Writable pair.2 ↔ t.Writable pair.2 := by
  refine Writable.congr hwd (fun k _ => ?_) ?_
  · exact h.above pair hpair _ (Path.stage_begins hp t.workingDir k)
  · rw [h.destination pair hpair]

theorem plant_workingDir (t : FileTree) (p : Path) (entry : Entry) :
    (t.plant p entry).workingDir = t.workingDir := by
  have hset : ∀ (places : List Location) (t : FileTree),
      (places.foldl (fun t d => t.set d .dir) t).workingDir = t.workingDir := by
    intro places
    induction places with
    | nil => exact fun t => rfl
    | cons l rest ih => exact fun t => ih (t.set l .dir)
  exact hset _ t

end FileTree

/-- What an action comes to, where it takes place. -/
inductive Moves (h : Handler) (watch : List Path) (t : FileTree) : Action → WaitOutcome → Prop where
  | rebuilt {e : Event} : e.Concerns t.workingDir watch →
      Moves h watch t (.event e) ⟨(build h.separator t h.pairs).tree,
        Handler.detected (e.path.resolve t.workingDir) :: (build h.separator t h.pairs).log, .elapsed⟩
  | ignored {e : Event} {ending : WaitEnd} : ¬e.Concerns t.workingDir watch →
      (ending = .elapsed ↔ (Action.event e).endsWait = false) →
      Moves h watch t (.event e) ⟨t, [], ending⟩
  | changed {a : Action} {t' : FileTree} : (∀ e, a ≠ .event e) → a.endsWait = false →
      t'.workingDir = t.workingDir → FileTree.Spares h.pairs t t' → Moves h watch t a ⟨t', [], .elapsed⟩
  | interrupted : Moves h watch t .interrupt ⟨t, [], .interrupted⟩

/-- Every action comes to one of the moves. -/
theorem moves_wait {h : Handler} {watch : List Path} {t : FileTree} {a : Action}
    (hwatch : resolveAll t.workingDir watch = .ok h.watched)
    (habort : (build h.separator t h.pairs).abort = none) (hspares : a.Spares h.pairs t) :
    Moves h watch t a (wait h t [a]) := by
  cases a with
  | plant path entry =>
    exact .changed (by simp) rfl (t.plant_workingDir path entry) hspares
  | uproot path => exact .changed (by simp) rfl rfl hspares
  | interrupt => exact .interrupted
  | event e =>
    by_cases he : e.Concerns t.workingDir watch
    · simp only [wait, Handler.handle_of_concerns hwatch he, habort, List.append_nil]
      exact .rebuilt he
    · obtain ⟨htree, hlog, hgoes⟩ := Handler.handle_of_not_concerns hwatch he
      simp only [wait, htree, hlog]
      cases hends : (h.handle t e).abort with
      | none => exact .ignored he (by simpa [hends] using hgoes)
      | some a => exact .ignored he (by simpa [hends] using hgoes)

/-- A tree in the course of a wait. -/
structure InOrder (h : Handler) (t s : FileTree) : Prop where
  workingDir : s.workingDir = t.workingDir
  repeatable : Repeatable s h.pairs

namespace Moves

variable {h : Handler} {watch : List Path} {t s : FileTree} {a : Action} {outcome : WaitOutcome}

theorem elapsed_iff (hmoves : Moves h watch s a outcome) :
    outcome.ending = .elapsed ↔ a.endsWait = false := by
  cases hmoves with
  | rebuilt he => simp [he.goesOn]
  | ignored _ hends => exact hends
  | changed _ hgoes _ _ => simp [hgoes]
  | interrupted => simp [Action.endsWait]

/-- Order is kept: a rebuild leaves it, and so does all that is done from outside. -/
theorem inOrder {separator : Text} (hseparator : h.separator = separator)
    (hmoves : Moves h watch s a outcome) (hs : InOrder h t s) : InOrder h t outcome.tree := by
  cases hmoves with
  | rebuilt he =>
    rw [hseparator]
    have hmidway := midway_build separator s h.pairs
    exact ⟨(hmidway.workingDir hs.repeatable).trans hs.workingDir, hmidway.repeatable hs.repeatable⟩
  | ignored _ _ => exact hs
  | changed _ _ hwd hspares =>
    refine ⟨hwd.trans hs.workingDir, hspares.coherent, hs.repeatable.plain, hspares.texts, ?_⟩
    rw [hwd]
    exact hs.repeatable.sources
  | interrupted => exact hs

/-- Apart from rebuilds, an action spares the destinations, and an event changes nothing. -/
theorem spares (hmoves : Moves h watch s a outcome) (hs : InOrder h t s)
    (hno : ∀ e, a = .event e → ¬e.Concerns s.workingDir watch) :
    FileTree.Spares h.pairs s outcome.tree ∧ outcome.log = [] ∧
      ∀ e, a = .event e → outcome.tree = s := by
  have hrefl : FileTree.Spares h.pairs s s := .refl hs.repeatable.coherent hs.repeatable.texts
  cases hmoves with
  | rebuilt he => exact absurd he (hno _ rfl)
  | ignored _ _ => exact ⟨hrefl, rfl, fun _ _ => rfl⟩
  | changed hother _ _ hspares => exact ⟨hspares, rfl, fun e he => absurd he (hother e)⟩
  | interrupted => exact ⟨hrefl, rfl, fun _ _ => rfl⟩

end Moves

/-! ## What a rebuild does to a destination -/

/-- Only a pair's own destination is at its destination's place or above it. -/
theorem Independent.eq_of_begins {workingDir : Location} {pairs : Pairs} {p q : Path × Path}
    (h : Independent workingDir pairs) (hp : p ∈ pairs) (hq : q ∈ pairs)
    (hbegins : p.2.resolve workingDir <+: q.2.resolve workingDir) : p = q := by
  by_contra hne
  have hsymm : Std.Symm fun p q : Path × Path => ¬p.2.resolve workingDir <+: q.2.resolve workingDir ∧
      ¬q.2.resolve workingDir <+: p.2.resolve workingDir := ⟨fun _ _ hpq => ⟨hpq.2, hpq.1⟩⟩
  exact (h.destinations.forall hp hq hne).1 hbegins

namespace JointEffect

variable {separator : Text} {t : FileTree} {pairs : Pairs} {outcome : BuildOutcome}
  {pair : Path × Path}

theorem destination_of_succeeds (hjoint : JointEffect separator t pairs outcome)
    (hpair : pair ∈ pairs) (hyes : Succeeds separator t pair) :
    ∃ output, output? separator t pair.1 = some output ∧
      outcome.tree.at? (pair.2.resolve t.workingDir) = some (.file (Utf8.encode output)) := by
  obtain ⟨output, hout⟩ := Option.isSome_iff_exists.mp hyes.1
  refine ⟨output, hout, (hjoint.file_iff _ _).mpr (.inl ⟨pair, hpair, rfl, hyes.2, output, hout, rfl⟩)⟩

/-- A pair that fails leaves its destination as it was. -/
theorem destination_of_fails (hjoint : JointEffect separator t pairs outcome) (ht : t.Coherent)
    (hplain : PlainPairs pairs) (hind : Independent t.workingDir pairs) (hpair : pair ∈ pairs)
    (hno : ¬Succeeds separator t pair) :
    outcome.tree.at? (pair.2.resolve t.workingDir) = t.at? (pair.2.resolve t.workingDir) := by
  -- what another pair makes or puts is neither here nor above
  have hother : ∀ q ∈ pairs, Succeeds separator t q →
      q.2.resolve t.workingDir ≠ pair.2.resolve t.workingDir := by
    intro q hq hyes heq
    obtain rfl := hind.eq_of_begins hq hpair (by rw [heq])
    exact hno hyes
  apply Option.ext
  intro entry
  cases entry with
  | dir =>
    rw [hjoint.dir_iff]
    refine or_iff_left_of_imp ?_
    rintro ⟨q, hq, -, hmade⟩
    have hdescends := (hplain q hq).2.descends
    obtain rfl := hind.eq_of_begins hpair hq (hmade.begins_resolve hdescends)
    by_contra hdir
    exact hmade.parent_ne ht hdescends hdir rfl
  | file content =>
    rw [hjoint.file_iff]
    constructor
    · rintro (⟨q, hq, hputs⟩ | ⟨hold, -⟩)
      · exact absurd hputs.1 (hother q hq hputs.succeeds)
      · exact hold
    · exact fun hold => .inr ⟨hold, hother⟩

end JointEffect

/-! ## The course of a wait -/

namespace Watches

variable {separator : Text} {h : Handler} {watch : List Path} {t : FileTree} {actions : List Action} {k m n : Nat}
  {pair : Path × Path}

theorem sources_apart (w : Watches separator h watch t actions) : ∀ p ∈ h.pairs, ∀ q ∈ h.pairs,
    p.2.resolve t.workingDir ≠ q.1.resolve t.workingDir := by
  intro p hp q hq heq
  exact w.independent.sources p hp q hq (by rw [heq])

theorem moves (w : Watches separator h watch t actions) (hk : k < actions.length) (hreached : Reached actions k)
    (hs : InOrder h t (after h t actions k).tree) :
    Moves h watch (after h t actions k).tree actions[k]
      (wait h (after h t actions k).tree [actions[k]]) := by
  have habort : (build h.separator (after h t actions k).tree h.pairs).abort = none :=
    w.separator ▸ (turns_of_decodable w.plain.usable hs.repeatable.texts).1
  refine moves_wait ?_ habort (w.world k hk hreached)
  rw [hs.workingDir]
  exact w.watched

theorem after_succ (hk : k < actions.length) (hgoes : (after h t actions k).ending = .elapsed) :
    after h t actions (k + 1) =
      { wait h (after h t actions k).tree [actions[k]] with
        log := (after h t actions k).log ++ (wait h (after h t actions k).tree [actions[k]]).log } := by
  rw [after, List.take_succ_eq_append_getElem hk]
  exact wait_append_of_elapsed hgoes

theorem after_succ_of_ended (hk : k < actions.length)
    (hends : (after h t actions k).ending ≠ .elapsed) :
    after h t actions (k + 1) = after h t actions k := by
  rw [after, List.take_succ_eq_append_getElem hk]
  exact wait_append_of_ended hends

/-- Along a wait the tree stays in order, and only actions that end the wait cut it short. -/
theorem inOrder (w : Watches separator h watch t actions) (hn : n ≤ actions.length) :
    InOrder h t (after h t actions n).tree ∧
      ((after h t actions n).ending = .elapsed ↔ Reached actions n) := by
  induction n with
  | zero =>
    refine ⟨⟨rfl, w.coherent, w.plain, w.texts, w.sources_apart⟩, ?_⟩
    simp [after, wait, Reached]
  | succ k ih =>
    obtain ⟨hs, helapsed⟩ := ih (by omega)
    rw [reached_succ_iff hn]
    by_cases hreached : Reached actions k
    · have hmoves := w.moves hn hreached hs
      have hnext := hmoves.inOrder w.separator hs
      rw [after_succ hn (helapsed.mpr hreached)]
      exact ⟨hnext, hmoves.elapsed_iff.trans (and_iff_right hreached).symm⟩
    · have hends := mt helapsed.mp hreached
      rw [after_succ_of_ended hn hends]
      exact ⟨hs, iff_of_false hends fun h => hreached h.1⟩

theorem joint (w : Watches separator h watch t actions) (hn : n ≤ actions.length) :
    JointEffect separator (after h t actions n).tree h.pairs
      (build separator (after h t actions n).tree h.pairs) := by
  obtain ⟨hs, -⟩ := w.inOrder hn
  refine jointEffect_build hs.repeatable.coherent w.plain hs.repeatable.texts ?_
  rw [hs.workingDir]
  exact w.independent

/-- A rebuild starts from the tree that the actions before it left. -/
theorem rebuilt (w : Watches separator h watch t actions) {e : Event}
    (haction : actions[k]? = some (.event e)) (hreached : Reached actions k)
    (he : e.Concerns t.workingDir watch) :
    (after h t actions (k + 1)).tree = (build h.separator (after h t actions k).tree h.pairs).tree ∧
      (after h t actions (k + 1)).log = (after h t actions k).log ++
        Handler.detected (e.path.resolve t.workingDir) ::
          (build h.separator (after h t actions k).tree h.pairs).log := by
  obtain ⟨hk, haction⟩ := List.getElem?_eq_some_iff.mp haction
  obtain ⟨hs, helapsed⟩ := w.inOrder hk.le
  have hmoves := w.moves hk hreached hs
  rw [after_succ hk (helapsed.mpr hreached)]
  rw [haction] at hmoves ⊢
  rw [← hs.workingDir] at he ⊢
  generalize wait h (after h t actions k).tree [.event e] = outcome at hmoves
  cases hmoves with
  | rebuilt _ => exact ⟨rfl, rfl⟩
  | ignored hnot _ => exact absurd he hnot
  | changed hother _ _ _ => exact absurd rfl (hother e)

theorem tree_of_rebuilds (w : Watches separator h watch t actions)
    (hrebuilds : Rebuilds t.workingDir watch actions k) :
    (after h t actions (k + 1)).tree =
      (build separator (after h t actions k).tree h.pairs).tree := by
  obtain ⟨hreached, e, haction, he⟩ := hrebuilds
  rw [← w.separator]
  exact (w.rebuilt haction hreached he).1

/-- An action that starts no rebuild changes nothing at the destinations. -/
theorem quiet (w : Watches separator h watch t actions) (hk : k < actions.length)
    (hno : ¬Rebuilds t.workingDir watch actions k) :
    FileTree.Spares h.pairs (after h t actions k).tree (after h t actions (k + 1)).tree ∧
      (after h t actions (k + 1)).log = (after h t actions k).log ∧
      ∀ e, actions[k]? = some (.event e) →
        (after h t actions (k + 1)).tree = (after h t actions k).tree := by
  rw [List.getElem?_eq_getElem hk]
  obtain ⟨hs, helapsed⟩ := w.inOrder hk.le
  by_cases hreached : Reached actions k
  · obtain ⟨hspares, hlog, hsame⟩ := (w.moves hk hreached hs).spares hs fun e haction he =>
      hno ⟨hreached, e, by rw [List.getElem?_eq_getElem hk, haction], hs.workingDir ▸ he⟩
    rw [after_succ hk (helapsed.mpr hreached)]
    exact ⟨hspares, by simp [hlog], fun e haction => hsame e (Option.some.inj haction)⟩
  · rw [after_succ_of_ended hk (mt helapsed.mp hreached)]
    exact ⟨.refl hs.repeatable.coherent hs.repeatable.texts, rfl, fun _ _ => rfl⟩

/-- A pair's output is written in a rebuild where the source compiles and the destination can be
written. -/
theorem renews_iff (w : Watches separator h watch t actions) (hk : k < actions.length) (hpair : pair ∈ h.pairs) :
    Renews h watch t actions pair k ↔ Rebuilds t.workingDir watch actions k ∧
      Succeeds separator (after h t actions k).tree pair := by
  refine and_congr_right fun _ => ?_
  have hjoint := w.joint hk.le
  rw [w.separator]
  constructor
  · rintro ⟨u, hu, rfl, hwritten⟩
    exact (hjoint.written_iff u hu).mp hwritten
  · intro hyes
    have hturns : (turns separator (after h t actions k).tree h.pairs).map Turn.pair = h.pairs :=
      (turns_of_decodable w.plain.usable (w.inOrder hk.le).1.repeatable.texts).2
    rw [← hturns] at hpair
    obtain ⟨u, hu, rfl⟩ := List.mem_map.mp hpair
    exact ⟨u, hu, rfl, (hjoint.written_iff u hu).mpr hyes⟩

/-! ### Destinations -/

/-- A pair renewed has its output, compiled from the tree at that time, at its destination. -/
theorem destination_of_renews (w : Watches separator h watch t actions) (hk : k < actions.length)
    (hpair : pair ∈ h.pairs) (hrenews : Renews h watch t actions pair k) :
    ∃ output, output? separator (after h t actions k).tree pair.1 = some output ∧
      (after h t actions (k + 1)).tree.at? (pair.2.resolve t.workingDir) =
        some (.file (Utf8.encode output)) := by
  obtain ⟨hrebuilds, hyes⟩ := (w.renews_iff hk hpair).mp hrenews
  rw [w.tree_of_rebuilds hrebuilds, ← (w.inOrder hk.le).1.workingDir]
  exact (w.joint hk.le).destination_of_succeeds hpair hyes

/-- A pair that is not renewed has at its destination what stood there. -/
theorem destination_of_not_renews (w : Watches separator h watch t actions) (hk : k < actions.length)
    (hpair : pair ∈ h.pairs) (hno : ¬Renews h watch t actions pair k) :
    (after h t actions (k + 1)).tree.at? (pair.2.resolve t.workingDir) =
      (after h t actions k).tree.at? (pair.2.resolve t.workingDir) := by
  obtain ⟨hs, -⟩ := w.inOrder hk.le
  rw [w.renews_iff hk hpair] at hno
  rw [← hs.workingDir]
  by_cases hrebuilds : Rebuilds t.workingDir watch actions k
  · rw [w.tree_of_rebuilds hrebuilds]
    refine (w.joint hk.le).destination_of_fails hs.repeatable.coherent w.plain ?_ hpair
      fun hyes => hno ⟨hrebuilds, hyes⟩
    rw [hs.workingDir]
    exact w.independent
  · exact (w.quiet hk hrebuilds).1.destination pair hpair

/-- What stands at a destination stays there as long as the pair is not renewed. -/
theorem destination_kept (w : Watches separator h watch t actions) (hpair : pair ∈ h.pairs) (hmn : m ≤ n)
    (hn : n ≤ actions.length) (hno : ∀ k, m ≤ k → k < n → ¬Renews h watch t actions pair k) :
    (after h t actions n).tree.at? (pair.2.resolve t.workingDir) =
      (after h t actions m).tree.at? (pair.2.resolve t.workingDir) := by
  induction n, hmn using Nat.le_induction with
  | base => rfl
  | succ n hmn ih =>
    rw [w.destination_of_not_renews hn hpair (hno n hmn (by omega))]
    exact ih (by omega) fun k hmk hkn => hno k hmk (by omega)

/-- A destination that can be written could be written all along. -/
theorem writable_before (w : Watches separator h watch t actions) (hpair : pair ∈ h.pairs) (hmn : m ≤ n)
    (hn : n ≤ actions.length) (hwritable : (after h t actions n).tree.Writable pair.2) :
    (after h t actions m).tree.Writable pair.2 := by
  induction n, hmn using Nat.le_induction with
  | base => exact hwritable
  | succ n hmn ih =>
    refine ih (by omega) ?_
    obtain ⟨hs, -⟩ := w.inOrder (Nat.le_of_succ_le hn)
    by_cases hrebuilds : Rebuilds t.workingDir watch actions n
    · rw [w.tree_of_rebuilds hrebuilds] at hwritable
      exact hs.repeatable.grown_build.1.writable hwritable
    · have hwd := (w.inOrder hn).1.workingDir.trans hs.workingDir.symm
      exact ((w.quiet hn hrebuilds).1.writable_iff hwd hpair (w.plain pair hpair).2.descends).mp
        hwritable

end Watches

end IndentMarkup
