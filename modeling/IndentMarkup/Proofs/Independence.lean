import IndentMarkup.Proofs.TurnEffects

/-!
# Pairs that do not meddle with each other

Where no destination is at the place of a source or of another destination, nor above one, every pair
does in its turn what it would do in the tree that the build starts with: an earlier turn may make
directories on its way and no more. So the outcome of the build can be written down without its
turns, and the order of the pairs does not occur in it.
-/
namespace IndentMarkup

/-- The first pair's destination is neither a source or a destination of the second nor above one,
and not below the second's destination. -/
structure Apart (workingDir : Location) (p q : Path × Path) : Prop where
  source : ¬p.2.resolve workingDir <+: q.1.resolve workingDir
  above : ¬p.2.resolve workingDir <+: q.2.resolve workingDir
  below : ¬q.2.resolve workingDir <+: p.2.resolve workingDir

/-- No destination is at the place of a source or of another destination, nor above one. -/
structure Independent (workingDir : Location) (pairs : Pairs) : Prop where
  sources : ∀ p ∈ pairs, ∀ q ∈ pairs, ¬p.2.resolve workingDir <+: q.1.resolve workingDir
  destinations : pairs.Pairwise fun p q =>
    ¬p.2.resolve workingDir <+: q.2.resolve workingDir ∧
      ¬q.2.resolve workingDir <+: p.2.resolve workingDir

instance (workingDir : Location) (pairs : Pairs) : Decidable (Independent workingDir pairs) :=
  decidable_of_iff
    ((∀ p ∈ pairs, ∀ q ∈ pairs, ¬p.2.resolve workingDir <+: q.1.resolve workingDir) ∧
      pairs.Pairwise fun p q => ¬p.2.resolve workingDir <+: q.2.resolve workingDir ∧
        ¬q.2.resolve workingDir <+: p.2.resolve workingDir)
    ⟨fun h => ⟨h.1, h.2⟩, fun h => ⟨h.sources, h.destinations⟩⟩

namespace Independent

variable {workingDir : Location} {pairs pairs' : Pairs} {p : Path × Path}

theorem perm (h : Independent workingDir pairs) (hperm : pairs.Perm pairs') :
    Independent workingDir pairs' := by
  refine ⟨fun p hp q hq => h.sources p (hperm.mem_iff.mpr hp) q (hperm.mem_iff.mpr hq), ?_⟩
  exact (hperm.pairwise_iff fun hpq => ⟨hpq.2, hpq.1⟩).mp h.destinations

theorem tail (h : Independent workingDir (p :: pairs)) : Independent workingDir pairs :=
  ⟨fun q hq r hr => h.sources q (List.mem_cons_of_mem p hq) r (List.mem_cons_of_mem p hr),
    (List.pairwise_cons.mp h.destinations).2⟩

theorem apart (h : Independent workingDir (p :: pairs)) {q : Path × Path} (hq : q ∈ pairs) :
    Apart workingDir p q := by
  obtain ⟨habove, hbelow⟩ := (List.pairwise_cons.mp h.destinations).1 q hq
  exact ⟨h.sources p (by simp) q (List.mem_cons_of_mem p hq), habove, hbelow⟩

end Independent

/-! ## What a pair does in a tree -/

/-- The pair makes a directory at the place, or finds one, if it has its turn in the tree. -/
def Makes (separator : Text) (t : FileTree) (pair : Path × Path) (l : Location) : Prop :=
  (output? separator t pair.1).isSome = true ∧ t.Made pair.2.parent l

/-- The pair puts the content at the place, if it has its turn in the tree. -/
def Puts (separator : Text) (t : FileTree) (pair : Path × Path) (l : Location)
    (content : Utf8.Bytes) : Prop :=
  pair.2.resolve t.workingDir = l ∧ t.Writable pair.2 ∧
    ∃ output, output? separator t pair.1 = some output ∧ Utf8.encode output = content

theorem Puts.succeeds {separator : Text} {t : FileTree} {pair : Path × Path} {l : Location}
    {content : Utf8.Bytes} (h : Puts separator t pair l content) : Succeeds separator t pair := by
  obtain ⟨-, hwritable, output, hout, -⟩ := h
  exact ⟨by simp [hout], hwritable⟩

/-- The pair does the same in both trees. -/
structure SameDeeds (separator : Text) (t t' : FileTree) (pair : Path × Path) : Prop where
  succeeds_iff : Succeeds separator t' pair ↔ Succeeds separator t pair
  makes_iff : ∀ l, Makes separator t' pair l ↔ Makes separator t pair l
  puts_iff : ∀ l content, Puts separator t' pair l content ↔ Puts separator t pair l content

namespace Effect

variable {separator : Text} {t : FileTree} {p q : Path × Path} {outcome : PairOutcome}

/-- The files after a turn are the one it puts, and those that it does not replace. -/
theorem file_iff_puts (h : Effect separator t p.1 p.2 outcome) (l : Location)
    (content : Utf8.Bytes) :
    outcome.tree.at? l = some (.file content) ↔ Puts separator t p l content ∨
      (t.at? l = some (.file content) ∧
        (Succeeds separator t p → p.2.resolve t.workingDir ≠ l)) := by
  by_cases hyes : Succeeds separator t p ∧ p.2.resolve t.workingDir = l
  · obtain ⟨⟨hsome, hwritable⟩, rfl⟩ := hyes
    obtain ⟨output, hout⟩ := Option.isSome_iff_exists.mp hsome
    rw [h.output output hout hwritable]
    simp [Puts, Succeeds, hout, hwritable]
  · have hnot : Succeeds separator t p → p.2.resolve t.workingDir ≠ l :=
      fun hs heq => hyes ⟨hs, heq⟩
    have hputs : ¬Puts separator t p l content := fun hp => hnot hp.succeeds hp.1
    rw [h.file_iff l hnot]
    exact ⟨fun hold => .inr ⟨hold, hnot⟩, fun h => h.elim (absurd · hputs) And.left⟩

/-- The files above another destination stay as they are. -/
theorem isFile_stage (h : Effect separator t p.1 p.2 outcome) (hapart : Apart t.workingDir p q)
    (hq : parentMark ∉ q.2.parts) (k : Nat) :
    outcome.tree.isFile (q.2.stage t.workingDir k) = t.isFile (q.2.stage t.workingDir k) := by
  apply h.isFile_eq
  intro _ heq
  exact hapart.above (heq ▸ Path.stage_begins hq t.workingDir k)

/-- A turn changes nothing about which directories a pair apart from it makes. -/
theorem made_iff (h : Effect separator t p.1 p.2 outcome) (hapart : Apart t.workingDir p q)
    (hq : parentMark ∉ q.2.parts) {l : Location} :
    outcome.tree.Made q.2.parent l ↔ t.Made q.2.parent l := by
  rw [Path.parent_eq_front]
  refine FileTree.Made.congr h.workingDir fun k hk => ?_
  rw [Path.stage_front (by simpa [Path.front] using hk)]
  exact h.isFile_stage hapart hq k

/-- A turn changes nothing about whether a pair apart from it can write. -/
theorem writable_iff (h : Effect separator t p.1 p.2 outcome) (hapart : Apart t.workingDir p q)
    (hp : parentMark ∉ p.2.parts) (hq : parentMark ∉ q.2.parts) :
    outcome.tree.Writable q.2 ↔ t.Writable q.2 := by
  refine FileTree.Writable.congr h.workingDir (fun k _ => h.isFile_stage hapart hq k) ?_
  rw [h.dir_iff]
  refine or_iff_left ?_
  rintro ⟨-, hmade⟩
  exact hapart.below (hmade.begins_resolve hp)

/-- A turn leaves the source of a pair apart from it alone. -/
theorem source_iff (h : Effect separator t p.1 p.2 outcome) (hapart : Apart t.workingDir p q)
    (bytes : Utf8.Bytes) :
    outcome.tree.at? (q.1.resolve t.workingDir) = some (.file bytes) ↔
      t.at? (q.1.resolve t.workingDir) = some (.file bytes) := by
  refine h.file_iff _ (fun _ heq => hapart.source ?_) bytes
  rw [heq]

/-- A turn makes no difference to a pair that stands apart. -/
theorem sameDeeds (h : Effect separator t p.1 p.2 outcome) (ht : t.Coherent)
    (hapart : Apart t.workingDir p q) (hp : parentMark ∉ p.2.parts)
    (hq : q.1.IsPlain ∧ q.2.IsPlain) : SameDeeds separator t outcome.tree q := by
  have houtput : output? separator outcome.tree q.1 = output? separator t q.1 :=
    output?_congr ht (h.coherent ht hp) hq.1 h.workingDir (h.source_iff hapart)
  have hwritable := h.writable_iff hapart hp hq.2.descends
  refine ⟨?_, fun l => ?_, fun l content => ?_⟩
  · rw [Succeeds, Succeeds, houtput, hwritable]
  · rw [Makes, Makes, houtput, h.made_iff hapart hq.2.descends]
  · rw [Puts, Puts, houtput, hwritable, h.workingDir]

end Effect

/-! ## All turns -/

/-- The outcome of a build, from what each pair does in the tree that the build starts with. -/
structure JointEffect (separator : Text) (t : FileTree) (pairs : Pairs) (outcome : BuildOutcome) :
    Prop where
  abort : outcome.abort = none
  workingDir : outcome.tree.workingDir = t.workingDir
  coherent : outcome.tree.Coherent
  failures : outcome.failures = pairs.countP fun pair => ¬Succeeds separator t pair
  written_iff : ∀ u ∈ turns separator t pairs,
    u.outcome.status = .written ↔ Succeeds separator t u.pair
  dir_iff : ∀ l, outcome.tree.at? l = some .dir ↔ t.at? l = some .dir ∨
    ∃ pair ∈ pairs, Makes separator t pair l
  file_iff : ∀ l content, outcome.tree.at? l = some (.file content) ↔
    (∃ pair ∈ pairs, Puts separator t pair l content) ∨
      (t.at? l = some (.file content) ∧
        ∀ pair ∈ pairs, Succeeds separator t pair → pair.2.resolve t.workingDir ≠ l)

/-- A turn in front of the others, none of which it concerns. -/
theorem JointEffect.cons {separator : Text} {t : FileTree} {p : Path × Path} {rest : Pairs}
    (h : Effect separator t p.1 p.2 (buildPair separator t p.1 p.2))
    (hapart : ∀ q ∈ rest, Apart t.workingDir p q)
    (hsame : ∀ q ∈ rest, SameDeeds separator t (buildPair separator t p.1 p.2).tree q)
    (hrest : JointEffect separator (buildPair separator t p.1 p.2).tree rest
      (build separator (buildPair separator t p.1 p.2).tree rest)) :
    JointEffect separator t (p :: rest) (build separator t (p :: rest)) := by
  obtain ⟨source, destination⟩ := p
  have hgo := h.not_aborted
  rw [build_of_not_aborted hgo]
  refine ⟨hrest.abort, hrest.workingDir.trans h.workingDir, hrest.coherent, ?_, ?_, ?_, ?_⟩
  · have hcount : rest.countP (fun q =>
          ¬Succeeds separator (buildPair separator t source destination).tree q) =
        rest.countP fun q => ¬Succeeds separator t q :=
      List.countP_congr fun q hq => by simp [(hsame q hq).succeeds_iff]
    rw [List.countP_cons, ← hcount, ← hrest.failures]
    simp [h.failed_iff]
  · intro u hu
    rw [turns_of_not_aborted hgo] at hu
    rcases List.mem_cons.mp hu with rfl | hu
    · exact h.written_iff
    · exact (hrest.written_iff u hu).trans (hsame u.pair (pair_mem_of_mem_turns hu)).succeeds_iff
  · intro l
    have hothers : (∃ q ∈ rest, Makes separator (buildPair separator t source destination).tree q l) ↔
        ∃ q ∈ rest, Makes separator t q l :=
      exists_congr fun q => and_congr_right fun hq => (hsame q hq).makes_iff l
    rw [hrest.dir_iff l, h.dir_iff l, hothers, or_assoc]
    simp [Makes]
  · intro l content
    have hothers : (∃ q ∈ rest,
          Puts separator (buildPair separator t source destination).tree q l content) ↔
        ∃ q ∈ rest, Puts separator t q l content :=
      exists_congr fun q => and_congr_right fun hq => (hsame q hq).puts_iff l content
    have hlater : (∀ q ∈ rest, Succeeds separator (buildPair separator t source destination).tree q →
          q.2.resolve (buildPair separator t source destination).tree.workingDir ≠ l) ↔
        ∀ q ∈ rest, Succeeds separator t q → q.2.resolve t.workingDir ≠ l := by
      rw [h.workingDir]
      exact forall_congr' fun q => imp_congr_right fun hq => by rw [(hsame q hq).succeeds_iff]
    -- what the first pair puts at its destination, no later one overwrites
    have hkept : Puts separator t (source, destination) l content →
        ∀ q ∈ rest, Succeeds separator t q → q.2.resolve t.workingDir ≠ l := by
      rintro ⟨rfl, -⟩ q hq - heq
      exact (hapart q hq).below (by rw [heq])
    rw [hrest.file_iff l content, hothers, hlater, h.file_iff_puts l content]
    simp only [List.mem_cons, exists_eq_or_imp, forall_eq_or_imp]
    constructor
    · rintro (hput | ⟨hput | ⟨hold, hfirst⟩, hall⟩)
      · exact .inl (.inr hput)
      · exact .inl (.inl hput)
      · exact .inr ⟨hold, hfirst, hall⟩
    · rintro ((hput | hput) | ⟨hold, hfirst, hall⟩)
      · exact .inr ⟨.inl hput, hkept hput⟩
      · exact .inl hput
      · exact .inr ⟨.inr ⟨hold, hfirst⟩, hall⟩

/-- Independent pairs do together what each does alone: every turn spares what later ones need. -/
theorem jointEffect_build {separator : Text} {t : FileTree} {pairs : Pairs} (ht : t.Coherent)
    (hplain : PlainPairs pairs) (htext : SourcesAreTexts t pairs)
    (hind : Independent t.workingDir pairs) :
    JointEffect separator t pairs (build separator t pairs) := by
  induction pairs generalizing t with
  | nil => exact ⟨rfl, rfl, ht, rfl, by simp [turns], by simp, by simp⟩
  | cons p rest ih =>
    obtain ⟨hsource, hdestination⟩ := hplain p (by simp)
    have heffect : Effect separator t p.1 p.2 (buildPair separator t p.1 p.2) :=
      effect_buildPair ht hsource hdestination (htext p (by simp))
    have hrest : PlainPairs rest := fun q hq => hplain q (List.mem_cons_of_mem p hq)
    have htext' : SourcesAreTexts (buildPair separator t p.1 p.2).tree rest := by
      intro q hq bytes hat
      rw [heffect.workingDir] at hat
      exact htext q (List.mem_cons_of_mem p hq) bytes
        ((heffect.source_iff (hind.apart hq) bytes).mp hat)
    refine .cons heffect (fun q hq => hind.apart hq) ?_ ?_
    · exact fun q hq => heffect.sameDeeds ht (hind.apart hq) hdestination.descends (hrest q hq)
    · refine ih (heffect.coherent ht hdestination.descends) hrest htext' ?_
      rw [heffect.workingDir]
      exact hind.tail

end IndentMarkup
