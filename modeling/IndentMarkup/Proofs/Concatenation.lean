import IndentMarkup.Proofs.Nesting
import IndentMarkup.Proofs.Rendering

/-!
# Sources one behind the other

A source behind another that begins at the same width gives the tree it gives alone. Its first line
closes whatever the first source left open, down to the document's own level, and from there on the
two runs differ only in the nodes that stand in front on that level. These show in one place: an
`else` that finds nothing of its own source in front of it would branch the last of them.

A half dedent is met in any case, as it depends on the widths of the levels and on what absorbs
lines, and not on nodes.
-/
namespace IndentMarkup

namespace Outline

variable {separator : Text} {line : Line}

/-! ## Outlines of one shape -/

/-- The outlines have levels of the same widths, and absorb alike. -/
structure SameShape (o o' : Outline) : Prop where
  widths : o'.levels.map (·.width) = o.levels.map (·.width)
  absorbs : o'.latest.absorbs = o.latest.absorbs

theorem isDeeper_congr {levels levels' : List Level}
    (h : levels'.map (·.width) = levels.map (·.width)) (w : Nat) :
    isDeeper levels' w = isDeeper levels w := by
  cases levels <;> cases levels' <;> simp_all [isDeeper]

/-- Which level a line settles on depends on the widths of the levels, not on their nodes. -/
theorem settle_congr {levels levels' : List Level}
    (h : levels'.map (·.width) = levels.map (·.width)) (late late' : List Node) :
    Agree (fun found found' : Level × List Level => found'.1.width = found.1.width ∧
        found'.2.map (·.width) = found.2.map (·.width))
      (settle line levels late) (settle line levels' late') := by
  induction levels generalizing levels' late late' with
  | nil =>
    obtain rfl : levels' = [] := by simpa using h
    rfl
  | cons top outer ih =>
    cases levels' with
    | nil => simp at h
    | cons top' outer' =>
      obtain ⟨hw, ho⟩ : top'.width = top.width ∧ outer'.map (·.width) = outer.map (·.width) := by
        simpa using h
      rw [settle_cons, settle_cons, hw]
      by_cases h₁ : line.width < top.width
      · rw [if_pos h₁, if_pos h₁]
        exact ih ho _ _
      · rw [if_neg h₁, if_neg h₁]
        by_cases h₂ : top.width = line.width
        · rw [if_pos h₂, if_pos h₂]
          exact ⟨rfl, ho⟩
        · rw [if_neg h₂, if_neg h₂]
          rfl

/-- A line placed on levels of the same widths leaves outlines of one shape. -/
theorem SameShape.place {top top' : Level} {outer outer' : List Level}
    (hw : top'.width = top.width) (ho : outer'.map (·.width) = outer.map (·.width)) :
    SameShape (place top outer line) (place top' outer' line) := by
  obtain ⟨nodes, hp⟩ := place_levels top outer line
  obtain ⟨nodes', hp'⟩ := place_levels top' outer' line
  refine ⟨?_, ?_⟩
  · rw [hp, hp']
    simp [hw, ho]
  · rw [place_absorbs, place_absorbs]

/-- Outlines of one shape take every line alike, whatever nodes they hold. -/
theorem SameShape.step {o o' : Outline} (h : SameShape o o') (separator : Text) (line : Line) :
    Agree SameShape (o.step separator line) (o'.step separator line) := by
  have hd := isDeeper_congr h.widths line.width
  cases hdeep : isDeeper o.levels line.width with
  | true =>
    rw [hdeep] at hd
    cases ha : o.latest.absorbs with
    | true =>
      rw [step_of_absorbs hdeep ha, step_of_absorbs hd (h.absorbs.trans ha)]
      exact ⟨h.widths, by simpa using h.absorbs⟩
    | false =>
      have ha' := h.absorbs.trans ha
      obtain ⟨levels, latest⟩ := o
      obtain ⟨levels', latest'⟩ := o'
      cases latest <;> cases latest' <;> simp at ha ha'
      rw [step_of_header hdeep, step_of_header hd]
      exact .place rfl h.widths
  | false =>
    rw [hdeep] at hd
    rw [step_of_not_deeper hdeep, step_of_not_deeper hd]
    exact (settle_congr h.widths _ _).map fun _ _ hf => .place hf.1 hf.2

/-! ## Nodes in front -/

/-- The second stack is the first with further nodes in front on the document's level, which lies
beneath all others. -/
inductive AfterLevels (w : Nat) (before : List Node) : List Level → List Level → Prop where
  | bottom (nodes : List Node) :
      AfterLevels w before [⟨w, .document, nodes⟩] [⟨w, .document, nodes ++ before⟩]
  | push {levels levels' : List Level} (top : Level) : w < top.width →
      AfterLevels w before levels levels' → AfterLevels w before (top :: levels) (top :: levels')

/-- The second outline is the first with further nodes in front on the document's level. -/
inductive After (w : Nat) (before : List Node) : Outline → Outline → Prop where
  | mk {levels levels' : List Level} (latest : Latest) : AfterLevels w before levels levels' →
      After w before ⟨levels, latest⟩ ⟨levels', latest⟩

section

variable {w : Nat} {before : List Node} {levels levels' : List Level}

namespace AfterLevels

theorem lt_of_isDeeper (h : AfterLevels w before levels levels') {x : Nat}
    (hd : isDeeper levels x = true) : w < x := by
  cases h with
  | bottom nodes => simpa [isDeeper] using hd
  | push top hw h =>
    simp only [isDeeper, decide_eq_true_eq] at hd
    omega

theorem isDeeper_eq (h : AfterLevels w before levels levels') (x : Nat) :
    isDeeper levels' x = isDeeper levels x := by
  cases h <;> rfl

/-- Nodes in front on the document's level are in front of the whole document. -/
theorem closeAll_eq (h : AfterLevels w before levels levels') (late : List Node) :
    closeAll levels' late = before.reverse ++ closeAll levels late := by
  induction h generalizing late with
  | bottom nodes => simp [closeAll]
  | push top hw h ih => exact ih _

/-- A line settles on the same level of both stacks. -/
theorem settle (h : AfterLevels w before levels levels') {late : List Node} {top : Level}
    {outer : List Level} (hs : settle line levels late = .ok (top, outer)) :
    ∃ top' outer', Outline.settle line levels' late = .ok (top', outer') ∧
      AfterLevels w before (top :: outer) (top' :: outer') := by
  induction h generalizing late with
  | bottom nodes =>
    rw [settle_cons] at hs ⊢
    split at hs
    · simp [Outline.settle] at hs
    · split at hs
      · rename_i h₁ h₂
        obtain ⟨rfl, rfl⟩ : _ ∧ _ := by simpa using hs
        rw [if_neg h₁, if_pos h₂]
        refine ⟨_, _, rfl, ?_⟩
        rw [← List.append_assoc]
        exact .bottom (late ++ nodes)
      · simp at hs
  | push first hw h ih =>
    rw [settle_cons] at hs ⊢
    split at hs
    · rename_i h₁
      rw [if_pos h₁]
      exact ih hs
    · split at hs
      · rename_i h₁ h₂
        obtain ⟨rfl, rfl⟩ : _ ∧ _ := by simpa using hs
        rw [if_neg h₁, if_pos h₂]
        exact ⟨_, _, rfl, .push _ hw h⟩
      · simp at hs

/-- Where the line does not branch a node in front, it is placed alike. -/
theorem place {top top' : Level} {outer outer' : List Level}
    (h : AfterLevels w before (top :: outer) (top' :: outer'))
    (hg : outer = [] → top.nodes = [] → line.isElse = true →
      branch? ⟨w, .document, before⟩ = none) :
    After w before (place top outer line) (place top' outer' line) := by
  cases h with
  | push _ hw h =>
    obtain ⟨he, owner, rest, hb, hp⟩ | ⟨hno, hp⟩ := place_cases top outer line
    · rw [hp, place_of_branch he hb]
      exact .mk _ (.push _ hw h)
    · rw [hp, place_of_reading hno]
      exact .mk _ (.push _ hw h)
  | bottom nodes =>
    have hb : line.isElse = true → branch? ⟨w, .document, nodes ++ before⟩ =
        (branch? ⟨w, .document, nodes⟩).map fun found => (found.1, found.2 ++ before) := by
      intro he
      cases nodes with
      | nil => exact hg rfl rfl he
      | cons node nodes =>
        cases node with
        | leaf l => rfl
        | foreign type => rfl
        | tag head children inverse =>
          cases inverse with
          | some others => rfl
          | none => cases hh : head.helper <;> simp [branch?, hh]
    obtain ⟨he, owner, rest, hbr, hp⟩ | ⟨hno, hp⟩ :=
      place_cases ⟨w, .document, nodes⟩ [] line
    · have hb' := hb he
      rw [hbr] at hb'
      rw [hp, place_of_branch he hb']
      exact .mk _ (.bottom rest)
    · rw [hp, place_of_reading fun he => by rw [hb he, hno he]; rfl]
      exact .mk _ (.bottom nodes)

end AfterLevels

/-! ## Documents without nodes -/

/-- A line that leaves the document without nodes is a comment, and there were none before it. -/
theorem nodes_place_eq_nil {top : Level} {outer : List Level}
    (h : (Outline.place top outer line).nodes = []) :
    line.reading = .comment ∧ closeAll (top :: outer) [] = [] := by
  obtain ⟨-, owner, rest, hb, hp⟩ | ⟨-, hp⟩ := place_cases top outer line
  · obtain ⟨head, children, -, -, rfl⟩ := branch?_eq_some hb
    rw [hp, nodes] at h
    exact absurd h (closeAll_ne_nil _ (by simp [Latest.nodes]))
  · rw [hp, nodes] at h
    cases hr : line.reading with
    | comment =>
      rw [hr] at h
      exact ⟨rfl, h⟩
    | leaf l =>
      rw [hr] at h
      exact absurd h (closeAll_ne_nil _ (by simp [Reading.latest, Latest.nodes]))
    | tag t =>
      rw [hr] at h
      obtain ⟨head, inline⟩ := t
      refine absurd h (closeAll_ne_nil _ ?_)
      cases inline <;> simp [Reading.latest, Latest.nodes]

/-- A line that leaves the document without nodes is a comment, or deeper than the line before. -/
theorem nodes_step_eq_nil {o o₁ : Outline} (hs : o.step separator line = .ok o₁)
    (h : o₁.nodes = []) :
    o.nodes = [] ∧ (line.reading = .comment ∨ isDeeper o.levels line.width = true) := by
  obtain ⟨hd, hla, rfl⟩ | ⟨hd, owner, hla, rfl⟩ | ⟨hd, top, outer, hset, rfl⟩ := step_cases hs
  · refine ⟨?_, .inr hd⟩
    obtain ⟨levels, latest⟩ := o
    cases latest with
    | comment => exact h
    | inline tag leaf =>
      refine absurd h (closeAll_ne_nil _ ?_)
      cases tag <;> simp [Latest.absorb, Latest.nodes]
    | header owner => simp at hla
  · obtain ⟨hc, hn⟩ := nodes_place_eq_nil h
    refine ⟨?_, .inl hc⟩
    rw [nodes, hla]
    exact hn
  · obtain ⟨hc, hn⟩ := nodes_place_eq_nil h
    exact ⟨(closeAll_of_settle hset).symm.trans hn, .inl hc⟩

/-! ## Runs behind other nodes -/

/-- The first line of the width that is not a comment. -/
def firstRead (lines : List Line) (width : Nat) : Option Line :=
  lines.find? fun line => line.width == width && line.reading != .comment

theorem firstRead_of_isElse (he : line.isElse = true) (lines : List Line) :
    firstRead (line :: lines) line.width = some line := by
  simp [firstRead, Line.reading_of_isElse he]

theorem firstRead_of_comment (hc : line.reading = .comment) (lines : List Line) (width : Nat) :
    firstRead (line :: lines) width = firstRead lines width := by
  simp [firstRead, hc]

theorem firstRead_of_ne {width : Nat} (hw : line.width ≠ width) (lines : List Line) :
    firstRead (line :: lines) width = firstRead lines width := by
  simp [firstRead, hw]

/-- The first line that could branch the last of the nodes in front is no `else`, or there is no
helper to branch. -/
def Unbranched (w : Nat) (before : List Node) (lines : List Line) : Prop :=
  ∀ line ∈ firstRead lines w, line.isElse = true → branch? ⟨w, .document, before⟩ = none

namespace After

variable {o o' o₁ : Outline} {lines : List Line}

/-- One more line, unless it is an `else` that would branch the last of the nodes in front. -/
theorem step (h : After w before o o') (hs : o.step separator line = .ok o₁)
    (hg : o.nodes = [] → line.width = w → line.isElse = true →
      branch? ⟨w, .document, before⟩ = none) :
    ∃ o₁', o'.step separator line = .ok o₁' ∧ After w before o₁ o₁' := by
  obtain ⟨latest, h⟩ := h
  rename_i levels levels'
  have hd' := h.isDeeper_eq line.width
  obtain ⟨hd, hla, rfl⟩ | ⟨hd, owner, rfl, rfl⟩ | ⟨hd, top, outer, hset, rfl⟩ := step_cases hs
  · exact ⟨_, step_of_absorbs (hd'.trans hd) hla, .mk _ h⟩
  · have hpush := AfterLevels.push ⟨line.width, owner, []⟩ (h.lt_of_isDeeper hd) h
    refine ⟨_, step_of_header (hd'.trans hd), hpush.place ?_⟩
    rintro rfl
    cases h
  · obtain ⟨top', outer', hset', ha⟩ := h.settle hset
    have hwidth := width_of_settle hset
    refine ⟨_, ?_, ha.place ?_⟩
    · rw [step_of_not_deeper (hd'.trans hd), hset']
      rfl
    · rintro rfl hnil he
      cases ha with
      | push _ _ h => cases h
      | bottom nodes =>
        obtain rfl : nodes = [] := hnil
        exact hg (closeAll_of_settle hset).symm hwidth.symm he

/-- As long as nothing is branched that stands in front, the runs differ only in it. -/
theorem run (h : After w before o o') (hr : o.run separator lines = .ok o₁)
    (hg : o.nodes = [] → Unbranched w before lines) :
    ∃ o₁', o'.run separator lines = .ok o₁' ∧ After w before o₁ o₁' := by
  induction lines generalizing o o' with
  | nil =>
    obtain rfl : o = o₁ := by simpa using hr
    exact ⟨o', rfl, h⟩
  | cons line lines ih =>
    rw [Outline.run] at hr
    cases hs : o.step separator line with
    | error e => simp [hs] at hr
    | ok next =>
      rw [hs] at hr
      obtain ⟨next', hs', hnext⟩ := h.step hs fun hn hw he =>
        hg hn line (by rw [← hw]; exact firstRead_of_isElse he lines) he
      rw [Outline.run, hs']
      refine ih hnext hr fun hn => ?_
      obtain ⟨hno, hread⟩ := nodes_step_eq_nil hs hn
      have hskip : firstRead (line :: lines) w = firstRead lines w := by
        rcases hread with hc | hd
        · exact firstRead_of_comment hc lines w
        · obtain ⟨latest, h⟩ := h
          have := h.lt_of_isDeeper hd
          exact firstRead_of_ne (by omega) lines
      have := hg hno
      rwa [Unbranched, hskip] at this

end After

theorem AfterLevels.exists_inner (h : AfterLevels w before levels levels') :
    ∃ inner nodes, levels = inner ++ [⟨w, .document, nodes⟩] ∧ ∀ l ∈ inner, w < l.width := by
  induction h with
  | bottom nodes => exact ⟨[], nodes, rfl, by simp⟩
  | push top hw h ih =>
    obtain ⟨inner, nodes, rfl, hi⟩ := ih
    exact ⟨top :: inner, nodes, rfl, by simpa using ⟨hw, hi⟩⟩

theorem After.nodes_eq {o o' : Outline} (h : After w before o o') :
    o'.nodes = before.reverse ++ o.nodes := by
  obtain ⟨latest, h⟩ := h
  exact h.closeAll_eq latest.nodes

section

variable {o o' : Outline} {first : Line} {rest : List Line}

/-- Lines that begin on the document's level do behind its nodes what they do alone. -/
theorem At.run_after (h : At w .document [] before o') (hw : first.width = w)
    (hr : empty.run separator (first :: rest) = .ok o) (hg : Unbranched w before (first :: rest)) :
    ∃ o₁', o'.run separator (first :: rest) = .ok o₁' ∧ After w before o o₁' := by
  have hstart : At w .document [] [] empty := .fresh rfl
  rw [run_cons, hstart.step separator hw] at hr
  rw [run_cons, h.step separator hw]
  have hafter : After w before (place ⟨w, .document, []⟩ [] first)
      (place ⟨w, .document, before⟩ [] first) := by
    refine AfterLevels.place (.bottom []) fun _ _ he => hg first ?_ he
    rw [← hw]
    exact firstRead_of_isElse he rest
  refine hafter.run hr fun hn => ?_
  obtain ⟨hc, -⟩ := nodes_place_eq_nil hn
  rwa [Unbranched, firstRead_of_comment hc] at hg

/-- After a run the document's nodes stand on the level of the first line. -/
theorem at_of_run (hr : empty.run separator (first :: rest) = .ok o) :
    At first.width .document [] o.nodes.reverse o := by
  have hstart : At first.width .document [] [] empty := .fresh rfl
  obtain ⟨o', -, h⟩ := hstart.run_after rfl hr fun _ _ _ => rfl
  obtain ⟨latest, h⟩ := h
  obtain ⟨inner, nodes, rfl, hi⟩ := h.exists_inner
  have hmet : At first.width .document [] (collapse inner latest.nodes ++ nodes)
      ⟨inner ++ [⟨first.width, .document, nodes⟩], latest⟩ := .met ⟨inner, rfl, hi, rfl⟩
  simpa [Outline.nodes, closeAll_eq_collapse, collapse_append] using hmet

/-- A run that stops does so behind other nodes too. -/
theorem At.run_error (h : At w .document [] before o') (hw : first.width = w) {e : HalfDedent}
    (hr : empty.run separator (first :: rest) = .error e) :
    ∃ e', o'.run separator (first :: rest) = .error e' ∧ e'.number = e.number := by
  have hstart : At w .document [] [] empty := .fresh rfl
  rw [run_cons, hstart.step separator hw] at hr
  rw [run_cons, h.step separator hw]
  have hshape : SameShape (place ⟨w, .document, []⟩ [] first)
      (place ⟨w, .document, before⟩ [] first) := .place rfl rfl
  have hagree : Agree SameShape (run separator (place ⟨w, .document, []⟩ [] first) rest)
      (run separator (place ⟨w, .document, before⟩ [] first) rest) :=
    run_agree (fun line _ _ _ hs => hs.step separator line) hshape
  have hstop : run separator (place ⟨w, .document, []⟩ [] first) rest = .error e := hr
  rw [hstop] at hagree
  exact hagree.of_error

end

end

end Outline

/-! ## Joined sources -/

/-- The first lines of the two sources, where both have one, are equally wide. -/
def SameStart (a b : Text) : Prop :=
  ∀ x ∈ (Line.ofSource a).head?, ∀ y ∈ (Line.ofSource b).head?, x.width = y.width

/-- At the width of the source's first line, the first line that is not a comment is an `else`. -/
def BeginsWithElse (source : Text) : Prop :=
  ∃ first ∈ (Line.ofSource source).head?,
    ∃ line ∈ Outline.firstRead (Line.ofSource source) first.width, line.isElse = true

theorem branch?_of_not_endsInOpenHelper {nodes : List Node} (h : ¬EndsInOpenHelper nodes)
    (width : Nat) (owner : Owner) : Outline.branch? ⟨width, owner, nodes.reverse⟩ = none := by
  cases hb : Outline.branch? ⟨width, owner, nodes.reverse⟩ with
  | none => rfl
  | some found =>
    obtain ⟨head, children, hn, hh, -⟩ := branch?_eq_some hb
    have hlast : nodes.reverse = .tag head children none :: found.2 := hn
    refine absurd ⟨found.2.reverse, head, children, ?_, hh⟩ h
    rw [← List.reverse_reverse nodes, hlast]
    simp

section

variable {separator a b : Text} {as : List Node}

/-- The lines of the second source, numbered as they stand in the joined one. -/
def laterLines (a b : Text) : List Line :=
  (Line.ofSource b).map (Line.moved id (· + linesBefore a))

/-- In their new places the lines of the second source run as they do alone. -/
theorem run_laterLines (separator a b : Text) :
    Outline.empty.run separator (laterLines a b) =
      ((Outline.empty.run separator (Line.ofSource b)).map
        (Outline.moved id (· + linesBefore a))).mapError
          (HalfDedent.moved id (· + linesBefore a)) :=
  Outline.run_moved (· + linesBefore a) strictMono_id Outline.empty (Line.ofSource b)

theorem run_joined {o : Outline} (ha : Outline.empty.run separator (Line.ofSource a) = .ok o) :
    Outline.empty.run separator (Line.ofSource (a ++ '\n' :: b)) =
      o.run separator (laterLines a b) := by
  rw [ofSource_joined, Outline.run_append, ha]
  rfl

/-- Where the first source is not blank, the second begins on the level of its document. -/
theorem SameStart.at_document {o : Outline} (h : SameStart a b)
    (ha : Outline.empty.run separator (Line.ofSource a) = .ok o) {first : Line} {rest : List Line}
    (hb : laterLines a b = first :: rest) :
    Outline.At first.width .document [] o.nodes.reverse o := by
  cases hl : Line.ofSource a with
  | nil =>
    rw [hl] at ha
    obtain rfl : Outline.empty = o := by simpa using ha
    exact .fresh rfl
  | cons x xs =>
    rw [hl] at ha
    obtain ⟨y, hy, rfl⟩ : ∃ y, (Line.ofSource b).head? = some y ∧
        y.moved id (· + linesBefore a) = first := by
      simpa [laterLines] using congrArg List.head? hb
    have hw : x.width = y.width := h x (by simp [hl]) y hy
    have hat := Outline.at_of_run ha
    rw [hw] at hat
    exact hat

theorem firstRead_laterLines (a b : Text) (width : Nat) :
    Outline.firstRead (laterLines a b) width =
      (Outline.firstRead (Line.ofSource b) width).map (Line.moved id (· + linesBefore a)) := by
  have hsame : ∀ line : Line, ((line.moved id (· + linesBefore a)).reading != .comment) =
      (line.reading != .comment) := by
    intro line
    rw [Line.moved_reading]
    cases line.reading <;> rfl
  rw [laterLines, Outline.firstRead, Outline.firstRead, List.find?_map]
  congr 2
  funext line
  simp [hsame]

/-- Only an `else` of the second source behind a helper of the first could branch across. -/
theorem unbranched_of_not_beginsWithElse (hg : ¬(EndsInOpenHelper as ∧ BeginsWithElse b))
    {first : Line} {rest : List Line} (hb : laterLines a b = first :: rest) :
    Outline.Unbranched first.width as.reverse (first :: rest) := by
  intro line hline he
  by_cases hopen : EndsInOpenHelper as
  · obtain ⟨y, hy, rfl⟩ : ∃ y, (Line.ofSource b).head? = some y ∧
        y.moved id (· + linesBefore a) = first := by
      simpa [laterLines] using congrArg List.head? hb
    rw [← hb, firstRead_laterLines, Option.mem_def, Option.map_eq_some_iff] at hline
    obtain ⟨x, hx, rfl⟩ := hline
    exact absurd ⟨hopen, y, hy, x, hx, he⟩ hg
  · exact branch?_of_not_endsInOpenHelper hopen _ _

/-- The nodes of the second source follow those of the first, with their numbers moved. -/
theorem parse_append_ok {bs : List Node} (h : SameStart a b) (ha : parse separator a = .ok as)
    (hb : parse separator b = .ok bs) (hg : ¬(EndsInOpenHelper as ∧ BeginsWithElse b)) :
    parse separator (a ++ '\n' :: b) =
      .ok (as ++ bs.map (Node.renumber (· + linesBefore a))) := by
  obtain ⟨o, hra, rfl⟩ := parse_eq_ok_iff.mp ha
  obtain ⟨p, hrb, rfl⟩ := parse_eq_ok_iff.mp hb
  have hlater := run_laterLines separator a b
  rw [hrb] at hlater
  have hnodes := p.nodes_moved id (· + linesBefore a)
  rw [parse_eq_ok_iff, run_joined hra]
  cases hl : laterLines a b with
  | nil =>
    rw [hl] at hlater
    have hempty : Outline.empty = p.moved id (· + linesBefore a) := Except.ok.inj hlater
    rw [← hempty] at hnodes
    exact ⟨o, rfl, by rw [← hnodes]; simp⟩
  | cons first rest =>
    rw [hl] at hlater
    obtain ⟨q, hq, hafter⟩ := (h.at_document hra hl).run_after rfl hlater
      (unbranched_of_not_beginsWithElse hg hl)
    refine ⟨q, hq, ?_⟩
    rw [hafter.nodes_eq, hnodes, List.reverse_reverse]

/-- An error in the second source is found at its moved line. -/
theorem parse_append_error {e : HalfDedent} (h : SameStart a b) (ha : parse separator a = .ok as)
    (hb : parse separator b = .error e) :
    ∃ e', parse separator (a ++ '\n' :: b) = .error e' ∧ e'.number = e.number + linesBefore a := by
  obtain ⟨o, hra, rfl⟩ := parse_eq_ok_iff.mp ha
  have hlater := run_laterLines separator a b
  rw [parse_eq_error_iff.mp hb] at hlater
  simp only [parse_eq_error_iff, run_joined hra]
  cases hl : laterLines a b with
  | nil => simp [hl, Except.map, Except.mapError] at hlater
  | cons first rest =>
    rw [hl] at hlater
    exact (h.at_document hra hl).run_error rfl hlater

end

/-- A source behind another that parses and begins at the same width adds its nodes and its text,
unless its first `else` would branch the last helper of the other. A half dedent of it is met at its
line in any case. -/
theorem compile_joined {separator a b : Text} {as : List Node} (ha : parse separator a = .ok as)
    (h : SameStart a b) :
    (∀ bs, parse separator b = .ok bs → ¬(EndsInOpenHelper as ∧ BeginsWithElse b) →
      parse separator (a ++ '\n' :: b) = .ok (as ++ bs.map (Node.renumber (· + linesBefore a))) ∧
      ∃ s t, compile separator a = .ok s ∧ compile separator b = .ok t ∧
        compile separator (a ++ '\n' :: b) = .ok (s ++ t)) ∧
    ∀ e, parse separator b = .error e →
      ∃ e', parse separator (a ++ '\n' :: b) = .error e' ∧
        e'.number = e.number + linesBefore a := by
  refine ⟨fun bs hb hg => ?_, fun e hb => parse_append_error h ha hb⟩
  have hjoined := parse_append_ok h ha hb hg
  obtain ⟨s, hs, hrs⟩ := compile_of_parse ha
  obtain ⟨t, ht, hrt⟩ := compile_of_parse hb
  refine ⟨hjoined, s, t, hs, ht, compile_eq_ok_iff.mpr ⟨_, hjoined, ?_⟩⟩
  rw [← Node.renderAll_map_renumber (· + linesBefore a)] at hrt
  exact Node.renderAll_append_eq_ok_iff.mpr ⟨s, t, hrs, hrt, rfl⟩

/-- The first source leaves two levels and a literal open. The second begins with a comment, and its
`else` belongs to its own helper. -/
theorem compile_joined_helpers :
    let a : Text := "if x\n  | y\n    z"
    let b : Text := "/ note\nif u\n | v\nelse\n | w"
    (∃ s t, compile defaultSeparator a = .ok s ∧ compile defaultSeparator b = .ok t ∧
      compile defaultSeparator (a ++ '\n' :: b) = .ok (s ++ t)) ∧
    ∃ e, parse defaultSeparator (a ++ '\n' :: "if\n  | y\n | z") = .error e ∧ e.number = 6 := by
  intro a b
  have ha : parse defaultSeparator a =
      .ok [.tag ⟨"if", [], true, "x", 1⟩ [.leaf (.literal ["y", "z"])] none] := rfl
  have hb : parse defaultSeparator b =
      .ok [.tag ⟨"if", [], true, "u", 2⟩ [.leaf (.literal ["v"])]
        (some [.leaf (.literal ["w"])])] := rfl
  have hstart : SameStart a b := by
    rintro x ⟨⟩ y ⟨⟩
    rfl
  have hbegins : ¬BeginsWithElse b := by
    rintro ⟨first, ⟨⟩, line, hline, he⟩
    have hfirst : Outline.firstRead (Line.ofSource b) 0 = some ⟨0, "if u", 2⟩ := rfl
    obtain rfl : ⟨0, "if u", 2⟩ = line := Option.some.inj (hfirst.symm.trans hline)
    exact absurd he (by decide)
  have hbad : SameStart a "if\n  | y\n | z" := by
    rintro x ⟨⟩ y ⟨⟩
    rfl
  exact ⟨((compile_joined ha hstart).1 _ hb fun hg => hbegins hg.2).2,
    (compile_joined ha hbad).2 ⟨1, [0], 3⟩ rfl⟩

end IndentMarkup
