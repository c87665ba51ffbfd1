import IndentMarkup.Template

/-!
# What one more line does to an outline

A line either goes into what the latest line left open, opens a level for it, or settles: the wider
levels are closed from the inside and the line stands on the level of its own width. Everything
proved about outlines rests on these three cases and on what a run does when each step keeps a
property.
-/
namespace IndentMarkup

namespace Latest

/-- Whether deeper lines are taken in without being read. -/
def absorbs : Latest → Bool
  | .comment => true
  | .inline _ _ => true
  | .header _ => false

/-- The latest line once a deeper line with the given content was taken in. -/
def absorb (separator content : Text) : Latest → Latest
  | .comment => .comment
  | .inline tag leaf => .inline tag (leaf.extend separator content)
  | .header owner => .header owner

@[simp] theorem absorbs_comment : absorbs .comment = true := rfl
@[simp] theorem absorbs_inline (tag : Option Head) (leaf : Leaf) :
    absorbs (.inline tag leaf) = true := rfl
@[simp] theorem absorbs_header (owner : Owner) : absorbs (.header owner) = false := rfl

@[simp] theorem absorbs_absorb (separator content : Text) (l : Latest) :
    (l.absorb separator content).absorbs = l.absorbs := by
  cases l <;> rfl

end Latest

/-- What a line that opens no branch leaves open. -/
def Reading.latest : Reading → Latest
  | .comment => .comment
  | .leaf l => .inline none l
  | .tag ⟨head, none⟩ => .header (.body head)
  | .tag ⟨head, some l⟩ => .inline (some head) l

/-- Deeper lines are taken in exactly behind the lines called opaque. -/
theorem Reading.latest_absorbs (r : Reading) : r.latest.absorbs = r.isOpaque := by
  cases r with
  | comment => rfl
  | leaf leaf => rfl
  | tag t =>
    obtain ⟨head, inline⟩ := t
    cases inline <;> rfl

/-- No line is read as a document. -/
theorem Reading.latest_ne_document (r : Reading) : r.latest ≠ .header .document := by
  cases r with
  | comment => simp [latest]
  | leaf leaf => simp [latest]
  | tag t =>
    obtain ⟨head, inline⟩ := t
    cases inline <;> simp [latest]

/-- An `else` is read as a helper without arguments where it opens no branch. -/
theorem Line.reading_of_isElse {line : Line} (h : line.isElse = true) :
    line.reading = .tag ⟨⟨Line.elseWord, [], true, [], line.number⟩, none⟩ := by
  obtain ⟨width, content, number⟩ := line
  have hc : content = Line.elseWord := by simpa [Line.isElse] using h
  subst hc
  rfl

namespace Outline

/-! ## Closing levels -/

/-- The nodes one level up once the given levels are closed, latest first. -/
def collapse : List Level → List Node → List Node
  | [], late => late
  | top :: outer, late => collapse outer (top.owner.wrap (late ++ top.nodes))

@[simp] theorem collapse_nil (late : List Node) : collapse [] late = late := rfl
@[simp] theorem collapse_cons (top : Level) (outer : List Level) (late : List Node) :
    collapse (top :: outer) late = collapse outer (top.owner.wrap (late ++ top.nodes)) := rfl

theorem collapse_append (inner outer : List Level) (late : List Node) :
    collapse (inner ++ outer) late = collapse outer (collapse inner late) := by
  induction inner generalizing late with
  | nil => rfl
  | cons top inner ih => exact ih _

theorem closeAll_eq_collapse (levels : List Level) (late : List Node) :
    closeAll levels late = (collapse levels late).reverse := by
  induction levels generalizing late with
  | nil => rfl
  | cons top outer ih => exact ih _

theorem isDeeper_iff (levels : List Level) (width : Nat)
    (h : (levels.map (·.width)).Pairwise (· > ·)) :
    isDeeper levels width = true ↔ ∀ w ∈ levels.map (·.width), w < width := by
  cases levels with
  | nil => simp [isDeeper]
  | cons top outer =>
    simp only [List.map_cons, List.pairwise_cons] at h
    simp only [isDeeper, decide_eq_true_eq, List.map_cons, List.mem_cons, forall_eq_or_imp]
    constructor
    · intro ht
      exact ⟨ht, fun w hw => Nat.lt_trans (h.1 w hw) ht⟩
    · exact fun ht => ht.1

theorem settle_cons (line : Line) (top : Level) (outer : List Level) (late : List Node) :
    settle line (top :: outer) late =
      if line.width < top.width then settle line outer (top.owner.wrap (late ++ top.nodes))
      else if top.width = line.width then .ok ({ top with nodes := late ++ top.nodes }, outer)
      else .error ⟨line.width, ((top :: outer).map (·.width)).reverse, line.number⟩ := rfl

/-- A line settles where a level of its width lies behind wider ones only. -/
theorem settle_eq_ok {line : Line} {levels : List Level} {late : List Node} {top : Level}
    {outer : List Level} (h : settle line levels late = .ok (top, outer)) :
    ∃ inner base, levels = inner ++ base :: outer ∧ (∀ l ∈ inner, line.width < l.width) ∧
      base.width = line.width ∧ top = { base with nodes := collapse inner late ++ base.nodes } := by
  induction levels generalizing late with
  | nil => simp [settle] at h
  | cons base rest ih =>
    rw [settle_cons] at h
    split at h
    · rename_i hw
      obtain ⟨inner, base', rfl, hi, hb, rfl⟩ := ih h
      refine ⟨base :: inner, base', rfl, ?_, hb, rfl⟩
      intro l hl
      rcases List.mem_cons.mp hl with rfl | hl
      · exact hw
      · exact hi l hl
    · split at h
      · rename_i hw
        simp only [Except.ok.injEq, Prod.mk.injEq] at h
        obtain ⟨rfl, rfl⟩ := h
        exact ⟨[], base, rfl, by simp, hw, rfl⟩
      · simp at h

theorem settle_append {line : Line} {inner : List Level}
    (hi : ∀ l ∈ inner, line.width < l.width) (rest : List Level) (late : List Node) :
    settle line (inner ++ rest) late = settle line rest (collapse inner late) := by
  induction inner generalizing late with
  | nil => rfl
  | cons top inner ih =>
    rw [List.cons_append, settle_cons, if_pos (hi top (by simp))]
    exact ih (fun l hl => hi l (by simp [hl])) _

/-- A line settles on a level of its own width. -/
theorem width_of_settle {line : Line} {levels : List Level} {late : List Node} {top : Level}
    {outer : List Level} (h : settle line levels late = .ok (top, outer)) :
    top.width = line.width := by
  obtain ⟨inner, base, -, -, hw, rfl⟩ := settle_eq_ok h
  exact hw

/-- Settling a line takes nothing from the document. -/
theorem closeAll_of_settle {line : Line} {levels : List Level} {late : List Node} {top : Level}
    {outer : List Level} (h : settle line levels late = .ok (top, outer)) :
    closeAll (top :: outer) [] = closeAll levels late := by
  obtain ⟨inner, base, rfl, -, -, rfl⟩ := settle_eq_ok h
  simp [closeAll_eq_collapse, collapse_append]

theorem closeAll_ne_nil (levels : List Level) {late : List Node} (h : late ≠ []) :
    closeAll levels late ≠ [] := by
  induction levels generalizing late with
  | nil => simpa [closeAll] using h
  | cons top outer ih =>
    apply ih
    cases top.owner <;> simp [h]

/-- Once the levels wider than the floor are closed, the nodes wait on top of the levels beneath. -/
def Leaves (o : Outline) (floor : Nat) (late : List Node) (base : List Level) : Prop :=
  ∃ inner, o.levels = inner ++ base ∧ (∀ l ∈ inner, floor < l.width) ∧
    collapse inner o.latest.nodes = late

theorem Leaves.nodes_eq {o : Outline} {floor : Nat} {late : List Node} {base : List Level}
    (h : Leaves o floor late base) : o.nodes = closeAll base late := by
  obtain ⟨inner, hl, -, rfl⟩ := h
  rw [Outline.nodes, hl, closeAll_eq_collapse, collapse_append, ← closeAll_eq_collapse]

/-- The levels above the floor do not matter to a line at or below it. -/
theorem Leaves.settle_eq {o : Outline} {floor : Nat} {late : List Node} {base : List Level}
    {line : Line} (h : Leaves o floor late base) (hl : line.width ≤ floor) :
    settle line o.levels o.latest.nodes = settle line base late := by
  obtain ⟨inner, hlevels, hi, rfl⟩ := h
  rw [hlevels, settle_append]
  intro l hm
  exact Nat.lt_of_le_of_lt hl (hi l hm)

/-- No line at the width of the level beneath is deeper. -/
theorem Leaves.not_deeper {o : Outline} {late : List Node} {base : Level} {outer : List Level}
    (h : Leaves o base.width late (base :: outer)) : isDeeper o.levels base.width = false := by
  obtain ⟨inner, hlevels, hi, -⟩ := h
  rw [hlevels]
  cases inner with
  | nil => simp [isDeeper]
  | cons top inner =>
    have ht := hi top (by simp)
    simp only [List.cons_append, isDeeper, decide_eq_false_iff_not]
    omega

/-- A line settles nowhere where the levels that are not wider are all narrower. -/
theorem settle_eq_error {line : Line} {levels : List Level} {late : List Node} {e : HalfDedent}
    (h : settle line levels late = .error e) :
    ∃ inner outer, levels = inner ++ outer ∧ (∀ l ∈ inner, line.width < l.width) ∧
      (∀ l ∈ outer.head?, l.width < line.width) ∧
      e = ⟨line.width, (outer.map (·.width)).reverse, line.number⟩ := by
  induction levels generalizing late with
  | nil =>
    simp only [settle, Except.error.injEq] at h
    exact ⟨[], [], rfl, by simp, by simp, h.symm⟩
  | cons top rest ih =>
    rw [settle_cons] at h
    split at h
    · rename_i hw
      obtain ⟨inner, outer, rfl, hi, ho, he⟩ := ih h
      refine ⟨top :: inner, outer, rfl, ?_, ho, he⟩
      intro l hl
      rcases List.mem_cons.mp hl with rfl | hl
      · exact hw
      · exact hi l hl
    · split at h
      · simp at h
      · rename_i hw hne
        simp only [Except.error.injEq] at h
        refine ⟨[], top :: rest, rfl, by simp, ?_, h.symm⟩
        intro l hl
        simp only [List.head?_cons, Option.mem_def, Option.some.injEq] at hl
        subst hl
        omega

/-! ## The cases of a step -/

/-- A deeper line behind an opaque one is taken in. -/
theorem step_of_absorbs {separator : Text} {o : Outline} {line : Line}
    (hd : isDeeper o.levels line.width = true) (hl : o.latest.absorbs = true) :
    o.step separator line = .ok ⟨o.levels, o.latest.absorb separator line.content⟩ := by
  obtain ⟨levels, latest⟩ := o
  cases latest with
  | comment => simp [step, hd, Latest.absorb]
  | inline tag leaf => simp [step, hd, Latest.absorb]
  | header owner => simp at hl

/-- A deeper line behind a header opens a level of its own. -/
theorem step_of_header {separator : Text} {levels : List Level} {owner : Owner} {line : Line}
    (hd : isDeeper levels line.width = true) :
    step separator ⟨levels, .header owner⟩ line =
      .ok (place ⟨line.width, owner, []⟩ levels line) := by
  simp [step, hd]

/-- A line that is no deeper closes levels until it finds its own. -/
theorem step_of_not_deeper {separator : Text} {o : Outline} {line : Line}
    (hd : isDeeper o.levels line.width = false) :
    o.step separator line =
      (settle line o.levels o.latest.nodes).map fun found => place found.1 found.2 line := by
  simp only [step, hd]
  cases settle line o.levels o.latest.nodes <;> rfl

/-- The three things that a line can do to an outline. -/
theorem step_cases {separator : Text} {o o' : Outline} {line : Line}
    (h : o.step separator line = .ok o') :
    (isDeeper o.levels line.width = true ∧ o.latest.absorbs = true ∧
      o' = ⟨o.levels, o.latest.absorb separator line.content⟩) ∨
    (isDeeper o.levels line.width = true ∧ ∃ owner, o.latest = .header owner ∧
      o' = place ⟨line.width, owner, []⟩ o.levels line) ∨
    (isDeeper o.levels line.width = false ∧ ∃ top outer,
      settle line o.levels o.latest.nodes = .ok (top, outer) ∧ o' = place top outer line) := by
  cases hd : isDeeper o.levels line.width with
  | true =>
    obtain ⟨levels, latest⟩ := o
    cases latest with
    | comment =>
      rw [step_of_absorbs hd rfl] at h
      exact .inl ⟨rfl, rfl, by simpa using h.symm⟩
    | inline tag leaf =>
      rw [step_of_absorbs hd rfl] at h
      exact .inl ⟨rfl, rfl, by simpa using h.symm⟩
    | header owner =>
      rw [step_of_header hd] at h
      exact .inr (.inl ⟨rfl, owner, rfl, by simpa using h.symm⟩)
  | false =>
    rw [step_of_not_deeper hd] at h
    cases hs : settle line o.levels o.latest.nodes with
    | error e => simp [hs, Except.map] at h
    | ok found =>
      refine .inr (.inr ⟨rfl, found.1, found.2, rfl, ?_⟩)
      simpa [hs, Except.map] using h.symm

/-- Only a line that settles nowhere stops a run. -/
theorem step_error {separator : Text} {o : Outline} {line : Line} {e : HalfDedent}
    (h : o.step separator line = .error e) :
    isDeeper o.levels line.width = false ∧ settle line o.levels o.latest.nodes = .error e := by
  cases hd : isDeeper o.levels line.width with
  | true =>
    obtain ⟨levels, latest⟩ := o
    cases latest with
    | comment => simp [step_of_absorbs hd rfl] at h
    | inline tag leaf => simp [step_of_absorbs hd rfl] at h
    | header owner => simp [step_of_header hd] at h
  | false =>
    rw [step_of_not_deeper hd] at h
    cases hs : settle line o.levels o.latest.nodes with
    | error e' => simpa [hs, Except.map] using h
    | ok found => simp [hs, Except.map] at h

theorem place_of_branch {top : Level} {outer : List Level} {line : Line} {owner : Owner}
    {before : List Node} (he : line.isElse = true) (hb : branch? top = some (owner, before)) :
    place top outer line = ⟨{ top with nodes := before } :: outer, .header owner⟩ := by
  simp only [place, he, hb]

theorem place_of_reading {top : Level} {outer : List Level} {line : Line}
    (h : line.isElse = true → branch? top = none) :
    place top outer line = ⟨top :: outer, line.reading.latest⟩ := by
  unfold place
  split
  · rename_i owner before he hb
    simp [h he] at hb
  · cases line.reading with
    | comment => rfl
    | leaf leaf => rfl
    | tag t =>
      obtain ⟨head, inline⟩ := t
      cases inline <;> rfl

/-- A line on an open level opens a branch, or is read by itself. -/
theorem place_cases (top : Level) (outer : List Level) (line : Line) :
    (line.isElse = true ∧ ∃ owner before, branch? top = some (owner, before) ∧
      place top outer line = ⟨{ top with nodes := before } :: outer, .header owner⟩) ∨
    ((line.isElse = true → branch? top = none) ∧
      place top outer line = ⟨top :: outer, line.reading.latest⟩) := by
  cases he : line.isElse with
  | false => exact .inr ⟨by simp, place_of_reading (by simp [he])⟩
  | true =>
    cases hb : branch? top with
    | none => exact .inr ⟨by simp, place_of_reading fun _ => hb⟩
    | some found => exact .inl ⟨rfl, found.1, found.2, rfl, place_of_branch he hb⟩

/-- Placing a line leaves the levels' widths and owners alone. -/
theorem place_levels (top : Level) (outer : List Level) (line : Line) :
    ∃ nodes, (place top outer line).levels = { top with nodes := nodes } :: outer := by
  obtain ⟨-, owner, before, -, hp⟩ | ⟨-, hp⟩ := place_cases top outer line
  · exact ⟨before, by rw [hp]⟩
  · exact ⟨top.nodes, by rw [hp]⟩

/-! ## Nodes on a level -/

/-- The outline has the nodes, latest first, on a level of the given width and owner: the level is
open somewhere, or it waits for its first line. -/
inductive At (width : Nat) (owner : Owner) (outer : List Level) : List Node → Outline → Prop where
  | fresh : isDeeper outer width = true → At width owner outer [] ⟨outer, .header owner⟩
  | met {o : Outline} {late before : List Node} :
      Leaves o width late (⟨width, owner, before⟩ :: outer) →
      At width owner outer (late ++ before) o

namespace At

variable {width : Nat} {owner : Owner} {outer : List Level} {nodes : List Node} {o : Outline}

/-- What the latest line left open belongs to its level. -/
theorem of_latest (latest : Latest) :
    At width owner outer (latest.nodes ++ nodes) ⟨⟨width, owner, nodes⟩ :: outer, latest⟩ :=
  .met ⟨[], rfl, by simp, rfl⟩

/-- A line of the level's width is placed behind the nodes. -/
theorem step (h : At width owner outer nodes o) (separator : Text) {line : Line}
    (hw : line.width = width) :
    o.step separator line = .ok (place ⟨width, owner, nodes⟩ outer line) := by
  subst hw
  cases h with
  | fresh hd => exact step_of_header hd
  | met hl =>
    rw [step_of_not_deeper hl.not_deeper, hl.settle_eq (Nat.le_refl _), settle_cons]
    simp [Except.map]

/-- Closed, the level leaves its owner with the nodes. -/
theorem leaves (h : At width owner outer nodes o) {floor : Nat} (hf : floor < width) :
    Leaves o floor (owner.wrap nodes) outer := by
  cases h with
  | fresh hd => exact ⟨[], rfl, by simp, rfl⟩
  | @met _ late before hl =>
    obtain ⟨inner, hlevels, hi, hc⟩ := hl
    refine ⟨inner ++ [⟨width, owner, before⟩], by simp [hlevels], ?_, by simp [collapse_append, hc]⟩
    intro l hm
    rcases List.mem_append.mp hm with hm | hm
    · exact Nat.lt_trans hf (hi l hm)
    · rw [List.mem_singleton.mp hm]
      exact hf

theorem step_leaf (h : At width owner outer nodes o) (separator : Text) {line : Line} {l : Leaf}
    (hw : line.width = width) (hr : line.reading = .leaf l) :
    o.step separator line = .ok ⟨⟨width, owner, nodes⟩ :: outer, .inline none l⟩ := by
  rw [h.step separator hw, place_of_reading, hr]
  · rfl
  · intro he
    simp [Line.reading_of_isElse he] at hr

theorem step_tag (h : At width owner outer nodes o) (separator : Text) {line : Line} {head : Head}
    (hw : line.width = width) (hr : line.reading = .tag ⟨head, none⟩)
    (he : line.isElse = true → branch? ⟨width, owner, nodes⟩ = none) :
    o.step separator line = .ok ⟨⟨width, owner, nodes⟩ :: outer, .header (.body head)⟩ := by
  rw [h.step separator hw, place_of_reading he, hr]
  rfl

/-- An `else` opens the branch of the helper in front of it. -/
theorem step_else {head : Head} {children : List Node}
    (h : At width owner outer (.tag head children none :: nodes) o) (hh : head.helper = true)
    (separator : Text) {line : Line} (hw : line.width = width) (he : line.isElse = true) :
    o.step separator line =
      .ok ⟨⟨width, owner, nodes⟩ :: outer, .header (.branch head children)⟩ := by
  have hb : branch? ⟨width, owner, .tag head children none :: nodes⟩ =
      some (.branch head children, nodes) := by
    simp [branch?, hh]
  rw [h.step separator hw, place_of_branch he hb]

/-- A document is its levels closed around the nodes at hand. -/
theorem nodes_eq (h : At width owner outer nodes o) :
    o.nodes = closeAll outer (owner.wrap nodes) := by
  cases h with
  | fresh hd => rfl
  | met hl =>
    rw [hl.nodes_eq]
    rfl

end At

/-! ## Runs -/

section Runs

variable {separator : Text} {lines : List Line} {I : Nat → Outline → Prop}

/-- The property after the lines that are done goes on through the rest. -/
theorem run_rest
    (next : ∀ n o line o', I n o → lines[n]? = some line → o.step separator line = .ok o' →
      I (n + 1) o')
    (done rest : List Line) (o : Outline) (hl : lines = done ++ rest) (hi : I done.length o) :
    (∀ o', o.run separator rest = .ok o' → I lines.length o') ∧
    (∀ e, o.run separator rest = .error e →
      ∃ n o' line, I n o' ∧ lines[n]? = some line ∧ o'.step separator line = .error e) := by
  induction rest generalizing done o with
  | nil =>
    refine ⟨?_, by simp⟩
    intro o' h
    simp only [run_nil, Except.ok.injEq] at h
    subst h
    simpa [hl] using hi
  | cons line rest ih =>
    have hn : lines[done.length]? = some line := by simp [hl]
    rw [run]
    cases hs : o.step separator line with
    | error e =>
      refine ⟨by simp, ?_⟩
      intro e' he
      simp only [Except.error.injEq] at he
      exact ⟨done.length, o, line, hi, hn, he ▸ hs⟩
    | ok o' =>
      have hi' := next done.length o line o' hi hn hs
      exact ih (done ++ [line]) o' (by simp [hl]) (by simpa using hi')

/-- What holds at the start and is kept by every step holds after a run. -/
theorem run_keeps {o : Outline} (start : I 0 empty)
    (next : ∀ n o line o', I n o → lines[n]? = some line → o.step separator line = .ok o' →
      I (n + 1) o')
    (h : empty.run separator lines = .ok o) : I lines.length o :=
  (run_rest next [] lines empty rfl start).1 o h

/-- A run that stops does so at a step from an outline with the property. -/
theorem run_stops {e : HalfDedent} (start : I 0 empty)
    (next : ∀ n o line o', I n o → lines[n]? = some line → o.step separator line = .ok o' →
      I (n + 1) o')
    (h : empty.run separator lines = .error e) :
    ∃ n o line, I n o ∧ lines[n]? = some line ∧ o.step separator line = .error e :=
  (run_rest next [] lines empty rfl start).2 e h

end Runs

end Outline

/-! ## Documents -/

theorem parse_eq_ok_iff {separator source : Text} {nodes : List Node} :
    parse separator source = .ok nodes ↔
      ∃ o, Outline.empty.run separator (Line.ofSource source) = .ok o ∧ o.nodes = nodes := by
  unfold parse
  cases Outline.empty.run separator (Line.ofSource source) <;> simp [Except.map]

theorem parse_eq_error_iff {separator source : Text} {e : HalfDedent} :
    parse separator source = .error e ↔
      Outline.empty.run separator (Line.ofSource source) = .error e := by
  unfold parse
  cases Outline.empty.run separator (Line.ofSource source) <;> simp [Except.map]

theorem compile_eq_ok_iff {separator source text : Text} :
    compile separator source = .ok text ↔
      ∃ nodes, parse separator source = .ok nodes ∧ Node.renderAll nodes = .ok text := by
  unfold compile
  cases parse separator source with
  | error e => simp
  | ok nodes => cases h : Node.renderAll nodes <;> simp [h]

theorem compile_eq_halfDedent_iff {separator source : Text} {e : HalfDedent} :
    compile separator source = .error (.halfDedent e) ↔ parse separator source = .error e := by
  unfold compile
  cases parse separator source with
  | error e' => simp
  | ok nodes => cases h : Node.renderAll nodes <;> simp [h]

end IndentMarkup
