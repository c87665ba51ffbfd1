import IndentMarkup.Proofs.Settling
import Mathlib.Order.Monotone.Basic

/-!
# Lines at other widths and with other numbers

Nothing but the order of the widths decides how an outline grows, and a line's number is only
written down. So the same lines, moved to other widths in the same order and numbered differently,
give the same tree up to the numbers on its tags, and the text it is rendered to is the same.
-/
namespace IndentMarkup

/-! ## Other heads on tags -/

namespace Node

mutual

/-- The node with the head of every tag replaced. -/
def mapHeads (f : Head → Head) : Node → Node
  | .leaf l => .leaf l
  | .foreign type => .foreign type
  | .tag head children inverse =>
    .tag (f head) (mapHeadsAll f children) (mapHeadsBranch f inverse)

def mapHeadsAll (f : Head → Head) : List Node → List Node
  | [] => []
  | node :: rest => mapHeads f node :: mapHeadsAll f rest

def mapHeadsBranch (f : Head → Head) : Option (List Node) → Option (List Node)
  | none => none
  | some nodes => some (mapHeadsAll f nodes)

end

variable (f : Head → Head)

theorem mapHeadsAll_eq_map (nodes : List Node) : mapHeadsAll f nodes = nodes.map (mapHeads f) := by
  induction nodes with
  | nil => simp [mapHeadsAll]
  | cons node rest ih => simp [mapHeadsAll, ih]

theorem mapHeadsBranch_eq_map (inverse : Option (List Node)) :
    mapHeadsBranch f inverse = inverse.map (List.map (mapHeads f)) := by
  cases inverse with
  | none => simp [mapHeadsBranch]
  | some nodes => simp [mapHeadsBranch, mapHeadsAll_eq_map]

@[simp] theorem mapHeads_leaf (l : Leaf) : mapHeads f (.leaf l) = .leaf l := by simp [mapHeads]
@[simp] theorem mapHeads_foreign (type : Foreign) :
    mapHeads f (.foreign type) = .foreign type := by simp [mapHeads]
@[simp] theorem mapHeads_tag (head : Head) (children : List Node) (inverse : Option (List Node)) :
    mapHeads f (.tag head children inverse) =
      .tag (f head) (children.map (mapHeads f)) (inverse.map (List.map (mapHeads f))) := by
  simp [mapHeads, mapHeadsAll_eq_map, mapHeadsBranch_eq_map]

mutual

theorem mapHeads_mapHeads (g : Head → Head) :
    ∀ node : Node, mapHeads g (mapHeads f node) = mapHeads (g ∘ f) node
  | .leaf l => by simp
  | .foreign type => by simp
  | .tag head children inverse => by
    rw [mapHeads, mapHeads, mapHeads, mapHeadsAll_mapHeadsAll g children,
      mapHeadsBranch_mapHeadsBranch g inverse]
    rfl

theorem mapHeadsAll_mapHeadsAll (g : Head → Head) :
    ∀ nodes : List Node, mapHeadsAll g (mapHeadsAll f nodes) = mapHeadsAll (g ∘ f) nodes
  | [] => by simp [mapHeadsAll]
  | node :: rest => by
    rw [mapHeadsAll, mapHeadsAll, mapHeadsAll, mapHeads_mapHeads g node,
      mapHeadsAll_mapHeadsAll g rest]

theorem mapHeadsBranch_mapHeadsBranch (g : Head → Head) : ∀ inverse : Option (List Node),
    mapHeadsBranch g (mapHeadsBranch f inverse) = mapHeadsBranch (g ∘ f) inverse
  | none => by simp [mapHeadsBranch]
  | some nodes => by
    rw [mapHeadsBranch, mapHeadsBranch, mapHeadsBranch, mapHeadsAll_mapHeadsAll g nodes]

end

end Node

/-! ## Numbers on tags -/

def Head.renumber (number : Nat → Nat) (head : Head) : Head :=
  { head with line := number head.line }

namespace Node

abbrev renumber (number : Nat → Nat) : Node → Node := mapHeads (Head.renumber number)

variable (number : Nat → Nat)

mutual

/-- A rendered node does not show its line numbers. -/
theorem render_renumber : ∀ node : Node, (renumber number node).render = node.render
  | .leaf l => by simp
  | .foreign type => by simp
  | .tag head children inverse => by
    have hempty : (mapHeadsAll (Head.renumber number) children).isEmpty = children.isEmpty := by
      cases children <;> rfl
    have hnone : (mapHeadsBranch (Head.renumber number) inverse).isNone = inverse.isNone := by
      cases inverse <;> rfl
    rw [renumber, mapHeads, render, render, hempty, hnone, renderAll_renumber children,
      renderBranch_renumber inverse]
    rfl

theorem renderAll_renumber : ∀ nodes : List Node,
    renderAll (mapHeadsAll (Head.renumber number) nodes) = renderAll nodes
  | [] => by simp [mapHeadsAll]
  | node :: rest => by
    rw [mapHeadsAll, renderAll, renderAll, render_renumber node, renderAll_renumber rest]

theorem renderBranch_renumber : ∀ inverse : Option (List Node),
    renderBranch (mapHeadsBranch (Head.renumber number) inverse) = renderBranch inverse
  | none => by simp [mapHeadsBranch]
  | some nodes => by rw [mapHeadsBranch, renderBranch, renderBranch, renderAll_renumber nodes]

end

/-- Line numbers do not show in what is rendered. -/
theorem renderAll_map_renumber (nodes : List Node) :
    renderAll (nodes.map (renumber number)) = renderAll nodes := by
  rw [← mapHeadsAll_eq_map, renderAll_renumber]

end Node

/-! ## Readings -/

def TagLine.renumber (number : Nat → Nat) (t : TagLine) : TagLine :=
  { t with head := t.head.renumber number }

def Reading.renumber (number : Nat → Nat) : Reading → Reading
  | .comment => .comment
  | .leaf l => .leaf l
  | .tag t => .tag (t.renumber number)

def Line.moved (width number : Nat → Nat) (line : Line) : Line :=
  ⟨width line.width, line.content, number line.number⟩

@[simp] theorem Line.moved_width (width number : Nat → Nat) (line : Line) :
    (line.moved width number).width = width line.width := rfl
@[simp] theorem Line.moved_content (width number : Nat → Nat) (line : Line) :
    (line.moved width number).content = line.content := rfl
@[simp] theorem Line.moved_number (width number : Nat → Nat) (line : Line) :
    (line.moved width number).number = number line.number := rfl
@[simp] theorem Line.moved_isElse (width number : Nat → Nat) (line : Line) :
    (line.moved width number).isElse = line.isElse := rfl

section

variable (number : Nat → Nat)

theorem readElement?_renumber (n : Nat) (name t : Text) :
    readElement? (number n) name t = (readElement? n name t).map (TagLine.renumber number) := by
  unfold readElement?
  simp only
  split
  · rfl
  · split <;> rfl

/-- The number of a line goes into the tag that is read off it, and nowhere else. -/
theorem readTag?_renumber (n : Nat) (content : Text) :
    readTag? (number n) content = (readTag? n content).map (TagLine.renumber number) := by
  unfold readTag?
  split
  · split
    · rfl
    · exact readElement?_renumber number n _ _
  · exact readElement?_renumber number n _ _
  · exact readElement?_renumber number n _ _
  · split
    · rfl
    · split
      · exact readElement?_renumber number n _ _
      · rfl

/-- What a line says does not depend on its width. -/
theorem Line.moved_reading (width : Nat → Nat) (line : Line) :
    (line.moved width number).reading = line.reading.renumber number := by
  have hu : readUnmarked (number line.number) line.content =
      (readUnmarked line.number line.content).renumber number := by
    unfold readUnmarked
    rw [readTag?_renumber]
    cases readTag? line.number line.content <;> rfl
  obtain ⟨w, content, n⟩ := line
  unfold Line.reading Line.moved
  simp only
  split
  · rfl
  · rfl
  · rfl
  · rfl
  · rfl
  · rfl
  · exact hu

end

/-! ## Outlines -/

def Owner.renumber (number : Nat → Nat) : Owner → Owner
  | .document => .document
  | .body head => .body (head.renumber number)
  | .branch head children => .branch (head.renumber number) (children.map (Node.renumber number))

theorem Owner.renumber_wrap (number : Nat → Nat) (owner : Owner) (nodes : List Node) :
    (owner.renumber number).wrap (nodes.map (Node.renumber number)) =
      (owner.wrap nodes).map (Node.renumber number) := by
  cases owner <;> simp [Owner.renumber]

def Level.moved (width number : Nat → Nat) (level : Level) : Level :=
  ⟨width level.width, level.owner.renumber number, level.nodes.map (Node.renumber number)⟩

def Latest.renumber (number : Nat → Nat) : Latest → Latest
  | .comment => .comment
  | .inline tag leaf => .inline (tag.map (Head.renumber number)) leaf
  | .header owner => .header (owner.renumber number)

theorem Latest.renumber_nodes (number : Nat → Nat) (latest : Latest) :
    (latest.renumber number).nodes = latest.nodes.map (Node.renumber number) := by
  cases latest with
  | comment => rfl
  | inline tag leaf => cases tag <;> simp [Latest.renumber, Latest.nodes]
  | header owner => simpa [Latest.renumber, Latest.nodes] using owner.renumber_wrap number []

theorem Reading.latest_renumber (number : Nat → Nat) (r : Reading) :
    (r.renumber number).latest = r.latest.renumber number := by
  cases r with
  | comment => rfl
  | leaf leaf => rfl
  | tag t =>
    obtain ⟨head, inline⟩ := t
    cases inline <;> rfl

def HalfDedent.moved (width number : Nat → Nat) (e : HalfDedent) : HalfDedent :=
  ⟨width e.width, e.openWidths.map width, number e.number⟩

namespace Outline

def moved (width number : Nat → Nat) (o : Outline) : Outline :=
  ⟨o.levels.map (Level.moved width number), o.latest.renumber number⟩

variable (width number : Nat → Nat) {separator : Text}

theorem closeAll_moved (levels : List Level) (late : List Node) :
    closeAll (levels.map (Level.moved width number)) (late.map (Node.renumber number)) =
      (closeAll levels late).map (Node.renumber number) := by
  induction levels generalizing late with
  | nil => simp [closeAll]
  | cons top outer ih =>
    rw [List.map_cons, closeAll, closeAll, ← ih, ← Owner.renumber_wrap, List.map_append]
    rfl

/-- The document of a moved outline is the document with other numbers. -/
theorem nodes_moved (o : Outline) :
    (o.moved width number).nodes = o.nodes.map (Node.renumber number) := by
  rw [nodes, nodes, ← closeAll_moved, ← Latest.renumber_nodes]
  rfl

theorem branch?_moved (level : Level) :
    branch? (level.moved width number) = (branch? level).map fun found =>
      (found.1.renumber number, found.2.map (Node.renumber number)) := by
  obtain ⟨w, owner, nodes⟩ := level
  cases nodes with
  | nil => rfl
  | cons node before =>
    cases node with
    | leaf l => simp [branch?, Level.moved]
    | foreign type => simp [branch?, Level.moved]
    | tag head children inverse =>
      cases inverse with
      | some others => simp [branch?, Level.moved]
      | none =>
        cases hh : head.helper <;> simp [branch?, Level.moved, Head.renumber, hh, Owner.renumber]

/-- Placing commutes with moving. -/
theorem place_moved (top : Level) (outer : List Level) (line : Line) :
    place (top.moved width number) (outer.map (Level.moved width number))
        (line.moved width number) = (place top outer line).moved width number := by
  have hb := branch?_moved width number top
  obtain ⟨he, owner, before, hs, hp⟩ | ⟨hn, hp⟩ := place_cases top outer line
  · rw [hs] at hb
    have hl : (line.moved width number).isElse = true := he
    rw [hp, place_of_branch hl hb]
    rfl
  · rw [hp, place_of_reading, Line.moved_reading, Reading.latest_renumber]
    · rfl
    · intro he
      rw [hb, hn he]
      rfl

variable {width} (hw : StrictMono width)

include hw

theorem isDeeper_moved (levels : List Level) (w : Nat) :
    isDeeper (levels.map (Level.moved width number)) (width w) = isDeeper levels w := by
  cases levels with
  | nil => rfl
  | cons top outer => simp [isDeeper, Level.moved, hw.lt_iff_lt]

/-- Settling compares widths only, so that it commutes with moving. -/
theorem settle_moved (line : Line) (levels : List Level) (late : List Node) :
    settle (line.moved width number) (levels.map (Level.moved width number))
        (late.map (Node.renumber number)) =
      ((settle line levels late).map fun found =>
        (found.1.moved width number, found.2.map (Level.moved width number))).mapError
          (HalfDedent.moved width number) := by
  induction levels generalizing late with
  | nil => rfl
  | cons top outer ih =>
    have hlt : (line.moved width number).width < (top.moved width number).width ↔
        line.width < top.width := hw.lt_iff_lt
    have heq : (top.moved width number).width = (line.moved width number).width ↔
        top.width = line.width := hw.injective.eq_iff
    rw [List.map_cons, settle_cons, settle_cons]
    by_cases h₁ : line.width < top.width
    · rw [if_pos h₁, if_pos (hlt.mpr h₁), ← ih, ← Owner.renumber_wrap, List.map_append]
      rfl
    · rw [if_neg h₁, if_neg (mt hlt.mp h₁)]
      by_cases h₂ : top.width = line.width
      · rw [if_pos h₂, if_pos (heq.mpr h₂)]
        simp [Except.map, Except.mapError, Level.moved]
      · rw [if_neg h₂, if_neg (mt heq.mp h₂)]
        simp [Except.map, Except.mapError, HalfDedent.moved, Level.moved]

/-- One step of an outline that is moved together with its line. -/
theorem step_moved (o : Outline) (line : Line) :
    (o.moved width number).step separator (line.moved width number) =
      ((o.step separator line).map (moved width number)).mapError
        (HalfDedent.moved width number) := by
  obtain ⟨levels, latest⟩ := o
  have hd := isDeeper_moved number hw levels line.width
  cases h : isDeeper levels line.width with
  | true =>
    rw [h] at hd
    cases latest with
    | comment => rw [step_of_absorbs hd rfl, step_of_absorbs h rfl]; rfl
    | inline tag leaf => rw [step_of_absorbs hd rfl, step_of_absorbs h rfl]; rfl
    | header owner =>
      rw [step_of_header h]
      have hp := place_moved width number ⟨line.width, owner, []⟩ levels line
      exact (step_of_header hd).trans (congrArg Except.ok hp)
  | false =>
    rw [h] at hd
    have hs := settle_moved number hw line levels latest.nodes
    rw [← Latest.renumber_nodes] at hs
    rw [step_of_not_deeper hd, step_of_not_deeper h]
    simp only [moved, hs]
    cases settle line levels latest.nodes with
    | error e => rfl
    | ok found => exact congrArg Except.ok (place_moved width number found.1 found.2 line)

/-- A run over moved lines is the moved run. -/
theorem run_moved (o : Outline) (lines : List Line) :
    (o.moved width number).run separator (lines.map (Line.moved width number)) =
      ((o.run separator lines).map (moved width number)).mapError
        (HalfDedent.moved width number) := by
  induction lines generalizing o with
  | nil => rfl
  | cons line lines ih =>
    rw [List.map_cons, run, run, step_moved number hw]
    cases o.step separator line with
    | error e => rfl
    | ok next => exact ih next

end Outline
end IndentMarkup
