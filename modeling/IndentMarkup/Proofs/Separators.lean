import IndentMarkup.Proofs.Settling

/-!
# One document for all separators

The separator is put between the lines of a plain text while the text is being read, so it is spliced
into a tree that is still growing. It decides nothing. Whatever it is, the same lines are continued,
placed and refused, and the tree is one and the same up to the joints of its plain texts.

To say so, plain texts are kept in segments: an unjoined outline is an outline in which no separator
was put anywhere yet. Every step of it is the step of all the outlines that separators make of it.
-/
namespace IndentMarkup

/-! ## Unjoined leaves -/

/-- A leaf whose plain text is still in segments, of which there is always one. -/
inductive UnjoinedLeaf where
  | literal (segments : List Text)
  | raw (markup : Text)
  | text (first : Text) (more : List Text)
  | trailing (value : Text)
  deriving DecidableEq, Repr

namespace UnjoinedLeaf

def join (separator : Text) : UnjoinedLeaf → Leaf
  | .literal segments => .literal segments
  | .raw markup => .raw markup
  | .text first more => .text (separator.intercalate (first :: more))
  | .trailing value => .trailing value

def ofLeaf : Leaf → UnjoinedLeaf
  | .literal segments => .literal segments
  | .raw markup => .raw markup
  | .text value => .text value []
  | .trailing value => .trailing value

def extend (content : Text) : UnjoinedLeaf → UnjoinedLeaf
  | .literal segments => .literal (segments ++ [content])
  | .raw markup => .raw (markup ++ ' ' :: content)
  | .text first more => .text first (more ++ [content])
  | .trailing value => .trailing (value ++ ' ' :: content)

@[simp] theorem join_ofLeaf (separator : Text) (l : Leaf) : (ofLeaf l).join separator = l := by
  cases l <;> simp [ofLeaf, join]

theorem intercalate_append_singleton (separator first : Text) (more : List Text) (last : Text) :
    separator.intercalate (first :: (more ++ [last])) =
      separator.intercalate (first :: more) ++ separator ++ last := by
  induction more generalizing first with
  | nil => simp
  | cons second more ih =>
    rw [List.cons_append, List.intercalate_cons_cons, List.intercalate_cons_cons, ih]
    simp only [List.append_assoc]

/-- Adding a segment and joining commute. -/
theorem join_extend (separator content : Text) (l : UnjoinedLeaf) :
    (l.extend content).join separator = (l.join separator).extend separator content := by
  cases l with
  | literal segments => rfl
  | raw markup => rfl
  | text first more => simp only [extend, join, intercalate_append_singleton, Leaf.extend_text]
  | trailing value => rfl

end UnjoinedLeaf

/-! ## Unjoined trees -/

/-- A node of a document whose plain texts are still in segments. -/
inductive UnjoinedNode where
  | tag (head : Head) (children : List UnjoinedNode) (inverse : Option (List UnjoinedNode))
  | leaf (leaf : UnjoinedLeaf)

namespace UnjoinedNode

mutual

def join (separator : Text) : UnjoinedNode → Node
  | .leaf l => .leaf (l.join separator)
  | .tag head children inverse =>
    .tag head (joinAll separator children) (joinBranch separator inverse)

def joinAll (separator : Text) : List UnjoinedNode → List Node
  | [] => []
  | node :: rest => join separator node :: joinAll separator rest

def joinBranch (separator : Text) : Option (List UnjoinedNode) → Option (List Node)
  | none => none
  | some nodes => some (joinAll separator nodes)

end

variable (separator : Text)

theorem joinAll_eq_map (nodes : List UnjoinedNode) :
    joinAll separator nodes = nodes.map (join separator) := by
  induction nodes with
  | nil => simp [joinAll]
  | cons node rest ih => simp [joinAll, ih]

@[simp] theorem join_leaf (l : UnjoinedLeaf) :
    join separator (.leaf l) = .leaf (l.join separator) := by
  simp [join]

@[simp] theorem join_tag (head : Head) (children : List UnjoinedNode)
    (inverse : Option (List UnjoinedNode)) :
    join separator (.tag head children inverse) =
      .tag head (children.map (join separator)) (inverse.map (List.map (join separator))) := by
  cases inverse <;> simp [join, joinBranch, joinAll_eq_map]

end UnjoinedNode

/-! ## Unjoined outlines -/

inductive UnjoinedOwner where
  | document
  | body (head : Head)
  | branch (head : Head) (children : List UnjoinedNode)

structure UnjoinedLevel where
  width : Nat
  owner : UnjoinedOwner
  nodes : List UnjoinedNode

inductive UnjoinedLatest where
  | comment
  | inline (tag : Option Head) (leaf : UnjoinedLeaf)
  | header (owner : UnjoinedOwner)

structure UnjoinedOutline where
  levels : List UnjoinedLevel
  latest : UnjoinedLatest

section

variable (separator : Text)

def UnjoinedOwner.join : UnjoinedOwner → Owner
  | .document => .document
  | .body head => .body head
  | .branch head children => .branch head (children.map (UnjoinedNode.join separator))

def UnjoinedLevel.join (level : UnjoinedLevel) : Level :=
  ⟨level.width, level.owner.join separator, level.nodes.map (UnjoinedNode.join separator)⟩

def UnjoinedLatest.join : UnjoinedLatest → Latest
  | .comment => .comment
  | .inline tag leaf => .inline tag (leaf.join separator)
  | .header owner => .header (owner.join separator)

def UnjoinedOutline.join (o : UnjoinedOutline) : Outline :=
  ⟨o.levels.map (UnjoinedLevel.join separator), o.latest.join separator⟩

end

/-- The nodes that stand one level up once the owner has these, latest first. -/
def UnjoinedOwner.wrap : UnjoinedOwner → List UnjoinedNode → List UnjoinedNode
  | .document, nodes => nodes
  | .body head, nodes => [.tag head nodes.reverse none]
  | .branch head children, nodes => [.tag head children (some nodes.reverse)]

def UnjoinedLatest.nodes : UnjoinedLatest → List UnjoinedNode
  | .comment => []
  | .inline none leaf => [.leaf leaf]
  | .inline (some head) leaf => [.tag head [.leaf leaf] none]
  | .header owner => owner.wrap []

theorem UnjoinedOwner.join_wrap (separator : Text) (owner : UnjoinedOwner)
    (nodes : List UnjoinedNode) :
    (owner.wrap nodes).map (UnjoinedNode.join separator) =
      (owner.join separator).wrap (nodes.map (UnjoinedNode.join separator)) := by
  cases owner <;> simp [wrap, join]

theorem UnjoinedLatest.join_nodes (separator : Text) (latest : UnjoinedLatest) :
    latest.nodes.map (UnjoinedNode.join separator) = (latest.join separator).nodes := by
  cases latest with
  | comment => rfl
  | inline tag leaf => cases tag <;> simp [nodes, join, Latest.nodes]
  | header owner => exact owner.join_wrap separator []

/-- What a line that opens no branch leaves open. -/
def UnjoinedLatest.ofReading : Reading → UnjoinedLatest
  | .comment => .comment
  | .leaf l => .inline none (.ofLeaf l)
  | .tag ⟨head, none⟩ => .header (.body head)
  | .tag ⟨head, some l⟩ => .inline (some head) (.ofLeaf l)

theorem UnjoinedLatest.join_ofReading (separator : Text) (r : Reading) :
    (ofReading r).join separator = r.latest := by
  cases r with
  | comment => rfl
  | leaf l => simp [ofReading, join, Reading.latest]
  | tag t =>
    obtain ⟨head, inline⟩ := t
    cases inline <;> simp [ofReading, join, UnjoinedOwner.join, Reading.latest]

namespace Outline

/-! ## All separators at once -/

theorem isDeeper_join (separator : Text) (levels : List UnjoinedLevel) (w : Nat) :
    isDeeper (levels.map (UnjoinedLevel.join separator)) w =
      isDeeper (levels.map (UnjoinedLevel.join [])) w := by
  cases levels <;> rfl

/-- Whether there is a helper to branch does not depend on the separator. -/
theorem branch?_join (top : UnjoinedLevel) :
    (∀ separator, branch? (top.join separator) = none) ∨
    ∃ (owner : UnjoinedOwner) (before : List UnjoinedNode), ∀ separator,
      branch? (top.join separator) =
        some (owner.join separator, before.map (UnjoinedNode.join separator)) := by
  obtain ⟨w, owner, nodes⟩ := top
  cases nodes with
  | nil => exact .inl fun _ => rfl
  | cons node before =>
    cases node with
    | leaf l => exact .inl fun _ => by simp [branch?, UnjoinedLevel.join]
    | tag head children inverse =>
      cases inverse with
      | some others => exact .inl fun _ => by simp [branch?, UnjoinedLevel.join]
      | none =>
        cases hh : head.helper with
        | false => exact .inl fun _ => by simp [branch?, UnjoinedLevel.join, hh]
        | true =>
          refine .inr ⟨.branch head children, before, fun _ => ?_⟩
          simp [branch?, UnjoinedLevel.join, hh, UnjoinedOwner.join]

/-- Where a line is placed does not depend on the separator. -/
theorem place_join (top : UnjoinedLevel) (outer : List UnjoinedLevel) (line : Line) :
    ∃ o : UnjoinedOutline, ∀ separator,
      place (top.join separator) (outer.map (UnjoinedLevel.join separator)) line =
        o.join separator := by
  have hread (hno : ∀ separator, line.isElse = true → branch? (top.join separator) = none) :
      ∃ o : UnjoinedOutline, ∀ separator,
        place (top.join separator) (outer.map (UnjoinedLevel.join separator)) line =
          o.join separator := by
    refine ⟨⟨top :: outer, .ofReading line.reading⟩, fun separator => ?_⟩
    rw [place_of_reading (hno separator), UnjoinedOutline.join, UnjoinedLatest.join_ofReading]
    rfl
  obtain hnone | ⟨owner, before, hsome⟩ := branch?_join top
  · exact hread fun separator _ => hnone separator
  · by_cases he : line.isElse = true
    · refine ⟨⟨{ top with nodes := before } :: outer, .header owner⟩, fun separator => ?_⟩
      rw [place_of_branch he (hsome separator)]
      rfl
    · exact hread fun _ h => absurd h he

/-- A line settles on the same level for all separators, or on none for any. -/
theorem settle_join (line : Line) (levels : List UnjoinedLevel) (late : List UnjoinedNode) :
    ∃ result : Except HalfDedent (UnjoinedLevel × List UnjoinedLevel), ∀ separator,
      settle line (levels.map (UnjoinedLevel.join separator))
          (late.map (UnjoinedNode.join separator)) =
        result.map fun found =>
          (found.1.join separator, found.2.map (UnjoinedLevel.join separator)) := by
  induction levels generalizing late with
  | nil => exact ⟨.error ⟨line.width, [], line.number⟩, fun _ => rfl⟩
  | cons top outer ih =>
    by_cases hlt : line.width < top.width
    · obtain ⟨result, hr⟩ := ih (top.owner.wrap (late ++ top.nodes))
      refine ⟨result, fun separator => ?_⟩
      rw [← hr, UnjoinedOwner.join_wrap, List.map_append]
      exact if_pos hlt
    · by_cases heq : top.width = line.width
      · refine ⟨.ok ({ top with nodes := late ++ top.nodes }, outer), fun separator => ?_⟩
        have hlevel : Level.mk top.width (top.owner.join separator)
            (late.map (UnjoinedNode.join separator) ++
              top.nodes.map (UnjoinedNode.join separator)) =
            UnjoinedLevel.join separator { top with nodes := late ++ top.nodes } := by
          simp [UnjoinedLevel.join]
        rw [Except.map, ← hlevel]
        exact (if_neg hlt).trans (if_pos heq)
      · refine ⟨.error ⟨line.width, ((top :: outer).map (·.width)).reverse, line.number⟩, ?_⟩
        intro separator
        have hwidths : (top :: outer).map (·.width) =
            ((top :: outer).map (UnjoinedLevel.join separator)).map (·.width) := by
          simp [UnjoinedLevel.join, Function.comp_def]
        rw [Except.map, hwidths]
        exact (if_neg hlt).trans (if_neg heq)

/-- One more line does the same for all separators. -/
theorem step_join (o : UnjoinedOutline) (line : Line) :
    ∃ result : Except HalfDedent UnjoinedOutline, ∀ separator,
      (o.join separator).step separator line = result.map (UnjoinedOutline.join separator) := by
  obtain ⟨levels, latest⟩ := o
  -- the branch is chosen before a separator is named: widths are the same under all of them
  have hdeep := fun separator => isDeeper_join separator levels line.width
  cases hd : isDeeper (levels.map (UnjoinedLevel.join [])) line.width with
  | true =>
    rw [hd] at hdeep
    cases latest with
    | comment => exact ⟨.ok ⟨levels, .comment⟩, fun separator => step_of_absorbs (hdeep _) rfl⟩
    | inline tag leaf =>
      refine ⟨.ok ⟨levels, .inline tag (leaf.extend line.content)⟩, fun separator => ?_⟩
      rw [step_of_absorbs (hdeep separator) rfl]
      simp only [UnjoinedOutline.join, UnjoinedLatest.join, Latest.absorb,
        UnjoinedLeaf.join_extend, Except.map]
    | header owner =>
      obtain ⟨next, hnext⟩ := place_join ⟨line.width, owner, []⟩ levels line
      refine ⟨.ok next, fun separator => ?_⟩
      rw [Except.map, ← hnext]
      exact step_of_header (hdeep separator)
  | false =>
    rw [hd] at hdeep
    obtain ⟨result, hr⟩ := settle_join line levels latest.nodes
    have hstep : ∀ separator, (UnjoinedOutline.join separator ⟨levels, latest⟩).step separator line =
        (settle line (levels.map (UnjoinedLevel.join separator))
          (latest.nodes.map (UnjoinedNode.join separator))).map
            fun found => place found.1 found.2 line := by
      intro separator
      rw [step_of_not_deeper (hdeep separator), UnjoinedLatest.join_nodes]
      rfl
    cases result with
    | error e =>
      refine ⟨.error e, fun separator => ?_⟩
      rw [hstep, hr]
      rfl
    | ok found =>
      obtain ⟨next, hnext⟩ := place_join found.1 found.2 line
      refine ⟨.ok next, fun separator => ?_⟩
      rw [hstep, hr]
      exact congrArg Except.ok (hnext separator)

/-- One unjoined run stands for the runs with all separators. -/
theorem run_join (o : UnjoinedOutline) (lines : List Line) :
    ∃ result : Except HalfDedent UnjoinedOutline, ∀ separator,
      (o.join separator).run separator lines = result.map (UnjoinedOutline.join separator) := by
  induction lines generalizing o with
  | nil => exact ⟨.ok o, fun _ => rfl⟩
  | cons line lines ih =>
    obtain ⟨result, hr⟩ := step_join o line
    cases result with
    | error e =>
      refine ⟨.error e, fun separator => ?_⟩
      rw [run_cons, hr]
      rfl
    | ok next =>
      obtain ⟨result, hnext⟩ := ih next
      refine ⟨result, fun separator => ?_⟩
      rw [run_cons, hr, ← hnext]
      rfl

theorem closeAll_join (levels : List UnjoinedLevel) (late : List UnjoinedNode) :
    ∃ nodes : List UnjoinedNode, ∀ separator,
      closeAll (levels.map (UnjoinedLevel.join separator))
        (late.map (UnjoinedNode.join separator)) = nodes.map (UnjoinedNode.join separator) := by
  induction levels generalizing late with
  | nil => exact ⟨late.reverse, fun _ => by simp [closeAll]⟩
  | cons top outer ih =>
    obtain ⟨nodes, hnodes⟩ := ih (top.owner.wrap (late ++ top.nodes))
    refine ⟨nodes, fun separator => ?_⟩
    rw [← hnodes, UnjoinedOwner.join_wrap, List.map_append]
    rfl

end Outline

/-- All separators join one and the same outcome. -/
theorem parse_join (source : Text) :
    ∃ result : Except HalfDedent (List UnjoinedNode), ∀ separator,
      parse separator source = result.map (List.map (UnjoinedNode.join separator)) := by
  obtain ⟨result, hr⟩ := Outline.run_join ⟨[], .header .document⟩ (Line.ofSource source)
  cases result with
  | error e => exact ⟨.error e, fun separator => parse_eq_error_iff.mpr (hr separator)⟩
  | ok o =>
    obtain ⟨tree, htree⟩ := Outline.closeAll_join o.levels o.latest.nodes
    refine ⟨.ok tree, fun separator => parse_eq_ok_iff.mpr ⟨o.join separator, hr separator, ?_⟩⟩
    rw [← htree, UnjoinedLatest.join_nodes]
    rfl

/-- For every source there is one error that all separators give, or one document with its plain
texts in segments, of which every separator gives the one that it joins. -/
theorem parse_eq_joined (source : Text) :
    (∃ e, ∀ separator, parse separator source = .error e) ∨
    ∃ tree : List UnjoinedNode, ∀ separator,
      parse separator source = .ok (tree.map (UnjoinedNode.join separator)) := by
  obtain ⟨result, hresult⟩ := parse_join source
  cases result with
  | error e => exact .inl ⟨e, hresult⟩
  | ok tree => exact .inr ⟨tree, hresult⟩

end IndentMarkup
