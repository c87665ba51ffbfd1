import IndentMarkup.Proofs.Placement

/-!
# Documents that render

Only a value that is no node can stop a rendering, and no line of a source makes one. So every
document that was read from a source renders, and documents that render do so one after another.
-/
namespace IndentMarkup

namespace Node

theorem renderAll_cons_eq_ok_iff {node : Node} {rest : List Node} {text : Text} :
    renderAll (node :: rest) = .ok text ↔
      ∃ s t, node.render = .ok s ∧ renderAll rest = .ok t ∧ s ++ t = text := by
  rw [renderAll]
  cases node.render <;> cases renderAll rest <;> simp [bind, Except.bind, pure, Except.pure]

theorem renderAll_append_eq_ok_iff {xs ys : List Node} {text : Text} :
    renderAll (xs ++ ys) = .ok text ↔
      ∃ s t, renderAll xs = .ok s ∧ renderAll ys = .ok t ∧ s ++ t = text := by
  induction xs generalizing text with
  | nil => simp
  | cons x xs ih =>
    rw [List.cons_append, renderAll_cons_eq_ok_iff]
    constructor
    · rintro ⟨s, _, hs, hrest, rfl⟩
      obtain ⟨t, u, ht, hu, rfl⟩ := ih.mp hrest
      exact ⟨s ++ t, u, renderAll_cons_eq_ok_iff.mpr ⟨s, t, hs, ht, rfl⟩, hu, by simp⟩
    · rintro ⟨_, u, hxs, hu, rfl⟩
      obtain ⟨s, t, hs, ht, rfl⟩ := renderAll_cons_eq_ok_iff.mp hxs
      exact ⟨s, t ++ u, hs, ih.mpr ⟨t, u, ht, hu, rfl⟩, by simp⟩

def Renders (nodes : List Node) : Prop := ∃ text, renderAll nodes = .ok text

theorem renders_nil : Renders [] := ⟨[], renderAll_nil⟩

theorem renders_append_iff {xs ys : List Node} : Renders (xs ++ ys) ↔ Renders xs ∧ Renders ys := by
  simp only [Renders, renderAll_append_eq_ok_iff]
  constructor
  · rintro ⟨_, s, t, hs, ht, -⟩
    exact ⟨⟨s, hs⟩, t, ht⟩
  · rintro ⟨⟨s, hs⟩, t, ht⟩
    exact ⟨s ++ t, s, t, hs, ht, rfl⟩

theorem renders_singleton_iff {node : Node} : Renders [node] ↔ ∃ text, node.render = .ok text := by
  simp [Renders, renderAll_cons_eq_ok_iff]

theorem renders_leaf (l : Leaf) : Renders [.leaf l] := renders_singleton_iff.mpr ⟨_, render_leaf l⟩

/-- A tag without a branch has a text when its children have. -/
theorem renders_tag_iff (head : Head) (children : List Node) :
    Renders [.tag head children none] ↔ Renders children := by
  rw [renders_singleton_iff, render, Renders]
  by_cases hh : head.helper = true
  · cases children with
    | nil => simp [hh]
    | cons child rest =>
      cases renderAll (child :: rest) <;> simp [hh, bind, Except.bind, pure, Except.pure]
  · cases renderAll children <;> simp [hh, bind, Except.bind, pure, Except.pure]

theorem renders_branched {head : Head} {children others : List Node} (hc : Renders children)
    (ho : Renders others) : Renders [.tag head children (some others)] := by
  obtain ⟨s, hs⟩ := hc
  obtain ⟨t, ht⟩ := ho
  rw [renders_singleton_iff, render, renderBranch, hs, ht]
  cases head.helper <;> simp [bind, Except.bind, pure, Except.pure]

end Node

/-- Nodes made by lines have a text: none of them is foreign. -/
theorem Placed.renders {separator : Text} {lines : List Line} {parent : Option Nat}
    {marks : List Mark} {nodes : List Node} (h : Placed separator lines parent marks nodes) :
    Node.Renders nodes := by
  induction h with
  | nil => exact Node.renders_nil
  | leaf _ _ _ ih => exact Node.renders_append_iff.mpr ⟨ih, Node.renders_leaf _⟩
  | inline _ _ _ ih =>
    exact Node.renders_append_iff.mpr ⟨ih, (Node.renders_tag_iff _ _).mpr (Node.renders_leaf _)⟩
  | tag _ _ _ _ _ ih ihc =>
    exact Node.renders_append_iff.mpr ⟨ih, (Node.renders_tag_iff _ _).mpr ihc⟩
  | branch _ _ _ _ _ ih ihb =>
    -- the children were rendered with the helper while it had no branch
    obtain ⟨hnodes, htag⟩ := Node.renders_append_iff.mp ih
    have hchildren := (Node.renders_tag_iff _ _).mp htag
    exact Node.renders_append_iff.mpr ⟨hnodes, Node.renders_branched hchildren ihb⟩

/-- The document of a source is made of its lines. -/
theorem placed_of_parse {separator source : Text} {nodes : List Node}
    (h : parse separator source = .ok nodes) :
    ∃ marks, Placed separator (Line.ofSource source) none marks nodes := by
  obtain ⟨o, hr, rfl⟩ := parse_eq_ok_iff.mp h
  obtain ⟨marks, hg⟩ := grown_of_run hr
  exact ⟨marks, hg.placed⟩

/-- The document of a source renders. -/
theorem renders_of_parse {separator source : Text} {nodes : List Node}
    (h : parse separator source = .ok nodes) : Node.Renders nodes := by
  obtain ⟨marks, hplaced⟩ := placed_of_parse h
  exact hplaced.renders

/-- Every document that is read off a source has a text. -/
theorem compile_of_parse {separator source : Text} {nodes : List Node}
    (h : parse separator source = .ok nodes) :
    ∃ text, compile separator source = .ok text ∧ Node.renderAll nodes = .ok text := by
  obtain ⟨text, ht⟩ := renders_of_parse h
  exact ⟨text, compile_eq_ok_iff.mpr ⟨nodes, h, ht⟩, ht⟩

/-- A source has a half dedent or a text. -/
theorem compile_cases (separator source : Text) :
    (∃ e, compile separator source = .error (.halfDedent e)) ∨
      ∃ text, compile separator source = .ok text := by
  cases hp : parse separator source with
  | error e => exact .inl ⟨e, compile_eq_halfDedent_iff.mpr hp⟩
  | ok nodes =>
    obtain ⟨text, hc, -⟩ := compile_of_parse hp
    exact .inr ⟨text, hc⟩

end IndentMarkup
