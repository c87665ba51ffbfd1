import IndentMarkup.Proofs.OneLine
import IndentMarkup.Proofs.Separators

/-!
# Separators of any code points

A separator that holds halves of surrogate pairs is no text, so the compiler cannot be run with it. It
is run with a mark at the joints instead, and the separator is put there afterwards. That is right
because the mark is a line break: nothing that is read off a line holds one, so the marks in the
output are the joints and nothing else. For a separator that is a text, the two ways are one.
-/
namespace IndentMarkup

/-! ## Putting the separator in -/

section

variable {separator : Codes}

@[simp] theorem spread_nil : spread separator [] = [] := rfl

@[simp] theorem spread_append (s t : Text) :
    spread separator (s ++ t) = spread separator s ++ spread separator t := by
  simp [spread]

@[simp] theorem spread_jointMark : spread separator [jointMark] = separator := by simp [spread]

/-- Unbroken text holds no joint to be filled. -/
theorem spread_of_unbroken {t : Text} (h : t.Unbroken) : spread separator t = t.codes := by
  induction t with
  | nil => rfl
  | cons c t ih =>
    obtain ⟨hc, ht⟩ := Text.unbroken_cons_iff.mp h
    have hmark : c ≠ jointMark := by
      rintro rfl
      simp [jointMark, Text.isBreak] at hc
    have hstep : spread separator (c :: t) = .char c :: spread separator t := by
      simp [spread, hmark]
    rw [hstep, ih ht]
    rfl

end

/-! ## Joined trees -/

/-- Segments that are unbroken are joined by the mark as by any separator. -/
theorem spread_intercalate (separator : Text) {first : Text} {more : List Text}
    (h : Text.Unbroken ([].intercalate (first :: more))) :
    spread separator.codes ([jointMark].intercalate (first :: more)) =
      Text.codes (separator.intercalate (first :: more)) := by
  induction more generalizing first with
  | nil => simpa using spread_of_unbroken (by simpa using h)
  | cons second more ih =>
    simp only [List.intercalate_cons_cons, Text.unbroken_append_iff] at h
    obtain ⟨⟨hfirst, -⟩, hrest⟩ := h
    simp only [List.intercalate_cons_cons, spread_append, Text.codes_append, spread_jointMark,
      spread_of_unbroken hfirst, ih hrest]

/-- Filling the joints afterwards gives the text that joining gives. -/
theorem UnjoinedLeaf.spread_render (separator : Text) {l : UnjoinedLeaf}
    (h : (l.join []).Unbroken) :
    spread separator.codes (l.join [jointMark]).render = (l.join separator).render.codes := by
  cases l with
  | text first more => exact spread_intercalate separator h
  | literal segments => exact spread_of_unbroken h.render
  | raw markup => exact spread_of_unbroken h.render
  | trailing value => exact spread_of_unbroken h.render

namespace UnjoinedNode

variable (separator : Text)

mutual

/-- A tree renders for all separators, and the rendering for one is that for the mark with the
separator in the mark's place. -/
theorem render_join : ∀ {node : UnjoinedNode},
    (∀ piece ∈ (node.join []).visit, piece.Unbroken) →
    ∃ marked text, (node.join [jointMark]).render = .ok marked ∧
      (node.join separator).render = .ok text ∧ spread separator.codes marked = text.codes
  | .leaf l, h => by
    have hleaf : (l.join []).Unbroken := h (.leaf (l.join [])) (by simp [Node.visit])
    exact ⟨_, _, by simp, by simp, l.spread_render separator hleaf⟩
  | .tag head children inverse, h => by
    simp only [join_tag, Node.visit, List.forall_mem_cons, List.forall_mem_append] at h
    obtain ⟨hhead, hchildren, hbranch⟩ := h
    have hopen : head.Unbroken := hhead
    obtain ⟨body, body', hbody, hbody', heq⟩ := renderAll_join hchildren
    obtain ⟨branch, branch', hother, hother', heq'⟩ := renderBranch_join hbranch
    simp only [join_tag, Node.render, hbody, hbody', hother, hother', List.isEmpty_map,
      Option.isNone_map]
    split
    · split
      · exact ⟨_, _, rfl, rfl, spread_of_unbroken hopen.mustache⟩
      · refine ⟨_, _, rfl, rfl, ?_⟩
        simp only [spread_append, Text.codes_append, heq, heq', spread_of_unbroken hopen.openBlock,
          spread_of_unbroken hopen.closeBlock]
    · refine ⟨_, _, rfl, rfl, ?_⟩
      simp only [spread_append, Text.codes_append, heq, spread_of_unbroken hopen.openTag,
        spread_of_unbroken hopen.closeTag]

theorem renderAll_join : ∀ {nodes : List UnjoinedNode},
    (∀ piece ∈ Node.visitAll (nodes.map (join [])), piece.Unbroken) →
    ∃ marked text, Node.renderAll (nodes.map (join [jointMark])) = .ok marked ∧
      Node.renderAll (nodes.map (join separator)) = .ok text ∧
      spread separator.codes marked = text.codes
  | [], _ => ⟨[], [], by simp⟩
  | node :: rest, h => by
    simp only [List.map_cons, Node.visitAll, List.forall_mem_append] at h
    obtain ⟨first, first', hfirst, hfirst', heq⟩ := render_join h.1
    obtain ⟨others, others', hothers, hothers', heq'⟩ := renderAll_join h.2
    simp only [List.map_cons, Node.renderAll, hfirst, hfirst', hothers, hothers']
    exact ⟨_, _, rfl, rfl, by simp only [spread_append, Text.codes_append, heq, heq']⟩

theorem renderBranch_join : ∀ {inverse : Option (List UnjoinedNode)},
    (∀ piece ∈ Node.visitBranch (inverse.map (List.map (join []))), piece.Unbroken) →
    ∃ marked text, Node.renderBranch (inverse.map (List.map (join [jointMark]))) = .ok marked ∧
      Node.renderBranch (inverse.map (List.map (join separator))) = .ok text ∧
      spread separator.codes marked = text.codes
  | none, _ => ⟨[], [], by simp⟩
  | some nodes, h => by
    obtain ⟨body, body', hbody, hbody', heq⟩ := renderAll_join h
    have hmark : Text.Unbroken elseMark := by decide
    simp only [Option.map_some, Node.renderBranch, hbody, hbody']
    refine ⟨_, _, rfl, rfl, ?_⟩
    simp only [spread_append, Text.codes_append, heq, spread_of_unbroken hmark]

end

end UnjoinedNode

/-! ## Compiling -/

/-- With a separator that is a text, a source compiles to the code points of what the compiler
gives. -/
theorem compileCodes_codes (separator source : Text) :
    compileCodes separator source = (compile separator source).map Text.codes := by
  obtain ⟨result, hresult⟩ := parse_join source
  cases result with
  | error e => simp only [compileCodes, compile, hresult, Except.map]
  | ok tree =>
    have hpieces := pieces_unbroken_of_parse Text.unbroken_nil (hresult [])
    obtain ⟨marked, text, hmarked, htext, heq⟩ := UnjoinedNode.renderAll_join separator hpieces
    simp only [compileCodes, compile, hresult, Except.map, hmarked, htext, heq]

/-- For a separator that is a text, templates are the compiled texts. -/
theorem compileCodes_codes_eq_ok_iff {separator source output : Text} :
    compileCodes separator source = .ok output.codes ↔ compile separator source = .ok output := by
  rw [compileCodes_codes]
  cases compile separator source with
  | error e => simp [Except.map]
  | ok text =>
    simp only [Except.map, Except.ok.injEq]
    exact ⟨Text.codes_inj, congrArg Text.codes⟩

/-- A source has a half dedent or a template, for all separators alike. -/
theorem compileCodes_cases (separator : Codes) (source : Text) :
    (∃ e, compileCodes separator source = .error (.halfDedent e)) ∨
      ∃ output, compileCodes separator source = .ok output := by
  obtain ⟨e, hc⟩ | ⟨text, hc⟩ := compile_cases [jointMark] source
  · exact .inl ⟨e, by rw [compileCodes, hc]; rfl⟩
  · exact .inr ⟨_, by rw [compileCodes, hc]; rfl⟩

/-! ## Opened levels -/

namespace Outline

theorem opens_join (separator separator' : Text) (o : UnjoinedOutline) (line : Line) :
    (o.join separator).opens line = (o.join separator').opens line := by
  obtain ⟨levels, latest⟩ := o
  have hdeep := (isDeeper_join separator levels line.width).trans
    (isDeeper_join separator' levels line.width).symm
  simp only [opens, UnjoinedOutline.join, hdeep]
  cases latest <;> rfl

/-- The levels that are opened do not depend on the separator. -/
theorem openings_join (separator separator' : Text) (o : UnjoinedOutline) (lines : List Line) :
    (o.join separator).openings separator lines =
      (o.join separator').openings separator' lines := by
  induction lines generalizing o with
  | nil => rfl
  | cons line lines ih =>
    obtain ⟨result, hresult⟩ := step_join o line
    simp only [openings, hresult, opens_join separator separator' o line]
    cases result with
    | error e => rfl
    | ok next => simp only [Except.map, ih next]

end Outline

/-- The levels that a source opens are the same for all separators, so that the log of a build, which
is made with the mark, names those of the separator in use. -/
theorem openedLevels_eq (separator separator' source : Text) :
    openedLevels separator source = openedLevels separator' source :=
  Outline.openings_join separator separator' ⟨[], .header .document⟩ (Line.ofSource source)

end IndentMarkup
