import IndentMarkup.Proofs.Concatenation
import IndentMarkup.Proofs.ElementLeads
import IndentMarkup.Proofs.Writing

/-!
# Continued content

When inline content stands on the last line of a source, every deeper line behind it is content of
that line, whatever it looks like and however deep it lies. None of these lines is read: the document
keeps its shape, and only the last of its nodes grows.
-/
namespace IndentMarkup

/-! ## Leaves that go on -/

/-- The leaf with further contents. A literal has each of them as a segment, plain text has the
separator in front of each, and the others have a space there. -/
def Leaf.continued (separator : Text) (contents : List Text) : Leaf → Leaf
  | .literal segments => .literal (segments ++ contents)
  | .raw markup => .raw (markup ++ contents.flatMap (' ' :: ·))
  | .text value => .text (value ++ contents.flatMap (separator ++ ·))
  | .trailing value => .trailing (value ++ contents.flatMap (' ' :: ·))

/-- Lines taken in one by one leave the leaf with all of them. -/
theorem Leaf.extendAll_eq_continued (separator : Text) (contents : List Text) (l : Leaf) :
    l.extendAll separator contents = l.continued separator contents := by
  induction contents generalizing l with
  | nil => cases l <;> simp [extendAll, continued]
  | cons content contents ih =>
    change (l.extend separator content).extendAll separator contents = _
    rw [ih]
    cases l <;> simp [continued]

theorem intercalate_eq_flatMap (separator first : Text) (more : List Text) :
    separator.intercalate (first :: more) = first ++ more.flatMap (separator ++ ·) := by
  induction more generalizing first with
  | nil => simp
  | cons second more ih =>
    rw [List.intercalate_cons_cons, ih, List.flatMap_cons]
    simp only [List.append_assoc]

/-! ## The last node of a document -/

def inlineNode : Option Head → Leaf → Node
  | none, l => .leaf l
  | some head, l => .tag head [.leaf l] none

theorem Latest.nodes_inline (tag : Option Head) (l : Leaf) :
    (Latest.inline tag l).nodes = [inlineNode tag l] := by
  cases tag <;> rfl

/-- Two lists of nodes are the same, but for one node: the last of the list, or of the children or
the branch of the tag that is last there. -/
inductive EndsIn (old new : Node) : List Node → List Node → Prop where
  | last (before : List Node) : EndsIn old new (before ++ [old]) (before ++ [new])
  | body (before : List Node) (head : Head) {children children' : List Node} :
      EndsIn old new children children' →
      EndsIn old new (before ++ [.tag head children none]) (before ++ [.tag head children' none])
  | branch (before : List Node) (head : Head) (children : List Node) {others others' : List Node} :
      EndsIn old new others others' →
      EndsIn old new (before ++ [.tag head children (some others)])
        (before ++ [.tag head children (some others')])

namespace EndsIn

variable {old new : Node} {nodes nodes' : List Node}

theorem append_left (h : EndsIn old new nodes nodes') (front : List Node) :
    EndsIn old new (front ++ nodes) (front ++ nodes') := by
  cases h with
  | last before =>
    rw [← List.append_assoc, ← List.append_assoc]
    exact .last _
  | body before head h =>
    rw [← List.append_assoc, ← List.append_assoc]
    exact .body _ head h
  | branch before head children h =>
    rw [← List.append_assoc, ← List.append_assoc]
    exact .branch _ head children h

/-- What an owner makes of its nodes ends as they do. -/
theorem wrap {late late' : List Node} (h : EndsIn old new late.reverse late'.reverse)
    (owner : Owner) : EndsIn old new (owner.wrap late).reverse (owner.wrap late').reverse := by
  cases owner with
  | document => exact h
  | body head => exact .body [] head h
  | branch head children => exact .branch [] head children h

/-- The node that is last on the innermost level is last in the document. -/
theorem closeAll {late late' : List Node} (h : EndsIn old new late.reverse late'.reverse)
    (levels : List Level) :
    EndsIn old new (Outline.closeAll levels late) (Outline.closeAll levels late') := by
  induction levels generalizing late late' with
  | nil => exact h
  | cons top outer ih =>
    have hlevel : EndsIn old new (late ++ top.nodes).reverse (late' ++ top.nodes).reverse := by
      rw [List.reverse_append, List.reverse_append]
      exact h.append_left _
    exact ih (hlevel.wrap top.owner)

end EndsIn

/-! ## Deeper lines -/

namespace Outline

variable {separator : Text} {levels : List Level} {more : List Line}

/-- Lines deeper than inline content are added to it. -/
theorem run_deeper (hd : ∀ x ∈ more, isDeeper levels x.width = true) (tag : Option Head)
    (l : Leaf) :
    run separator ⟨levels, .inline tag l⟩ more =
      .ok ⟨levels, .inline tag (l.extendAll separator (more.map (·.content)))⟩ := by
  induction more generalizing l with
  | nil => rfl
  | cons x more ih =>
    rw [run_cons, step_of_absorbs (hd x (by simp)) rfl]
    exact ih (fun y hy => hd y (List.mem_cons_of_mem _ hy)) _

/-- Lines deeper than inline content open no level. -/
theorem openings_deeper (hd : ∀ x ∈ more, isDeeper levels x.width = true) (tag : Option Head)
    (l : Leaf) : openings separator ⟨levels, .inline tag l⟩ more = [] := by
  induction more generalizing l with
  | nil => rfl
  | cons x more ih =>
    have hopens : opens ⟨levels, .inline tag l⟩ x = false := by simp [opens]
    rw [openings, step_of_absorbs (hd x (by simp)) rfl]
    simp only [hopens, Bool.false_eq_true, if_false]
    exact ih (fun y hy => hd y (List.mem_cons_of_mem _ hy)) _

/-- The levels opened along two runs, one after the other. -/
theorem openings_append {o o' : Outline} {first : List Line} (h : o.run separator first = .ok o')
    (rest : List Line) :
    o.openings separator (first ++ rest) =
      o.openings separator first ++ o'.openings separator rest := by
  induction first generalizing o with
  | nil =>
    obtain rfl : o = o' := by simpa using h
    rfl
  | cons line first ih =>
    rw [run_cons] at h
    rw [List.cons_append, openings, openings]
    cases hs : o.step separator line with
    | error e => simp [hs, Except.bind] at h
    | ok next =>
      rw [hs] at h
      simp only [ih h]
      split <;> rfl

end Outline

/-! ## Absorbed lines of a longer source -/

section

variable {first : List Line} {i : Nat}

theorem widthAt_append (h : i < first.length) (rest : List Line) :
    widthAt (first ++ rest) i = widthAt first i := by
  rw [widthAt, widthAt, List.getElem?_append_left h]

theorem opaqueAt_append_iff (h : i < first.length) (rest : List Line) :
    OpaqueAt (first ++ rest) i ↔ OpaqueAt first i := by
  rw [OpaqueAt, OpaqueAt, List.getElem?_append_left h]

/-- Whether a line is absorbed depends on the lines up to it. -/
theorem absorbed_append_iff (h : i < first.length) (rest : List Line) :
    Absorbed (first ++ rest) i ↔ Absorbed first i := by
  induction i using Nat.strong_induction_on with
  | _ i ih =>
    rw [absorbed_iff, absorbed_iff]
    refine exists_congr fun j => and_congr_right fun hj => ?_
    have hlt : j < first.length := by omega
    rw [ih j hj hlt, opaqueAt_append_iff hlt, widthAt_append hlt]
    refine and_congr_right fun _ => and_congr_right fun _ => ?_
    refine forall_congr' fun k => forall_congr' fun _ => forall_congr' fun hk => ?_
    rw [widthAt_append (by omega)]

end

/-! ## Sources that end with inline content -/

/-- The last line of the source is not absorbed and holds the leaf, alone or within a tag. -/
structure EndsInline (source : Text) (line : Line) (tag : Option Head) (l : Leaf) : Prop where
  last : (Line.ofSource source).getLast? = some line
  unabsorbed : ¬Absorbed (Line.ofSource source) ((Line.ofSource source).length - 1)
  inline : line.reading.latest = .inline tag l

namespace EndsInline

variable {separator source : Text} {line : Line} {tag : Option Head} {l : Leaf}

/-- A line with inline content leaves the content open on its level. -/
theorem place_eq (h : EndsInline source line tag l) (top : Level) (outer : List Level) :
    Outline.place top outer line = ⟨top :: outer, .inline tag l⟩ := by
  rw [Outline.place_of_reading, h.inline]
  intro he
  have hinline := h.inline
  rw [Line.reading_of_isElse he] at hinline
  simp [Reading.latest] at hinline

/-- The line with the lines in front of it. -/
theorem exists_earlier (h : EndsInline source line tag l) :
    ∃ earlier, Line.ofSource source = earlier ++ [line] ∧
      ¬Absorbed (earlier ++ [line]) earlier.length := by
  obtain ⟨earlier, hlines⟩ := List.getLast?_eq_some_iff.mp h.last
  have hna := h.unabsorbed
  rw [hlines, List.length_append, List.length_singleton, Nat.add_sub_cancel] at hna
  exact ⟨earlier, hlines, hna⟩

/-- The content is what the source leaves open, on a level of the line's width. -/
theorem run_eq (h : EndsInline source line tag l) {o : Outline}
    (hr : Outline.empty.run separator (Line.ofSource source) = .ok o) :
    ∃ top outer, o = ⟨top :: outer, .inline tag l⟩ ∧ top.width = line.width := by
  obtain ⟨earlier, hlines, hna⟩ := h.exists_earlier
  have hhere : (earlier ++ [line])[earlier.length]? = some line := by simp
  rw [hlines, Outline.run_append] at hr
  cases hrun : Outline.empty.run separator earlier with
  | error e => simp [hrun, Except.bind] at hr
  | ok before =>
    have hs : before.step separator line = .ok o := by
      rw [hrun] at hr
      cases hs : before.step separator line with
      | error e => simp [hs, Except.bind, Outline.run_cons] at hr
      | ok next => simpa [hs, Except.bind, Outline.run_cons] using hr
    have hfollows : Outline.Follows (earlier ++ [line]) earlier.length before := by
      refine Outline.run_keeps (I := Outline.Follows (earlier ++ [line])) (.start _) ?_ hrun
      intro n o x o' hf hx hstep
      refine hf.step ?_ hstep
      rwa [List.getElem?_append_left (List.getElem?_eq_some_iff.mp hx).1]
    obtain ⟨hd, hla, -⟩ | ⟨-, owner, -, rfl⟩ | ⟨-, top, outer, hset, rfl⟩ :=
      Outline.step_cases hs
    · exact absurd ((hfollows.absorbed_iff hhere).mpr ⟨hd, hla⟩) hna
    · exact ⟨_, _, h.place_eq _ _, rfl⟩
    · exact ⟨top, outer, h.place_eq _ _, Outline.width_of_settle hset⟩

/-- Deeper lines behind the content are absorbed by it. -/
theorem absorbed (h : EndsInline source line tag l) {more : List Line}
    (hw : ∀ x ∈ more, line.width < x.width) {i : Nat} (hi : (Line.ofSource source).length ≤ i)
    (hlt : i < (Line.ofSource source ++ more).length) :
    Absorbed (Line.ofSource source ++ more) i := by
  obtain ⟨earlier, hlines, hna⟩ := h.exists_earlier
  rw [hlines] at hi hlt ⊢
  have hsize : (earlier ++ [line]).length = earlier.length + 1 := by simp
  have hbefore : earlier.length < (earlier ++ [line]).length := by omega
  have hhere : (earlier ++ [line])[earlier.length]? = some line := by simp
  have hopaque : OpaqueAt (earlier ++ [line]) earlier.length := by
    rw [opaqueAt_iff hhere, ← Reading.latest_absorbs, h.inline]
    rfl
  rw [absorbed_iff]
  refine ⟨earlier.length, by omega, ?_, ?_, ?_⟩
  · rwa [absorbed_append_iff hbefore]
  · rwa [opaqueAt_append_iff hbefore]
  · intro k hk hki
    have hx := List.getElem?_eq_getElem (Nat.lt_of_le_of_lt hki hlt)
    rw [widthAt_append hbefore, widthAt_eq hhere, widthAt_eq hx]
    apply hw
    rw [List.getElem_append_right (by omega)]
    exact List.getElem_mem _

end EndsInline

/-! ## Documents that go on -/

theorem content_laterLines (a b : Text) :
    (laterLines a b).map (·.content) = (Line.ofSource b).map (·.content) := by
  rw [laterLines, List.map_map]
  rfl

theorem lt_width_of_mem_laterLines {a b : Text} {w : Nat}
    (h : ∀ x ∈ Line.ofSource b, w < x.width) : ∀ x ∈ laterLines a b, w < x.width := by
  intro x hx
  obtain ⟨y, hy, rfl⟩ := List.mem_map.mp hx
  exact h y hy

section

variable {separator source body : Text} {tag : Option Head} {l : Leaf} {top : Level}
  {outer : List Level}

theorem isDeeper_laterLines (hw : ∀ x ∈ Line.ofSource body, top.width < x.width) :
    ∀ x ∈ laterLines source body, Outline.isDeeper (top :: outer) x.width = true := by
  intro x hx
  exact decide_eq_true (lt_width_of_mem_laterLines hw x hx)

/-- Deeper lines behind inline content all become part of its leaf. -/
theorem run_continued
    (hr : Outline.empty.run separator (Line.ofSource source) = .ok ⟨top :: outer, .inline tag l⟩)
    (hw : ∀ x ∈ Line.ofSource body, top.width < x.width) :
    Outline.empty.run separator (Line.ofSource (source ++ '\n' :: body)) =
      .ok ⟨top :: outer,
        .inline tag (l.continued separator ((Line.ofSource body).map (·.content)))⟩ := by
  rw [run_joined hr, Outline.run_deeper (isDeeper_laterLines hw), content_laterLines,
    Leaf.extendAll_eq_continued]

/-- Behind inline content, deeper lines make that content longer and change nothing else. -/
theorem EndsInline.parse_eq {line : Line} (h : EndsInline source line tag l) {nodes : List Node}
    (hp : parse separator source = .ok nodes)
    (hw : ∀ x ∈ Line.ofSource body, line.width < x.width) :
    ∃ nodes', parse separator (source ++ '\n' :: body) = .ok nodes' ∧
      EndsIn (inlineNode tag l)
        (inlineNode tag (l.continued separator ((Line.ofSource body).map (·.content))))
        nodes nodes' ∧
      openedLevels separator (source ++ '\n' :: body) = openedLevels separator source := by
  obtain ⟨o, hr, rfl⟩ := parse_eq_ok_iff.mp hp
  obtain ⟨top, outer, rfl, htop⟩ := h.run_eq hr
  rw [← htop] at hw
  refine ⟨_, parse_eq_ok_iff.mpr ⟨_, run_continued hr hw, rfl⟩, ?_, ?_⟩
  · rw [Outline.nodes, Outline.nodes, Latest.nodes_inline, Latest.nodes_inline]
    exact EndsIn.closeAll (.last []) (top :: outer)
  · rw [openedLevels, openedLevels, ofSource_joined, ← laterLines, Outline.openings_append hr,
      Outline.openings_deeper (isDeeper_laterLines hw), List.append_nil]

/-- A literal at column zero comes out with the deeper lines behind it, a space in front of each. -/
theorem compile_literal {t : Text} (hu : t.Unbroken) (ht : Text.trimEnd t = t)
    (hw : ∀ x ∈ Line.ofSource body, 0 < x.width) :
    compile separator ('|' :: ' ' :: t ++ '\n' :: body) =
      .ok (t ++ ((Line.ofSource body).map (·.content)).flatMap (' ' :: ·)) := by
  have hread : (Line.mk 0 (Text.trim ('|' :: ' ' :: t)) 1).reading = .leaf (.literal [t]) := by
    have hmoved := Line.moved_reading (fun _ => 1) id (WrittenLine.mk 0 ('|' :: ' ' :: t)).line
    rw [WrittenLine.reading_literal ht] at hmoved
    exact hmoved
  have hbar : Text.isBlank '|' = false := rfl
  have hunbroken : Text.Unbroken ('|' :: ' ' :: t) :=
    Text.unbroken_cons_iff.mpr ⟨rfl, Text.unbroken_cons_iff.mpr ⟨rfl, hu⟩⟩
  have hfirst : Outline.empty.run separator (Line.ofSource ('|' :: ' ' :: t)) =
      .ok ⟨Outline.ground, .inline none (.literal [t])⟩ := by
    rw [run_line separator hunbroken (by simpa using hbar) (by simp [hbar]), hread]
    rfl
  refine compile_eq_ok_iff.mpr ⟨_, parse_eq_ok_iff.mpr ⟨_, run_continued hfirst hw, rfl⟩, ?_⟩
  refine Node.renderAll_cons_eq_ok_iff.mpr ⟨_, [], Node.render_leaf _, Node.renderAll_nil, ?_⟩
  rw [List.append_nil]
  exact intercalate_eq_flatMap [' '] t ((Line.ofSource body).map (·.content))

end

/-- Where a source ends with inline content that is not absorbed, deeper lines behind it are added
to the content, one after another and as they stand, whatever they look like. The document is the
same but for that content, no level is opened, and every one of the lines is absorbed. A literal at
column zero is written with a space between all its lines. -/
theorem parse_continued (separator : Text) :
    (∀ (source body : Text) (nodes : List Node) (line : Line) (tag : Option Head) (l : Leaf),
      parse separator source = .ok nodes → EndsInline source line tag l →
      (∀ x ∈ Line.ofSource body, line.width < x.width) →
      let contents := (Line.ofSource body).map (·.content)
      let longer := source ++ '\n' :: body
      ∃ nodes', parse separator longer = .ok nodes' ∧
        EndsIn (inlineNode tag l) (inlineNode tag (l.continued separator contents)) nodes nodes' ∧
        openedLevels separator longer = openedLevels separator source ∧
        ∀ i, (Line.ofSource source).length ≤ i → i < (Line.ofSource longer).length →
          Absorbed (Line.ofSource longer) i) ∧
    ∀ t body : Text, t.Unbroken → Text.trimEnd t = t → (∀ x ∈ Line.ofSource body, 0 < x.width) →
      compile separator ('|' :: ' ' :: t ++ '\n' :: body) =
        .ok (t ++ ((Line.ofSource body).map (·.content)).flatMap (' ' :: ·)) := by
  refine ⟨?_, fun t body hu ht hw => compile_literal hu ht hw⟩
  intro source body nodes line tag l hp h hw contents longer
  obtain ⟨nodes', hparse, hends, hopened⟩ := h.parse_eq hp hw
  refine ⟨nodes', hparse, hends, hopened, ?_⟩
  intro i hi hlt
  rw [ofSource_joined] at hlt ⊢
  exact h.absorbed (lt_width_of_mem_laterLines hw) hi hlt

/-- A paragraph with an expression, in the branch of a helper. -/
def branchedExpression : Text := "if a\n  | x\nelse\n  %p= t"

def branchedParagraph (l : Leaf) : Node := inlineNode (some ⟨"p", [], false, [], 4⟩) l

theorem ofSource_branchedExpression :
    Line.ofSource branchedExpression =
      [⟨0, "if a", 1⟩, ⟨2, "| x", 2⟩, ⟨0, "else", 3⟩] ++ [⟨2, "%p= t", 4⟩] := rfl

theorem endsInline_branchedExpression :
    EndsInline branchedExpression ⟨2, "%p= t", 4⟩ (some ⟨"p", [], false, [], 4⟩)
      (.text "\x7b\x7bt\x7d\x7d") := by
  have hlead : Lead.Valid ⟨.explicit "p", []⟩ := ⟨by decide, by decide, by decide⟩
  refine ⟨by rw [ofSource_branchedExpression]; rfl, ?_, ?_⟩
  · rw [ofSource_branchedExpression, absorbed_iff]
    rintro ⟨j, hj, -, ⟨line, hline, hopaque⟩, hw⟩
    -- the literal is shut by the line behind it, and the other two take nothing in
    match j, hj with
    | 0, _ =>
      obtain rfl := Option.some.inj hline
      exact absurd hopaque (by decide)
    | 1, _ => exact absurd (hw 2 (by decide) (by decide)) (by decide)
    | 2, _ =>
      obtain rfl := Option.some.inj hline
      exact absurd hopaque (by decide)
  · have hunmarked : (Line.mk 2 "%p= t" 4).reading = readUnmarked 4 "%p= t" := rfl
    have htag : readTag? 4 "%p= t" =
        some ⟨⟨"p", [], false, [], 4⟩, some (.text "\x7b\x7bt\x7d\x7d")⟩ :=
      hlead.readTag?_glued 4 " t"
    rw [hunmarked, readUnmarked, htag]
    rfl

theorem parse_branchedExpression (separator : Text) :
    parse separator branchedExpression =
      .ok [.tag ⟨"if", [], true, "a", 1⟩ [.leaf (.literal ["x"])]
        (some [branchedParagraph (.text "\x7b\x7bt\x7d\x7d")])] := by
  let owner : Owner := .branch ⟨"if", [], true, "a", 1⟩ [.leaf (.literal ["x"])]
  have hfirst : Outline.empty.run separator [⟨0, "if a", 1⟩, ⟨2, "| x", 2⟩, ⟨0, "else", 3⟩] =
      .ok ⟨Outline.ground, .header owner⟩ := rfl
  have hlast : Outline.step separator ⟨Outline.ground, .header owner⟩ ⟨2, "%p= t", 4⟩ =
      .ok ⟨⟨2, owner, []⟩ :: Outline.ground, .inline (some ⟨"p", [], false, [], 4⟩)
        (.text "\x7b\x7bt\x7d\x7d")⟩ := by
    rw [Outline.step_of_header rfl, endsInline_branchedExpression.place_eq]
  have hrun := Outline.run_append separator Outline.empty
    [⟨0, "if a", 1⟩, ⟨2, "| x", 2⟩, ⟨0, "else", 3⟩] [⟨2, "%p= t", 4⟩]
  rw [hfirst] at hrun
  exact parse_eq_ok_iff.mpr ⟨_, hrun.trans (Outline.run_single hlast), rfl⟩

/-- Lines that look like a literal, an `else` and a comment go into the paragraph. -/
theorem parse_continued_branchedExpression :
    let body : Text := "   | y\n      else\n    / z"
    (∃ nodes nodes', parse ['-'] branchedExpression = .ok nodes ∧
      parse ['-'] (branchedExpression ++ '\n' :: body) = .ok nodes' ∧
      EndsIn (branchedParagraph (.text "\x7b\x7bt\x7d\x7d"))
        (branchedParagraph (.text "\x7b\x7bt\x7d\x7d-| y-else-/ z")) nodes nodes' ∧
      openedLevels ['-'] (branchedExpression ++ '\n' :: body) =
        openedLevels ['-'] branchedExpression ∧
      ∀ i, 4 ≤ i → i < 7 → Absorbed (Line.ofSource (branchedExpression ++ '\n' :: body)) i) ∧
    compile ['-'] ('|' :: ' ' :: "t" ++ '\n' :: body) = .ok "t | y else / z" := by
  intro body
  have hparse := parse_branchedExpression ['-']
  have hwide : ∀ x ∈ Line.ofSource body, 2 < x.width := by decide
  have hcontinued := (parse_continued ['-']).1 _ body _ _ _ _ hparse
    endsInline_branchedExpression hwide
  obtain ⟨nodes', hlonger, hends, hopened, habsorbed⟩ := hcontinued
  refine ⟨⟨_, nodes', hparse, hlonger, hends, hopened, habsorbed⟩, ?_⟩
  exact (parse_continued ['-']).2 "t" body (by decide) (by decide) (by decide)

end IndentMarkup
