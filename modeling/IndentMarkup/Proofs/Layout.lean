import IndentMarkup.Proofs.HalfDedents
import IndentMarkup.Proofs.Rendering
import IndentMarkup.Proofs.TagLines
import Mathlib.Data.Finset.Lattice.Fold
import Mathlib.Order.Lattice.Nat

/-!
# Sources in the same order of widths

Of the widths of a source's lines only the order matters. Two sources with the same contents and
with widths in the same order are both moved onto a third layout, in which every line is as wide as
its two widths together and is numbered by its position. From either side this stretches the
distances between widths, so it is a strictly increasing change of widths, and the two runs are
the same run up to numbers.

A source that is laid out anew, with other blanks around its lines and blank lines put in or left
out, is such a second source.
-/
namespace IndentMarkup

/-- The lines have the same contents, and their widths are in the same order. -/
structure SameOrder (xs ys : List Line) : Prop where
  contents : xs.map (·.content) = ys.map (·.content)
  order : ∀ i < xs.length, ∀ j < xs.length,
    widthAt xs i < widthAt xs j ↔ widthAt ys i < widthAt ys j

namespace SameOrder

variable {xs ys : List Line}

theorem length_eq (h : SameOrder xs ys) : xs.length = ys.length := by
  simpa using congrArg List.length h.contents

theorem symm (h : SameOrder xs ys) : SameOrder ys xs := by
  refine ⟨h.contents.symm, fun i hi j hj => ?_⟩
  rw [← h.length_eq] at hi hj
  exact (h.order i hi j hj).symm

end SameOrder

/-! ## A third layout -/

/-- The width together with the greatest that a line of at most this width has in the other list. -/
def stretch (xs ys : List Line) (w : Nat) : Nat :=
  w + ((Finset.range xs.length).filter fun i => widthAt xs i ≤ w).sup (widthAt ys)

/-- Widths keep their order when they are stretched. -/
theorem strictMono_stretch (xs ys : List Line) : StrictMono (stretch xs ys) := by
  intro v w hvw
  refine Nat.add_lt_add_of_lt_of_le hvw (Finset.sup_mono ?_)
  intro i hi
  rw [Finset.mem_filter] at hi ⊢
  exact ⟨hi.1, Nat.le_trans hi.2 (Nat.le_of_lt hvw)⟩

/-- The width of a line is stretched by its width in the other list. -/
theorem SameOrder.stretch_widthAt {xs ys : List Line} (h : SameOrder xs ys) {i : Nat}
    (hi : i < xs.length) : stretch xs ys (widthAt xs i) = widthAt xs i + widthAt ys i := by
  rw [stretch]
  congr 1
  apply Nat.le_antisymm
  · apply Finset.sup_le
    intro j hj
    rw [Finset.mem_filter, Finset.mem_range] at hj
    have := h.order i hi j hj.1
    omega
  · exact Finset.le_sup (f := widthAt ys) (by simp [hi])

def position (lines : List Line) (number : Nat) : Nat := (lines.map (·.number)).idxOf number

theorem position_eq {lines : List Line} (h : (lines.map (·.number)).Nodup) {i : Nat} {line : Line}
    (hl : lines[i]? = some line) : position lines line.number = i := by
  obtain ⟨hi, rfl⟩ := List.getElem?_eq_some_iff.mp hl
  have hget := h.idxOf_getElem i (by simpa using hi)
  simpa [position] using hget

/-- Lines in the same order have a common layout, to which both are stretched. -/
theorem SameOrder.map_moved_eq {xs ys : List Line} (h : SameOrder xs ys)
    (hx : (xs.map (·.number)).Nodup) (hy : (ys.map (·.number)).Nodup) :
    xs.map (Line.moved (stretch xs ys) (position xs)) =
      ys.map (Line.moved (stretch ys xs) (position ys)) := by
  apply List.ext_getElem (by simp [h.length_eq])
  intro i hi hi'
  have hxi : i < xs.length := by simpa using hi
  have hyi : i < ys.length := by simpa using hi'
  have hwx := h.stretch_widthAt hxi
  have hwy := h.symm.stretch_widthAt hyi
  have hcontent : xs[i].content = ys[i].content := by
    have := congrArg (fun contents => contents[i]?) h.contents
    simpa [hxi, hyi] using this
  have hpx := position_eq hx (List.getElem?_eq_getElem hxi)
  have hpy := position_eq hy (List.getElem?_eq_getElem hyi)
  rw [widthAt_eq (List.getElem?_eq_getElem hxi), widthAt_eq (List.getElem?_eq_getElem hyi)]
    at hwx hwy
  simp only [List.getElem_map, Line.moved, hwx, hwy, hpx, hpy, hcontent, Nat.add_comm]

/-! ## Outcomes -/

/-- Line numbers grow along a source. -/
theorem Line.pairwise_number (number : Nat) (raws : List Text) :
    ((Line.ofPhysicals number raws).map (·.number)).Pairwise (· < ·) := by
  induction raws generalizing number with
  | nil => simp
  | cons raw rest ih =>
    rw [Line.ofPhysicals_cons]
    cases hraw : Line.ofPhysical? number raw with
    | none => exact ih (number + 1)
    | some line =>
      refine List.Pairwise.cons ?_ (ih (number + 1))
      intro later hlater
      obtain ⟨line', hmem, rfl⟩ := List.mem_map.mp hlater
      have hnumber := Line.number_of_ofPhysical? hraw
      have hle := (Line.mem_ofPhysicals hmem).1
      have hlt : line.number < line'.number := by omega
      exact hlt

/-- Lines have the numbers of different physical lines. -/
theorem Line.nodup_number (source : Text) : ((Line.ofSource source).map (·.number)).Nodup :=
  (Line.pairwise_number 1 (Text.physicalLines source)).imp fun h => Nat.ne_of_lt h

/-- The two sources give one document, up to the numbers of its lines, and one text, or both have a
half dedent at the same position of their lines. -/
def SameOutcome (separator s t : Text) : Prop :=
  (∃ as bs text, parse separator s = .ok as ∧ parse separator t = .ok bs ∧
    as.map (Node.renumber fun _ => 0) = bs.map (Node.renumber fun _ => 0) ∧
    compile separator s = .ok text ∧ compile separator t = .ok text) ∨
  ∃ (i : Nat) (x y : Line) (e e' : HalfDedent),
    (Line.ofSource s)[i]? = some x ∧ (Line.ofSource t)[i]? = some y ∧
    compile separator s = .error (.halfDedent e) ∧ e.number = x.number ∧
    compile separator t = .error (.halfDedent e') ∧ e'.number = y.number

theorem Node.unnumber_eq_of_renumber_eq {as bs : List Node} {m n : Nat → Nat}
    (h : as.map (Node.renumber m) = bs.map (Node.renumber n)) :
    as.map (Node.renumber fun _ => 0) = bs.map (Node.renumber fun _ => 0) := by
  have hzero : ∀ (number : Nat → Nat) (nodes : List Node),
      (nodes.map (Node.renumber number)).map (Node.renumber fun _ => 0) =
        nodes.map (Node.renumber fun _ => 0) := by
    intro number nodes
    rw [List.map_map]
    exact List.map_congr_left fun node _ => Node.mapHeads_mapHeads _ _ node
  rw [← hzero m, h, hzero n]

/-- The outcomes of two runs that are the same once moved. -/
theorem sameOutcome_of_sameOrder (separator : Text) {s t : Text}
    (h : SameOrder (Line.ofSource s) (Line.ofSource t)) : SameOutcome separator s t := by
  have hs := Line.nodup_number s
  have ht := Line.nodup_number t
  have hrun := congrArg (Outline.empty.run separator) (h.map_moved_eq hs ht)
  have hmoved : ∀ width number, Outline.empty.moved width number = Outline.empty := fun _ _ => rfl
  rw [← hmoved (stretch (Line.ofSource s) (Line.ofSource t)) (position (Line.ofSource s)),
    Outline.run_moved _ (strictMono_stretch _ _), hmoved,
    ← hmoved (stretch (Line.ofSource t) (Line.ofSource s)) (position (Line.ofSource t)),
    Outline.run_moved _ (strictMono_stretch _ _), hmoved] at hrun
  cases hx : Outline.empty.run separator (Line.ofSource s) with
  | ok o =>
    cases hy : Outline.empty.run separator (Line.ofSource t) with
    | error e => simp [hx, hy, Except.map, Except.mapError] at hrun
    | ok p =>
      rw [hx, hy] at hrun
      have hnodes := congrArg Outline.nodes (Except.ok.inj hrun)
      rw [Outline.nodes_moved, Outline.nodes_moved] at hnodes
      have hsame := Node.unnumber_eq_of_renumber_eq hnodes
      have has : parse separator s = .ok o.nodes := parse_eq_ok_iff.mpr ⟨o, hx, rfl⟩
      have hbs : parse separator t = .ok p.nodes := parse_eq_ok_iff.mpr ⟨p, hy, rfl⟩
      obtain ⟨text, hc, hr⟩ := compile_of_parse has
      refine Or.inl ⟨o.nodes, p.nodes, text, has, hbs, hsame, hc, ?_⟩
      refine compile_eq_ok_iff.mpr ⟨p.nodes, hbs, ?_⟩
      rw [← Node.renderAll_map_renumber (fun _ => 0), ← hsame, Node.renderAll_map_renumber, hr]
  | error e =>
    cases hy : Outline.empty.run separator (Line.ofSource t) with
    | ok p => simp [hx, hy, Except.map, Except.mapError] at hrun
    | error e' =>
      rw [hx, hy] at hrun
      have hnumber := congrArg HalfDedent.number (Except.error.inj hrun)
      obtain ⟨i, x, hxi, -, -, -, hxn, -⟩ := Outline.run_error hx
      obtain ⟨j, y, hyj, -, -, -, hyn, -⟩ := Outline.run_error hy
      have hij : i = j := by
        simpa [HalfDedent.moved, hxn, hyn, position_eq hs hxi, position_eq ht hyj] using hnumber
      subst hij
      exact Or.inr ⟨i, x, y, e, e', hxi, hyj,
        compile_eq_halfDedent_iff.mpr (parse_eq_error_iff.mpr hx), hxn,
        compile_eq_halfDedent_iff.mpr (parse_eq_error_iff.mpr hy), hyn⟩

/-! ## Sources laid out anew -/

/-- Physical lines laid out anew: blank ones come and go, and around the content of the others the
blanks are exchanged for any others, as many in front as the new width says. -/
inductive Relaid (width : Nat → Nat) : List Text → List Text → Prop where
  | nil : Relaid width [] []
  | leave {raw : Text} {xs ys : List Text} : raw.all Text.isBlank = true → Relaid width xs ys →
      Relaid width (raw :: xs) ys
  | put {raw : Text} {xs ys : List Text} : raw.all Text.isBlank = true → Relaid width xs ys →
      Relaid width xs (raw :: ys)
  | line {lead lead' content trail trail' : Text} {xs ys : List Text} :
      lead.all Text.isBlank = true → lead'.all Text.isBlank = true →
      trail.all Text.isBlank = true → trail'.all Text.isBlank = true →
      content ≠ [] → Text.trim content = content → lead'.length = width lead.length →
      Relaid width xs ys →
      Relaid width ((lead ++ content ++ trail) :: xs) ((lead' ++ content ++ trail') :: ys)

theorem Text.trim_surrounded {lead content trail : Text} (hl : lead.all isBlank = true)
    (ht : trail.all isBlank = true) (hne : content ≠ []) (hc : trim content = content) :
    trim (lead ++ content ++ trail) = content := by
  obtain ⟨hstart, hend⟩ := trim_eq_self_iff.mp hc
  have hfirst : trimStart (content ++ trail) = content ++ trail := by
    rw [trimStart_eq_self_iff, List.head?_append_of_ne_nil _ hne]
    exact hstart
  rw [List.append_assoc, trim_append hl, trim, hfirst, trimEnd, List.reverse_append,
    List.dropWhile_append_of_pos (by simpa using ht), ← trimEnd]
  exact trimEnd_eq_self_iff.mpr hend

/-- Blanks around the content change nothing but the width. -/
theorem Line.ofPhysical?_surrounded {lead content trail : Text} (hl : lead.all Text.isBlank = true)
    (ht : trail.all Text.isBlank = true) (hne : content ≠ []) (hc : Text.trim content = content)
    (number : Nat) :
    Line.ofPhysical? number (lead ++ content ++ trail) = some ⟨lead.length, content, number⟩ := by
  have htrim := Text.trim_surrounded hl ht hne hc
  have hstop : ∀ c ∈ (content ++ trail).head?, Text.isBlank c = false := by
    rw [List.head?_append_of_ne_nil _ hne]
    exact (Text.trim_eq_self_iff.mp hc).1
  rw [Line.ofPhysical?_of_trim (by rw [htrim]; exact hne), htrim, List.append_assoc,
    Text.takeWhile_append_stop (by simpa using hl) hstop]

/-- The lines of a source laid out anew have their contents and the new widths. -/
theorem Relaid.ofPhysicals {width : Nat → Nat} {xs ys : List Text} (h : Relaid width xs ys)
    (m n : Nat) :
    (Line.ofPhysicals m xs).map (fun line => (width line.width, line.content)) =
      (Line.ofPhysicals n ys).map (fun line => (line.width, line.content)) := by
  induction h generalizing m n with
  | nil => rfl
  | leave hraw _ ih =>
    rw [Line.ofPhysicals_cons, Line.ofPhysical?_eq_none_iff.mpr hraw]
    exact ih (m + 1) n
  | put hraw _ ih =>
    rw [Line.ofPhysicals_cons, Line.ofPhysical?_eq_none_iff.mpr hraw]
    exact ih m (n + 1)
  | line hl hl' ht ht' hne hc hw _ ih =>
    rw [Line.ofPhysicals_cons, Line.ofPhysicals_cons, Line.ofPhysical?_surrounded hl ht hne hc,
      Line.ofPhysical?_surrounded hl' ht' hne hc]
    simp [hw, ih (m + 1) (n + 1)]

/-- A new layout with growing widths leaves the lines in the same order. -/
theorem Relaid.sameOrder {width : Nat → Nat} {s t : Text}
    (hw : StrictMonoOn width {w | ∃ line ∈ Line.ofSource s, line.width = w})
    (h : Relaid width (Text.physicalLines s) (Text.physicalLines t)) :
    SameOrder (Line.ofSource s) (Line.ofSource t) := by
  have hpairs := h.ofPhysicals 1 1
  have hwidth : ∀ i < (Line.ofSource s).length,
      widthAt (Line.ofSource t) i = width (widthAt (Line.ofSource s) i) := by
    intro i hi
    have hpair := congrArg (fun pairs => (pairs[i]?.map Prod.fst).getD 0) hpairs
    have hs : (Line.ofPhysicals 1 (Text.physicalLines s))[i]? = some (Line.ofSource s)[i] :=
      List.getElem?_eq_getElem hi
    simpa [widthAt, Line.ofSource, hs, Function.comp_def] using hpair.symm
  have hmem : ∀ i < (Line.ofSource s).length,
      widthAt (Line.ofSource s) i ∈ {w | ∃ line ∈ Line.ofSource s, line.width = w} := by
    intro i hi
    exact ⟨(Line.ofSource s)[i], List.getElem_mem hi,
      (widthAt_eq (List.getElem?_eq_getElem hi)).symm⟩
  refine ⟨?_, fun i hi j hj => ?_⟩
  · simpa [Line.ofSource, Function.comp_def] using congrArg (List.map Prod.snd) hpairs
  · rw [hwidth i hi, hwidth j hj, hw.lt_iff_lt (hmem i hi) (hmem j hj)]

/-- Only the order of the widths of its lines, and no blank line or blank behind a line, has an
influence on what a source compiles to or where its half dedent is. -/
theorem outcome_of_layout (separator s t : Text) :
    (SameOrder (Line.ofSource s) (Line.ofSource t) → SameOutcome separator s t) ∧
    ∀ width, StrictMonoOn width {w | ∃ line ∈ Line.ofSource s, line.width = w} →
      Relaid width (Text.physicalLines s) (Text.physicalLines t) → SameOutcome separator s t :=
  ⟨sameOutcome_of_sameOrder separator,
    fun _ hw h => sameOutcome_of_sameOrder separator (h.sameOrder hw)⟩

/-- A helper with a branch, indented by tabs instead of spaces, with blank lines between and blanks
behind, and a half dedent at other widths. -/
theorem outcome_of_layout_tabs :
    SameOutcome defaultSeparator "if x\n  | y\n    z\nelse\n  | w"
      "if x \n\n\t| y\n\t\tz\t\n  \nelse\n\t| w\n" ∧
    SameOutcome defaultSeparator "if\n  | y\n | z" "if\n\t\t\t\t| y\n\n\t| z" := by
  have hrelaid : Relaid (· / 2) (Text.physicalLines "if x\n  | y\n    z\nelse\n  | w")
      (Text.physicalLines "if x \n\n\t| y\n\t\tz\t\n  \nelse\n\t| w\n") := by
    have hlast : Relaid (· / 2) [] [([] : Text)] := .put rfl .nil
    have hw := @Relaid.line _ "  " "\t" "| w" [] [] _ _ rfl rfl rfl rfl (by decide) rfl rfl hlast
    have helse := @Relaid.line _ [] [] "else" [] [] _ _ rfl rfl rfl rfl (by decide) rfl rfl hw
    have hblank : Relaid (· / 2) _ ("  ".toList :: _) := .put rfl helse
    have hz :=
      @Relaid.line _ "    " "\t\t" "z" [] "\t" _ _ rfl rfl rfl rfl (by decide) rfl rfl hblank
    have hy := @Relaid.line _ "  " "\t" "| y" [] [] _ _ rfl rfl rfl rfl (by decide) rfl rfl hz
    have hempty : Relaid (· / 2) _ (([] : Text) :: _) := .put rfl hy
    exact @Relaid.line _ [] [] "if x" [] " " _ _ rfl rfl rfl rfl (by decide) rfl rfl hempty
  have hwidths : StrictMonoOn (· / 2)
      {w | ∃ line ∈ Line.ofSource "if x\n  | y\n    z\nelse\n  | w", line.width = w} := by
    have heven : ∀ line ∈ Line.ofSource "if x\n  | y\n    z\nelse\n  | w", line.width % 2 = 0 := by
      decide
    rintro v ⟨x, hx, rfl⟩ w ⟨y, hy, rfl⟩ hlt
    have hx := heven x hx
    have hy := heven y hy
    simp only
    omega
  have horder : SameOrder (Line.ofSource "if\n  | y\n | z")
      (Line.ofSource "if\n\t\t\t\t| y\n\n\t| z") := ⟨rfl, by decide⟩
  exact ⟨(outcome_of_layout _ _ _).2 _ hwidths hrelaid, (outcome_of_layout _ _ _).1 horder⟩

end IndentMarkup
