import IndentMarkup.Proofs.TagLines

/-!
# Sources below a header

A source put below a header line, shifted to the right, gives the tree it gives alone, now as the
children of the header's tag; below an `else` it gives the branch. The outlines of the two runs
differ in what stands beneath: the source alone grows from the document, the nested one from an
owner on levels that lie further out.
-/
namespace IndentMarkup

namespace Outline

/-! ## Runs on top of other levels -/

/-- The second stack is the first on top of other levels: the owner has taken the place of the
document, and everything grown from it lies deeper than the floor. -/
def SeatedLevels (floor : Nat) (owner : Owner) (base levels levels' : List Level) : Prop :=
  ∃ inner w nodes, levels = inner ++ [⟨w, .document, nodes⟩] ∧
    levels' = inner ++ ⟨w, owner, nodes⟩ :: base ∧ (∀ l ∈ inner, floor < l.width) ∧ floor < w

/-- The second outline is the first with the owner and the levels below it in place of the
document. -/
inductive Seated (floor : Nat) (owner : Owner) (base : List Level) : Outline → Outline → Prop where
  | start : Seated floor owner base empty ⟨base, .header owner⟩
  | grown {levels levels' : List Level} (latest : Latest) :
      SeatedLevels floor owner base levels levels' →
      Seated floor owner base ⟨levels, latest⟩ ⟨levels', latest⟩

/-- Two outcomes agree: in their results, or in the line that their errors are about. -/
def Agree {α β : Type} (R : α → β → Prop) : Except HalfDedent α → Except HalfDedent β → Prop
  | .ok a, .ok b => R a b
  | .error e, .error e' => e'.number = e.number
  | _, _ => False

theorem Agree.of_ok {α β : Type} {R : α → β → Prop} {a : α} {y : Except HalfDedent β}
    (h : Agree R (.ok a) y) : ∃ b, y = .ok b ∧ R a b := by
  cases y with
  | error e => exact h.elim
  | ok b => exact ⟨b, rfl, h⟩

theorem Agree.of_error {α β : Type} {R : α → β → Prop} {e : HalfDedent} {y : Except HalfDedent β}
    (h : Agree R (.error e) y) : ∃ e', y = .error e' ∧ e'.number = e.number := by
  cases y with
  | error e' => exact ⟨e', rfl, h⟩
  | ok b => exact h.elim

theorem Agree.map {α β γ δ : Type} {R : α → β → Prop} {S : γ → δ → Prop} {f : α → γ} {g : β → δ}
    {x : Except HalfDedent α} {y : Except HalfDedent β} (h : Agree R x y)
    (hf : ∀ a b, R a b → S (f a) (g b)) : Agree S (x.map f) (y.map g) := by
  cases x with
  | error e =>
    obtain ⟨e', rfl, hn⟩ := h.of_error
    exact hn
  | ok a =>
    obtain ⟨b, rfl, hr⟩ := h.of_ok
    exact hf a b hr

/-- Outlines that agree after every step agree after a run. -/
theorem run_agree {R : Outline → Outline → Prop} {separator : Text} {lines : List Line}
    (next : ∀ line ∈ lines, ∀ o o', R o o' →
      Agree R (o.step separator line) (o'.step separator line))
    {o o' : Outline} (h : R o o') : Agree R (o.run separator lines) (o'.run separator lines) := by
  induction lines generalizing o o' with
  | nil => exact h
  | cons line lines ih =>
    have hs := next line (by simp) o o' h
    rw [run, run]
    cases hx : o.step separator line with
    | error e =>
      rw [hx] at hs
      obtain ⟨e', hy, hn⟩ := hs.of_error
      rw [hy]
      exact hn
    | ok o₁ =>
      rw [hx] at hs
      obtain ⟨o₁', hy, h₁⟩ := hs.of_ok
      rw [hy]
      exact ih (fun line' hm => next line' (by simp [hm])) h₁

section

variable {floor : Nat} {owner : Owner} {base levels levels' : List Level} {line : Line}

namespace SeatedLevels

theorem bottom (w : Nat) (hw : floor < w) :
    SeatedLevels floor owner base [⟨w, .document, []⟩] (⟨w, owner, []⟩ :: base) :=
  ⟨[], w, [], rfl, rfl, by simp, hw⟩

theorem push (h : SeatedLevels floor owner base levels levels') (top : Level)
    (ht : floor < top.width) : SeatedLevels floor owner base (top :: levels) (top :: levels') := by
  obtain ⟨inner, w, nodes, rfl, rfl, hi, hw⟩ := h
  refine ⟨top :: inner, w, nodes, rfl, rfl, ?_, hw⟩
  simpa using ⟨ht, hi⟩

/-- The same widths are deeper than both stacks. -/
theorem isDeeper_eq (h : SeatedLevels floor owner base levels levels') (w : Nat) :
    isDeeper levels' w = isDeeper levels w := by
  obtain ⟨inner, w', nodes, rfl, rfl, -, -⟩ := h
  cases inner <;> rfl

/-- The innermost levels hold the same nodes, and stay alike when these are exchanged. -/
theorem top {t t' : Level} (h : SeatedLevels floor owner base (t :: levels) (t' :: levels')) :
    t'.nodes = t.nodes ∧ ∀ nodes, SeatedLevels floor owner base
      ({ t with nodes := nodes } :: levels) ({ t' with nodes := nodes } :: levels') := by
  obtain ⟨inner, w, old, hl, hl', hi, hw⟩ := h
  cases inner with
  | nil =>
    obtain ⟨rfl, rfl⟩ := List.cons.inj hl
    obtain ⟨rfl, rfl⟩ := List.cons.inj hl'
    exact ⟨rfl, fun nodes => ⟨[], w, nodes, rfl, rfl, by simp, hw⟩⟩
  | cons first inner =>
    obtain ⟨rfl, rfl⟩ := List.cons.inj hl
    obtain ⟨rfl, rfl⟩ := List.cons.inj hl'
    refine ⟨rfl, fun nodes => ⟨{ t' with nodes := nodes } :: inner, w, old, rfl, rfl, ?_, hw⟩⟩
    simpa using hi

theorem place {t t' : Level} (h : SeatedLevels floor owner base (t :: levels) (t' :: levels')) :
    Seated floor owner base (place t levels line) (place t' levels' line) := by
  obtain ⟨hn, hs⟩ := h.top
  have hb : branch? t' = branch? t := by simp only [branch?, hn]
  obtain ⟨he, o, before, hbr, hp⟩ | ⟨hno, hp⟩ := place_cases t levels line
  · rw [hp, place_of_branch he (hb.trans hbr)]
    exact .grown _ (hs before)
  · rw [hp, place_of_reading fun he => hb.trans (hno he)]
    exact .grown _ h

end SeatedLevels

/-- A line deeper than all levels settles on none of them. -/
theorem settle_of_isDeeper (h : isDeeper levels line.width = true) (late : List Node) :
    ∃ e, settle line levels late = .error e ∧ e.number = line.number := by
  cases levels with
  | nil => exact ⟨_, rfl, rfl⟩
  | cons top outer =>
    have hw : top.width < line.width := by simpa [isDeeper] using h
    rw [settle_cons, if_neg (by omega), if_neg (by omega)]
    exact ⟨_, rfl, rfl⟩

/-- A line settles on the same level of both stacks, or on none: what lies beneath the document's
place is narrower than every line. -/
theorem SeatedLevels.settle (h : SeatedLevels floor owner base levels levels')
    (hb : isDeeper base line.width = true) (late : List Node) :
    Agree (fun found found' => SeatedLevels floor owner base (found.1 :: found.2)
        (found'.1 :: found'.2))
      (settle line levels late) (settle line levels' late) := by
  obtain ⟨inner, w, nodes, rfl, rfl, hi, hw⟩ := h
  induction inner generalizing late with
  | nil =>
    rw [List.nil_append, List.nil_append, settle_cons, settle_cons]
    by_cases h₁ : line.width < w
    · obtain ⟨e, he, hn⟩ := settle_of_isDeeper hb (owner.wrap (late ++ nodes))
      rw [if_pos h₁, if_pos h₁, he]
      exact hn
    · rw [if_neg h₁, if_neg h₁]
      by_cases h₂ : w = line.width
      · rw [if_pos h₂, if_pos h₂]
        exact ⟨[], w, late ++ nodes, rfl, rfl, by simp, hw⟩
      · rw [if_neg h₂, if_neg h₂]
        rfl
  | cons top inner ih =>
    have hin : ∀ l ∈ inner, floor < l.width := fun l hl => hi l (by simp [hl])
    rw [List.cons_append, List.cons_append, settle_cons, settle_cons]
    by_cases h₁ : line.width < top.width
    · rw [if_pos h₁, if_pos h₁]
      exact ih _ hin
    · rw [if_neg h₁, if_neg h₁]
      by_cases h₂ : top.width = line.width
      · rw [if_pos h₂, if_pos h₂]
        exact push ⟨inner, w, nodes, rfl, rfl, hin, hw⟩ _ (hi top (by simp))
      · rw [if_neg h₂, if_neg h₂]
        rfl

namespace Seated

variable {o o' : Outline}

/-- One more line that lies deeper than the floor. -/
theorem step (separator : Text) (h : Seated floor owner base o o')
    (hb : ∀ l ∈ base, l.width ≤ floor) (hl : floor < line.width) :
    Agree (Seated floor owner base) (o.step separator line) (o'.step separator line) := by
  have hbase : isDeeper base line.width = true := by
    cases base with
    | nil => rfl
    | cons bottom outer =>
      have := hb bottom (by simp)
      simp only [isDeeper, decide_eq_true_eq]
      omega
  cases h with
  | start =>
    rw [step_of_header hbase]
    exact (SeatedLevels.bottom line.width hl).place
  | grown latest hs =>
    rename_i levels levels'
    have hd := hs.isDeeper_eq line.width
    cases h : isDeeper levels line.width with
    | true =>
      rw [h] at hd
      cases latest with
      | comment => rw [step_of_absorbs h rfl, step_of_absorbs hd rfl]; exact .grown _ hs
      | inline tag leaf => rw [step_of_absorbs h rfl, step_of_absorbs hd rfl]; exact .grown _ hs
      | header o =>
        rw [step_of_header h, step_of_header hd]
        exact (hs.push ⟨line.width, o, []⟩ hl).place
    | false =>
      rw [h] at hd
      rw [step_of_not_deeper h, step_of_not_deeper hd]
      exact (hs.settle hbase latest.nodes).map fun _ _ hf => hf.place

/-- Every run keeps the two outlines alike. -/
theorem run (separator : Text) (h : Seated floor owner base o o') (hb : ∀ l ∈ base, l.width ≤ floor)
    (lines : List Line) (hl : ∀ line ∈ lines, floor < line.width) :
    Agree (Seated floor owner base) (o.run separator lines) (o'.run separator lines) :=
  run_agree (fun line hm _ _ hs => hs.step separator hb (hl line hm)) h

/-- Closed down to the levels beneath, the second outline leaves the owner with the document that
the first one holds. -/
theorem leaves (h : Seated floor owner base o o') :
    Leaves o' floor (owner.wrap o.nodes.reverse) base := by
  cases h with
  | start => exact ⟨[], rfl, by simp, rfl⟩
  | grown latest hs =>
    obtain ⟨inner, w, nodes, rfl, rfl, hi, hw⟩ := hs
    refine ⟨inner ++ [⟨w, owner, nodes⟩], by simp, ?_, ?_⟩
    · intro l hl
      rcases List.mem_append.mp hl with hl | hl
      · exact hi l hl
      · rw [List.mem_singleton.mp hl]
        exact hw
    · simp [Outline.nodes, closeAll_eq_collapse, collapse_append]

end Seated

end

/-! ## Lines below an owner at column zero -/

/-- The document's own level at column zero, without nodes. -/
def ground : List Level := [⟨0, .document, []⟩]

section

variable {separator source : Text} {columns : Nat}

/-- The run of a shifted source below an owner agrees with the run of the source alone. -/
theorem run_shiftedLines (separator source : Text) (hc : 1 ≤ columns) (owner : Owner) (d : Nat) :
    Agree (Seated 0 owner ground)
      (((empty.run separator (Line.ofSource source)).map (moved (· + columns) (· + d))).mapError
        (HalfDedent.moved (· + columns) (· + d)))
      (run separator ⟨ground, .header owner⟩ (shiftedLines columns d source)) := by
  have hm : StrictMono (· + columns) := fun _ _ h => Nat.add_lt_add_right h columns
  rw [← run_moved (· + d) hm]
  refine Seated.run separator .start (by simp [ground]) (shiftedLines columns d source) ?_
  intro line hl
  obtain ⟨old, -, rfl⟩ := List.mem_map.mp hl
  simp only [Line.moved_width]
  omega

/-- Below an owner, a shifted source grows the document it has alone. -/
theorem run_below_ok {nodes : List Node} (hc : 1 ≤ columns) (owner : Owner) (d : Nat)
    (h : parse separator source = .ok nodes) :
    ∃ o o', run separator ⟨ground, .header owner⟩ (shiftedLines columns d source) = .ok o' ∧
      Seated 0 owner ground o o' ∧ o.nodes = nodes.map (Node.renumber (· + d)) := by
  obtain ⟨o, hr, rfl⟩ := parse_eq_ok_iff.mp h
  have ha := run_shiftedLines separator source hc owner d
  rw [hr] at ha
  obtain ⟨o', hr', hs⟩ := ha.of_ok
  exact ⟨o.moved (· + columns) (· + d), o', hr', hs, nodes_moved (· + columns) (· + d) o⟩

theorem run_below_error {e : HalfDedent} (hc : 1 ≤ columns) (owner : Owner) (d : Nat)
    (h : parse separator source = .error e) :
    ∃ e', run separator ⟨ground, .header owner⟩ (shiftedLines columns d source) = .error e' ∧
      e'.number = e.number + d := by
  have ha := run_shiftedLines separator source hc owner d
  rw [parse_eq_error_iff.mp h] at ha
  exact ha.of_error

end

end Outline

/-! ## Headers -/

/-- A line at column zero that alone makes one tag without children. -/
structure Header (separator H : Text) (head : Head) : Prop where
  unbroken : ∀ c ∈ H, Text.isBreak c = false
  flush : ∀ c ∈ H.head?, Text.isBlank c = false
  parses : parse separator H = .ok [.tag head [] none]

/-- A source shifted to the right below a line. -/
def below (H : Text) (columns : Nat) (a : Text) : Text := H ++ '\n' :: Text.shift columns a

/-- Two sources shifted to the right, one below a line and the other below an `else` after it. -/
def belowElse (H : Text) (k : Nat) (a : Text) (m : Nat) (b : Text) : Text :=
  (below H k a ++ '\n' :: Line.elseWord) ++ '\n' :: Text.shift m b

def elseNumber (H : Text) (k : Nat) (a : Text) : Nat :=
  (Text.physicalLines (below H k a ++ '\n' :: Line.elseWord)).length

open Outline (ground)

theorem Node.render_element {head : Head} {children : List Node} {inverse : Option (List Node)}
    {text : Text} (hh : head.helper = false) (ht : renderAll children = .ok text) :
    renderAll [.tag head children inverse] = .ok (head.openTag ++ text ++ head.closeTag) := by
  simp [renderAll, render, hh, ht, bind, Except.bind, pure, Except.pure]

theorem Node.render_block {head : Head} {children : List Node} {text : Text}
    (hh : head.helper = true) (hne : children ≠ []) (ht : renderAll children = .ok text) :
    renderAll [.tag head children none] = .ok (head.openBlock ++ text ++ head.closeBlock) := by
  simp [renderAll, render, hh, ht, hne, bind, Except.bind, pure, Except.pure]

theorem Node.render_branched {head : Head} {children others : List Node} {text other : Text}
    (hh : head.helper = true) (ht : renderAll children = .ok text)
    (ho : renderAll others = .ok other) :
    renderAll [.tag head children (some others)] =
      .ok (head.openBlock ++ text ++ elseMark ++ other ++ head.closeBlock) := by
  simp [renderAll, render, renderBranch, hh, ht, ho, bind, Except.bind, pure, Except.pure]

section

variable {H : Text}

theorem ofSource_unbroken (hu : ∀ c ∈ H, Text.isBreak c = false) :
    Line.ofSource H = (Line.ofPhysical? 1 H).toList := by
  rw [Line.ofSource, Text.physicalLines_unbroken hu, Line.ofPhysicals_cons]
  simp

theorem ofSource_of_isBlank (hu : ∀ c ∈ H, Text.isBreak c = false)
    (hb : H.all Text.isBlank = true) : Line.ofSource H = [] := by
  rw [ofSource_unbroken hu, Line.ofPhysical?_eq_none_iff.mpr hb]
  rfl

/-- One line at column zero is alone on its level. -/
theorem run_line (separator : Text) (hu : ∀ c ∈ H, Text.isBreak c = false)
    (hf : ∀ c ∈ H.head?, Text.isBlank c = false) (hb : H.all Text.isBlank = false) :
    Outline.empty.run separator (Line.ofSource H) =
      .ok ⟨ground, (Line.mk 0 (Text.trim H) 1).reading.latest⟩ := by
  have hwidth : (H.takeWhile Text.isBlank).length = 0 := by
    cases H with
    | nil => rfl
    | cons c rest => simp [hf c rfl]
  have htrim : Text.trim H ≠ [] := by
    rw [Ne, Text.trim_eq_nil_iff, hb]
    exact Bool.false_ne_true
  rw [ofSource_unbroken hu, Line.ofPhysical?_of_trim htrim, hwidth, Option.toList_some,
    Outline.run, Outline.empty, Outline.step_of_header rfl, Outline.place_of_reading fun _ => rfl]
  rfl

end

namespace Header

variable {separator H a b : Text} {head : Head} {k m : Nat}

theorem length_physicalLines (h : Header separator H head) :
    (Text.physicalLines H).length = 1 := by
  simp [Text.physicalLines_unbroken h.unbroken]

theorem getLast?_ne (h : Header separator H head) : H.getLast? ≠ some '\r' := by
  intro hl
  have := h.unbroken _ (List.mem_of_getLast? hl)
  simp [Text.isBreak] at this

/-- A header leaves its tag open for what stands below it. -/
theorem run (h : Header separator H head) :
    Outline.empty.run separator (Line.ofSource H) = .ok ⟨ground, .header (.body head)⟩ := by
  have hblank : H.all Text.isBlank = false := by
    by_contra hb
    have hnil := ofSource_of_isBlank h.unbroken (by simpa using hb)
    have hp := h.parses
    simp [parse, hnil, Except.map] at hp
  rw [run_line separator h.unbroken h.flush hblank]
  have hn : (Line.mk 0 (Text.trim H) 1).reading.latest.nodes.reverse = [.tag head [] none] := by
    have hp := h.parses
    rw [parse, run_line separator h.unbroken h.flush hblank] at hp
    simpa [Except.map, Outline.nodes, Outline.closeAll, ground] using hp
  -- only a tag line without inline content leaves a tag without children
  cases hread : (Line.mk 0 (Text.trim H) 1).reading with
  | comment => simp [hread, Reading.latest, Latest.nodes] at hn
  | leaf l => simp [hread, Reading.latest, Latest.nodes] at hn
  | tag t =>
    obtain ⟨head', inline⟩ := t
    cases inline with
    | none =>
      obtain rfl : head' = head := by simpa [hread, Reading.latest, Latest.nodes] using hn
      rfl
    | some l => simp [hread, Reading.latest, Latest.nodes] at hn

theorem ofSource_below (h : Header separator H head) (k : Nat) (a : Text) :
    Line.ofSource (below H k a) = Line.ofSource H ++ shiftedLines k 1 a := by
  rw [below, ofSource_append_shift h.getLast?_ne, h.length_physicalLines]

/-- What stands below a header grows from its tag. -/
theorem run_below (h : Header separator H head) (k : Nat) (a : Text) :
    Outline.empty.run separator (Line.ofSource (below H k a)) =
      Outline.run separator ⟨ground, .header (.body head)⟩ (shiftedLines k 1 a) := by
  rw [h.ofSource_below, Outline.run_append, h.run]
  rfl

/-- A source below a header becomes the children of its tag. -/
theorem parse_below (h : Header separator H head) (hk : 1 ≤ k) {nodes : List Node}
    (ha : parse separator a = .ok nodes) :
    parse separator (below H k a) = .ok [.tag head (nodes.map (Node.renumber (· + 1))) none] := by
  obtain ⟨o, o', hr, hs, hn⟩ := Outline.run_below_ok hk (.body head) 1 ha
  refine parse_eq_ok_iff.mpr ⟨o', (h.run_below k a).trans hr, ?_⟩
  rw [hs.leaves.nodes_eq, hn]
  simp [Outline.closeAll, ground]

/-- An error below a header is found one line further on. -/
theorem parse_below_error (h : Header separator H head) (hk : 1 ≤ k) {e : HalfDedent}
    (ha : parse separator a = .error e) :
    ∃ e', parse separator (below H k a) = .error e' ∧ e'.number = e.number + 1 := by
  obtain ⟨e', hr, hn⟩ := Outline.run_below_error hk (.body head) 1 ha
  exact ⟨e', parse_eq_error_iff.mpr ((h.run_below k a).trans hr), hn⟩

/-! ## Branches -/

theorem ofSource_belowElse (H : Text) (k : Nat) (a : Text) (m : Nat) (b : Text) :
    ∃ n, Line.ofSource (belowElse H k a m b) =
      Line.ofSource (below H k a) ++ ⟨0, Line.elseWord, n⟩ ::
        shiftedLines m (elseNumber H k a) b := by
  obtain ⟨n, hn⟩ := Line.ofSource_append_newline (below H k a) Line.elseWord
  refine ⟨n, ?_⟩
  rw [belowElse, elseNumber, ofSource_append_shift (by simp [Line.elseWord]), hn]
  simp [Line.elseWord, Text.physicalLines, Text.isBreak, Line.ofPhysicals, Line.ofPhysical?,
    Text.trim, Text.trimStart, Text.trimEnd, Text.isBlank]

/-- An `else` behind the lines below a helper leaves the helper's branch open. -/
theorem step_else (hh : head.helper = true) {o o' : Outline}
    (hs : Outline.Seated 0 (.body head) ground o o') (n : Nat) :
    o'.step separator ⟨0, Line.elseWord, n⟩ = .ok ⟨ground, .header (.branch head o.nodes)⟩ := by
  have hat : Outline.At 0 .document [] [.tag head o.nodes none] o' := by
    have hl := hs.leaves
    rw [Owner.wrap_body, List.reverse_reverse] at hl
    exact .met hl
  exact hat.step_else hh separator rfl rfl

/-- The `else` below a helper opens its branch, for the second source to go into. -/
theorem run_belowElse (h : Header separator H head) (hh : head.helper = true) (hk : 1 ≤ k)
    {nodes : List Node} (ha : parse separator a = .ok nodes) (m : Nat) (b : Text) :
    Outline.empty.run separator (Line.ofSource (belowElse H k a m b)) =
      Outline.run separator
        ⟨ground, .header (.branch head (nodes.map (Node.renumber (· + 1))))⟩
        (shiftedLines m (elseNumber H k a) b) := by
  obtain ⟨n, hl⟩ := ofSource_belowElse H k a m b
  obtain ⟨o, o', hr, hs, hn⟩ := Outline.run_below_ok hk (.body head) 1 ha
  rw [hl, Outline.run_append, h.run_below, hr, ← hn]
  simp only [Except.bind, Outline.run, step_else hh hs]

/-- Of two sources around an `else`, one becomes the children and one the branch. -/
theorem parse_belowElse (h : Header separator H head) (hh : head.helper = true) (hk : 1 ≤ k)
    (hm : 1 ≤ m) {nodes others : List Node} (ha : parse separator a = .ok nodes)
    (hb : parse separator b = .ok others) :
    parse separator (belowElse H k a m b) =
      .ok [.tag head (nodes.map (Node.renumber (· + 1)))
        (some (others.map (Node.renumber (· + elseNumber H k a))))] := by
  obtain ⟨o, o', hr, hs, hn⟩ := Outline.run_below_ok hm
    (.branch head (nodes.map (Node.renumber (· + 1)))) (elseNumber H k a) hb
  refine parse_eq_ok_iff.mpr ⟨o', (h.run_belowElse hh hk ha m b).trans hr, ?_⟩
  rw [hs.leaves.nodes_eq, hn]
  simp [Outline.closeAll, ground]

/-- An error in the second source is found behind the header, the first source and the `else`. -/
theorem parse_belowElse_error (h : Header separator H head) (hh : head.helper = true) (hk : 1 ≤ k)
    (hm : 1 ≤ m) {nodes : List Node} {e : HalfDedent} (ha : parse separator a = .ok nodes)
    (hb : parse separator b = .error e) :
    ∃ e', parse separator (belowElse H k a m b) = .error e' ∧
      e'.number = e.number + elseNumber H k a := by
  obtain ⟨e', hr, hn⟩ := Outline.run_below_error hm
    (.branch head (nodes.map (Node.renumber (· + 1)))) (elseNumber H k a) hb
  exact ⟨e', parse_eq_error_iff.mpr ((h.run_belowElse hh hk ha m b).trans hr), hn⟩

theorem parse_belowElse_error_left (h : Header separator H head) (hk : 1 ≤ k) {e : HalfDedent}
    (ha : parse separator a = .error e) (m : Nat) (b : Text) :
    ∃ e', parse separator (belowElse H k a m b) = .error e' ∧ e'.number = e.number + 1 := by
  obtain ⟨n, hl⟩ := ofSource_belowElse H k a m b
  obtain ⟨e', hr, hn⟩ := h.parse_below_error hk ha
  refine ⟨e', parse_eq_error_iff.mpr ?_, hn⟩
  rw [hl, Outline.run_append, parse_eq_error_iff.mp hr]
  rfl

/-! ## Compiling what is nested -/

theorem compile_below_element (h : Header separator H head) (hh : head.helper = false)
    (hk : 1 ≤ k) {s : Text} (ha : compile separator a = .ok s) :
    compile separator (below H k a) = .ok (head.openTag ++ s ++ head.closeTag) := by
  obtain ⟨nodes, hp, hr⟩ := compile_eq_ok_iff.mp ha
  refine compile_eq_ok_iff.mpr ⟨_, h.parse_below hk hp, Node.render_element hh ?_⟩
  rw [Node.renderAll_map_renumber, hr]

theorem compile_below_helper (h : Header separator H head) (hh : head.helper = true)
    (hk : 1 ≤ k) {s : Text} {nodes : List Node} (hp : parse separator a = .ok nodes)
    (hne : nodes ≠ []) (ha : compile separator a = .ok s) :
    compile separator (below H k a) = .ok (head.openBlock ++ s ++ head.closeBlock) := by
  obtain ⟨nodes', hp', hr⟩ := compile_eq_ok_iff.mp ha
  obtain rfl : nodes = nodes' := Except.ok.inj (hp.symm.trans hp')
  refine compile_eq_ok_iff.mpr ⟨_, h.parse_below hk hp, Node.render_block hh ?_ ?_⟩
  · simpa using hne
  · rw [Node.renderAll_map_renumber, hr]

/-- The block of a helper with both sources in it. -/
theorem compile_belowElse (h : Header separator H head) (hh : head.helper = true)
    (hk : 1 ≤ k) (hm : 1 ≤ m) {s t : Text} (ha : compile separator a = .ok s)
    (hb : compile separator b = .ok t) :
    compile separator (belowElse H k a m b) =
      .ok (head.openBlock ++ s ++ elseMark ++ t ++ head.closeBlock) := by
  obtain ⟨nodes, hpa, hra⟩ := compile_eq_ok_iff.mp ha
  obtain ⟨others, hpb, hrb⟩ := compile_eq_ok_iff.mp hb
  refine compile_eq_ok_iff.mpr
    ⟨_, h.parse_belowElse hh hk hm hpa hpb, Node.render_branched hh ?_ ?_⟩
  · rw [Node.renderAll_map_renumber, hra]
  · rw [Node.renderAll_map_renumber, hrb]

end Header

/-- A source compiles below a header, at any shift, to what it compiles to alone, between the
header's two ends; with a second source below an `else`, a helper holds both. A half dedent of
either source is met at its line. -/
theorem compile_nested {separator H : Text} {head : Head} (h : Header separator H head)
    {k m : Nat} (hk : 1 ≤ k) (hm : 1 ≤ m) (a b : Text) :
    (∀ s, head.helper = false → compile separator a = .ok s →
      compile separator (below H k a) = .ok (head.openTag ++ s ++ head.closeTag)) ∧
    (∀ s nodes, head.helper = true → parse separator a = .ok nodes → nodes ≠ [] →
      compile separator a = .ok s →
      compile separator (below H k a) = .ok (head.openBlock ++ s ++ head.closeBlock)) ∧
    (∀ s t, head.helper = true → compile separator a = .ok s → compile separator b = .ok t →
      compile separator (belowElse H k a m b) =
        .ok (head.openBlock ++ s ++ elseMark ++ t ++ head.closeBlock)) ∧
    (∀ e, compile separator a = .error (.halfDedent e) →
      (∃ e', compile separator (below H k a) = .error (.halfDedent e') ∧
        e'.number = e.number + 1) ∧
      ∃ e', compile separator (belowElse H k a m b) = .error (.halfDedent e') ∧
        e'.number = e.number + 1) ∧
    ∀ s e, head.helper = true → compile separator a = .ok s →
      compile separator b = .error (.halfDedent e) →
      ∃ e', compile separator (belowElse H k a m b) = .error (.halfDedent e') ∧
        e'.number = e.number + elseNumber H k a := by
  simp only [compile_eq_halfDedent_iff]
  refine ⟨?_, ?_, ?_, ?_, ?_⟩
  · intro s hh ha
    exact h.compile_below_element hh hk ha
  · intro s nodes hh hp hne ha
    exact h.compile_below_helper hh hk hp hne ha
  · intro s t hh ha hb
    exact h.compile_belowElse hh hk hm ha hb
  · intro e ha
    exact ⟨h.parse_below_error hk ha, h.parse_belowElse_error_left hk ha m b⟩
  · intro s e hh ha hb
    obtain ⟨nodes, hp, -⟩ := compile_eq_ok_iff.mp ha
    exact h.parse_belowElse_error hh hk hm hp hb

theorem header_helper : Header defaultSeparator "if x" ⟨"if", [], true, "x", 1⟩ :=
  ⟨by simp [Text.isBreak], by simp [Text.isBlank], rfl⟩

theorem header_element : Header defaultSeparator "%p" ⟨"p", [], false, [], 1⟩ := by
  have hunbroken : ∀ c ∈ ("%p" : Text), Text.isBreak c = false := by simp [Text.isBreak]
  have hflush : ∀ c ∈ ("%p" : Text).head?, Text.isBlank c = false := by simp [Text.isBlank]
  refine ⟨hunbroken, hflush, ?_⟩
  have hread : (Line.mk 0 (Text.trim "%p") 1).reading = readUnmarked 1 "%p" := rfl
  have htag : readTag? 1 "%p" = readElement? 1 "p" (Attributes.text []) := rfl
  rw [parse, run_line defaultSeparator hunbroken hflush rfl, hread, readUnmarked, htag,
    readElement?_text 1 "p" Attributes.writable_nil]
  rfl

/-- A half dedent of the nested source moves down with its line. -/
theorem compile_nested_headers :
    compile defaultSeparator (below "%p" 3 "| y") = .ok "<p>y</p>".toList ∧
    compile defaultSeparator (below "if x" 1 "| y") =
      .ok "\x7b\x7b#if x\x7d\x7dy\x7b\x7b/if\x7d\x7d".toList ∧
    compile defaultSeparator (belowElse "if x" 2 "| y" 1 "| z") =
      .ok "\x7b\x7b#if x\x7d\x7dy\x7b\x7belse\x7d\x7dz\x7b\x7b/if\x7d\x7d".toList ∧
    (∃ e, compile defaultSeparator (below "%p" 3 "if\n  | y\n | z") = .error (.halfDedent e) ∧
      e.number = 4) ∧
    ∃ e, compile defaultSeparator (belowElse "if x" 2 "| y" 1 "if\n  | y\n | z") =
      .error (.halfDedent e) ∧ e.number = 6 := by
  have hone : 1 ≤ 1 := by decide
  have hbad : compile defaultSeparator "if\n  | y\n | z" = .error (.halfDedent ⟨1, [0], 3⟩) := rfl
  have hy : parse defaultSeparator "| y" = .ok [.leaf (.literal ["y"])] := rfl
  refine ⟨?_, ?_, ?_, ?_, ?_⟩
  · exact (compile_nested header_element (k := 3) (by decide) hone "| y" []).1 "y" rfl rfl
  · exact (compile_nested header_helper hone hone "| y" []).2.1 "y" _ rfl hy (by simp) rfl
  · exact (compile_nested header_helper (k := 2) (by decide) hone "| y" "| z").2.2.1
      "y" "z" rfl rfl rfl
  · exact ((compile_nested header_element (k := 3) (by decide) hone _ []).2.2.2.1 _ hbad).1
  · exact (compile_nested header_helper (k := 2) (by decide) hone "| y" _).2.2.2.2
      "y" _ rfl rfl hbad

end IndentMarkup
