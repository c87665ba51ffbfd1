import IndentMarkup.Proofs.Layout

/-!
# Sources without their comments

A comment does take part in the indentation: it closes wider levels, opens a level of its own below
a tag, and ends the text that the line before it was continuing. None of this outlasts the comment.
The next line that it does not take in is at most as wide, so it closes the levels that the comment
left alone, and finds or opens the level on which the comment stood.

So a run over all lines and a run over the lines without the comments are related by `Uncommented`:
they stand at the same outline, or the first stands at a comment on a level whose nodes the second
has too.
-/
namespace IndentMarkup

/-- The line at the position begins with a slash and is not absorbed. -/
def CommentAt (lines : List Line) (i : Nat) : Prop :=
  (∃ line, lines[i]? = some line ∧ line.content.head? = some '/') ∧ ¬Absorbed lines i

/-- The line at the position is a comment, or some comment before it is narrower than every line
after it up to this one. -/
def InComment (lines : List Line) (i : Nat) : Prop :=
  ∃ j, j ≤ i ∧ CommentAt lines j ∧ ∀ k, j < k → k ≤ i → widthAt lines j < widthAt lines k

/-- Comments are the lines that begin with a slash, whatever else stands on them. -/
theorem Line.reading_eq_comment_iff (line : Line) :
    line.reading = .comment ↔ line.content.head? = some '/' := by
  obtain ⟨width, content, number⟩ := line
  unfold Line.reading
  simp only
  split
  · simp
  · simp
  · simp
  · simp
  · simp
  · simp
  · rename_i hslash _
    have hunmarked : readUnmarked number content ≠ .comment := by
      unfold readUnmarked
      cases readTag? number content <;> simp
    cases content with
    | nil => simpa using hunmarked
    | cons c rest =>
      have hc : c ≠ '/' := by
        rintro rfl
        exact hslash rest rfl
      simpa [hc] using hunmarked

section

variable {lines : List Line} {n m : Nat} {line : Line}

theorem commentAt_iff (hl : lines[n]? = some line) :
    CommentAt lines n ↔ line.reading = .comment ∧ ¬Absorbed lines n := by
  simp [CommentAt, hl, Line.reading_eq_comment_iff]

theorem CommentAt.opaqueAt (h : CommentAt lines n) : OpaqueAt lines n := by
  obtain ⟨⟨line, hl, hc⟩, -⟩ := h
  rw [opaqueAt_iff hl, (line.reading_eq_comment_iff).mpr hc]
  rfl

/-- The next line belongs to a comment exactly when it is one, or is absorbed by the last line that
was read and that is one. -/
theorem LastUnabsorbed.inComment_next_iff (h : LastUnabsorbed lines n m) :
    InComment lines n ↔ CommentAt lines n ∨ (CommentAt lines m ∧ Absorbed lines n) := by
  constructor
  · rintro ⟨j, hj, hc, hw⟩
    rcases Nat.lt_or_eq_of_le hj with hlt | rfl
    · have ha : Absorbed lines n := (absorbed_iff lines n).mpr ⟨j, hlt, hc.2, hc.opaqueAt, hw⟩
      have hjm := h.le_of_not_absorbed hlt hc.2
      rcases Nat.lt_or_eq_of_le hjm with hjm | rfl
      · -- otherwise the comment would have absorbed the line at `m` too
        refine absurd ((absorbed_iff lines m).mpr ⟨j, hjm, hc.2, hc.opaqueAt, ?_⟩) h.unabsorbed
        intro k hk hkm
        have := h.before
        exact hw k hk (by omega)
      · exact .inr ⟨hc, ha⟩
    · exact .inl hc
  · rintro (hc | ⟨hc, ha⟩)
    · exact ⟨n, Nat.le_refl n, hc, fun k hk hkn => by omega⟩
    · refine ⟨m, Nat.le_of_lt h.before, hc, ?_⟩
      intro k hk hkn
      rcases Nat.lt_or_eq_of_le hkn with hlt | rfl
      · exact (h.since k hk hlt).2
      · exact (h.absorbed_next_iff.mp ha).2

theorem inComment_zero_iff : InComment lines 0 ↔ CommentAt lines 0 := by
  constructor
  · rintro ⟨j, hj, hc, -⟩
    obtain rfl : j = 0 := by omega
    exact hc
  · intro hc
    exact ⟨0, Nat.le_refl 0, hc, fun k hk hkn => by omega⟩

end

namespace Outline

/-! ## Outlines at a comment -/

theorem place_latest_eq_comment_iff (top : Level) (outer : List Level) (line : Line) :
    (place top outer line).latest = .comment ↔ line.reading = .comment := by
  obtain ⟨he, owner, before, -, hp⟩ | ⟨-, hp⟩ := place_cases top outer line
  · simp [hp, Line.reading_of_isElse he]
  · rw [hp]
    cases line.reading with
    | comment => simp [Reading.latest]
    | leaf leaf => simp [Reading.latest]
    | tag t =>
      obtain ⟨head, inline⟩ := t
      cases inline <;> simp [Reading.latest]

/-- Whether a line is a comment or is dropped by one. -/
def inComment (o : Outline) (line : Line) : Bool :=
  match isDeeper o.levels line.width, o.latest with
  | true, .comment => true
  | true, .inline _ _ => false
  | _, _ => line.reading == .comment

theorem inComment_eq_true_iff (o : Outline) (line : Line) :
    o.inComment line = true ↔
      (line.reading = .comment ∧ ¬(isDeeper o.levels line.width = true ∧ o.latest.absorbs = true)) ∨
        (isDeeper o.levels line.width = true ∧ o.latest = .comment) := by
  obtain ⟨levels, latest⟩ := o
  unfold inComment
  cases isDeeper levels line.width <;> cases latest <;> simp

/-- The outline follows the lines, and its latest line is a comment where theirs is. -/
structure Commented (lines : List Line) (n : Nat) (o : Outline) : Prop where
  follows : Follows lines n o
  comment : ∀ m, LastUnabsorbed lines n m → (o.latest = .comment ↔ CommentAt lines m)

namespace Commented

variable {lines : List Line} {n : Nat} {o o' : Outline} {line : Line} {separator : Text}

theorem start (lines : List Line) : Commented lines 0 empty :=
  ⟨Follows.start lines, fun _ hm => absurd hm.before (by omega)⟩

theorem of_place {top : Level} {outer : List Level} (hl : lines[n]? = some line)
    (ha : ¬Absorbed lines n) (hf : Follows lines (n + 1) (place top outer line)) :
    Commented lines (n + 1) (place top outer line) := by
  refine ⟨hf, ?_⟩
  intro m hm
  obtain rfl : m = n := by
    have hle := hm.le_of_not_absorbed (Nat.lt_succ_self n) ha
    have := hm.before
    omega
  rw [place_latest_eq_comment_iff, commentAt_iff hl]
  simp [ha]

theorem step (h : Commented lines n o) (hl : lines[n]? = some line)
    (hs : o.step separator line = .ok o') : Commented lines (n + 1) o' := by
  have hf := h.follows.step hl hs
  have hread := h.follows.absorbed_iff hl
  obtain ⟨hd, hla, rfl⟩ | ⟨hd, owner, hla, rfl⟩ | ⟨hd, top, outer, hset, rfl⟩ := step_cases hs
  · refine ⟨hf, ?_⟩
    intro m hm
    have ha := hread.mpr ⟨hd, hla⟩
    have hmn : m ≠ n := by
      rintro rfl
      exact hm.unabsorbed ha
    have hbefore := hm.before
    have hm' : LastUnabsorbed lines n m :=
      ⟨by omega, hm.unabsorbed, fun k hk hkn => hm.since k hk (by omega)⟩
    rw [← h.comment m hm']
    cases hlatest : o.latest <;> simp [Latest.absorb]
  · exact of_place hl (by simp [hread, hla]) hf
  · exact of_place hl (by simp [hread, hd]) hf

/-- The outline tells whether the next line belongs to a comment. -/
theorem inComment_iff (h : Commented lines n o) (hl : lines[n]? = some line) :
    InComment lines n ↔ o.inComment line = true := by
  have hread := h.follows.absorbed_iff hl
  rw [inComment_eq_true_iff]
  rcases h.follows.latest with ⟨rfl, rfl⟩ | ⟨m, hm, -⟩
  · rw [inComment_zero_iff, commentAt_iff hl, hread]
    simp [empty]
  · rw [hm.inComment_next_iff, commentAt_iff hl, ← h.comment m hm, hread]
    constructor
    · rintro (hc | ⟨hc, hd, -⟩)
      · exact .inl hc
      · exact .inr ⟨hd, hc⟩
    · rintro (hc | ⟨hd, hc⟩)
      · exact .inl hc
      · exact .inr ⟨hc, hd, by simp [hc]⟩

end Commented

/-! ## Runs with and without comments -/

/-- The second outline is the first, or the first is at a comment on a level whose nodes the second
has too. -/
inductive Uncommented : Outline → Outline → Prop where
  | same (o : Outline) : Uncommented o o
  | comment {width : Nat} {owner : Owner} {outer : List Level} {nodes : List Node} {p : Outline} :
      At width owner outer nodes p → Uncommented ⟨⟨width, owner, nodes⟩ :: outer, .comment⟩ p

namespace Uncommented

variable {o o' p : Outline} {line : Line} {separator : Text}

/-- The comment that one of the outlines is at adds nothing to the document. -/
theorem nodes_eq (h : Uncommented o p) : o.nodes = p.nodes := by
  cases h with
  | same => rfl
  | comment hat =>
    rw [hat.nodes_eq]
    rfl

/-- Closing the level of a comment, and others with it, leaves the nodes that the other outline
leaves. -/
theorem at_settled (h : Uncommented o p) {inner outer : List Level} {base : Level}
    (hlevels : o.levels = inner ++ base :: outer) (hi : ∀ l ∈ inner, base.width < l.width) :
    At base.width base.owner outer (collapse inner o.latest.nodes ++ base.nodes) p := by
  cases h with
  | same => exact .met ⟨inner, hlevels, hi, rfl⟩
  | @comment width owner above nodes _ hat =>
    cases inner with
    | nil =>
      obtain ⟨rfl, rfl⟩ : _ ∧ _ := by simpa using hlevels
      exact hat
    | cons first inner =>
      -- the comment's own level is closed too, and the other outline closes what it has instead
      obtain ⟨rfl, rfl⟩ : _ ∧ _ := by simpa using hlevels
      obtain ⟨deeper, hp, hdeeper, hcollapse⟩ := hat.leaves (hi ⟨width, owner, nodes⟩ (by simp))
      refine .met ⟨deeper ++ inner, by simp [hp], ?_, ?_⟩
      · intro l hl
        rcases List.mem_append.mp hl with hl | hl
        · exact hdeeper l hl
        · exact hi l (List.mem_cons_of_mem _ hl)
      · rw [collapse_append, hcollapse]
        rfl

/-- A line is taken in by the latest one, or is placed on a level whose nodes the other outline has
too. -/
theorem step_cases (h : Uncommented o p) (hs : o.step separator line = .ok o') :
    (isDeeper o.levels line.width = true ∧ o.latest.absorbs = true ∧
      o' = ⟨o.levels, o.latest.absorb separator line.content⟩) ∨
    ¬(isDeeper o.levels line.width = true ∧ o.latest.absorbs = true) ∧
      ∃ owner outer nodes, At line.width owner outer nodes p ∧
        o' = place ⟨line.width, owner, nodes⟩ outer line := by
  obtain habsorbed | ⟨hd, owner, hla, rfl⟩ | ⟨hd, top, outer, hset, rfl⟩ := Outline.step_cases hs
  · exact .inl habsorbed
  · refine .inr ⟨by simp [hla], owner, o.levels, [], ?_, rfl⟩
    cases h with
    | same =>
      obtain ⟨levels, latest⟩ := o
      obtain rfl : latest = .header owner := hla
      exact .fresh hd
    | comment => simp at hla
  · obtain ⟨inner, base, hlevels, hi, hb, rfl⟩ := settle_eq_ok hset
    have hat := h.at_settled hlevels (by rwa [hb])
    rw [hb] at hat
    exact .inr ⟨by simp [hd], base.owner, outer, _, hat, by simp [hb]⟩

/-- What belongs to a comment leaves the other outline where it is. -/
theorem step_comment (h : Uncommented o p) (hs : o.step separator line = .ok o')
    (hc : o.inComment line = true) : Uncommented o' p := by
  rw [inComment_eq_true_iff] at hc
  obtain ⟨hd, hla, rfl⟩ | ⟨hread, owner, outer, nodes, hat, rfl⟩ := h.step_cases hs
  · obtain ⟨-, hno⟩ | ⟨-, hlatest⟩ := hc
    · exact absurd ⟨hd, hla⟩ hno
    · obtain ⟨levels, latest⟩ := o
      obtain rfl : latest = .comment := hlatest
      exact h
  · obtain ⟨hreading, -⟩ | ⟨hd, hlatest⟩ := hc
    · have helse : line.isElse = true → branch? ⟨line.width, owner, nodes⟩ = none := by
        intro he
        simp [Line.reading_of_isElse he] at hreading
      rw [place_of_reading helse, hreading]
      exact .comment hat
    · exact absurd ⟨hd, by simp [hlatest]⟩ hread

/-- Any other line brings both to the same outline. -/
theorem step_other (h : Uncommented o p) (hs : o.step separator line = .ok o')
    (hc : o.inComment line = false) : p.step separator line = .ok o' := by
  obtain ⟨hd, -, -⟩ | ⟨-, owner, outer, nodes, hat, rfl⟩ := h.step_cases hs
  · cases h with
    | same => exact hs
    | comment => simp [inComment, hd] at hc
  · exact hat.step separator rfl

/-- A run over the lines that belong to no comment ends with the same nodes. -/
theorem run {lines : List Line} {keep : Line → Bool}
    (hkeep : ∀ i line, lines[i]? = some line → (keep line = false ↔ InComment lines i))
    (done rest : List Line) (hl : lines = done ++ rest) (hc : Commented lines done.length o)
    (h : Uncommented o p) (hr : o.run separator rest = .ok o') :
    ∃ p', p.run separator (rest.filter keep) = .ok p' ∧ Uncommented o' p' := by
  -- what belongs to a comment is said of all lines, so those already read are kept in `done`
  induction rest generalizing done o p with
  | nil =>
    obtain rfl : o = o' := by simpa using hr
    exact ⟨p, rfl, h⟩
  | cons line rest ih =>
    have hn : lines[done.length]? = some line := by simp [hl]
    have hin := (hkeep _ _ hn).trans (hc.inComment_iff hn)
    rw [Outline.run] at hr
    cases hs : o.step separator line with
    | error e => simp [hs] at hr
    | ok next =>
      rw [hs] at hr
      have hl' : lines = (done ++ [line]) ++ rest := by simp [hl]
      have hc' : Commented lines (done ++ [line]).length next := by
        simpa using hc.step hn hs
      cases hk : keep line with
      | false =>
        rw [List.filter_cons_of_neg (by simp [hk])]
        exact ih _ hl' hc' (h.step_comment hs (hin.mp hk)) hr
      | true =>
        have hother : o.inComment line = false := by
          rw [← Bool.not_eq_true, ← hin, hk]
          simp
        rw [List.filter_cons_of_pos hk, Outline.run, h.step_other hs hother]
        exact ih _ hl' hc' (.same next) hr

end Uncommented

/-! ## The numbers of commented lines -/

/-- The numbers of the lines that belong to comments, up to the first line that fits no level. -/
def commentNumbers (separator : Text) : Outline → List Line → List Nat
  | _, [] => []
  | o, line :: lines =>
    match o.step separator line with
    | .error _ => []
    | .ok next =>
      if o.inComment line then line.number :: next.commentNumbers separator lines
      else next.commentNumbers separator lines

/-- The numbers gathered along a run are those of the lines that belong to comments. -/
theorem mem_commentNumbers_iff {separator : Text} {lines : List Line} {o o' : Outline} {number : Nat}
    (done rest : List Line) (hl : lines = done ++ rest) (hc : Commented lines done.length o)
    (hr : o.run separator rest = .ok o') :
    number ∈ o.commentNumbers separator rest ↔
      ∃ i line, done.length ≤ i ∧ lines[i]? = some line ∧ line.number = number ∧
        InComment lines i := by
  induction rest generalizing done o with
  | nil =>
    simp only [commentNumbers, List.not_mem_nil, false_iff]
    rintro ⟨i, line, hi, hline, -⟩
    have := (List.getElem?_eq_some_iff.mp hline).1
    simp only [hl, List.append_nil] at this
    omega
  | cons line rest ih =>
    have hn : lines[done.length]? = some line := by simp [hl]
    have hin := hc.inComment_iff hn
    rw [Outline.run] at hr
    cases hs : o.step separator line with
    | error e => simp [hs] at hr
    | ok next =>
      rw [hs] at hr
      have hl' : lines = (done ++ [line]) ++ rest := by simp [hl]
      have hc' : Commented lines (done ++ [line]).length next := by
        simpa using hc.step hn hs
      have hrest := ih _ hl' hc' hr
      have hmem : number ∈ o.commentNumbers separator (line :: rest) ↔
          (o.inComment line = true ∧ line.number = number) ∨
            number ∈ next.commentNumbers separator rest := by
        rw [commentNumbers, hs]
        cases o.inComment line <;> simp [eq_comm]
      rw [hmem, hrest, ← hin]
      constructor
      · rintro (⟨hcomment, hnumber⟩ | ⟨i, other, hi, hother⟩)
        · exact ⟨done.length, line, Nat.le_refl _, hn, hnumber, hcomment⟩
        · rw [List.length_append, List.length_singleton] at hi
          exact ⟨i, other, by omega, hother⟩
      · rintro ⟨i, other, hi, hother, hnumber, hcomment⟩
        rcases Nat.lt_or_eq_of_le hi with hlt | rfl
        · exact .inr ⟨i, other, by simpa using Nat.succ_le_of_lt hlt, hother, hnumber, hcomment⟩
        · obtain rfl : line = other := Option.some.inj (hn.symm.trans hother)
          exact .inl ⟨hcomment, hnumber⟩

end Outline

/-! ## Comments made blank -/

/-- The line with the number belongs to a comment of the source. -/
def CommentNumber (s : Text) (number : Nat) : Prop :=
  ∃ i line, (Line.ofSource s)[i]? = some line ∧ line.number = number ∧
    InComment (Line.ofSource s) i

/-- Physical lines with some of them made blank, by their numbers counted from the given one. -/
inductive Blanked (drop : Nat → Prop) : Nat → List Text → List Text → Prop where
  | nil {number : Nat} : Blanked drop number [] []
  | keep {number : Nat} {raw : Text} {xs ys : List Text} : ¬drop number →
      Blanked drop (number + 1) xs ys → Blanked drop number (raw :: xs) (raw :: ys)
  | blank {number : Nat} {raw raw' : Text} {xs ys : List Text} : drop number →
      raw'.all Text.isBlank = true → Blanked drop (number + 1) xs ys →
      Blanked drop number (raw :: xs) (raw' :: ys)

/-- The second source is the first with blank lines in place of its comments and of what they
absorb. -/
def CommentsBlanked (s t : Text) : Prop :=
  Blanked (CommentNumber s) 1 (Text.physicalLines s) (Text.physicalLines t)

def Text.blankLines (numbers : List Nat) : Nat → List Text → List Text
  | _, [] => []
  | number, raw :: rest =>
    (if number ∈ numbers then [] else raw) :: blankLines numbers (number + 1) rest

theorem Text.length_blankLines (numbers : List Nat) (number : Nat) (xs : List Text) :
    (blankLines numbers number xs).length = xs.length := by
  induction xs generalizing number with
  | nil => rfl
  | cons raw xs ih => simp [blankLines, ih]

theorem Text.mem_blankLines {numbers : List Nat} {number : Nat} {xs : List Text} {line : Text}
    (h : line ∈ blankLines numbers number xs) : line = [] ∨ line ∈ xs := by
  induction xs generalizing number with
  | nil => simp [blankLines] at h
  | cons raw xs ih =>
    rcases List.mem_cons.mp h with rfl | h
    · by_cases hn : number ∈ numbers <;> simp [hn]
    · exact (ih h).imp_right (List.mem_cons_of_mem raw)

/-- The source with its comments, and what they absorb, left empty. -/
def withoutComments (separator s : Text) : Text :=
  ['\n'].intercalate (Text.blankLines (Outline.empty.commentNumbers separator (Line.ofSource s)) 1
    (Text.physicalLines s))

namespace Blanked

variable {drop : Nat → Prop} {number : Nat} {xs ys : List Text}

/-- Blanked lines are missing from the lines with content, and no other number changes. -/
theorem ofPhysicals [DecidablePred drop] (h : Blanked drop number xs ys) :
    Line.ofPhysicals number ys =
      (Line.ofPhysicals number xs).filter fun line => !decide (drop line.number) := by
  induction h with
  | nil => rfl
  | @keep number raw xs ys hdrop h ih =>
    rw [Line.ofPhysicals_cons, Line.ofPhysicals_cons, List.filter_append, ih]
    congr 1
    cases hraw : Line.ofPhysical? number raw with
    | none => rfl
    | some line =>
      have hn := Line.number_of_ofPhysical? hraw
      simp [hn, hdrop]
  | @blank number raw raw' xs ys hdrop hblank h ih =>
    rw [Line.ofPhysicals_cons, Line.ofPhysicals_cons, List.filter_append, ih,
      Line.ofPhysical?_eq_none_iff.mpr hblank]
    cases hraw : Line.ofPhysical? number raw with
    | none => rfl
    | some line =>
      have hn := Line.number_of_ofPhysical? hraw
      simp [hn, hdrop]

theorem of_blankLines {numbers : List Nat} (h : ∀ n, n ∈ numbers ↔ drop n) (number : Nat)
    (xs : List Text) : Blanked drop number xs (Text.blankLines numbers number xs) := by
  induction xs generalizing number with
  | nil => exact .nil
  | cons raw xs ih =>
    rw [Text.blankLines]
    by_cases hn : number ∈ numbers
    · rw [if_pos hn]
      exact .blank ((h number).mp hn) rfl (ih (number + 1))
    · rw [if_neg hn]
      exact .keep (fun hd => hn ((h number).mpr hd)) (ih (number + 1))

end Blanked

theorem commentNumber_iff {s : Text} {i : Nat} {line : Line}
    (hl : (Line.ofSource s)[i]? = some line) :
    CommentNumber s line.number ↔ InComment (Line.ofSource s) i := by
  constructor
  · rintro ⟨j, other, hj, hnumber, hc⟩
    have hi := position_eq (Line.nodup_number s) hl
    have hj := position_eq (Line.nodup_number s) hj
    rw [hnumber, hi] at hj
    exact hj ▸ hc
  · intro hc
    exact ⟨i, line, hl, rfl, hc⟩

/-- A document survives the blanking of its comments, line numbers included. -/
theorem parse_of_commentsBlanked {separator s t : Text} {nodes : List Node}
    (hs : parse separator s = .ok nodes) (h : CommentsBlanked s t) :
    parse separator t = .ok nodes := by
  classical
  obtain ⟨o, hr, rfl⟩ := parse_eq_ok_iff.mp hs
  have hlines : Line.ofSource t =
      (Line.ofSource s).filter fun line => !decide (CommentNumber s line.number) := h.ofPhysicals
  have hkeep : ∀ i line, (Line.ofSource s)[i]? = some line →
      ((!decide (CommentNumber s line.number)) = false ↔ InComment (Line.ofSource s) i) := by
    intro i line hl
    rw [← commentNumber_iff hl]
    simp
  obtain ⟨p, hp, hu⟩ := Outline.Uncommented.run hkeep [] (Line.ofSource s) rfl
    (Outline.Commented.start _) (.same Outline.empty) hr
  rw [← hlines] at hp
  exact parse_eq_ok_iff.mpr ⟨p, hp, hu.nodes_eq.symm⟩

/-- Leaving the numbered lines empty is one way to blank the comments. -/
theorem commentsBlanked_withoutComments {separator s : Text} {nodes : List Node}
    (hs : parse separator s = .ok nodes) : CommentsBlanked s (withoutComments separator s) := by
  obtain ⟨o, hr, -⟩ := parse_eq_ok_iff.mp hs
  have hnumbers : ∀ n, n ∈ Outline.empty.commentNumbers separator (Line.ofSource s) ↔
      CommentNumber s n := by
    intro n
    rw [Outline.mem_commentNumbers_iff [] (Line.ofSource s) rfl (Outline.Commented.start _) hr]
    simp [CommentNumber]
  have hblanked := Blanked.of_blankLines hnumbers 1 (Text.physicalLines s)
  rw [CommentsBlanked, withoutComments, Text.physicalLines_intercalate]
  · exact hblanked
  · intro line hline
    rcases Text.mem_blankLines hline with rfl | hmem
    · simp
    · exact Text.unbroken_of_mem_physicalLines hmem
  · rw [← List.length_pos_iff, Text.length_blankLines, List.length_pos_iff]
    exact Text.physicalLines_ne_nil s

/-- Comments, and what they absorb, can be made blank lines: a source that parses gives the same
document, with the numbers of its lines, and the same text. -/
theorem parse_without_comments {separator s : Text} {nodes : List Node}
    (hs : parse separator s = .ok nodes) :
    CommentsBlanked s (withoutComments separator s) ∧
    ∀ t, CommentsBlanked s t → parse separator t = .ok nodes ∧
      ∃ text, compile separator s = .ok text ∧ compile separator t = .ok text := by
  refine ⟨commentsBlanked_withoutComments hs, ?_⟩
  intro t h
  have ht := parse_of_commentsBlanked hs h
  obtain ⟨text, hc, hr⟩ := compile_of_parse hs
  exact ⟨ht, text, hc, compile_eq_ok_iff.mpr ⟨nodes, ht, hr⟩⟩

/-- A comment below a helper ends the text above it and drops a deeper line, another stands between
the helper and its `else`, and a third is alone in the branch. What looks like a comment within
continued text stays. -/
theorem parse_without_comments_branch :
    let s : Text := "if x\n  | y\n    / z\n  / a\n     | b\n/ c\nelse\n  / d"
    let t : Text := "if x\n  | y\n    / z\n\n\n\nelse\n"
    let output : Text := "\x7b\x7b#if x\x7d\x7dy / z\x7b\x7belse\x7d\x7d\x7b\x7b/if\x7d\x7d"
    withoutComments defaultSeparator s = t ∧
      parse defaultSeparator t = parse defaultSeparator s ∧
      compile defaultSeparator t = .ok output := by
  intro s t output
  have hs : compile defaultSeparator s = .ok output := by decide +kernel
  have ht : withoutComments defaultSeparator s = t := by decide +kernel
  obtain ⟨nodes, hnodes, -⟩ := compile_eq_ok_iff.mp hs
  obtain ⟨hblanked, hall⟩ := parse_without_comments hnodes
  rw [ht] at hblanked
  obtain ⟨hparse, text, hcompile, htext⟩ := hall t hblanked
  exact ⟨ht, hparse.trans hnodes.symm, by rw [htext, ← hcompile, hs]⟩

end IndentMarkup
