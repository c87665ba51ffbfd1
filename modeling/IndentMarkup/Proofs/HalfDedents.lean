import IndentMarkup.Proofs.Absorption
import Mathlib.Data.Nat.Find

/-!
# Where half dedents are

A source fails to parse exactly at its first half dedent, a condition on the widths of its lines
alone. The error gives the place of that line among the physical lines and lists the widths that are
still open and narrower than the line.
-/
namespace IndentMarkup

/-- Of the earlier lines that are not absorbed, the line at `j` is the nearest that is not wider. -/
structure NearestNotWider (lines : List Line) (i j : Nat) : Prop where
  before : j < i
  unabsorbed : ¬Absorbed lines j
  notWider : widthAt lines j ≤ widthAt lines i
  between : ∀ k, j < k → k < i → ¬Absorbed lines k → widthAt lines i < widthAt lines k

/-- The line is not the first and not absorbed, and all earlier lines are wider, or the nearest that
is not wider is narrower and stands before some other line that is not absorbed. -/
def HalfDedentAt (lines : List Line) (i : Nat) : Prop :=
  0 < i ∧ i < lines.length ∧ ¬Absorbed lines i ∧
    ((∀ j, j < i → ¬Absorbed lines j → widthAt lines i < widthAt lines j) ∨
      ∃ j, NearestNotWider lines i j ∧ widthAt lines j < widthAt lines i ∧
        ∃ k, j < k ∧ k < i ∧ ¬Absorbed lines k)

section

variable {lines : List Line} {n m : Nat}

/-- The nearest line that is not wider, where there is any. -/
theorem exists_nearestNotWider
    (h : ∃ j, j < n ∧ ¬Absorbed lines j ∧ widthAt lines j ≤ widthAt lines n) :
    ∃ j, NearestNotWider lines n j := by
  classical
  obtain ⟨j, hj⟩ := h
  let P := fun j => j < n ∧ ¬Absorbed lines j ∧ widthAt lines j ≤ widthAt lines n
  obtain ⟨hlt, ha, hw⟩ : P (Nat.findGreatest P n) := Nat.findGreatest_spec (Nat.le_of_lt hj.1) hj
  refine ⟨Nat.findGreatest P n, hlt, ha, hw, ?_⟩
  intro k hk hkn hka
  by_contra hle
  exact Nat.findGreatest_is_greatest hk (Nat.le_of_lt hkn) ⟨hkn, hka, by omega⟩

/-- A half dedent is not deeper than the line before it, and its width is not open. -/
theorem LastUnabsorbed.halfDedentAt_iff (h : LastUnabsorbed lines n m) (hn : n < lines.length) :
    HalfDedentAt lines n ↔ ¬Absorbed lines n ∧ widthAt lines n ≤ widthAt lines m ∧
      ¬OpenWidth lines n (widthAt lines n) := by
  have hmn := h.before
  constructor
  · rintro ⟨-, -, ha, hall | ⟨j, hj, hw, k, hjk, hkn, hka⟩⟩
    · have hm := hall m hmn h.unabsorbed
      refine ⟨ha, Nat.le_of_lt hm, ?_⟩
      rintro ⟨j, hj, hja, hjw, -⟩
      have := hall j hj hja
      omega
    · have hkm := h.le_of_not_absorbed hkn hka
      have hm := hj.between m (by omega) hmn h.unabsorbed
      refine ⟨ha, Nat.le_of_lt hm, ?_⟩
      rintro ⟨i, hi, hia, hiw, hil⟩
      -- a line of the same width stands neither behind the narrower one nor before it
      rcases Nat.lt_or_ge j i with hji | hij
      · have := hj.between i hji hi hia
        omega
      · rcases Nat.lt_or_eq_of_le hij with hij | rfl
        · have := hil j hij hj.before hj.unabsorbed
          omega
        · omega
  · rintro ⟨ha, hw, ho⟩
    refine ⟨by omega, hn, ha, ?_⟩
    by_cases hall : ∀ j, j < n → ¬Absorbed lines j → widthAt lines n < widthAt lines j
    · exact .inl hall
    · push Not at hall
      obtain ⟨j, hj⟩ := exists_nearestNotWider hall
      have hlt : widthAt lines j < widthAt lines n := by
        refine Nat.lt_of_le_of_ne hj.notWider fun he => ho ⟨j, hj.before, hj.unabsorbed, he, ?_⟩
        intro k hk hkn hka
        exact Nat.le_of_lt (hj.between k hk hkn hka)
      have hjm : j < m := by
        refine Nat.lt_of_le_of_ne (h.le_of_not_absorbed hj.before hj.unabsorbed) ?_
        rintro rfl
        omega
      exact .inr ⟨j, hj, hlt, m, hjm, hmn, h.unabsorbed⟩

end

namespace Outline.Follows

variable {lines : List Line} {n : Nat} {o : Outline} {line : Line} {separator : Text}

/-- A line that finds its level is no half dedent. -/
theorem not_halfDedentAt_of_ok {o' : Outline} (h : Follows lines n o) (hl : lines[n]? = some line)
    (hs : o.step separator line = .ok o') : ¬HalfDedentAt lines n := by
  intro hh
  rcases h.latest with ⟨rfl, rfl⟩ | ⟨m, hm, hla⟩
  · exact absurd hh.1 (by omega)
  · obtain ⟨ha, hw, ho⟩ := (hm.halfDedentAt_iff hh.2.1).mp hh
    have hd := h.isDeeper_iff hl hm
    obtain ⟨hd', -, -⟩ | ⟨hd', -⟩ | ⟨-, top, outer, hset, -⟩ := step_cases hs
    · have := hd.mp hd'
      omega
    · have := hd.mp hd'
      omega
    · obtain ⟨inner, base, hlv, -, hb, -⟩ := settle_eq_ok hset
      apply ho
      rw [← h.widths, hlv, widthAt_eq hl, ← hb]
      simp

/-- A step that fails is at a half dedent, and its error lists the open widths below the line. -/
theorem of_error {e : HalfDedent} (h : Follows lines n o) (hl : lines[n]? = some line)
    (hs : o.step separator line = .error e) :
    HalfDedentAt lines n ∧ e.width = line.width ∧ e.number = line.number ∧
      e.openWidths.Pairwise (· < ·) ∧
      ∀ w, w ∈ e.openWidths ↔ OpenWidth lines n w ∧ w < line.width := by
  obtain ⟨hd, hset⟩ := step_error hs
  obtain ⟨inner, outer, hlv, hi, hout, rfl⟩ := settle_eq_error hset
  have hdec := h.decreasing
  rw [hlv, List.map_append, List.pairwise_append] at hdec
  have houter : ∀ w ∈ outer.map (·.width), w < line.width := by
    cases outer with
    | nil => simp
    | cons top rest =>
      have htop := hout top rfl
      have htail := (List.pairwise_cons.mp hdec.2.1).1
      intro w hw
      rcases List.mem_cons.mp hw with rfl | hw
      · exact htop
      · exact Nat.lt_trans (htail w hw) htop
  have hmem : ∀ w, w ∈ outer.map (·.width) ↔ OpenWidth lines n w ∧ w < line.width := by
    intro w
    rw [← h.widths, hlv, List.map_append, List.mem_append]
    constructor
    · intro hw
      exact ⟨.inr hw, houter w hw⟩
    · rintro ⟨hw | hw, hlt⟩
      · obtain ⟨l, hl', rfl⟩ := List.mem_map.mp hw
        have := hi l hl'
        omega
      · exact hw
  refine ⟨?_, rfl, rfl, ?_, ?_⟩
  · rcases h.latest with ⟨rfl, rfl⟩ | ⟨m, hm, hla⟩
    · simp [isDeeper, empty] at hd
    · have hn : n < lines.length := (List.getElem?_eq_some_iff.mp hl).1
      have hdeep := h.isDeeper_iff hl hm
      refine (hm.halfDedentAt_iff hn).mpr ⟨?_, ?_, ?_⟩
      · simp [h.absorbed_iff hl, hd]
      · have : ¬widthAt lines m < widthAt lines n := by
          rw [← hdeep, hd]
          simp
        omega
      · intro ho
        rw [← h.widths, hlv, widthAt_eq hl, List.map_append, List.mem_append] at ho
        rcases ho with ho | ho
        · obtain ⟨l, hl', he⟩ := List.mem_map.mp ho
          have := hi l hl'
          omega
        · have := houter _ ho
          omega
  · exact List.pairwise_reverse.mpr hdec.2.1
  · intro w
    rw [List.mem_reverse]
    exact hmem w

end Outline.Follows

theorem Line.number_of_ofPhysical? {number : Nat} {raw : Text} {line : Line}
    (h : Line.ofPhysical? number raw = some line) : line.number = number := by
  unfold Line.ofPhysical? at h
  split at h
  · simp at h
  · simp only [Option.some.injEq] at h
    rw [← h]

/-- Every line has the number of the physical line it stands on. -/
theorem Line.mem_ofPhysicals {number : Nat} {raws : List Text} {line : Line}
    (h : line ∈ Line.ofPhysicals number raws) :
    number ≤ line.number ∧ ∃ raw, raws[line.number - number]? = some raw ∧
      Line.ofPhysical? line.number raw = some line := by
  induction raws generalizing number with
  | nil => simp at h
  | cons raw rest ih =>
    have htail (hr : line ∈ Line.ofPhysicals (number + 1) rest) :
        number ≤ line.number ∧ ∃ r, (raw :: rest)[line.number - number]? = some r ∧
          Line.ofPhysical? line.number r = some line := by
      obtain ⟨hle, r, hr, hp⟩ := ih hr
      have he : line.number - number = (line.number - (number + 1)) + 1 := by omega
      refine ⟨by omega, r, ?_, hp⟩
      rw [he, List.getElem?_cons_succ]
      exact hr
    rw [Line.ofPhysicals] at h
    split at h
    · exact htail h
    · rename_i first hf
      rcases List.mem_cons.mp h with rfl | h
      · have hn := Line.number_of_ofPhysical? hf
        refine ⟨by omega, raw, by simp [hn], ?_⟩
        rw [hn]
        exact hf
      · exact htail h

/-- The widths of open levels as a message lists them. -/
theorem HalfDedent.openText_eq (e : HalfDedent) :
    e.openText = if e.openWidths = [] then "none".toList
      else [',', ' '].intercalate (e.openWidths.map Text.ofNat) := by
  unfold HalfDedent.openText
  split
  · simp_all
  · rw [if_neg]
    assumption

namespace Outline

variable {separator : Text} {lines : List Line}

/-- The outline follows the lines, and none of them so far is a half dedent. -/
structure Clear (lines : List Line) (n : Nat) (o : Outline) : Prop where
  follows : Follows lines n o
  none : ∀ j, j < n → ¬HalfDedentAt lines j

theorem Clear.start (lines : List Line) : Clear lines 0 empty :=
  ⟨Follows.start lines, fun j hj => by omega⟩

theorem Clear.step {n : Nat} {o o' : Outline} {line : Line} (h : Clear lines n o)
    (hl : lines[n]? = some line) (hs : o.step separator line = .ok o') :
    Clear lines (n + 1) o' := by
  refine ⟨h.follows.step hl hs, ?_⟩
  intro j hj
  rcases Nat.lt_or_eq_of_le (Nat.le_of_lt_succ hj) with hlt | rfl
  · exact h.none j hlt
  · exact h.follows.not_halfDedentAt_of_ok hl hs

/-- There is no half dedent among lines that run through. -/
theorem not_halfDedentAt_of_run {o : Outline} (h : empty.run separator lines = .ok o) (i : Nat) :
    ¬HalfDedentAt lines i := by
  have hc : Clear lines lines.length o :=
    run_keeps (Clear.start lines) (fun _ _ _ _ hc hl hs => hc.step hl hs) h
  intro hi
  exact hc.none i hi.2.1 hi

/-- A run stops at the first half dedent. -/
theorem run_error {e : HalfDedent} (h : empty.run separator lines = .error e) :
    ∃ i line, lines[i]? = some line ∧ HalfDedentAt lines i ∧
      (∀ j, j < i → ¬HalfDedentAt lines j) ∧ e.width = line.width ∧ e.number = line.number ∧
      e.openWidths.Pairwise (· < ·) ∧
      ∀ w, w ∈ e.openWidths ↔ OpenWidth lines i w ∧ w < line.width := by
  obtain ⟨n, o, line, hc, hl, hs⟩ :=
    run_stops (Clear.start lines) (fun _ _ _ _ hc hl hs => hc.step hl hs) h
  obtain ⟨hh, hw, hn, hp, hm⟩ := hc.follows.of_error hl hs
  exact ⟨n, line, hl, hh, hc.none, hw, hn, hp, hm⟩

end Outline

/-- The wording of the report, with the number and the width of the line and the open levels. -/
theorem HalfDedent.message_eq (e : HalfDedent) :
    e.toError.message =
      "Emblem Compile Error (Line ".toList ++ Text.ofNat e.number ++ "): ".toList ++
        ("Dedent to ".toList ++ Text.ofNat e.width ++
          " spaces matches no open indentation level (open levels: ".toList ++ e.openText ++
          ").".toList) := by
  have hnumber : Text.ofInt e.number = Text.ofNat e.number := rfl
  unfold HalfDedent.toError Error.message HalfDedent.detail
  simp only [Text.codes_append, hnumber]

/-- A source fails to parse exactly when some line is a half dedent. The error is about the first
one: it gives its number among the physical lines and lists, in ascending order, the open widths
narrower than the line. -/
theorem parse_error_iff_halfDedent (separator source : Text) :
    ((∃ e, parse separator source = .error e) ↔ ∃ i, HalfDedentAt (Line.ofSource source) i) ∧
    ∀ e, parse separator source = .error e →
      ∃ i line, (Line.ofSource source)[i]? = some line ∧ HalfDedentAt (Line.ofSource source) i ∧
        (∀ j, j < i → ¬HalfDedentAt (Line.ofSource source) j) ∧
        1 ≤ e.number ∧
        (∃ raw, (Text.physicalLines source)[e.number - 1]? = some raw ∧
          Line.ofPhysical? e.number raw = some line) ∧
        e.openWidths.Pairwise (· < ·) ∧
        (∀ w, w ∈ e.openWidths ↔ OpenWidth (Line.ofSource source) i w ∧ w < line.width) ∧
        e.toError.kind = .indentation ∧
        e.toError.message =
          "Emblem Compile Error (Line ".toList ++ Text.ofNat e.number ++ "): ".toList ++
            ("Dedent to ".toList ++ Text.ofNat line.width ++
              " spaces matches no open indentation level (open levels: ".toList ++
              (if e.openWidths = [] then "none".toList
                else [',', ' '].intercalate (e.openWidths.map Text.ofNat)) ++ ").".toList) := by
  refine ⟨⟨?_, ?_⟩, ?_⟩
  · rintro ⟨e, he⟩
    obtain ⟨i, line, -, hi, -⟩ := Outline.run_error (parse_eq_error_iff.mp he)
    exact ⟨i, hi⟩
  · rintro ⟨i, hi⟩
    cases hr : Outline.empty.run separator (Line.ofSource source) with
    | error e => exact ⟨e, parse_eq_error_iff.mpr hr⟩
    | ok o => exact absurd hi (Outline.not_halfDedentAt_of_run hr i)
  · intro e he
    obtain ⟨i, line, hl, hi, hfirst, hw, hn, hp, hm⟩ :=
      Outline.run_error (parse_eq_error_iff.mp he)
    obtain ⟨hone, hraw⟩ := Line.mem_ofPhysicals (List.mem_of_getElem? hl)
    rw [← hn] at hone hraw
    refine ⟨i, line, hl, hi, hfirst, hone, hraw, hp, hm, rfl, ?_⟩
    rw [HalfDedent.message_eq, HalfDedent.openText_eq, hw]

end IndentMarkup
