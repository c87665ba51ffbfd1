import IndentMarkup.Proofs.Settling
import Mathlib.Data.List.Basic

/-!
# Absorbed lines and open widths

Which lines of a source are read at all, said of the list of lines alone. A line is absorbed when it
lies, together with everything in between, deeper than an earlier line that takes deeper lines in
and is not absorbed itself. A width is open when some line has it and no later line is narrower,
absorbed lines apart.

An outline follows the lines it was built from: its levels have exactly the open widths, and it
absorbs what is absorbed.
-/
namespace IndentMarkup

def widthAt (lines : List Line) (i : Nat) : Nat := (lines[i]?.map (·.width)).getD 0

/-- The line at a position takes deeper lines in and opens no level for them. -/
def OpaqueAt (lines : List Line) (i : Nat) : Prop :=
  ∃ line, lines[i]? = some line ∧ line.reading.isOpaque = true

/-- Some earlier opaque line that is not absorbed is narrower than every line after it up to this
one. -/
def Absorbed (lines : List Line) (i : Nat) : Prop :=
  ∃ j, ∃ _ : j < i, ¬Absorbed lines j ∧ OpaqueAt lines j ∧
    ∀ k, j < k → k ≤ i → widthAt lines j < widthAt lines k
termination_by i

/-- Some line before position `n` that is not absorbed has the width, and none after it that is not
absorbed is narrower. -/
def OpenWidth (lines : List Line) (n w : Nat) : Prop :=
  ∃ j, j < n ∧ ¬Absorbed lines j ∧ widthAt lines j = w ∧
    ∀ k, j < k → k < n → ¬Absorbed lines k → w ≤ widthAt lines k

/-- Before position `n`, the line at `m` is the last that is not absorbed. -/
structure LastUnabsorbed (lines : List Line) (n m : Nat) : Prop where
  before : m < n
  unabsorbed : ¬Absorbed lines m
  since : ∀ k, m < k → k < n → OpaqueAt lines m ∧ widthAt lines m < widthAt lines k

section

variable {lines : List Line}

theorem widthAt_eq {i : Nat} {line : Line} (h : lines[i]? = some line) :
    widthAt lines i = line.width := by
  simp [widthAt, h]

theorem opaqueAt_iff {i : Nat} {line : Line} (h : lines[i]? = some line) :
    OpaqueAt lines i ↔ line.reading.isOpaque = true := by
  simp [OpaqueAt, h]

theorem absorbed_iff (lines : List Line) (i : Nat) :
    Absorbed lines i ↔ ∃ j, j < i ∧ ¬Absorbed lines j ∧ OpaqueAt lines j ∧
      ∀ k, j < k → k ≤ i → widthAt lines j < widthAt lines k := by
  rw [Absorbed]
  simp only [exists_prop]

theorem not_absorbed_zero (lines : List Line) : ¬Absorbed lines 0 := by
  rw [absorbed_iff]
  rintro ⟨j, hj, -⟩
  omega

/-! ## The last line that is not absorbed -/

namespace LastUnabsorbed

variable {n m : Nat}

/-- Every line after the last that is not absorbed is absorbed by it. -/
theorem absorbed_of_lt (h : LastUnabsorbed lines n m) {k : Nat} (hm : m < k) (hk : k < n) :
    Absorbed lines k := by
  rw [absorbed_iff]
  refine ⟨m, hm, h.unabsorbed, (h.since k hm hk).1, ?_⟩
  intro i hi hik
  exact (h.since i hi (by omega)).2

theorem le_of_not_absorbed (h : LastUnabsorbed lines n m) {k : Nat} (hk : k < n)
    (ha : ¬Absorbed lines k) : k ≤ m := by
  by_contra hm
  exact ha (h.absorbed_of_lt (by omega) hk)

/-- The next line is absorbed exactly when it is deeper than an opaque last line. -/
theorem absorbed_next_iff (h : LastUnabsorbed lines n m) :
    Absorbed lines n ↔ OpaqueAt lines m ∧ widthAt lines m < widthAt lines n := by
  have hmn := h.before
  constructor
  · intro ha
    obtain ⟨j, hj, hja, hjo, hjw⟩ := (absorbed_iff lines n).mp ha
    have hjm := h.le_of_not_absorbed hj hja
    rcases Nat.lt_or_eq_of_le hjm with hlt | rfl
    · -- the absorbing line would have absorbed the line at `m` too
      refine absurd ((absorbed_iff lines m).mpr ⟨j, hlt, hja, hjo, ?_⟩) h.unabsorbed
      intro k hk hkm
      exact hjw k hk (by omega)
    · exact ⟨hjo, hjw n hmn (Nat.le_refl n)⟩
  · rintro ⟨ho, hw⟩
    refine (absorbed_iff lines n).mpr ⟨m, hmn, h.unabsorbed, ho, ?_⟩
    intro k hk hkn
    rcases Nat.lt_or_eq_of_le hkn with hlt | rfl
    · exact (h.since k hk hlt).2
    · exact hw

/-- An absorbed line leaves the last line in place. -/
theorem of_absorbed (h : LastUnabsorbed lines n m) (ha : Absorbed lines n) :
    LastUnabsorbed lines (n + 1) m := by
  refine ⟨by have := h.before; omega, h.unabsorbed, ?_⟩
  intro k hm hk
  rcases Nat.lt_or_eq_of_le (Nat.le_of_lt_succ hk) with hlt | rfl
  · exact h.since k hm hlt
  · exact h.absorbed_next_iff.mp ha

/-- A line that is not absorbed becomes the last. -/
theorem self (ha : ¬Absorbed lines n) : LastUnabsorbed lines (n + 1) n :=
  ⟨by omega, ha, fun k hk hkn => by omega⟩

theorem openWidth (h : LastUnabsorbed lines n m) : OpenWidth lines n (widthAt lines m) := by
  refine ⟨m, h.before, h.unabsorbed, rfl, ?_⟩
  intro k hm hk ha
  exact absurd (h.absorbed_of_lt hm hk) ha

/-- The last line is the widest open level. -/
theorem le_of_openWidth (h : LastUnabsorbed lines n m) {w : Nat} (hw : OpenWidth lines n w) :
    w ≤ widthAt lines m := by
  obtain ⟨j, hj, ha, rfl, hl⟩ := hw
  rcases Nat.lt_or_eq_of_le (h.le_of_not_absorbed hj ha) with hlt | rfl
  · exact hl m hlt h.before h.unabsorbed
  · exact Nat.le_refl _

end LastUnabsorbed

/-! ## Open widths -/

/-- An absorbed line opens and closes no width. -/
theorem openWidth_succ_of_absorbed {n w : Nat} (ha : Absorbed lines n) :
    OpenWidth lines (n + 1) w ↔ OpenWidth lines n w := by
  constructor
  · rintro ⟨j, hj, hja, rfl, hl⟩
    have hjn : j ≠ n := by rintro rfl; exact hja ha
    exact ⟨j, by omega, hja, rfl, fun k hk hkn => hl k hk (by omega)⟩
  · rintro ⟨j, hj, hja, rfl, hl⟩
    refine ⟨j, by omega, hja, rfl, ?_⟩
    intro k hk hkn hka
    have hkn' : k ≠ n := by rintro rfl; exact hka ha
    exact hl k hk (by omega) hka

/-- A line that is not absorbed opens its own width and shuts the greater ones. -/
theorem openWidth_succ_of_not_absorbed {n w : Nat} (ha : ¬Absorbed lines n) :
    OpenWidth lines (n + 1) w ↔
      w = widthAt lines n ∨ (w < widthAt lines n ∧ OpenWidth lines n w) := by
  constructor
  · rintro ⟨j, hj, hja, rfl, hl⟩
    rcases Nat.lt_or_eq_of_le (Nat.le_of_lt_succ hj) with hlt | rfl
    · have hw := hl n hlt (by omega) ha
      rcases Nat.lt_or_eq_of_le hw with hw | hw
      · exact .inr ⟨hw, j, hlt, hja, rfl, fun k hk hkn => hl k hk (by omega)⟩
      · exact .inl hw
    · exact .inl rfl
  · rintro (rfl | ⟨hw, j, hj, hja, rfl, hl⟩)
    · exact ⟨n, by omega, ha, rfl, fun k hk hkn => by omega⟩
    · refine ⟨j, by omega, hja, rfl, ?_⟩
      intro k hk hkn hka
      rcases Nat.lt_or_eq_of_le (Nat.le_of_lt_succ hkn) with hlt | rfl
      · exact hl k hk hlt hka
      · omega

end

/-! ## Readings and what they leave open -/

namespace Outline

/-- What a placed line leaves open absorbs exactly when the line is opaque. -/
theorem place_absorbs (top : Level) (outer : List Level) (line : Line) :
    (place top outer line).latest.absorbs = line.reading.isOpaque := by
  obtain ⟨he, owner, before, -, hp⟩ | ⟨-, hp⟩ := place_cases top outer line
  · rw [hp, Line.reading_of_isElse he]
    rfl
  · rw [hp, Reading.latest_absorbs]

/-- An outline agrees with the first `n` lines about what is open. -/
structure Follows (lines : List Line) (n : Nat) (o : Outline) : Prop where
  /-- The latest line is the last that is not absorbed; before the first line there is none. -/
  latest : (n = 0 ∧ o = empty) ∨
    ∃ m, LastUnabsorbed lines n m ∧ (o.latest.absorbs = true ↔ OpaqueAt lines m)
  decreasing : (o.levels.map (·.width)).Pairwise (· > ·)
  widths : ∀ w, w ∈ o.levels.map (·.width) ↔ OpenWidth lines n w

namespace Follows

variable {lines : List Line} {n : Nat} {o : Outline} {line : Line}

theorem start (lines : List Line) : Follows lines 0 empty := by
  refine ⟨.inl ⟨rfl, rfl⟩, by simp [empty], ?_⟩
  intro w
  simp [empty, OpenWidth]

/-- Whether a line lies deeper than the innermost level shows in the widths of the lines alone. -/
theorem isDeeper_iff (h : Follows lines n o) (hl : lines[n]? = some line) {m : Nat}
    (hm : LastUnabsorbed lines n m) :
    isDeeper o.levels line.width = true ↔ widthAt lines m < widthAt lines n := by
  rw [Outline.isDeeper_iff _ _ h.decreasing, widthAt_eq hl]
  constructor
  · intro hw
    exact hw _ ((h.widths _).mpr hm.openWidth)
  · intro hw w hmem
    have := hm.le_of_openWidth ((h.widths w).mp hmem)
    omega

/-- A line is absorbed exactly when the outline takes it in unread. -/
theorem absorbed_iff (h : Follows lines n o) (hl : lines[n]? = some line) :
    Absorbed lines n ↔ isDeeper o.levels line.width = true ∧ o.latest.absorbs = true := by
  rcases h.latest with ⟨rfl, rfl⟩ | ⟨m, hm, hla⟩
  · simp [not_absorbed_zero, empty]
  · rw [hm.absorbed_next_iff, hla, h.isDeeper_iff hl hm, and_comm]

/-- Where a line is placed over the levels that are not wider, the outline still follows. -/
theorem of_place {top : Level} (inner outer : List Level) (h : Follows lines n o)
    (hl : lines[n]? = some line) (ha : ¬Absorbed lines n) (ho : o.levels = inner ++ outer)
    (htop : top.width = line.width) (hi : ∀ l ∈ inner, line.width ≤ l.width)
    (hout : ∀ l ∈ outer, l.width < line.width) :
    Follows lines (n + 1) (place top outer line) := by
  obtain ⟨nodes, hp⟩ := place_levels top outer line
  have hdec := h.decreasing
  rw [ho, List.map_append, List.pairwise_append] at hdec
  refine ⟨.inr ⟨n, .self ha, ?_⟩, ?_, ?_⟩
  · rw [place_absorbs, opaqueAt_iff hl]
  · rw [hp, List.map_cons, List.pairwise_cons]
    refine ⟨?_, hdec.2.1⟩
    intro w hw
    obtain ⟨l, hmem, rfl⟩ := List.mem_map.mp hw
    simpa [htop] using hout l hmem
  · intro w
    rw [openWidth_succ_of_not_absorbed ha, ← h.widths, hp, ho, widthAt_eq hl]
    simp only [List.map_cons, List.map_append, List.mem_cons, List.mem_append, htop]
    constructor
    · rintro (rfl | hw)
      · exact .inl rfl
      · obtain ⟨l, hmem, rfl⟩ := List.mem_map.mp hw
        exact .inr ⟨hout l hmem, .inr hw⟩
    · rintro (rfl | ⟨hlt, hw | hw⟩)
      · exact .inl rfl
      · obtain ⟨l, hmem, rfl⟩ := List.mem_map.mp hw
        have := hi l hmem
        omega
      · exact .inr hw

/-- An outline that follows the lines still does after one more of them. -/
theorem step {separator : Text} {o' : Outline} (h : Follows lines n o)
    (hl : lines[n]? = some line) (hs : o.step separator line = .ok o') :
    Follows lines (n + 1) o' := by
  obtain ⟨hd, hla, rfl⟩ | ⟨hd, owner, hla, rfl⟩ | ⟨hd, top, outer, hset, rfl⟩ := step_cases hs
  · have ha := (h.absorbed_iff hl).mpr ⟨hd, hla⟩
    refine ⟨?_, h.decreasing, ?_⟩
    · rcases h.latest with ⟨rfl, rfl⟩ | ⟨m, hm, hmo⟩
      · simp [empty] at hla
      · exact .inr ⟨m, hm.of_absorbed ha, by simpa using hmo⟩
    · intro w
      rw [openWidth_succ_of_absorbed ha]
      exact h.widths w
  · have ha : ¬Absorbed lines n := by simp [h.absorbed_iff hl, hla]
    rw [Outline.isDeeper_iff _ _ h.decreasing] at hd
    exact of_place [] o.levels h hl ha rfl rfl (by simp)
      (fun l hmem => hd _ (List.mem_map_of_mem hmem))
  · have ha : ¬Absorbed lines n := by simp [h.absorbed_iff hl, hd]
    obtain ⟨inner, base, ho, hi, hb, rfl⟩ := settle_eq_ok hset
    have hdec := h.decreasing
    rw [ho, List.map_append, List.pairwise_append, List.map_cons, List.pairwise_cons] at hdec
    refine of_place (inner ++ [base]) outer h hl ha (by simp [ho]) hb ?_ ?_
    · intro l hmem
      rcases List.mem_append.mp hmem with hmem | hmem
      · exact Nat.le_of_lt (hi l hmem)
      · rw [List.mem_singleton.mp hmem]
        exact Nat.le_of_eq hb.symm
    · intro l hmem
      have := hdec.2.1.1 _ (List.mem_map_of_mem hmem)
      omega

end Follows
end Outline
end IndentMarkup
