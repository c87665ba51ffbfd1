import IndentMarkup.Proofs.Layout
import IndentMarkup.Proofs.LineBreaks
import Mathlib.Data.List.Sort

/-!
# Nothing but blanks is lost

A text falls into physical lines in one way only: it is the lines with a break between each two of
them, where no line holds a break and a CR and an LF side by side are one break.

The lines of a source are found on its physical lines. Each has the number of the physical line it
stands on and leaves nothing of it out but the blanks on both sides, and only blank physical lines
have no line on them. This fixes the lines of a source, since lines with growing numbers are known
by what stands on each physical line.
-/
namespace IndentMarkup

/-! ## Broken texts -/

namespace Text

/-- The text is made up of the lines with a break between each two of them. No line holds a break,
and nowhere stands a CR in front of an empty line that an LF ends. -/
def BrokenInto (t : Text) (lines : List Text) : Prop :=
  ∃ first rest, t = joined first rest ∧ lines = first :: rest.map Prod.snd ∧
    (∀ line ∈ lines, '\n' ∉ line ∧ '\r' ∉ line) ∧ Unfused rest

theorem unbroken_iff {t : Text} : (∀ c ∈ t, isBreak c = false) ↔ '\n' ∉ t ∧ '\r' ∉ t := by
  constructor
  · intro h
    refine ⟨fun hmem => ?_, fun hmem => ?_⟩
    · exact absurd (h _ hmem) (by decide)
    · exact absurd (h _ hmem) (by decide)
  · rintro ⟨hlf, hret⟩ c hc
    have hne : c ≠ '\n' ∧ c ≠ '\r' := ⟨fun h => hlf (h ▸ hc), fun h => hret (h ▸ hc)⟩
    simp [isBreak, hne]

/-- Any break can stand in front of a text, but for a CR in front of an LF. -/
theorem unfused_cons {b : Break} {first : Text} {rest : List (Break × Text)} (h : Unfused rest)
    (hb : b = .cr → (joined first rest).head? ≠ some '\n') : Unfused ((b, first) :: rest) := by
  cases rest with
  | nil => exact .singleton _
  | cons next rest =>
    refine .cons_cons ?_ h
    rintro ⟨hcr, hfirst, hlf⟩
    obtain ⟨b', line⟩ := next
    simp only at hcr hfirst hlf
    subst hfirst hlf
    exact hb hcr rfl

/-- Every text is made up of its physical lines. -/
theorem exists_joined (t : Text) :
    ∃ first rest, t = joined first rest ∧ physicalLines t = first :: rest.map Prod.snd ∧
      Unfused rest := by
  fun_induction physicalLines t with
  | case1 => exact ⟨[], [], rfl, rfl, .nil⟩
  | case2 rest ih =>
    obtain ⟨first, more, rfl, hlines, hun⟩ := ih
    exact ⟨[], (.crlf, first) :: more, rfl, by simp [hlines], unfused_cons hun (by simp)⟩
  | case3 c rest hnot hc ih =>
    obtain ⟨first, more, rfl, hlines, hun⟩ := ih
    have hbreak : c = '\n' ∨ c = '\r' := by simpa [isBreak] using hc
    obtain rfl | rfl := hbreak
    · exact ⟨[], (.lf, first) :: more, rfl, by simp [hlines], unfused_cons hun (by simp)⟩
    · -- A CR that an LF follows is not read alone: the pair is the case before.
      refine ⟨[], (.cr, first) :: more, rfl, by simp [hlines], unfused_cons hun fun _ hhead => ?_⟩
      obtain ⟨tail, htail⟩ := List.head?_eq_some_iff.mp hhead
      exact hnot tail rfl htail
  | case4 c rest hnot hc hnil ih => exact absurd hnil (physicalLines_ne_nil rest)
  | case5 c rest hnot hc line lines hl ih =>
    obtain ⟨first, more, rfl, hlines, hun⟩ := ih
    obtain ⟨rfl, rfl⟩ := List.cons.inj (hl.symm.trans hlines)
    refine ⟨c :: line, more, ?_, rfl, hun⟩
    cases more <;> rfl

/-- The physical lines are the only lines into which a text is broken. -/
theorem brokenInto_iff {t : Text} {lines : List Text} :
    t.BrokenInto lines ↔ lines = physicalLines t := by
  constructor
  · rintro ⟨first, rest, rfl, rfl, hfree, hun⟩
    have hplain : ∀ line ∈ first :: rest.map Prod.snd, ∀ c ∈ line, isBreak c = false :=
      fun line hline => unbroken_iff.mpr (hfree line hline)
    refine (physicalLines_joined (hplain first (by simp)) ?_ hun).symm
    intro b hb
    exact hplain b.2 (List.mem_cons_of_mem _ (List.mem_map_of_mem hb))
  · rintro rfl
    obtain ⟨first, rest, ht, hlines, hun⟩ := exists_joined t
    exact ⟨first, rest, ht, hlines,
      fun line hline => unbroken_iff.mp (unbroken_of_mem_physicalLines hline), hun⟩

/-! ## Trimmed texts -/

/-- A text is its trimmed content with blanks around it. -/
theorem exists_surrounded (t : Text) :
    ∃ trail, trail.all isBlank = true ∧ t = t.takeWhile isBlank ++ trim t ++ trail := by
  obtain ⟨trail, hblank, hsplit⟩ := exists_trail (trimStart t)
  refine ⟨trail, hblank, ?_⟩
  calc t = t.takeWhile isBlank ++ trimStart t := List.takeWhile_append_dropWhile.symm
    _ = t.takeWhile isBlank ++ (trim t ++ trail) := by rw [trim, ← hsplit]
    _ = t.takeWhile isBlank ++ trim t ++ trail := (List.append_assoc _ _ _).symm

theorem head?_trim (t : Text) : ∀ c ∈ (trim t).head?, isBlank c = false := by
  intro c hc
  obtain ⟨trail, -, hsplit⟩ := exists_trail (trimStart t)
  have hstop := List.head?_dropWhile_not isBlank t
  have hfirst : (trimStart t).head? = some c := by
    rw [hsplit, List.head?_append, ← trim, Option.mem_def.mp hc]
    rfl
  rw [← trimStart, hfirst] at hstop
  exact hstop

/-- The characters of a text that are no blanks. -/
def ink (t : Text) : Text := t.filter fun c => !isBlank c

@[simp] theorem ink_append (s t : Text) : ink (s ++ t) = ink s ++ ink t := List.filter_append ..

theorem ink_of_blank {t : Text} (h : t.all isBlank = true) : ink t = [] := by
  simpa [ink] using h

theorem ink_trim (t : Text) : ink (trim t) = ink t := by
  obtain ⟨trail, hblank, hsplit⟩ := exists_surrounded t
  have hlead : (t.takeWhile isBlank).all isBlank = true := List.all_takeWhile
  calc ink (trim t) = ink (t.takeWhile isBlank ++ trim t ++ trail) := by
        simp [ink_of_blank hlead, ink_of_blank hblank]
    _ = ink t := by rw [← hsplit]

/-- Breaks are blank, so what is no blank stands on the physical lines. -/
theorem flatMap_ink_physicalLines (t : Text) : (physicalLines t).flatMap ink = ink t := by
  fun_induction physicalLines t with
  | case1 => rfl
  | case2 rest ih => simpa [ink] using ih
  | case3 c rest hnot hc ih =>
    have hbreak : c = '\n' ∨ c = '\r' := by simpa [isBreak] using hc
    obtain rfl | rfl := hbreak
    · simpa [ink] using ih
    · simpa [ink] using ih
  | case4 c rest hnot hc hnil ih => exact absurd hnil (physicalLines_ne_nil rest)
  | case5 c rest hnot hc line lines hl ih =>
    rw [hl] at ih
    calc ink (c :: line) ++ lines.flatMap ink = ink [c] ++ (ink line ++ lines.flatMap ink) := by
          rw [← List.singleton_append, ink_append, List.append_assoc]
      _ = ink [c] ++ ink rest := by rw [← ih, List.flatMap_cons]
      _ = ink (c :: rest) := by rw [← ink_append, List.singleton_append]

end Text

/-! ## Lines on physical lines -/

namespace Line

/-- The physical line is the content, behind as many blanks as the line is wide and with blanks
behind it. The content begins and ends with a character that is no blank, and holds no break. -/
structure StandsOn (line : Line) (raw : Text) : Prop where
  surrounded : ∃ lead trail, raw = lead ++ line.content ++ trail ∧ lead.length = line.width ∧
    lead.all Text.isBlank = true ∧ trail.all Text.isBlank = true
  first : ∃ c ∈ line.content.head?, Text.isBlank c = false
  last : ∃ c ∈ line.content.getLast?, Text.isBlank c = false
  unbroken : '\n' ∉ line.content ∧ '\r' ∉ line.content

/-- The lines have growing numbers among those of the physical lines, counted from one. There is one
for each physical line that is not blank, and it stands on that physical line. -/
structure FoundOn (physical : List Text) (lines : List Line) : Prop where
  increasing : (lines.map (·.number)).Pairwise (· < ·)
  inRange : ∀ line ∈ lines, 1 ≤ line.number ∧ line.number ≤ physical.length
  occurs : ∀ n, n ∈ lines.map (·.number) ↔
    1 ≤ n ∧ ∃ raw, physical[n - 1]? = some raw ∧ ∃ c ∈ raw, Text.isBlank c = false
  stands : ∀ line ∈ lines, ∃ raw, physical[line.number - 1]? = some raw ∧ line.StandsOn raw

theorem exists_ofPhysical?_iff (number : Nat) {raw : Text} :
    (∃ line, ofPhysical? number raw = some line) ↔ ∃ c ∈ raw, Text.isBlank c = false := by
  rw [← Option.isSome_iff_exists, Option.isSome_iff_ne_none, Ne, ofPhysical?_eq_none_iff]
  simp

/-- A line read off a physical line stands on it. -/
theorem standsOn_of_ofPhysical? {number : Nat} {raw : Text} {line : Line}
    (hraw : ∀ c ∈ raw, Text.isBreak c = false) (h : ofPhysical? number raw = some line) :
    line.StandsOn raw := by
  have hne : Text.trim raw ≠ [] := by
    intro hnil
    rw [ofPhysical?, hnil] at h
    simp at h
  rw [ofPhysical?_of_trim hne, Option.some.injEq] at h
  subst h
  obtain ⟨trail, htrail, hsplit⟩ := Text.exists_surrounded raw
  refine ⟨⟨_, trail, hsplit, rfl, List.all_takeWhile, htrail⟩, ?_, ?_, ?_⟩
  · have hfirst := List.head?_eq_some_head hne
    exact ⟨_, hfirst, Text.head?_trim raw _ hfirst⟩
  · have hlast := List.getLast?_eq_some_getLast hne
    exact ⟨_, hlast, Text.getLast?_trimEnd _ _ hlast⟩
  · refine Text.unbroken_iff.mp fun c hc => hraw c ?_
    rw [hsplit]
    simp [hc]

/-- What stands on a physical line is what is read off it. -/
theorem StandsOn.ofPhysical?_eq {line : Line} {raw : Text} (h : line.StandsOn raw) :
    ofPhysical? line.number raw = some line := by
  obtain ⟨⟨lead, trail, rfl, hwidth, hlead, htrail⟩, ⟨c, hc, hfirst⟩, ⟨d, hd, hlast⟩, -⟩ := h
  have hne : line.content ≠ [] := by
    intro hnil
    simp [hnil] at hc
  have htrim : Text.trim line.content = line.content := by
    refine Text.trim_eq_self_iff.mpr ⟨fun e he => ?_, fun e he => ?_⟩
    · rwa [Option.mem_unique he hc]
    · rwa [Option.mem_unique he hd]
  rw [ofPhysical?_surrounded hlead htrail hne htrim, hwidth]

theorem mem_ofPhysicals_of_getElem? {number i : Nat} {raws : List Text} {raw : Text} {line : Line}
    (hraw : raws[i]? = some raw) (h : ofPhysical? (number + i) raw = some line) :
    line ∈ ofPhysicals number raws := by
  induction raws generalizing number i with
  | nil => simp at hraw
  | cons first rest ih =>
    rw [ofPhysicals_cons, List.mem_append]
    cases i with
    | zero =>
      obtain rfl : first = raw := by simpa using hraw
      left
      simpa using h
    | succ i =>
      right
      apply ih (by simpa using hraw)
      rw [Nat.add_right_comm]
      exact h

/-- The lines with content are those that stand on a physical line with their number. -/
theorem mem_ofSource_iff {source : Text} {line : Line} :
    line ∈ ofSource source ↔ 1 ≤ line.number ∧
      ∃ raw, (Text.physicalLines source)[line.number - 1]? = some raw ∧ line.StandsOn raw := by
  constructor
  · intro h
    obtain ⟨hle, raw, hraw, hline⟩ := mem_ofPhysicals h
    have hplain := Text.unbroken_of_mem_physicalLines (List.mem_of_getElem? hraw)
    exact ⟨hle, raw, hraw, standsOn_of_ofPhysical? hplain hline⟩
  · rintro ⟨hle, raw, hraw, hstands⟩
    apply mem_ofPhysicals_of_getElem? hraw
    rw [Nat.add_sub_cancel' hle]
    exact hstands.ofPhysical?_eq

/-- A number belongs to a line exactly when the physical line with the number is not blank. -/
theorem mem_number_ofSource_iff {source : Text} {n : Nat} :
    n ∈ (ofSource source).map (·.number) ↔ 1 ≤ n ∧
      ∃ raw, (Text.physicalLines source)[n - 1]? = some raw ∧
        ∃ c ∈ raw, Text.isBlank c = false := by
  constructor
  · intro h
    obtain ⟨line, hmem, rfl⟩ := List.mem_map.mp h
    obtain ⟨hle, raw, hraw, hline⟩ := mem_ofPhysicals hmem
    exact ⟨hle, raw, hraw, (exists_ofPhysical?_iff _).mp ⟨line, hline⟩⟩
  · rintro ⟨hle, raw, hraw, hink⟩
    obtain ⟨line, hline⟩ := (exists_ofPhysical?_iff n).mpr hink
    refine List.mem_map.mpr ⟨line, mem_ofPhysicals_of_getElem? hraw ?_, number_of_ofPhysical? hline⟩
    rw [Nat.add_sub_cancel' hle]
    exact hline

theorem foundOn_ofSource (source : Text) :
    FoundOn (Text.physicalLines source) (ofSource source) := by
  refine ⟨pairwise_number 1 _, ?_, fun n => mem_number_ofSource_iff, ?_⟩
  · intro line hline
    obtain ⟨hle, raw, hraw, -⟩ := mem_ofSource_iff.mp hline
    have hlt := (List.getElem?_eq_some_iff.mp hraw).1
    omega
  · intro line hline
    exact (mem_ofSource_iff.mp hline).2

/-- Lines found on the same physical lines have the same members. -/
theorem FoundOn.subset {physical : List Text} {lines lines' : List Line}
    (h : FoundOn physical lines) (h' : FoundOn physical lines') : lines ⊆ lines' := by
  intro line hline
  have hnumber : line.number ∈ lines'.map (·.number) :=
    (h'.occurs _).mpr ((h.occurs _).mp (List.mem_map_of_mem hline))
  obtain ⟨line', hline', heq⟩ := List.mem_map.mp hnumber
  obtain ⟨raw, hraw, hstands⟩ := h.stands line hline
  obtain ⟨raw', hraw', hstands'⟩ := h'.stands line' hline'
  -- Both lines stand on one physical line, and what stands there is what is read from it.
  rw [heq, hraw, Option.some.injEq] at hraw'
  subst hraw'
  have hsame : some line = some line' := by
    rw [← hstands.ofPhysical?_eq, ← hstands'.ofPhysical?_eq, heq]
  rwa [Option.some.inj hsame]

/-- The physical lines leave no choice of the lines found on them. -/
theorem FoundOn.unique {physical : List Text} {lines lines' : List Line}
    (h : FoundOn physical lines) (h' : FoundOn physical lines') : lines = lines' := by
  have hnumbers {ls : List Line} (hls : FoundOn physical ls) :
      ls.Pairwise fun x y => x.number < y.number := List.pairwise_map.mp hls.increasing
  have : Std.Irrefl fun x y : Line => x.number < y.number := ⟨fun x => Nat.lt_irrefl x.number⟩
  have : Std.Antisymm fun x y : Line => x.number < y.number :=
    ⟨fun x y hxy hyx => absurd hyx (Nat.lt_asymm hxy)⟩
  exact List.Subset.antisymm_of_pairwise (hnumbers h) (hnumbers h') (h.subset h') (h'.subset h)

/-- Only blanks are lost between the physical lines and their contents. -/
theorem ink_ofPhysicals (number : Nat) (raws : List Text) :
    Text.ink ((ofPhysicals number raws).flatMap (·.content)) = raws.flatMap Text.ink := by
  induction raws generalizing number with
  | nil => rfl
  | cons raw rest ih =>
    rw [ofPhysicals_cons, List.flatMap_append, Text.ink_append, ih, List.flatMap_cons]
    congr 1
    by_cases hnil : Text.trim raw = []
    · rw [ofPhysical?, hnil, ← Text.ink_trim raw, hnil]
      rfl
    · rw [ofPhysical?_of_trim hnil]
      simpa using Text.ink_trim raw

end Line

/-- A text is broken into lines at LF, CR LF and CR and nowhere else, and in one way only. The lines
of a source are the only ones found on its physical lines, and hold every character of the source
that is no blank, in order. -/
theorem ofSource_lossless (source : Text) :
    (∀ physical, source.BrokenInto physical ↔ physical = Text.physicalLines source) ∧
    (∀ lines, Line.FoundOn (Text.physicalLines source) lines ↔ lines = Line.ofSource source) ∧
    Text.ink ((Line.ofSource source).flatMap (·.content)) = Text.ink source := by
  refine ⟨fun physical => Text.brokenInto_iff, fun lines => ⟨?_, ?_⟩, ?_⟩
  · intro h
    exact h.unique (Line.foundOn_ofSource source)
  · rintro rfl
    exact Line.foundOn_ofSource source
  · rw [Line.ofSource, Line.ink_ofPhysicals, Text.flatMap_ink_physicalLines]

/-- A separator in front is a column and a form feed within is content. Neither breaks the line, but
a CR does, and the CR LF behind it ends an empty line. -/
example : Line.ofSource "\x1cp\x0cq \r\r\n\u2028 | r\t\n" =
    [⟨1, "p\x0cq", 1⟩, ⟨2, "| r", 3⟩] := by
  decide +kernel

end IndentMarkup
