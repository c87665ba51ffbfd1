import IndentMarkup.Proofs.Moving
import IndentMarkup.Line
import Mathlib.Data.List.TakeWhile

/-!
# Lines of texts put together

What the lines of a source are when it is put together from smaller texts: texts joined by a line
break, texts without a break, and texts with every line shifted to the right.
-/
namespace IndentMarkup

namespace Text

/-! ## Blanks at the ends -/

theorem trimStart_append {p : Text} (hp : p.all isBlank = true) (t : Text) :
    trimStart (p ++ t) = trimStart t := by
  unfold trimStart
  exact List.dropWhile_append_of_pos (by simpa using hp)

theorem trim_append {p : Text} (hp : p.all isBlank = true) (t : Text) :
    trim (p ++ t) = trim t := by
  rw [trim, trim, trimStart_append hp]

theorem trimStart_eq_self_iff {t : Text} :
    trimStart t = t ↔ ∀ c ∈ t.head?, isBlank c = false := by
  rw [trimStart, List.dropWhile_eq_self_iff]
  cases t <;> simp

theorem trimEnd_eq_self_iff {t : Text} :
    trimEnd t = t ↔ ∀ c ∈ t.getLast?, isBlank c = false := by
  rw [← List.head?_reverse, ← trimStart_eq_self_iff, trimEnd, ← trimStart, List.reverse_eq_iff]

/-- Unchanged by trimming are the texts that neither begin nor end with a blank. -/
theorem trim_eq_self_iff {t : Text} :
    trim t = t ↔ (∀ c ∈ t.head?, isBlank c = false) ∧ ∀ c ∈ t.getLast?, isBlank c = false := by
  rw [← trimStart_eq_self_iff, ← trimEnd_eq_self_iff, trim]
  constructor
  · intro h
    have hstart : trimStart t = t := by
      refine (List.dropWhile_suffix isBlank).eq_of_length_le ?_
      have hend := (List.dropWhile_sublist isBlank (l := (trimStart t).reverse)).length_le
      rw [← List.length_reverse, ← trimEnd, h, List.length_reverse] at hend
      exact hend
    exact ⟨hstart, by rwa [hstart] at h⟩
  · rintro ⟨hstart, hend⟩
    rw [hstart, hend]

theorem trim_eq_nil_iff {t : Text} : trim t = [] ↔ t.all isBlank = true := by
  unfold trim trimEnd trimStart
  rw [List.reverse_eq_nil_iff, List.dropWhile_eq_nil_iff]
  simp only [List.mem_reverse, List.all_eq_true]
  constructor
  · intro h c hc
    rw [← List.takeWhile_append_dropWhile (p := isBlank) (l := t)] at hc
    rcases List.mem_append.mp hc with hc | hc
    · exact List.mem_takeWhile_imp hc
    · exact h c hc
  · intro h c hc
    exact h c (List.dropWhile_sublist _ |>.mem hc)

/-- The blanks that end a text. -/
theorem exists_trail (t : Text) : ∃ trail, trail.all isBlank = true ∧ t = trimEnd t ++ trail := by
  refine ⟨(t.reverse.takeWhile isBlank).reverse, ?_, ?_⟩
  · simp only [List.all_reverse, List.all_eq_true]
    exact fun c hc => List.mem_takeWhile_imp hc
  · rw [trimEnd, ← List.reverse_append, List.takeWhile_append_dropWhile, List.reverse_reverse]

theorem getLast?_trimEnd (t : Text) : ∀ c ∈ (trimEnd t).getLast?, isBlank c = false := by
  intro c hc
  have hstop := List.head?_dropWhile_not isBlank t.reverse
  rw [trimEnd, List.getLast?_reverse] at hc
  rw [Option.mem_def.mp hc] at hstop
  exact hstop

/-! ## Physical lines -/

/-- A character that is no break goes in front of the first line. -/
theorem physicalLines_cons {c : Char} (hc : isBreak c = false) (t : Text) :
    physicalLines (c :: t) =
      (c :: (physicalLines t).headD []) :: (physicalLines t).tail := by
  have hr : c ≠ '\r' := by rintro rfl; simp [isBreak] at hc
  rw [physicalLines]
  · rw [if_neg (by simp [hc])]
    cases physicalLines t <;> rfl
  · rintro rest rfl
    exact absurd rfl hr

/-- Characters that break no line go in front of the first line. -/
theorem physicalLines_append_unbroken {p : Text} (hp : ∀ c ∈ p, isBreak c = false) (t : Text) :
    physicalLines (p ++ t) = (p ++ (physicalLines t).headD []) :: (physicalLines t).tail := by
  induction p with
  | nil =>
    cases h : physicalLines t with
    | nil => exact absurd h (physicalLines_ne_nil t)
    | cons first rest => exact h
  | cons c p ih =>
    rw [List.cons_append, physicalLines_cons (hp c (by simp)),
      ih fun d hd => hp d (List.mem_cons_of_mem _ hd)]
    rfl

theorem physicalLines_unbroken {t : Text} (h : ∀ c ∈ t, isBreak c = false) :
    physicalLines t = [t] := by
  simpa using physicalLines_append_unbroken h []

@[simp] theorem physicalLines_newline (t : Text) :
    physicalLines ('\n' :: t) = [] :: physicalLines t := by
  rw [physicalLines]
  · rfl
  · rintro rest h
    simp at h

theorem physicalLines_return {t : Text} (h : t.head? ≠ some '\n') :
    physicalLines ('\r' :: t) = [] :: physicalLines t := by
  rw [physicalLines]
  · rfl
  · rintro rest - rfl
    simp at h

/-- What begins with a break ends the last line of the text before it, unless the two make up one
break together. -/
theorem physicalLines_append_break {r : Text} {ls : List Text} (hr : physicalLines r = [] :: ls)
    (x : Text) (hx : x.getLast? = some '\r' → r.head? ≠ some '\n') :
    physicalLines (x ++ r) = physicalLines x ++ ls := by
  fun_induction physicalLines x with
  | case1 => simpa using hr
  | case2 rest ih =>
    rw [List.cons_append, List.cons_append, physicalLines, ih, List.cons_append]
    exact fun h => hx (by simp [List.getLast?_cons, h])
  | case3 c rest hnot hc ih =>
    have htail : rest.getLast? = some '\r' → r.head? ≠ some '\n' :=
      fun h => hx (by simp [List.getLast?_cons, h])
    rw [List.cons_append, List.cons_append, ← ih htail]
    have hc' : c = '\n' ∨ c = '\r' := by simpa [isBreak] using hc
    obtain rfl | rfl := hc'
    · exact physicalLines_newline _
    · refine physicalLines_return ?_
      cases rest with
      | nil => simpa using hx (by simp)
      | cons d rest =>
        intro hd
        simp only [List.cons_append, List.head?_cons, Option.some.injEq] at hd
        exact hnot rest rfl (by rw [hd])
  | case4 c rest hnot hc hnil ih => exact absurd hnil (physicalLines_ne_nil rest)
  | case5 c rest hnot hc line lines hl ih =>
    have htail : rest.getLast? = some '\r' → r.head? ≠ some '\n' :=
      fun h => hx (by simp [List.getLast?_cons, h])
    have hb : isBreak c = false := by simpa using hc
    rw [List.cons_append, physicalLines_cons hb, ih htail, hl]
    rfl

/-- A line feed parts the physical lines, unless a CR in front of it takes it in. -/
theorem physicalLines_append_newline (x y : Text) (hx : x.getLast? ≠ some '\r') :
    physicalLines (x ++ '\n' :: y) = physicalLines x ++ physicalLines y :=
  physicalLines_append_break (physicalLines_newline y) x fun h => absurd h hx

/-- No physical line holds a break. -/
theorem unbroken_of_mem_physicalLines {t line : Text} (h : line ∈ physicalLines t) :
    ∀ c ∈ line, isBreak c = false := by
  fun_induction physicalLines t generalizing line with
  | case1 => simp_all
  | case2 rest ih =>
    rcases List.mem_cons.mp h with rfl | h
    · simp
    · exact ih h
  | case3 c rest hnot hc ih =>
    rcases List.mem_cons.mp h with rfl | h
    · simp
    · exact ih h
  | case4 c rest hnot hc hnil ih => exact absurd hnil (physicalLines_ne_nil rest)
  | case5 c rest hnot hc first others hl ih =>
    rw [hl] at ih
    rcases List.mem_cons.mp h with rfl | h
    · have hfirst := ih (List.mem_cons_self ..)
      simpa [hc] using hfirst
    · exact ih (List.mem_cons_of_mem _ h)

/-- Lines without a break, joined by line feeds, are the physical lines of what they make up. -/
theorem physicalLines_intercalate {ls : List Text} (h : ∀ l ∈ ls, ∀ c ∈ l, isBreak c = false)
    (hne : ls ≠ []) : physicalLines (['\n'].intercalate ls) = ls := by
  induction ls with
  | nil => exact absurd rfl hne
  | cons l ls ih =>
    have hl := h l (by simp)
    cases ls with
    | nil => simpa using physicalLines_unbroken hl
    | cons m ls =>
      have hlast : l.getLast? ≠ some '\r' := by
        intro hr
        have := hl _ (List.mem_of_getLast? hr)
        simp [isBreak] at this
      rw [List.intercalate_cons_cons, List.append_assoc, List.singleton_append,
        physicalLines_append_newline _ _ hlast, physicalLines_unbroken hl,
        ih (fun k hk => h k (List.mem_cons_of_mem _ hk)) (by simp)]
      rfl

end Text

/-! ## Lines with content -/

namespace Line

theorem ofPhysicals_cons (number : Nat) (raw : Text) (rest : List Text) :
    ofPhysicals number (raw :: rest) =
      (ofPhysical? number raw).toList ++ ofPhysicals (number + 1) rest := by
  rw [ofPhysicals]
  cases ofPhysical? number raw <;> rfl

theorem ofPhysicals_append (number : Nat) (xs ys : List Text) :
    ofPhysicals number (xs ++ ys) =
      ofPhysicals number xs ++ ofPhysicals (number + xs.length) ys := by
  induction xs generalizing number with
  | nil => rfl
  | cons raw xs ih =>
    rw [List.cons_append, ofPhysicals_cons, ofPhysicals_cons, ih, List.append_assoc,
      List.length_cons, Nat.add_right_comm, Nat.add_assoc]

theorem ofPhysical?_eq_none_iff {number : Nat} {raw : Text} :
    ofPhysical? number raw = none ↔ raw.all Text.isBlank = true := by
  rw [← Text.trim_eq_nil_iff]
  unfold ofPhysical?
  cases Text.trim raw <;> simp

theorem ofPhysical?_of_trim {number : Nat} {raw : Text} (h : Text.trim raw ≠ []) :
    ofPhysical? number raw =
      some ⟨(raw.takeWhile Text.isBlank).length, Text.trim raw, number⟩ := by
  unfold ofPhysical?
  cases ht : Text.trim raw with
  | nil => exact absurd ht h
  | cons c rest => rfl

/-- The physical lines of a text that a line feed ends, whatever follows. A carriage return in front
of the line feed is one break with it, so a blank line at the end may be lost. -/
theorem exists_physicalLines_front (x : Text) :
    ∃ front, (∀ y, Text.physicalLines (x ++ '\n' :: y) = front ++ Text.physicalLines y) ∧
      ofPhysicals 1 front = ofSource x := by
  by_cases hx : x.getLast? = some '\r'
  · obtain ⟨init, rfl⟩ := List.getLast?_eq_some_iff.mp hx
    have hone := Text.physicalLines_append_break
      (show Text.physicalLines ['\r'] = [] :: [[]] from rfl) init (by simp)
    refine ⟨Text.physicalLines init, fun y => ?_, ?_⟩
    · rw [List.append_assoc, List.singleton_append]
      exact Text.physicalLines_append_break rfl init (by simp)
    · rw [ofSource, hone, ofPhysicals_append]
      simp [ofPhysicals]
  · exact ⟨Text.physicalLines x, fun y => Text.physicalLines_append_newline x y hx, rfl⟩

/-- The lines of two texts joined by a line feed. -/
theorem ofSource_append_newline (x y : Text) :
    ∃ n, ofSource (x ++ '\n' :: y) = ofSource x ++ ofPhysicals n (Text.physicalLines y) := by
  obtain ⟨front, hlines, hsource⟩ := exists_physicalLines_front x
  exact ⟨1 + front.length, by rw [ofSource, hlines, ofPhysicals_append, hsource]⟩

/-- Lines counted from further on. -/
theorem ofPhysicals_add (number d : Nat) (raws : List Text) :
    ofPhysicals (number + d) raws = (ofPhysicals number raws).map (moved id (· + d)) := by
  induction raws generalizing number with
  | nil => rfl
  | cons raw rest ih =>
    have hone : ofPhysical? (number + d) raw = (ofPhysical? number raw).map (moved id (· + d)) := by
      unfold ofPhysical?
      cases Text.trim raw <;> rfl
    rw [ofPhysicals_cons, ofPhysicals_cons, List.map_append, ← ih, hone, Nat.add_right_comm]
    cases ofPhysical? number raw <;> rfl

end Line

/-- The number of physical lines in front of what follows the text and a line feed. -/
def linesBefore (x : Text) : Nat := (Text.physicalLines (x ++ ['\n'])).length - 1

/-- Behind a text and a line feed, the lines of another text are its own, numbered further on. -/
theorem ofSource_joined (x y : Text) :
    Line.ofSource (x ++ '\n' :: y) =
      Line.ofSource x ++ (Line.ofSource y).map (Line.moved id (· + linesBefore x)) := by
  obtain ⟨front, hlines, hsource⟩ := Line.exists_physicalLines_front x
  have hbefore : linesBefore x = front.length := by simp [linesBefore, hlines]
  rw [Line.ofSource, hlines, Line.ofPhysicals_append, hsource, hbefore, Line.ofPhysicals_add]
  rfl

/-! ## Shifted texts -/

namespace Text

/-- What is left of the current line is blank. -/
def blankLine (t : Text) : Bool := (t.takeWhile fun c => !isBreak c).all isBlank

/-- Columns in front of every line that is not blank, the current one only at its start. -/
def shiftFrom (columns : Nat) : Bool → Text → Text
  | _, [] => []
  | start, c :: rest =>
    if isBreak c then c :: shiftFrom columns true rest
    else if start && !blankLine (c :: rest) then
      List.replicate columns ' ' ++ c :: shiftFrom columns false rest
    else c :: shiftFrom columns false rest

/-- The text with every line that is not blank moved to the right. -/
def shift (columns : Nat) (t : Text) : Text := shiftFrom columns true t

def shiftLine (columns : Nat) (raw : Text) : Text :=
  if raw.all isBlank then raw else List.replicate columns ' ' ++ raw

@[simp] theorem shiftLine_nil (columns : Nat) : shiftLine columns [] = [] := rfl

theorem physicalLines_headD (t : Text) :
    (physicalLines t).headD [] = t.takeWhile fun c => !isBreak c := by
  induction t with
  | nil => rfl
  | cons c rest ih =>
    cases hc : isBreak c with
    | false =>
      rw [physicalLines_cons hc, List.headD_cons, ih, List.takeWhile_cons_of_pos (by simp [hc])]
    | true =>
      rw [List.takeWhile_cons_of_neg (by simp [hc])]
      unfold physicalLines
      split <;> simp_all

theorem shiftFrom_true_head {columns : Nat} {t : Text} (h : t.head? ≠ some '\n') :
    (shiftFrom columns true t).head? ≠ some '\n' := by
  cases t with
  | nil => simp [shiftFrom]
  | cons c rest =>
    rw [shiftFrom]
    split
    · simpa using h
    · split
      · cases columns with
        | zero => simpa using h
        | succ n => simp [List.replicate_succ]
      · simpa using h

/-- Shifting works line by line. Behind the start of a line, it leaves that line alone. -/
theorem physicalLines_shiftFrom (columns : Nat) (t : Text) :
    physicalLines (shiftFrom columns true t) = (physicalLines t).map (shiftLine columns) ∧
    physicalLines (shiftFrom columns false t) =
      (physicalLines t).headD [] :: (physicalLines t).tail.map (shiftLine columns) := by
  fun_induction physicalLines t with
  | case1 => simp [shiftFrom]
  | case2 rest ih => simp [shiftFrom, isBreak, physicalLines, ih.1]
  | case3 c rest hnot hc ih =>
    have hbreak : physicalLines (c :: shiftFrom columns true rest) =
        [] :: physicalLines (shiftFrom columns true rest) := by
      have hc' : c = '\n' ∨ c = '\r' := by simpa [isBreak] using hc
      obtain rfl | rfl := hc'
      · exact physicalLines_newline _
      · refine physicalLines_return (shiftFrom_true_head ?_)
        cases rest with
        | nil => simp
        | cons d rest =>
          intro hd
          simp only [List.head?_cons, Option.some.injEq] at hd
          exact hnot rest rfl (by rw [hd])
    simp [shiftFrom, hc, hbreak, ih.1]
  | case4 c rest hnot hc hnil ih => exact absurd hnil (physicalLines_ne_nil rest)
  | case5 c rest hnot hc line lines hl ih =>
    have hb : isBreak c = false := by simpa using hc
    have hline : line = rest.takeWhile fun c => !isBreak c := by
      rw [← physicalLines_headD, hl]
      rfl
    have hfalse : physicalLines (c :: shiftFrom columns false rest) =
        (c :: line) :: lines.map (shiftLine columns) := by
      rw [physicalLines_cons hb, ih.2, hl]
      rfl
    have hblank : blankLine (c :: rest) = (c :: line).all isBlank := by
      simp [blankLine, hb, hline]
    refine ⟨?_, by simpa [shiftFrom, hb] using hfalse⟩
    rw [shiftFrom, if_neg hc, hblank, List.map_cons, shiftLine]
    cases hall : (c :: line).all isBlank with
    | true => simpa using hfalse
    | false =>
      have hspace : ∀ d ∈ List.replicate columns ' ', isBreak d = false := by
        intro d hd
        rw [List.eq_of_mem_replicate hd]
        rfl
      simp [physicalLines_append_unbroken hspace, hfalse]

/-- A shift moves each physical line by itself. -/
theorem physicalLines_shift (columns : Nat) (t : Text) :
    physicalLines (shift columns t) = (physicalLines t).map (shiftLine columns) :=
  (physicalLines_shiftFrom columns t).1

theorem all_isBlank_replicate (columns : Nat) :
    (List.replicate columns ' ' : Text).all isBlank = true := by
  simp

end Text

namespace Line

theorem ofPhysical?_shiftLine (columns number : Nat) (raw : Text) :
    ofPhysical? number (Text.shiftLine columns raw) =
      (ofPhysical? number raw).map (moved (· + columns) id) := by
  rw [Text.shiftLine]
  cases hall : raw.all Text.isBlank with
  | true =>
    rw [if_pos rfl, ofPhysical?_eq_none_iff.mpr hall]
    rfl
  | false =>
    have ht : Text.trim raw ≠ [] := by
      rw [Ne, Text.trim_eq_nil_iff, hall]
      simp
    have hp := Text.all_isBlank_replicate columns
    have he := Text.trim_append hp raw
    rw [if_neg (by simp), ofPhysical?_of_trim (by rw [he]; exact ht), ofPhysical?_of_trim ht, he,
      List.takeWhile_append_of_pos (by simp)]
    simp [moved, Nat.add_comm]

/-- The lines of a shifted source are the lines, shifted. -/
theorem ofPhysicals_shift (columns number : Nat) (raws : List Text) :
    ofPhysicals number (raws.map (Text.shiftLine columns)) =
      (ofPhysicals number raws).map (moved (· + columns) id) := by
  induction raws generalizing number with
  | nil => rfl
  | cons raw rest ih =>
    rw [List.map_cons, ofPhysicals_cons, ofPhysicals_cons, List.map_append, ← ih,
      ofPhysical?_shiftLine]
    cases ofPhysical? number raw <;> rfl

end Line

/-- The lines of a source, shifted to the right and counted from further on. -/
def shiftedLines (columns d : Nat) (source : Text) : List Line :=
  (Line.ofSource source).map (Line.moved (· + columns) (· + d))

/-- A shifted source on the lines after a text. -/
theorem ofSource_append_shift {x : Text} (hx : x.getLast? ≠ some '\r') (columns : Nat) (a : Text) :
    Line.ofSource (x ++ '\n' :: Text.shift columns a) =
      Line.ofSource x ++ shiftedLines columns (Text.physicalLines x).length a := by
  rw [Line.ofSource, Text.physicalLines_append_newline x _ hx, Line.ofPhysicals_append,
    Text.physicalLines_shift, Line.ofPhysicals_shift, Line.ofPhysicals_add, List.map_map]
  rfl

end IndentMarkup
