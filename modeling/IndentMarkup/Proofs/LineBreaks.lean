import IndentMarkup.FileTree.Source
import IndentMarkup.Proofs.SourceLines
import IndentMarkup.Template
import Mathlib.Data.List.Chain

/-!
# The spelling of line breaks

A line can end in LF, CR LF or CR, and how it does makes no difference: whatever breaks stand between
them, the lines of a source are the lines that were put together. One thing has to be kept apart: a CR
in front of an empty line that an LF ends, since the two are read as one break.

The physical lines are the pieces between line feeds once all breaks are unified. Hence a source is
read alike as it is and as it comes out of a file.
-/
namespace IndentMarkup

/-- The spellings of a line break. -/
inductive Break where
  | lf | crlf | cr
  deriving DecidableEq, Repr

def Break.text : Break → Text
  | .lf => ['\n']
  | .crlf => ['\r', '\n']
  | .cr => ['\r']

namespace Text

/-! ## Unified breaks -/

theorem unifyBreaks_cons {c : Char} (hc : c ≠ '\r') (t : Text) :
    unifyBreaks (c :: t) = c :: unifyBreaks t := by
  rw [unifyBreaks]
  · simp [hc]
  · rintro rest rfl
    exact absurd rfl hc

/-- No CR is left once line breaks are unified. -/
theorem return_not_mem_unifyBreaks (t : Text) : '\r' ∉ unifyBreaks t := by
  fun_induction unifyBreaks t with
  | case1 => simp
  | case2 rest ih => simpa using ih
  | case3 c rest hnot ih =>
    by_cases hc : c = '\r'
    · simpa [hc] using ih
    · simpa [hc, Ne.symm hc] using ih

theorem unifyBreaks_eq_self {t : Text} (h : '\r' ∉ t) : unifyBreaks t = t := by
  induction t with
  | nil => rfl
  | cons c rest ih =>
    have hne : c ≠ '\r' := fun hc => h (by simp [hc])
    rw [unifyBreaks_cons hne, ih fun hmem => h (List.mem_cons_of_mem c hmem)]

/-- The physical lines are the pieces between the line feeds of the unified text. -/
theorem physicalLines_eq_pieces (t : Text) : physicalLines t = pieces '\n' (unifyBreaks t) := by
  fun_induction physicalLines t with
  | case1 => rfl
  | case2 rest ih => simp [unifyBreaks, pieces, ih]
  | case3 c rest hnot hc ih =>
    have hbreak : c = '\n' ∨ c = '\r' := by simpa [isBreak] using hc
    have hunify : unifyBreaks (c :: rest) = '\n' :: unifyBreaks rest := by
      rw [unifyBreaks]
      · obtain rfl | rfl := hbreak <;> simp
      · exact hnot
    simp [hunify, pieces, ih]
  | case4 c rest hnot hc hnil ih => exact absurd hnil (physicalLines_ne_nil rest)
  | case5 c rest hnot hc line lines hl ih =>
    have hplain : c ≠ '\n' ∧ c ≠ '\r' := by simpa [isBreak] using hc
    rw [unifyBreaks_cons hplain.2, pieces, if_neg hplain.1, ← ih, hl]

/-- Unifying the line breaks leaves the physical lines. -/
theorem physicalLines_unifyBreaks (t : Text) : physicalLines (unifyBreaks t) = physicalLines t := by
  rw [physicalLines_eq_pieces, physicalLines_eq_pieces t,
    unifyBreaks_eq_self (return_not_mem_unifyBreaks t)]

/-- A character that is no break stands inside a line, between what ends the text before it and what
begins the text behind it. -/
theorem physicalLines_append_cons {c : Char} (hc : isBreak c = false) (x y : Text) :
    physicalLines (x ++ c :: y) = (physicalLines x).dropLast ++
      ((physicalLines x).getLastD [] ++ c :: (physicalLines y).headD []) ::
        (physicalLines y).tail := by
  fun_induction physicalLines x with
  | case1 => simpa using physicalLines_cons hc y
  | case2 rest ih =>
    rw [List.cons_append, List.cons_append, physicalLines, ih]
    cases hr : physicalLines rest with
    | nil => exact absurd hr (physicalLines_ne_nil rest)
    | cons line lines => rfl
  | case3 d rest hnot hd ih =>
    have hbreak : d = '\n' ∨ d = '\r' := by simpa [isBreak] using hd
    have hlines : physicalLines (d :: (rest ++ c :: y)) = [] :: physicalLines (rest ++ c :: y) := by
      obtain rfl | rfl := hbreak
      · exact physicalLines_newline _
      · refine physicalLines_return ?_
        cases rest with
        | nil =>
          rintro h
          simp only [List.nil_append, List.head?_cons, Option.some.injEq] at h
          simp [h, isBreak] at hc
        | cons e rest =>
          rintro h
          simp only [List.cons_append, List.head?_cons, Option.some.injEq] at h
          exact hnot rest rfl (by rw [h])
    rw [List.cons_append, hlines, ih]
    cases hr : physicalLines rest with
    | nil => exact absurd hr (physicalLines_ne_nil rest)
    | cons line lines => rfl
  | case4 d rest hnot hd hnil ih => exact absurd hnil (physicalLines_ne_nil rest)
  | case5 d rest hnot hd line lines hl ih =>
    have hplain : isBreak d = false := by simpa using hd
    rw [List.cons_append, physicalLines_cons hplain, ih, hl]
    cases lines <;> rfl

/-! ## Lines behind breaks -/

/-- A first line and further ones, each behind a break. -/
def joined (first : Text) : List (Break × Text) → Text
  | [] => first
  | (b, line) :: rest => first ++ (b.text ++ joined line rest)

/-- Nowhere stands a CR in front of an empty line that an LF ends. -/
abbrev Unfused (rest : List (Break × Text)) : Prop :=
  rest.IsChain fun this next => ¬(this.1 = .cr ∧ this.2 = [] ∧ next.1 = .lf)

/-- Each spelling of a break ends one line, unless a CR comes to stand in front of an LF. -/
theorem physicalLines_break {b : Break} {t : Text} (h : b = .cr → t.head? ≠ some '\n') :
    physicalLines (b.text ++ t) = [] :: physicalLines t := by
  cases b with
  | lf => exact physicalLines_newline t
  | crlf => rfl
  | cr => exact physicalLines_return (h rfl)

/-- A line feed at the front comes from an empty line and the break behind it. -/
theorem joined_head {line : Text} {rest : List (Break × Text)}
    (hline : ∀ c ∈ line, isBreak c = false) (h : (joined line rest).head? = some '\n') :
    line = [] ∧ ∃ next others, rest = (.lf, next) :: others := by
  cases line with
  | cons c line =>
    have hc : c = '\n' := by cases rest <;> simpa [joined] using h
    have hplain := hline c (by simp)
    simp [hc, isBreak] at hplain
  | nil =>
    cases rest with
    | nil => simp [joined] at h
    | cons first others =>
      obtain ⟨b, next⟩ := first
      cases b with
      | lf => exact ⟨rfl, next, others, rfl⟩
      | crlf => simp [joined, Break.text] at h
      | cr => simp [joined, Break.text] at h

/-- Lines without a break are the physical lines of what they make up, however they are joined. -/
theorem physicalLines_joined {first : Text} {rest : List (Break × Text)}
    (hfirst : ∀ c ∈ first, isBreak c = false) (hrest : ∀ b ∈ rest, ∀ c ∈ b.2, isBreak c = false)
    (hcr : Unfused rest) : physicalLines (joined first rest) = first :: rest.map Prod.snd := by
  induction rest generalizing first with
  | nil => exact physicalLines_unbroken hfirst
  | cons b rest ih =>
    obtain ⟨b, line⟩ := b
    have hline : ∀ c ∈ line, isBreak c = false := hrest (b, line) (by simp)
    have hopen : b = .cr → (joined line rest).head? ≠ some '\n' := by
      intro hb hhead
      obtain ⟨rfl, next, others, rfl⟩ := joined_head hline hhead
      exact (List.isChain_cons_cons.mp hcr).1 ⟨hb, rfl, rfl⟩
    have hlines := ih hline (fun b hb => hrest b (List.mem_cons_of_mem _ hb)) hcr.of_cons
    rw [joined, physicalLines_append_unbroken hfirst, physicalLines_break hopen, hlines]
    simp

end Text

/-! ## Sources -/

theorem ofSource_unifyBreaks (source : Text) :
    Line.ofSource (Text.unifyBreaks source) = Line.ofSource source := by
  rw [Line.ofSource, Text.physicalLines_unifyBreaks, ← Line.ofSource]

/-- Compiling depends on a source through its lines alone. -/
theorem compile_of_ofSource {source source' : Text}
    (h : Line.ofSource source = Line.ofSource source') (separator : Text) :
    compile separator source = compile separator source' := by
  unfold compile parse
  rw [h]

/-- The breaks between lines make no difference, unless a CR and an LF fall together. A source is
read and compiled alike as it is, with its breaks unified, and as it comes out of a file. No character
but LF and CR ends a line. -/
theorem lines_of_breaks :
    (∀ (first : Text) (lines : List Text) (breaks breaks' : List Break),
      (∀ line ∈ first :: lines, '\n' ∉ line ∧ '\r' ∉ line) →
      breaks.length = lines.length → breaks'.length = lines.length →
      Text.Unfused (breaks.zip lines) → Text.Unfused (breaks'.zip lines) →
      let source := Text.joined first (breaks.zip lines)
      let source' := Text.joined first (breaks'.zip lines)
      Line.ofSource source = Line.ofPhysicals 1 (first :: lines) ∧
        Line.ofSource source = Line.ofSource source' ∧
        ∀ separator, compile separator source = compile separator source') ∧
    (∀ source, Line.ofSource (Text.unifyBreaks source) = Line.ofSource source ∧
      ∀ separator, compile separator (Text.unifyBreaks source) = compile separator source) ∧
    (∀ (t : FileTree) (p : Path) (bytes : Utf8.Bytes) (source : Text), p.isRefused = false →
      t.read p = .ok bytes → Utf8.decode? bytes = some source →
      ∃ text, t.readText p = .ok text ∧ Line.ofSource text = Line.ofSource source ∧
        ∀ separator, compile separator text = compile separator source) ∧
    (∀ (x y : Text) (c : Char), c ≠ '\n' → c ≠ '\r' →
      Text.physicalLines (x ++ c :: y) = (Text.physicalLines x).dropLast ++
        ((Text.physicalLines x).getLastD [] ++ c :: (Text.physicalLines y).headD []) ::
          (Text.physicalLines y).tail) := by
  refine ⟨?_, ?_, ?_, ?_⟩
  · intro first lines breaks breaks' hfree hlen hlen' hcr hcr' source source'
    have hplain : ∀ line ∈ first :: lines, ∀ c ∈ line, Text.isBreak c = false := by
      intro line hline c hc
      obtain ⟨hlf, hret⟩ := hfree line hline
      have hne : c ≠ '\n' ∧ c ≠ '\r' := ⟨fun h => hlf (h ▸ hc), fun h => hret (h ▸ hc)⟩
      simp [Text.isBreak, hne]
    have hjoined (bs : List Break) (hbs : bs.length = lines.length)
        (hun : Text.Unfused (bs.zip lines)) :
        Line.ofSource (Text.joined first (bs.zip lines)) = Line.ofPhysicals 1 (first :: lines) := by
      rw [Line.ofSource, Text.physicalLines_joined (hplain first (by simp)) ?_ hun,
        List.map_snd_zip (by omega)]
      intro b hb
      exact hplain b.2 (List.mem_cons_of_mem _ (List.of_mem_zip hb).2)
    have hsame : Line.ofSource source = Line.ofSource source' :=
      (hjoined breaks hlen hcr).trans (hjoined breaks' hlen' hcr').symm
    exact ⟨hjoined breaks hlen hcr, hsame, compile_of_ofSource hsame⟩
  · intro source
    exact ⟨ofSource_unifyBreaks source, compile_of_ofSource (ofSource_unifyBreaks source)⟩
  · intro t p bytes source husable hread hdecode
    refine ⟨Text.unifyBreaks source, ?_, ofSource_unifyBreaks source,
      compile_of_ofSource (ofSource_unifyBreaks source)⟩
    simp [FileTree.readText, FileTree.readBytes_of_not_refused husable, hread, hdecode,
      Except.mapError, bind, Except.bind, pure, Except.pure]
  · intro x y c hlf hret
    exact Text.physicalLines_append_cons (by simp [Text.isBreak, hlf, hret]) x y

/-- An empty line between two breaks, spelled with line feeds and with returns. -/
theorem lines_of_breaks_mixed :
    let lines : List Text := ["".toList, "  b".toList]
    let source := Text.joined "p" ([Break.lf, Break.lf].zip lines)
    let source' := Text.joined "p" ([Break.cr, Break.crlf].zip lines)
    source = "p\n\n  b".toList ∧ source' = "p\r\r\n  b".toList ∧
      Line.ofSource source = Line.ofSource source' ∧
      compile defaultSeparator source = compile defaultSeparator source' ∧
      compile defaultSeparator source' = .ok "<p><b></b></p>".toList := by
  intro lines source source'
  obtain ⟨hjoined, -, -, -⟩ := lines_of_breaks
  obtain ⟨-, hsame, hcompile⟩ := hjoined "p" lines [.lf, .lf] [.cr, .crlf] (by decide +kernel) rfl
    rfl (by decide +kernel) (by decide +kernel)
  exact ⟨by decide +kernel, by decide +kernel, hsame, hcompile defaultSeparator,
    by decide +kernel⟩

end IndentMarkup
