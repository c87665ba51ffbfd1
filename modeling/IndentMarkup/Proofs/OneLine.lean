import IndentMarkup.Proofs.HalfDedents
import IndentMarkup.Proofs.Rendering
import IndentMarkup.Proofs.SourceLines

/-!
# Output on one line

No physical line holds a line break. Whatever the reader takes from a line's content is a part of
it, so no name, attribute, argument or inline text of a document holds one either. Deeper lines are
added with a space or the separator between, and rendering only adds marks: a source comes out on one
line.
-/
namespace IndentMarkup

namespace Text

/-! ## Unbroken texts -/

/-- The text stays on one line. -/
def Unbroken (t : Text) : Prop := ∀ c ∈ t, isBreak c = false

instance (t : Text) : Decidable (Unbroken t) := List.decidableBAll _ t

@[simp] theorem unbroken_nil : Unbroken [] := by simp [Unbroken]

@[simp] theorem unbroken_cons_iff {c : Char} {t : Text} :
    Unbroken (c :: t) ↔ isBreak c = false ∧ Unbroken t := by
  simp [Unbroken]

@[simp] theorem unbroken_append_iff {s t : Text} : Unbroken (s ++ t) ↔ Unbroken s ∧ Unbroken t := by
  simp [Unbroken, or_imp, forall_and]

/-- A part of an unbroken text is unbroken. -/
theorem Unbroken.part {s t : Text} (h : Unbroken t) (hs : s ⊆ t) : Unbroken s :=
  fun c hc => h c (hs hc)

theorem unbroken_flatMap {α : Type} {xs : List α} {f : α → Text} (h : ∀ x ∈ xs, Unbroken (f x)) :
    Unbroken (xs.flatMap f) := by
  intro c hc
  obtain ⟨x, hx, hcx⟩ := List.mem_flatMap.mp hc
  exact h x hx c hcx

theorem unbroken_intercalate {separator : Text} {ts : List Text} (hs : Unbroken separator)
    (h : ∀ t ∈ ts, Unbroken t) : Unbroken (separator.intercalate ts) := by
  induction ts with
  | nil => simp
  | cons t ts ih =>
    obtain ⟨ht, hrest⟩ := List.forall_mem_cons.mp h
    cases ts with
    | nil => simpa using ht
    | cons u ts =>
      rw [List.intercalate_cons_cons]
      simp only [unbroken_append_iff]
      exact ⟨⟨ht, hs⟩, ih hrest⟩

/-! ## Parts -/

theorem trimStart_subset (t : Text) : trimStart t ⊆ t := (List.dropWhile_sublist _).subset

theorem trim_subset (t : Text) : trim t ⊆ t := by
  intro c hc
  rw [trim, trimEnd, List.mem_reverse] at hc
  exact trimStart_subset t (List.mem_reverse.mp ((List.dropWhile_sublist _).subset hc))

theorem subset_of_mem_words {t w : Text} (h : w ∈ words t) : w ⊆ t := by
  induction t generalizing w with
  | nil => simp at h
  | cons c rest ih =>
    rw [words] at h
    split at h
    · exact List.subset_cons_of_subset c (ih h)
    · unfold addToWords at h
      split at h
      · rename_i first others _ hwords
        rw [hwords] at ih
        rcases List.mem_cons.mp h with rfl | h
        · exact List.cons_subset_cons c (ih (List.mem_cons_self ..))
        · exact List.subset_cons_of_subset c (ih (List.mem_cons_of_mem _ h))
      · rcases List.mem_cons.mp h with rfl | h
        · simp
        · exact List.subset_cons_of_subset c (ih h)

end Text

/-! ## What is read from a text is part of it -/

theorem readName?_subset {t name tail : Text} (h : readName? t = some (name, tail)) :
    name ⊆ t ∧ tail ⊆ t := by
  unfold readName? at h
  split at h
  · simp at h
  · split at h
    · obtain ⟨rfl, rfl⟩ : _ = name ∧ _ = tail := by simpa using h
      exact ⟨List.cons_subset_cons _ (List.takeWhile_sublist _).subset,
        List.subset_cons_of_subset _ (List.dropWhile_sublist _).subset⟩
    · simp at h

def Shorthand.value : Shorthand → Text
  | .class value => value
  | .id value => value

theorem Shorthand.value_of_ofMark? {mark : Char} {value : Text} {s : Shorthand}
    (h : ofMark? mark value = some s) : s.value = value := by
  unfold ofMark? at h
  split at h
  · simp at h
  · split at h
    · rw [← Option.some.inj h]
      rfl
    · split at h
      · rw [← Option.some.inj h]
        rfl
      · simp at h

/-- Shorthands and what follows them are made of characters of the text. -/
theorem Shorthand.readAll_subset (t : Text) :
    (∀ s ∈ (readAll t).1, s.value ⊆ t) ∧ (readAll t).2 ⊆ t := by
  fun_induction readAll t with
  | case1 => simp
  | case2 mark rest hmark => simp
  | case3 mark rest s hmark more tail hrest ih =>
    rw [hrest] at ih
    have hpart : rest.dropWhile isNameChar ⊆ mark :: rest :=
      List.subset_cons_of_subset _ (List.dropWhile_sublist _).subset
    refine ⟨List.forall_mem_cons.mpr ⟨?_, fun s hs => List.Subset.trans (ih.1 s hs) hpart⟩,
      List.Subset.trans ih.2 hpart⟩
    rw [value_of_ofMark? hmark]
    exact List.subset_cons_of_subset _ (List.takeWhile_sublist _).subset

theorem readQuoted?_subset {quote : Char} {t value rest : Text}
    (h : readQuoted? quote t = some (value, rest)) : value ⊆ t ∧ rest ⊆ t := by
  unfold readQuoted? at h
  split at h
  · simp at h
  · rename_i c r hr
    split at h
    · obtain ⟨rfl, rfl⟩ : _ = value ∧ _ = rest := by simpa using h
      have hdrop : c :: r ⊆ t := hr ▸ (List.dropWhile_sublist _).subset
      exact ⟨(List.takeWhile_sublist _).subset, List.Subset.trans (List.subset_cons_self c r) hdrop⟩
    · simp at h

theorem readBare?_subset {t value rest : Text} (h : readBare? t = some (value, rest)) :
    value ⊆ t ∧ rest ⊆ t := by
  unfold readBare? at h
  simp only at h
  split at h
  · simp at h
  · rename_i c v hv
    split at h
    · obtain ⟨rfl, rfl⟩ : _ = value ∧ _ = rest := by simpa using h
      exact ⟨hv ▸ (List.takeWhile_sublist _).subset, (List.dropWhile_sublist _).subset⟩
    · simp at h

theorem readValue?_subset {t value rest : Text} (h : readValue? t = some (value, rest)) :
    value ⊆ t ∧ rest ⊆ t := by
  unfold readValue? at h
  split at h
  · simp at h
  · rename_i c r
    split at h
    · obtain ⟨hvalue, hrest⟩ := readQuoted?_subset h
      exact ⟨List.subset_cons_of_subset c hvalue, List.subset_cons_of_subset c hrest⟩
    · exact readBare?_subset h

theorem readAttribute?_subset {t rest : Text} {a : Text × Text}
    (h : readAttribute? t = some (a, rest)) : a.1 ⊆ t ∧ a.2 ⊆ t ∧ rest ⊆ t := by
  unfold readAttribute? at h
  split at h
  · simp at h
  · rename_i c r
    split at h
    · split at h
      · rename_i written hw
        simp only [Option.map_eq_some_iff, Prod.mk.injEq] at h
        obtain ⟨⟨value, tail⟩, hv, rfl, rfl⟩ := h
        obtain ⟨hvalue, htail⟩ := readValue?_subset hv
        have hdrop : '=' :: written ⊆ c :: r :=
          hw ▸ List.subset_cons_of_subset c (List.dropWhile_sublist _).subset
        have hwritten : written ⊆ c :: r := List.Subset.trans (List.subset_cons_self _ _) hdrop
        exact ⟨List.cons_subset_cons c (List.takeWhile_sublist _).subset,
          List.Subset.trans hvalue hwritten, List.Subset.trans htail hwritten⟩
      · simp at h
    · simp at h

/-- Keys, values and what follows them are made of characters of the text. -/
theorem readAttributes_subset (t : Text) :
    (∀ a ∈ (readAttributes t).1, a.1 ⊆ t ∧ a.2 ⊆ t) ∧ (readAttributes t).2 ⊆ t := by
  fun_induction readAttributes t with
  | case1 t hnone => simp
  | case2 t a rest hsome more tail hrest ih =>
    obtain ⟨hkey, hvalue, htail⟩ := readAttribute?_subset hsome
    have hpart : Text.trimStart rest ⊆ t := List.Subset.trans (Text.trimStart_subset rest) htail
    rw [hrest] at ih
    refine ⟨List.forall_mem_cons.mpr ⟨⟨hkey, hvalue⟩, fun b hb => ?_⟩,
      List.Subset.trans ih.2 hpart⟩
    exact ⟨List.Subset.trans (ih.1 b hb).1 hpart, List.Subset.trans (ih.1 b hb).2 hpart⟩

theorem afterMarker_subset (t : Text) : afterMarker t ⊆ t := by
  unfold afterMarker
  split
  · exact List.subset_cons_self _ _
  · exact List.Subset.refl t

/-! ## Unbroken documents -/

def Attributes.Unbroken (attributes : Attributes) : Prop :=
  ∀ a ∈ attributes, a.1.Unbroken ∧ a.2.Unbroken

structure Head.Unbroken (head : Head) : Prop where
  name : head.name.Unbroken
  attributes : Attributes.Unbroken head.attributes
  args : head.args.Unbroken

def Leaf.Unbroken : Leaf → Prop
  | .literal segments => ∀ s ∈ segments, s.Unbroken
  | .raw markup => markup.Unbroken
  | .text value => value.Unbroken
  | .trailing value => value.Unbroken

/-- The texts that a node brings with it are unbroken. -/
def Piece.Unbroken : Piece → Prop
  | .head h => h.Unbroken
  | .leaf l => l.Unbroken
  | .foreign _ => True

structure TagLine.Unbroken (tag : TagLine) : Prop where
  head : tag.head.Unbroken
  inline : ∀ leaf ∈ tag.inline, leaf.Unbroken

def Reading.Unbroken : Reading → Prop
  | .comment => True
  | .leaf l => l.Unbroken
  | .tag t => t.Unbroken

/-! ## Lines -/

theorem OrderedMap.forall_mem_insert {κ ν : Type} [BEq κ] [LawfulBEq κ] {m : OrderedMap κ ν}
    {p : κ × ν → Prop} {k : κ} {v : ν} (hm : ∀ b ∈ m, p b) (hkv : p (k, v)) :
    ∀ b ∈ m.insert k v, p b := by
  induction m with
  | nil => simpa using hkv
  | cons b rest ih =>
    obtain ⟨hb, hrest⟩ := List.forall_mem_cons.mp hm
    rw [OrderedMap.insert]
    split
    · rename_i hk
      rw [eq_of_beq hk]
      exact List.forall_mem_cons.mpr ⟨hkv, hrest⟩
    · exact List.forall_mem_cons.mpr ⟨hb, ih hrest⟩

theorem Attributes.Unbroken.foldl_insert {written m : Attributes} (hw : Attributes.Unbroken written)
    (hm : Attributes.Unbroken m) :
    Attributes.Unbroken (written.foldl (fun m a => m.insert a.1 a.2) m) := by
  induction written generalizing m with
  | nil => exact hm
  | cons a rest ih =>
    obtain ⟨ha, hrest⟩ := List.forall_mem_cons.mp hw
    exact ih hrest (OrderedMap.forall_mem_insert hm ha)

theorem idAttributes_unbroken {marks : List Shorthand} (hmarks : ∀ s ∈ marks, s.value.Unbroken) :
    Attributes.Unbroken (idAttributes marks) := by
  unfold idAttributes
  split
  · simp [Attributes.Unbroken]
  · rename_i value hlast
    obtain ⟨s, hs, hid⟩ := List.mem_filterMap.mp (List.mem_of_getLast? hlast)
    have hvalue : s.value = value := by
      cases s with
      | «class» v => simp [Shorthand.id?] at hid
      | id v => simpa [Shorthand.id?, Shorthand.value] using hid
    have hkey : idKey.Unbroken := by decide
    simpa [Attributes.Unbroken, hkey, ← hvalue] using hmarks s hs

theorem classNames_unbroken {marks : List Shorthand} {written : Attributes}
    (hmarks : ∀ s ∈ marks, s.value.Unbroken) (hwritten : Attributes.Unbroken written) :
    ∀ name ∈ classNames marks written, name.Unbroken := by
  intro name hname
  rcases List.mem_append.mp hname with hname | hname
  · obtain ⟨s, hs, hclass⟩ := List.mem_filterMap.mp hname
    have hvalue : s.value = name := by
      cases s with
      | «class» v => simpa [Shorthand.class?, Shorthand.value] using hclass
      | id v => simp [Shorthand.class?] at hclass
    exact hvalue ▸ hmarks s hs
  · obtain ⟨a, ha, hword⟩ := List.mem_flatMap.mp hname
    exact (hwritten a (List.mem_of_mem_filter ha)).2.part (Text.subset_of_mem_words hword)

/-- Collecting shorthands and written attributes brings no break in. -/
theorem elementAttributes_unbroken {marks : List Shorthand} {written : Attributes}
    (hmarks : ∀ s ∈ marks, s.value.Unbroken) (hwritten : Attributes.Unbroken written) :
    Attributes.Unbroken (elementAttributes marks written) := by
  refine Attributes.Unbroken.foldl_insert (fun a ha => hwritten a (List.mem_of_mem_filter ha)) ?_
  intro a ha
  rcases List.mem_append.mp ha with ha | ha
  · exact idAttributes_unbroken hmarks a ha
  · split at ha
    · simp at ha
    · obtain rfl := List.mem_singleton.mp ha
      have hkey : classKey.Unbroken := by decide
      exact ⟨hkey, Text.unbroken_intercalate (by decide) (classNames_unbroken hmarks hwritten)⟩

theorem expressionText_unbroken {t : Text} (h : t.Unbroken) : (expressionText t).Unbroken := by
  have hmark : Text.isBreak '{' = false ∧ Text.isBreak '}' = false := by decide
  unfold expressionText
  split
  · rename_i rest
    have hrest : (Text.trim rest).Unbroken :=
      h.part (List.Subset.trans (Text.trim_subset rest) (by simp))
    split
    · exact h
    · simpa [hmark] using hrest
  · rename_i rest _
    have hrest : (Text.trim rest).Unbroken :=
      h.part (List.Subset.trans (Text.trim_subset rest) (by simp))
    split
    · exact h
    · simpa [hmark] using hrest
  · exact h

theorem readInline?_unbroken {t : Text} (h : t.Unbroken) :
    ∀ leaf ∈ readInline? t, leaf.Unbroken := by
  unfold readInline?
  split
  · simp
  · rename_i rest
    have hrest : (afterMarker rest).Unbroken :=
      h.part (List.Subset.trans (afterMarker_subset rest) (List.subset_cons_self _ _))
    simpa [Leaf.Unbroken] using hrest
  · simpa [Leaf.Unbroken] using expressionText_unbroken h
  · simpa [Leaf.Unbroken] using h

theorem readElement?_unbroken {number : Nat} {name t : Text} {tag : TagLine}
    (hname : name.Unbroken) (ht : t.Unbroken) (h : readElement? number name t = some tag) :
    tag.Unbroken := by
  obtain ⟨hmarks, hrest⟩ := Shorthand.readAll_subset t
  generalize hread : Shorthand.readAll t = found at hmarks hrest
  obtain ⟨marks, rest⟩ := found
  have hvalues : ∀ s ∈ marks, s.value.Unbroken := fun s hs => ht.part (hmarks s hs)
  have htail : rest.Unbroken := ht.part hrest
  simp only [readElement?, hread] at h
  split at h
  · obtain rfl := Option.some.inj h
    exact ⟨⟨hname, idAttributes_unbroken hvalues, Text.unbroken_nil⟩,
      by simpa [Leaf.Unbroken] using expressionText_unbroken htail⟩
  · split at h
    · obtain rfl := Option.some.inj h
      have hinner : (Text.trim rest).Unbroken := htail.part (Text.trim_subset rest)
      obtain ⟨hwritten, hinline⟩ := readAttributes_subset (Text.trim rest)
      refine ⟨⟨hname, elementAttributes_unbroken hvalues fun a ha => ?_, Text.unbroken_nil⟩,
        readInline?_unbroken (hinner.part hinline)⟩
      exact ⟨hinner.part (hwritten a ha).1, hinner.part (hwritten a ha).2⟩
    · simp at h

/-- A tag that is read off one line holds no break. -/
theorem readTag?_unbroken {number : Nat} {content : Text} {tag : TagLine} (hc : content.Unbroken)
    (h : readTag? number content = some tag) : tag.Unbroken := by
  have hdefault : defaultName.Unbroken := by decide
  unfold readTag? at h
  split at h
  · split at h
    · simp at h
    · rename_i rest _ name tail hread
      obtain ⟨hname, htail⟩ := readName?_subset hread
      have hrest : Text.Unbroken rest := hc.part (List.subset_cons_self _ _)
      exact readElement?_unbroken (hrest.part hname) (hrest.part htail) h
  · exact readElement?_unbroken hdefault hc h
  · exact readElement?_unbroken hdefault hc h
  · split at h
    · simp at h
    · rename_i name tail hread
      obtain ⟨hname, htail⟩ := readName?_subset hread
      split at h
      · exact readElement?_unbroken (hc.part hname) (hc.part htail) h
      · obtain rfl := Option.some.inj h
        refine ⟨⟨hc.part (List.takeWhile_sublist _).subset,
          by simp [Attributes.Unbroken, readHelper],
          hc.part (List.Subset.trans (Text.trim_subset _) (List.dropWhile_sublist _).subset)⟩,
          by simp [readHelper]⟩

/-- Nothing that a line says holds a break. -/
theorem Line.reading_unbroken {line : Line} (h : line.content.Unbroken) :
    line.reading.Unbroken := by
  unfold Line.reading
  split
  · rename_i rest hcontent
    rw [hcontent] at h
    have hrest : (afterMarker rest).Unbroken :=
      h.part (List.Subset.trans (afterMarker_subset rest) (List.subset_cons_self _ _))
    simpa [Reading.Unbroken, Leaf.Unbroken] using hrest
  · exact Text.unbroken_nil
  · rename_i rest hcontent
    rw [hcontent] at h
    exact h.part (by simp)
  · exact h
  · trivial
  · exact expressionText_unbroken h
  · unfold readUnmarked
    split
    · exact h
    · rename_i tag hread
      exact readTag?_unbroken h hread

/-- No line of a source holds a break. -/
theorem Line.content_unbroken {source : Text} {line : Line} (h : line ∈ Line.ofSource source) :
    line.content.Unbroken := by
  obtain ⟨-, raw, hraw, hline⟩ := Line.mem_ofPhysicals h
  have hunbroken : raw.Unbroken :=
    Text.unbroken_of_mem_physicalLines (List.mem_of_getElem? hraw)
  unfold Line.ofPhysical? at hline
  split at hline
  · simp at hline
  · rename_i c rest htrim
    rw [← Option.some.inj hline]
    exact hunbroken.part (htrim ▸ Text.trim_subset raw)

/-! ## Documents -/

theorem Leaf.Unbroken.extend {separator content : Text} {leaf : Leaf} (hs : separator.Unbroken)
    (hc : content.Unbroken) (h : leaf.Unbroken) : (leaf.extend separator content).Unbroken := by
  have hspace : Text.isBreak ' ' = false := rfl
  cases leaf with
  | literal segments =>
    intro s hmem
    rcases List.mem_append.mp hmem with hmem | hmem
    · exact h s hmem
    · exact List.mem_singleton.mp hmem ▸ hc
  | raw markup => exact Text.unbroken_append_iff.mpr ⟨h, Text.unbroken_cons_iff.mpr ⟨hspace, hc⟩⟩
  | text value =>
    exact Text.unbroken_append_iff.mpr ⟨Text.unbroken_append_iff.mpr ⟨h, hs⟩, hc⟩
  | trailing value =>
    exact Text.unbroken_append_iff.mpr ⟨h, Text.unbroken_cons_iff.mpr ⟨hspace, hc⟩⟩

theorem Leaf.Unbroken.extendAll {separator : Text} {contents : List Text} {leaf : Leaf}
    (hs : separator.Unbroken) (hc : ∀ content ∈ contents, content.Unbroken) (h : leaf.Unbroken) :
    (leaf.extendAll separator contents).Unbroken := by
  induction contents generalizing leaf with
  | nil => exact h
  | cons content rest ih =>
    obtain ⟨hfirst, hrest⟩ := List.forall_mem_cons.mp hc
    exact ih hrest (h.extend hs hfirst)

/-- What a line of a source shows in the document is unbroken. -/
theorem Mark.pieces_unbroken {separator source : Text} (hs : separator.Unbroken) (mark : Mark) :
    ∀ piece ∈ mark.pieces separator (Line.ofSource source), piece.Unbroken := by
  cases mark with
  | branch i => simp [Mark.pieces]
  | node i =>
    have hcontinuation : ∀ content ∈ continuation (Line.ofSource source) i, content.Unbroken := by
      intro content hcontent
      obtain ⟨line, hline, rfl⟩ := List.mem_map.mp hcontent
      exact Line.content_unbroken
        (List.mem_of_mem_drop ((List.takeWhile_sublist _).subset hline))
    cases hline : (Line.ofSource source)[i]? with
    | none => simp [Mark.pieces, hline]
    | some line =>
      have hreading := Line.reading_unbroken (Line.content_unbroken (List.mem_of_getElem? hline))
      simp only [Mark.pieces, hline, Option.map_some]
      cases hr : line.reading with
      | comment => simp
      | leaf leaf =>
        rw [hr] at hreading
        simpa [Piece.Unbroken] using Leaf.Unbroken.extendAll hs hcontinuation hreading
      | tag tag =>
        rw [hr] at hreading
        obtain ⟨head, inline⟩ := tag
        cases inline with
        | none => simpa [Piece.Unbroken] using hreading.head
        | some leaf =>
          have hleaf : leaf.Unbroken := hreading.inline leaf rfl
          simpa [Piece.Unbroken] using
            And.intro hreading.head (hleaf.extendAll hs hcontinuation)

/-- All that the document of a source is made of is unbroken. -/
theorem pieces_unbroken_of_parse {separator source : Text} {nodes : List Node}
    (hs : separator.Unbroken) (h : parse separator source = .ok nodes) :
    ∀ piece ∈ Node.visitAll nodes, piece.Unbroken := by
  obtain ⟨marks, hplaced⟩ := placed_of_parse h
  rw [hplaced.visitAll_eq]
  intro piece hpiece
  obtain ⟨mark, -, hmem⟩ := List.mem_flatMap.mp hpiece
  exact mark.pieces_unbroken hs piece hmem

/-! ## Rendering -/

theorem Leaf.Unbroken.render {leaf : Leaf} (h : leaf.Unbroken) : leaf.render.Unbroken := by
  cases leaf with
  | literal segments => exact Text.unbroken_intercalate (by decide) h
  | raw markup => exact h
  | text value => exact h
  | trailing value => exact Text.unbroken_append_iff.mpr ⟨h, by decide⟩

namespace Head.Unbroken

variable {head : Head}

theorem openTag (h : head.Unbroken) : head.openTag.Unbroken := by
  have hmark : Text.isBreak '<' = false ∧ Text.isBreak '>' = false ∧ Text.isBreak ' ' = false ∧
      Text.isBreak '=' = false ∧ Text.isBreak '"' = false := by decide
  have hattributes : head.attributeText.Unbroken := by
    refine Text.unbroken_flatMap fun a ha => ?_
    simpa [hmark] using h.attributes a ha
  simpa [Head.openTag, hmark] using And.intro h.name hattributes

theorem closeTag (h : head.Unbroken) : head.closeTag.Unbroken := by
  have hmark : Text.isBreak '<' = false ∧ Text.isBreak '/' = false ∧ Text.isBreak '>' = false := by
    decide
  simpa [Head.closeTag, hmark] using h.name

theorem expression (h : head.Unbroken) : head.expression.Unbroken := by
  have hspace : Text.isBreak ' ' = false := rfl
  unfold Head.expression
  split
  · exact h.name
  · simpa [hspace] using And.intro h.name h.args

theorem mustache (h : head.Unbroken) : head.mustache.Unbroken := by
  have hmark : Text.isBreak '{' = false ∧ Text.isBreak '}' = false := by decide
  simpa [Head.mustache, hmark] using h.expression

theorem openBlock (h : head.Unbroken) : head.openBlock.Unbroken := by
  have hmark : Text.isBreak '{' = false ∧ Text.isBreak '}' = false ∧ Text.isBreak '#' = false := by
    decide
  simpa [Head.openBlock, hmark] using h.expression

theorem closeBlock (h : head.Unbroken) : head.closeBlock.Unbroken := by
  have hmark : Text.isBreak '{' = false ∧ Text.isBreak '}' = false ∧ Text.isBreak '/' = false := by
    decide
  simpa [Head.closeBlock, hmark] using h.name

end Head.Unbroken

namespace Node

mutual

/-- No break comes in while rendering. -/
theorem render_unbroken : ∀ {node : Node} {text : Text}, (∀ piece ∈ node.visit, piece.Unbroken) →
    node.render = .ok text → text.Unbroken
  | .leaf l, text, h, hr => by
    obtain rfl : l.render = text := by simpa using hr
    have hleaf : l.Unbroken := h (.leaf l) (by simp [visit])
    exact hleaf.render
  | .foreign type, text, h, hr => by simp at hr
  | .tag head children inverse, text, h, hr => by
    simp only [visit, List.forall_mem_cons, List.forall_mem_append] at h
    obtain ⟨hhead, hchildren, hbranch⟩ := h
    have hopen : head.Unbroken := hhead
    rw [render] at hr
    split at hr
    · split at hr
      · exact Except.ok.inj hr ▸ hopen.mustache
      · cases hbody : renderAll children with
        | error type => simp [hbody, bind, Except.bind] at hr
        | ok body =>
          cases hother : renderBranch inverse with
          | error type => simp [hbody, hother, bind, Except.bind] at hr
          | ok other =>
            simp only [hbody, hother, bind, Except.bind, pure, Except.pure, Except.ok.injEq] at hr
            rw [← hr]
            simp only [Text.unbroken_append_iff]
            exact ⟨⟨⟨hopen.openBlock, renderAll_unbroken hchildren hbody⟩,
              renderBranch_unbroken hbranch hother⟩, hopen.closeBlock⟩
    · cases hbody : renderAll children with
      | error type => simp [hbody, bind, Except.bind] at hr
      | ok body =>
        simp only [hbody, bind, Except.bind, pure, Except.pure, Except.ok.injEq] at hr
        rw [← hr]
        simp only [Text.unbroken_append_iff]
        exact ⟨⟨hopen.openTag, renderAll_unbroken hchildren hbody⟩, hopen.closeTag⟩

theorem renderAll_unbroken : ∀ {nodes : List Node} {text : Text},
    (∀ piece ∈ visitAll nodes, piece.Unbroken) → renderAll nodes = .ok text → text.Unbroken
  | [], text, _, hr => by
    obtain rfl : [] = text := by simpa using hr
    exact Text.unbroken_nil
  | node :: rest, text, h, hr => by
    simp only [visitAll, List.forall_mem_append] at h
    obtain ⟨first, others, hfirst, hothers, rfl⟩ := renderAll_cons_eq_ok_iff.mp hr
    exact Text.unbroken_append_iff.mpr
      ⟨render_unbroken h.1 hfirst, renderAll_unbroken h.2 hothers⟩

theorem renderBranch_unbroken : ∀ {inverse : Option (List Node)} {text : Text},
    (∀ piece ∈ visitBranch inverse, piece.Unbroken) → renderBranch inverse = .ok text →
      text.Unbroken
  | none, text, _, hr => by
    obtain rfl : [] = text := by simpa using hr
    exact Text.unbroken_nil
  | some nodes, text, h, hr => by
    rw [renderBranch] at hr
    cases hbody : renderAll nodes with
    | error type => simp [hbody, bind, Except.bind] at hr
    | ok body =>
      simp only [hbody, bind, Except.bind, pure, Except.pure, Except.ok.injEq] at hr
      rw [← hr]
      have hbroken := renderAll_unbroken (by simpa [visitBranch] using h) hbody
      exact Text.unbroken_append_iff.mpr ⟨by decide, hbroken⟩

end

end Node

/-- With a separator that holds no line break, none gets from a source into its output: the output
is one line, and so is every name, attribute, argument and inline text of the document behind it. -/
theorem compile_oneLine {separator source output : Text} (hs : separator.Unbroken)
    (h : compile separator source = .ok output) :
    output.Unbroken ∧ ∃ nodes, parse separator source = .ok nodes ∧
      ∀ piece ∈ Node.visitAll nodes, piece.Unbroken := by
  obtain ⟨nodes, hparse, hrender⟩ := compile_eq_ok_iff.mp h
  have hpieces := pieces_unbroken_of_parse hs hparse
  exact ⟨Node.renderAll_unbroken hpieces hrender, nodes, hparse, hpieces⟩

/-- Breaks of all three spellings, among them one within an element's text and one within a literal.
The line separator in the attribute is no break and stays. -/
theorem compile_oneLine_mixedBreaks :
    let source : Text :=
      "#a.b title=\"x\u2028y\" one\r\n   two\rif z\n  | p\r\n    q\nelse\n  == e"
    let output : Text :=
      "<div id=\"a\" class=\"b\" title=\"x\u2028y\">one\ttwo</div>".toList ++
        "\x7b\x7b#if z\x7d\x7dp q\x7b\x7belse\x7d\x7d\x7b\x7b\x7be\x7d\x7d\x7d".toList ++
        "\x7b\x7b/if\x7d\x7d".toList
    compile ['\t'] source = .ok output ∧ output.Unbroken ∧
      ∃ nodes, parse ['\t'] source = .ok nodes ∧ ∀ piece ∈ Node.visitAll nodes, piece.Unbroken := by
  intro source output
  have h : compile ['\t'] source = .ok output := by decide +kernel
  exact ⟨h, compile_oneLine (by decide) h⟩

end IndentMarkup
