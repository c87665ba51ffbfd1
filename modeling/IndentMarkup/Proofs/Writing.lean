import IndentMarkup.Proofs.TagLines

/-!
# Writing a document and reading it back

A document is written with one line for each tag and each leaf, as many spaces in front as the node
is deep, further segments of a literal as deeper lines below it, and the branch of a helper below an
`else` at the helper's own depth. Read back, the lines give the document that was written, up to the
numbers of its lines and the place of a class among the attributes.

The outline that reads a subtree may have anything around it. So the induction over the document is
about an outline with some nodes on a level of the right depth, and says that the lines of further
nodes put these nodes on the same level.
-/
namespace IndentMarkup

/-! ## Writing -/

/-- A line to be written: how deep it stands and what it says. -/
structure WrittenLine where
  depth : Nat
  text : Text

namespace WrittenLine

def raw (w : WrittenLine) : Text := List.replicate w.depth ' ' ++ w.text

def line (w : WrittenLine) : Line := ⟨w.depth, Text.trim w.text, 0⟩

end WrittenLine

/-- The lines of a leaf. Plain text has no mark to be written with. -/
def Leaf.write (depth : Nat) : Leaf → List WrittenLine
  | .literal [] => []
  | .literal (first :: more) => ⟨depth, '|' :: ' ' :: first⟩ :: more.map fun s => ⟨depth + 1, s⟩
  | .raw markup => [⟨depth, markup⟩]
  | .text _ => []
  | .trailing value => [⟨depth, '\'' :: ' ' :: value⟩]

namespace Node

mutual

def write (depth : Nat) : Node → List WrittenLine
  | .leaf l => l.write depth
  | .foreign _ => []
  | .tag head children inverse =>
    ⟨depth, head.lineText⟩ :: (writeAll (depth + 1) children ++ writeBranch depth inverse)

def writeAll (depth : Nat) : List Node → List WrittenLine
  | [] => []
  | node :: rest => write depth node ++ writeAll depth rest

def writeBranch (depth : Nat) : Option (List Node) → List WrittenLine
  | none => []
  | some nodes => ⟨depth, Line.elseWord⟩ :: writeAll (depth + 1) nodes

end

end Node

/-- The source that a document is written as. -/
def written (nodes : List Node) : Text :=
  ['\n'].intercalate ((Node.writeAll 0 nodes).map WrittenLine.raw)

/-! ## Documents that can be written -/

/-- A leaf that begins with its mark and keeps no blank where a line would lose it. -/
def Leaf.Writable : Leaf → Prop
  | .literal [] => False
  | .literal (first :: more) =>
    Text.trimEnd first = first ∧ (∀ c ∈ first, Text.isBreak c = false) ∧
      ∀ s ∈ more, s ≠ [] ∧ Text.trim s = s ∧ ∀ c ∈ s, Text.isBreak c = false
  | .raw markup =>
    markup.head? = some '<' ∧ Text.trimEnd markup = markup ∧ ∀ c ∈ markup, Text.isBreak c = false
  | .text _ => False
  | .trailing value => Text.trimEnd value = value ∧ ∀ c ∈ value, Text.isBreak c = false

namespace Node

/-- Whether the line of the node is an `else`. -/
def isElse : Node → Bool
  | .tag head _ _ => head.isElse
  | _ => false

/-- Whether an `else` behind the node would open a branch of it. -/
def isOpenHelper : Node → Bool
  | .tag head _ none => head.helper
  | _ => false

mutual

/-- Elements have no branch, and no `else` of its own stands where it would open one. -/
def Writable : Node → Prop
  | .leaf l => l.Writable
  | .foreign _ => False
  | .tag head children inverse =>
    head.Writable ∧ (head.helper = false → inverse = none) ∧ WritableAll children ∧
      WritableBranch inverse

def WritableAll : List Node → Prop
  | [] => True
  | node :: rest =>
    Writable node ∧ (∀ next ∈ rest.head?, next.isElse = true → node.isOpenHelper = false) ∧
      WritableAll rest

def WritableBranch : Option (List Node) → Prop
  | none => True
  | some nodes => WritableAll nodes

end

end Node

/-! ## The lines of a written document -/

namespace WrittenLine

theorem unbroken_raw {w : WrittenLine} (h : Text.IsLine w.text) :
    ∀ c ∈ w.raw, Text.isBreak c = false := by
  intro c hc
  rcases List.mem_append.mp hc with hc | hc
  · obtain ⟨-, rfl⟩ := List.mem_replicate.mp hc
    rfl
  · exact h.unbroken c hc

/-- A written line is read back at its depth, without the blanks at its end. -/
theorem ofPhysical?_raw {w : WrittenLine} (h : Text.IsLine w.text) (number : Nat) :
    Line.ofPhysical? number w.raw = some ⟨w.depth, Text.trim w.text, number⟩ := by
  obtain ⟨c, hc, hink⟩ := h.ink
  have hstop : ∀ d ∈ w.text.head?, Text.isBlank d = false := by
    intro d hd
    rwa [Option.mem_unique hd hc]
  have htrim : Text.trim w.raw = Text.trim w.text :=
    Text.trim_append (Text.all_isBlank_replicate w.depth) w.text
  have hne : Text.trim w.raw ≠ [] := by
    rw [htrim, Ne, Text.trim_eq_nil_iff, List.all_eq_true]
    intro hall
    have := hall c (List.mem_of_mem_head? hc)
    simp [hink] at this
  rw [Line.ofPhysical?_of_trim hne, htrim, raw, Text.takeWhile_append_stop (by simp) hstop,
    List.length_replicate]

/-- Written lines are read back, up to their numbers. -/
theorem ofPhysicals_raw {ws : List WrittenLine} (h : ∀ w ∈ ws, Text.IsLine w.text) (number : Nat) :
    (Line.ofPhysicals number (ws.map raw)).map (Line.moved id fun _ => 0) = ws.map line := by
  induction ws generalizing number with
  | nil => rfl
  | cons w ws ih =>
    rw [List.map_cons, Line.ofPhysicals_cons, ofPhysical?_raw (h w (by simp)), List.map_append,
      ih fun v hv => h v (List.mem_cons_of_mem _ hv)]
    rfl

theorem physicalLines_raw {ws : List WrittenLine} (h : ∀ w ∈ ws, Text.IsLine w.text)
    (hne : ws ≠ []) :
    Text.physicalLines (['\n'].intercalate (ws.map raw)) = ws.map raw := by
  apply Text.physicalLines_intercalate
  · intro l hl
    obtain ⟨w, hw, rfl⟩ := List.mem_map.mp hl
    exact unbroken_raw (h w hw)
  · simpa using hne

end WrittenLine

theorem Leaf.isLine_write {l : Leaf} (h : l.Writable) (depth : Nat) :
    ∀ w ∈ l.write depth, Text.IsLine w.text := by
  intro w hw
  cases l with
  | literal segments =>
    cases segments with
    | nil => simp [Leaf.Writable] at h
    | cons first more =>
      obtain ⟨-, hfirst, hmore⟩ := h
      rcases List.mem_cons.mp hw with rfl | hw
      · refine ⟨⟨'|', rfl, rfl⟩, ?_⟩
        simpa [Text.isBreak] using hfirst
      · obtain ⟨s, hs, rfl⟩ := List.mem_map.mp hw
        obtain ⟨hne, htrim, hbreak⟩ := hmore s hs
        refine ⟨?_, hbreak⟩
        cases s with
        | nil => exact absurd rfl hne
        | cons c s => exact ⟨c, rfl, (Text.trim_eq_self_iff.mp htrim).1 c rfl⟩
  | raw markup =>
    obtain rfl := List.mem_singleton.mp hw
    exact ⟨⟨'<', h.1, rfl⟩, h.2.2⟩
  | text value => simp [Leaf.Writable] at h
  | trailing value =>
    obtain rfl := List.mem_singleton.mp hw
    refine ⟨⟨'\'', rfl, rfl⟩, ?_⟩
    simpa [Text.isBreak] using h.2

theorem Line.isLine_elseWord : Text.IsLine Line.elseWord :=
  ⟨⟨'e', rfl, rfl⟩, by simp [Line.elseWord, Text.isBreak]⟩

namespace Node

mutual

theorem isLine_write : ∀ (node : Node) (depth : Nat), node.Writable →
    ∀ w ∈ node.write depth, Text.IsLine w.text
  | .leaf l, depth, h => by
    rw [write]
    exact Leaf.isLine_write (by simpa [Writable] using h) depth
  | .foreign type, depth, h => by simp [Writable] at h
  | .tag head children inverse, depth, h => by
    rw [Writable] at h
    obtain ⟨hhead, -, hchildren, hinverse⟩ := h
    intro w hw
    rw [write] at hw
    rcases List.mem_cons.mp hw with rfl | hw
    · exact hhead.isLine
    · rcases List.mem_append.mp hw with hw | hw
      · exact isLine_writeAll children (depth + 1) hchildren w hw
      · exact isLine_writeBranch inverse depth hinverse w hw

theorem isLine_writeAll : ∀ (nodes : List Node) (depth : Nat), WritableAll nodes →
    ∀ w ∈ writeAll depth nodes, Text.IsLine w.text
  | [], depth, h => by simp [writeAll]
  | node :: rest, depth, h => by
    rw [WritableAll] at h
    intro w hw
    rw [writeAll] at hw
    rcases List.mem_append.mp hw with hw | hw
    · exact isLine_write node depth h.1 w hw
    · exact isLine_writeAll rest depth h.2.2 w hw

theorem isLine_writeBranch : ∀ (inverse : Option (List Node)) (depth : Nat),
    WritableBranch inverse → ∀ w ∈ writeBranch depth inverse, Text.IsLine w.text
  | none, depth, h => by simp [writeBranch]
  | some nodes, depth, h => by
    rw [WritableBranch] at h
    intro w hw
    rw [writeBranch] at hw
    rcases List.mem_cons.mp hw with rfl | hw
    · exact Line.isLine_elseWord
    · exact isLine_writeAll nodes (depth + 1) h w hw

end

end Node

/-- A written document has the lines that were written. -/
theorem ofSource_written {nodes : List Node} (h : Node.WritableAll nodes) :
    (Line.ofSource (written nodes)).map (Line.moved id fun _ => 0) =
      (Node.writeAll 0 nodes).map WrittenLine.line := by
  have hlines := Node.isLine_writeAll nodes 0 h
  by_cases hne : Node.writeAll 0 nodes = []
  · simp [written, hne]
  · rw [Line.ofSource, written, WrittenLine.physicalLines_raw hlines hne,
      WrittenLine.ofPhysicals_raw hlines]

/-! ## Leaves read back -/

/-- A mark and a space keep the text behind them, unless there is none. -/
theorem Text.trim_marked {mark : Char} (hm : isBlank mark = false) {t : Text}
    (ht : trimEnd t = t) :
    trim (mark :: ' ' :: t) = if t = [] then [mark] else mark :: ' ' :: t := by
  by_cases hne : t = []
  · subst hne
    simp [trim, trimStart, trimEnd, List.dropWhile_cons, hm]
  · rw [if_neg hne, trim_eq_self_iff]
    refine ⟨fun c hc => ?_, fun c hc => ?_⟩
    · obtain rfl : mark = c := by simpa using hc
      exact hm
    · rw [List.getLast?_cons_of_ne_nil (by simp), List.getLast?_cons_of_ne_nil hne] at hc
      exact trimEnd_eq_self_iff.mp ht c hc

namespace WrittenLine

theorem reading_literal {first : Text} (h : Text.trimEnd first = first) (depth : Nat) :
    (WrittenLine.mk depth ('|' :: ' ' :: first)).line.reading = .leaf (.literal [first]) := by
  rw [line, Text.trim_marked rfl h]
  split
  · rename_i hnil
    rw [hnil]
    rfl
  · rfl

theorem reading_trailing {value : Text} (h : Text.trimEnd value = value) (depth : Nat) :
    (WrittenLine.mk depth ('\'' :: ' ' :: value)).line.reading = .leaf (.trailing value) := by
  rw [line, Text.trim_marked rfl h]
  split
  · rename_i hnil
    rw [hnil]
    rfl
  · rfl

theorem reading_raw {markup : Text} (hhead : markup.head? = some '<')
    (h : Text.trimEnd markup = markup) (depth : Nat) :
    (WrittenLine.mk depth markup).line.reading = .leaf (.raw markup) := by
  have hself : Text.trim markup = markup := by
    rw [Text.trim_eq_self_iff]
    refine ⟨fun c hc => ?_, Text.trimEnd_eq_self_iff.mp h⟩
    obtain rfl : '<' = c := by simpa [hhead] using hc
    rfl
  rw [line, hself]
  cases markup with
  | nil => simp at hhead
  | cons c rest =>
    obtain rfl : c = '<' := by simpa using hhead
    rfl

end WrittenLine

namespace Outline

variable {separator : Text} {width : Nat} {owner : Owner} {outer : List Level} {nodes : List Node}
  {o : Outline}

theorem run_single {line : Line} {o' : Outline} (h : o.step separator line = .ok o') :
    o.run separator [line] = .ok o' := by
  rw [run_cons, h]
  rfl

/-- Deeper lines are the further segments of a literal. -/
theorem run_segments {levels : List Level} {depth : Nat} (hd : isDeeper levels depth = true)
    (segments : List Text) {more : List Text} (hm : ∀ s ∈ more, Text.trim s = s) :
    run separator ⟨levels, .inline none (.literal segments)⟩
        (more.map fun s => (WrittenLine.mk depth s).line) =
      .ok ⟨levels, .inline none (.literal (segments ++ more))⟩ := by
  induction more generalizing segments with
  | nil => simp
  | cons s more ih =>
    have hs : Text.trim s = s := hm s (by simp)
    have hrest := ih (segments ++ [s]) fun t ht => hm t (List.mem_cons_of_mem _ ht)
    rw [List.map_cons, run_cons, step_of_absorbs hd rfl]
    simpa [Except.bind, Latest.absorb, WrittenLine.line, hs] using hrest

/-- The lines of a leaf put it on the level. -/
theorem At.run_leaf (h : At width owner outer nodes o) {l : Leaf} (hl : l.Writable) :
    ∃ o', o.run separator ((l.write width).map WrittenLine.line) = .ok o' ∧
      At width owner outer (.leaf l :: nodes) o' := by
  cases l with
  | literal segments =>
    cases segments with
    | nil => simp [Leaf.Writable] at hl
    | cons first more =>
      obtain ⟨htrim, -, hmore⟩ := hl
      have hread := WrittenLine.reading_literal htrim width
      have hdeeper : isDeeper (⟨width, owner, nodes⟩ :: outer) (width + 1) = true := by
        simp [isDeeper]
      refine ⟨_, ?_, At.of_latest (.inline none (.literal (first :: more)))⟩
      rw [Leaf.write, List.map_cons, run_cons, h.step_leaf separator rfl hread, List.map_map]
      exact run_segments hdeeper [first] fun s hs => (hmore s hs).2.1
  | raw markup =>
    have hread := WrittenLine.reading_raw hl.1 hl.2.1 width
    exact ⟨_, run_single (h.step_leaf separator rfl hread),
      At.of_latest (.inline none (.raw markup))⟩
  | text value => simp [Leaf.Writable] at hl
  | trailing value =>
    have hread := WrittenLine.reading_trailing hl.1 width
    exact ⟨_, run_single (h.step_leaf separator rfl hread),
      At.of_latest (.inline none (.trailing value))⟩

/-! ## Documents read back -/

/-- A node that is no open helper offers no branch. -/
theorem branch?_plain {node : Node} (h : node.isOpenHelper = false) (width : Nat) (owner : Owner)
    (before : List Node) : branch? ⟨width, owner, node.mapHeads Head.plain :: before⟩ = none := by
  cases node with
  | leaf l => simp [branch?]
  | foreign type => simp [branch?]
  | tag head children inverse =>
    cases inverse with
    | some others => simp [branch?]
    | none =>
      have hh : head.plain.helper = false := h
      simp [branch?, hh]

/-- Behind the line of an owner, its nodes are awaited one deeper. -/
theorem At.below (top : Level) (outer : List Level) (owner : Owner) :
    At (top.width + 1) owner (top :: outer) [] ⟨top :: outer, .header owner⟩ :=
  .fresh (by simp [isDeeper])

mutual

/-- The lines of a node put it on the level. An `else` must find no helper to branch. -/
theorem At.run_write (separator : Text) : ∀ (node : Node) {width : Nat} {owner : Owner}
    {outer : List Level} {before : List Node} {o : Outline}, node.Writable →
    (node.isElse = true → branch? ⟨width, owner, before⟩ = none) →
    At width owner outer before o →
    ∃ o', o.run separator ((node.write width).map WrittenLine.line) = .ok o' ∧
      At width owner outer (node.mapHeads Head.plain :: before) o'
  | .leaf l, width, owner, outer, before, o, hw, he, h => by
    rw [Node.Writable] at hw
    rw [Node.write, Node.mapHeads_leaf]
    exact h.run_leaf hw
  | .foreign type, width, owner, outer, before, o, hw, he, h => by simp [Node.Writable] at hw
  | .tag head children inverse, width, owner, outer, before, o, hw, he, h => by
    rw [Node.Writable] at hw
    obtain ⟨hhead, helement, hchildren, hinverse⟩ := hw
    have hread : (WrittenLine.mk width head.lineText).line.reading = .tag ⟨head.plain, none⟩ := by
      rw [WrittenLine.line, hhead.trim_eq]
      exact hhead.reading width
    have helse : (WrittenLine.mk width head.lineText).line.isElse = true →
        branch? ⟨width, owner, before⟩ = none := by
      intro hl
      refine he (hhead.isElse ?_)
      rw [WrittenLine.line, hhead.trim_eq] at hl
      simpa [Line.isElse] using hl
    have hstep := h.step_tag separator rfl hread helse
    -- the children stand on a level of their own, which the next line at this width closes
    obtain ⟨o₁, hr₁, h₁⟩ := At.run_writeAll separator children hchildren (fun _ _ _ => rfl)
      (At.below ⟨width, owner, before⟩ outer (.body head.plain))
    have hclosed := h₁.leaves (Nat.lt_succ_self width)
    rw [List.append_nil, Owner.wrap_body, List.reverse_reverse] at hclosed
    have hhelper : inverse.isSome = true → head.plain.helper = true := by
      intro hs
      cases hh : head.helper with
      | false => simp [helement hh] at hs
      | true => exact hh
    obtain ⟨o₂, hr₂, h₂⟩ := At.run_writeBranch separator inverse hinverse hhelper (.met hclosed)
    refine ⟨o₂, ?_, by simpa using h₂⟩
    rw [Node.write, List.map_cons, List.map_append, run_cons, hstep]
    simp only [Except.bind, run_append, hr₁, hr₂]

theorem At.run_writeAll (separator : Text) : ∀ (nodes : List Node) {width : Nat} {owner : Owner}
    {outer : List Level} {before : List Node} {o : Outline}, Node.WritableAll nodes →
    (∀ next ∈ nodes.head?, next.isElse = true → branch? ⟨width, owner, before⟩ = none) →
    At width owner outer before o →
    ∃ o', o.run separator ((Node.writeAll width nodes).map WrittenLine.line) = .ok o' ∧
      At width owner outer ((nodes.map (Node.mapHeads Head.plain)).reverse ++ before) o'
  | [], width, owner, outer, before, o, hw, he, h => by
    exact ⟨o, by simp [Node.writeAll], by simpa using h⟩
  | node :: rest, width, owner, outer, before, o, hw, he, h => by
    rw [Node.WritableAll] at hw
    obtain ⟨hnode, hnext, hrest⟩ := hw
    obtain ⟨o₁, hr₁, h₁⟩ := At.run_write separator node hnode (he node rfl) h
    obtain ⟨o₂, hr₂, h₂⟩ := At.run_writeAll separator rest hrest
      (fun next hn hb => branch?_plain (hnext next hn hb) width owner before) h₁
    refine ⟨o₂, ?_, by simpa using h₂⟩
    rw [Node.writeAll, List.map_append, run_append, hr₁]
    exact hr₂

theorem At.run_writeBranch (separator : Text) : ∀ (inverse : Option (List Node)) {width : Nat}
    {owner : Owner} {outer : List Level} {head : Head} {children before : List Node} {o : Outline},
    Node.WritableBranch inverse → (inverse.isSome = true → head.helper = true) →
    At width owner outer (.tag head children none :: before) o →
    ∃ o', o.run separator ((Node.writeBranch width inverse).map WrittenLine.line) = .ok o' ∧
      At width owner outer
        (.tag head children (inverse.map (List.map (Node.mapHeads Head.plain))) :: before) o'
  | none, width, owner, outer, head, children, before, o, hw, hh, h => by
    exact ⟨o, by simp [Node.writeBranch], by simpa using h⟩
  | some others, width, owner, outer, head, children, before, o, hw, hh, h => by
    rw [Node.WritableBranch] at hw
    have hstep : o.step separator (WrittenLine.mk width Line.elseWord).line =
        .ok ⟨⟨width, owner, before⟩ :: outer, .header (.branch head children)⟩ :=
      h.step_else (hh rfl) separator rfl rfl
    obtain ⟨o₁, hr₁, h₁⟩ := At.run_writeAll separator others hw (fun _ _ _ => rfl)
      (At.below ⟨width, owner, before⟩ outer (.branch head children))
    have hclosed := h₁.leaves (Nat.lt_succ_self width)
    rw [List.append_nil, Owner.wrap_branch, List.reverse_reverse] at hclosed
    refine ⟨o₁, ?_, At.met hclosed⟩
    rw [Node.writeBranch, List.map_cons, run_cons, hstep]
    exact hr₁

end

end Outline

/-- The numbers of lines decide nothing but the numbers on tags. -/
theorem parse_of_unnumbered {separator source : Text} {o : Outline}
    (h : Outline.empty.run separator ((Line.ofSource source).map (Line.moved id fun _ => 0)) =
      .ok o) :
    ∃ nodes, parse separator source = .ok nodes ∧
      nodes.map (Node.renumber fun _ => 0) = o.nodes := by
  have hempty : Outline.empty.moved id (fun _ => 0) = Outline.empty := rfl
  rw [← hempty, Outline.run_moved (fun _ => 0) strictMono_id] at h
  cases hr : Outline.empty.run separator (Line.ofSource source) with
  | error e => simp [hr, Except.map, Except.mapError] at h
  | ok o' =>
    obtain rfl : o'.moved id (fun _ => 0) = o := by simpa [hr, Except.map, Except.mapError] using h
    exact ⟨o'.nodes, parse_eq_ok_iff.mpr ⟨o', hr, rfl⟩, (o'.nodes_moved id fun _ => 0).symm⟩

/-- A document that can be written is read back from its source, up to the numbers of its lines and
the place of a class among the attributes. -/
theorem parse_written {nodes : List Node} (h : Node.WritableAll nodes) (separator : Text) :
    ∃ parsed, parse separator (written nodes) = .ok parsed ∧
      parsed.map (Node.renumber fun _ => 0) = nodes.map (Node.mapHeads Head.plain) := by
  have hstart : Outline.At 0 .document [] [] Outline.empty := .fresh rfl
  obtain ⟨o, hr, hat⟩ := hstart.run_writeAll separator nodes h (fun _ _ _ => rfl)
  rw [← ofSource_written h] at hr
  obtain ⟨parsed, hp, hn⟩ := parse_of_unnumbered hr
  refine ⟨parsed, hp, ?_⟩
  rw [hn, hat.nodes_eq]
  simp [Outline.closeAll]

/-- An element with a class, and in it a helper with a branch between two kinds of text. -/
def branchedList : List Node :=
  [.tag ⟨"ul", [("id", "x"), ("class", "a b")], false, [], 0⟩
    [.leaf (.literal ["y", "z"]),
      .tag ⟨"if", [], true, "u v", 0⟩ [.leaf (.raw "<br>")] (some [.leaf (.trailing "w")])] none]

theorem writableAll_branchedList : Node.WritableAll branchedList := by
  have hul : (⟨"ul", [("id", "x"), ("class", "a b")], false, [], 0⟩ : Head).Writable := by
    refine .inl ⟨rfl, rfl, ⟨by decide, by decide, by decide, by simp [Text.isBreak], ?_⟩, rfl⟩
    intro a ha hk
    refine ⟨["a", "b"], by decide, by simp [Text.IsWord, Text.isBlank], ?_⟩
    rcases List.mem_cons.mp ha with rfl | ha
    · exact absurd hk (by decide)
    · rw [List.mem_singleton.mp ha]
      rfl
  have hif : (⟨"if", [], true, "u v", 0⟩ : Head).Writable :=
    .inr ⟨rfl, by simp, by simp [Text.IsWord, Text.isBlank], by decide, rfl, rfl,
      by simp [Text.isBreak]⟩
  have hy : Leaf.Writable (.literal ["y", "z"]) := by
    refine ⟨rfl, by simp [Text.isBreak], fun s hs => ?_⟩
    rw [List.mem_singleton.mp hs]
    exact ⟨by decide, rfl, by simp [Text.isBreak]⟩
  have hbr : Leaf.Writable (.raw "<br>") := ⟨rfl, rfl, by simp [Text.isBreak]⟩
  have hw : Leaf.Writable (.trailing "w") := ⟨rfl, by simp [Text.isBreak]⟩
  simpa [branchedList, Node.WritableAll, Node.WritableBranch, Node.Writable, Node.isOpenHelper]
    using And.intro hul ⟨hy, hif, hbr, hw⟩

theorem parse_written_branchedList :
    written branchedList =
      "%ul id=\"x\" class=\"a b\"\n | y\n  z\n if u v\n  <br>\n else\n  ' w".toList ∧
    ∃ parsed, parse defaultSeparator (written branchedList) = .ok parsed ∧
      parsed.map (Node.renumber fun _ => 0) = branchedList.map (Node.mapHeads Head.plain) :=
  ⟨rfl, parse_written writableAll_branchedList defaultSeparator⟩

end IndentMarkup
