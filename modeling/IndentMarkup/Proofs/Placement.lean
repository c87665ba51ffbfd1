import IndentMarkup.Proofs.Absorption

/-!
# Where every line goes

The tree of a source, said of its list of lines. Every line that is neither absorbed nor a comment
makes one node, or opens the branch of the helper in front of it, and goes under the nearest earlier
line that is narrower and not absorbed. Whether an `else` opens a branch is decided by the last node
that already stands in the list it goes to.

The levels of an outline hold the lists that are still growing, from the document down to the list
of the latest line. Each of them is made of the lines in its part of the source, and the parts
follow each other in the order in which the finished document is visited.
-/
namespace IndentMarkup

/-! ## Visiting a document -/

/-- What is met at one node of a document. -/
inductive Piece where
  | head (head : Head)
  | leaf (leaf : Leaf)
  | foreign (type : Foreign)

namespace Node

mutual

/-- A tag is met before its children, and these before its branch. -/
def visit : Node → List Piece
  | .leaf l => [.leaf l]
  | .foreign type => [.foreign type]
  | .tag head children inverse => .head head :: (visitAll children ++ visitBranch inverse)

def visitAll : List Node → List Piece
  | [] => []
  | node :: rest => visit node ++ visitAll rest

def visitBranch : Option (List Node) → List Piece
  | none => []
  | some nodes => visitAll nodes

end

theorem visitAll_append (xs ys : List Node) : visitAll (xs ++ ys) = visitAll xs ++ visitAll ys := by
  induction xs with
  | nil => simp [visitAll]
  | cons x xs ih => simp [visitAll, ih]

@[simp] theorem visitAll_singleton (x : Node) : visitAll [x] = visit x := by simp [visitAll]

end Node

/-! ## The lists that lines make -/

/-- Of the lines before position `n` that are not absorbed, the nearest that is narrower than the
width, if there is one. -/
def NearestNarrower (lines : List Line) (n w : Nat) : Option Nat → Prop
  | none => ∀ j, j < n → ¬Absorbed lines j → w ≤ widthAt lines j
  | some p => p < n ∧ ¬Absorbed lines p ∧ widthAt lines p < w ∧
      ∀ k, p < k → k < n → ¬Absorbed lines k → w ≤ widthAt lines k

/-- The line at position `i` is not absorbed and goes under the given line, or the document. -/
structure Joins (lines : List Line) (parent : Option Nat) (i : Nat) (line : Line) : Prop where
  here : lines[i]? = some line
  unabsorbed : ¬Absorbed lines i
  nearest : NearestNarrower lines i line.width parent

/-- The contents of the lines right after position `i` that are deeper than the line there. -/
def continuation (lines : List Line) (i : Nat) : List Text :=
  ((lines.drop (i + 1)).takeWhile fun line => widthAt lines i < line.width).map (·.content)

def Leaf.extendAll (separator : Text) (leaf : Leaf) (contents : List Text) : Leaf :=
  contents.foldl (fun l content => l.extend separator content) leaf

/-- The last of the nodes is a helper that has no branch. -/
def EndsInOpenHelper (nodes : List Node) : Prop :=
  ∃ before head children, nodes = before ++ [.tag head children none] ∧ head.helper = true

/-- What a line does: it makes a node, or it opens the branch of the helper in front of it. -/
inductive Mark where
  | node (place : Nat)
  | branch (place : Nat)

namespace Mark

def place : Mark → Nat
  | .node i => i
  | .branch i => i

@[simp] theorem place_node (i : Nat) : (Mark.node i).place = i := rfl
@[simp] theorem place_branch (i : Nat) : (Mark.branch i).place = i := rfl

/-- What the line shows where the document is visited: its node, and its inline content behind. -/
def pieces (separator : Text) (lines : List Line) : Mark → List Piece
  | .branch _ => []
  | .node i =>
    match lines[i]?.map Line.reading with
    | some (.leaf l) => [.leaf (l.extendAll separator (continuation lines i))]
    | some (.tag ⟨head, none⟩) => [.head head]
    | some (.tag ⟨head, some l⟩) =>
      [.head head, .leaf (l.extendAll separator (continuation lines i))]
    | _ => []

end Mark

/-- The nodes of one list, with the lines that made them and everything below them. The list belongs
to the line at the given position, or to the document. -/
inductive Placed (separator : Text) (lines : List Line) :
    Option Nat → List Mark → List Node → Prop where
  | nil {parent : Option Nat} : Placed separator lines parent [] []
  | leaf {parent : Option Nat} {marks : List Mark} {nodes : List Node} {i : Nat} {line : Line}
      {l : Leaf} : Placed separator lines parent marks nodes → Joins lines parent i line →
      line.reading = .leaf l →
      Placed separator lines parent (marks ++ [.node i])
        (nodes ++ [.leaf (l.extendAll separator (continuation lines i))])
  | inline {parent : Option Nat} {marks : List Mark} {nodes : List Node} {i : Nat} {line : Line}
      {head : Head} {l : Leaf} : Placed separator lines parent marks nodes →
      Joins lines parent i line → line.reading = .tag ⟨head, some l⟩ →
      Placed separator lines parent (marks ++ [.node i])
        (nodes ++ [.tag head [.leaf (l.extendAll separator (continuation lines i))] none])
  /-- An `else` makes a node only where it finds no helper to branch. -/
  | tag {parent : Option Nat} {marks inner : List Mark} {nodes children : List Node} {i : Nat}
      {line : Line} {head : Head} : Placed separator lines parent marks nodes →
      Joins lines parent i line → line.reading = .tag ⟨head, none⟩ →
      (line.isElse = true → ¬EndsInOpenHelper nodes) →
      Placed separator lines (some i) inner children →
      Placed separator lines parent (marks ++ .node i :: inner) (nodes ++ [.tag head children none])
  /-- The lines below an `else` that opens a branch go into the branch. -/
  | branch {parent : Option Nat} {marks inner : List Mark} {nodes children others : List Node}
      {i : Nat} {line : Line} {head : Head} :
      Placed separator lines parent marks (nodes ++ [.tag head children none]) →
      head.helper = true → Joins lines parent i line → line.isElse = true →
      Placed separator lines (some i) inner others →
      Placed separator lines parent (marks ++ .branch i :: inner)
        (nodes ++ [.tag head children (some others)])

/-- A document is visited line by line. -/
theorem Placed.visitAll_eq {separator : Text} {lines : List Line} {parent : Option Nat}
    {marks : List Mark} {nodes : List Node} (h : Placed separator lines parent marks nodes) :
    Node.visitAll nodes = marks.flatMap (Mark.pieces separator lines) := by
  induction h with
  | nil => simp [Node.visitAll]
  | leaf _ hj hr ih =>
    simp [Node.visitAll_append, ih, Node.visit, Mark.pieces, hj.here, hr]
  | inline _ hj hr ih =>
    simp [Node.visitAll_append, ih, Node.visit, Node.visitBranch, Mark.pieces, hj.here, hr]
  | tag _ hj hr _ _ ih ihc =>
    simp [Node.visitAll_append, ih, ihc, Node.visit, Node.visitBranch, Mark.pieces, hj.here, hr]
  | branch _ _ hj he _ ih ihb =>
    rw [Node.visitAll_append, Node.visitAll_singleton, Node.visit, Node.visitBranch,
      List.append_nil] at ih
    simp only [List.flatMap_append, List.flatMap_cons, ← ih, ← ihb, Mark.pieces, List.nil_append,
      Node.visitAll_append, Node.visitAll_singleton, Node.visit, Node.visitBranch,
      List.append_assoc, List.cons_append]

section

variable {separator : Text} {lines : List Line} {n : Nat}

/-! ## Nearest narrower lines -/

/-- A line that is absorbed or not narrower changes nothing. -/
theorem NearestNarrower.succ {w : Nat} {parent : Option Nat} (h : NearestNarrower lines n w parent)
    (hn : Absorbed lines n ∨ w ≤ widthAt lines n) : NearestNarrower lines (n + 1) w parent := by
  have hlast : ∀ k, k < n + 1 → ¬Absorbed lines k → k < n ∨ w ≤ widthAt lines k := by
    intro k hk hka
    rcases Nat.lt_or_eq_of_le (Nat.le_of_lt_succ hk) with hlt | rfl
    · exact .inl hlt
    · exact .inr (hn.resolve_left hka)
  cases parent with
  | none =>
    intro j hj hja
    rcases hlast j hj hja with hlt | hw
    · exact h j hlt hja
    · exact hw
  | some p =>
    obtain ⟨hp, hpa, hpw, hl⟩ := h
    refine ⟨by omega, hpa, hpw, ?_⟩
    intro k hk hkn hka
    rcases hlast k hkn hka with hlt | hw
    · exact hl k hk hlt hka
    · exact hw

/-- Right behind a line that is not absorbed, it is the nearest below every greater width. -/
theorem nearestNarrower_self {w : Nat} (ha : ¬Absorbed lines n) (hw : widthAt lines n < w) :
    NearestNarrower lines (n + 1) w (some n) :=
  ⟨by omega, ha, hw, fun k hk hkn => by omega⟩

/-! ## Levels that are still growing -/

/-- The levels of an outline after `n` lines. The given line owns the list on top; the lines of that
list and those of everything outside it are kept apart. -/
inductive Stacked (separator : Text) (lines : List Line) (n : Nat) :
    List Level → Option Nat → List Mark → List Mark → Prop where
  | document {w : Nat} {nodes : List Node} {marks : List Mark} :
      NearestNarrower lines n w none → Placed separator lines none marks nodes.reverse →
      Stacked separator lines n [⟨w, .document, nodes⟩] none [] marks
  | body {w : Nat} {nodes : List Node} {next : Level} {outer : List Level} {parent : Option Nat}
      {before marks inner : List Mark} {i : Nat} {line : Line} {head : Head} :
      Stacked separator lines n (next :: outer) parent before marks → Joins lines parent i line →
      line.reading = .tag ⟨head, none⟩ →
      (line.isElse = true → ¬EndsInOpenHelper next.nodes.reverse) →
      NearestNarrower lines n w (some i) → Placed separator lines (some i) inner nodes.reverse →
      Stacked separator lines n (⟨w, .body head, nodes⟩ :: next :: outer) (some i)
        (before ++ marks ++ [.node i]) inner
  /-- While its branch grows, the helper itself is kept in the owner. -/
  | branch {w : Nat} {nodes children : List Node} {next : Level} {outer : List Level}
      {parent : Option Nat} {before marks inner : List Mark} {i : Nat} {line : Line} {head : Head} :
      Stacked separator lines n
        ({ next with nodes := .tag head children none :: next.nodes } :: outer)
        parent before marks →
      head.helper = true → Joins lines parent i line → line.isElse = true →
      NearestNarrower lines n w (some i) → Placed separator lines (some i) inner nodes.reverse →
      Stacked separator lines n (⟨w, .branch head children, nodes⟩ :: next :: outer) (some i)
        (before ++ marks ++ [.branch i]) inner

namespace Stacked

variable {levels outer : List Level} {top next : Level} {parent : Option Nat}
  {before marks : List Mark}

theorem placed (h : Stacked separator lines n (top :: outer) parent before marks) :
    Placed separator lines parent marks top.nodes.reverse := by
  cases h with
  | document _ hp => exact hp
  | body _ _ _ _ _ hp => exact hp
  | branch _ _ _ _ _ hp => exact hp

theorem nearest (h : Stacked separator lines n (top :: outer) parent before marks) :
    NearestNarrower lines n top.width parent := by
  cases h with
  | document hn _ => exact hn
  | body _ _ _ _ hn _ => exact hn
  | branch _ _ _ _ hn _ => exact hn

/-- The list on top may grow without touching what is outside it. -/
theorem replace {marks' : List Mark} {nodes : List Node}
    (h : Stacked separator lines n (top :: outer) parent before marks)
    (hp : Placed separator lines parent marks' nodes.reverse) :
    Stacked separator lines n ({ top with nodes := nodes } :: outer) parent before marks' := by
  cases h with
  | document hn _ => exact .document hn hp
  | body hs hj hr he hn _ => exact .body hs hj hr he hn hp
  | branch hs hh hj he hn _ => exact .branch hs hh hj he hn hp

/-- Closing the top level puts its owner's nodes on the level below. -/
theorem close (h : Stacked separator lines n (top :: next :: outer) parent before marks) :
    ∃ parent' before' marks',
      Stacked separator lines n
        ({ next with nodes := top.owner.wrap top.nodes ++ next.nodes } :: outer)
        parent' before' marks' ∧
      before' ++ marks' = before ++ marks := by
  cases h with
  | body hs hj hr he hn hp =>
    have ht := Placed.tag hs.placed hj hr he hp
    refine ⟨_, _, _, hs.replace (by simpa using ht), ?_⟩
    simp
  | branch hs hh hj he hn hp =>
    have ht := Placed.branch (by simpa using hs.placed) hh hj he hp
    refine ⟨_, _, _, hs.replace (by simpa using ht), ?_⟩
    simp

/-- The next line leaves the levels as they are when it is absorbed or not narrower than any. -/
theorem succ (h : Stacked separator lines n levels parent before marks)
    (hn : ∀ w ∈ levels.map (·.width), Absorbed lines n ∨ w ≤ widthAt lines n) :
    Stacked separator lines (n + 1) levels parent before marks := by
  induction h with
  | document hp hpl =>
    simp only [List.map_cons, List.forall_mem_cons] at hn
    exact .document (hp.succ hn.1) hpl
  | body hs hj hr he hp hpl ih =>
    simp only [List.map_cons, List.forall_mem_cons] at hn ih
    exact .body (ih hn.2) hj hr he (hp.succ hn.1) hpl
  | branch hs hh hj he hp hpl ih =>
    simp only [List.map_cons, List.forall_mem_cons] at hn ih
    exact .branch (ih hn.2) hh hj he (hp.succ hn.1) hpl

end Stacked

/-- The levels with further nodes on the innermost one. -/
def settled (late : List Node) : List Level → List Level
  | [] => []
  | top :: outer => { top with nodes := late ++ top.nodes } :: outer

@[simp] theorem settled_cons (late : List Node) (top : Level) (outer : List Level) :
    settled late (top :: outer) = { top with nodes := late ++ top.nodes } :: outer := rfl

/-- Closing the inner levels one after another keeps every line in its place. -/
theorem Stacked.collapse {inner outer : List Level} {base : Level} {late : List Node}
    {parent : Option Nat} {before marks : List Mark}
    (h : Stacked separator lines n (settled late (inner ++ base :: outer)) parent before marks) :
    ∃ parent' before' marks',
      Stacked separator lines n
        ({ base with nodes := Outline.collapse inner late ++ base.nodes } :: outer)
        parent' before' marks' ∧
      before' ++ marks' = before ++ marks := by
  induction inner generalizing late parent before marks with
  | nil => exact ⟨parent, before, marks, h, rfl⟩
  | cons top inner ih =>
    have hc : ∃ parent' before' marks',
        Stacked separator lines n
          (settled (top.owner.wrap (late ++ top.nodes)) (inner ++ base :: outer))
          parent' before' marks' ∧
        before' ++ marks' = before ++ marks := by
      cases inner with
      | nil => exact h.close
      | cons next inner => exact h.close
    obtain ⟨parent', before', marks', hs, he⟩ := hc
    obtain ⟨parent'', before'', marks'', hs', he'⟩ := ih hs
    exact ⟨parent'', before'', marks'', hs', he'.trans he⟩

/-- Closing all levels gives the document, with every line in its place. -/
theorem Stacked.closeAll {levels : List Level} {late : List Node} {parent : Option Nat}
    {before marks : List Mark}
    (h : Stacked separator lines n (settled late levels) parent before marks) :
    Placed separator lines none (before ++ marks) (Outline.closeAll levels late) := by
  induction levels generalizing late parent before marks with
  | nil => cases h
  | cons top outer ih =>
    cases outer with
    | nil =>
      obtain ⟨width, owner, nodes⟩ := top
      cases h with
      | document hn hp => simpa [Outline.closeAll] using hp
    | cons next outer =>
      obtain ⟨parent', before', marks', hs, he⟩ := h.close
      rw [← he]
      exact ih hs

/-! ## The latest line -/

def between (lines : List Line) (m n : Nat) : List Text :=
  ((lines.drop (m + 1)).take (n - (m + 1))).map (·.content)

theorem between_self (lines : List Line) (n : Nat) : between lines n (n + 1) = [] := by
  simp [between]

theorem between_succ {m : Nat} {line : Line} (hm : m < n) (hl : lines[n]? = some line) :
    between lines m (n + 1) = between lines m n ++ [line.content] := by
  have he : n + 1 - (m + 1) = (n - (m + 1)) + 1 := by omega
  have hi : m + 1 + (n - (m + 1)) = n := by omega
  rw [between, between, he, List.take_add_one, List.getElem?_drop, hi, hl]
  simp

theorem Leaf.extendAll_append (separator : Text) (l : Leaf) (contents : List Text)
    (content : Text) :
    l.extendAll separator (contents ++ [content]) =
      (l.extendAll separator contents).extend separator content := by
  simp [Leaf.extendAll]

/-- All that an opaque line absorbs lies before the next line that is not deeper. -/
theorem LastUnabsorbed.continuation_eq {m : Nat} (h : LastUnabsorbed lines n m)
    (hn : ∀ line, lines[n]? = some line → line.width ≤ widthAt lines m) :
    continuation lines m = between lines m n := by
  have hm := h.before
  have hsplit : lines.drop (m + 1) =
      (lines.drop (m + 1)).take (n - (m + 1)) ++ lines.drop n := by
    conv_lhs => rw [← List.take_append_drop (n - (m + 1)) (lines.drop (m + 1)), List.drop_drop]
    rw [show m + 1 + (n - (m + 1)) = n by omega]
  rw [continuation, hsplit, List.takeWhile_append_of_pos, between]
  · cases hr : lines.drop n with
    | nil => simp
    | cons line rest =>
      have hl : lines[n]? = some line := by rw [← List.head?_drop, hr, List.head?_cons]
      have := hn line hl
      rw [List.takeWhile_cons_of_neg (by simpa using this), List.append_nil]
  · intro line hmem
    obtain ⟨k, hk⟩ := List.mem_iff_getElem?.mp hmem
    have hlt : k < n - (m + 1) := by
      have := (List.getElem?_eq_some_iff.mp hk).1
      simp only [List.length_take] at this
      omega
    rw [List.getElem?_take_of_lt hlt, List.getElem?_drop] at hk
    have := (h.since (m + 1 + k) (by omega) (by omega)).2
    simpa [widthAt_eq hk] using this

/-- What the latest line left open, after `n` lines. -/
def LatestPlaced (separator : Text) (lines : List Line) (n : Nat) (levels : List Level)
    (marks : List Mark) : Latest → Prop
  | .comment => ∃ parent outside inside, Stacked separator lines n levels parent outside inside ∧
      marks = outside ++ inside
  | .inline tag leaf => ∃ parent outside inside m line l,
      Stacked separator lines n levels parent outside inside ∧
      marks = outside ++ inside ++ [.node m] ∧
      Joins lines parent m line ∧ LastUnabsorbed lines n m ∧
      line.reading = (match tag with | none => .leaf l | some head => .tag ⟨head, some l⟩) ∧
      leaf = l.extendAll separator (between lines m n)
  | .header owner => ∀ w, Outline.isDeeper levels w = true → ∃ parent,
      Stacked separator lines n (⟨w, owner, []⟩ :: levels) parent marks []

/-- Nothing is deeper than every width. -/
theorem exists_isDeeper (levels : List Level) : ∃ w, Outline.isDeeper levels w = true := by
  cases levels with
  | nil => exact ⟨0, rfl⟩
  | cons top outer => exact ⟨top.width + 1, by simp [Outline.isDeeper]⟩

/-- Once nothing deeper can follow, the latest line's node stands on the innermost level. -/
theorem LatestPlaced.settled {levels : List Level} {marks : List Mark} {latest : Latest}
    (h : LatestPlaced separator lines n levels marks latest) (hne : levels ≠ [])
    (hn : ∀ m, LastUnabsorbed lines n m → ∀ line, lines[n]? = some line →
      line.width ≤ widthAt lines m) :
    ∃ parent outside inside,
      Stacked separator lines n (settled latest.nodes levels) parent outside inside ∧
      marks = outside ++ inside := by
  obtain ⟨top, outer, rfl⟩ := List.exists_cons_of_ne_nil hne
  cases latest with
  | comment => exact h
  | inline tag leaf =>
    obtain ⟨parent, outside, inside, m, line, l, hs, rfl, hj, hlast, hr, rfl⟩ := h
    rw [← hlast.continuation_eq (hn m hlast)]
    cases tag with
    | none =>
      have hp := Placed.leaf hs.placed hj hr
      exact ⟨parent, outside, inside ++ [.node m], hs.replace (by simpa [Latest.nodes] using hp),
        by simp⟩
    | some head =>
      have hp := Placed.inline hs.placed hj hr
      exact ⟨parent, outside, inside ++ [.node m], hs.replace (by simpa [Latest.nodes] using hp),
        by simp⟩
  | header owner =>
    obtain ⟨w, hw⟩ := exists_isDeeper (top :: outer)
    obtain ⟨parent, hs⟩ := h w hw
    obtain ⟨parent', outside, inside, hs', he⟩ := hs.close
    exact ⟨parent', outside, inside, hs', by simpa using he.symm⟩

/-! ## One more line -/

/-- A branch is opened only for a helper without one that stands last on its level. -/
theorem branch?_eq_some {level : Level} {owner : Owner} {rest : List Node}
    (h : Outline.branch? level = some (owner, rest)) :
    ∃ head children, level.nodes = .tag head children none :: rest ∧ head.helper = true ∧
      owner = .branch head children := by
  unfold Outline.branch? at h
  split at h
  · rename_i head children before hn
    split at h
    · rename_i hh
      simp only [Option.some.injEq, Prod.mk.injEq] at h
      obtain ⟨rfl, rfl⟩ := h
      exact ⟨head, children, hn, hh, rfl⟩
    · simp at h
  · simp at h

theorem not_endsInOpenHelper {level : Level} (h : Outline.branch? level = none) :
    ¬EndsInOpenHelper level.nodes.reverse := by
  rintro ⟨before, head, children, he, hh⟩
  have hn : level.nodes = .tag head children none :: before.reverse := by
    rw [← List.reverse_reverse level.nodes, he]
    simp
  simp [Outline.branch?, hn, hh] at h

/-- A line on an open level leaves its mark behind all others, unless it is a comment. -/
theorem Stacked.place {top : Level} {outer : List Level} {parent : Option Nat}
    {outside inside : List Mark} {line : Line}
    (h : Stacked separator lines n (top :: outer) parent outside inside)
    (hl : lines[n]? = some line) (ha : ¬Absorbed lines n) (htop : top.width = line.width)
    (hout : ∀ l ∈ outer, l.width < line.width) :
    ∃ added, LatestPlaced separator lines (n + 1) (Outline.place top outer line).levels
        (outside ++ inside ++ added) (Outline.place top outer line).latest ∧
      added.map Mark.place = if line.reading = .comment then [] else [n] := by
  have hw := widthAt_eq hl
  have hj : Joins lines parent n line := ⟨hl, ha, htop ▸ h.nearest⟩
  have hs : Stacked separator lines (n + 1) (top :: outer) parent outside inside := by
    apply h.succ
    intro w hmem
    right
    rw [List.map_cons, List.mem_cons, List.mem_map] at hmem
    obtain rfl | ⟨l, hlm, rfl⟩ := hmem
    · omega
    · have := hout l hlm
      omega
  have hself : ∀ w, top.width < w → NearestNarrower lines (n + 1) w (some n) :=
    fun w hlt => nearestNarrower_self ha (by omega)
  obtain ⟨he, owner, rest, hb, hp⟩ | ⟨hno, hp⟩ := Outline.place_cases top outer line
  · obtain ⟨head, children, hn, hh, rfl⟩ := branch?_eq_some hb
    rw [hp]
    refine ⟨[.branch n], ?_, ?_⟩
    · intro w hd
      refine ⟨some n, .branch ?_ hh hj he (hself w (by simpa [Outline.isDeeper] using hd)) .nil⟩
      rw [← hn]
      exact hs
    · rw [Line.reading_of_isElse he]
      rfl
  · rw [hp]
    cases hr : line.reading with
    | comment => exact ⟨[], ⟨parent, outside, inside, hs, by simp⟩, rfl⟩
    | leaf l =>
      exact ⟨[.node n], ⟨parent, outside, inside, n, line, l, hs, rfl, hj, .self ha, hr,
        by rw [between_self]; rfl⟩, rfl⟩
    | tag t =>
      obtain ⟨head, inline⟩ := t
      cases inline with
      | some l =>
        exact ⟨[.node n], ⟨parent, outside, inside, n, line, l, hs, rfl, hj, .self ha, hr,
          by rw [between_self]; rfl⟩, rfl⟩
      | none =>
        refine ⟨[.node n], ?_, rfl⟩
        intro w hd
        exact ⟨some n, .body hs hj hr (fun he => not_endsInOpenHelper (hno he))
          (hself w (by simpa [Outline.isDeeper] using hd)) .nil⟩

/-- An absorbed line goes into the latest one. -/
theorem LatestPlaced.absorb {levels : List Level} {marks : List Mark} {latest : Latest}
    {line : Line} (h : LatestPlaced separator lines n levels marks latest)
    (hl : lines[n]? = some line) (ha : Absorbed lines n) (hla : latest.absorbs = true) :
    LatestPlaced separator lines (n + 1) levels marks (latest.absorb separator line.content) := by
  cases latest with
  | comment =>
    obtain ⟨parent, outside, inside, hs, he⟩ := h
    exact ⟨parent, outside, inside, hs.succ fun _ _ => .inl ha, he⟩
  | inline tag leaf =>
    obtain ⟨parent, outside, inside, m, first, l, hs, he, hj, hlast, hr, rfl⟩ := h
    refine ⟨parent, outside, inside, m, first, l, hs.succ fun _ _ => .inl ha, he, hj,
      hlast.of_absorbed ha, hr, ?_⟩
    rw [between_succ hlast.before hl, Leaf.extendAll_append]
  | header owner => simp at hla

/-- A line that makes a node or opens a branch. -/
def Marked (lines : List Line) (i : Nat) : Prop :=
  ∃ line, lines[i]? = some line ∧ ¬Absorbed lines i ∧ line.reading ≠ .comment

/-- After `n` lines an outline holds each of them in its place. -/
structure Grown (separator : Text) (lines : List Line) (n : Nat) (marks : List Mark) (o : Outline) :
    Prop where
  follows : Outline.Follows lines n o
  latest : LatestPlaced separator lines n o.levels marks o.latest
  ordered : (marks.map Mark.place).Pairwise (· < ·)
  complete : ∀ i, i ∈ marks.map Mark.place ↔ i < n ∧ Marked lines i

namespace Grown

theorem start (separator : Text) (lines : List Line) :
    Grown separator lines 0 [] Outline.empty := by
  refine ⟨.start lines, ?_, by simp, by simp⟩
  intro w hd
  exact ⟨none, .document (fun j hj => by omega) .nil⟩

/-- The marks of the lines so far and of a line placed now. -/
theorem extend {marks added : List Mark} {o o' : Outline} {line : Line}
    (h : Grown separator lines n marks o) (hl : lines[n]? = some line)
    (ha : ¬Absorbed lines n) (hf : Outline.Follows lines (n + 1) o')
    (hlatest : LatestPlaced separator lines (n + 1) o'.levels (marks ++ added) o'.latest)
    (hadd : added.map Mark.place = if line.reading = .comment then [] else [n]) :
    Grown separator lines (n + 1) (marks ++ added) o' := by
  refine ⟨hf, hlatest, ?_, ?_⟩
  · rw [List.map_append, hadd, List.pairwise_append]
    refine ⟨h.ordered, by split <;> simp, ?_⟩
    intro i hi j hj
    have hin := ((h.complete i).mp hi).1
    split at hj <;> simp_all
  · intro i
    have hmark : Marked lines n ↔ line.reading ≠ .comment := by
      simp [Marked, hl, ha]
    rw [List.map_append, List.mem_append, h.complete, hadd, Nat.lt_succ_iff_lt_or_eq]
    constructor
    · rintro (⟨hi, hm⟩ | hi)
      · exact ⟨.inl hi, hm⟩
      · split at hi
        · simp at hi
        · rename_i hc
          rw [List.mem_singleton.mp hi]
          exact ⟨.inr rfl, hmark.mpr hc⟩
    · rintro ⟨hi | rfl, hm⟩
      · exact .inl ⟨hi, hm⟩
      · rw [if_neg (hmark.mp hm)]
        exact .inr (by simp)

/-- One more line, by the three ways in which a step can go. -/
theorem step {marks : List Mark} {o o' : Outline} {line : Line}
    (h : Grown separator lines n marks o) (hl : lines[n]? = some line)
    (hs : o.step separator line = .ok o') : ∃ marks', Grown separator lines (n + 1) marks' o' := by
  have hf := h.follows.step hl hs
  obtain ⟨hd, hla, rfl⟩ | ⟨hd, owner, hla, rfl⟩ | ⟨hd, top, outer, hset, rfl⟩ :=
    Outline.step_cases hs
  · have ha := (h.follows.absorbed_iff hl).mpr ⟨hd, hla⟩
    refine ⟨marks, hf, h.latest.absorb hl ha hla, h.ordered, ?_⟩
    intro i
    rw [h.complete, Nat.lt_succ_iff_lt_or_eq]
    constructor
    · rintro ⟨hi, hm⟩
      exact ⟨.inl hi, hm⟩
    · rintro ⟨hi | rfl, hm⟩
      · exact ⟨hi, hm⟩
      · obtain ⟨-, -, hna, -⟩ := hm
        exact absurd ha hna
  · have ha : ¬Absorbed lines n := by simp [h.follows.absorbed_iff hl, hla]
    have hlatest := h.latest
    rw [hla] at hlatest
    obtain ⟨parent, hst⟩ := hlatest line.width hd
    rw [Outline.isDeeper_iff _ _ h.follows.decreasing] at hd
    obtain ⟨added, hp, hadd⟩ := hst.place hl ha rfl fun l hm => hd _ (List.mem_map_of_mem hm)
    rw [List.append_nil] at hp
    exact ⟨marks ++ added, h.extend hl ha hf hp hadd⟩
  · have ha : ¬Absorbed lines n := by simp [h.follows.absorbed_iff hl, hd]
    obtain ⟨inner, base, ho, hi, hb, rfl⟩ := Outline.settle_eq_ok hset
    have hnot : ∀ m, LastUnabsorbed lines n m → ∀ line', lines[n]? = some line' →
        line'.width ≤ widthAt lines m := by
      intro m hm line' hl'
      have hdeep := h.follows.isDeeper_iff hl hm
      rw [hd, widthAt_eq hl'] at hdeep
      simpa using hdeep
    obtain ⟨parent, outside, inside, hst, hmarks⟩ := h.latest.settled (by simp [ho]) hnot
    rw [ho] at hst
    obtain ⟨parent', outside', inside', hst', he⟩ := hst.collapse
    have hdec := h.follows.decreasing
    rw [ho, List.map_append, List.pairwise_append, List.map_cons, List.pairwise_cons] at hdec
    have hout : ∀ l ∈ outer, l.width < line.width := by
      intro l hm
      have := hdec.2.1.1 _ (List.mem_map_of_mem hm)
      omega
    obtain ⟨added, hp, hadd⟩ := hst'.place hl ha hb hout
    rw [he, ← hmarks] at hp
    exact ⟨marks ++ added, h.extend hl ha hf hp hadd⟩

/-- When all lines are read, closing the levels puts every node in its place. -/
theorem placed {marks : List Mark} {o : Outline} (h : Grown separator lines lines.length marks o) :
    Placed separator lines none marks o.nodes := by
  by_cases hne : o.levels = []
  · have hlatest := h.latest
    rcases h.follows.latest with ⟨hn, rfl⟩ | ⟨m, hm, -⟩
    · obtain ⟨parent, hst⟩ := hlatest 0 rfl
      cases hst with
      | document hn hp => exact .nil
    · have := (h.follows.widths _).mpr hm.openWidth
      simp [hne] at this
  · obtain ⟨parent, outside, inside, hst, rfl⟩ :=
      h.latest.settled hne (by intro m hm line hl; simp at hl)
    exact hst.closeAll

end Grown

end

/-- Every line has taken its place in the outline that a source leaves. -/
theorem grown_of_run {separator : Text} {lines : List Line} {o : Outline}
    (h : Outline.empty.run separator lines = .ok o) :
    ∃ marks, Grown separator lines lines.length marks o :=
  Outline.run_keeps (I := fun n o => ∃ marks, Grown separator lines n marks o)
    ⟨[], Grown.start separator lines⟩ (fun _ _ _ _ ⟨_, hg⟩ hl hs => hg.step hl hs) h

/-- In the document of a source, the lines that are neither absorbed nor comments make the nodes, in
source order, each under the nearest earlier line that is narrower and not absorbed, and a visit of
the document meets them in that order. -/
theorem parse_placed {separator source : Text} {nodes : List Node}
    (h : parse separator source = .ok nodes) :
    ∃ marks, Placed separator (Line.ofSource source) none marks nodes ∧
      (marks.map Mark.place).Pairwise (· < ·) ∧
      (∀ i, i ∈ marks.map Mark.place ↔ ∃ line, (Line.ofSource source)[i]? = some line ∧
        ¬Absorbed (Line.ofSource source) i ∧ line.reading ≠ .comment) ∧
      Node.visitAll nodes = marks.flatMap (Mark.pieces separator (Line.ofSource source)) := by
  obtain ⟨o, hr, rfl⟩ := parse_eq_ok_iff.mp h
  obtain ⟨marks, hg⟩ := grown_of_run hr
  refine ⟨marks, hg.placed, hg.ordered, ?_, hg.placed.visitAll_eq⟩
  intro i
  rw [hg.complete]
  constructor
  · exact fun hi => hi.2
  · rintro ⟨line, hl, hm⟩
    exact ⟨(List.getElem?_eq_some_iff.mp hl).1, line, hl, hm⟩

/-- A helper with a branch, a comment that absorbs a line, and literal text that goes on. -/
theorem parse_placed_branched :
    let source : Text := "if a\n  / note\n    p\n  | x\n     y\nelse\n  | z"
    ∃ nodes, parse defaultSeparator source = .ok nodes ∧
      ∃ marks, Placed defaultSeparator (Line.ofSource source) none marks nodes ∧
        (marks.map Mark.place).Pairwise (· < ·) ∧
        (∀ i, i ∈ marks.map Mark.place ↔ ∃ line, (Line.ofSource source)[i]? = some line ∧
          ¬Absorbed (Line.ofSource source) i ∧ line.reading ≠ .comment) ∧
        Node.visitAll nodes =
          marks.flatMap (Mark.pieces defaultSeparator (Line.ofSource source)) := by
  intro source
  have h : parse defaultSeparator source =
      .ok [.tag ⟨"if", [], true, "a", 1⟩ [.leaf (.literal ["x", "y"])]
        (some [.leaf (.literal ["z"])])] := rfl
  exact ⟨_, h, parse_placed h⟩

end IndentMarkup
