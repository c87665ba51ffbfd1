import IndentMarkup.Proofs.InPlace

/-!
# What the frames point to between two lines

Between any two lines, the frames of a document that is grown in place point to lists on its
rightmost path, each to a list of its own, and the document lies at the bottom. Once there has been
a line, either the next deeper line has a list waiting for it, which is empty and belongs to no
frame yet, or the line is taken in. So closing frames ends at the document at the latest, and only
the first line ever opens a frame on a list that has one.
-/
namespace IndentMarkup

namespace InPlace

/-- The document itself, as a level narrower than any line. -/
def sentinel : Frame := ⟨-1, .document, false⟩

/-! ## The rightmost path -/

/-- The lists on the rightmost path of a document, with their places: the document's own list, and
for the last node of a list on the path its branch or, where it has none, its children. -/
inductive Rightmost (document : List Node) : Ref → Bool → List Node → Prop where
  | document : Rightmost document .document false document
  | children {owner : Ref} {branch : Bool} {before children : List Node} {head : Head} :
      Rightmost document owner branch (before ++ [.tag head children none]) →
      Rightmost document (.item owner branch before.length) false children
  | branch {owner : Ref} {branch : Bool} {before children nodes : List Node} {head : Head} :
      Rightmost document owner branch (before ++ [.tag head children (some nodes)]) →
      Rightmost document (.item owner branch before.length) true nodes

/-- The list of the innermost level ends the rightmost path. -/
theorem rightmost_closeAll {top : Level} {outer : List Level} (h : Rooted (top :: outer))
    (late : List Node) :
    Rightmost (Outline.closeAll (top :: outer) late) (next outer) (isBranch top.owner)
      (late ++ top.nodes).reverse := by
  induction outer generalizing top late with
  | nil =>
    have hd : top.owner = .document := h.1.mpr rfl
    simp only [next, hd, isBranch, Outline.closeAll, Owner.wrap_document]
    exact .document
  | cons mid rest ih =>
    -- the tag that owns the nodes ends the list of the level around it
    have hmid := ih h.2 (top.owner.wrap (late ++ top.nodes))
    rw [Outline.closeAll, next, ← List.length_reverse]
    cases ho : top.owner with
    | document => simpa using h.1.mp ho
    | body head =>
      rw [ho, Owner.wrap_body, List.singleton_append, List.reverse_cons] at hmid
      exact hmid.children
    | branch head children =>
      rw [ho, Owner.wrap_branch, List.singleton_append, List.reverse_cons] at hmid
      exact hmid.branch

/-- A node that settles on the innermost level stands where the levels wait for one. -/
theorem node?_next {top : Level} {outer : List Level} (h : Rooted (top :: outer)) (node : Node) :
    (next (top :: outer)).node? (Outline.closeAll (top :: outer) [node]) = some node := by
  rw [next, Ref.node?, edit_closeAll h]
  simp [Except.map]

theorem closeAll_append (inner outer : List Level) (late : List Node) :
    Outline.closeAll (inner ++ outer) late =
      Outline.closeAll outer (Outline.collapse inner late) := by
  simp only [Outline.closeAll_eq_collapse, Outline.collapse_append]

/-! ## Owners -/

/-- Branches are those of helpers. -/
def OwnedByHelper : Owner → Prop
  | .branch head _ => head.helper = true
  | _ => True

/-- No branch of an element is open, nor waits for its first line. -/
structure Owned (o : Outline) : Prop where
  levels : ∀ level ∈ o.levels, OwnedByHelper level.owner
  header : ∀ owner, o.latest = .header owner → OwnedByHelper owner

theorem Owned.empty : Owned Outline.empty := by
  refine ⟨by simp [Outline.empty], ?_⟩
  rintro owner ⟨⟩
  trivial

theorem Owned.place {top : Level} {outer : List Level} (htop : OwnedByHelper top.owner)
    (houter : ∀ level ∈ outer, OwnedByHelper level.owner) (line : Line) :
    Owned (Outline.place top outer line) := by
  obtain ⟨-, owner, before, hb, hp⟩ | ⟨-, hp⟩ := Outline.place_cases top outer line
  · obtain ⟨head, children, -, hh, rfl⟩ := branch?_eq_some hb
    rw [hp]
    refine ⟨List.forall_mem_cons.mpr ⟨htop, houter⟩, ?_⟩
    rintro owner ⟨⟩
    exact hh
  · rw [hp]
    refine ⟨List.forall_mem_cons.mpr ⟨htop, houter⟩, ?_⟩
    intro owner ho
    -- by itself, a line opens no branch
    cases hr : line.reading with
    | comment => simp [hr, Reading.latest] at ho
    | leaf l => simp [hr, Reading.latest] at ho
    | tag t =>
      obtain ⟨head, _ | l⟩ := t
      · obtain rfl : Owner.body head = owner := by simpa [hr, Reading.latest] using ho
        trivial
      · simp [hr, Reading.latest] at ho

/-- Only an `else` behind a helper opens a branch, so that branches stay those of helpers. -/
theorem Owned.step {separator : Text} {o o' : Outline} {line : Line} (h : Owned o)
    (hs : o.step separator line = .ok o') : Owned o' := by
  obtain ⟨-, hla, rfl⟩ | ⟨-, owner, hla, rfl⟩ | ⟨-, top, outer, hset, rfl⟩ := Outline.step_cases hs
  · refine ⟨h.levels, ?_⟩
    intro owner ho
    have := congrArg Latest.absorbs ho
    simp [hla] at this
  · exact Owned.place (h.header owner hla) h.levels line
  · obtain ⟨inner, base, hl, -, -, rfl⟩ := Outline.settle_eq_ok hset
    have hlevels := h.levels
    rw [hl, List.forall_mem_append, List.forall_mem_cons] at hlevels
    refine Owned.place ?_ hlevels.2.2 line
    exact hlevels.2.1

/-! ## Frames and places -/

def Ref.depth : Ref → Nat
  | .document => 0
  | .item owner _ _ => owner.depth + 1

theorem depth_next (levels : List Level) : (next levels).depth = levels.length := by
  induction levels with
  | nil => rfl
  | cons top outer ih => rw [next, Ref.depth, ih, List.length_cons]

def levelFrames : List Level → List Frame
  | [] => []
  | top :: outer => frame top outer :: levelFrames outer

theorem frames_eq (levels : List Level) : frames levels = levelFrames levels ++ [sentinel] := by
  induction levels with
  | nil => rfl
  | cons top outer ih => rw [frames, ih, levelFrames, List.cons_append]

/-- A frame above the document is that of one of the levels. -/
theorem mem_levelFrames {levels : List Level} {f : Frame} (h : f ∈ levelFrames levels) :
    ∃ inner top outer, levels = inner ++ top :: outer ∧ f = frame top outer := by
  induction levels with
  | nil => simp [levelFrames] at h
  | cons top outer ih =>
    rcases List.mem_cons.mp h with rfl | h
    · exact ⟨[], top, outer, rfl, rfl⟩
    · obtain ⟨inner, base, rest, rfl, rfl⟩ := ih h
      exact ⟨top :: inner, base, rest, rfl, rfl⟩

theorem widths_levelFrames (levels : List Level) :
    (levelFrames levels).map (·.width) = levels.map fun l => (l.width : Int) := by
  induction levels with
  | nil => rfl
  | cons top outer ih => rw [levelFrames, List.map_cons, ih]; rfl

theorem depth_of_mem_levelFrames {levels : List Level} {f : Frame} (h : f ∈ levelFrames levels) :
    f.owner.depth < levels.length := by
  obtain ⟨inner, top, outer, rfl, rfl⟩ := mem_levelFrames h
  simp [frame, depth_next]
  omega

/-- The deeper a level, the deeper its place. -/
theorem nodup_levelFrames (levels : List Level) :
    ((levelFrames levels).map fun f => (f.owner, f.branch)).Nodup := by
  induction levels with
  | nil => exact List.nodup_nil
  | cons top outer ih =>
    rw [levelFrames, List.map_cons, List.nodup_cons]
    refine ⟨?_, ih⟩
    intro hmem
    obtain ⟨f, hf, he⟩ := List.mem_map.mp hmem
    have hdepth := depth_of_mem_levelFrames hf
    have howner : f.owner = next outer := congrArg Prod.fst he
    rw [howner, depth_next] at hdepth
    exact Nat.lt_irrefl _ hdepth

/-! ## Between two lines -/

/-- What the frames are between two lines. -/
structure State.Framed (s : State) : Prop where
  bottom : s.frames.getLast? = some sentinel
  widths : (s.frames.map (·.width)).Pairwise (· > ·)
  rightmost : ∀ f ∈ s.frames, ∃ nodes, Rightmost s.document f.owner f.branch nodes
  branches : ∀ f ∈ s.frames, f.branch = true → ∃ head children nodes,
    f.owner.node? s.document = some (.tag head children (some nodes)) ∧ head.helper = true
  distinct : (s.frames.dropLast.map fun f => (f.owner, f.branch)).Nodup

/-- What a state has for the next line once there has been one. -/
structure State.Begun (s : State) : Prop where
  either : s.previous = none ↔ s.absorber ≠ none
  absorber : ∀ width target, s.absorber = some (width, target) →
    ∃ top, s.frames.head? = some top ∧ top.width = width
  previous : ∀ ref branch, s.previous = some (ref, branch) →
    (∃ head children inverse, ref.node? s.document = some (.tag head children inverse) ∧
      (if branch then inverse else some children) = some []) ∧
    ∀ f ∈ s.frames, (f.owner, f.branch) ≠ (ref, branch)

/-- The line is not taken in, and is deeper than the innermost frame. -/
def State.Opens (s : State) (line : Line) : Prop :=
  (∀ width target, s.absorber = some (width, target) → line.width ≤ width) ∧
    ∃ top, s.frames.head? = some top ∧ top.width < line.width

/-- The branch that a level grows stands in its helper. -/
theorem node?_branch {top : Level} {outer : List Level} (h : Rooted (top :: outer)) {head : Head}
    {children : List Node} (ho : top.owner = .branch head children) (late : List Node) :
    (next outer).node? (Outline.closeAll (top :: outer) late) =
      some (.tag head children (some (late ++ top.nodes).reverse)) := by
  cases outer with
  | nil => simp [h.1.mpr rfl] at ho
  | cons mid rest =>
    rw [Outline.closeAll, ho, Owner.wrap_branch]
    exact node?_next h.2 _

/-- The frames of an outline that has grown line by line are as described. -/
theorem framed_view {o : Outline} (hg : Grounded o) (ho : Owned o)
    (hw : (o.levels.map (·.width)).Pairwise (· > ·)) : (view o).Framed := by
  have hplace : ∀ f ∈ levelFrames o.levels, ∃ inner top outer, o.levels = inner ++ top :: outer ∧
      f = frame top outer ∧ (view o).document =
        Outline.closeAll (top :: outer) (Outline.collapse inner o.latest.nodes) := by
    intro f hf
    obtain ⟨inner, top, outer, hl, rfl⟩ := mem_levelFrames hf
    refine ⟨inner, top, outer, hl, rfl, ?_⟩
    rw [← closeAll_append, ← hl]
    rfl
  have hframes : (view o).frames = levelFrames o.levels ++ [sentinel] := frames_eq o.levels
  constructor
  · simp [hframes]
  · rw [hframes, List.map_append, widths_levelFrames, List.pairwise_append]
    refine ⟨?_, List.pairwise_singleton _ _, ?_⟩
    · rw [List.pairwise_map] at hw ⊢
      exact hw.imp fun hlt => Int.ofNat_lt.mpr hlt
    · simp only [List.mem_map, List.map_cons, List.map_nil, List.mem_singleton]
      rintro _ ⟨level, -, rfl⟩ _ rfl
      simp only [sentinel]
      omega
  · rw [hframes]
    intro f hf
    rcases List.mem_append.mp hf with hf | hf
    · obtain ⟨inner, top, outer, hl, rfl, hd⟩ := hplace f hf
      rw [hd]
      exact ⟨_, rightmost_closeAll (Rooted.of_append (hl ▸ hg.levels)) _⟩
    · obtain rfl := List.mem_singleton.mp hf
      exact ⟨_, .document⟩
  · rw [hframes]
    intro f hf hb
    rcases List.mem_append.mp hf with hf | hf
    · obtain ⟨inner, top, outer, hl, rfl, hd⟩ := hplace f hf
      have hroot : Rooted (top :: outer) := Rooted.of_append (hl ▸ hg.levels)
      have howned := ho.levels top (by simp [hl])
      cases howner : top.owner with
      | document => simp [frame, howner, isBranch] at hb
      | body head => simp [frame, howner, isBranch] at hb
      | branch head children =>
        rw [howner] at howned
        rw [hd]
        exact ⟨head, children, _, node?_branch hroot howner _, howned⟩
    · obtain rfl := List.mem_singleton.mp hf
      simp [sentinel] at hb
  · simpa [hframes] using nodup_levelFrames o.levels

theorem begun_view {o : Outline} (hg : Grounded o) (hne : o.levels ≠ []) : (view o).Begun := by
  obtain ⟨levels, latest⟩ := o
  obtain ⟨top, outer, rfl⟩ := List.exists_cons_of_ne_nil hne
  cases latest with
  | comment =>
    refine ⟨by simp [view, previous, absorber], ?_, by simp [view, previous]⟩
    rintro width target ⟨⟩
    exact ⟨_, rfl, rfl⟩
  | inline tag l =>
    refine ⟨by cases tag <;> simp [view, previous, absorber], ?_, by simp [view, previous]⟩
    intro width target ha
    cases tag <;> obtain ⟨⟩ := ha <;> exact ⟨_, rfl, rfl⟩
  | header owner =>
    have hdepth : ∀ f ∈ frames (top :: outer), f.owner.depth < (top :: outer).length := by
      rw [frames_eq]
      intro f hf
      rcases List.mem_append.mp hf with hf | hf
      · exact depth_of_mem_levelFrames hf
      · obtain rfl := List.mem_singleton.mp hf
        simp [sentinel, Ref.depth]
    have hfresh : ∀ f ∈ frames (top :: outer), f.owner ≠ next (top :: outer) := by
      intro f hf he
      have := hdepth f hf
      rw [he, depth_next] at this
      exact Nat.lt_irrefl _ this
    cases owner with
    | document => simpa using (hg.header .document rfl).mp rfl
    | body head =>
      refine ⟨by simp [view, previous, absorber], by simp [view, absorber], ?_⟩
      rintro ref branch ⟨⟩
      refine ⟨⟨head, [], none, node?_next hg.levels _, rfl⟩, ?_⟩
      intro f hf he
      exact hfresh f hf (congrArg Prod.fst he)
    | branch head children =>
      refine ⟨by simp [view, previous, absorber], by simp [view, absorber], ?_⟩
      rintro ref branch ⟨⟩
      refine ⟨⟨head, children, some [], node?_next hg.levels _, rfl⟩, ?_⟩
      intro f hf he
      exact hfresh f hf (congrArg Prod.fst he)

/-! ## What the next line can do -/

/-- Closing frames ends at the document at the latest. -/
theorem dedent_of_bottom (width : Nat) {frames : List Frame}
    (h : frames.getLast? = some sentinel) :
    ∃ found rest, dedent width frames = .ok (found, rest) ∧ (found :: rest) <:+ frames ∧
      (found :: rest).getLast? = some sentinel := by
  induction frames with
  | nil => simp at h
  | cons top outer ih =>
    rw [dedent]
    split
    · rename_i hw
      cases outer with
      | nil =>
        obtain rfl : top = sentinel := by simpa using h
        simp only [sentinel] at hw
        omega
      | cons next rest =>
        rw [List.getLast?_cons_cons] at h
        obtain ⟨found, outside, hd, hsuffix, hlast⟩ := ih h
        exact ⟨found, outside, hd, hsuffix.trans (List.suffix_cons _ _), hlast⟩
    · exact ⟨top, outer, rfl, List.suffix_refl _, h⟩

/-- A line that opens a frame is placed, and on a frame over all that there are. -/
theorem step_of_opens {s : State} {line : Line} (h : s.Opens line) (separator : Text) :
    s.step separator line = s.place line ∧ ∃ f, resolve s line = .ok (f, s.frames) := by
  obtain ⟨habsorber, top, htop, hw⟩ := h
  constructor
  · unfold State.step
    split
    · rfl
    · rename_i width target ha
      rw [if_neg]
      have := habsorber width target ha
      omega
  · obtain ⟨outer, hframes⟩ := List.head?_eq_some_iff.mp htop
    simp [resolve, hframes, hw]

/-- Only a list that waits makes a line open a frame. -/
theorem State.Begun.previous_of_opens {s : State} {line : Line} (h : s.Begun)
    (ho : s.Opens line) : s.previous ≠ none := by
  intro hp
  obtain ⟨habsorber, top, htop, hw⟩ := ho
  obtain ⟨⟨width, target⟩, ha⟩ := Option.ne_none_iff_exists'.mp (h.either.mp hp)
  obtain ⟨top', htop', hwidth⟩ := h.absorber width target ha
  obtain rfl : top = top' := Option.some.inj (htop.symm.trans htop')
  have := habsorber width target ha
  omega

/-! ## Every state of a run -/

theorem levels_ne_nil {lines : List Line} {n : Nat} {o : Outline} (h : o.Follows lines n)
    (hn : n ≠ 0) : o.levels ≠ [] := by
  obtain ⟨rfl, -⟩ | ⟨m, hm, -⟩ := h.latest
  · exact absurd rfl hn
  · intro hnil
    have := (h.widths _).mpr hm.openWidth
    simp [hnil] at this

/-- What the outlines of a run have in common. -/
structure Upright (lines : List Line) (n : Nat) (o : Outline) : Prop where
  follows : o.Follows lines n
  grounded : Grounded o
  owned : Owned o

theorem Upright.start (lines : List Line) : Upright lines 0 Outline.empty :=
  ⟨Outline.Follows.start lines, grounded_empty, Owned.empty⟩

theorem Upright.step {separator : Text} {lines : List Line} {n : Nat} {o o' : Outline}
    {line : Line} (h : Upright lines n o) (hl : lines[n]? = some line)
    (hs : o.step separator line = .ok o') : Upright lines (n + 1) o' :=
  ⟨h.follows.step hl hs, h.grounded.step hs, h.owned.step hs⟩

/-- All that the outlines of a run have in common holds behind its last line. -/
theorem upright_of_run {separator : Text} {lines : List Line} {o : Outline}
    (h : Outline.empty.run separator lines = .ok o) : Upright lines lines.length o :=
  Outline.run_keeps (Upright.start lines) (fun _ _ _ _ hu hl hs => hu.step hl hs) h

/-- Whatever the lines so far, the frames lie over the document with strictly growing widths and
point to lists on its rightmost path, each above the document to a list of its own. After the first
line, either the next deeper line has an empty list that is nobody's yet, or it is taken in. So
closing frames leaves the document open, and only the first line opens a frame where no list
waits. -/
theorem frames_between_lines {separator source : Text} {n : Nat} {s : State}
    (h : State.start.run separator ((Line.ofSource source).take n) = .ok s) :
    (∃ o, Outline.empty.run separator ((Line.ofSource source).take n) = .ok o ∧
      o.nodes = s.document) ∧
    s.Framed ∧
    ((Line.ofSource source).take n ≠ [] → s.Begun) ∧
    (∀ width, ∃ found rest, dedent width s.frames = .ok (found, rest) ∧
      (found :: rest) <:+ s.frames ∧ (found :: rest).getLast? = some sentinel) ∧
    (∀ line, s.Opens line →
      s.step separator line = s.place line ∧ ∃ f, resolve s line = .ok (f, s.frames)) ∧
    ∀ line, (Line.ofSource source)[n]? = some line →
      (s.Opens line ∧ s.previous = none ↔ n = 0) := by
  have hcontent : ∀ line ∈ (Line.ofSource source).take n, line.content ≠ [] :=
    fun line hl => content_ne_nil (List.mem_of_mem_take hl)
  obtain ⟨o, hr, rfl⟩ := outline_of_run hcontent h
  have hu := upright_of_run hr
  have hframed := framed_view hu.grounded hu.owned hu.follows.decreasing
  have hbegun (hne : (Line.ofSource source).take n ≠ []) : (view o).Begun :=
    begun_view hu.grounded (levels_ne_nil hu.follows (by simpa using hne))
  refine ⟨⟨o, hr, rfl⟩, hframed, hbegun, fun width => dedent_of_bottom width hframed.bottom,
    fun line hopens => step_of_opens hopens separator, ?_⟩
  intro line hline
  constructor
  · rintro ⟨hopens, hprevious⟩
    by_contra hn
    have hlt : n < (Line.ofSource source).length := (List.getElem?_eq_some_iff.mp hline).1
    have hne : (Line.ofSource source).take n ≠ [] := by
      rw [Ne, List.take_eq_nil_iff]
      rintro (h0 | hnil)
      · exact hn h0
      · simp [hnil] at hlt
    exact (hbegun hne).previous_of_opens hopens hprevious
  · rintro rfl
    obtain rfl : Outline.empty = o := by simpa using hr
    refine ⟨⟨by simp [view, Outline.empty, absorber], sentinel, rfl, ?_⟩, rfl⟩
    simp only [sentinel]
    omega

/-- Within a branch that has been opened behind a comment and a text that goes on. -/
theorem frames_between_lines_branched :
    let source : Text := "if a\n  / note\n    p\n  | x\n     y\nelse\n  | z\n%p"
    ∃ s, State.start.run defaultSeparator ((Line.ofSource source).take 7) = .ok s ∧
      (∃ o, Outline.empty.run defaultSeparator ((Line.ofSource source).take 7) = .ok o ∧
        o.nodes = s.document) ∧
      s.Framed ∧
      ((Line.ofSource source).take 7 ≠ [] → s.Begun) ∧
      (∀ width, ∃ found rest, dedent width s.frames = .ok (found, rest) ∧
        (found :: rest) <:+ s.frames ∧ (found :: rest).getLast? = some sentinel) ∧
      (∀ line, s.Opens line → s.step defaultSeparator line = s.place line ∧
        ∃ f, resolve s line = .ok (f, s.frames)) ∧
      ∀ line, (Line.ofSource source)[7]? = some line →
        (s.Opens line ∧ s.previous = none ↔ 7 = 0) := by
  intro source
  have h : State.start.run defaultSeparator ((Line.ofSource source).take 7) =
      .ok ⟨[.tag ⟨"if", [], true, "a", 1⟩ [.leaf (.literal ["x", "y"])]
          (some [.leaf (.literal ["z"])])],
        [⟨2, .item .document false 0, true⟩, ⟨0, .document, false⟩, sentinel], none,
        some (2, some (.item (.item .document false 0) true 0))⟩ := rfl
  exact ⟨_, h, frames_between_lines h⟩

end InPlace

end IndentMarkup
