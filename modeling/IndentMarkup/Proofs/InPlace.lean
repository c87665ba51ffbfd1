import IndentMarkup.Proofs.HalfDedents
import IndentMarkup.Proofs.Rendering

/-!
# Growing a document in place

A document can also be grown without an outline: every line changes the document itself, at a place
that a stack of frames, the header of the line before and the text that takes further lines point
to. Done that way, almost every act can go wrong: the stack can be empty, a place can lead nowhere
or to a branch that is not there, and a tag can be told to go on as a text. This machine names each
of these faults. It follows the outline line by line, since what its frames point to is what the
levels of the outline own; so none of its faults occurs, and nothing but a half dedent stops it.
-/
namespace IndentMarkup

namespace InPlace

/-! ## Places -/

/-- Where the document or a node of it stands. -/
inductive Ref where
  | document
  /-- A node among the children of its owner, or in the owner's branch. -/
  | item (owner : Ref) (branch : Bool) (index : Nat)

/-- What can go wrong at a line. -/
inductive Fault where
  /-- The stack of frames is empty. -/
  | noFrame
  /-- The line has no first character. -/
  | noContent
  /-- The place leads to nothing, or to a text where something with children is wanted. -/
  | noNode
  /-- The document, or a tag without a branch, is asked for its branch. -/
  | noBranch
  /-- Something other than text is continued. -/
  | notText
  deriving DecidableEq, Repr

section Editing

variable {α : Type}

def atIndex (index : Nat) (f : Node → Except Fault (α × Node)) (nodes : List Node) :
    Except Fault (α × List Node) :=
  match nodes[index]? with
  | none => .error .noNode
  | some node => (f node).map fun r => (r.1, nodes.set index r.2)

def within (branch : Bool) (f : List Node → Except Fault (α × List Node)) :
    Node → Except Fault (α × Node)
  | .tag head children inverse =>
    match branch, inverse with
    | false, _ => (f children).map fun r => (r.1, .tag head r.2 inverse)
    | true, none => .error .noBranch
    | true, some nodes => (f nodes).map fun r => (r.1, .tag head children (some r.2))
  | _ => .error .noNode

/-- Change the children or the branch of what stands at a place of the document. -/
def edit : Ref → Bool → (List Node → Except Fault (α × List Node)) → List Node →
    Except Fault (α × List Node)
  | .document, false, f, document => f document
  | .document, true, _, _ => .error .noBranch
  | .item owner branch index, inner, f, document =>
    edit owner branch (atIndex index (within inner f)) document

end Editing

def Ref.node? (document : List Node) : Ref → Option Node
  | .document => none
  | .item owner branch index =>
    match edit owner branch (fun nodes => .ok (nodes[index]?, nodes)) document with
    | .error _ => none
    | .ok found => found.1

/-! ## The machine -/

/-- An open indentation level: its width, and where its nodes go. -/
structure Frame where
  width : Int
  owner : Ref
  branch : Bool

structure State where
  document : List Node
  /-- Innermost first. -/
  frames : List Frame
  /-- What the line before opened for deeper lines. -/
  previous : Option (Ref × Bool)
  /-- The width of a line that takes deeper lines in, and the text that they continue; a comment
  has none. -/
  absorber : Option (Nat × Option Ref)

/-- Below every line there is the document, as a level narrower than any. -/
def State.start : State := ⟨[], [⟨-1, .document, false⟩], none, none⟩

inductive Failure where
  | halfDedent (e : HalfDedent)
  | fault (f : Fault)
  | unknownNode (type : Foreign)

def extendNode (separator content : Text) : Node → Except Fault (Unit × Node)
  | .leaf l => .ok ((), .leaf (l.extend separator content))
  | _ => .error .notText

def continueAt (separator content : Text) : Ref → List Node → Except Fault (List Node)
  | .document, _ => .error .notText
  | .item owner branch index, document =>
    (edit owner branch (atIndex index (extendNode separator content)) document).map (·.2)

/-- Take a node in as the last one of a frame. -/
def attach (frame : Frame) (node : Node) (document : List Node) : Except Fault (Ref × List Node) :=
  (edit frame.owner frame.branch (fun nodes => .ok (nodes.length, nodes ++ [node])) document).map
    fun r => (.item frame.owner frame.branch r.1, r.2)

/-- An empty branch for the last of the nodes, if it is a helper that has none. -/
def openBranch (nodes : List Node) : Option Nat × List Node :=
  match nodes.getLast? with
  | some (.tag head children none) =>
    if head.helper then
      (some (nodes.length - 1), nodes.dropLast ++ [.tag head children (some [])])
    else (none, nodes)
  | _ => (none, nodes)

def openElse (frame : Frame) (document : List Node) : Except Fault (Option Ref × List Node) :=
  (edit frame.owner frame.branch (fun nodes => .ok (openBranch nodes)) document).map
    fun r => (r.1.map (.item frame.owner frame.branch), r.2)

/-- Leave the frames that are wider than the line. -/
def dedent (width : Nat) : List Frame → Except Fault (Frame × List Frame)
  | [] => .error .noFrame
  | top :: outer => if (width : Int) < top.width then dedent width outer else .ok (top, outer)

/-- The widths of the frames above the document, in ascending order. -/
def openWidths (frames : List Frame) : List Nat :=
  ((frames.filter fun f => 0 ≤ f.width).map fun f => f.width.toNat).reverse

/-- The frame of a line and the frames around it. -/
def resolve (s : State) (line : Line) : Except Failure (Frame × List Frame) :=
  match s.frames with
  | [] => .error (.fault .noFrame)
  | top :: outer =>
    if top.width < line.width then
      let place := s.previous.getD (top.owner, top.branch)
      .ok (⟨line.width, place.1, place.2⟩, top :: outer)
    else
      match dedent line.width (top :: outer) with
      | .error f => .error (.fault f)
      | .ok (found, rest) =>
        if found.width = line.width then .ok (found, rest)
        else .error (.halfDedent ⟨line.width, openWidths (found :: rest), line.number⟩)

/-- Attach what a line says by itself. -/
def attachReading (document : List Node) (frame : Frame) (outer : List Frame) (line : Line) :
    Except Fault State :=
  match line.reading with
  | .comment => .ok ⟨document, frame :: outer, none, some (line.width, none)⟩
  | .leaf l =>
    (attach frame (.leaf l) document).map fun r =>
      ⟨r.2, frame :: outer, none, some (line.width, some r.1)⟩
  | .tag ⟨head, none⟩ =>
    (attach frame (.tag head [] none) document).map fun r =>
      ⟨r.2, frame :: outer, some (r.1, false), none⟩
  | .tag ⟨head, some l⟩ =>
    (attach frame (.tag head [.leaf l] none) document).map fun r =>
      ⟨r.2, frame :: outer, none, some (line.width, some (.item r.1 false 0))⟩

def classify (document : List Node) (frame : Frame) (outer : List Frame) (line : Line) :
    Except Fault State :=
  if line.content = [] then .error .noContent
  else if line.isElse then
    match openElse frame document with
    | .error f => .error f
    | .ok (some ref, document) => .ok ⟨document, frame :: outer, some (ref, true), none⟩
    | .ok (none, document) => attachReading document frame outer line
  else attachReading document frame outer line

/-- A line that is not taken in by the one before it. -/
def State.place (s : State) (line : Line) : Except Failure State :=
  (resolve s line).bind fun r => (classify s.document r.1 r.2 line).mapError .fault

def State.step (separator : Text) (s : State) (line : Line) : Except Failure State :=
  match s.absorber with
  | none => s.place line
  | some (width, target) =>
    if width < line.width then
      match target with
      | none => .ok s
      | some ref =>
        ((continueAt separator line.content ref s.document).mapError .fault).map
          fun document => { s with document }
    else s.place line

def State.run (separator : Text) : State → List Line → Except Failure State
  | s, [] => .ok s
  | s, line :: lines => (s.step separator line).bind fun next => next.run separator lines

/-- The template text of a source, with its document grown in place. -/
def compile (separator : Text) (source : Text) : Except Failure Text :=
  (State.start.run separator (Line.ofSource source)).bind fun s =>
    (Node.renderAll s.document).mapError .unknownNode

/-! ## The state that stands for an outline -/

def isBranch : Owner → Bool
  | .branch _ _ => true
  | _ => false

/-- Where the node that the levels wait for will stand. Without a level that is the document. -/
def next : List Level → Ref
  | [] => .document
  | top :: outer => .item (next outer) (isBranch top.owner) top.nodes.length

/-- The nodes of a level go to what the levels around it wait for. -/
def frame (top : Level) (outer : List Level) : Frame := ⟨top.width, next outer, isBranch top.owner⟩

def frames : List Level → List Frame
  | [] => [⟨-1, .document, false⟩]
  | top :: outer => frame top outer :: frames outer

/-- The width of the innermost level, which is that of the latest line. -/
def innermostWidth : List Level → Nat
  | [] => 0
  | top :: _ => top.width

def previous (levels : List Level) : Latest → Option (Ref × Bool)
  | .header .document => none
  | .header owner => some (next levels, isBranch owner)
  | _ => none

def absorber (levels : List Level) : Latest → Option (Nat × Option Ref)
  | .comment => some (innermostWidth levels, none)
  | .inline none _ => some (innermostWidth levels, some (next levels))
  | .inline (some _) _ => some (innermostWidth levels, some (.item (next levels) false 0))
  | .header _ => none

def view (o : Outline) : State :=
  ⟨o.nodes, frames o.levels, previous o.levels o.latest, absorber o.levels o.latest⟩

/-- Only the outermost level belongs to the document. -/
def Rooted : List Level → Prop
  | [] => True
  | top :: outer => (top.owner = .document ↔ outer = []) ∧ Rooted outer

/-- The document waits for its first line, or stands at the bottom of the levels. -/
structure Grounded (o : Outline) : Prop where
  levels : Rooted o.levels
  header : ∀ owner, o.latest = .header owner → (owner = .document ↔ o.levels = [])
  absorbs : o.latest.absorbs = true → o.levels ≠ []

theorem grounded_empty : Grounded Outline.empty := by
  refine ⟨trivial, ?_, by simp [Outline.empty]⟩
  rintro owner ⟨⟩
  simp [Outline.empty]

/-! ## Editing what the levels own -/

section

variable {α : Type}

/-- The last of the nodes, which are given latest first. -/
theorem atIndex_last (f : Node → Except Fault (α × Node)) (node : Node) (nodes : List Node) :
    atIndex nodes.length f (node :: nodes).reverse =
      (f node).map fun r => (r.1, (r.2 :: nodes).reverse) := by
  simp [atIndex]

/-- An edit of the innermost level's nodes changes these and nothing else. -/
theorem edit_closeAll {top : Level} {outer : List Level} (h : Rooted (top :: outer))
    (f : List Node → Except Fault (α × List Node)) (late : List Node) :
    edit (next outer) (isBranch top.owner) f (Outline.closeAll (top :: outer) late) =
      (f (late ++ top.nodes).reverse).map fun r =>
        (r.1, Outline.closeAll outer (top.owner.wrap r.2.reverse)) := by
  induction outer generalizing top f late with
  | nil =>
    have hd : top.owner = .document := h.1.mpr rfl
    simp only [next, hd, isBranch, edit, Outline.closeAll, Owner.wrap_document,
      List.reverse_reverse]
    cases f (late ++ top.nodes).reverse <;> rfl
  | cons mid rest ih =>
    -- the tag that owns the nodes stands last on the level around them
    rw [next, edit, Outline.closeAll, ih h.2]
    cases ho : top.owner with
    | document => simpa using h.1.mp ho
    | body head =>
      rw [Owner.wrap_body, List.singleton_append, atIndex_last]
      simp only [within, isBranch]
      cases f (late ++ top.nodes).reverse <;> simp [Except.map, Outline.closeAll]
    | branch head children =>
      rw [Owner.wrap_branch, List.singleton_append, atIndex_last]
      simp only [within, isBranch]
      cases f (late ++ top.nodes).reverse <;> simp [Except.map, Outline.closeAll]

end

/-- A text that stands last takes one more line. -/
theorem continueAt_next {top : Level} {outer : List Level} (h : Rooted (top :: outer))
    (separator content : Text) (l : Leaf) :
    continueAt separator content (next (top :: outer))
        (Outline.closeAll (top :: outer) [.leaf l]) =
      .ok (Outline.closeAll (top :: outer) [.leaf (l.extend separator content)]) := by
  rw [next, continueAt, edit_closeAll h, List.singleton_append, atIndex_last]
  simp [extendNode, Except.map, Outline.closeAll]

/-- So does the text within a tag that stands last. -/
theorem continueAt_inline {top : Level} {outer : List Level} (h : Rooted (top :: outer))
    (separator content : Text) (head : Head) (l : Leaf) :
    continueAt separator content (.item (next (top :: outer)) false 0)
        (Outline.closeAll (top :: outer) [.tag head [.leaf l] none]) =
      .ok (Outline.closeAll (top :: outer)
        [.tag head [.leaf (l.extend separator content)] none]) := by
  rw [next, continueAt, edit, edit_closeAll h, List.singleton_append, atIndex_last]
  simp [within, atIndex, extendNode, Except.map, Outline.closeAll]

/-- What takes further lines is a text. -/
theorem node?_absorber {o : Outline} (h : Grounded o) {width : Nat} {ref : Ref}
    (ha : (view o).absorber = some (width, some ref)) :
    ∃ l, ref.node? (view o).document = some (.leaf l) := by
  obtain ⟨levels, latest⟩ := o
  cases latest with
  | comment => simp [view, absorber] at ha
  | header owner => simp [view, absorber] at ha
  | inline tag l =>
    obtain ⟨top, outer, rfl⟩ := List.exists_cons_of_ne_nil (h.absorbs rfl)
    refine ⟨l, ?_⟩
    cases tag with
    | none =>
      obtain ⟨-, rfl⟩ : _ ∧ next (top :: outer) = ref := by simpa [view, absorber] using ha
      simp only [view, Outline.nodes, Latest.nodes, next, Ref.node?]
      rw [edit_closeAll h.levels]
      simp [Except.map]
    | some head =>
      obtain ⟨-, rfl⟩ : _ ∧ .item (next (top :: outer)) false 0 = ref := by
        simpa [view, absorber] using ha
      simp only [view, Outline.nodes, Latest.nodes, next, Ref.node?, edit]
      rw [edit_closeAll h.levels, List.singleton_append, atIndex_last]
      simp [within, Except.map]

/-- A node attached to the innermost frame stands where closing the levels would put it. -/
theorem attach_frame {top : Level} {outer : List Level} (h : Rooted (top :: outer)) (node : Node) :
    attach (frame top outer) node (Outline.closeAll (top :: outer) []) =
      .ok (next (top :: outer), Outline.closeAll (top :: outer) [node]) := by
  rw [attach, frame, edit_closeAll h]
  simp [Except.map, next, Outline.closeAll]

theorem openBranch_of_branch {level : Level} {owner : Owner} {before : List Node}
    (h : Outline.branch? level = some (owner, before)) :
    openBranch level.nodes.reverse = (some before.length, (owner.wrap [] ++ before).reverse) := by
  obtain ⟨head, children, hn, hh, rfl⟩ := branch?_eq_some h
  simp [openBranch, hn, hh]

theorem openBranch_of_none {level : Level} (h : Outline.branch? level = none) :
    openBranch level.nodes.reverse = (none, level.nodes.reverse) := by
  unfold openBranch
  split
  · rename_i head children hlast
    rw [List.getLast?_reverse] at hlast
    obtain ⟨before, hn⟩ := List.head?_eq_some_iff.mp hlast
    have hh : head.helper = false := by simpa [Outline.branch?, hn] using h
    simp [hh]
  · rfl

/-- A branch is opened in the place where the outline opens it. -/
theorem openElse_of_branch {top : Level} {outer : List Level} (h : Rooted (top :: outer))
    {owner : Owner} {before : List Node} (hb : Outline.branch? top = some (owner, before)) :
    openElse (frame top outer) (Outline.closeAll (top :: outer) []) =
      .ok (some (next ({ top with nodes := before } :: outer)),
        Outline.closeAll ({ top with nodes := before } :: outer) (owner.wrap [])) := by
  rw [openElse, frame, edit_closeAll h, List.nil_append, openBranch_of_branch hb]
  simp [Except.map, next, Outline.closeAll]

theorem openElse_of_none {top : Level} {outer : List Level} (h : Rooted (top :: outer))
    (hb : Outline.branch? top = none) :
    openElse (frame top outer) (Outline.closeAll (top :: outer) []) =
      .ok (none, Outline.closeAll (top :: outer) []) := by
  rw [openElse, frame, edit_closeAll h, List.nil_append, openBranch_of_none hb]
  simp [Except.map, Outline.closeAll]

/-! ## One more line -/

/-- A line that is read by itself leaves the same behind on its frame as on its level. -/
theorem attachReading_frame {top : Level} {outer : List Level} {line : Line}
    (h : Rooted (top :: outer)) (hw : top.width = line.width) :
    attachReading (Outline.closeAll (top :: outer) []) (frame top outer) (frames outer) line =
      .ok (view ⟨top :: outer, line.reading.latest⟩) := by
  unfold attachReading
  split
  · rename_i hr
    rw [hr, ← hw]
    rfl
  · rename_i l hr
    rw [hr, attach_frame h, ← hw]
    rfl
  · rename_i head hr
    rw [hr, attach_frame h]
    rfl
  · rename_i head l hr
    rw [hr, attach_frame h, ← hw]
    rfl

/-- Attaching a line in place is seen as placing it on its level. -/
theorem classify_frame {top : Level} {outer : List Level} {line : Line}
    (h : Rooted (top :: outer)) (hw : top.width = line.width) (hc : line.content ≠ []) :
    classify (Outline.closeAll (top :: outer) []) (frame top outer) (frames outer) line =
      .ok (view (Outline.place top outer line)) := by
  rw [classify, if_neg hc]
  obtain ⟨he, owner, before, hb, hp⟩ | ⟨hb, hp⟩ := Outline.place_cases top outer line
  · obtain ⟨head, children, -, -, rfl⟩ := branch?_eq_some hb
    rw [if_pos he, openElse_of_branch h hb, hp]
    rfl
  · rw [hp]
    split
    · rename_i he
      rw [openElse_of_none h (hb he)]
      exact attachReading_frame h hw
    · exact attachReading_frame h hw

theorem openWidths_frames (levels : List Level) :
    openWidths (frames levels) = (levels.map (·.width)).reverse := by
  rw [openWidths]
  congr 1
  induction levels with
  | nil => rfl
  | cons top outer ih => simpa [frames, frame] using ih

/-- Wider frames are left behind one by one, as wider levels are. -/
theorem dedent_frames {width : Nat} {inner : List Level} (hi : ∀ l ∈ inner, width < l.width)
    (rest : List Level) : dedent width (frames (inner ++ rest)) = dedent width (frames rest) := by
  induction inner with
  | nil => rfl
  | cons top inner ih =>
    have ht : width < top.width := hi top (by simp)
    rw [List.cons_append, frames, dedent, if_pos (by simpa [frame] using ht)]
    exact ih fun l hl => hi l (by simp [hl])

/-- A deeper line below a header opens the frame of the header's level. -/
theorem resolve_header {levels : List Level} {owner : Owner} {line : Line}
    (h : owner = .document ↔ levels = []) (hd : Outline.isDeeper levels line.width = true) :
    resolve (view ⟨levels, .header owner⟩) line =
      .ok (frame ⟨line.width, owner, []⟩ levels, frames levels) := by
  cases levels with
  | nil =>
    obtain rfl := h.mpr rfl
    have hw : (-1 : Int) < line.width := by omega
    simp [resolve, view, frames, previous, frame, next, isBranch, hw]
  | cons top outer =>
    have hw : top.width < line.width := by simpa [Outline.isDeeper] using hd
    cases owner with
    | document => simpa using h.mp rfl
    | body head => simp [resolve, view, frames, previous, frame, hw]
    | branch head children => simp [resolve, view, frames, previous, frame, hw]

theorem resolve_of_not_deeper {o : Outline} {line : Line}
    (hd : Outline.isDeeper o.levels line.width = false) :
    resolve (view o) line =
      match dedent line.width (frames o.levels) with
      | .error f => .error (.fault f)
      | .ok (found, rest) =>
        if found.width = line.width then .ok (found, rest)
        else .error (.halfDedent ⟨line.width, openWidths (found :: rest), line.number⟩) := by
  obtain ⟨levels, latest⟩ := o
  cases levels with
  | nil => simp [Outline.isDeeper] at hd
  | cons top outer =>
    have hw : ¬top.width < line.width := by simpa [Outline.isDeeper] using hd
    simp [resolve, view, frames, frame, hw]

/-- The frame that a line finds is that of the level it settles on. -/
theorem resolve_of_settle {o : Outline} {line : Line} {top : Level} {outer : List Level}
    (hd : Outline.isDeeper o.levels line.width = false)
    (hs : Outline.settle line o.levels o.latest.nodes = .ok (top, outer)) :
    resolve (view o) line = .ok (frame top outer, frames outer) := by
  obtain ⟨inner, base, hl, hi, hb, rfl⟩ := Outline.settle_eq_ok hs
  rw [resolve_of_not_deeper hd, hl, dedent_frames hi]
  simp [frames, frame, dedent, hb]

/-- A line that settles on no level finds no frame either. -/
theorem resolve_of_settle_error {o : Outline} {line : Line} {e : HalfDedent}
    (hd : Outline.isDeeper o.levels line.width = false)
    (hs : Outline.settle line o.levels o.latest.nodes = .error e) :
    resolve (view o) line = .error (.halfDedent e) := by
  obtain ⟨inner, outer, hl, hi, ho, rfl⟩ := Outline.settle_eq_error hs
  rw [resolve_of_not_deeper hd, hl, dedent_frames hi, ← openWidths_frames]
  cases outer with
  | nil =>
    have hw : ¬(line.width : Int) < -1 ∧ (-1 : Int) ≠ line.width := by omega
    simp [frames, dedent, hw]
  | cons top outer =>
    have hw : ¬line.width < top.width ∧ (top.width : Int) ≠ line.width := by
      have := ho top rfl
      omega
    simp [frames, frame, dedent, hw]

theorem Rooted.of_append {inner outer : List Level} (h : Rooted (inner ++ outer)) :
    Rooted outer := by
  induction inner with
  | nil => exact h
  | cons top inner ih => exact ih h.2

theorem Rooted.settle {line : Line} {levels outer : List Level} {late : List Node} {top : Level}
    (h : Rooted levels) (hs : Outline.settle line levels late = .ok (top, outer)) :
    Rooted (top :: outer) := by
  obtain ⟨inner, base, rfl, -, -, rfl⟩ := Outline.settle_eq_ok hs
  exact h.of_append

/-- A line on a level leaves the outline grounded. -/
theorem Grounded.place {top : Level} {outer : List Level} (h : Rooted (top :: outer))
    (line : Line) : Grounded (Outline.place top outer line) := by
  obtain ⟨-, owner, before, hb, hp⟩ | ⟨-, hp⟩ := Outline.place_cases top outer line
  · obtain ⟨head, children, -, -, rfl⟩ := branch?_eq_some hb
    rw [hp]
    refine ⟨h, ?_, by simp⟩
    rintro owner ⟨⟩
    simp
  · rw [hp]
    refine ⟨h, ?_, by simp⟩
    intro owner ho
    have hnot : owner ≠ .document := by
      rintro rfl
      exact line.reading.latest_ne_document ho
    simpa using hnot

/-- One more line leaves the document at the bottom. -/
theorem Grounded.step {separator : Text} {o o' : Outline} {line : Line} (h : Grounded o)
    (hs : o.step separator line = .ok o') : Grounded o' := by
  obtain ⟨-, hla, rfl⟩ | ⟨-, owner, hla, rfl⟩ | ⟨-, top, outer, hset, rfl⟩ := Outline.step_cases hs
  · refine ⟨h.levels, ?_, fun _ => h.absorbs hla⟩
    intro owner ho
    have := congrArg Latest.absorbs ho
    simp [hla] at this
  · exact Grounded.place ⟨h.header owner hla, h.levels⟩ line
  · exact Grounded.place (h.levels.settle hset) line

/-- A deeper line that is taken in changes the text it continues, in the same way in place. -/
theorem step_absorbing {separator : Text} {o : Outline} {line : Line} (h : Grounded o)
    (hd : Outline.isDeeper o.levels line.width = true) (ha : o.latest.absorbs = true) :
    (view o).step separator line =
      .ok (view ⟨o.levels, o.latest.absorb separator line.content⟩) := by
  obtain ⟨levels, latest⟩ := o
  obtain ⟨top, outer, rfl⟩ := List.exists_cons_of_ne_nil (h.absorbs ha)
  have hw : top.width < line.width := by simpa [Outline.isDeeper] using hd
  cases latest with
  | comment => simp [State.step, view, absorber, innermostWidth, hw, Latest.absorb]
  | inline tag l =>
    cases tag with
    | none =>
      have hc := continueAt_next h.levels separator line.content l
      simp [State.step, view, absorber, innermostWidth, hw, Latest.absorb, Outline.nodes,
        Latest.nodes, hc, Except.map, Except.mapError, previous]
    | some head =>
      have hc := continueAt_inline h.levels separator line.content head l
      simp [State.step, view, absorber, innermostWidth, hw, Latest.absorb, Outline.nodes,
        Latest.nodes, hc, Except.map, Except.mapError, previous]
  | header owner => simp at ha

/-- No other line is taken in. -/
theorem step_eq_place {separator : Text} {o : Outline} {line : Line} (h : Grounded o)
    (hd : o.latest.absorbs = true → Outline.isDeeper o.levels line.width = false) :
    (view o).step separator line = (view o).place line := by
  obtain ⟨levels, latest⟩ := o
  cases ha : latest.absorbs with
  | false =>
    cases latest with
    | header owner => rfl
    | comment => simp at ha
    | inline tag l => simp at ha
  | true =>
    obtain ⟨top, outer, rfl⟩ := List.exists_cons_of_ne_nil (h.absorbs ha)
    have hw : ¬top.width < line.width := by simpa [Outline.isDeeper] using hd ha
    cases latest with
    | header owner => simp at ha
    | comment => simp [State.step, view, absorber, innermostWidth, hw]
    | inline tag l => cases tag <;> simp [State.step, view, absorber, innermostWidth, hw]

/-- The machine does to the state of an outline what the line does to the outline. -/
theorem step_view {separator : Text} {o : Outline} {line : Line} (h : Grounded o)
    (hc : line.content ≠ []) :
    (view o).step separator line =
      ((o.step separator line).mapError Failure.halfDedent).map view := by
  cases hd : Outline.isDeeper o.levels line.width with
  | true =>
    cases ha : o.latest.absorbs with
    | true =>
      rw [step_absorbing h hd ha, Outline.step_of_absorbs hd ha]
      rfl
    | false =>
      obtain ⟨levels, latest⟩ := o
      cases latest with
      | comment => simp at ha
      | inline tag l => simp at ha
      | header owner =>
        -- the header's level is open before anything stands on it
        have hroot : Rooted (⟨line.width, owner, []⟩ :: levels) := ⟨h.header owner rfl, h.levels⟩
        rw [step_eq_place h (by simp), State.place, resolve_header (h.header owner rfl) hd,
          Outline.step_of_header hd]
        exact congrArg (Except.mapError Failure.fault) (classify_frame hroot rfl hc)
  | false =>
    -- closing levels moves nodes in the outline only; the document is the same before and after
    rw [step_eq_place h fun _ => hd, State.place, Outline.step_of_not_deeper hd]
    cases hs : Outline.settle line o.levels o.latest.nodes with
    | error e =>
      rw [resolve_of_settle_error hd hs]
      rfl
    | ok found =>
      obtain ⟨top, outer⟩ := found
      have hdocument : (view o).document = Outline.closeAll (top :: outer) [] :=
        (Outline.closeAll_of_settle hs).symm
      rw [resolve_of_settle hd hs, Except.bind, hdocument,
        classify_frame (h.levels.settle hs) (Outline.width_of_settle hs) hc]
      rfl

/-! ## All lines -/

/-- Line by line the machine is where the outline is. -/
theorem run_view (separator : Text) {lines : List Line}
    (hl : ∀ line ∈ lines, line.content ≠ []) {o : Outline} (h : Grounded o) :
    (view o).run separator lines =
      ((o.run separator lines).mapError Failure.halfDedent).map view := by
  induction lines generalizing o with
  | nil => rfl
  | cons line lines ih =>
    simp only [List.forall_mem_cons] at hl
    rw [State.run, step_view h hl.1, Outline.run_cons]
    cases hs : o.step separator line with
    | error e => rfl
    | ok o' => exact ih hl.2 (h.step hs)

theorem content_ne_nil {source : Text} {line : Line} (h : line ∈ Line.ofSource source) :
    line.content ≠ [] := by
  obtain ⟨-, raw, -, hraw⟩ := Line.mem_ofPhysicals h
  exact Line.content_ne_nil hraw

theorem run_start (separator : Text) {lines : List Line}
    (hl : ∀ line ∈ lines, line.content ≠ []) :
    State.start.run separator lines =
      ((Outline.empty.run separator lines).mapError Failure.halfDedent).map view :=
  run_view separator hl grounded_empty

/-- The states that a run reaches stand for the outlines that the lines build. -/
theorem outline_of_run {separator : Text} {lines : List Line} {s : State}
    (hl : ∀ line ∈ lines, line.content ≠ []) (h : State.start.run separator lines = .ok s) :
    ∃ o, Outline.empty.run separator lines = .ok o ∧ view o = s := by
  rw [run_start separator hl] at h
  cases hr : Outline.empty.run separator lines with
  | error e => simp [hr, Except.mapError, Except.map] at h
  | ok o => exact ⟨o, rfl, by simpa [hr, Except.mapError, Except.map] using h⟩

/-- These outlines are grounded. -/
theorem exists_view_of_run {separator : Text} {lines : List Line} {s : State}
    (hl : ∀ line ∈ lines, line.content ≠ []) (h : State.start.run separator lines = .ok s) :
    ∃ o, Grounded o ∧ view o = s := by
  obtain ⟨o, hr, hv⟩ := outline_of_run hl h
  exact ⟨o, Outline.run_keeps (I := fun _ o => Grounded o) grounded_empty
    (fun _ _ _ _ hg _ hs => hg.step hs) hr, hv⟩

/-- The document grown in place is the one that the outline gives. -/
theorem compile_eq (separator source : Text) :
    compile separator source =
      ((parse separator source).mapError Failure.halfDedent).bind fun nodes =>
        (Node.renderAll nodes).mapError Failure.unknownNode := by
  rw [compile, run_start separator fun _ => content_ne_nil, parse]
  cases Outline.empty.run separator (Line.ofSource source) <;> rfl

end InPlace

/-- Nothing but a half dedent stops a compilation, whether it builds an outline or the document in
place; and in place, further lines are only ever taken in by a text. -/
theorem compile_ok_or_halfDedent (separator source : Text) :
    ((∃ text, compile separator source = .ok text ∧ InPlace.compile separator source = .ok text) ∨
      ∃ e, compile separator source = .error (.halfDedent e) ∧
        InPlace.compile separator source = .error (.halfDedent e)) ∧
    ∀ n s, InPlace.State.start.run separator ((Line.ofSource source).take n) = .ok s →
      ∀ width ref, s.absorber = some (width, some ref) →
        ∃ l, ref.node? s.document = some (.leaf l) := by
  constructor
  · rw [InPlace.compile_eq]
    cases hp : parse separator source with
    | error e => exact .inr ⟨e, compile_eq_halfDedent_iff.mpr hp, rfl⟩
    | ok nodes =>
      obtain ⟨text, hc, ht⟩ := compile_of_parse hp
      refine .inl ⟨text, hc, ?_⟩
      simp [Except.mapError, Except.bind, ht]
  · intro n s hs width ref ha
    have hcontent : ∀ line ∈ (Line.ofSource source).take n, line.content ≠ [] :=
      fun line hl => InPlace.content_ne_nil (List.mem_of_mem_take hl)
    obtain ⟨o, ho, rfl⟩ := InPlace.exists_view_of_run hcontent hs
    exact InPlace.node?_absorber ho ha

end IndentMarkup
