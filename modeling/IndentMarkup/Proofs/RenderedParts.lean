import IndentMarkup.Node.Render

/-!
# What a rendering visits, and what it writes there

Rendering visits the nodes of a document one after the other: a tag before its children, these
before its branch, and all of them before the next node beside the tag. The branch of an element is
never visited. The first visited value that is no node decides the error, and without one there is
a text: every visited node begins its part of it at its turn, and between the two ends of a tag
stands what was visited within it and nothing else.
-/
namespace IndentMarkup

/-! ## Visited values -/

/-- The values of a document that rendering comes to. -/
inductive Visited (document : List Node) : Node → Prop where
  | top {v : Node} : v ∈ document → Visited document v
  | child {head : Head} {children : List Node} {inverse : Option (List Node)} {v : Node} :
      Visited document (.tag head children inverse) → v ∈ children → Visited document v
  | branch {head : Head} {children nodes : List Node} {v : Node} :
      Visited document (.tag head children (some nodes)) → head.helper = true → v ∈ nodes →
      Visited document v

namespace Node

def foreign? : Node → Option Foreign
  | .foreign type => some type
  | _ => none

mutual

/-- The visited values in their order. -/
def reached : Node → List Node
  | .leaf l => [.leaf l]
  | .foreign type => [.foreign type]
  | .tag head children inverse =>
    .tag head children inverse :: (reachedAll children ++ reachedBranch head.helper inverse)

def reachedAll : List Node → List Node
  | [] => []
  | node :: rest => reached node ++ reachedAll rest

def reachedBranch (helper : Bool) : Option (List Node) → List Node
  | none => []
  | some nodes => if helper then reachedAll nodes else []

end

theorem mem_reached_self (node : Node) : node ∈ node.reached := by
  cases node <;> simp [reached]

theorem mem_reachedAll_of_mem {node : Node} {nodes : List Node} (h : node ∈ nodes) :
    node ∈ reachedAll nodes := by
  induction nodes with
  | nil => simp at h
  | cons first rest ih =>
    rw [reachedAll, List.mem_append]
    rcases List.mem_cons.mp h with rfl | h
    · exact .inl (mem_reached_self node)
    · exact .inr (ih h)

mutual

/-- What is visited within a visited value is visited. -/
theorem reached_subset : ∀ {node v : Node}, v ∈ node.reached → v.reached ⊆ node.reached
  | .leaf l, v, h => by
    obtain rfl : v = .leaf l := by simpa [reached] using h
    exact List.Subset.refl _
  | .foreign type, v, h => by
    obtain rfl : v = .foreign type := by simpa [reached] using h
    exact List.Subset.refl _
  | .tag head children inverse, v, h => by
    rw [reached, List.mem_cons, List.mem_append] at h
    intro x hx
    obtain rfl | h | h := h
    · exact hx
    · rw [reached]
      exact List.mem_cons_of_mem _ (List.mem_append_left _ (reachedAll_subset h hx))
    · rw [reached]
      exact List.mem_cons_of_mem _ (List.mem_append_right _ (reachedBranch_subset h hx))

theorem reachedAll_subset : ∀ {nodes : List Node} {v : Node}, v ∈ reachedAll nodes →
    v.reached ⊆ reachedAll nodes
  | [], v, h => by simp [reachedAll] at h
  | node :: rest, v, h => by
    rw [reachedAll, List.mem_append] at h
    intro x hx
    rw [reachedAll]
    obtain h | h := h
    · exact List.mem_append_left _ (reached_subset h hx)
    · exact List.mem_append_right _ (reachedAll_subset h hx)

theorem reachedBranch_subset : ∀ {helper : Bool} {inverse : Option (List Node)} {v : Node},
    v ∈ reachedBranch helper inverse → v.reached ⊆ reachedBranch helper inverse
  | helper, none, v, h => by simp [reachedBranch] at h
  | false, some nodes, v, h => by simp [reachedBranch] at h
  | true, some nodes, v, h => by
    rw [reachedBranch, if_pos rfl] at h ⊢
    exact reachedAll_subset h

end

mutual

theorem visited_of_reached {document : List Node} : ∀ {node v : Node}, Visited document node →
    v ∈ node.reached → Visited document v
  | .leaf l, v, hnode, h => by
    obtain rfl : v = .leaf l := by simpa [reached] using h
    exact hnode
  | .foreign type, v, hnode, h => by
    obtain rfl : v = .foreign type := by simpa [reached] using h
    exact hnode
  | .tag head children inverse, v, hnode, h => by
    rw [reached, List.mem_cons, List.mem_append] at h
    obtain rfl | h | h := h
    · exact hnode
    · exact visited_of_reachedAll (fun _ hmem => .child hnode hmem) h
    · exact visited_of_reachedBranch hnode h

theorem visited_of_reachedAll {document : List Node} : ∀ {nodes : List Node} {v : Node},
    (∀ node ∈ nodes, Visited document node) → v ∈ reachedAll nodes → Visited document v
  | [], v, _, h => by simp [reachedAll] at h
  | node :: rest, v, hnodes, h => by
    obtain ⟨hnode, hrest⟩ := List.forall_mem_cons.mp hnodes
    rw [reachedAll, List.mem_append] at h
    obtain h | h := h
    · exact visited_of_reached hnode h
    · exact visited_of_reachedAll hrest h

theorem visited_of_reachedBranch {document : List Node} : ∀ {head : Head} {children : List Node}
    {inverse : Option (List Node)} {v : Node}, Visited document (.tag head children inverse) →
    v ∈ reachedBranch head.helper inverse → Visited document v
  | head, children, none, v, _, h => by simp [reachedBranch] at h
  | head, children, some nodes, v, htag, h => by
    rw [reachedBranch] at h
    split at h
    next hhelper => exact visited_of_reachedAll (fun _ hmem => .branch htag hhelper hmem) h
    next => simp at h

end

/-- Rendering comes to exactly the values visited. -/
theorem mem_reachedAll_iff {document : List Node} {v : Node} :
    v ∈ reachedAll document ↔ Visited document v := by
  constructor
  · exact visited_of_reachedAll fun _ hmem => .top hmem
  · intro h
    induction h with
    | top hmem => exact mem_reachedAll_of_mem hmem
    | child _ hmem ih =>
      apply reachedAll_subset ih
      rw [reached]
      exact List.mem_cons_of_mem _ (List.mem_append_left _ (mem_reachedAll_of_mem hmem))
    | branch _ hhelper hmem ih =>
      apply reachedAll_subset ih
      rw [reached, reachedBranch, if_pos hhelper]
      exact List.mem_cons_of_mem _ (List.mem_append_right _ (mem_reachedAll_of_mem hmem))

/-! ## The first value that is no node -/

/-- The error of the first value that is no node, or a text. -/
def outcome (first : Option Foreign) (text : Text) : Except Foreign Text :=
  match first with
  | some type => .error type
  | none => .ok text

theorem outcome_map (first : Option Foreign) (text : Text) (f : Text → Text) :
    (outcome first text).map f = outcome first (f text) := by
  cases first <;> rfl

/-- The earlier of two errors decides. -/
theorem outcome_bind (first later : Option Foreign) (s t : Text) (f : Text → Text → Text) :
    ((outcome first s).bind fun x => (outcome later t).map fun y => f x y) =
      outcome (first.or later) (f s t) := by
  cases first <;> cases later <;> rfl

mutual

/-- Rendering ends with the first visited value that is no node, or with a text. -/
theorem render_eq_outcome : ∀ node : Node,
    ∃ text, node.render = outcome (node.reached.findSome? foreign?) text
  | .leaf l => ⟨l.render, by simp [reached, foreign?, outcome]⟩
  | .foreign type => ⟨[], by simp [reached, foreign?, outcome]⟩
  | .tag head children inverse => by
    obtain ⟨body, hbody⟩ := renderAll_eq_outcome children
    obtain ⟨branch, hbranch⟩ := renderBranch_eq_outcome inverse
    have hfirst : (Node.tag head children inverse).reached.findSome? foreign? =
        ((reachedAll children).findSome? foreign?).or
          ((reachedBranch head.helper inverse).findSome? foreign?) := by
      rw [reached, List.findSome?_cons, List.findSome?_append]
      rfl
    rw [render, hfirst]
    split
    next hhelper =>
      split
      next hempty =>
        obtain ⟨rfl, rfl⟩ : children = [] ∧ inverse = none := by simpa using hempty
        exact ⟨head.mustache, by simp [reachedAll, reachedBranch, outcome]⟩
      next =>
        refine ⟨head.openBlock ++ body ++ branch ++ head.closeBlock, ?_⟩
        rw [hhelper, hbody, hbranch, ← outcome_bind _ _ body branch
          fun x y => head.openBlock ++ x ++ y ++ head.closeBlock]
        rfl
    next hhelper =>
      refine ⟨head.openTag ++ body ++ head.closeTag, ?_⟩
      have hnone : (reachedBranch head.helper inverse).findSome? foreign? = none := by
        cases inverse <;> simp [reachedBranch, hhelper]
      rw [hnone, Option.or_none, hbody, ← outcome_map _ body fun x => head.openTag ++ x ++
        head.closeTag]
      rfl

theorem renderAll_eq_outcome : ∀ nodes : List Node,
    ∃ text, renderAll nodes = outcome ((reachedAll nodes).findSome? foreign?) text
  | [] => ⟨[], by simp [reachedAll, outcome]⟩
  | node :: rest => by
    obtain ⟨first, hfirst⟩ := render_eq_outcome node
    obtain ⟨others, hothers⟩ := renderAll_eq_outcome rest
    refine ⟨first ++ others, ?_⟩
    rw [renderAll, reachedAll, List.findSome?_append, hfirst, hothers,
      ← outcome_bind _ _ first others fun x y => x ++ y]
    rfl

/-- The branch of a helper. -/
theorem renderBranch_eq_outcome : ∀ inverse : Option (List Node),
    ∃ text, renderBranch inverse = outcome ((reachedBranch true inverse).findSome? foreign?) text
  | none => ⟨[], by simp [reachedBranch, outcome]⟩
  | some nodes => by
    obtain ⟨body, hbody⟩ := renderAll_eq_outcome nodes
    refine ⟨elseMark ++ body, ?_⟩
    rw [renderBranch, reachedBranch, if_pos rfl, hbody, ← outcome_map _ body fun x => elseMark ++ x]
    rfl

end

/-- The error is about the first value in the order of visits that is no node. -/
theorem renderAll_eq_error_iff {nodes : List Node} {type : Foreign} :
    renderAll nodes = .error type ↔ (reachedAll nodes).findSome? foreign? = some type := by
  obtain ⟨text, h⟩ := renderAll_eq_outcome nodes
  rw [h]
  cases (reachedAll nodes).findSome? foreign? <;> simp [outcome]

theorem foreign?_eq_some_iff {v : Node} {type : Foreign} :
    v.foreign? = some type ↔ v = .foreign type := by
  cases v <;> simp [foreign?]

end Node

/-! ## Parts of a text -/

/-- What a part is to its node: all of it, or one of the two ends or the middle of what is written
around other nodes. -/
inductive Role where
  | whole | opening | middle | closing
  deriving DecidableEq

/-- A piece of text that a visited node writes, with the number of the visit. -/
structure Part where
  place : Nat
  role : Role
  text : Text

def Part.begins (p : Part) : Bool := p.role == .whole || p.role == .opening

/-- The nodes that begin in the parts are those of `count` visits in a row, in their order. -/
def Covers (parts : List Part) (start count : Nat) : Prop :=
  (parts.filter Part.begins).map Part.place = List.range' start count

theorem Covers.nil (start : Nat) : Covers [] start 0 := rfl

theorem Covers.append {xs ys : List Part} {start m n : Nat} (hx : Covers xs start m)
    (hy : Covers ys (start + m) n) : Covers (xs ++ ys) start (m + n) := by
  unfold Covers at *
  rw [List.filter_append, List.map_append, hx, hy, List.range'_append_1]

/-- One more node begins in front of the others. -/
theorem Covers.cons {p : Part} {parts : List Part} {start count : Nat} (hp : p.begins = true)
    (hplace : p.place = start) (h : Covers parts (start + 1) count) :
    Covers (p :: parts) start (count + 1) := by
  unfold Covers at *
  rw [List.filter_cons_of_pos hp, List.map_cons, hplace, h, List.range'_succ]

/-- No node begins with a middle or a closing part. -/
theorem Covers.append_cons {p : Part} {xs ys : List Part} {start m n : Nat}
    (hp : p.begins = false) (hx : Covers xs start m) (hy : Covers ys (start + m) n) :
    Covers (xs ++ p :: ys) start (m + n) := by
  refine hx.append ?_
  unfold Covers at *
  rwa [List.filter_cons_of_neg (by simp [hp])]

/-- Parts are properly nested: each is a whole node, or belongs to a tag whose two ends enclose
exactly the parts of what is visited within the tag. -/
inductive Nested (met : List Node) : List Part → Prop where
  | nil : Nested met []
  | leaf {i : Nat} {l : Leaf} {rest : List Part} : met[i]? = some (.leaf l) → Nested met rest →
      Nested met (⟨i, .whole, l.render⟩ :: rest)
  | expression {i : Nat} {head : Head} {rest : List Part} : met[i]? = some (.tag head [] none) →
      head.helper = true → Nested met rest → Nested met (⟨i, .whole, head.mustache⟩ :: rest)
  | element {i : Nat} {head : Head} {children : List Node} {inverse : Option (List Node)}
      {body rest : List Part} : met[i]? = some (.tag head children inverse) →
      head.helper = false → Nested met body →
      Covers body (i + 1) (Node.reachedAll children).length → Nested met rest →
      Nested met (⟨i, .opening, head.openTag⟩ :: (body ++ ⟨i, .closing, head.closeTag⟩ :: rest))
  | block {i : Nat} {head : Head} {children : List Node} {body rest : List Part} :
      met[i]? = some (.tag head children none) → head.helper = true → children ≠ [] →
      Nested met body → Covers body (i + 1) (Node.reachedAll children).length → Nested met rest →
      Nested met (⟨i, .opening, head.openBlock⟩ :: (body ++ ⟨i, .closing, head.closeBlock⟩ :: rest))
  | branched {i : Nat} {head : Head} {children nodes : List Node} {body branch rest : List Part} :
      met[i]? = some (.tag head children (some nodes)) → head.helper = true →
      Nested met body → Covers body (i + 1) (Node.reachedAll children).length →
      Nested met branch →
      Covers branch (i + 1 + (Node.reachedAll children).length) (Node.reachedAll nodes).length →
      Nested met rest →
      Nested met (⟨i, .opening, head.openBlock⟩ :: (body ++ ⟨i, .middle, elseMark⟩ ::
        (branch ++ ⟨i, .closing, head.closeBlock⟩ :: rest)))

theorem Nested.append {met : List Node} {xs ys : List Part} (hx : Nested met xs)
    (hy : Nested met ys) : Nested met (xs ++ ys) := by
  induction hx with
  | nil => exact hy
  | leaf hi _ ih => exact .leaf hi ih
  | expression hi hhelper _ ih => exact .expression hi hhelper ih
  | element hi hhelper hbody hcovers _ _ ih =>
    rw [List.cons_append, List.append_assoc]
    exact .element hi hhelper hbody hcovers ih
  | block hi hhelper hne hbody hcovers _ _ ih =>
    rw [List.cons_append, List.append_assoc]
    exact .block hi hhelper hne hbody hcovers ih
  | branched hi hhelper hbody hcovers hbranch hothers _ _ _ ih =>
    rw [List.cons_append, List.append_assoc, List.cons_append, List.append_assoc]
    exact .branched hi hhelper hbody hcovers hbranch hothers ih

/-! ## The parts of a rendering -/

/-- The values stand in a row among those met, the first of them at `start`. -/
def Stand (met : List Node) (start : Nat) (values : List Node) : Prop :=
  ∀ j v, values[j]? = some v → met[start + j]? = some v

namespace Stand

variable {met xs ys : List Node} {start : Nat} {v : Node}

theorem head (h : Stand met start (v :: xs)) : met[start]? = some v := h 0 v rfl

theorem tail (h : Stand met start (v :: xs)) : Stand met (start + 1) xs := fun j x hx => by
  simpa [Nat.add_assoc, Nat.add_comm 1] using h (j + 1) x (by simpa using hx)

theorem left (h : Stand met start (xs ++ ys)) : Stand met start xs := fun j x hx =>
  h j x ((List.getElem?_append_left (List.getElem?_eq_some_iff.mp hx).1).trans hx)

theorem right (h : Stand met start (xs ++ ys)) : Stand met (start + xs.length) ys :=
  fun j x hx => by
    have hj := h (xs.length + j) x
    rw [List.getElem?_append_right (by omega), Nat.add_sub_cancel_left] at hj
    rw [Nat.add_assoc]
    exact hj hx

end Stand

namespace Node

theorem foreign?_reached_tag {head : Head} {children : List Node} {inverse : Option (List Node)}
    (h : ∀ v ∈ (Node.tag head children inverse).reached, v.foreign? = none) :
    (∀ v ∈ reachedAll children, v.foreign? = none) ∧
      ∀ v ∈ reachedBranch head.helper inverse, v.foreign? = none := by
  rw [reached] at h
  exact ⟨fun v hv => h v (List.mem_cons_of_mem _ (List.mem_append_left _ hv)),
    fun v hv => h v (List.mem_cons_of_mem _ (List.mem_append_right _ hv))⟩

mutual

/-- Where only nodes are visited, a node is rendered in nested parts, one beginning at each visit
from that of the node on. -/
theorem exists_parts {met : List Node} : ∀ {node : Node} {start : Nat},
    (∀ v ∈ node.reached, v.foreign? = none) → Stand met start node.reached →
    ∃ parts, node.render = .ok (parts.flatMap Part.text) ∧ Nested met parts ∧
      Covers parts start node.reached.length
  | .leaf l, start, _, hmet => by
    rw [reached] at hmet
    exact ⟨[⟨start, .whole, l.render⟩], by simp, .leaf hmet.head .nil, rfl⟩
  | .foreign type, start, hnodes, _ => by simp [reached, foreign?] at hnodes
  | .tag head children inverse, start, hnodes, hmet => by
    obtain ⟨hchildren, hbranch⟩ := foreign?_reached_tag hnodes
    rw [reached] at hmet
    obtain ⟨body, hbody, hnested, hcovers⟩ := exists_parts_all hchildren hmet.tail.left
    have htag := hmet.head
    rw [render, reached, List.length_cons, List.length_append]
    split
    next hhelper =>
      cases inverse with
      | none =>
        split
        next hempty =>
          obtain rfl : children = [] := by simpa using hempty
          exact ⟨[⟨start, .whole, head.mustache⟩], by simp, .expression htag hhelper .nil, rfl⟩
        next hsome =>
          have hne : children ≠ [] := by simpa using hsome
          refine ⟨_, ?_, .block htag hhelper hne hnested hcovers .nil,
            .cons rfl rfl (.append_cons rfl hcovers (.nil _))⟩
          rw [hbody]
          simp [Bind.bind, Except.bind, Pure.pure, Except.pure]
      | some nodes =>
        rw [if_neg (by simp)]
        rw [hhelper, reachedBranch, if_pos rfl] at hbranch hmet ⊢
        obtain ⟨others, hothers, hnested', hcovers'⟩ := exists_parts_all hbranch hmet.tail.right
        refine ⟨_, ?_, .branched htag hhelper hnested hcovers hnested' hcovers' .nil,
          .cons rfl rfl (.append_cons rfl hcovers (.append_cons rfl hcovers' (.nil _)))⟩
        rw [hbody, renderBranch, hothers]
        simp [Bind.bind, Except.bind, Pure.pure, Except.pure]
    next hhelper =>
      have hnone : reachedBranch head.helper inverse = [] := by
        cases inverse <;> simp [reachedBranch, hhelper]
      rw [hnone]
      refine ⟨_, ?_, .element htag (by simpa using hhelper) hnested hcovers .nil,
        .cons rfl rfl (.append_cons rfl hcovers (.nil _))⟩
      rw [hbody]
      simp [Bind.bind, Except.bind, Pure.pure, Except.pure]

theorem exists_parts_all {met : List Node} : ∀ {nodes : List Node} {start : Nat},
    (∀ v ∈ reachedAll nodes, v.foreign? = none) → Stand met start (reachedAll nodes) →
    ∃ parts, renderAll nodes = .ok (parts.flatMap Part.text) ∧ Nested met parts ∧
      Covers parts start (reachedAll nodes).length
  | [], start, _, _ => ⟨[], by simp, .nil, Covers.nil start⟩
  | node :: rest, start, hnodes, hmet => by
    rw [reachedAll] at hnodes hmet
    rw [List.forall_mem_append] at hnodes
    obtain ⟨first, hfirst, hn, hc⟩ := exists_parts hnodes.1 hmet.left
    obtain ⟨others, hothers, hn', hc'⟩ := exists_parts_all hnodes.2 hmet.right
    refine ⟨first ++ others, ?_, hn.append hn', ?_⟩
    · rw [renderAll, hfirst, hothers]
      simp [Bind.bind, Except.bind, Pure.pure, Except.pure]
    · rw [reachedAll, List.length_append]
      exact hc.append hc'

end

end Node

/-- The first visited value that is no node decides the error. -/
theorem Node.renderAll_eq_error_iff_first {document : List Node} {type : Foreign} :
    renderAll document = .error type ↔
      ∃ before after, reachedAll document = before ++ .foreign type :: after ∧
        ∀ v ∈ before, v.foreign? = none := by
  rw [renderAll_eq_error_iff, List.findSome?_eq_some_iff]
  constructor
  · rintro ⟨before, v, after, heq, hv, hbefore⟩
    obtain rfl := foreign?_eq_some_iff.mp hv
    exact ⟨before, after, heq, hbefore⟩
  · rintro ⟨before, after, heq, hbefore⟩
    exact ⟨before, .foreign type, after, heq, rfl, hbefore⟩

end IndentMarkup
