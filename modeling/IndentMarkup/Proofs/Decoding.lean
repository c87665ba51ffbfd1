import IndentMarkup.Proofs.Moving
import IndentMarkup.Proofs.TagLines

/-!
# Decoding a rendered document

A rendered document is a row of fragments with nothing between them: characters of text, the two
tags of an element, and expressions. Where names, attributes and arguments keep clear of the
characters that end them, and texts of the two that begin a tag or an expression, each fragment
shows where it ends whatever stands behind it. So the text determines the fragments. Read from the
last to the first, with one entry for each tag that is still open to the left, the fragments give
back the nodes, in a form that joins neighbouring texts and leaves out the empty ones.
-/
namespace IndentMarkup

/-! ## Delimited documents -/

/-- An element whose name and attributes end where an opening tag shows their end. -/
structure Head.DelimitedElement (head : Head) : Prop where
  element : head.helper = false
  name : isName head.name = true
  key : ∀ a ∈ head.attributes, isKey a.1 = true
  value : ∀ a ∈ head.attributes, '"' ∉ a.2
  args : head.args = []

/-- The name of a helper: a letter in front, and neither a space nor a brace. -/
structure IsHelperName (name : Text) : Prop where
  letter : ∃ c ∈ name.head?, c.isAlpha = true
  space : ' ' ∉ name
  opening : '{' ∉ name
  closing : '}' ∉ name

/-- A helper whose name and arguments end where an expression shows their end. -/
structure Head.DelimitedHelper (head : Head) : Prop where
  helper : head.helper = true
  name : IsHelperName head.name
  opening : '{' ∉ head.args
  closing : '}' ∉ head.args
  attributes : head.attributes = []

theorem Head.isElse_renumber (number : Nat → Nat) (head : Head) :
    (head.renumber number).isElse = head.isElse := rfl

theorem Head.DelimitedElement.unnumbered {head : Head} (h : head.DelimitedElement) :
    head.renumber (fun _ => 0) = { name := head.name, attributes := head.attributes } := by
  simp [renumber, h.element, h.args]

theorem Head.DelimitedHelper.unnumbered {head : Head} (h : head.DelimitedHelper) :
    head.renumber (fun _ => 0) = { name := head.name, helper := true, args := head.args } := by
  simp [renumber, h.helper, h.attributes]

def isPlainChar (c : Char) : Bool := c != '<' && c != '{'

namespace Node

mutual

/-- Elements have no branch, and no expression is an `else` of its own. -/
def Delimited : Node → Prop
  | .leaf l => ∀ c ∈ l.render, isPlainChar c = true
  | .foreign _ => False
  | .tag head children inverse =>
    (head.DelimitedElement ∧ inverse = none ∨
      head.DelimitedHelper ∧ (children = [] → inverse = none → head.isElse = false)) ∧
    DelimitedAll children ∧ DelimitedBranch inverse

def DelimitedAll : List Node → Prop
  | [] => True
  | node :: rest => Delimited node ∧ DelimitedAll rest

def DelimitedBranch : Option (List Node) → Prop
  | none => True
  | some nodes => DelimitedAll nodes

end

/-! ## Joined texts -/

/-- The nodes with a text in front, as part of their first node where that is a text. -/
def prependText (t : Text) : List Node → List Node
  | .leaf (.text s) :: after => .leaf (.text (t ++ s)) :: after
  | after => if t = [] then after else .leaf (.text t) :: after

mutual

/-- The node in front of others that are in joined form. -/
def joinTo : Node → List Node → List Node
  | .leaf l, after => prependText l.render after
  | .foreign type, after => .foreign type :: after
  | .tag head children inverse, after =>
    .tag (head.renumber fun _ => 0) (joinAll children) (joinBranch inverse) :: after

/-- The nodes with every run of neighbouring leaves made one text, none of them empty, and without
line numbers. -/
def joinAll : List Node → List Node
  | [] => []
  | node :: rest => joinTo node (joinAll rest)

def joinBranch : Option (List Node) → Option (List Node)
  | none => none
  | some nodes => some (joinAll nodes)

end

theorem prependText_nil (after : List Node) : prependText [] after = after := by
  unfold prependText
  split <;> rfl

theorem prependText_prependText (s t : Text) (after : List Node) :
    prependText s (prependText t after) = prependText (s ++ t) after := by
  fun_cases prependText t after with
  | case1 r after => simp [prependText]
  | case2 after _ ht => rw [ht, List.append_nil]
  | case3 after _ ht =>
    simp only [prependText]
    rw [if_neg (by simp [ht])]

end Node

/-! ## Fragments -/

/-- What an expression begins with inside its braces. -/
inductive Sigil where
  | plain | opening | closing
  deriving DecidableEq

def Sigil.text : Sigil → Text
  | .plain => []
  | .opening => ['#']
  | .closing => ['/']

/-- A part of a rendered document that is written without a break. -/
inductive Fragment where
  | char (c : Char)
  | openTag (name : Text) (attributes : Attributes)
  | closeTag (name : Text)
  | expression (sigil : Sigil) (name args : Text)

namespace Fragment

def write : Fragment → Text
  | .char c => [c]
  | .openTag name attributes => Head.openTag { name, attributes }
  | .closeTag name => Head.closeTag { name }
  | .expression sigil name args =>
    '{' :: '{' :: sigil.text ++ Head.expression { name, args } ++ ['}', '}']

/-- The expression between the children of a helper and its branch. -/
def elseExpression : Fragment := .expression .plain Line.elseWord []

/-- A fragment that shows where it ends. -/
def Delimited : Fragment → Prop
  | .char c => isPlainChar c = true
  | .openTag name attributes => Head.DelimitedElement { name, attributes }
  | .closeTag name => isName name = true
  | .expression _ name args => IsHelperName name ∧ '}' ∉ args

end Fragment

namespace Node

mutual

def fragments : Node → List Fragment
  | .leaf l => l.render.map .char
  | .foreign _ => []
  | .tag head children inverse =>
    if head.helper then
      if children.isEmpty && inverse.isNone then [.expression .plain head.name head.args]
      else .expression .opening head.name head.args ::
        (fragmentsAll children ++ fragmentsBranch inverse ++ [.expression .closing head.name []])
    else .openTag head.name head.attributes :: (fragmentsAll children ++ [.closeTag head.name])

def fragmentsAll : List Node → List Fragment
  | [] => []
  | node :: rest => fragments node ++ fragmentsAll rest

def fragmentsBranch : Option (List Node) → List Fragment
  | none => []
  | some nodes => .elseExpression :: fragmentsAll nodes

end

mutual

/-- A document is rendered as its fragments. -/
theorem render_eq_fragments : ∀ {node : Node}, node.Delimited →
    node.render = .ok (node.fragments.flatMap Fragment.write)
  | .leaf l, _ => by simp [fragments, List.flatMap_map, Fragment.write]
  | .tag head children inverse, h => by
    rw [Delimited] at h
    rw [render, fragments, renderAll_eq_fragments h.2.1, renderBranch_eq_fragments h.2.2]
    split
    · split
      · simp [Fragment.write, Head.mustache, Head.expression, Sigil.text]
      · simp [Fragment.write, Head.openBlock, Head.closeBlock, Head.expression, Sigil.text, bind,
          Except.bind, pure, Except.pure]
    · simp [Fragment.write, Head.openTag, Head.closeTag, Head.attributeText, bind, Except.bind,
        pure, Except.pure]

theorem renderAll_eq_fragments : ∀ {nodes : List Node}, DelimitedAll nodes →
    renderAll nodes = .ok ((fragmentsAll nodes).flatMap Fragment.write)
  | [], _ => by simp [fragmentsAll]
  | node :: rest, h => by
    rw [DelimitedAll] at h
    rw [renderAll, fragmentsAll, render_eq_fragments h.1, renderAll_eq_fragments h.2]
    simp [bind, Except.bind, pure, Except.pure]

theorem renderBranch_eq_fragments : ∀ {inverse : Option (List Node)}, DelimitedBranch inverse →
    renderBranch inverse = .ok ((fragmentsBranch inverse).flatMap Fragment.write)
  | none, _ => by simp [fragmentsBranch]
  | some nodes, h => by
    rw [DelimitedBranch] at h
    rw [renderBranch, fragmentsBranch, renderAll_eq_fragments h]
    rfl

end

theorem isHelperName_elseWord : IsHelperName Line.elseWord :=
  ⟨⟨'e', rfl, rfl⟩, by decide, by decide, by decide⟩

mutual

/-- A delimited document is made of delimited fragments. -/
theorem delimited_fragments : ∀ {node : Node}, node.Delimited →
    ∀ x ∈ node.fragments, x.Delimited
  | .leaf l, h, x, hx => by
    rw [Delimited] at h
    rw [fragments] at hx
    obtain ⟨c, hc, rfl⟩ := List.mem_map.mp hx
    exact h c hc
  | .tag head children inverse, h, x, hx => by
    rw [Delimited] at h
    obtain ⟨hhead, hchildren, hbranch⟩ := h
    have hbody := delimited_fragmentsAll hchildren x
    have hother := delimited_fragmentsBranch hbranch x
    rw [fragments] at hx
    obtain ⟨he, -⟩ | ⟨hh, -⟩ := hhead
    · rw [if_neg (by simp [he.element])] at hx
      simp only [List.mem_cons, List.mem_append, List.not_mem_nil, or_false] at hx
      obtain rfl | hx | rfl := hx
      · exact ⟨rfl, he.name, he.key, he.value, rfl⟩
      · exact hbody hx
      · exact he.name
    · rw [if_pos hh.helper] at hx
      split at hx
      · obtain rfl := List.mem_singleton.mp hx
        exact ⟨hh.name, hh.closing⟩
      · simp only [List.mem_cons, List.mem_append, List.not_mem_nil, or_false] at hx
        obtain rfl | (hx | hx) | rfl := hx
        · exact ⟨hh.name, hh.closing⟩
        · exact hbody hx
        · exact hother hx
        · exact ⟨hh.name, by simp⟩

theorem delimited_fragmentsAll : ∀ {nodes : List Node}, DelimitedAll nodes →
    ∀ x ∈ fragmentsAll nodes, x.Delimited
  | [], _, x, hx => by simp [fragmentsAll] at hx
  | node :: rest, h, x, hx => by
    rw [DelimitedAll] at h
    rw [fragmentsAll, List.mem_append] at hx
    exact hx.elim (delimited_fragments h.1 x) (delimited_fragmentsAll h.2 x)

theorem delimited_fragmentsBranch : ∀ {inverse : Option (List Node)}, DelimitedBranch inverse →
    ∀ x ∈ fragmentsBranch inverse, x.Delimited
  | none, _, x, hx => by simp [fragmentsBranch] at hx
  | some nodes, h, x, hx => by
    rw [DelimitedBranch] at h
    rw [fragmentsBranch, List.mem_cons] at hx
    obtain rfl | hx := hx
    · exact ⟨isHelperName_elseWord, by simp⟩
    · exact delimited_fragmentsAll h x hx

end

end Node

/-! ## Where a fragment ends -/

/-- Two texts that go on with something that cannot belong to them are the same when the wholes
are. -/
theorem Text.append_stop_inj {p : Char → Bool} {x y r s : Text} (hx : ∀ c ∈ x, p c = true)
    (hy : ∀ c ∈ y, p c = true) (hr : ∀ c ∈ r.head?, p c = false) (hs : ∀ c ∈ s.head?, p c = false)
    (h : x ++ r = y ++ s) : x = y ∧ r = s := by
  constructor
  · rw [← Text.takeWhile_append_stop hx hr, h, Text.takeWhile_append_stop hy hs]
  · rw [← Text.dropWhile_append_stop hx hr, h, Text.dropWhile_append_stop hy hs]

theorem ne_of_not_mem {d : Char} {t : Text} (h : d ∉ t) : ∀ c ∈ t, (c != d) = true := by
  intro c hc
  simpa using fun he : c = d => h (he ▸ hc)

theorem equals_not_mem_of_isKey {key : Text} (h : isKey key = true) : '=' ∉ key := by
  have hall : ∀ c ∈ key, c ≠ '=' :=
    forall_of_isMadeOf (by rintro _ hc rfl; exact absurd hc (by decide))
      (by rintro _ hc rfl; exact absurd hc (by decide)) h
  exact fun hmem => hall _ hmem rfl

/-- Written attributes show what they are and where they end. -/
theorem Attributes.text_inj {as bs : Attributes} (hka : ∀ a ∈ as, isKey a.1 = true)
    (hva : ∀ a ∈ as, '"' ∉ a.2) (hkb : ∀ b ∈ bs, isKey b.1 = true) (hvb : ∀ b ∈ bs, '"' ∉ b.2)
    {r s : Text} (h : as.text ++ '>' :: r = bs.text ++ '>' :: s) : as = bs ∧ r = s := by
  induction as generalizing bs with
  | nil =>
    cases bs with
    | nil => simpa using h
    | cons b bs => simp at h
  | cons a as ih =>
    cases bs with
    | nil => simp at h
    | cons b bs =>
      simp only [List.forall_mem_cons] at hka hva hkb hvb
      simp only [text_cons, List.cons_append, List.cons.injEq, List.append_assoc, List.nil_append,
        true_and] at h
      -- a key ends at the equals sign, and a value at its closing quote
      obtain ⟨hkeys, h⟩ := Text.append_stop_inj (ne_of_not_mem (equals_not_mem_of_isKey hka.1))
        (ne_of_not_mem (equals_not_mem_of_isKey hkb.1)) (by simp) (by simp) h
      simp only [List.cons.injEq, true_and] at h
      obtain ⟨hvalues, h⟩ := Text.append_stop_inj (ne_of_not_mem hva.1) (ne_of_not_mem hvb.1)
        (by simp) (by simp) h
      simp only [List.cons.injEq, true_and] at h
      obtain ⟨rfl, hrest⟩ := ih hka.2 hva.2 hkb.2 hvb.2 h
      exact ⟨by rw [Prod.ext hkeys hvalues], hrest⟩

@[simp] theorem isNameChar_greater : isNameChar '>' = false := rfl

/-- A name shows where it ends if no character of a name follows it. -/
theorem isName_append_inj {x y r s : Text} (hx : isName x = true) (hy : isName y = true)
    (hr : ∀ c ∈ r.head?, isNameChar c = false) (hs : ∀ c ∈ s.head?, isNameChar c = false)
    (h : x ++ r = y ++ s) : x = y ∧ r = s :=
  Text.append_stop_inj (forall_of_isMadeOf isNameChar_of_isAlpha id hx)
    (forall_of_isMadeOf isNameChar_of_isAlpha id hy) hr hs h

theorem letter_of_isName {name : Text} (h : isName name = true) :
    ∃ c ∈ name.head?, c.isAlpha = true := by
  cases name with
  | nil => simp [isName, isMadeOf] at h
  | cons c rest =>
    simp only [isName, isMadeOf, Bool.and_eq_true] at h
    exact ⟨c, rfl, h.1⟩

def argsText (args : Text) : Text := if args = [] then [] else ' ' :: args

theorem argsText_inj {x y : Text} (h : argsText x = argsText y) : x = y := by
  cases x <;> cases y <;> simp_all [argsText]

theorem Head.expression_eq (head : Head) :
    head.expression = head.name ++ argsText head.args := by
  rw [expression, argsText]
  split <;> simp

namespace Fragment

/-- An expression shows its name, its arguments and where it ends. -/
theorem expression_inj {n m x y r s : Text} (hn : IsHelperName n) (hm : IsHelperName m)
    (hx : '}' ∉ x) (hy : '}' ∉ y)
    (h : n ++ argsText x ++ '}' :: r = m ++ argsText y ++ '}' :: s) :
    n = m ∧ x = y ∧ r = s := by
  -- the whole ends at the first brace, and in it the name at the first space
  have hbrace {n x : Text} (hn : IsHelperName n) (hx : '}' ∉ x) : '}' ∉ n ++ argsText x := by
    rw [argsText]
    split <;> simp [hn.closing, hx]
  have hspace (x : Text) : ∀ c ∈ (argsText x).head?, (c != ' ') = false := by
    rw [argsText]
    split <;> simp
  obtain ⟨hexpr, hrest⟩ := Text.append_stop_inj (ne_of_not_mem (hbrace hn hx))
    (ne_of_not_mem (hbrace hm hy)) (by simp) (by simp) h
  obtain ⟨hname, hargs⟩ := Text.append_stop_inj (ne_of_not_mem hn.space)
    (ne_of_not_mem hm.space) (hspace x) (hspace y) hexpr
  exact ⟨hname, argsText_inj hargs, by simpa using hrest⟩

/-- The kinds of fragment that differ in how they begin. -/
inductive Kind where
  | char | openTag | closeTag | expression (sigil : Sigil)

def kind : Fragment → Kind
  | .char _ => .char
  | .openTag _ _ => .openTag
  | .closeTag _ => .closeTag
  | .expression sigil _ _ => .expression sigil

def kindAt : Text → Kind
  | '<' :: '/' :: _ => .closeTag
  | '<' :: _ => .openTag
  | '{' :: '{' :: '#' :: _ => .expression .opening
  | '{' :: '{' :: '/' :: _ => .expression .closing
  | '{' :: '{' :: _ => .expression .plain
  | _ => .char

theorem write_openTag_append (name : Text) (attributes : Attributes) (r : Text) :
    (openTag name attributes).write ++ r = '<' :: (name ++ (attributes.text ++ '>' :: r)) := by
  simp [write, Head.openTag, Head.attributeText, Attributes.text]

theorem write_closeTag_append (name r : Text) :
    (closeTag name).write ++ r = '<' :: '/' :: (name ++ '>' :: r) := by
  simp [write, Head.closeTag]

theorem write_expression_append (sigil : Sigil) (name args r : Text) :
    (expression sigil name args).write ++ r =
      '{' :: '{' :: (sigil.text ++ (name ++ argsText args ++ '}' :: '}' :: r)) := by
  simp [write, Head.expression_eq]

/-- A fragment shows by its beginning of what kind it is. -/
theorem kindAt_write {x : Fragment} (h : x.Delimited) (r : Text) :
    kindAt (x.write ++ r) = x.kind := by
  have hne {c d : Char} (hc : c.isAlpha = true) (hd : d.isAlpha = false) : c ≠ d := by
    rintro rfl
    exact Bool.false_ne_true (hd.symm.trans hc)
  cases x with
  | char c =>
    simp only [Delimited, isPlainChar, Bool.and_eq_true, bne_iff_ne] at h
    simp [write, kindAt, kind, h]
  | openTag name attributes =>
    obtain ⟨c, hc, hletter⟩ := letter_of_isName h.name
    obtain ⟨rest, rfl⟩ := List.head?_eq_some_iff.mp hc
    have hslash : c ≠ '/' := hne hletter (by decide)
    simp [write_openTag_append, kindAt, kind, hslash]
  | closeTag name => rfl
  | expression sigil name args =>
    obtain ⟨c, hc, hletter⟩ := h.1.letter
    obtain ⟨rest, rfl⟩ := List.head?_eq_some_iff.mp hc
    have hslash : c ≠ '/' := hne hletter (by decide)
    have hhash : c ≠ '#' := hne hletter (by decide)
    cases sigil <;> simp [write_expression_append, Sigil.text, kindAt, kind, hslash, hhash]

/-- A fragment shows where it ends: what stands behind it is never taken for a part of it. -/
theorem write_append_inj {x y : Fragment} (hx : x.Delimited) (hy : y.Delimited) {r s : Text}
    (h : x.write ++ r = y.write ++ s) : x = y ∧ r = s := by
  -- fragments of different kinds begin differently, so only equal kinds are left to compare
  have hkind : x.kind = y.kind := by rw [← kindAt_write hx r, h, kindAt_write hy s]
  cases x with
  | char c =>
    cases y <;> simp only [kind, reduceCtorEq] at hkind
    simpa [write] using h
  | openTag name attributes =>
    cases y <;> simp only [kind, reduceCtorEq] at hkind
    have hstop (as : Attributes) (t : Text) :
        ∀ c ∈ (as.text ++ '>' :: t).head?, isNameChar c = false := by
      cases as <;> simp
    rw [write_openTag_append, write_openTag_append, List.cons.injEq] at h
    obtain ⟨hname, hrest⟩ := isName_append_inj hx.name hy.name (hstop _ _) (hstop _ _) h.2
    obtain ⟨hattributes, hend⟩ := Attributes.text_inj hx.key hx.value hy.key hy.value hrest
    exact ⟨congrArg₂ openTag hname hattributes, hend⟩
  | closeTag name =>
    cases y <;> simp only [kind, reduceCtorEq] at hkind
    simp only [write_closeTag_append, List.cons.injEq, true_and] at h
    obtain ⟨hname, hrest⟩ := isName_append_inj hx hy (by simp) (by simp) h
    exact ⟨congrArg closeTag hname, by simpa using hrest⟩
  | expression sigil name args =>
    cases y <;> simp only [kind, reduceCtorEq, Kind.expression.injEq] at hkind
    subst hkind
    simp only [write_expression_append, List.cons.injEq, List.append_cancel_left_eq, true_and] at h
    obtain ⟨rfl, rfl, hrest⟩ := expression_inj hx.1 hy.1 hx.2 hy.2 h
    exact ⟨rfl, by simpa using hrest⟩

theorem write_ne_nil (x : Fragment) : x.write ≠ [] := by
  cases x <;> simp [write, Head.openTag, Head.closeTag]

/-- The fragments of a text are determined by it. -/
theorem flatMap_write_inj {xs ys : List Fragment} (hx : ∀ x ∈ xs, x.Delimited)
    (hy : ∀ y ∈ ys, y.Delimited) (h : xs.flatMap write = ys.flatMap write) : xs = ys := by
  induction xs generalizing ys with
  | nil =>
    cases ys with
    | nil => rfl
    | cons y ys => simp [write_ne_nil] at h
  | cons x xs ih =>
    cases ys with
    | nil => simp [write_ne_nil] at h
    | cons y ys =>
      simp only [List.forall_mem_cons] at hx hy
      simp only [List.flatMap_cons] at h
      obtain ⟨rfl, hrest⟩ := write_append_inj hx.1 hy.1 h
      rw [ih hx.2 hy.2 hrest]

end Fragment

/-! ## The nodes of fragments -/

/-- What stands behind a place in a document, up to the end of the innermost tag open there. -/
structure Behind where
  nodes : List Node
  /-- The branch that the tag goes on with behind the nodes. -/
  inverse : Option (List Node) := none

namespace Behind

def add (node : Node) (b : Behind) : Behind := { b with nodes := node :: b.nodes }

/-- What stands behind a fragment as well, given what stands behind its end, for the tags open
there, innermost first. -/
def step : Fragment → List Behind → List Behind
  | .char c, b :: outer => { b with nodes := Node.prependText [c] b.nodes } :: outer
  | .closeTag _, outer => { nodes := [] } :: outer
  | .openTag name attributes, inner :: b :: outer =>
    b.add (.tag { name, attributes } inner.nodes inner.inverse) :: outer
  | .expression .closing _ _, outer => { nodes := [] } :: outer
  | .expression .opening name args, inner :: b :: outer =>
    b.add (.tag { name, helper := true, args } inner.nodes inner.inverse) :: outer
  | .expression .plain name args, b :: outer =>
    let head : Head := { name, helper := true, args }
    if head.isElse then { nodes := [], inverse := some b.nodes } :: outer
    else b.add (.tag head [] none) :: outer
  | _, outer => outer

/-- A text put in front of what stands behind it. -/
theorem foldr_step_char (t : Text) (b : Behind) (outer : List Behind) :
    (t.map Fragment.char).foldr step (b :: outer) =
      { b with nodes := Node.prependText t b.nodes } :: outer := by
  induction t with
  | nil => simp [Node.prependText_nil]
  | cons c t ih => simp [ih, step, Node.prependText_prependText]

end Behind

namespace Node

mutual

/-- Read from the back, a node's fragments add the node itself in joined form. -/
theorem foldr_step_fragments : ∀ {node : Node}, node.Delimited → ∀ (b : Behind)
    (outer : List Behind), node.fragments.foldr Behind.step (b :: outer) =
      { b with nodes := joinTo node b.nodes } :: outer
  | .leaf l, _, b, outer => by rw [fragments, Behind.foldr_step_char, joinTo]
  | .tag head children inverse, h, b, outer => by
    rw [Delimited] at h
    obtain ⟨hhead, hchildren, hbranch⟩ := h
    have hbody := foldr_step_fragmentsAll hchildren
    have hother := foldr_step_fragmentsBranch hbranch
    -- from the right, the end of a tag puts an entry on the stack and its beginning takes it off
    obtain ⟨he, rfl⟩ | ⟨hh, helse⟩ := hhead
    · rw [fragments, if_neg (by simp [he.element]), List.foldr_cons, List.foldr_append,
        List.foldr_cons, List.foldr_nil, Behind.step, hbody, Behind.step, joinTo, joinBranch,
        he.unnumbered]
      rfl
    · rw [fragments, if_pos hh.helper, joinTo, hh.unnumbered]
      split
      · -- a single expression would be taken for the mark of a branch if it were an `else`
        rename_i hempty
        obtain ⟨rfl, rfl⟩ : children = [] ∧ inverse = none := by simpa using hempty
        have hnot := helse rfl rfl
        rw [← Head.isElse_renumber fun _ => 0, hh.unnumbered] at hnot
        rw [List.foldr_cons, List.foldr_nil, Behind.step, if_neg (by simp [hnot])]
        simp [Behind.add, joinAll, joinBranch]
      · rw [List.foldr_cons, List.foldr_append, List.foldr_append, List.foldr_cons, List.foldr_nil,
          Behind.step, hother, hbody, Behind.step]
        rfl

theorem foldr_step_fragmentsAll : ∀ {nodes : List Node}, DelimitedAll nodes →
    ∀ (inverse : Option (List Node)) (outer : List Behind),
      (fragmentsAll nodes).foldr Behind.step (⟨[], inverse⟩ :: outer) =
        ⟨joinAll nodes, inverse⟩ :: outer
  | [], _, inverse, outer => by simp [fragmentsAll, joinAll]
  | node :: rest, h, inverse, outer => by
    rw [DelimitedAll] at h
    rw [fragmentsAll, List.foldr_append, foldr_step_fragmentsAll h.2, foldr_step_fragments h.1,
      joinAll]

theorem foldr_step_fragmentsBranch : ∀ {inverse : Option (List Node)}, DelimitedBranch inverse →
    ∀ outer : List Behind, (fragmentsBranch inverse).foldr Behind.step ({ nodes := [] } :: outer) =
      ⟨[], joinBranch inverse⟩ :: outer
  | none, _, outer => by simp [fragmentsBranch, joinBranch]
  | some nodes, h, outer => by
    rw [DelimitedBranch] at h
    rw [fragmentsBranch, List.foldr_cons, foldr_step_fragmentsAll h]
    rfl

end

end Node

/-- Documents that are rendered as the same text are the same in joined form. -/
theorem joinAll_of_renderAll {xs ys : List Node} (hx : Node.DelimitedAll xs)
    (hy : Node.DelimitedAll ys) (h : Node.renderAll xs = Node.renderAll ys) :
    Node.joinAll xs = Node.joinAll ys := by
  rw [Node.renderAll_eq_fragments hx, Node.renderAll_eq_fragments hy, Except.ok.injEq] at h
  have hfragments := Fragment.flatMap_write_inj (Node.delimited_fragmentsAll hx)
    (Node.delimited_fragmentsAll hy) h
  have hbehind := Node.foldr_step_fragmentsAll hx none []
  rw [hfragments, Node.foldr_step_fragmentsAll hy none []] at hbehind
  simpa using hbehind.symm

def markedItem (line : Nat) : Head := ⟨"li", [("class", "a b"), ("@x", "{<}")], false, [], line⟩

theorem delimitedElement_markedItem (line : Nat) : (markedItem line).DelimitedElement :=
  ⟨rfl, rfl, List.forall_mem_cons.mpr ⟨rfl, List.forall_mem_singleton.mpr rfl⟩,
    by simp [markedItem], rfl⟩

def condition (line : Nat) : Head := ⟨"if", [], true, "x y", line⟩

theorem delimitedHelper_condition (line : Nat) : (condition line).DelimitedHelper :=
  ⟨rfl, ⟨⟨'i', rfl, rfl⟩, by simp [condition], by simp [condition], by simp [condition]⟩,
    by simp [condition], by simp [condition], rfl⟩

/-- Texts in pieces, and behind them a helper with a branch that holds an empty text. -/
def inPieces : List Node :=
  [.tag (markedItem 3) [.leaf (.text "u"), .leaf (.trailing "v"), .leaf (.raw "w"),
    .tag (condition 5) [.leaf (.literal ["s", "t"])] (some [.leaf (.text [])])] none]

def inOnePiece : List Node :=
  [.tag (markedItem 0) [.leaf (.text "uv w"),
    .tag (condition 0) [.leaf (.text "s t")] (some [])] none]

theorem joinAll_of_renderAll_pieces :
    Node.DelimitedAll inPieces ∧ Node.DelimitedAll inOnePiece ∧
      Node.renderAll inPieces = Node.renderAll inOnePiece ∧
      Node.joinAll inPieces = Node.joinAll inOnePiece := by
  have hpieces : Node.DelimitedAll inPieces := by
    simp [inPieces, Node.DelimitedAll, Node.DelimitedBranch, Node.Delimited, Leaf.render,
      isPlainChar, delimitedElement_markedItem, delimitedHelper_condition]
  have hone : Node.DelimitedAll inOnePiece := by
    simp [inOnePiece, Node.DelimitedAll, Node.DelimitedBranch, Node.Delimited, Leaf.render,
      isPlainChar, delimitedElement_markedItem, delimitedHelper_condition]
  have hsame : Node.renderAll inPieces = Node.renderAll inOnePiece := by
    rw [Node.renderAll_eq_fragments hpieces, Node.renderAll_eq_fragments hone]
    rfl
  exact ⟨hpieces, hone, hsame, joinAll_of_renderAll hpieces hone hsame⟩

end IndentMarkup
