import IndentMarkup.FileTree

/-!
# File name patterns

A pattern is a relative path whose components may hold wildcards: a star for any run of characters,
a question mark for one character, and a bracketed class for one of several. A component of exactly
two stars stands for any number of directories, none included. Matching tells upper from lower case
and takes names that begin with a dot like any other. A pattern that ends with a slash matches
directories only.
-/
namespace IndentMarkup

inductive Wildcard where
  | code (c : Code)
  | any
  | star
  /-- One code point within, or outside, the closed ranges. -/
  | oneOf (negated : Bool) (ranges : List (Code × Code))
  deriving DecidableEq, Repr

namespace Wildcard

def takeMark (mark : Code) (t : Codes) : Codes × Codes :=
  match t with
  | [] => ([], [])
  | c :: rest => if c = mark then ([c], rest) else ([], c :: rest)

/-- The text of a character class and what follows it, given the text behind the opening bracket. A
closing bracket in first place belongs to the class. -/
def splitClass? (t : Codes) : Option (Codes × Codes) :=
  let negation := takeMark (.char '!') t
  let first := takeMark (.char ']') negation.2
  match first.2.dropWhile (· != .char ']') with
  | [] => none
  | _ :: after => some (negation.1 ++ first.1 ++ first.2.takeWhile (· != .char ']'), after)

theorem length_takeMark_le (mark : Code) (t : Codes) : (takeMark mark t).2.length ≤ t.length := by
  unfold takeMark
  split
  · simp
  · split <;> simp

/-- What follows a class is shorter than the text, so that reading goes on with less. -/
theorem length_splitClass? {t body after : Codes} (h : splitClass? t = some (body, after)) :
    after.length < t.length := by
  have h₁ := length_takeMark_le (.char '!') t
  have h₂ := length_takeMark_le (.char ']') (takeMark (.char '!') t).2
  have h₃ := (List.dropWhile_sublist (· != .char ']')
    (l := (takeMark (.char ']') (takeMark (.char '!') t).2).2)).length_le
  unfold splitClass? at h
  simp only at h
  split at h
  · simp at h
  · rename_i c rest hr
    simp only [Option.some.injEq, Prod.mk.injEq] at h
    rw [hr, h.2] at h₃
    simp only [List.length_cons] at h₃
    omega

/-- Cut a class at the hyphens that make ranges: a hyphen counts once `skip` characters have passed,
and two after every hyphen that counted. -/
def cutRanges : Nat → Codes → Codes → List Codes
  | _, chunk, [] => if chunk = [] then [] else [chunk.reverse]
  | 0, chunk, c :: rest =>
    if c = .char '-' then
      if rest = [] then [(c :: chunk).reverse]
      else chunk.reverse :: cutRanges 2 [] rest
    else cutRanges 0 (c :: chunk) rest
  | skip + 1, chunk, c :: rest => cutRanges skip (c :: chunk) rest

/-- Drop the ranges whose end lies before their beginning. -/
def dropEmptyRanges : List Codes → List Codes
  | [] => []
  | chunk :: rest =>
    match dropEmptyRanges rest with
    | [] => [chunk]
    | next :: others =>
      match chunk.getLast?, next.head? with
      | some low, some high =>
        if high.toNat < low.toNat then (chunk.dropLast ++ next.tail) :: others
        else chunk :: next :: others
      | _, _ => chunk :: next :: others

/-- The characters of the chunks, and the ranges from the end of one to the start of the next. -/
def rangesOf : List Codes → List (Code × Code)
  | [] => []
  | chunk :: rest =>
    let between := match chunk.getLast?, rest.head?.bind List.head? with
      | some low, some high => [(low, high)]
      | _, _ => []
    chunk.map (fun c => (c, c)) ++ between ++ rangesOf rest

/-- The wildcard of a class. An empty class matches nothing, a negated empty one anything. -/
def ofClass (body : Codes) : Wildcard :=
  let skip := if body.head? = some (.char '!') then 2 else 1
  match dropEmptyRanges (cutRanges skip [] body) with
  | (.char '!' :: first) :: rest =>
    if first = [] ∧ rest = [] then .any else .oneOf true (rangesOf (first :: rest))
  | chunks => .oneOf false (rangesOf chunks)

/-- The wildcards of a component. A bracket that is never closed stands for itself. -/
def readAll (t : Codes) : List Wildcard :=
  match t with
  | [] => []
  | .char '*' :: rest => .star :: readAll rest
  | .char '?' :: rest => .any :: readAll rest
  | .char '[' :: rest =>
    match _h : splitClass? rest with
    | none => .code (.char '[') :: readAll rest
    | some (body, after) => ofClass body :: readAll after
  | c :: rest => .code c :: readAll rest
termination_by t.length
decreasing_by
  all_goals simp only [List.length_cons]
  case _ => omega
  case _ => omega
  case _ => omega
  case _ => have := length_splitClass? _h; omega
  case _ => omega

def fits (w : Wildcard) (c : Code) : Bool :=
  match w with
  | .code d => c == d
  | .any => true
  | .star => true
  | .oneOf negated ranges =>
    negated != ranges.any fun r => r.1.toNat ≤ c.toNat && c.toNat ≤ r.2.toNat

/-- From every place of a list on, whether any of the values holds. -/
def anyFrom : List Bool → List Bool
  | [] => []
  | b :: rest =>
    let others := anyFrom rest
    (b || others.headD false) :: others

/-- For every suffix of a name, whether one character fits and the rest is marked in a table of
suffixes. -/
def oneThen (w : Wildcard) : Codes → List Bool → List Bool
  | c :: name, _ :: table => (w.fits c && table.headD false) :: oneThen w name table
  | _, _ => [false]

/-- For every suffix of a name, the longest first, whether wildcards match it. -/
def matchSuffixes (name : Codes) : List Wildcard → List Bool
  | [] => name.map (fun _ => false) ++ [true]
  | .star :: rest => anyFrom (matchSuffixes name rest)
  | w :: rest => oneThen w name (matchSuffixes name rest)

def matchAll (ws : List Wildcard) (name : Codes) : Bool := (matchSuffixes name ws).headD false

@[simp] theorem matchAll_nil_nil : matchAll [] [] = true := rfl
@[simp] theorem matchAll_nil_cons (c : Code) (name : Codes) : matchAll [] (c :: name) = false := rfl

end Wildcard

inductive PatternPart where
  /-- Any number of directories. -/
  | anyDepth
  | wild (wildcards : List Wildcard)
  | exact (name : Codes)
  deriving DecidableEq, Repr

structure Pattern where
  parts : List PatternPart
  dirsOnly : Bool
  deriving DecidableEq, Repr

inductive PatternError where
  /-- It begins at the root directory. -/
  | rooted
  /-- Two stars stand beside something else in a component. -/
  | doubleStar
  /-- It has no component at all. -/
  | empty
  /-- It has no component but ends with a slash. -/
  | emptyDir
  deriving DecidableEq, Repr

namespace PatternPart

def hasDoubleStar : Codes → Bool
  | .char '*' :: .char '*' :: _ => true
  | _ :: rest => hasDoubleStar rest
  | [] => false

def isWild (t : Codes) : Bool :=
  t.any fun c => c == .char '*' || c == .char '?' || c == .char '['

def read (t : Codes) : Except PatternError PatternPart :=
  if t = [.char '*', .char '*'] then .ok .anyDepth
  else if hasDoubleStar t then .error .doubleStar
  else if isWild t then .ok (.wild (Wildcard.readAll t))
  else .ok (.exact t)

end PatternPart

namespace Pattern

def read (t : Codes) : Except PatternError Pattern :=
  let p := Path.ofText t
  let dirsOnly := t.getLast? == some (.char '/')
  match p.root, p.parts with
  | .none, [] => .error (if dirsOnly then .emptyDir else .empty)
  | .none, parts => (parts.mapM PatternPart.read).map fun parts => ⟨parts, dirsOnly⟩
  | _, _ => .error .rooted

/-- The paths that components lead to from a directory. All but the last have to lead to
directories, and so has the last if only directories are wanted. A name that is too long cannot be
looked up. -/
def select (t : FileTree) (dirsOnly : Bool) :
    List PatternPart → Path → Except OsError (List Path)
  | [], p => .ok [p]
  | .exact name :: rest, p => do
    let q := p.child name
    let found ← if dirsOnly || !rest.isEmpty then t.isDir q else t.isThere q
    if found then select t dirsOnly rest q else return []
  | .wild wildcards :: rest, p =>
    match t.locate p with
    | .error _ => .ok []
    | .ok l =>
      let fitting := (t.children l).filter fun c =>
        (!(dirsOnly || !rest.isEmpty) || c.2 == .dir) && Wildcard.matchAll wildcards c.1
      (fitting.mapM fun c => select t dirsOnly rest (p.child c.1)).map List.flatten
  | .anyDepth :: rest, p =>
    match t.locate p with
    | .error _ => .ok []
    | .ok l =>
      (([] :: t.dirsBelow l).mapM fun way =>
        select t dirsOnly rest ⟨p.root, p.parts ++ way⟩).map List.flatten

/-- The paths in a tree that match the pattern from a base. -/
def matching (pattern : Pattern) (t : FileTree) (base : Path) : Except OsError (List Path) := do
  if ← t.isDir base then select t pattern.dirsOnly pattern.parts base else return []

end Pattern
end IndentMarkup
