import IndentMarkup.OrderedMap
import IndentMarkup.Path
import IndentMarkup.Text.Quoted
import IndentMarkup.Text.Utf8

/-!
# File trees

A file tree maps locations to directories and files, and knows its working directory. A path is
looked up step by step: every component but the last has to lead to a directory, so that a path
through a missing name fails even when double dots lead back out of it.

Left out are links and special files, permissions, limits on space and on open files, and with them
every failure behind the opening of a file: one that can be opened can be read and written to its
end. Halves in a name that together are the bytes of a character make another name here, not another
spelling of the same one.
-/
namespace IndentMarkup

inductive Entry where
  | dir
  | file (content : Utf8.Bytes)
  deriving DecidableEq, Repr

structure FileTree where
  workingDir : Location
  entries : OrderedMap Location Entry

inductive OsError where
  | notFound | exists | notDirectory | isDirectory | nameTooLong
  deriving DecidableEq, Repr

namespace OsError

def number : OsError → Nat
  | .notFound => 2
  | .exists => 17
  | .notDirectory => 20
  | .isDirectory => 21
  | .nameTooLong => 36

def wording : OsError → Text
  | .notFound => "No such file or directory"
  | .exists => "File exists"
  | .notDirectory => "Not a directory"
  | .isDirectory => "Is a directory"
  | .nameTooLong => "File name too long"

def message (e : OsError) (p : Path) : Text :=
  "[Errno ".toList ++ Text.ofNat e.number ++ "] ".toList ++ e.wording ++ ": ".toList ++
    Text.quoted p.text

end OsError

namespace FileTree

/-- What stands at a location. The root directory is always there. -/
def at? (t : FileTree) (l : Location) : Option Entry :=
  match l with
  | [] => some .dir
  | _ => t.entries.get? l

def set (t : FileTree) (l : Location) (e : Entry) : FileTree :=
  { t with entries := t.entries.insert l e }

theorem at?_set_self (t : FileTree) {l : Location} (e : Entry) (h : l ≠ []) :
    (t.set l e).at? l = some e := by
  cases l with
  | nil => contradiction
  | cons name rest => exact OrderedMap.get?_insert_self t.entries (name :: rest) e

theorem at?_set_of_ne (t : FileTree) {l l' : Location} (e : Entry) (h : l ≠ l') :
    (t.set l e).at? l' = t.at? l' := by
  cases l' with
  | nil => rfl
  | cons name rest => exact OrderedMap.get?_insert_of_ne t.entries e h

/-- The longest file name, in bytes. -/
def nameLimit : Nat := 255

/-- The longest path, in bytes. -/
def pathLimit : Nat := 4095

def walk (t : FileTree) : Location → List Codes → Except OsError Location
  | here, [] => .ok here
  | here, name :: rest =>
    match t.at? here with
    | none => .error .notFound
    | some (.file _) => .error .notDirectory
    | some .dir =>
      if name = parentMark then walk t here.dropLast rest
      else if nameLimit < name.nameBytes.length then .error .nameTooLong
      else walk t (here ++ [name]) rest

/-- The location a path leads to; nothing need stand there. -/
def locate (t : FileTree) (p : Path) : Except OsError Location :=
  if pathLimit < p.text.nameBytes.length then .error .nameTooLong
  else match p.root with
    | .none => t.walk t.workingDir p.parts
    | _ => t.walk [] p.parts

def find (t : FileTree) (p : Path) : Except OsError Entry :=
  match t.locate p with
  | .error e => .error e
  | .ok l =>
    match t.at? l with
    | none => .error .notFound
    | some e => .ok e

def read (t : FileTree) (p : Path) : Except OsError Utf8.Bytes :=
  match t.find p with
  | .error e => .error e
  | .ok .dir => .error .isDirectory
  | .ok (.file content) => .ok content

def write (t : FileTree) (p : Path) (content : Utf8.Bytes) : Except OsError FileTree :=
  match t.locate p with
  | .error e => .error e
  | .ok l =>
    match t.at? l with
    | some .dir => .error .isDirectory
    | _ => .ok (t.set l (.file content))

def makeDir (t : FileTree) (p : Path) : Except OsError FileTree :=
  match t.locate p with
  | .error e => .error e
  | .ok l =>
    match t.at? l with
    | some _ => .error .exists
    | none => .ok (t.set l .dir)

/-- Look for what stands where a path leads. That nothing is found is no failure, but a path that is
too long is. -/
def lookFor (t : FileTree) (p : Path) : Except OsError (Option Entry) :=
  if p.isRefused then .ok none
  else match t.find p with
    | .ok e => .ok (some e)
    | .error .nameTooLong => .error .nameTooLong
    | .error _ => .ok none

def isDir (t : FileTree) (p : Path) : Except OsError Bool := (t.lookFor p).map (· == some .dir)

def isThere (t : FileTree) (p : Path) : Except OsError Bool := (t.lookFor p).map (·.isSome)

/-- Make one directory, or accept the one that is there. -/
def ensureDir (t : FileTree) (p : Path) : Except OsError FileTree :=
  match t.makeDir p, t.find p with
  | .ok made, _ => .ok made
  | .error _, .ok .dir => .ok t
  | .error e, _ => .error e

structure Failure where
  error : OsError
  path : Path
  deriving DecidableEq, Repr

def Failure.message (f : Failure) : Text := f.error.message f.path

/-- Make the directory of the first `n` components and all that are missing above it. The tree that
is left is also given when this fails half-way. -/
def makeDirsUpTo (t : FileTree) (p : Path) : Nat → FileTree × Option Failure
  | 0 =>
    let q : Path := ⟨p.root, []⟩
    match t.ensureDir q with
    | .ok made => (made, none)
    | .error e => (t, some ⟨e, q⟩)
  | n + 1 =>
    let q : Path := ⟨p.root, p.parts.take (n + 1)⟩
    match t.ensureDir q with
    | .ok made => (made, none)
    | .error .notFound =>
      match makeDirsUpTo t p n with
      | (made, some f) => (made, some f)
      | (made, none) =>
        match made.ensureDir q with
        | .ok made => (made, none)
        | .error e => (made, some ⟨e, q⟩)
    | .error e => (t, some ⟨e, q⟩)

def makeDirs (t : FileTree) (p : Path) : FileTree × Option Failure :=
  t.makeDirsUpTo p p.parts.length

def children (t : FileTree) (l : Location) : List (Codes × Entry) :=
  t.entries.filterMap fun b =>
    match b.1.getLast? with
    | none => none
    | some name => if b.1.dropLast = l then some (name, b.2) else none

def dirsBelow (t : FileTree) (l : Location) : List (List Codes) :=
  t.entries.filterMap fun b =>
    if b.2 = .dir ∧ l <+: b.1 ∧ b.1 ≠ l then some (b.1.drop l.length) else none

/-! ## Changes from outside -/

/-- A tree with nothing in it but the working directory and those above it. -/
def empty (workingDir : Location) : FileTree :=
  ⟨workingDir, workingDir.stages.map fun l => (l, .dir)⟩

/-- Put an entry where a path leads on paper, with all directories above it. -/
def plant (t : FileTree) (p : Path) (e : Entry) : FileTree :=
  let l := p.resolve t.workingDir
  let above := (Location.stages l.dropLast).filter fun d => t.at? d != some .dir
  (above.foldl (fun t d => t.set d .dir) t).set l e

/-- Take away what stands where a path leads on paper, and all below it. -/
def uproot (t : FileTree) (p : Path) : FileTree :=
  let l := p.resolve t.workingDir
  { t with entries := t.entries.filter fun b => !(l.isPrefixOf b.1) }

/-- All entries below the working directory, by the way down to them. -/
def listing (t : FileTree) : List (Path × Entry) :=
  t.entries.filterMap fun b =>
    if t.workingDir <+: b.1 ∧ b.1 ≠ t.workingDir then
      some (⟨.none, b.1.drop t.workingDir.length⟩, b.2)
    else none

end FileTree
end IndentMarkup
