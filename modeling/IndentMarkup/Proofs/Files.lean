import IndentMarkup.FileTree

/-!
# What operations on files change

A path that can be followed through a tree leads where it leads on paper, since there are no links.
So the place that an operation works on is known without the tree, and everything else stays: making
directories only adds directories where nothing stood, at places on the way to the one that is
wanted, also when it fails half-way; writing changes the one file.
-/
namespace IndentMarkup

namespace Path

def front (p : Path) (n : Nat) : Path := ⟨p.root, p.parts.take n⟩

theorem isRefused_parent {p : Path} (h : p.isRefused = false) : p.parent.isRefused = false := by
  simp only [isRefused, parent, List.any_eq_false] at h ⊢
  exact fun part hpart => h part (List.dropLast_subset _ hpart)

end Path

namespace FileTree

variable {t t' t'' : FileTree} {p : Path} {l : Location}

/-! ## Places -/

/-- The root is a directory, so what is set anywhere else is found there. -/
theorem at?_set_of_ne_dir {e : Entry} (h : t.at? l ≠ some .dir) : (t.set l e).at? l = some e := by
  refine at?_set_self t e ?_
  rintro rfl
  simp [at?] at h

/-- Followed through a tree, components lead where they lead on paper. -/
theorem eq_follow_of_walk {here : Location} {parts : List Codes} (h : t.walk here parts = .ok l) :
    l = Location.follow here parts := by
  induction parts generalizing here with
  | nil =>
    simp only [walk, Except.ok.injEq] at h
    exact h.symm
  | cons name rest ih =>
    rw [walk] at h
    split at h
    · simp at h
    · simp at h
    · by_cases hn : name = parentMark
      · rw [if_pos hn] at h
        have hrest := ih h
        simpa [Location.follow, hn] using hrest
      · rw [if_neg hn] at h
        by_cases hlong : nameLimit < name.nameBytes.length
        · simp [hlong] at h
        · rw [if_neg hlong] at h
          have hrest := ih h
          simpa [Location.follow, hn] using hrest

/-- A path that can be followed leads to its place on paper. -/
theorem eq_resolve_of_locate (h : t.locate p = .ok l) : l = p.resolve t.workingDir := by
  simp only [locate] at h
  split at h
  · simp at h
  · cases hr : p.root <;> simp only [hr] at h
    all_goals simpa only [Path.resolve, hr] using eq_follow_of_walk h

theorem at?_of_find {e : Entry} (h : t.find p = .ok e) :
    t.at? (p.resolve t.workingDir) = some e := by
  unfold find at h
  split at h
  · simp at h
  · rename_i l hl
    rw [← eq_resolve_of_locate hl]
    split at h
    · simp at h
    · rename_i e' he
      rw [he, Except.ok.inj h]

theorem at?_of_read {bytes : Utf8.Bytes} (h : t.read p = .ok bytes) :
    t.at? (p.resolve t.workingDir) = some (.file bytes) := by
  unfold read at h
  split at h
  · simp at h
  · simp at h
  · rename_i content hfind
    rw [at?_of_find hfind, Except.ok.inj h]

/-- A file that is written is the one at the path's place, where no directory stood. -/
theorem eq_set_of_write {content : Utf8.Bytes} (h : t.write p content = .ok t') :
    t' = t.set (p.resolve t.workingDir) (.file content) ∧
      t.at? (p.resolve t.workingDir) ≠ some .dir := by
  unfold write at h
  split at h
  · simp at h
  · rename_i l hl
    rw [← eq_resolve_of_locate hl]
    split at h
    · simp at h
    · rename_i hdir
      exact ⟨(Except.ok.inj h).symm, hdir⟩

/-! ## Directories that are made -/

/-- The second tree has further directories, at some of the given places, where nothing stood. -/
structure DirsAdded (places : Location → Prop) (t t' : FileTree) : Prop where
  workingDir : t'.workingDir = t.workingDir
  entries : ∀ l, t'.at? l = t.at? l ∨ (t.at? l = none ∧ t'.at? l = some .dir ∧ places l)

namespace DirsAdded

variable {places : Location → Prop}

theorem refl (places : Location → Prop) (t : FileTree) : DirsAdded places t t :=
  ⟨rfl, fun _ => .inl rfl⟩

theorem trans (h : DirsAdded places t t') (h' : DirsAdded places t' t'') :
    DirsAdded places t t'' := by
  refine ⟨h'.workingDir.trans h.workingDir, ?_⟩
  intro l
  rcases h'.entries l with heq' | ⟨hnone', hdir', hplace'⟩
  · rw [heq']
    exact h.entries l
  · rcases h.entries l with heq | ⟨hnone, hdir, hplace⟩
    · exact .inr ⟨heq ▸ hnone', hdir', hplace'⟩
    · rw [hdir] at hnone'
      simp at hnone'

theorem mono {places' : Location → Prop} (h : DirsAdded places t t')
    (hp : ∀ l, places l → places' l) : DirsAdded places' t t' := by
  refine ⟨h.workingDir, fun l => ?_⟩
  exact (h.entries l).imp_right fun ⟨hnone, hdir, hplace⟩ => ⟨hnone, hdir, hp l hplace⟩

/-- No file is made, changed or taken away. -/
theorem file_iff (h : DirsAdded places t t') (l : Location) (content : Utf8.Bytes) :
    t'.at? l = some (.file content) ↔ t.at? l = some (.file content) := by
  rcases h.entries l with heq | ⟨hnone, hdir, -⟩
  · rw [heq]
  · simp [hnone, hdir]

theorem dir (h : DirsAdded places t t') (hl : t.at? l = some .dir) : t'.at? l = some .dir := by
  rcases h.entries l with heq | ⟨-, hdir, -⟩
  · rw [heq, hl]
  · exact hdir

/-- A directory that is there afterwards was there, or is at one of the places. -/
theorem dir_or (h : DirsAdded places t t') (hl : t'.at? l = some .dir) :
    t.at? l = some .dir ∨ places l := by
  rcases h.entries l with heq | ⟨-, -, hplace⟩
  · exact .inl (heq ▸ hl)
  · exact .inr hplace

end DirsAdded

theorem dirsAdded_set (t : FileTree) {l : Location} (h : t.at? l = none) :
    DirsAdded (· = l) t (t.set l .dir) := by
  refine ⟨rfl, fun k => ?_⟩
  by_cases hk : k = l
  · subst hk
    exact .inr ⟨h, at?_set_of_ne_dir (by simp [h]), rfl⟩
  · exact .inl (at?_set_of_ne t .dir (Ne.symm hk))

theorem dirsAdded_makeDir (h : t.makeDir p = .ok t') :
    DirsAdded (· = p.resolve t.workingDir) t t' := by
  unfold makeDir at h
  split at h
  · simp at h
  · rename_i l hl
    rw [← eq_resolve_of_locate hl]
    split at h
    · simp at h
    · rename_i hnone
      rw [← Except.ok.inj h]
      exact dirsAdded_set t hnone

/-- Making a directory, or accepting the one that is there, adds at most this one. -/
theorem dirsAdded_ensureDir (h : t.ensureDir p = .ok t') :
    DirsAdded (· = p.resolve t.workingDir) t t' := by
  unfold ensureDir at h
  split at h
  · rename_i made hmade
    rw [← Except.ok.inj h]
    exact dirsAdded_makeDir hmade
  · rw [← Except.ok.inj h]
    exact .refl _ t
  · simp at h

/-- The places of the paths on the way to a path, and its own. -/
def OnTheWay (workingDir : Location) (p : Path) (l : Location) : Prop :=
  ∃ n, l = (p.front n).resolve workingDir

theorem dirsAdded_front {n : Nat} (h : t.ensureDir (p.front n) = .ok t') :
    DirsAdded (OnTheWay t.workingDir p) t t' :=
  (dirsAdded_ensureDir h).mono fun _ hl => ⟨n, hl⟩

/-- Whether it succeeds or fails half-way, making a directory and those above it adds directories
on the way to it and changes nothing else. -/
theorem dirsAdded_makeDirsUpTo (t : FileTree) (p : Path) (n : Nat) :
    DirsAdded (OnTheWay t.workingDir p) t (t.makeDirsUpTo p n).1 := by
  induction n with
  | zero =>
    rw [makeDirsUpTo]
    cases hmade : t.ensureDir ⟨p.root, []⟩ with
    | ok made => exact dirsAdded_front (n := 0) hmade
    | error e => exact .refl _ t
  | succ n ih =>
    rw [makeDirsUpTo]
    split
    · rename_i made hmade
      exact dirsAdded_front (n := n + 1) hmade
    · split
      · -- a directory above could not be made: what was made before it stays
        rename_i made f hup
        simpa [hup] using ih
      · rename_i made hup
        have hfirst : DirsAdded (OnTheWay t.workingDir p) t made := by simpa [hup] using ih
        cases hmade : made.ensureDir ⟨p.root, p.parts.take (n + 1)⟩ with
        | error e => exact hfirst
        | ok last =>
          have hlast := dirsAdded_front (n := n + 1) hmade
          rw [hfirst.workingDir] at hlast
          exact hfirst.trans hlast
    · exact .refl _ t

/-- Whether they can all be made or not, only directories on the way are added. -/
theorem dirsAdded_makeDirs (t : FileTree) (p : Path) :
    DirsAdded (OnTheWay t.workingDir p) t (t.makeDirs p).1 :=
  dirsAdded_makeDirsUpTo t p p.parts.length

end FileTree
end IndentMarkup
