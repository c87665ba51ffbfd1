import IndentMarkup.Proofs.ConfigAborts
import IndentMarkup.Proofs.InsertionOrder
import IndentMarkup.Proofs.Turns

/-!
# What becomes of the entries to write

The pairs of a configuration are a map by source that the entries fill one after the other. Every
source that an entry names is in it, at the place of its first entry. A destination is in it only if
no later entry names another one for the same source: of such entries the last one counts, and a
build gives no turn to the others.
-/
namespace IndentMarkup

/-! ## The last of several bindings -/

/-- A pair that stands in the list, with none behind it that has the same first part. -/
def LastUnder {κ ν : Type} (pairs : List (κ × ν)) (pair : κ × ν) : Prop :=
  ∃ before after, pairs = before ++ pair :: after ∧ ∀ later ∈ after, later.1 ≠ pair.1

section

variable {κ ν : Type} {pairs : List (κ × ν)} {pair last : κ × ν}

theorem not_lastUnder_nil : ¬LastUnder [] pair := by
  rintro ⟨before, after, h, -⟩
  simp at h

theorem LastUnder.mem (h : LastUnder pairs pair) : pair ∈ pairs := by
  obtain ⟨before, after, rfl, -⟩ := h
  simp

/-- One more pair is last under its first part, and displaces the one that was. -/
theorem lastUnder_concat_iff :
    LastUnder (pairs ++ [last]) pair ↔ pair = last ∨ LastUnder pairs pair ∧ last.1 ≠ pair.1 := by
  constructor
  · rintro ⟨before, after, h, hafter⟩
    obtain rfl | ⟨init, final, rfl⟩ := after.eq_nil_or_concat'
    · exact .inl (List.append_inj_right' h rfl |> List.singleton_inj.mp).symm
    · rw [← List.cons_append, ← List.append_assoc] at h
      obtain ⟨rfl, hlast⟩ := List.append_inj' h rfl
      obtain rfl := List.singleton_inj.mp hlast
      simp only [List.mem_append, List.mem_singleton] at hafter
      exact .inr ⟨⟨before, init, rfl, fun later hl => hafter later (.inl hl)⟩,
        hafter last (.inr rfl)⟩
  · rintro (rfl | ⟨⟨before, after, rfl, hafter⟩, hne⟩)
    · exact ⟨pairs, [], rfl, by simp⟩
    · refine ⟨before, after ++ [last], by simp, ?_⟩
      intro later hl
      rcases List.mem_append.mp hl with hl | hl
      · exact hafter later hl
      · rwa [List.mem_singleton.mp hl]

theorem LastUnder.unique {other : κ × ν} (h : LastUnder pairs pair) (ho : LastUnder pairs other)
    (he : pair.1 = other.1) : pair = other := by
  induction pairs using List.reverseRecOn with
  | nil => exact absurd h not_lastUnder_nil
  | append_singleton init last ih =>
    rw [lastUnder_concat_iff] at h ho
    obtain rfl | ⟨h, hne⟩ := h <;> obtain rfl | ⟨ho, hno⟩ := ho
    · rfl
    · exact absurd he hno
    · exact absurd he.symm hne
    · exact ih h ho

theorem exists_lastUnder (h : pair ∈ pairs) : ∃ last, LastUnder pairs last ∧ last.1 = pair.1 := by
  induction pairs using List.reverseRecOn with
  | nil => simp at h
  | append_singleton init final ih =>
    by_cases hf : final.1 = pair.1
    · exact ⟨final, lastUnder_concat_iff.mpr (.inl rfl), hf⟩
    · have hinit : pair ∈ init := by
        rcases List.mem_append.mp h with h | h
        · exact h
        · exact absurd (List.mem_singleton.mp h ▸ rfl) hf
      obtain ⟨last, hlast, he⟩ := ih hinit
      exact ⟨last, lastUnder_concat_iff.mpr (.inr ⟨hlast, he ▸ hf⟩), he⟩

/-- All pairs count exactly when those with the same first part are the same. -/
theorem forall_lastUnder_iff : (∀ pair ∈ pairs, LastUnder pairs pair) ↔
    ∀ pair ∈ pairs, ∀ other ∈ pairs, pair.1 = other.1 → pair.2 = other.2 := by
  constructor
  · intro h pair hp other ho he
    rw [(h pair hp).unique (h other ho) he]
  · intro h pair hp
    obtain ⟨last, hlast, he⟩ := exists_lastUnder hp
    have hsame : last = pair := Prod.ext he (h last hlast.mem pair hp he)
    exact hsame ▸ hlast

/-- A map holds the last of all bindings for each key. -/
theorem OrderedMap.mem_ofList_iff [BEq κ] [LawfulBEq κ] :
    pair ∈ OrderedMap.ofList pairs ↔ LastUnder pairs pair := by
  unfold OrderedMap.ofList
  induction pairs using List.reverseRecOn with
  | nil => simp [not_lastUnder_nil]
  | append_singleton init last ih =>
    have hkeys : (init.foldl (fun m b => OrderedMap.insert m b.1 b.2) []).keys.Nodup :=
      OrderedMap.nodup_keys_foldl_insert (by simp) init
    rw [List.foldl_append, List.foldl_cons, List.foldl_nil, OrderedMap.mem_insert_iff hkeys, ih,
      lastUnder_concat_iff]

end

/-! ## Entries -/

/-- The source and the destination of an entry, seen from the base. -/
def NamesPair (s : Store) (base : Path) (entry : Value) (pair : Path × Path) : Prop :=
  ∃ fields source destination, s.look entry = .map fields ∧
    (∃ v, Value.entry? fields sourceKey = some v ∧ v.text? = some source) ∧
    (∃ v, Value.entry? fields destinationKey = some v ∧ v.text? = some destination) ∧
    Codes.isBlankText source = false ∧ Codes.isBlankText destination = false ∧
    pair = (base.under (.ofText source), base.under (.ofText destination))

section

variable {s : Store} {base : Path}

/-- An entry is read exactly when it names a source and a destination. -/
theorem readEntry?_eq_some_iff {entry : Value} {pair : Path × Path} :
    readEntry? s base entry = some pair ↔ NamesPair s base entry pair := by
  unfold readEntry? NamesPair
  split
  next fields hlook =>
    simp only [hlook, Value.map.injEq, bind, Option.bind_eq_some_iff, pathText?_eq_some_iff, pure,
      Option.some.injEq]
    grind
  next hlook => simp_all

/-- Entries that can all be read fill the map in their order. -/
theorem readEntries_eq_ok {pairs r : OrderedMap Path Path} {items : List Value}
    (h : readEntries s base pairs items = .ok r) :
    ∃ asked, List.Forall₂ (NamesPair s base) items asked ∧
      r = asked.foldl (fun m b => m.insert b.1 b.2) pairs := by
  induction items generalizing pairs with
  | nil =>
    obtain rfl := Except.ok.inj h
    exact ⟨[], .nil, rfl⟩
  | cons entry items ih =>
    rw [readEntries] at h
    split at h
    · cases h
    · rename_i source destination hread
      obtain ⟨asked, hasked, rfl⟩ := ih h
      exact ⟨(source, destination) :: asked, .cons (readEntry?_eq_some_iff.mp hread) hasked, rfl⟩

end

/-- The pairs of an accepted configuration are what its entries name. A pair that an entry names is
among them exactly when no later entry names another destination for its source, so that all are
exactly when no two entries disagree. A build that is not aborted gives a turn to these pairs and to
no others. -/
theorem pair_kept_iff {t : FileTree} {base : Path} {s : Store} {config : Value} {c : BuildConfig}
    (h : readConfig t base s config = .ok c) :
    ∃ entries items asked, AsksFor s config entries items ∧
      List.Forall₂ (NamesPair s base) items asked ∧
      c.pairs.keys = (asked.map (·.1)).eraseDups ∧
      (∀ pair, pair ∈ c.pairs ↔ LastUnder asked pair) ∧
      ((∀ pair ∈ asked, pair ∈ c.pairs) ↔
        ∀ pair ∈ asked, ∀ other ∈ asked, pair.1 = other.1 → pair.2 = other.2) ∧
      ∀ tree, (build c.separator tree c.pairs).abort = none →
        (turns c.separator tree c.pairs).map Turn.pair = c.pairs ∧
        ∀ destination, (∃ u ∈ turns c.separator tree c.pairs, u.destination = destination) ↔
          ∃ source, LastUnder asked (source, destination) := by
  obtain ⟨entries, items, -, hasks, hpairs, -⟩ := readConfig_eq_ok_iff.mp h
  obtain ⟨asked, hasked, hbuilt⟩ := readEntries_eq_ok hpairs
  have hmem : ∀ pair, pair ∈ c.pairs ↔ LastUnder asked pair := by
    intro pair
    rw [hbuilt]
    exact OrderedMap.mem_ofList_iff
  refine ⟨entries, items, asked, hasks, hasked, ?_, hmem, ?_, ?_⟩
  · rw [hbuilt, OrderedMap.keys_foldl_insert (by simp)]
    rfl
  · simp only [hmem]
    exact forall_lastUnder_iff
  · intro tree habort
    obtain ⟨-, hturns, -⟩ | ⟨a, -, -, -, hstop, -⟩ := turns_complete c.separator tree c.pairs
    · refine ⟨hturns, ?_⟩
      intro destination
      simp only [← hmem]
      nth_rewrite 2 [← hturns]
      constructor
      · rintro ⟨u, hu, rfl⟩
        exact ⟨u.source, List.mem_map_of_mem hu⟩
      · rintro ⟨source, hsource⟩
        obtain ⟨u, hu, he⟩ := List.mem_map.mp hsource
        exact ⟨u, hu, congrArg Prod.snd he⟩
    · simp [habort] at hstop

def entryToWrite (source destination : Text) : Value :=
  .map [(.text sourceKey, .text source), (.text destinationKey, .text destination)]

/-- Of three entries the last names the source of the first in another spelling, and the second
shares the destination of the first. -/
def respelledEntries : Value :=
  .map [(.text writeKey,
    .list [entryToWrite "a" "x", entryToWrite "b" "x", entryToWrite "./a" "y"])]

theorem pair_kept_iff_respelled :
    ∃ c, readConfig (FileTree.empty ["w"]) .here .empty respelledEntries = .ok c ∧
      c.pairs = [(.ofText "a", .ofText "y"), (.ofText "b", .ofText "x")] ∧
      ∃ entries items asked, AsksFor .empty respelledEntries entries items ∧
        List.Forall₂ (NamesPair .empty .here) items asked ∧
        c.pairs.keys = (asked.map (·.1)).eraseDups ∧
        (∀ pair, pair ∈ c.pairs ↔ LastUnder asked pair) ∧
        ((∀ pair ∈ asked, pair ∈ c.pairs) ↔
          ∀ pair ∈ asked, ∀ other ∈ asked, pair.1 = other.1 → pair.2 = other.2) ∧
        ∀ tree, (build c.separator tree c.pairs).abort = none →
          (turns c.separator tree c.pairs).map Turn.pair = c.pairs ∧
          ∀ destination, (∃ u ∈ turns c.separator tree c.pairs, u.destination = destination) ↔
            ∃ source, LastUnder asked (source, destination) := by
  have h : readConfig (FileTree.empty ["w"]) .here .empty respelledEntries =
      .ok ⟨[(.ofText "a", .ofText "y"), (.ofText "b", .ofText "x")], [], defaultSeparator⟩ := by
    with_unfolding_all rfl
  exact ⟨_, h, rfl, pair_kept_iff h⟩

/-- The destination of an entry is lost to that of a later entry for the same source: no pair has it
and no build writes it, although the source compiles. -/
theorem pair_lost :
    let config : Value := .map [(.text writeKey, .list [entryToWrite "a" "x", entryToWrite "a" "y"])]
    let tree := (FileTree.empty ["w"]).set ["w", "a"] (.file [0x7C, 0x62])
    ∃ c, readConfig (FileTree.empty ["w"]) .here .empty config = .ok c ∧
      c.pairs = [(.ofText "a", .ofText "y")] ∧
      (build c.separator tree c.pairs).tree.at? ["w", "x"] = none ∧
      (build c.separator tree c.pairs).tree.at? ["w", "y"] = some (.file [0x62]) := by
  refine ⟨⟨[(.ofText "a", .ofText "y")], [], defaultSeparator⟩, ?_, rfl, ?_⟩
  · with_unfolding_all rfl
  · decide +kernel

end IndentMarkup
