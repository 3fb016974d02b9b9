import FragmentSearch.Proofs.LogicalBounds
import FragmentSearch.Proofs.WordSearch

namespace FragmentSearch

section Steps

variable {earlier later : List Nat} {first second last previous : Placement}

theorem isLeast_enteredBlocks {block : Nat} (h : IsLeast (leavingBlocks earlier later) block) :
    IsLeast (enteredBlocks earlier later) (block + 1) := by
  refine ⟨succ_mem_enteredBlocks h.1, fun entered member => ?_⟩
  obtain ⟨leaving, step, rfl⟩ := exists_leaving_of_entered member
  exact Nat.succ_le_succ (h.2 step)

theorem stepFrom?_eq_firstBlock (rest : List Placement) (h : stepsInto first.blocks second.blocks = true) :
    stepFrom? first.blocks second.blocks = some (firstBlock (first :: second :: rest)) := by
  obtain ⟨block, member, onward⟩ := stepsInto_iff.mp h
  have found : (stepFrom? first.blocks second.blocks).isSome :=
    List.find?_isSome.mpr ⟨block, member, by simpa using onward⟩
  rw [firstBlock, Option.getD_of_ne_none (Option.isSome_iff_ne_none.mp found)]

theorem stepTo?_eq_lastBlock (before : List Placement) (h : stepsInto previous.blocks last.blocks = true) :
    stepTo? previous.blocks last.blocks = some (lastBlock (last :: previous :: before)) := by
  obtain ⟨block, member, onward⟩ := stepsInto_iff.mp h
  have found : (stepTo? previous.blocks last.blocks).isSome :=
    List.find?_isSome.mpr ⟨block + 1, onward, by simpa using member⟩
  rw [lastBlock, Option.getD_of_ne_none (Option.isSome_iff_ne_none.mp found)]

end Steps

namespace Word

theorem findM?_append_cons {α : Type} {before after : List α} {a : α} {p? : α → Option Bool}
    (skipped : ∀ b ∈ before, p? b = some false) (hit : p? a = some true) :
    (before ++ a :: after).findM? p? = some (some a) := by
  induction before with
  | nil =>
    rw [List.nil_append, List.findM?, hit]
    rfl
  | cons b before ih =>
    obtain ⟨first, others⟩ := List.forall_mem_cons.mp skipped
    rw [List.cons_append, List.findM?, first]
    exact ih others

theorem leftBlock?_eq {earlier later : List Nat} {block : Nat} (ascending : earlier.Pairwise (· < ·))
    (words : ∀ block ∈ later, block < wordLimit) (found : stepFrom? earlier later = some block) :
    leftBlock? earlier later = some (some block) := by
  obtain ⟨hit, before, after, rfl, skipped⟩ := List.find?_eq_some_iff_append.mp found
  have word : block + 1 < wordLimit := words _ (by simpa using hit)
  -- the blocks before the one that is found are less, so the successor of each is a word as well
  apply findM?_append_cons
  · intro b member
    have less : b < block := (List.pairwise_append.mp ascending).2.2 b member block List.mem_cons_self
    have missed := skipped b member
    rw [sum?_eq (by omega)]
    simpa using missed
  · rw [sum?_eq word]
    simpa using hit

theorem ofPlacements?_eq_of_found (gapWeight : Float) (source : Nat) {row rest : List Placement}
    {first second : Placement} (begins : row = first :: second :: rest) (ascending : first.blocks.Pairwise (· < ·))
    (words : ∀ block ∈ second.blocks, block < wordLimit)
    (found : stepFrom? first.blocks second.blocks = some (firstBlock row)) :
    ofPlacements? gapWeight source row = some (.ofPlacements gapWeight source row) := by
  subst begins
  rw [ofPlacements?, firstBlock?, leftBlock?_eq ascending words found, lastBlock?_eq]
  rfl

end Word

namespace Run

/-- The bounds of a run are what the two searches find: the least step out of the first placement, and the least step
into the last. -/
structure BoundBySteps (run : Run) (first second previous last : Placement) : Prop where
  start_least : IsLeast (leavingBlocks first.blocks second.blocks) run.logicalStart
  end_least : IsLeast (enteredBlocks previous.blocks last.blocks) run.logicalEnd
  start_found : stepFrom? first.blocks second.blocks = some run.logicalStart
  end_found : stepTo? previous.blocks last.blocks = some run.logicalEnd

theorem BoundBySteps.end_eq_succ {run : Run} {first second : Placement}
    (h : run.BoundBySteps first second first second) : run.logicalEnd = run.logicalStart + 1 :=
  h.end_least.unique (isLeast_enteredBlocks h.start_least)

theorem boundBySteps_ofPlacements (gapWeight : Float) (source : Nat) {row rest before : List Placement}
    {first second previous last : Placement} (begins : row = first :: second :: rest)
    (ends : row = before ++ [previous, last]) (ascending : ∀ p ∈ row, p.blocks.Pairwise (· < ·))
    (steps : row.IsChain fun a b => stepsInto a.blocks b.blocks = true) :
    (ofPlacements gapWeight source row).BoundBySteps first second previous last := by
  have anchored := anchored_ofPlacements gapWeight source (by simp [begins]) steps ascending (by simp [begins])
  refine ⟨anchored.start_least first second rest begins, anchored.end_least before previous last ends, ?_, ?_⟩
  · subst begins
    exact stepFrom?_eq_firstBlock rest (List.isChain_cons_cons.mp steps).1
  · subst ends
    have found := stepTo?_eq_lastBlock before.reverse (List.isChain_append_cons_cons.mp steps).2.1
    simpa [ofPlacements] using found

theorem ofPlacements?_bound_by_steps (gapWeight : Float) (source : Nat) (row : List Placement)
    (long : 2 ≤ row.length) (ascending : ∀ p ∈ row, p.blocks.Pairwise (· < ·))
    (steps : row.IsChain fun a b => stepsInto a.blocks b.blocks = true) :
    ∃ run, ofPlacements? gapWeight source row = .ok run ∧
      run.BoundBySteps row[0] row[1] row[row.length - 2] row[row.length - 1] ∧
      run.logicalStart ∈ row[0].blocks ∧ run.logicalEnd ∈ row[row.length - 1].blocks ∧
      (row.length = 2 → run.logicalEnd = run.logicalStart + 1) ∧
      ((∀ p ∈ row, ∀ block ∈ p.blocks, block < wordLimit) → Word.ofPlacements? gapWeight source row = some run) := by
  have begins : row = row[0] :: row[1] :: row.drop 2 := by
    rw [← List.drop_eq_getElem_cons, ← List.drop_eq_getElem_cons, List.drop_zero]
  have ends : row = row.take (row.length - 2) ++ [row[row.length - 2], row[row.length - 1]] := by
    obtain ⟨before, previous, last, ends⟩ := exists_last_two row long
    simp [ends]
  have filled : ¬ row.isEmpty = true := by
    rw [begins, List.isEmpty_cons]
    exact Bool.false_ne_true
  have bound := boundBySteps_ofPlacements gapWeight source begins ends ascending steps
  refine ⟨ofPlacements gapWeight source row, if_neg filled, bound, bound.start_least.1.1, bound.end_least.1.1, ?_, ?_⟩
  · intro two
    simp only [two, Nat.sub_self, Nat.reduceSub] at bound
    exact bound.end_eq_succ
  · intro words
    exact Word.ofPlacements?_eq_of_found gapWeight source begins (ascending _ (List.getElem_mem _))
      (words _ (List.getElem_mem _)) bound.start_found

theorem ofPlacements?_bound_by_steps_forked :
    let row : List Placement := [⟨0, [7, 9, wordLimit - 1], .hash 3⟩, ⟨8, [10, 13, 20], .nullGap⟩,
      ⟨16, [5, 14, 21], .hash 1⟩]
    let pair : List Placement := [⟨8, [2, 7, 30], .hash 1⟩, ⟨16, [0, 8, 31], .hash 2⟩]
    (∃ run, ofPlacements? 0 1 row = .ok run ∧ run.BoundBySteps row[0] row[1] row[1] row[2] ∧
        run.logicalStart = 9 ∧ run.logicalEnd = 14 ∧ Word.ofPlacements? 0 1 row = some run) ∧
      ∃ run, ofPlacements? 0 1 pair = .ok run ∧ run.logicalStart = 7 ∧ run.logicalEnd = run.logicalStart + 1 := by
  intro row pair
  constructor
  · obtain ⟨run, made, bound, -, -, -, inWords⟩ :=
      ofPlacements?_bound_by_steps 0 1 row (by decide) (by decide) (by decide)
    have start : run.logicalStart = 9 := Option.some.inj (bound.start_found.symm.trans (by decide))
    have stop : run.logicalEnd = 14 := Option.some.inj (bound.end_found.symm.trans (by decide))
    exact ⟨run, made, bound, start, stop, inWords (by decide)⟩
  · obtain ⟨run, made, bound, -, -, onward, -⟩ :=
      ofPlacements?_bound_by_steps 0 1 pair (by decide) (by decide) (by decide)
    exact ⟨run, made, Option.some.inj (bound.start_found.symm.trans (by decide)), onward rfl⟩

end Run

end FragmentSearch
