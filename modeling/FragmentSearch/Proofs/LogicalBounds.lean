import Mathlib.Order.Bounds.Basic
import FragmentSearch.Proofs.RunStructure

namespace FragmentSearch

def leavingBlocks (earlier later : List Nat) : Set Nat := {block | block ∈ earlier ∧ block + 1 ∈ later}

def enteredBlocks (earlier later : List Nat) : Set Nat := {block | block ∈ later ∧ 0 < block ∧ block - 1 ∈ earlier}

section Steps

variable {earlier later : List Nat} {block : Nat}

theorem succ_mem_enteredBlocks (h : block ∈ leavingBlocks earlier later) : block + 1 ∈ enteredBlocks earlier later :=
  ⟨h.2, Nat.succ_pos block, h.1⟩

theorem exists_leaving_of_entered (h : block ∈ enteredBlocks earlier later) :
    ∃ before ∈ leavingBlocks earlier later, block = before + 1 := by
  obtain ⟨member, positive, stepped⟩ := h
  have back : block - 1 + 1 = block := by omega
  refine ⟨block - 1, ⟨stepped, ?_⟩, back.symm⟩
  rw [back]
  exact member

theorem find?_isLeast {blocks : List Nat} (ascending : blocks.Pairwise (· < ·)) {p : Nat → Bool}
    (h : ∃ block ∈ blocks, p block = true) :
    ∃ least, blocks.find? p = some least ∧ IsLeast {block | block ∈ blocks ∧ p block = true} least := by
  obtain ⟨least, found⟩ := Option.isSome_iff_exists.mp (List.find?_isSome.mpr h)
  obtain ⟨holds, before, after, rfl, skipped⟩ := List.find?_eq_some_iff_append.mp found
  refine ⟨least, found, ⟨by simp, holds⟩, ?_⟩
  rintro block ⟨member, good⟩
  rcases List.mem_append.mp member with earlier | later
  · have bad := skipped block earlier
    simp [good] at bad
  · rcases List.mem_cons.mp later with rfl | later
    · exact Nat.le_refl _
    · exact Nat.le_of_lt ((List.pairwise_cons.mp (List.pairwise_append.mp ascending).2.1).1 block later)

theorem stepFrom?_isLeast (ascending : earlier.Pairwise (· < ·)) (h : stepsInto earlier later = true) :
    ∃ least, stepFrom? earlier later = some least ∧ IsLeast (leavingBlocks earlier later) least := by
  obtain ⟨block, member, onward⟩ := stepsInto_iff.mp h
  obtain ⟨least, found, isLeast⟩ := find?_isLeast (p := fun block => later.contains (block + 1)) ascending
    ⟨block, member, by simpa using onward⟩
  exact ⟨least, found, by simpa [leavingBlocks] using isLeast⟩

theorem stepTo?_isLeast (ascending : later.Pairwise (· < ·)) (h : stepsInto earlier later = true) :
    ∃ least, stepTo? earlier later = some least ∧ IsLeast (enteredBlocks earlier later) least := by
  obtain ⟨block, member, onward⟩ := stepsInto_iff.mp h
  obtain ⟨least, found, isLeast⟩ := find?_isLeast
    (p := fun block => 0 < block && earlier.contains (block - 1)) ascending
    ⟨block + 1, onward, by simpa using member⟩
  exact ⟨least, found, by simpa [enteredBlocks] using isLeast⟩

end Steps

theorem firstBlock_isLeast {first second : Placement} (rest : List Placement)
    (ascending : first.blocks.Pairwise (· < ·)) (h : stepsInto first.blocks second.blocks = true) :
    IsLeast (leavingBlocks first.blocks second.blocks) (firstBlock (first :: second :: rest)) := by
  obtain ⟨least, found, isLeast⟩ := stepFrom?_isLeast ascending h
  simpa [firstBlock, found] using isLeast

theorem lastBlock_isLeast {last previous : Placement} (before : List Placement)
    (ascending : last.blocks.Pairwise (· < ·)) (h : stepsInto previous.blocks last.blocks = true) :
    IsLeast (enteredBlocks previous.blocks last.blocks) (lastBlock (last :: previous :: before)) := by
  obtain ⟨least, found, isLeast⟩ := stepTo?_isLeast ascending h
  simpa [lastBlock, found] using isLeast

theorem headD_isLeast {blocks : List Nat} (ascending : blocks.Pairwise (· < ·)) (h : blocks ≠ []) :
    IsLeast {block | block ∈ blocks} (blocks.headD 0) := by
  obtain ⟨block, rest, rfl⟩ := List.exists_cons_of_ne_nil h
  refine ⟨List.mem_cons_self, ?_⟩
  intro other member
  rcases List.mem_cons.mp member with rfl | later
  · exact Nat.le_refl _
  · exact Nat.le_of_lt ((List.pairwise_cons.mp ascending).1 other later)

def ForwardPath (row : List Placement) (block : Nat) : Prop := ∀ i p, row[i]? = some p → block + i ∈ p.blocks

theorem forwardPath_nil (block : Nat) : ForwardPath [] block := by
  intro i p found
  simp at found

theorem forwardPath_cons {p : Placement} {rest : List Placement} {block : Nat} :
    ForwardPath (p :: rest) block ↔ block ∈ p.blocks ∧ ForwardPath rest (block + 1) := by
  constructor
  · intro path
    refine ⟨path 0 p rfl, fun i q hq => ?_⟩
    have next := path (i + 1) q hq
    rwa [Nat.add_comm i, ← Nat.add_assoc] at next
  · rintro ⟨member, path⟩ i q hq
    cases i with
    | zero =>
      cases hq
      exact member
    | succ i =>
      have next := path i q hq
      rwa [Nat.add_assoc, Nat.add_comm 1] at next

theorem ForwardPath.mem_leavingBlocks {first second : Placement} {rest : List Placement} {block : Nat}
    (path : ForwardPath (first :: second :: rest) block) : block ∈ leavingBlocks first.blocks second.blocks :=
  ⟨path 0 first rfl, path 1 second rfl⟩

theorem ForwardPath.mem_enteredBlocks (before after : List Placement) {previous next : Placement} {block : Nat}
    (path : ForwardPath (before ++ previous :: next :: after) block) :
    block + (before.length + 1) ∈ enteredBlocks previous.blocks next.blocks := by
  apply succ_mem_enteredBlocks
  refine ⟨path before.length previous (by simp), path (before.length + 1) next (by simp)⟩

/-- Wherever a placement is entered and left, it is so at one and the same block. -/
def Unforked (row : List Placement) : Prop :=
  ∀ a b c, [a, b, c] <:+: row → ∀ entered ∈ enteredBlocks a.blocks b.blocks,
    ∀ leaving ∈ leavingBlocks b.blocks c.blocks, entered = leaving

theorem unforked_of_length_le {row : List Placement} (h : row.length ≤ 2) : Unforked row := by
  intro a b c within
  have long := within.length_le
  simp only [List.length_cons, List.length_nil] at long
  omega

theorem Unforked.of_cons {p : Placement} {rest : List Placement} (h : Unforked (p :: rest)) : Unforked rest :=
  fun a b c within => h a b c (within.trans (List.suffix_cons p rest).isInfix)

theorem Unforked.forwardPath {first second : Placement} {rest : List Placement} (h : Unforked (first :: second :: rest))
    (leads : (first :: second :: rest).IsChain fun a b => a.leadsTo b = true) {block : Nat}
    (leaving : block ∈ leavingBlocks first.blocks second.blocks) : ForwardPath (first :: second :: rest) block := by
  induction rest generalizing first second block with
  | nil =>
    exact forwardPath_cons.mpr ⟨leaving.1, forwardPath_cons.mpr ⟨leaving.2, forwardPath_nil _⟩⟩
  | cons third rest ih =>
    have onward := (List.isChain_cons_cons.mp leads).2
    obtain ⟨next, member, further⟩ :=
      stepsInto_iff.mp (Placement.leadsTo_iff.mp (List.isChain_cons_cons.mp onward).1).2
    have same : block + 1 = next :=
      h first second third ⟨[], rest, rfl⟩ _ (succ_mem_enteredBlocks leaving) next ⟨member, further⟩
    refine forwardPath_cons.mpr ⟨leaving.1, ih h.of_cons onward ?_⟩
    rw [same]
    exact ⟨member, further⟩

namespace Run

structure Straight (run : Run) : Prop where
  path : ForwardPath run.placements run.logicalStart
  end_eq : run.logicalEnd = run.logicalStart + (run.length - 1)

/-- Each bound is the least block at its end that takes part in a step; a placement that is alone takes part in
none, and both bounds are its least block. -/
structure Anchored (run : Run) : Prop where
  ne_nil : run.placements ≠ []
  lone : ∀ only, run.placements = [only] →
    IsLeast {block | block ∈ only.blocks} run.logicalStart ∧ run.logicalEnd = run.logicalStart
  start_least : ∀ first second rest, run.placements = first :: second :: rest →
    IsLeast (leavingBlocks first.blocks second.blocks) run.logicalStart
  end_least : ∀ before previous last, run.placements = before ++ [previous, last] →
    IsLeast (enteredBlocks previous.blocks last.blocks) run.logicalEnd

structure LeastPath (run : Run) (block : Nat) : Prop where
  path : ForwardPath run.placements block
  leaves_least : ∀ first second rest, run.placements = first :: second :: rest →
    block ∈ lowerBounds (leavingBlocks first.blocks second.blocks)
  enters_least : ∀ before previous last, run.placements = before ++ [previous, last] →
    block + (before.length + 1) ∈ lowerBounds (enteredBlocks previous.blocks last.blocks)

theorem exists_last_two {α : Type} (list : List α) (h : 2 ≤ list.length) :
    ∃ before previous last, list = before ++ [previous, last] := by
  match hr : list.reverse with
  | [] => simp_all
  | [only] =>
    have one := congrArg List.length hr
    simp only [List.length_reverse, List.length_singleton] at one
    omega
  | last :: previous :: before =>
    refine ⟨before.reverse, previous, last, ?_⟩
    rw [← List.reverse_reverse list, hr]
    simp

theorem anchored_ofPlacements (gapWeight : Float) (source : Nat) {row : List Placement} (hn : row ≠ [])
    (steps : row.IsChain fun a b => stepsInto a.blocks b.blocks = true)
    (ascending : ∀ p ∈ row, p.blocks.Pairwise (· < ·)) (placed : ∀ only, row = [only] → only.blocks ≠ []) :
    (ofPlacements gapWeight source row).Anchored := by
  refine ⟨hn, ?_, ?_, ?_⟩
  · rintro only rfl
    exact ⟨headD_isLeast (ascending only List.mem_cons_self) (placed only rfl), rfl⟩
  · rintro first second rest rfl
    exact firstBlock_isLeast rest (ascending first List.mem_cons_self) (List.isChain_cons_cons.mp steps).1
  · rintro before previous last rfl
    have into := (List.isChain_append_cons_cons.mp steps).2.1
    have least := lastBlock_isLeast before.reverse (ascending last (by simp)) into
    simpa [ofPlacements] using least

variable {run : Run}

theorem Anchored.cases (h : run.Anchored) :
    (∃ only, run.placements = [only]) ∨ ∃ first second rest, run.placements = first :: second :: rest := by
  match hp : run.placements with
  | [] => exact absurd hp h.ne_nil
  | [only] => exact .inl ⟨only, rfl⟩
  | first :: second :: rest => exact .inr ⟨first, second, rest, rfl⟩

theorem Anchored.straight_of_lone (h : run.Anchored) {only : Placement} (hp : run.placements = [only]) :
    run.Straight := by
  obtain ⟨least, same⟩ := h.lone only hp
  refine ⟨?_, by simp [same, length, hp]⟩
  rw [hp]
  exact forwardPath_cons.mpr ⟨least.1, forwardPath_nil _⟩

theorem Anchored.straight_iff (h : run.Anchored) : run.Straight ↔ ∃ block, run.LeastPath block := by
  constructor
  · rintro ⟨path, stop⟩
    refine ⟨run.logicalStart, path, fun first second rest hp => (h.start_least first second rest hp).2, ?_⟩
    intro before previous last hp
    have bound := (h.end_least before previous last hp).2
    simpa [stop, length, hp] using bound
  · rintro ⟨block, path, leaves, enters⟩
    rcases h.cases with ⟨only, hp⟩ | ⟨first, second, rest, hp⟩
    · exact h.straight_of_lone hp
    · obtain ⟨before, previous, last, hp'⟩ := exists_last_two run.placements (by simp [hp])
      have start : run.logicalStart = block :=
        (h.start_least first second rest hp).unique ⟨(hp ▸ path).mem_leavingBlocks, leaves first second rest hp⟩
      have stop : run.logicalEnd = block + (before.length + 1) :=
        (h.end_least before previous last hp').unique
          ⟨(hp' ▸ path).mem_enteredBlocks before [], enters before previous last hp'⟩
      exact ⟨start ▸ path, by simp [stop, start, length, hp']⟩

theorem Anchored.straight_of_unforked (h : run.Anchored)
    (leads : run.placements.IsChain fun a b => a.leadsTo b = true) (single : Unforked run.placements) :
    run.Straight := by
  rcases h.cases with ⟨only, hp⟩ | ⟨first, second, rest, hp⟩
  · exact h.straight_of_lone hp
  · have least := h.start_least first second rest hp
    have path : ForwardPath run.placements run.logicalStart := by
      rw [hp] at leads single ⊢
      exact single.forwardPath leads least.1
    refine h.straight_iff.mpr ⟨run.logicalStart, path, ?_, ?_⟩
    · intro first second rest hp
      exact (h.start_least first second rest hp).2
    · intro before previous last hp' entered member
      obtain ⟨leaving, step, rfl⟩ := exists_leaving_of_entered member
      rcases List.eq_nil_or_concat before with rfl | ⟨earlier, a, rfl⟩
      · -- with two placements the step in and the step out are steps between the same two
        have bound := (h.start_least previous last [] hp').2 step
        simpa using bound
      · have arrived : run.logicalStart + (earlier.length + 1) ∈ enteredBlocks a.blocks previous.blocks := by
          apply ForwardPath.mem_enteredBlocks earlier [last]
          simpa [hp'] using path
        have within : [a, previous, last] <:+: run.placements := ⟨earlier, [], by simp [hp']⟩
        have same := single a previous last within _ arrived leaving step
        simp only [List.concat_eq_append, List.length_append, List.length_singleton]
        omega

end Run

namespace Search

variable {search : Search} {source : Nat}

theorem anchored_candidate {localSize : String → Nat} {candidates : Candidates} {records : List Record}
    (loaded : search.catalog = .load localSize candidates records) {run : Run} (h : run ∈ search.candidateRuns source) :
    run.Anchored ∧ run.placements.IsChain fun a b => a.leadsTo b = true := by
  obtain ⟨bucket, gathered, row, cut, rfl⟩ := mem_candidateRuns.mp h
  have leads := List.isChain_of_mem_splitBy cut
  have listed : ∀ p ∈ row, ∃ association : Association, association.Lists source p.blocks :=
    fun p member => lists_of_load loaded (mem_row gathered cut member)
  have steps := leads.imp fun a b hab => (Placement.leadsTo_iff.mp hab).2
  refine ⟨Run.anchored_ofPlacements _ _ (List.ne_nil_of_mem_splitBy cut) steps ?_ ?_, leads⟩
  · intro p member
    obtain ⟨association, lists⟩ := listed p member
    exact lists.ascending
  · rintro only rfl
    obtain ⟨association, lists⟩ := listed only List.mem_cons_self
    exact lists.ne_nil

theorem candidateRuns_bounds (localSize : String → Nat) (candidates : Candidates) (records : List Record)
    (sightings : Sightings) (settings : Settings) (source : Nat) {run : Run}
    (h : run ∈ ({ catalog := .load localSize candidates records, sightings, settings } : Search).candidateRuns source) :
    run.Anchored ∧ (run.placements.IsChain fun a b => ∃ block ∈ a.blocks, block + 1 ∈ b.blocks) ∧
      (run.Straight ↔ ∃ block, run.LeastPath block) ∧ (Unforked run.placements → run.Straight) ∧
      (run.length ≤ 2 → run.Straight) := by
  obtain ⟨anchored, leads⟩ := anchored_candidate rfl h
  have forward := leads.imp fun a b hab => stepsInto_iff.mp (Placement.leadsTo_iff.mp hab).2
  have straight := anchored.straight_of_unforked leads
  exact ⟨anchored, forward, anchored.straight_iff, straight, fun short => straight (unforked_of_length_le short)⟩

theorem candidateRuns_bounds_ambiguous :
    let records : List Record := [.association ⟨"a", ⟨2, none⟩, [⟨1, 4096⟩, ⟨1, 36864⟩]⟩,
      .association ⟨"b", ⟨1, none⟩, [⟨1, 16384⟩, ⟨1, 40960⟩]⟩,
      .association ⟨"c", ⟨3, none⟩, [⟨1, 45056⟩, ⟨1, 122880⟩]⟩]
    let observations : List Observation := [⟨0, "a", none, .none⟩, ⟨4096, "b", none, .none⟩, ⟨8192, "c", none, .none⟩]
    let catalog := Catalog.load (fun _ => 0) (Candidates.select {} records) records
    let search : Search := { catalog, sightings := catalog.sightings observations, settings := {} }
    ∃ run ∈ search.candidateRuns 1,
      run.placements = [⟨0, [1, 9], .hash 2⟩, ⟨8, [4, 10], .hash 1⟩, ⟨16, [11, 30], .hash 3⟩] ∧
        run.logicalStart = 9 ∧ run.logicalEnd = 11 ∧ run.Anchored ∧ run.Straight := by
  intro records observations catalog search
  have result : (search.candidateRuns 1).map (fun run => (run.placements, run.logicalStart, run.logicalEnd)) =
      [([⟨0, [1, 9], .hash 2⟩, ⟨8, [4, 10], .hash 1⟩, ⟨16, [11, 30], .hash 3⟩], 9, 11)] := by decide +kernel
  obtain ⟨run, found, same⟩ := List.mem_map.mp (result ▸ List.mem_cons_self)
  obtain ⟨placements, start, stop⟩ : run.placements = _ ∧ run.logicalStart = 9 ∧ run.logicalEnd = 11 := by
    simpa only [Prod.mk.injEq] using same
  obtain ⟨anchored, -, -, straight, -⟩ := candidateRuns_bounds _ _ _ _ _ _ found
  have single : Unforked run.placements := by
    intro a b c within
    rw [placements] at within
    obtain ⟨rfl, rfl, rfl⟩ : a = ⟨0, [1, 9], .hash 2⟩ ∧ b = ⟨8, [4, 10], .hash 1⟩ ∧ c = ⟨16, [11, 30], .hash 3⟩ := by
      simpa only [List.cons.injEq, and_true] using within.eq_of_length rfl
    simp [enteredBlocks, leavingBlocks]
  exact ⟨run, found, placements, start, stop, anchored, straight single⟩

/-- In source 1 one path goes through all three placements, but the first bound is that of a shorter one; in source 2
no path goes through all of them. -/
theorem candidateRuns_bounds_crooked :
    let records : List Record := [.association ⟨"a", ⟨1, none⟩, [⟨1, 0⟩, ⟨1, 20480⟩, ⟨2, 0⟩]⟩,
      .association ⟨"b", ⟨1, none⟩, [⟨1, 4096⟩, ⟨1, 24576⟩, ⟨2, 4096⟩, ⟨2, 28672⟩]⟩,
      .association ⟨"c", ⟨1, none⟩, [⟨1, 28672⟩, ⟨2, 32768⟩]⟩]
    let observations : List Observation := [⟨0, "a", none, .none⟩, ⟨4096, "b", none, .none⟩, ⟨8192, "c", none, .none⟩]
    let catalog := Catalog.load (fun _ => 0) (Candidates.select {} records) records
    let search : Search := { catalog, sightings := catalog.sightings observations, settings := {} }
    (∃ run ∈ search.candidateRuns 1, ForwardPath run.placements 5 ∧ run.logicalStart = 0 ∧ run.logicalEnd = 7 ∧
        ¬ run.Straight) ∧
      ∃ run ∈ search.candidateRuns 2, run.length = 3 ∧ ∀ block, ¬ ForwardPath run.placements block := by
  intro records observations catalog search
  have first : (search.candidateRuns 1).map (fun run => (run.placements, run.logicalStart, run.logicalEnd)) =
      [([⟨0, [0, 5], .hash 1⟩, ⟨8, [1, 6], .hash 1⟩, ⟨16, [7], .hash 1⟩], 0, 7)] := by decide +kernel
  have second : (search.candidateRuns 2).map (·.placements) =
      [[⟨0, [0], .hash 1⟩, ⟨8, [1, 7], .hash 1⟩, ⟨16, [8], .hash 1⟩]] := by decide +kernel
  constructor
  · obtain ⟨run, found, same⟩ := List.mem_map.mp (first ▸ List.mem_cons_self)
    obtain ⟨placements, start, stop⟩ : run.placements = _ ∧ run.logicalStart = 0 ∧ run.logicalEnd = 7 := by
      simpa only [Prod.mk.injEq] using same
    refine ⟨run, found, ?_, start, stop, fun straight => ?_⟩
    · rw [placements]
      simp [forwardPath_cons, forwardPath_nil]
    · have claimed := straight.end_eq
      simp [start, stop, Run.length, placements] at claimed
  · obtain ⟨run, found, placements⟩ := List.mem_map.mp (second ▸ List.mem_cons_self)
    refine ⟨run, found, by simp [Run.length, placements], fun block path => ?_⟩
    rw [placements] at path
    simp only [forwardPath_cons, List.mem_cons, List.not_mem_nil, or_false] at path
    omega

end Search

end FragmentSearch
