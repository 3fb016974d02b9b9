import Mathlib.Data.List.SplitBy
import FragmentSearch.Text
import FragmentSearch.Run

namespace FragmentSearch

variable {leads : Placement → Placement → Bool} {gapWeight : Float} {source : Nat}

/-- The pieces make up the placements one after the other; within a piece each placement leads to the next, and the
last of a piece does not lead to the first of the piece behind it. -/
structure Decomposes (leads : Placement → Placement → Bool) (placements : List Placement)
    (pieces : List (List Placement)) : Prop where
  flatten_eq : pieces.flatten = placements
  nonempty : ∀ piece ∈ pieces, piece ≠ []
  linked : ∀ piece ∈ pieces, piece.IsChain fun a b => leads a b = true
  parted : pieces.IsChain fun left right => ∀ last ∈ left.getLast?, ∀ first ∈ right.head?, leads last first = false

namespace Decomposes

variable {placements row : List Placement} {rows pieces : List (List Placement)} {last next : Placement}

theorem iff_splitBy : Decomposes leads placements pieces ↔ placements.splitBy leads = pieces := by
  rw [List.splitBy_eq_iff]
  constructor
  · intro h
    refine ⟨h.flatten_eq.symm, fun member => h.nonempty _ member rfl, h.linked, ?_⟩
    apply h.parted.imp_of_mem_imp
    intro left right hl hr unrelated
    have leftNe := h.nonempty left hl
    have rightNe := h.nonempty right hr
    exact ⟨leftNe, rightNe, unrelated _ (List.getLast_mem_getLast? leftNe) _ (List.head_mem_head? rightNe)⟩
  · rintro ⟨flatten, nonempty, linked, parted⟩
    refine ⟨flatten.symm, fun piece member empty => nonempty (empty ▸ member), linked, parted.imp ?_⟩
    rintro left right ⟨leftNe, rightNe, unrelated⟩ last hl first hf
    rw [List.getLast?_eq_getLast_of_ne_nil leftNe] at hl
    rw [List.head?_eq_some_head rightNe] at hf
    cases hl
    cases hf
    exact unrelated

theorem single (leads : Placement → Placement → Bool) (first : Placement) : Decomposes leads [first] [[first]] := by
  refine ⟨rfl, ?_, ?_, .singleton _⟩
  · rintro _ member empty
    simp [empty] at member
  · intro piece member
    rw [List.mem_singleton.mp member]
    exact .singleton first

theorem extend (h : Decomposes leads placements (rows ++ [row])) (hl : row.getLast? = some last)
    (onward : leads last next = true) : Decomposes leads (placements ++ [next]) (rows ++ [row ++ [next]]) := by
  obtain ⟨flatten, nonempty, linked, parted⟩ := h
  simp only [List.forall_mem_append, List.forall_mem_singleton] at nonempty linked
  rw [List.isChain_append] at parted
  refine ⟨?_, ?_, ?_, ?_⟩
  · rw [← flatten]
    simp
  · simp only [List.forall_mem_append, List.forall_mem_singleton]
    exact ⟨nonempty.1, by simp⟩
  · simp only [List.forall_mem_append, List.forall_mem_singleton]
    refine ⟨linked.1, linked.2.append (.singleton next) ?_⟩
    intro a ha b hb
    rw [hl] at ha
    cases ha
    cases hb
    exact onward
  · refine List.isChain_append.mpr ⟨parted.1, .singleton _, ?_⟩
    -- the row still begins as it did
    intro left hleft right hright
    cases hright
    rw [List.head?_append_of_ne_nil row nonempty.2]
    exact parted.2.2 left hleft row rfl

theorem cut (h : Decomposes leads placements (rows ++ [row])) (hl : row.getLast? = some last)
    (unrelated : leads last next = false) : Decomposes leads (placements ++ [next]) (rows ++ [row] ++ [[next]]) := by
  obtain ⟨flatten, nonempty, linked, parted⟩ := h
  have alone := single leads next
  refine ⟨?_, ?_, ?_, ?_⟩
  · rw [List.flatten_append, flatten, alone.flatten_eq]
  · exact List.forall_mem_append.mpr ⟨nonempty, alone.nonempty⟩
  · exact List.forall_mem_append.mpr ⟨linked, alone.linked⟩
  · refine List.isChain_append.mpr ⟨parted, alone.parted, ?_⟩
    intro left hleft right hright p hp q hq
    rw [List.getLast?_concat] at hleft
    cases hleft
    cases hright
    rw [hl] at hp
    cases hp
    cases hq
    exact unrelated

end Decomposes

/-- The runs that are closed, and the row that is open; there is none before the first placement. -/
structure Cutting where
  closed : List Run := []
  row : List Placement := []

namespace Cutting

def close (gapWeight : Float) (source : Nat) (cutting : Cutting) : Except Run.Malformed Cutting := do
  let run ← Run.ofPlacements? gapWeight source cutting.row
  return { closed := cutting.closed ++ [run] }

def take (leads : Placement → Placement → Bool) (gapWeight : Float) (source : Nat) (cutting : Cutting)
    (next : Placement) : Except Run.Malformed Cutting := do
  let cutting ← match cutting.row.getLast? with
    | some last => if leads last next then pure cutting else cutting.close gapWeight source
    | none => pure cutting
  return { cutting with row := cutting.row ++ [next] }

def finish (gapWeight : Float) (source : Nat) (cutting : Cutting) : Except Run.Malformed Cutting :=
  if cutting.row.isEmpty then .ok cutting else cutting.close gapWeight source

end Cutting

def cutRuns? (leads : Placement → Placement → Bool) (gapWeight : Float) (source : Nat) (placements : List Placement) :
    Except Run.Malformed (List Run) := do
  let cutting ← placements.foldlM (Cutting.take leads gapWeight source) {}
  let cutting ← cutting.finish gapWeight source
  return cutting.closed

namespace Cutting

structure Divides (leads : Placement → Placement → Bool) (gapWeight : Float) (source : Nat) (cutting : Cutting)
    (taken : List Placement) (rows : List (List Placement)) : Prop where
  made : cutting.closed = rows.map (Run.ofPlacements gapWeight source)
  pieces : Decomposes leads taken (rows ++ [cutting.row])

variable {cutting : Cutting} {taken : List Placement} {rows : List (List Placement)}

theorem Divides.row_ne (h : cutting.Divides leads gapWeight source taken rows) : cutting.row ≠ [] :=
  h.pieces.nonempty _ (List.mem_append_right _ (List.mem_singleton_self _))

theorem Divides.close (h : cutting.Divides leads gapWeight source taken rows) :
    cutting.close gapWeight source =
      .ok { closed := (rows ++ [cutting.row]).map (Run.ofPlacements gapWeight source) } := by
  simp only [Cutting.close, Run.ofPlacements?, List.isEmpty_eq_false_iff.mpr h.row_ne, h.made, List.map_append]
  rfl

theorem Divides.take (h : cutting.Divides leads gapWeight source taken rows) (next : Placement) :
    ∃ after rows', cutting.take leads gapWeight source next = .ok after ∧
      after.Divides leads gapWeight source (taken ++ [next]) rows' := by
  have hl := List.getLast?_eq_getLast_of_ne_nil h.row_ne
  cases onward : leads (cutting.row.getLast h.row_ne) next with
  | true =>
    refine ⟨{ cutting with row := cutting.row ++ [next] }, rows, ?_, h.made, h.pieces.extend hl onward⟩
    simp only [Cutting.take, hl, onward]
    rfl
  | false =>
    refine ⟨⟨(rows ++ [cutting.row]).map (Run.ofPlacements gapWeight source), [next]⟩, rows ++ [cutting.row], ?_, rfl,
      h.pieces.cut hl onward⟩
    simp only [Cutting.take, hl, onward, h.close]
    rfl

theorem Divides.foldlM (h : cutting.Divides leads gapWeight source taken rows) (rest : List Placement) :
    ∃ after rows', rest.foldlM (Cutting.take leads gapWeight source) cutting = .ok after ∧
      after.Divides leads gapWeight source (taken ++ rest) rows' := by
  induction rest generalizing cutting taken rows with
  | nil => exact ⟨cutting, rows, rfl, by rwa [List.append_nil]⟩
  | cons next rest ih =>
    obtain ⟨between, _, step, divides⟩ := h.take next
    obtain ⟨after, rows', onward, divides⟩ := ih divides
    rw [List.append_assoc] at divides
    exact ⟨after, rows', by rw [List.foldlM_cons, step]; exact onward, divides⟩

theorem divides_first (leads : Placement → Placement → Bool) (gapWeight : Float) (source : Nat) (first : Placement) :
    ({ row := [first] } : Cutting).Divides leads gapWeight source [first] [] :=
  ⟨rfl, .single leads first⟩

end Cutting

theorem cutRuns?_eq (leads : Placement → Placement → Bool) (gapWeight : Float) (source : Nat)
    (placements : List Placement) :
    cutRuns? leads gapWeight source placements =
      .ok ((placements.splitBy leads).map (Run.ofPlacements gapWeight source)) := by
  cases placements with
  | nil => rfl
  | cons first rest =>
    obtain ⟨cutting, rows, taken, divides⟩ := (Cutting.divides_first leads gapWeight source first).foldlM rest
    have whole : (first :: rest).splitBy leads = rows ++ [cutting.row] := Decomposes.iff_splitBy.mp divides.pieces
    have finished : cutting.finish gapWeight source = cutting.close gapWeight source := by
      rw [Cutting.finish, List.isEmpty_eq_false_iff.mpr divides.row_ne]
      rfl
    have loop : (first :: rest).foldlM (Cutting.take leads gapWeight source) {} = .ok cutting := taken
    rw [cutRuns?, loop, whole]
    simp only [bind, Except.bind, finished, divides.close]
    rfl

/-- The test in words, whose sums go round at sixty-four bits. -/
def Word.leadsTo (last next : Placement) : Bool :=
  (last.sector + sectorsPerBlock) % wordLimit = next.sector &&
    last.blocks.any fun block => next.blocks.contains ((block + 1) % wordLimit)

def Placement.HasNext (placement : Placement) : Prop :=
  placement.sector + sectorsPerBlock < wordLimit ∧ ∀ block ∈ placement.blocks, block + 1 < wordLimit

instance (placement : Placement) : Decidable placement.HasNext := inferInstanceAs (Decidable (_ ∧ _))

theorem Word.leadsTo_eq {last : Placement} (h : last.HasNext) (next : Placement) :
    Word.leadsTo last next = last.leadsTo next := by
  obtain ⟨sector, blocks⟩ := h
  have steps : (last.blocks.any fun block => next.blocks.contains ((block + 1) % wordLimit)) =
      stepsInto last.blocks next.blocks := by
    rw [stepsInto, Bool.eq_iff_iff, List.any_eq_true, List.any_eq_true]
    refine exists_congr fun block => and_congr_right fun member => ?_
    rw [Nat.mod_eq_of_lt (blocks block member)]
  rw [Word.leadsTo, Placement.leadsTo, Nat.mod_eq_of_lt sector, steps]

theorem cutRuns?_congr {other : Placement → Placement → Bool} {bucket : List Placement}
    (same : ∀ last ∈ bucket, ∀ next, leads last next = other last next) :
    cutRuns? leads gapWeight source bucket = cutRuns? other gapWeight source bucket := by
  have division : Decomposes other bucket (bucket.splitBy leads) := by
    obtain ⟨flatten, nonempty, linked, parted⟩ := Decomposes.iff_splitBy.mpr (rfl : bucket.splitBy leads = _)
    have inside : ∀ piece ∈ bucket.splitBy leads, ∀ placement ∈ piece, placement ∈ bucket :=
      fun piece member placement listed => flatten ▸ List.mem_flatten_of_mem member listed
    refine ⟨flatten, nonempty, fun piece member => ?_, ?_⟩
    · refine (linked piece member).imp_of_mem_imp fun last next hl _ onward => ?_
      rwa [← same last (inside piece member last hl)]
    · refine parted.imp_of_mem_imp fun left right hl _ unrelated last ends first begins => ?_
      rw [← same last (inside left hl last (List.mem_of_getLast? ends))]
      exact unrelated last ends first begins
  rw [cutRuns?_eq, cutRuns?_eq, Decomposes.iff_splitBy.mp division]

/-- Whatever the test, the loop gives the one division of the bucket that it allows. With the test of the search these
are its runs, and sums that go round give the same wherever none does. -/
theorem chainRuns_unique_division (gapWeight : Float) (source : Nat) (bucket : List Placement) :
    (∀ leads, ∃ runs, cutRuns? leads gapWeight source bucket = .ok runs ∧
        (∀ run ∈ runs, Run.ofPlacements? gapWeight source run.placements = .ok run) ∧
        ∀ pieces, Decomposes leads bucket pieces ↔ pieces = runs.map Run.placements) ∧
      cutRuns? Placement.leadsTo gapWeight source bucket = .ok (chainRuns gapWeight source bucket) ∧
      (∀ pieces, Decomposes Placement.leadsTo bucket pieces ↔
        pieces = (chainRuns gapWeight source bucket).map Run.placements) ∧
      ((∀ placement ∈ bucket, placement.HasNext) →
        cutRuns? Word.leadsTo gapWeight source bucket = .ok (chainRuns gapWeight source bucket)) := by
  have divided (leads : Placement → Placement → Bool) (pieces : List (List Placement)) :
      Decomposes leads bucket pieces ↔
        pieces = ((bucket.splitBy leads).map (Run.ofPlacements gapWeight source)).map Run.placements := by
    rw [List.map_map, Decomposes.iff_splitBy, eq_comm]
    exact iff_of_eq (congrArg _ (List.map_id _).symm)
  refine ⟨fun leads => ⟨_, cutRuns?_eq leads gapWeight source bucket, ?_, divided leads⟩, cutRuns?_eq _ _ _ _,
    divided Placement.leadsTo, fun next => ?_⟩
  · intro run member
    obtain ⟨row, cut, rfl⟩ := List.mem_map.mp member
    have filled : row.isEmpty = false := List.isEmpty_eq_false_iff.mpr (List.ne_nil_of_mem_splitBy cut)
    simp only [Run.ofPlacements?, Run.ofPlacements, filled]
    rfl
  · rw [cutRuns?_congr fun last member => Word.leadsTo_eq (next last member)]
    exact cutRuns?_eq _ _ _ _

def parted : List Placement := [⟨0, [1, 5], .hash 1⟩, ⟨8, [2], .hash 1⟩, ⟨16, [7], .hash 1⟩, ⟨32, [8], .hash 1⟩]

theorem chainRuns_unique_division_parted :
    (∀ placement ∈ parted, placement.HasNext) ∧
      cutRuns? Word.leadsTo 0.25 1 parted = .ok (chainRuns 0.25 1 parted) ∧
      (chainRuns 0.25 1 parted).map Run.length = [2, 1, 1] := by
  have next : ∀ placement ∈ parted, placement.HasNext := by decide
  exact ⟨next, (chainRuns_unique_division 0.25 1 parted).2.2.2 next, by decide⟩

/-- At the end of the words a sum that goes round leads on, where an unbounded one does not. -/
example : (cutRuns? Word.leadsTo 0.25 1 [⟨wordLimit - 8, [0], .hash 1⟩, ⟨0, [1], .hash 1⟩]).map (·.map Run.length) =
      .ok [2] ∧
    (chainRuns 0.25 1 [⟨wordLimit - 8, [0], .hash 1⟩, ⟨0, [1], .hash 1⟩]).map Run.length = [1, 1] := ⟨rfl, by decide⟩

end FragmentSearch
