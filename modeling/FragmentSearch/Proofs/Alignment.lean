import Mathlib.Data.List.Chain
import FragmentSearch.Run

namespace FragmentSearch

theorem stepsInto_iff {earlier later : List Nat} :
    stepsInto earlier later = true ↔ ∃ block ∈ earlier, block + 1 ∈ later := by
  simp [stepsInto]

namespace Placement

def Adjoins (a b : Placement) : Prop := a.sector + sectorsPerBlock = b.sector

theorem leadsTo_iff {a b : Placement} : a.leadsTo b = true ↔ a.Adjoins b ∧ stepsInto a.blocks b.blocks = true := by
  simp [leadsTo, Adjoins]

theorem Adjoins.alignment_eq {a b : Placement} (h : a.Adjoins b) : alignment b.sector = alignment a.sector := by
  rw [← h, alignment_add_block]

theorem alignment_eq_head {first : Placement} {rest : List Placement} (h : (first :: rest).IsChain Adjoins) :
    ∀ p ∈ first :: rest, alignment p.sector = alignment first.sector := by
  induction rest generalizing first with
  | nil => simp
  | cons second rest ih =>
    obtain ⟨hs, ht⟩ := List.isChain_cons_cons.mp h
    intro p member
    rcases List.mem_cons.mp member with rfl | member
    · rfl
    · rw [ih ht p member, hs.alignment_eq]

theorem sector_getLast {first : Placement} {rest : List Placement} (h : (first :: rest).IsChain Adjoins) :
    ((first :: rest).getLast (List.cons_ne_nil _ _)).sector = first.sector + rest.length * sectorsPerBlock := by
  induction rest generalizing first with
  | nil => simp
  | cons second rest ih =>
    obtain ⟨hs, ht⟩ := List.isChain_cons_cons.mp h
    rw [List.getLast_cons_cons, ih ht, ← hs, List.length_cons, Nat.succ_mul]
    omega

end Placement

namespace Run

theorem physicalStart_eq {run : Run} {first : Placement} (h : run.placements.head? = some first) :
    run.physicalStart = first.sector := by
  simp [physicalStart, h]

theorem physicalEnd_eq {run : Run} {last : Placement} (h : run.placements.getLast? = some last) :
    run.physicalEnd = last.sector := by
  simp [physicalEnd, h]

structure Aligned (run : Run) : Prop where
  ne_nil : run.placements ≠ []
  steps : run.placements.IsChain Placement.Adjoins

variable {run : Run}

theorem Aligned.end_eq (h : run.Aligned) :
    run.physicalEnd = run.physicalStart + (run.length - 1) * sectorsPerBlock := by
  obtain ⟨first, rest, hp⟩ := List.exists_cons_of_ne_nil h.ne_nil
  have steps := h.steps
  rw [hp] at steps
  have head : run.placements.head? = some first := by rw [hp]; rfl
  have tail : run.placements.getLast? = some ((first :: rest).getLast (List.cons_ne_nil _ _)) := by
    rw [hp]; exact List.getLast?_eq_getLast_of_ne_nil _
  rw [physicalStart_eq head, physicalEnd_eq tail, Placement.sector_getLast steps, length, hp]
  rfl

theorem Aligned.start_le_end (h : run.Aligned) : run.physicalStart ≤ run.physicalEnd := by
  rw [h.end_eq]
  exact Nat.le_add_right _ _

theorem Aligned.alignment_eq (h : run.Aligned) :
    ∀ p ∈ run.placements, FragmentSearch.alignment p.sector = run.alignment := by
  obtain ⟨first, rest, hp⟩ := List.exists_cons_of_ne_nil h.ne_nil
  have steps := h.steps
  have head : run.placements.head? = some first := by rw [hp]; rfl
  rw [hp] at steps ⊢
  rw [alignment, physicalStart_eq head]
  exact Placement.alignment_eq_head steps

theorem Aligned.alignment_end (h : run.Aligned) : FragmentSearch.alignment run.physicalEnd = run.alignment := by
  have tail := List.getLast?_eq_getLast_of_ne_nil h.ne_nil
  rw [physicalEnd_eq tail]
  exact h.alignment_eq _ (List.getLast_mem h.ne_nil)

end Run

theorem headD_mem {blocks : List Nat} (h : blocks ≠ []) : blocks.headD 0 ∈ blocks := by
  obtain ⟨block, rest, rfl⟩ := List.exists_cons_of_ne_nil h
  simp

theorem find?_getD_headD_mem {blocks : List Nat} (p : Nat → Bool) (h : blocks ≠ []) :
    (blocks.find? p).getD (blocks.headD 0) ∈ blocks := by
  cases hf : blocks.find? p with
  | none => exact headD_mem h
  | some block => exact List.mem_of_find?_eq_some hf

theorem firstBlock_mem {first : Placement} {rest : List Placement} (h : first.blocks ≠ []) :
    firstBlock (first :: rest) ∈ first.blocks := by
  cases rest with
  | nil => exact headD_mem h
  | cons second rest => exact find?_getD_headD_mem _ h

theorem lastBlock_mem {last : Placement} {before : List Placement} (h : last.blocks ≠ []) :
    lastBlock (last :: before) ∈ last.blocks := by
  cases before with
  | nil => exact headD_mem h
  | cons previous before => exact find?_getD_headD_mem _ h

end FragmentSearch
