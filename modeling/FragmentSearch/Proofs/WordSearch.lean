import FragmentSearch.Report.Row
import FragmentSearch.Proofs.WordAddresses

/-!
The search in words. Every sum, product and difference of sectors, blocks and offsets is computed in sixty-four bits,
and where one does not fit or goes below zero there is no result at all. The main statement is that the search of what
two streams tell always has its result, the same one that unbounded numbers give.
-/

namespace FragmentSearch.Word

def sum? (a b : Nat) : Option Nat := if a + b < wordLimit then some (a + b) else none

def product? (a b : Nat) : Option Nat := if a * b < wordLimit then some (a * b) else none

def difference? (a b : Nat) : Option Nat := if b ≤ a then some (a - b) else none

def stepsInto? (earlier later : List Nat) : Option Bool :=
  earlier.anyM fun block => return later.contains (← sum? block 1)

def leadsTo? (last next : Placement) : Option Bool := do
  if (← sum? last.sector sectorsPerBlock) = next.sector then stepsInto? last.blocks next.blocks else return false

/-- Goes through a row behind `last`; the chain that `last` is in so far is in reverse, and so are the chains before
it. -/
def chainsFrom? (last : Placement) (chain : List Placement) (closed : List (List Placement)) :
    List Placement → Option (List (List Placement))
  | [] => some ((last :: chain).reverse :: closed).reverse
  | next :: rest => do
    if ← leadsTo? last next then chainsFrom? next (last :: chain) closed rest
    else chainsFrom? next [] ((last :: chain).reverse :: closed) rest

def chains? : List Placement → Option (List (List Placement))
  | [] => some []
  | first :: rest => chainsFrom? first [] [] rest

def leftBlock? (earlier later : List Nat) : Option (Option Nat) :=
  earlier.findM? fun block => return later.contains (← sum? block 1)

def enteredBlock? (earlier later : List Nat) : Option (Option Nat) :=
  later.findM? fun block => do
    if 0 < block then return earlier.contains (← difference? block 1) else return false

def firstBlock? : List Placement → Option Nat
  | [] => some 0
  | [only] => some (only.blocks.headD 0)
  | first :: second :: _ => return (← leftBlock? first.blocks second.blocks).getD (first.blocks.headD 0)

def lastBlock? : List Placement → Option Nat
  | [] => some 0
  | [only] => some (only.blocks.headD 0)
  | last :: previous :: _ => return (← enteredBlock? previous.blocks last.blocks).getD (last.blocks.headD 0)

def ofPlacements? (gapWeight : Float) (source : Nat) (placements : List Placement) : Option Run := do
  let logicalStart ← firstBlock? placements
  let logicalEnd ← lastBlock? placements.reverse
  return { source, placements, score := .total (placements.map (Placement.weight gapWeight)), logicalStart, logicalEnd }

def candidateRuns? (search : Search) (source : Nat) : Option (List Run) := do
  let rows ← (search.gather source).mapM chains?
  rows.flatten.mapM (ofPlacements? search.settings.nullGapWeight source)

def gapBetween? (maxGap : Nat) (a b : Run) : Option (Option Nat) :=
  if a.isEmpty || b.isEmpty || a.source ≠ b.source || a.alignment ≠ b.alignment then some none
  else if b.physicalStart ≤ a.physicalEnd || b.logicalStart ≤ a.logicalStart then some none
  else do
    let physical ← difference? b.physicalStart a.physicalStart
    let logical ← difference? b.logicalStart a.logicalStart
    if product? logical sectorsPerBlock ≠ some physical then return none
    let apart ← difference? b.physicalStart a.physicalEnd
    let gap ← difference? (apart / sectorsPerBlock) 1
    if sum? a.logicalEnd (← sum? gap 1) ≠ some b.logicalStart || maxGap < gap then return none
    return some gap

def blockIsNull? (image : Image) (sector : Nat) : Option (Except ReadFault Bool) := do
  let offset ← product? sector sectorSize
  return (image.read offset blockSize).map isAllNull

def gapSector? (run : Run) (k : Nat) : Option Nat := do sum? run.physicalEnd (← product? k sectorsPerBlock)

def checkGap? (image : Image) (run : Run) : List Nat → Option GapCheck
  | [] => some ⟨[], none⟩
  | k :: rest => do
    let sector ← gapSector? run k
    match ← blockIsNull? image sector with
    | .ok true =>
      let rest ← checkGap? image run rest
      return ⟨sector :: rest.reads, rest.obstacle⟩
    | .ok false => return ⟨[sector], some (.notNull sector)⟩
    | .error fault => return ⟨[sector], some (.unreadable fault)⟩

def gapAfter? (run : Run) (gap : Nat) : Option (List Placement) :=
  (List.range' 1 gap).mapM fun k => return .gap (← gapSector? run k) (← sum? run.logicalEnd k)

def tryJoin? (settings : Settings) (image : Image) (a b : Run) : Option (Option Run) := do
  match ← gapBetween? settings.maxGapBlocks a b with
  | none => return none
  | some gap =>
    match (← checkGap? image a (List.range' 1 gap)).obstacle with
    | some _ => return none
    | none =>
      let between ← gapAfter? a gap
      return some
        { source := a.source
          placements := a.placements ++ between ++ b.placements
          score := .joined a.score b.score gap settings.nullGapWeight
          logicalStart := a.logicalStart
          logicalEnd := b.logicalEnd }

def mergeFrom? (settings : Settings) (image : Image) (previous : Run) : List Run → Option (List Run)
  | [] => some [previous]
  | run :: rest => do
    match ← tryJoin? settings image previous run with
    | some joined => mergeFrom? settings image joined rest
    | none => return previous :: (← mergeFrom? settings image run rest)

def merged? (settings : Settings) (image : Option Image) (runs : List Run) : Option (List Run) :=
  match image with
  | none => some runs
  | some image =>
    match sorted Run.atMost runs with
    | [] => some []
    | first :: rest => mergeFrom? settings image first rest

def find? (search : Search) (image : Option Image) : Option (List Run) := do
  let found ← search.catalog.ranked.mapM fun source => do
    let runs ← merged? search.settings image (← candidateRuns? search source)
    return runs.filter search.settings.keeps
  return found.flatten

def lookup? (layout : Layout) (sector : Nat) : Option (Except LayoutFault (Option Occupant)) :=
  (product? sector sectorSize).map layout.lookupAt

def row? (catalog : Catalog) (layout : Option Layout) (run : Run) : Option Row :=
  match layout with
  | none => some (catalog.row none run)
  | some layout => do
    let found ← lookup? layout run.physicalStart
    return catalog.row (some fun _ => found) run

def report? (catalog : Catalog) (layout : Option Layout) (runs : List Run) : Option (List Row) := do
  return sorted (Catalog.rowAtMost catalog.ranked) (← runs.mapM (row? catalog layout))

section Arithmetic

variable {a b c : Nat}

theorem sum?_eq (h : a + b < wordLimit) : sum? a b = some (a + b) := if_pos h

theorem product?_eq (h : a * b < wordLimit) : product? a b = some (a * b) := if_pos h

theorem difference?_eq (h : b ≤ a) : difference? a b = some (a - b) := if_pos h

theorem sum?_eq_some_iff (h : c < wordLimit) : sum? a b = some c ↔ a + b = c := by
  rw [sum?, Option.ite_none_right_eq_some, Option.some.injEq]
  exact ⟨And.right, fun same => ⟨same ▸ h, same⟩⟩

theorem product?_eq_some_iff (h : c < wordLimit) : product? a b = some c ↔ a * b = c := by
  rw [product?, Option.ite_none_right_eq_some, Option.some.injEq]
  exact ⟨And.right, fun same => ⟨same ▸ h, same⟩⟩

end Arithmetic

section Lists

variable {α β : Type} {list : List α}

theorem anyM_eq_some {p? : α → Option Bool} {p : α → Bool} (h : ∀ a ∈ list, p? a = some (p a)) :
    list.anyM p? = some (list.any p) := by
  induction list with
  | nil => rfl
  | cons a rest ih =>
    obtain ⟨first, others⟩ := List.forall_mem_cons.mp h
    rw [List.anyM, first, List.any_cons, ih others]
    cases p a <;> rfl

theorem findM?_eq_some {p? : α → Option Bool} {p : α → Bool} (h : ∀ a ∈ list, p? a = some (p a)) :
    list.findM? p? = some (list.find? p) := by
  induction list with
  | nil => rfl
  | cons a rest ih =>
    obtain ⟨first, others⟩ := List.forall_mem_cons.mp h
    rw [List.findM?, first, List.find?_cons, ih others]
    cases p a <;> rfl

end Lists

section Chains

variable {last next : Placement} {earlier later : List Nat}

theorem sum?_block (h : ∀ block ∈ earlier, block * blockSize < wordLimit) :
    ∀ block ∈ earlier, sum? block 1 = some (block + 1) := by
  intro block member
  have address := h block member
  apply sum?_eq
  simp only [blockSize, wordLimit] at address ⊢
  omega

theorem leadsTo?_eq (h : last.Addressable) : leadsTo? last next = some (last.leadsTo next) := by
  have sector : sum? last.sector sectorsPerBlock = some (last.sector + sectorsPerBlock) := by
    have address := h.sector
    apply sum?_eq
    simp only [sectorSize, sectorsPerBlock, wordLimit] at address ⊢
    omega
  have steps : stepsInto? last.blocks next.blocks = some (stepsInto last.blocks next.blocks) := by
    apply anyM_eq_some
    intro block member
    rw [sum?_block h.block block member]
    rfl
  rw [leadsTo?, sector, Placement.leadsTo, steps]
  by_cases adjoins : last.sector + sectorsPerBlock = next.sector <;> simp [adjoins]

example : leadsTo? ⟨wordLimit - 8, [0], .hash 1⟩ ⟨0, [1], .hash 1⟩ = none := by decide

theorem chainsFrom?_eq {rest chain : List Placement} {closed : List (List Placement)}
    (h : ∀ p ∈ last :: rest, p.Addressable) :
    chainsFrom? last chain closed rest = some (List.splitBy.loop Placement.leadsTo rest last chain closed) := by
  induction rest generalizing last chain closed with
  | nil => rfl
  | cons next rest ih =>
    obtain ⟨first, others⟩ := List.forall_mem_cons.mp h
    rw [chainsFrom?, leadsTo?_eq first, List.splitBy.loop]
    cases last.leadsTo next with
    | true => exact ih others
    | false => exact ih others

theorem chains?_eq {row : List Placement} (h : ∀ p ∈ row, p.Addressable) : chains? row = some (chains row) := by
  cases row with
  | nil => rfl
  | cons first rest => exact chainsFrom?_eq h

theorem firstBlock?_eq {row : List Placement} (h : ∀ p ∈ row, p.Addressable) :
    firstBlock? row = some (firstBlock row) := by
  match row with
  | [] => rfl
  | [only] => rfl
  | first :: second :: rest =>
    have found : leftBlock? first.blocks second.blocks = some (stepFrom? first.blocks second.blocks) := by
      apply findM?_eq_some
      intro block member
      rw [sum?_block (h first List.mem_cons_self).block block member]
      rfl
    rw [firstBlock?, found]
    rfl

theorem enteredBlock?_eq (earlier later : List Nat) : enteredBlock? earlier later = some (stepTo? earlier later) := by
  apply findM?_eq_some
  intro block _
  by_cases positive : 0 < block
  · rw [difference?_eq positive]
    simp [positive]
  · simp [positive]

theorem lastBlock?_eq (row : List Placement) : lastBlock? row = some (lastBlock row) := by
  match row with
  | [] => rfl
  | [only] => rfl
  | last :: previous :: rest =>
    rw [lastBlock?, enteredBlock?_eq]
    rfl

theorem ofPlacements?_eq {row : List Placement} (h : ∀ p ∈ row, p.Addressable) (gapWeight : Float) (source : Nat) :
    ofPlacements? gapWeight source row = some (.ofPlacements gapWeight source row) := by
  rw [ofPlacements?, firstBlock?_eq h, lastBlock?_eq]
  rfl

theorem candidateRuns?_eq {search : Search} {source : Nat} (h : ∀ p ∈ search.placements source, p.Addressable) :
    candidateRuns? search source = some (search.candidateRuns source) := by
  have cut : (search.gather source).mapM chains? = some ((search.gather source).map chains) := by
    apply mapM_eq_some
    intro bucket gathered
    exact chains?_eq fun p member => h p (Search.mem_gather.mp (List.mem_flatten.mpr ⟨bucket, gathered, member⟩))
  have made : ((search.gather source).map chains).flatten.mapM
        (ofPlacements? search.settings.nullGapWeight source) =
      some (((search.gather source).map chains).flatten.map
        (Run.ofPlacements search.settings.nullGapWeight source)) := by
    apply mapM_eq_some
    intro row member
    obtain ⟨rows, listed, cut⟩ := List.mem_flatten.mp member
    obtain ⟨bucket, gathered, rfl⟩ := List.mem_map.mp listed
    exact ofPlacements?_eq (fun p member => h p (Search.mem_row gathered cut member)) _ _
  rw [candidateRuns?, cut, Option.bind_eq_bind, Option.bind_some, made, Search.candidateRuns, List.map_flatten,
    List.map_map, ← List.flatMap_def]
  rfl

end Chains

section Gaps

variable {a b : Run} {settings : Settings} {image : Image} {gap maxGap : Nat}

theorem gapBetween?_eq (ha : a.InWords) (hb : b.InWords) :
    gapBetween? maxGap a b = some (gapBetween maxGap a b) := by
  rw [gapBetween?, gapBetween]
  split
  · rfl
  rename_i comparable
  split
  · rfl
  rename_i ordered
  simp only [Bool.or_eq_true, decide_eq_true_eq, not_or, Classical.not_not, Nat.not_le] at comparable ordered
  obtain ⟨-, classes⟩ := comparable
  obtain ⟨apart, forward⟩ := ordered
  have start : a.physicalStart ≤ b.physicalStart := ha.start_le_end.trans apart.le
  -- both runs are of one class, so the one begins at least a block behind the last sector of the other
  have block : 1 ≤ (b.physicalStart - a.physicalEnd) / sectorsPerBlock := by
    have same := ha.alignment_end.trans classes
    rw [Run.alignment] at same
    simp only [alignment, sectorsPerBlock] at same ⊢
    omega
  have sector := lt_of_address hb.physicalStart_lt (by decide)
  have physical : b.physicalStart - a.physicalStart < wordLimit := Nat.lt_of_le_of_lt (Nat.sub_le _ _) sector
  have onward : (b.physicalStart - a.physicalEnd) / sectorsPerBlock - 1 + 1 < wordLimit := by
    rw [Nat.sub_add_cancel block]
    exact Nat.lt_of_le_of_lt ((Nat.div_le_self _ _).trans (Nat.sub_le _ _)) sector
  simp only [difference?_eq start, difference?_eq forward.le, difference?_eq apart.le, difference?_eq block,
    sum?_eq onward, ne_eq, product?_eq_some_iff physical, sum?_eq_some_iff hb.logicalStart_lt, Option.bind_eq_bind,
    Option.bind_some]
  split
  · rfl
  · split <;> rfl

theorem gapSector?_eq (ha : a.InWords) (hb : b.InWords) (t : a.Tiles maxGap b gap) {k : Nat} (hk : k ≤ gap) :
    gapSector? a k = some (a.physicalEnd + k * sectorsPerBlock) ∧
      (a.physicalEnd + k * sectorsPerBlock) * sectorSize < wordLimit := by
  have before := t.sector_le ha.toAligned hk
  have address := Nat.lt_of_le_of_lt (Nat.mul_le_mul_right sectorSize before) hb.physicalStart_lt
  have sector := lt_of_address address (by decide)
  refine ⟨?_, address⟩
  rw [gapSector?, product?_eq (Nat.lt_of_le_of_lt (Nat.le_add_left _ _) sector), Option.bind_eq_bind, Option.bind_some,
    sum?_eq sector]

theorem blockIsNull?_eq {sector : Nat} (h : sector * sectorSize < wordLimit) :
    blockIsNull? image sector = some (image.blockIsNull sector) := by
  rw [blockIsNull?, product?_eq h]
  rfl

theorem checkGap?_eq {first count : Nat}
    (inRange : ∀ k ∈ List.range' first count, gapSector? a k = some (a.physicalEnd + k * sectorsPerBlock) ∧
      (a.physicalEnd + k * sectorsPerBlock) * sectorSize < wordLimit) :
    checkGap? image a (List.range' first count) =
      some (checkGap image (a.physicalEnd + first * sectorsPerBlock) count) := by
  induction count generalizing first with
  | zero => rfl
  | succ count ih =>
    rw [List.range'_succ] at inRange ⊢
    obtain ⟨⟨sector, address⟩, others⟩ := List.forall_mem_cons.mp inRange
    have rest := ih others
    rw [Nat.succ_mul, ← Nat.add_assoc] at rest
    simp only [checkGap?, checkGap, sector, blockIsNull?_eq address, rest, Option.bind_eq_bind, Option.bind_some]
    cases image.blockIsNull (a.physicalEnd + first * sectorsPerBlock) with
    | error fault => rfl
    | ok null => cases null <;> rfl

theorem gapAfter?_eq (ha : a.InWords) (hb : b.InWords) (t : a.Tiles maxGap b gap) :
    gapAfter? a gap = some (a.gapAfter gap) := by
  apply mapM_eq_some
  intro k inside
  have le : k ≤ gap := by
    have := List.mem_range'_1.mp inside
    omega
  have block : a.logicalEnd + k < wordLimit := by
    have address := hb.logicalStart_lt
    have onward := t.adjoins
    omega
  rw [(gapSector?_eq ha hb t le).1, sum?_eq block]
  rfl

theorem tryJoin?_eq (ha : a.InWords) (hb : b.InWords) :
    tryJoin? settings image a b = some (tryJoin settings image a b).joined := by
  rw [tryJoin?, gapBetween?_eq ha hb, tryJoin, Option.bind_eq_bind, Option.bind_some]
  cases found : gapBetween settings.maxGapBlocks a b with
  | none => rfl
  | some gap =>
    have tiles := gapBetween_eq_some.mp found
    have checked : checkGap? image a (List.range' 1 gap) =
        some (checkGap image (a.physicalEnd + sectorsPerBlock) gap) := by
      rw [checkGap?_eq fun k inside => gapSector?_eq ha hb tiles (by have := List.mem_range'_1.mp inside; omega),
        Nat.one_mul]
    simp only [checked, Option.bind_eq_bind, Option.bind_some, gapAfter?_eq ha hb tiles]
    cases (checkGap image (a.physicalEnd + sectorsPerBlock) gap).obstacle <;> rfl

theorem mergeFrom?_eq {previous : Run} {rest : List Run} (h : ∀ run ∈ previous :: rest, run.InWords) :
    mergeFrom? settings image previous rest = some (mergeFrom (tryJoin settings image) previous rest).runs := by
  induction rest generalizing previous with
  | nil => rfl
  | cons next rest ih =>
    obtain ⟨here, others⟩ := List.forall_mem_cons.mp h
    obtain ⟨there, behind⟩ := List.forall_mem_cons.mp others
    rw [mergeFrom?, tryJoin?_eq here there, Option.bind_eq_bind, Option.bind_some]
    cases found : (tryJoin settings image previous next).joined with
    | none =>
      rw [mergeFrom_apart found, ih others]
      rfl
    | some joined =>
      obtain ⟨gap, tiles, -, rfl⟩ := tryJoin_joined.mp found
      rw [mergeFrom_joined found]
      exact ih (List.forall_mem_cons.mpr ⟨here.join _ there tiles, behind⟩)

theorem mergeRuns?_eq {runs : List Run} (h : ∀ run ∈ runs, run.InWords) :
    merged? settings (some image) runs = some (mergeRuns settings image runs).runs := by
  have ordered : ∀ run ∈ sorted Run.atMost runs, run.InWords := fun run member => h run (mem_sorted.mp member)
  rw [merged?, mergeRuns]
  cases inOrder : sorted Run.atMost runs with
  | nil => rfl
  | cons first rest => exact mergeFrom?_eq (inOrder ▸ ordered)

theorem merged?_eq {search : Search} {image : Option Image} {runs : List Run} (h : ∀ run ∈ runs, run.InWords) :
    merged? search.settings image runs = some (search.merged image runs).runs := by
  cases image with
  | none => rfl
  | some image => exact mergeRuns?_eq h

end Gaps

theorem find?_eq {search : Search}
    (placed : ∀ source, ∀ p ∈ search.placements source, p.Addressable ∧ p.blocks ≠ []) (image : Option Image) :
    find? search image = some (search.find image) := by
  have found : ∀ source ∈ search.catalog.ranked, (do
        let runs ← merged? search.settings image (← candidateRuns? search source)
        return runs.filter search.settings.keeps : Option (List Run)) =
      some ((search.merged image (search.candidateRuns source)).runs.filter search.settings.keeps) := by
    intro source _
    rw [candidateRuns?_eq fun p member => (placed source p member).1, Option.bind_eq_bind, Option.bind_some,
      merged?_eq fun run member => (Search.addressable_candidate (placed source) member).inWords]
    rfl
  rw [find?, mapM_eq_some found, Search.find_eq_flatMap, List.flatMap_def]
  rfl

theorem lookup?_eq {sector : Nat} (h : sector * sectorSize < wordLimit) (layout : Layout) :
    lookup? layout sector = some (layout.lookup sector) := by
  rw [lookup?, product?_eq h, Option.map_some, Layout.lookup]

theorem report?_eq {runs : List Run} (h : ∀ run ∈ runs, run.Addressable) (catalog : Catalog) (layout : Option Layout) :
    report? catalog layout runs = some (catalog.report (layout.map Layout.lookup) runs) := by
  have rows : runs.mapM (row? catalog layout) = some (runs.map (catalog.row (layout.map Layout.lookup))) := by
    apply mapM_eq_some
    intro run member
    cases layout with
    | none => rfl
    | some layout =>
      simp only [row?, lookup?_eq (h run member).start_lt.1, Option.bind_eq_bind, Option.bind_some, Option.map_some,
        Option.pure_def, Catalog.row, Run.occupant, Run.found]
  rw [report?, rows]
  rfl

theorem find_report_in_words (localSize : String → Nat) (policy : Policy) (settings : Settings)
    (associations observations : Feed) (image : Option Image) (layout : Option Layout) :
    let search := Search.ofFeeds localSize policy settings associations observations
    find? search image = some (search.find image) ∧
      report? search.catalog layout (search.find image) =
        some (search.catalog.report (layout.map Layout.lookup) (search.find image)) := by
  intro search
  have placed : ∀ source, ∀ p ∈ search.placements source, p.Addressable ∧ p.blocks ≠ [] := fun source p member =>
    ⟨Search.addressable_of_feeds localSize policy settings associations observations member,
      Search.blocks_ne_nil_of_load rfl member⟩
  exact ⟨find?_eq placed image, report?_eq (fun _ => Search.addressable_find placed) _ _⟩

end FragmentSearch.Word
