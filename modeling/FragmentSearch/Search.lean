import FragmentSearch.Run
import FragmentSearch.Decimal.Written
import FragmentSearch.Gap
import FragmentSearch.Sightings

/-!
The search: for every candidate source the sightings of its hashes are placed in the file, cut into
runs, joined across null gaps if there is an image, and kept if they are distinctive enough.
-/

namespace FragmentSearch

structure Search where
  catalog : Catalog
  sightings : Sightings
  settings : Settings

structure Finding where
  source : Nat
  candidates : List Run
  merge : Merge
  kept : List Run

namespace Search

def placements (search : Search) (source : Nat) : List Placement :=
  (search.catalog.hashesOf source).flatMap fun hash =>
    match search.catalog.fileBlocks hash source, search.catalog.hashCount hash with
    | some blocks, some (count + 1) =>
      (search.sightings.sectorsOf hash).map fun sector => ⟨sector, blocks, .hash (count + 1)⟩
    | _, _ => []

def uncounted (search : Search) (source : Nat) : List (String × Nat) :=
  (search.catalog.hashesOf source).flatMap fun hash =>
    if search.catalog.hashCount hash = some 0 then (search.sightings.sectorsOf hash).map (hash, ·) else []

def gather (search : Search) (source : Nat) : List (List Placement) := alignedClasses (search.placements source)

def candidateRuns (search : Search) (source : Nat) : List Run :=
  (search.gather source).flatMap (chainRuns search.settings.nullGapWeight source)

def detect (search : Search) (source : Nat) : List Run :=
  (search.candidateRuns source).filter search.settings.keeps

def merged (search : Search) (image : Option Image) (runs : List Run) : Merge :=
  match image with
  | some image => mergeRuns search.settings image runs
  | none => ⟨runs, []⟩

def finding (search : Search) (image : Option Image) (source : Nat) : Finding :=
  let candidates := search.candidateRuns source
  let merge := search.merged image candidates
  { source, candidates, merge, kept := merge.runs.filter search.settings.keeps }

def findings (search : Search) (image : Option Image) : List Finding :=
  search.catalog.ranked.map (search.finding image)

def find (search : Search) (image : Option Image) : List Run := (search.findings image).flatMap (·.kept)

def reads (search : Search) (image : Option Image) : List Nat :=
  (search.findings image).flatMap fun finding => finding.merge.reads

end Search

def Evidence.shown : Evidence → String
  | .hash count => "Hash \x7b count: " ++ toString count ++ " \x7d"
  | .nullGap => "NullGap"

namespace Run

def events (name : String) (run : Run) : List Event :=
  let summary := name ++ " mod8=" ++ toString run.alignment ++ " score=" ++ Decimal.fixed 3 run.score.value ++
    " sectors " ++ toString run.physicalStart ++ "..=" ++ toString run.physicalEnd ++
    " blocks " ++ toString run.logicalStart ++ "..=" ++ toString run.logicalEnd
  ⟨.debug, summary⟩ :: run.placements.map fun placement =>
    ⟨.debug, "  sector " ++ toString placement.sector ++ " blocks " ++ shownSet placement.blocks ++ " " ++
      placement.evidence.shown⟩

end Run

namespace Search

def uncountedEvents (search : Search) (source : Nat) : List Event :=
  let uncounted := search.uncounted source
  let summary : Event := ⟨.warn, "Rejected " ++ toString uncounted.length ++ " observation(s) for source " ++
    toString source ++ " with zero global count"⟩
  uncounted.map (fun (hash, sector) =>
    ⟨.debug, "Hash " ++ hash ++ " at sector " ++ toString sector ++ " has no global count"⟩) ++
    (if uncounted.isEmpty then [] else [summary])

def findingEvents (search : Search) (finding : Finding) : List Event :=
  let before := finding.candidates.length
  let after := finding.merge.runs.length
  let summary : Event := ⟨.debug, "Source " ++ toString finding.source ++ ": merged " ++ toString before ++
    " run(s) into " ++ toString after⟩
  search.uncountedEvents finding.source ++ finding.merge.attempts.flatMap (·.events) ++
    (if after < before then [summary] else []) ++
    finding.kept.flatMap (Run.events (search.catalog.source finding.source).name)

def events (search : Search) (findings : List Finding) : List Event :=
  let kept := (findings.flatMap (·.kept)).length
  findings.flatMap search.findingEvents ++ [⟨.info, "Retained " ++ toString kept ++ " run(s)"⟩]

end Search

end FragmentSearch
