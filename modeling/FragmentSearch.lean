import FragmentSearch.Main
import FragmentSearch.Proofs.EvidenceOrigins
import FragmentSearch.Proofs.GapEvidence
import FragmentSearch.Proofs.GapReads
import FragmentSearch.Proofs.ImageEffects
import FragmentSearch.Proofs.JoinGroups
import FragmentSearch.Proofs.LogicalBounds
import FragmentSearch.Proofs.NoiseTolerance
import FragmentSearch.Proofs.RunOrder
import FragmentSearch.Proofs.RunStructure
import FragmentSearch.Proofs.RecordPrecedence
import FragmentSearch.Proofs.Selection
import FragmentSearch.Proofs.SourceViews
import FragmentSearch.Proofs.CandidateFiltering
import FragmentSearch.Proofs.FurtherSightings
import FragmentSearch.Proofs.RelevantSightings
import FragmentSearch.Proofs.StreamOrder
import FragmentSearch.Proofs.RunSpans
import FragmentSearch.Proofs.Translation
import FragmentSearch.Proofs.WrittenNumbers
import FragmentSearch.Proofs.TabbedReports
import FragmentSearch.Proofs.QuotedReports
import FragmentSearch.Proofs.StreamLines
import FragmentSearch.Proofs.TextBytes
import FragmentSearch.Proofs.LineReader
import FragmentSearch.Proofs.WrittenLines
import FragmentSearch.Proofs.ObservationText
import FragmentSearch.Proofs.CatalogConsistency
import FragmentSearch.Proofs.WordAddresses
import FragmentSearch.Proofs.WordSearch
import FragmentSearch.Proofs.WorkEffects
import FragmentSearch.Proofs.CommandEffects
import FragmentSearch.Proofs.JsonStrings
import FragmentSearch.Proofs.JsonReading
import FragmentSearch.Proofs.JsonShapes
import FragmentSearch.Proofs.ReportContents
import FragmentSearch.Proofs.RecordText
import FragmentSearch.Proofs.TilingRuns
import FragmentSearch.Proofs.RepeatedJoining
import FragmentSearch.Proofs.RowCutting
import FragmentSearch.Proofs.GatheredPlacements
import FragmentSearch.Proofs.RepeatedOccurrences
import FragmentSearch.Proofs.ImageRequests
import FragmentSearch.Proofs.DoubleOrder
import FragmentSearch.Proofs.ExactScores
import FragmentSearch.Proofs.ReportOrder
import FragmentSearch.Proofs.SightingCounts
import FragmentSearch.Proofs.ChainEnds
