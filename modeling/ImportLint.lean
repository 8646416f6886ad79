import ImportLint.Main
import ImportLint.Proofs.LayerContainment
import ImportLint.Proofs.FileIndependence
import ImportLint.Proofs.ExcludeGlobs
import ImportLint.Proofs.ReportContents
import ImportLint.Proofs.ImportOrder
import ImportLint.Proofs.ImportLiterals
import ImportLint.Proofs.DiscoveredFiles
import ImportLint.Proofs.RootSpelling
import ImportLint.Proofs.PolicyListing
import ImportLint.Proofs.CheckOutcome
import ImportLint.Proofs.UnreadFiles
import ImportLint.Proofs.FailurePrecedence
import ImportLint.Proofs.EntryFaults
import ImportLint.Proofs.EntryEdits
import ImportLint.Proofs.JsonText
import ImportLint.Proofs.ReportRoundTrip
import ImportLint.Proofs.SegmentTokens
import ImportLint.Proofs.SegmentAlignment
import ImportLint.Proofs.EscapeDepth
import ImportLint.Proofs.DirectorySpellings
import ImportLint.Proofs.TargetSpellings
import ImportLint.Proofs.CommentEdits
import ImportLint.Proofs.ImportTraversal
import ImportLint.Proofs.TreePlaces
import ImportLint.Proofs.RestrictionEdits
import ImportLint.Proofs.MarkedFindings
import ImportLint.Proofs.SortedReports
import ImportLint.Proofs.FileDiscovery
import ImportLint.Proofs.GlobDialects
import ImportLint.Proofs.ConfigPrecedence
import ImportLint.Proofs.TemplateRuns
import ImportLint.Proofs.ConfigOverlay
import ImportLint.Proofs.CompactLines
import ImportLint.Proofs.ReportCounts
