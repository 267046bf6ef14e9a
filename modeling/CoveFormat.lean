import CoveFormat.AssociationEdges
import CoveFormat.BloomFilters
import CoveFormat.ColumnDomains
import CoveFormat.CoverageAlgebra
import CoveFormat.CoviCandidates
import CoveFormat.CoviLookups
import CoveFormat.CoviStoredSums
import CoveFormat.DeltaAppends
import CoveFormat.DeltaChainPruning
import CoveFormat.DeltaFileRoundTrips
import CoveFormat.DeltaReconstructions
import CoveFormat.DeltaSummaryWire
import CoveFormat.DictionaryEncodings
import CoveFormat.DistinctSketches
import CoveFormat.DuplicateChains
import CoveFormat.EndpointPushdown
import CoveFormat.FileCodePruneSoundness
import CoveFormat.FixedWidthFilters
import CoveFormat.GraphAlgorithms
import CoveFormat.GraphTraversals
import CoveFormat.IdentityPlanOrder
import CoveFormat.JoinKernels
import CoveFormat.KernelSurfaceBuilder
import CoveFormat.LayoutTrees
import CoveFormat.LoweringAgreement
import CoveFormat.MetadataPlans
import CoveFormat.MorselSelection
import CoveFormat.NumericAggregates
import CoveFormat.PageSerialization
import CoveFormat.PageTrees
import CoveFormat.PredicateAst
import CoveFormat.PropertyPushdown
import CoveFormat.PruneTrees
import CoveFormat.QuantileSketches
import CoveFormat.RegisteredPages
import CoveFormat.RowOrdinalSets
import CoveFormat.RowSorting
import CoveFormat.ScanSplitRows
import CoveFormat.SetOperations
import CoveFormat.SidecarExtensions
import CoveFormat.SortOrders
import CoveFormat.SourceMerge
import CoveFormat.StateCompaction
import CoveFormat.StateHashes
import CoveFormat.SynopsisSections
import CoveFormat.TimeTravel
import CoveFormat.TrustPayloads
import CoveFormat.VarBytesFilters
import CoveFormat.ZoneStatsWire
