import Opcore.Library.BTreeMap
import Opcore.Library.JsonEdit
import Opcore.Library.Shortening
import Opcore.Library.ShortestPath
import Opcore.Analysis.WinnowerSpec
import Opcore.Cache.Interleaving
import Opcore.Cache.Memory
import Opcore.Commands.Freshness
import Opcore.Commands.Linearization
import Opcore.Analysis.Go.Constraints
import Opcore.Analysis.Go.Recursion
import Opcore.Analysis.Go.FileNames
import Opcore.Analysis.Go.Scanned
import Opcore.Analysis.Node.Depth
import Opcore.Analysis.Node.Nesting
import Opcore.Analysis.Python.Depth
import Opcore.Engine.Introduced
import Opcore.Facts
import Opcore.Engine.Insertion
import Opcore.Hooks.Recovery
import Opcore.Sense.Graph.Continuity
import Opcore.Source.Snapshot
import Opcore.Sense.Metrics.Grouped
import Opcore.Sense.Model
import Opcore.Sense.Dedup.LimitIssues
import Opcore.Sense.Dedup.RegionCounting
import Opcore.Sense.Dedup.RoundTrip
import Opcore.Sense.Resolver.ModuleTrees
import Opcore.Sense.Resolver.Pair
import Opcore.Protocol.Context
import Opcore.Protocol.Lines
import Opcore.Policy.ProjectRoots
import Opcore.Policy.Origins
import Opcore.Protocol.Accepted
import Opcore.Protocol.Outcome
import Opcore.Protocol.Native.ToldApart
import Opcore.Protocol.PathText
import Opcore.Protocol.Restriction
import Opcore.Protocol.Shutdown
import Opcore.Sense.Metrics.Impact
import Opcore.Sense.Metrics.Importance
import Opcore.Sense.Budget
import Opcore.Sense.Dedup.FindingLimit
import Opcore.Sense.Obligations
import Opcore.Sense.Output
import Opcore.Source.Workspace
import Opcore.Sense.PackageDebt
import Opcore.Sense.ViewIdentity
import Opcore.Analysis.Python.Encoding
import Opcore.Sense.Resolver.ModuleFile
