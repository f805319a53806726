import DensityClustering.Scalar.Instances
import DensityClustering.Geometry.Basic
import DensityClustering.Geometry.Segment
import DensityClustering.Geometry.Cover
import DensityClustering.Geometry.Centroid
import DensityClustering.Geometry.Nearest
import DensityClustering.Geometry.Overlay.Rings
import DensityClustering.Geometry.Combine
import DensityClustering.Neighbor.PartitionIndex
import DensityClustering.Neighbor.Traversal
import DensityClustering.Config.Basic
import DensityClustering.Cluster.Links
import DensityClustering.Cluster.Record
import DensityClustering.Cluster.Run
import DensityClustering.Json.Number
import DensityClustering.Json.Token
import DensityClustering.Config.Document
import DensityClustering.Proofs.Cluster.LinkRelation
import DensityClustering.Proofs.Cluster.Operation
import DensityClustering.Proofs.Cluster.Ownership
import DensityClustering.Proofs.Cluster.MergePass
import DensityClustering.Proofs.Cluster.Calm
import DensityClustering.Proofs.Cluster.Chained
import DensityClustering.Proofs.Neighbor.Roaming
import DensityClustering.Proofs.Neighbor.SharedState
import DensityClustering.Proofs.Neighbor.PartitionRelation
import DensityClustering.Proofs.Neighbor.Coverage
import DensityClustering.Proofs.Neighbor.Exactness
import DensityClustering.Proofs.Run.Storage
import DensityClustering.Proofs.Run.Recording
import DensityClustering.Proofs.Run.Soundness
import DensityClustering.Proofs.Cluster.Accord
import DensityClustering.Proofs.Run.Contacts
import DensityClustering.Proofs.Run.Visiting
import DensityClustering.Proofs.Run.Rounds
import DensityClustering.Proofs.Run.Components
import DensityClustering.Proofs.Cluster.Ledger
import DensityClustering.Proofs.Cluster.Reach
import DensityClustering.Proofs.Run.Counting
import DensityClustering.Proofs.Cluster.Wiring
import DensityClustering.Proofs.Cluster.Stale
import DensityClustering.Proofs.Cluster.Tidy
import DensityClustering.Proofs.Neighbor.Measurement
import DensityClustering.Proofs.Run.Ending
import DensityClustering.Proofs.Cluster.Tally
import DensityClustering.Proofs.Run.Census
import DensityClustering.Proofs.Neighbor.Chronicle
import DensityClustering.Proofs.Neighbor.Registration
import DensityClustering.Proofs.Neighbor.Interruption
import DensityClustering.Proofs.Cluster.Lifecycle
import DensityClustering.Proofs.Cluster.Growth
import DensityClustering.Proofs.Cluster.RawPoints
import DensityClustering.Proofs.Neighbor.Refusal
import DensityClustering.Proofs.Scalar.Comparison
import DensityClustering.Proofs.Neighbor.Greedy
import DensityClustering.Proofs.Geometry.Orientation
import DensityClustering.Proofs.Geometry.MonotoneChain
import DensityClustering.Proofs.Geometry.HullVertices
import DensityClustering.Proofs.Cluster.Footprint
import DensityClustering.Proofs.Cluster.Threshold
import DensityClustering.Proofs.Neighbor.Agreement
import DensityClustering.Proofs.Run.Compression
import DensityClustering.Proofs.Cluster.Effect
import DensityClustering.Proofs.Scalar.Packing
import DensityClustering.Proofs.Scalar.Scaling
import DensityClustering.Proofs.Cluster.Surplus
import DensityClustering.Proofs.Cluster.Sides
import DensityClustering.Proofs.Cluster.Listing
import DensityClustering.Proofs.Neighbor.Requests
import DensityClustering.Proofs.Geometry.ConvexRing
import DensityClustering.Proofs.Geometry.ConvexHull
import DensityClustering.Proofs.Geometry.Rebuild
import DensityClustering.Proofs.Geometry.Boundary
import DensityClustering.Proofs.Neighbor.Failure
import DensityClustering.Proofs.Run.Stoppage
import DensityClustering.Proofs.Geometry.SegmentPoints
import DensityClustering.Proofs.Geometry.Separation
import DensityClustering.Proofs.Geometry.Symmetry
import DensityClustering.Proofs.Geometry.Winding
import DensityClustering.Proofs.Geometry.Encounter
import DensityClustering.Proofs.Geometry.Intersection
import DensityClustering.Proofs.Config.Roundtrip
import DensityClustering.Proofs.Config.KnownFields
import DensityClustering.Proofs.Cluster.LinkHistory
