import TransitMatching.Number.Double
import TransitMatching.Text.Blank
import TransitMatching.Table
import TransitMatching.Mode
import TransitMatching.Geometry.Shape
import TransitMatching.Network.Nearby
import TransitMatching.Network.Chain
import TransitMatching.Schedule.Occurrence
import TransitMatching.Diagnostics
import TransitMatching.Settings.Document
import TransitMatching.Candidate.Build
import TransitMatching.Routing.Cache
import TransitMatching.Proofs.Candidate.Reduction
import TransitMatching.Proofs.Network.Nearby
import TransitMatching.Proofs.Candidate.Refinement
import TransitMatching.Proofs.Candidate.Ranking
import TransitMatching.Proofs.Candidate.Build
import TransitMatching.Proofs.Candidate.LoopLinks
import TransitMatching.Proofs.Candidate.Faults
import TransitMatching.Proofs.Candidate.Effect
import TransitMatching.Proofs.Candidate.Listing
import TransitMatching.Proofs.Candidate.Independence
import TransitMatching.Proofs.Candidate.Provenance
import TransitMatching.Proofs.Candidate.Visits
import TransitMatching.Proofs.Candidate.Manual
import TransitMatching.Proofs.Candidate.Uniqueness
import TransitMatching.Proofs.Candidate.Regained
import TransitMatching.Proofs.Candidate.Rebuild
import TransitMatching.Proofs.Candidate.Opposites
import TransitMatching.Proofs.Candidate.Nearest
import TransitMatching.Proofs.Candidate.SharedLinks
import TransitMatching.Proofs.Candidate.Identity
import TransitMatching.Proofs.Candidate.Scoring
import TransitMatching.Proofs.Network.Insertions
import TransitMatching.Proofs.Network.LinkIds
import TransitMatching.Proofs.Network.Appending
import TransitMatching.Proofs.Network.LoopGrowth
import TransitMatching.Proofs.Network.Scan
import TransitMatching.Proofs.Network.Admission
import TransitMatching.Proofs.Settings.Validation
import TransitMatching.Proofs.Cost.Weights
import TransitMatching.Proofs.Cost.Adjustments
import TransitMatching.Proofs.Cost.Ramp
import TransitMatching.Proofs.Heap
import TransitMatching.Proofs.Number.Order
import TransitMatching.Proofs.Number.Least
import TransitMatching.Proofs.Number.Rounding
import TransitMatching.Proofs.Number.Sum
import TransitMatching.Proofs.Number.Interval
import TransitMatching.Proofs.Number.Shortest
import TransitMatching.Proofs.Number.Quotient
import TransitMatching.Proofs.Number.Product
import TransitMatching.Proofs.Schedule.Keys
import TransitMatching.Proofs.Schedule.Register
import TransitMatching.Proofs.Number.Real
import TransitMatching.Proofs.Number.Extended
import TransitMatching.Proofs.Routing.Exploration
import TransitMatching.Proofs.Routing.LeastCost
import TransitMatching.Proofs.Routing.Router
import TransitMatching.Proofs.Routing.Thread
import TransitMatching.Proofs.Routing.Memory
import TransitMatching.Proofs.Routing.Recollection
import TransitMatching.Proofs.Routing.Coverage
import TransitMatching.Proofs.Routing.Answers
import TransitMatching.Proofs.Geometry.Plane
import TransitMatching.Proofs.Geometry.Lines
import TransitMatching.Proofs.Geometry.Sampling
