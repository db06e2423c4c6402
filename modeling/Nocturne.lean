import Nocturne.Lib.Refusal
import Nocturne.Lib.Table
import Nocturne.Lib.Greedy
import Nocturne.Lib.Machine
import Nocturne.Lib.Tally
import Nocturne.Lib.Quantize
import Nocturne.Lib.Listing
import Nocturne.Inject.Scorer
import Nocturne.Inject.Simplex
import Nocturne.Inject.Selection
import Nocturne.Store.Schema
import Nocturne.Store.Memory
import Nocturne.Store.Laws
import Nocturne.Store.Edges
import Nocturne.Store.Lineage
import Nocturne.Store.Footprint
import Nocturne.Inject.Renderer
import Nocturne.Inject.Prepare
import Nocturne.Inject.Decisions
import Nocturne.Inject.Restore
import Nocturne.Inject.Laws
import Nocturne.Inject.Effects
import Nocturne.Inject.Counters
import Nocturne.Inject.Membership
import Nocturne.Inject.Replay
import Nocturne.Memory.Patch
import Nocturne.Memory.Staging
import Nocturne.Memory.Laws
import Nocturne.Memory.Labels
import Nocturne.Memory.Families
import Nocturne.Memory.Rejection
import Nocturne.Queue.Service
import Nocturne.Queue.Laws
import Nocturne.Queue.Ledger
import Nocturne.Queue.Cards
import Nocturne.Queue.Enactment
import Nocturne.Queue.Approval
import Nocturne.Queue.Seeds
import Nocturne.Curation.Diagnostics
import Nocturne.Curation.Service
import Nocturne.Symphony.Service
import Nocturne.Curation.Laws
import Nocturne.Curation.Review
import Nocturne.Symphony.Laws
import Nocturne.Symphony.Closure
import Nocturne.Symphony.Attempts
import Nocturne.Symphony.Retries
import Nocturne.Palace.Machine
import Nocturne.Palace.Laws
import Nocturne.Palace.Lineage
import Nocturne.Palace.Reinforce
import Nocturne.Palace.Shapes
import Nocturne.Palace.Consent
import Nocturne.Palace.Ledger
import Nocturne.Palace.Enactment
import Nocturne.Palace.Approval
import Nocturne.Palace.Findings
import Nocturne.Palace.Orphans
import Nocturne.Palace.Rejection
import Nocturne.Palace.Counters
import Nocturne.Palace.Log
import Nocturne.Palace.Replay
import Nocturne.Palace.Closure
import Nocturne.Palace.Retries
import Nocturne.Palace.Seeds
import Nocturne.Jobs.Datetime
import Nocturne.Jobs.Service
import Nocturne.Jobs.Laws
import Nocturne.Jobs.Fencing
import Nocturne.Jobs.Schedule
import Nocturne.Learner.Worker
import Nocturne.Learner.Wake
import Nocturne.Learner.Model
import Nocturne.Learner.Axes
import Nocturne.Learner.Range
import Nocturne.M2k.Config
import Nocturne.M2k.Retrain
import Nocturne.M2k.Service
import Nocturne.M2k.Laws
import Nocturne.M2k.Activations
import Nocturne.M2k.Serving
import Nocturne.M2k.Replay
import Nocturne.M2k.Proposals
import Nocturne.Spend.Reconciliation
import Nocturne.Spend.Baseline
import Nocturne.Portability.Service
import Nocturne.Portability.Lineage
import Nocturne.Lib.Record
import Nocturne.Lib.Flight
import Nocturne.Lib.Interleaving
import Nocturne.Lib.Json
import Nocturne.Lib.Markup
import Nocturne.Lib.PyValue
import Nocturne.Lib.Locking
import Nocturne.Transcripts.Service
import Nocturne.Transcripts.Laws
import Nocturne.Transcripts.Integrity
import Nocturne.Transcripts.Replay
import Nocturne.Spend.Receipts
import Nocturne.Spend.Appends
import Nocturne.Spend.Replay
import Nocturne.Spend.Ledgers
import Nocturne.Inject.Annotations
import Nocturne.Inject.AnnotationLaws
import Nocturne.Inject.AnnotationReplay
import Nocturne.Inject.FinalBlock
import Nocturne.ModelPolicy.Resolver
import Nocturne.ModelPolicy.Laws
import Nocturne.ModelPolicy.Stickiness
import Nocturne.Memory.Creations
import Nocturne.Memory.Serial
import Nocturne.M2k.Contributions
import Nocturne.Inject.Rescore
import Nocturne.Palace.Prepares
import Nocturne.Palace.Protocol
import Nocturne.Learner.Evidence
import Nocturne.Learner.Hygiene
import Nocturne.Learner.Continued
import Nocturne.M2k.Corpus
import Nocturne.M2k.Addressing
import Nocturne.M2k.Observatory
import Nocturne.Lib.Simplex
import Nocturne.Lib.Hinge
import Nocturne.Inject.SelectionLaws
import Nocturne.Inject.Projection
import Nocturne.Learner.Slopes
import Nocturne.Learner.Split
import Nocturne.Learner.Descent
import Nocturne.Learner.Offsets
import Nocturne.Learner.Threshold
import Nocturne.Learner.Nomination
import Nocturne.Learner.Replay
import Nocturne.M2k.Fairness
import Nocturne.ModelPolicy.Frontier
import Nocturne.Billing.Decoding
import Nocturne.Billing.Reader
import Nocturne.Billing.Breaker
import Nocturne.Billing.Laws
import Nocturne.M2k.Instant
import Nocturne.M2k.Preview
import Nocturne.Palace.Boundary
import Nocturne.Palace.Denial
import Nocturne.Palace.Records
import Nocturne.Palace.Suppression
import Nocturne.Lib.Hull
import Nocturne.ModelPolicy.Choice
import Nocturne.Lib.Dict
import Nocturne.Lib.Decoded
import Nocturne.ModelPolicy.Catalog
import Nocturne.ModelPolicy.CatalogLaws
import Nocturne.ModelPolicy.Hydration
import Nocturne.Memory.Handles
import Nocturne.Memory.Splits
import Nocturne.Vitals.Service
import Nocturne.Vitals.Conservation
import Nocturne.Vitals.Windows
import Nocturne.Lib.Numeral
import Nocturne.Ids.Ulid
import Nocturne.Ids.Laws
import Nocturne.Ids.Normal
import Nocturne.Lib.Double
import Nocturne.Embeddings.Validation
import Nocturne.Embeddings.Exactness
import Nocturne.Lib.Components
import Nocturne.Curation.Clusters
import Nocturne.Lib.Ancestry
import Nocturne.Store.Growth
import Nocturne.Palace.Ancestry
import Nocturne.Curation.Cadence
import Nocturne.Curation.CadenceLaws
import Nocturne.Lib.Like
import Nocturne.Memory.Queries
import Nocturne.Memory.QueryLaws
import Nocturne.Learner.Creation
import Nocturne.Learner.CreationLaws
import Nocturne.Lib.Latest
import Nocturne.Inject.RestoreLaws
import Nocturne.Palace.Recovery
import Nocturne.Lib.Grouping
import Nocturne.Spend.Scopes
