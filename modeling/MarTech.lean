import MarTech.Library.Session
import MarTech.Library.Table
import MarTech.Domain.Events
import MarTech.Domain.Scoring
import MarTech.Database.Models
import MarTech.Pipeline.Outbox
import MarTech.Pipeline.Ingest
import MarTech.Pipeline.Stream
import MarTech.Pipeline.Worker
import MarTech.Pipeline.Replay
import MarTech.Pipeline.Effect
import MarTech.Pipeline.Run
import MarTech.Pipeline.Transactions
import MarTech.Pipeline.RunWorker
import MarTech.Pipeline.Theorems.Acknowledge
import MarTech.Pipeline.Discipline
import MarTech.Pipeline.Theorems.Consumption
import MarTech.Pipeline.Theorems.Locking
import MarTech.Pipeline.Theorems.Ingestion
import MarTech.Pipeline.Theorems.Publication
import MarTech.Pipeline.Theorems.Delivery
import MarTech.Pipeline.Theorems.DeadLetter
import MarTech.Pipeline.Seed
import MarTech.Library.Latest
import MarTech.Database.Repositories
import MarTech.Pipeline.Theorems.View
import MarTech.Domain.EpochDay
import MarTech.Domain.Real
import MarTech.Library.Decay
import MarTech.Pipeline.Theorems.Score
import MarTech.Pipeline.Theorems.ScoreSign
import MarTech.Pipeline.Theorems.Submission
import MarTech.Core.Theorems.RateLimit
import MarTech.Library.TopK
import MarTech.AI.Service
import MarTech.AI.Theorems.Service
import MarTech.Domain.Audience
import MarTech.Api.Audience
import MarTech.Api.Theorems.Audience
import MarTech.Api.Theorems.OptOut
import MarTech.AI.GroundingGuard
import MarTech.AI.Ascii
import MarTech.AI.Theorems.Literals
import MarTech.AI.Theorems.Grounding
import MarTech.Library.Regex
import MarTech.AI.Theorems.Restatement
import MarTech.AI.ContextBuilder
import MarTech.AI.Confidence
import MarTech.AI.Fallback
import MarTech.AI.Theorems.Confidence
import MarTech.AI.Theorems.Fallback
import MarTech.Pipeline.Storage
import MarTech.Pipeline.Theorems.Handling
import MarTech.Pipeline.Theorems.Redelivery
import MarTech.Pipeline.Theorems.Supply
import MarTech.Pipeline.Theorems.Disposal
import MarTech.Pipeline.Decode
import MarTech.Pipeline.Theorems.Poison
import MarTech.Pipeline.Receipt
import MarTech.Pipeline.Theorems.Deduplication
import MarTech.Domain.Theorems.Breakdown
import MarTech.Api.Theorems.TopK
import MarTech.Api.Theorems.Paging
import MarTech.Library.Deadlock
import MarTech.Pipeline.LockOrder
import MarTech.Pipeline.Theorems.LockOrder
import MarTech.Pipeline.Theorems.Deadlock
import MarTech.Pipeline.Reconcile
import MarTech.Pipeline.Theorems.Reconcile
import MarTech.Pipeline.Theorems.Alone
import MarTech.Pipeline.Theorems.LiveMessage
import MarTech.Library.ConsumerGroup
import MarTech.Library.Broker
import MarTech.Pipeline.Queue
import MarTech.Pipeline.Theorems.Queue
import MarTech.Pipeline.System
import MarTech.Pipeline.Theorems.Wire
import MarTech.Pipeline.Theorems.Drain
import MarTech.Api.Health
import MarTech.Api.Theorems.Health
import MarTech.AI.Adapters
import MarTech.Api.Analysis
import MarTech.Api.Customers
import MarTech.Api.Events
import MarTech.Api.Theorems.Analysis
import MarTech.Api.Theorems.Browsing
import MarTech.Api.Theorems.Convergence
import MarTech.Api.Theorems.EndToEnd
import MarTech.Api.Theorems.Events
import MarTech.Api.Theorems.Recommend
import MarTech.Pipeline.Theorems.Platform
