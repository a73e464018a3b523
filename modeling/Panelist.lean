import Panelist.Models
import Panelist.Calibration
import Panelist.Payouts
import Panelist.Routing
import Panelist.Attention
import Panelist.Consensus
import Panelist.Grading
import Panelist.Rubrics
import Panelist.Delivery
import Panelist.Ops
import Panelist.Service
import Panelist.Effects
import Panelist.References
import Panelist.Lifecycle
import Panelist.TaskRows
import Panelist.Export
import Panelist.Redelivery
import Panelist.DirectClaim
import Panelist.Earnings
import Panelist.Grouping
import Panelist.Statements
import Panelist.Withholding
import Panelist.TaskSteps
import Panelist.Versions
import Panelist.Pinning
import Panelist.ScoreMaps
import Panelist.Golden
import Panelist.Visibility
import Panelist.Standing
import Panelist.Hysteresis
import Panelist.ReadCommitted
import Panelist.Sessions
import Panelist.Lineage
import Panelist.ReviewOrder
import Panelist.PauseOrder
import Panelist.Pairs
import Panelist.AttentionGuard
import Panelist.Entries
import Panelist.Trail
import Panelist.ReviewQueue
import Panelist.Analytics
import Panelist.Agreement
import Panelist.VersionAgreement
import Panelist.ServeOrder
import Panelist.Upgrade
import Panelist.Storage
import Panelist.DeliveryOrder
import Panelist.Mixture
import Panelist.Snapshots
import Panelist.Weights
import Panelist.Amounts
import Panelist.Meters
import Panelist.Requeues
import Panelist.Script
import Panelist.Stringify
import Panelist.Platform
import Panelist.Throws
import Panelist.World
import Panelist.Demo
import Panelist.Csv
import Panelist.PeriodCsv
import Panelist.Reexport
import Panelist.Access
import Panelist.Keys
import Panelist.OwnWork
import Panelist.Alone
import Panelist.Serial
import Panelist.StatementCsv
import Panelist.Overview
import Panelist.Sha256
import Panelist.TypedArrays
import Panelist.Digest
import Panelist.History
import Panelist.Waiting
import Panelist.Reliability
