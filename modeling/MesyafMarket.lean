import MesyafMarket.EventAtomicity
import MesyafMarket.SweepCoverage
import MesyafMarket.StartedWork
import MesyafMarket.RecoveryHolder
import MesyafMarket.Tracking
import MesyafMarket.Replay
import MesyafMarket.BatchLimits
import MesyafMarket.Assignability
import MesyafMarket.StuckBatches
import MesyafMarket.AssignmentNotice
import MesyafMarket.Presence
import MesyafMarket.SerialBatching
import MesyafMarket.PromisedDelay
import MesyafMarket.Throttler
import MesyafMarket.TimelineRebuild
import MesyafMarket.CommitReports
import MesyafMarket.TokenKeys
import MesyafMarket.TimelineStatus
import MesyafMarket.PasswordSecrecy
import MesyafMarket.CacheCoherence
import MesyafMarket.Eligibility
import MesyafMarket.Reconnection
import MesyafMarket.TimelineAccess
import MesyafMarket.NearestDeliverer
import MesyafMarket.ProductPages
import MesyafMarket.ProfileUpdates
import MesyafMarket.Objects.Graph
import MesyafMarket.AppLogger
import MesyafMarket.LogEntries
import MesyafMarket.Outages
import MesyafMarket.Escalation
import MesyafMarket.Completions
import MesyafMarket.Recipients
import MesyafMarket.StatementExclusivity
