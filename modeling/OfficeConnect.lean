import OfficeConnect.Core.Base
import OfficeConnect.Core.OrgUnits
import OfficeConnect.Core.Workdays
import OfficeConnect.Lib.Guard
import OfficeConnect.Lib.Keys
import OfficeConnect.Lib.Rows
import OfficeConnect.Lib.Run
import OfficeConnect.Workflow.DeadGates
import OfficeConnect.Workflow.CompareAndSwap
import OfficeConnect.Reimbursement.Lockstep
import OfficeConnect.Reimbursement.ChainOrder
import OfficeConnect.Reimbursement.Replay
import OfficeConnect.Reimbursement.Spawning
import OfficeConnect.Reimbursement.SettlementLaw
import OfficeConnect.Reimbursement.Retry
import OfficeConnect.Reimbursement.Terminals
import OfficeConnect.Reimbursement.SpawnFloor
import OfficeConnect.Reimbursement.AdvanceSlots
import OfficeConnect.Reimbursement.Strangers
import OfficeConnect.Reimbursement.InFlight
import OfficeConnect.Reimbursement.SettlementRace
import OfficeConnect.Reimbursement.SubmitRace
import OfficeConnect.Reimbursement.Offered
import OfficeConnect.Reimbursement.Queue
import OfficeConnect.Core.AuditChain
import OfficeConnect.Core.AuditTamper
import OfficeConnect.Reimbursement.Numbering
import OfficeConnect.Ingest.AllOrError
import OfficeConnect.Ingest.RowOrder
import OfficeConnect.Reimbursement.Holders
import OfficeConnect.Reimbursement.Breakdown
import OfficeConnect.Reimbursement.Recompute
import OfficeConnect.Reimbursement.Deadlines
import OfficeConnect.Core.OutboxLaw
import OfficeConnect.Core.Revocation
import OfficeConnect.Core.SessionCap
import OfficeConnect.Core.Snapshots
import OfficeConnect.Core.Freshness
import OfficeConnect.Reimbursement.ReminderLaw
import OfficeConnect.Reimbursement.Itinerary
import OfficeConnect.Reimbursement.OneConfig
import OfficeConnect.Reimbursement.TotalsLaw
import OfficeConnect.Reimbursement.Entitlement
import OfficeConnect.Reimbursement.EffectiveDating
import OfficeConnect.Core.Totality
import OfficeConnect.Core.Gate
import OfficeConnect.Reimbursement.Refresh
import OfficeConnect.Reimbursement.Readings
import OfficeConnect.Core.Retention
import OfficeConnect.Core.ScanSweep
import OfficeConnect.Core.FileRows
import OfficeConnect.Reimbursement.Documents
import OfficeConnect.Reimbursement.Reprints
import OfficeConnect.Reimbursement.Prints
import OfficeConnect.Reimbursement.HolidayWindow
import OfficeConnect.Core.NotificationTasks
import OfficeConnect.Core.LoginRuns
import OfficeConnect.Core.PayloadLaw
import OfficeConnect.Reimbursement.Followup
import OfficeConnect.Reimbursement.SlaReminderLaw
import OfficeConnect.Reimbursement.Pipeline
import OfficeConnect.Reimbursement.AgendaFlags
import OfficeConnect.Reimbursement.Insights
import OfficeConnect.Workflow.WellFormed
import OfficeConnect.Ingest.Placement
import OfficeConnect.Core.WorkdayBack
import OfficeConnect.Core.Context
