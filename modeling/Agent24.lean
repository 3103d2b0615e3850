import Agent24.Memory.Bitemporal
import Agent24.Memory.Governance
import Agent24.Memory.Provenance
import Agent24.Memory.Quota
import Agent24.Memory.Cycle
import Agent24.Agent.Budget
import Agent24.Agent.FanOut
import Agent24.Agent.PlanMode
import Agent24.Memory.Artifact
import Agent24.Memory.Knowledge
import Agent24.Memory.Rekey
import Agent24.Memory.Reconcile
import Agent24.Memory.Pages
import Agent24.Scheduler.UserSchedules
import Agent24.Scheduler.DeliveryRuns
import Agent24.Policy.Broker
import Agent24.Consent.Ends
import Agent24.Audit.Chain
import Agent24.Os.MuxLaw
import Agent24.Os.Slot
import Agent24.Provider.BindingRuns
import Agent24.Provider.EvidenceLog
import Agent24.Attach.InForce
import Agent24.Provider.GateRuns
import Agent24.Provider.JournalRuns
import Agent24.Provider.Seal
import Agent24.Capability.Elevation
import Agent24.Capability.Authority
import Agent24.Documents.Coverage
import Agent24.Documents.Scoped
import Agent24.Workspace.Sweep
import Agent24.Workspace.Law
import Agent24.Models.Stream
import Agent24.Documents.Plan
import Agent24.Documents.Readers
import Agent24.Documents.Merge
import Agent24.TextLayer.Build
import Agent24.Uploads.Integrity
import Agent24.Jobs.Settled
import Agent24.Provider.Lanes
import Agent24.Os.Duplicates
import Agent24.Provider.Recover
import Agent24.Approvals.Gate
import Agent24.Proxy.Location
import Agent24.Provider.Stored
import Agent24.Agent.Recall
import Agent24.Memory.Decisions
import Agent24.Memory.Condenser
import Agent24.Memory.Gaps
import Agent24.Memory.Trace
import Agent24.Memory.Bigrams
import Agent24.Os.ReadFrame
