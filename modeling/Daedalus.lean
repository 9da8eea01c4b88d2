import Daedalus.Foundation.Run
import Daedalus.Foundation.Reachability
import Daedalus.Basic
import Daedalus.Scheduler.DAG
import Daedalus.Scheduler.Graph
import Daedalus.Dispatch.Dispatcher
import Daedalus.Scheduler.Request
import Daedalus.Orchestrator.Collector
import Daedalus.Orchestrator.Safety
import Daedalus.Scheduler.Schedule
import Daedalus.Scheduler.Safety
import Daedalus.Scheduler.Outcome
import Daedalus.Scheduler.Admission
import Daedalus.Scheduler.Accounting
import Daedalus.Pipeline.Freshness
import Daedalus.Pipeline.Vocabulary
import Daedalus.ACP.Client
import Daedalus.ACP.Correlation
import Daedalus.ACP.Stranded
import Daedalus.ACP.Requests
import Daedalus.ACP.Streaming
import Daedalus.Foundation.Interaction
import Daedalus.Pipeline.Payload
import Daedalus.Pipeline.Verdict
import Daedalus.Proxy.Consumption
import Daedalus.Queue.Isolation
import Daedalus.Proxy.Cancellation
import Daedalus.Pipeline.Identity
import Daedalus.Registry.Convergence
import Daedalus.Registry.Interchange
import Daedalus.Operator.RegistryFormat
import Daedalus.Operator.Ownership
import Daedalus.Operator.Exclusive
import Daedalus.Operator.Wiring
import Daedalus.Operator.Rejection
import Daedalus.Operator.Parity
import Daedalus.Operator.Rotation
import Daedalus.Operator.SecretHash
import Daedalus.Scheduler.Cancellation
import Daedalus.Scheduler.Layers
import Daedalus.Dispatch.Routing
import Daedalus.Registry.MergedView
import Daedalus.Branch.Retry
import Daedalus.Orchestrator.FanIn
import Daedalus.Scheduler.Completion
import Daedalus.Branch.Sanitize
import Daedalus.Registry.Validation
import Daedalus.Pipeline.Factory
import Daedalus.Proxy.Process
import Daedalus.Operator.Convergence
import Daedalus.Operator.Events
import Daedalus.Operator.Drift
import Daedalus.Operator.Conditions
import Daedalus.A2A.Wire
import Daedalus.Pipeline.Transport
import Daedalus.Registry.Registration
import Daedalus.ContextMgmt.Tracker
import Daedalus.Proxy.Usage
