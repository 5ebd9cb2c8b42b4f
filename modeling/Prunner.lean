import Prunner.Basic
import Prunner.Tasks
import Prunner.Runner.State
import Prunner.Runner.Ops
import Prunner.Runner.Drain
import Prunner.Runner.Invariant
import Prunner.Runner.Reachable
import Prunner.Runner.Lifecycle
import Prunner.Store.Persist
import Prunner.Store.Writer
import Prunner.Taskctl.Runner
import Prunner.Taskctl.Isolation
import Prunner.Store.Restore
import Prunner.Runner.Progress
import Prunner.Runner.Callbacks
import Prunner.Runner.JobTasks
import Prunner.Runner.Graphs
import Prunner.Runner.Admission
import Prunner.Runner.Waiting
import Prunner.Runner.Liveness
import Prunner.Taskctl.Execute
import Prunner.Taskctl.Cancel
import Prunner.Taskctl.Outputs
import Prunner.Tasks.Orders
import Prunner.Tasks.Kahn
import Prunner.Runner.Queries
