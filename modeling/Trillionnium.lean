import Trillionnium.DataAvailability.Binding
import Trillionnium.Executor.DeepScan
import Trillionnium.Governance.AuditLog
import Trillionnium.Governance.Timelock
import Trillionnium.Identity.Bridge
import Trillionnium.Identity.Content
import Trillionnium.Identity.Renewal
import Trillionnium.Identity.Revocation
import Trillionnium.Ledger.ForkChoice
import Trillionnium.Ledger.States
import Trillionnium.Mempool.LaneRuns
import Trillionnium.Mempool.RetryFairness
import Trillionnium.Mempool.RetryOrder
import Trillionnium.Mvcc.Value
import Trillionnium.Oracle.Snapshot
import Trillionnium.Checkpoint.Request
import Trillionnium.Parallel.Verdict
import Trillionnium.Relay.Replay
import Trillionnium.Relay.Transcript
import Trillionnium.Release.Binding
import Trillionnium.Settlement.Usage
import Trillionnium.StateImport.Provenance
import Trillionnium.StateImport.Snapshot
import Trillionnium.Vault.Accounting
import Trillionnium.Verification.Challenge
import Trillionnium.WorkerAgent.AdapterAnswer
import Trillionnium.WorkerAgent.Commitment
import Trillionnium.WorkerAgent.ReceiptProofs
import Trillionnium.Pon.Allocation
import Trillionnium.Pon.StateRoot
import Trillionnium.Pon.Evaluation
import Trillionnium.Pon.Certificate
import Trillionnium.TaskArchive.Plan
import Trillionnium.TaskKernel.Transaction
import Trillionnium.Pon.StrictPoint
import Trillionnium.Transport.ProofAdmission
