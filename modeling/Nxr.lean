import Nxr.Admission
import Nxr.Base64Padding
import Nxr.CacheExplain
import Nxr.CacheWritersLaws
import Nxr.CatalogRace
import Nxr.ChunkCoalesceLaws
import Nxr.Clock
import Nxr.DaemonDiscoveryLaws
import Nxr.DeadlineTimer
import Nxr.EnvPolicyLaws
import Nxr.ExecuteBatches
import Nxr.FailureSummary
import Nxr.FlakeSourceLaws
import Nxr.FlatDigestLaws
import Nxr.LinkedWalkLaws
import Nxr.LiveOutputLaws
import Nxr.LogDir
import Nxr.LogSubscribeRuns
import Nxr.MaterializeWorktree
import Nxr.MerkleTree
import Nxr.NixLiteral
import Nxr.OperationLaws
import Nxr.OwnedOutputsLaws
import Nxr.PipeEdgesLaws
import Nxr.PlannerCycle
import Nxr.Porcelain
import Nxr.ProcessOrder
import Nxr.ProcessState
import Nxr.PublishTreeLaws
import Nxr.RemoteJournal
import Nxr.RemoteReattach
import Nxr.RestoreLaws
import Nxr.RetentionPreview
import Nxr.RunJournalLaws
import Nxr.RunPlanFailFast
import Nxr.RunPlanProgress
import Nxr.RunPlanTrace
import Nxr.SharedRunLaws
import Nxr.SourceIdentityLaws
import Nxr.SpillableBuffer
import Nxr.SupervisorLaws
import Nxr.TaskParameters
import Nxr.WatchLaws
import Nxr.WatchLoopLaws
import Nxr.WorkerScheduleLaws
