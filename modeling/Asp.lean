import Asp.Proofs.PatchLimits
import Asp.Proofs.SnapshotSize
import Asp.Proofs.ExternalChanges
import Asp.Proofs.OpenSession
import Asp.Proofs.AuthLimit
import Asp.Proofs.Leases
import Asp.Proofs.ArtifactQuota
import Asp.Proofs.Backup
import Asp.Proofs.Principals
import Asp.Proofs.ProcessExit
import Asp.Proofs.ProcessSummary
import Asp.Proofs.PtyInput
import Asp.Proofs.PtyScrollback
import Asp.Proofs.PtyLifetime
import Asp.Proofs.PtyLag
import Asp.Proofs.EventFollower
import Asp.Proofs.SelectedFiles
import Asp.Proofs.ScratchFiles
import Asp.Proofs.FileAftermath
import Asp.Proofs.FileEdits
import Asp.Proofs.AppendFaults
import Asp.Proofs.PtyWire
import Asp.Proofs.Download
import Asp.Proofs.CachedAnswers
import Asp.Proofs.ByteBudget
import Asp.Proofs.WorkspaceCache
import Asp.Proofs.AgentLines
import Asp.Proofs.UploadLocks
import Asp.Proofs.IdempotencyRecords
import Asp.Proofs.RunningProcesses
import Asp.Proofs.FrameMode
