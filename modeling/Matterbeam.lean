import Matterbeam.Base.Prog
import Matterbeam.Base.Decimal
import Matterbeam.Base.Dict
import Matterbeam.Base.Replay
import Matterbeam.Base.Sift
import Matterbeam.Base.Cut
import Matterbeam.Model.Json
import Matterbeam.Model.Envelope
import Matterbeam.Model.Store
import Matterbeam.Model.Server
import Matterbeam.Model.System
import Matterbeam.Model.Client
import Matterbeam.Model.World
import Matterbeam.Model.Package
import Matterbeam.Model.Deploy
import Matterbeam.Model.Gate
import Matterbeam.Proof.SameFact
import Matterbeam.Proof.Facts
import Matterbeam.Proof.FileRun
import Matterbeam.Proof.FileMerge
import Matterbeam.Proof.Compare
import Matterbeam.Proof.FileSort
import Matterbeam.Proof.Lock
import Matterbeam.Proof.Commit
import Matterbeam.Proof.Calls
import Matterbeam.Proof.World
import Matterbeam.Proof.Acked
import Matterbeam.Proof.Once
import Matterbeam.Proof.InTurn
import Matterbeam.Proof.Conflict
import Matterbeam.Proof.State
import Matterbeam.Proof.Register
import Matterbeam.Proof.Cursor
import Matterbeam.Proof.Chunks
import Matterbeam.Proof.Tables
import Matterbeam.Proof.HttpRun
import Matterbeam.Proof.HttpMerge
import Matterbeam.Proof.Reader
import Matterbeam.Proof.Tail
import Matterbeam.Proof.Closed
import Matterbeam.Proof.Clients
import Matterbeam.Proof.Identity
import Matterbeam.Proof.Stream
import Matterbeam.Proof.Outcomes
import Matterbeam.Proof.DecimalOrder
import Matterbeam.Proof.Package
import Matterbeam.Proof.ContentHash
import Matterbeam.Proof.OnePipeline
import Matterbeam.Proof.FailedDeploy
import Matterbeam.Proof.PackageFiles
import Matterbeam.Proof.SortRows
import Matterbeam.Proof.Secrets
import Matterbeam.Proof.StateJob
import Matterbeam.Proof.StripPua
import Matterbeam.Proof.GateVerdict
import Matterbeam.Proof.Paused
import Matterbeam.Base.JsonText
import Matterbeam.Model.Framing
import Matterbeam.Proof.Framing
import Matterbeam.Proof.AllOrNothing
import Matterbeam.Model.Routing
import Matterbeam.Proof.Routing
import Matterbeam.Base.Serial
import Matterbeam.Model.Section
import Matterbeam.Proof.Serial
import Matterbeam.Proof.Inversions
import Matterbeam.Proof.Accounting
import Matterbeam.Base.Window
import Matterbeam.Proof.Tenures
import Matterbeam.Base.Folder
import Matterbeam.Model.SegmentFiles
import Matterbeam.Proof.SegmentFiles
import Matterbeam.Base.Parallel
import Matterbeam.Model.Deploys
import Matterbeam.Proof.Deploys
import Matterbeam.Base.Batches
import Matterbeam.Proof.JobLog
import Matterbeam.Model.Cli
import Matterbeam.Proof.Cli
import Matterbeam.Proof.Progress
import Matterbeam.Proof.Loads
import Matterbeam.Model.Handler
import Matterbeam.Proof.Handler
import Matterbeam.Model.Hosted
import Matterbeam.Proof.Hosted
