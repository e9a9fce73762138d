import Chronolog.Protocol.Decoding
import Chronolog.Capabilities.Log
import Chronolog.ControlStore.Durability
import Chronolog.Compiler.AmbientTime
import Chronolog.Kernels.Entropy
import Chronolog.NodeCore.ForkDetection
import Chronolog.NodeCore.Blobs
import Chronolog.NodeCore.Heartbeats
import Chronolog.NodeCore.Intake
import Chronolog.NodeCore.GovernedNode
import Chronolog.NodeCore.HistoricalAccess
import Chronolog.Materializer.CrashRecovery
import Chronolog.Materializer.SchemaNames
import Chronolog.Materializer.OutcomeChanges
import Chronolog.Rpc.Drafts
import Chronolog.Rpc.Streams
import Chronolog.Rpc.Lines
import Chronolog.Migrations.Wait
import Chronolog.Migrations.Apply
import Chronolog.Runtime.Publication
import Chronolog.Client.Draft
