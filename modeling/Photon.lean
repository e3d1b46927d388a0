import Photon.Bytes
import Photon.Slots
import Photon.Machine
import Photon.Borsh
import Photon.Env
import Photon.ProtocolData
import Photon.Accounts
import Photon.Gov
import Photon.Interface
import Photon.Endpoint
import Photon.Localnet
import Photon.Deployment
import Photon.Steps
import Photon.Lifecycle
import Photon.Approval
import Photon.Governance
import Photon.Writes
import Photon.KeyLists
import Photon.Registry
import Photon.OffChain
import Photon.Text
import Photon.ParseLogs
import Photon.Logs
import Photon.LogReader
import Photon.LogEvents
import Photon.Window
import Photon.Replay
import Photon.RetroReader
import Photon.Proposals
import Photon.OrdMap
import Photon.Executor
import Photon.IxCompiler
import Photon.Packing
import Photon.Watermark
import Photon.OperationManager
import Photon.GovExtension
import Photon.Frame
import Photon.Signing
import Photon.Plan
import Photon.Selector
import Photon.Accepted
import Photon.Forwarding
import Photon.Rosters
import Photon.Json
import Photon.Queue
import Photon.Extensions
import Photon.OwnTexts
import Photon.Publisher
import Photon.Onefunc
import Photon.Counters
import Photon.OnefuncCalls
import Photon.Delivery
import Photon.Resending
import Photon.Transactor
import Photon.Completion
import Photon.Suspension
import Photon.Rotation
import Photon.RpcPool
import Photon.Base64
import Photon.EventLog
import Photon.Observed
import Photon.Watcher
