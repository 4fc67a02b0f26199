import Golioth.CS.Prog
import Golioth.CS.Transition
import Golioth.CS.SafeIteration
import Golioth.CS.OptionFormat
import Golioth.Coap.Reference
import Golioth.Coap.Paths
import Golioth.Requests.Blockwise
import Golioth.Requests.Observation
import Golioth.Lightdb
import Golioth.Requests.Disconnect
import Golioth.Requests.Renegotiation
import Golioth.Requests.Reordering
import Golioth.Requests.Polling
import Golioth.Requests.Gaps
import Golioth.Requests.Duplicates
import Golioth.Requests.Encoding
import Golioth.Sockets.Connect
import Golioth.Sockets.PollWrapper
import Golioth.CS.SlotPool
import Golioth.Sockets.PoolAccounting
import Golioth.SystemClient.Loop
import Golioth.CS.StartStop
import Golioth.SystemClient.Stopping
import Golioth.Zcbor.Utils
import Golioth.Settings
import Golioth.Fw
import Golioth.Zcbor.Completeness
import Golioth.Zcbor.Bounds
import Golioth.Zcbor.Lookup
import Golioth.Settings.Dispatch
import Golioth.Fw.Manifest
import Golioth.Rpc.Dispatch
import Golioth.Settings.Response
import Golioth.Requests.NextBlock
import Golioth.Requests.Download
import Golioth.Zcbor.Termination
import Golioth.Logging.Message
import Golioth.Lightdb.Transfer
import Golioth.CS.Doorbell
import Golioth.Requests.Room
import Golioth.Requests.Wakeups
import Golioth.SystemClient.Waking
import Golioth.CS.CborRecord
import Golioth.Fw.Report
import Golioth.Dfu.Callbacks
import Golioth.Dfu.Integrity
import Golioth.CS.Deadline
import Golioth.SystemClient.KeepAlive
