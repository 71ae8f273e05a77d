import KaiRPC.Lib.Word
import KaiRPC.Lib.Scanner
import KaiRPC.Lib.Run
import KaiRPC.Lib.Text
import KaiRPC.Lib.LastWrite
import KaiRPC.Lib.Once
import KaiRPC.Common.Mutex
import KaiRPC.Tcp.Buffer
import KaiRPC.Tcp.Fifo
import KaiRPC.Tcp.Limits
import KaiRPC.Tcp.Capacity
import KaiRPC.Common.Config
import KaiRPC.Common.ConfigText
import KaiRPC.Common.HighAvailability
import KaiRPC.Common.Log
import KaiRPC.Tcp.NetAddr
import KaiRPC.Coder.Protocol
import KaiRPC.Coder.Scan
import KaiRPC.Coder.Decode
import KaiRPC.Coder.Checked
import KaiRPC.Coder.Stream
import KaiRPC.Coder.Slices
import KaiRPC.Coder.Resync
import KaiRPC.Net.Timer
import KaiRPC.Net.OnTimer
import KaiRPC.Net.Pending
import KaiRPC.Net.Wakeup
import KaiRPC.Net.Firing
import KaiRPC.Net.EventLoop
import KaiRPC.Net.FdGroup
import KaiRPC.Tcp.Connection
import KaiRPC.Tcp.Write
import KaiRPC.Tcp.Reply
import KaiRPC.Tcp.Send
import KaiRPC.Tcp.Read
import KaiRPC.Tcp.Teardown
import KaiRPC.Tcp.Matching
import KaiRPC.Rpc.MsgId
import KaiRPC.Rpc.Dispatcher
import KaiRPC.Rpc.Interface
import KaiRPC.Rpc.Serving
import KaiRPC.Tcp.Ends
import KaiRPC.Rpc.Loopback
import KaiRPC.Rpc.Controller
import KaiRPC.Rpc.Cancel
import KaiRPC.Tcp.Client
import KaiRPC.Net.Loop
import KaiRPC.Net.Rounds
import KaiRPC.Net.Posting
import KaiRPC.Net.Lifetime
import KaiRPC.Net.ThreadGroup
import KaiRPC.Net.GroupEnds
import KaiRPC.Tcp.Server
import KaiRPC.Tcp.Reactors
import KaiRPC.Tcp.ClientActions
import KaiRPC.Tcp.LateConnect
import KaiRPC.Tcp.Mirror
import KaiRPC.Rpc.Channel
import KaiRPC.Rpc.Outcome
import KaiRPC.Rpc.Calls
import KaiRPC.Rpc.Completion
import KaiRPC.Rpc.CallMethod
import KaiRPC.Discovery.Registry
import KaiRPC.Discovery.History
import KaiRPC.Discovery.Reads
import KaiRPC.Discovery.Heartbeat
import KaiRPC.Discovery.RuntimeCommand
import KaiRPC.Discovery.Liveness
import KaiRPC.Discovery.Exchange
import KaiRPC.Rpc.Discovered
