import ChatRs.Proto
import ChatRs.Lib.Machine
import ChatRs.Lib.HighWater
import ChatRs.Lib.Postcard
import ChatRs.Lib.Decoder
import ChatRs.Lib.Ring
import ChatRs.Lib.Text
import ChatRs.Crypto.Room
import ChatRs.Client.Ui
import ChatRs.Client.Session
import ChatRs.Client.Authenticity
import ChatRs.Client.Replay
import ChatRs.Server.Managers
import ChatRs.Server.Room
import ChatRs.Server.Flow
import ChatRs.Server.Streams
import ChatRs.Server.Relay
import ChatRs.Server.History
import ChatRs.Server.Authenticity
import ChatRs.Crypto.Noise
import ChatRs.Server.Welcome
import ChatRs.Server.Cleanup
import ChatRs.Server.Channel
import ChatRs.Server.Join
import ChatRs.Server.Clear
import ChatRs.Crypto.Password
import ChatRs.Lib.Pattern
import ChatRs.Server.Hub
import ChatRs.Server.Probe
import ChatRs.Negotiation
import ChatRs.Server.Rejection
import ChatRs.Server.Membership
import ChatRs.Lib.Watch
import ChatRs.Server.Broadcast
import ChatRs.Lib.Precedence
import ChatRs.Server.Order
import ChatRs.Client.Keys
import ChatRs.Client.Loop
import ChatRs.Admission
import ChatRs.Alarms
import ChatRs.Server.Sweeper
import ChatRs.Server.Service
import ChatRs.Server.Rooms
import ChatRs.Server.Gate
import ChatRs.Lib.SlidingWindow
import ChatRs.Server.RateLimit
import ChatRs.Server.Throttle
import ChatRs.Server.ConnGuard
import ChatRs.Lib.Timeouts
import ChatRs.Server.Deadline
import ChatRs.Lib.Projection
import ChatRs.Server.Listener
import ChatRs.Server.Isolation
import ChatRs.Lib.LockOrder
import ChatRs.Server.Locks
import ChatRs.Crypto.Sealing
import ChatRs.Client.Grammar
import ChatRs.Lib.Provenance
import ChatRs.Client.Line
import ChatRs.Client.Display
import ChatRs.Client.Ephemeral
import ChatRs.Client.Scroll
import ChatRs.Client.Expiry
import ChatRs.Client.Viewport
import ChatRs.Client.Cursor
import ChatRs.Server.Config
import ChatRs.Cli
import ChatRs.Decode
import ChatRs.Lib.Drain
import ChatRs.Server.Shutdown
import ChatRs.Server.Schedule
import ChatRs.Server.Latecomer
import ChatRs.Client.Run
import ChatRs.Link
import ChatRs.Standing
import ChatRs.Joining
import ChatRs.Settling
import ChatRs.Lossy
import ChatRs.Chat
import ChatRs.Conversation
import ChatRs.Delivery
import ChatRs.Untrusted
import ChatRs.Server.Flood
import ChatRs.Server.Door
import ChatRs.Lib.Lane
import ChatRs.Hostile
