import Teamspeak.Transport.Handler.Resend
import Teamspeak.Transport.Handler.RoundTrip
import Teamspeak.Transport.QuickLz.Literals
import Teamspeak.Transport.Handler.AckSafety
import Teamspeak.Lib.Reorder
import Teamspeak.Transport.Handler.Wedge
import Teamspeak.Transport.Handler.KeySwitch
import Teamspeak.Transport.Handler.Stall
import Teamspeak.Transport.Handler.Queue
import Teamspeak.Transport.Handler.FirstCommand
import Teamspeak.Client.Commands.Bookkeeping
import Teamspeak.Client.Commands.Correlated
import Teamspeak.Client.Handshake.Once
import Teamspeak.Client.View.Revision
import Teamspeak.Core.Codec
import Teamspeak.Core.ChannelTree.Mirror
import Teamspeak.Core.ChannelTree.Forest
import Teamspeak.Query.Client.Isolation
import Teamspeak.Query.Client.Ends
import Teamspeak.Query.Client.Truth
import Teamspeak.Query.Client.Paired
import Teamspeak.Query.Client.Late
import Teamspeak.Query.Web.Paired
import Teamspeak.Core.Rows.Inherit
import Teamspeak.Client.Commands.ReturnCode
import Teamspeak.Stream
import Teamspeak.Stream.Published
import Teamspeak.Stream.Admission
import Teamspeak.Stream.Watching
import Teamspeak.Stream.Calls
import Teamspeak.Stream.Sound
import Teamspeak.Stream.Joins.InTurn
import Teamspeak.Query.Stream.Chunking
import Teamspeak.Client.Crypto.Puzzle
import Teamspeak.Client.Crypto.Keys
import Teamspeak.Client.Crypto.Eax
import Teamspeak.Client.Handshake.License
import Teamspeak.Client.Crypto.Identity
import Teamspeak.Client.Iterator
import Teamspeak.Client.Deliveries.Announced
import Teamspeak.Transport.Traffic.Snapshot
import Teamspeak.Core.Paging
import Teamspeak.Client.Transfer
import Teamspeak.Core.Reconnect
import Teamspeak.Client.Discovery.Srv
import Teamspeak.Client.Discovery.Address
import Teamspeak.Lib.Wildcard
import Teamspeak.Query.KnownHosts
import Teamspeak.Stream.Emitter
import Teamspeak.Stream.Publishing
import Teamspeak.Lib.Binary64
import Teamspeak.Core.Number
import Teamspeak.Core.Record
import Teamspeak.Core.Fields
import Teamspeak.Core.Notifications
import Teamspeak.Core.NumberText
import Teamspeak.Client.Crypto.ScalarMult
import Teamspeak.Query.Web.Transcription
import Teamspeak.Client.Lifecycle.Lines
import Teamspeak.Client.Lifecycle.ViewEnds
import Teamspeak.Client.Lifecycle.Answers
import Teamspeak.Client.Lifecycle.Kept
import Teamspeak.Client.Discovery.Asked
