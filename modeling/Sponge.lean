import Sponge.Lib.Run
import Sponge.Lib.Excerpt
import Sponge.Lib.Tiles
import Sponge.Lib.Spans
import Sponge.Lib.BigEndian
import Sponge.Lib.OnesComplement
import Sponge.Lib.Call
import Sponge.Lib.Moves
import Sponge.Lib.Pieces
import Sponge.ByteStream.Members
import Sponge.StreamReassembler.Prefix
import Sponge.StreamReassembler.Window
import Sponge.StreamReassembler.Complete
import Sponge.StreamReassembler.Ending
import Sponge.StreamReassembler.Apart
import Sponge.StreamReassembler.Origin
import Sponge.StreamReassembler.Members
import Sponge.TCPReceiver.Ackno
import Sponge.TCPReceiver.Lag
import Sponge.TCPReceiver.Placement
import Sponge.TCPSender.Outstanding
import Sponge.TCPSender.Transmissions
import Sponge.TCPSender.Fill
import Sponge.TCPConnection.Wake
import Sponge.TCPConnection.Growth
import Sponge.TCPConnection.Backoff
import Sponge.TCPConnection.Close
import Sponge.TCPConnection.Shift
import Sponge.TCPConnection.Reply
import Sponge.TCPConnection.Stamp
import Sponge.TCPConnection.Listen
import Sponge.TCPConnection.Inactive
import Sponge.TCPConnection.LateBytes
import Sponge.Network.Agreement
import Sponge.Network.Fuel
import Sponge.IPv4Datagram.Parse
import Sponge.IPv4Datagram.Roundtrip
import Sponge.TCPSegment.Parse
import Sponge.TCPSegment.Roundtrip
import Sponge.Buffer
import Sponge.Parsers
import Sponge.TCPOverIPv4Adapter.Session
import Sponge.NetworkInterface.Fifo
import Sponge.NetworkInterface.Requests
import Sponge.NetworkInterface.Tables
import Sponge.NetworkInterface.Freshness
import Sponge.EventLoop.Cancel
import Sponge.TCPSpongeSocket.Exceptions
import Sponge.Hosts.Delivery
import Sponge.Hosts.Ethernet
import Sponge.Lan.Progress
import Sponge.StreamCopy
import Sponge.Hosts.Programs
