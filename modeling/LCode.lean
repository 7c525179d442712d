import LCode.Commands.Verify.Packets
import LCode.Commands.Verify.Files
import LCode.Editor.Verify.Flat
import LCode.Editor.Verify.Selection
import LCode.Peer.Verify.BlockSync
import LCode.Peer.Verify.FileSync
import LCode.Peer.Verify.Interleaving
import LCode.Serial.Verify.Encoder
import LCode.Serial.Verify.Port
import LCode.Peer.Verify.Malformed
import LCode.Peer.Verify.Integrity
import LCode.Peer.Verify.CutPoints
import LCode.View.Verify.MouseCursor
import LCode.Editor.Verify.Exclusion
import LCode.Peer.Verify.Alignment
import LCode.View.Verify.Coherence
import LCode.App.Verify.Events
import LCode.Editor.Verify.RemoteAtomic
import LCode.Commands.Verify.BlockCursor
import LCode.Peer.Verify.SaveTarget
import LCode.View.Verify.Flip
import LCode.Editor.Verify.Word
import LCode.App.Verify.Navigation
import LCode.View.Verify.Lexer
import LCode.View.Verify.Coverage
import LCode.Peer.Verify.Selecting
import LCode.View.Verify.Rebuild
import LCode.Editor.Verify.RemoteCursor
import LCode.View.Verify.PointerCache
import LCode.App.Verify.Queues
import LCode.App.Verify.Listing
import LCode.View.Verify.Picking
import LCode.View.Verify.Painting
import LCode.View.Verify.Scrollbar
import LCode.App.Verify.Mouse
import LCode.App.Verify.Keyboard
import LCode.Commands.Verify.Pad
import LCode.Drivers.Verify.Lines
import LCode.Drivers.Verify.Wheel
import LCode.Drivers.Verify.Uart
import LCode.Drivers.Verify.Timer
import LCode.Drivers.Verify.Clock
import LCode.Drivers.Verify.Handlers
import LCode.View.Verify.Repaint
