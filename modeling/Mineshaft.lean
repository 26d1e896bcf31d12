import Mineshaft.Core.RoundTrip
import Mineshaft.Core.Broadcast
import Mineshaft.Core.FrameLimit
import Mineshaft.Core.Truncation
import Mineshaft.Core.Eviction
import Mineshaft.Core.Heartbeat
import Mineshaft.Core.Unambiguous
import Mineshaft.Core.Pipe
import Mineshaft.Core.SessionRegistry
import Mineshaft.Platform.Windows
import Mineshaft.Platform.WindowsProcesses
import Mineshaft.Platform.Android
import Mineshaft.Platform.Linux
import Mineshaft.Server.FrameSize
import Mineshaft.Server.Recipients
import Mineshaft.Server.Registration
import Mineshaft.Server.ReturnRoute
import Mineshaft.Server.AddressReuse
import Mineshaft.Server.Listed
import Mineshaft.Server.Handshake
import Mineshaft.Hosting.Agreement
import Mineshaft.Hosting.Convergence
import Mineshaft.Signaling.EndToEnd
import Mineshaft.Client.Advertising
import Mineshaft.Client.Replies
import Mineshaft.Client.Liveness
import Mineshaft.Client.Probe
import Mineshaft.Client.Timing
import Mineshaft.Client.Probing
import Mineshaft.Server.Directory
import Mineshaft.Server.Idle
import Mineshaft.Browsing.Worlds
import Mineshaft.Sharing.EndToEnd
