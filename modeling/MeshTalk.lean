import MeshTalk.EventLog.Convergence
import MeshTalk.Ratchet.Delivery
import MeshTalk.Storage.Sessions
import MeshTalk.EventLog.Reopen
import MeshTalk.Channel.Rotation
import MeshTalk.Channel.Genesis
import MeshTalk.Channel.Epoch
import MeshTalk.Channel.Wakeups
import MeshTalk.Peers.Reopening
import MeshTalk.File.Transfer
import MeshTalk.AccountGroup.Cancellation
import MeshTalk.AccountSync.Sweep
import MeshTalk.Identity.Namespace
import MeshTalk.Identity.Password
import MeshTalk.Recovery.Publication
import MeshTalk.Personal.Replay
import MeshTalk.Favorites.Devices
import MeshTalk.Bridge.Federation
import MeshTalk.Message.Expiry
import MeshTalk.Postoffice.Mismatch
import MeshTalk.Postoffice.Opaque
import MeshTalk.AccountSync.Fanout
import MeshTalk.File.SaveName
import MeshTalk.EventLog.Frames
import MeshTalk.EventLog.Preflight
import MeshTalk.Channel.Convergence
import MeshTalk.Channel.Receivers
import MeshTalk.Transport.Presence
import MeshTalk.EventLog.Network
