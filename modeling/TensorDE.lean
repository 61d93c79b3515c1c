import TensorDE.Wm.Safety
import TensorDE.Dbus.ObjectTree
import TensorDE.Dbus.Delivery
import TensorDE.Dbus.Handshake
import TensorDE.Dbus.Reader
import TensorDE.Dbus.RoundTrip
import TensorDE.Dbus.Signal
import TensorDE.Renderer.ColorTargetPoolRuns
import TensorDE.Renderer.RenderGraphHazards
import TensorDE.Renderer.UploadBeltRuns
import TensorDE.Scene.Strict
import TensorDE.Files.ListingWorkerRuns
import TensorDE.Kdl.Progress
import TensorDE.Kdl.SkipNode
import TensorDE.Kdl.IntScalars
import TensorDE.Kdl.BareIdent
import TensorDE.Kdl.QuerySound
import TensorDE.Files.Listed
import TensorDE.Renderer.PresentationRuns
import TensorDE.Wm.CommitRuns
import TensorDE.Protocol.RegistryRuns
import TensorDE.Wm.CommitSchedulerRuns
import TensorDE.Wm.SessionLockRuns
import TensorDE.Protocol.ToplevelRuns
import TensorDE.Protocol.DragRuns
import TensorDE.Wm.BufferReleaseRuns
import TensorDE.EventLayer.QueueRuns
import TensorDE.Files.Privilege
import TensorDE.Files.ExternalEditRuns
import TensorDE.Xwayland.PropertyWorker
import TensorDE.Xwayland.MapRequests
import TensorDE.Ipc.ServerRuns
import TensorDE.Wm.FrameSchedulerRuns
import TensorDE.Files.CacheRuns
import TensorDE.Renderer.DescriptorUpload
import TensorDE.Renderer.TextureUpload
import TensorDE.Wm.Region
import TensorDE.Files.PaneRuns
import TensorDE.Files.TransferExact
import TensorDE.Renderer.BinaryCache
import TensorDE.Wm.LayerScene
import TensorDE.Wm.LockConfigures
import TensorDE.Protocol.ConfigureRing
import TensorDE.Protocol.LayerMap
import TensorDE.Wm.OutputTopology
import TensorDE.Wallpaper.Lz4Block
import TensorDE.Renderer.MemoryAllocatorRuns
import TensorDE.Protocol.PointerConstraintRuns
import TensorDE.Files.Clipboard
import TensorDE.Files.ExecLine
import TensorDE.Wm.Layout
import TensorDE.Kdl.Scanners
import TensorDE.Wallpaper.AlphaCoverage
