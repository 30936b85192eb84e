import HologramLive.Registry.Local
import HologramLive.Registry.KappaWalk
import HologramLive.View.RoundTrip
import HologramLive.Plan.Attenuation
import HologramLive.Plan.Runnable
import HologramLive.Plan.Tree
import HologramLive.Lifecycle.Shutdown
import HologramLive.Runtime.Accounting
import HologramLive.Store.Integrity
import HologramLive.Store.Objects
import HologramLive.Artifact.Pulled
import HologramLive.Artifact.Race
import HologramLive.HoloGraph.Closure
import HologramLive.Transport.Parity
import HologramLive.Client.Explain
import HologramLive.Client.Walk
import HologramLive.Process.Guard
import HologramLive.Registry.KappaCoherence
import HologramLive.Catalog.Persistence
import HologramLive.Store.Linearizable
import HologramLive.Repo.Canonical
import HologramLive.Repo.Reassembly
import HologramLive.Desktop.Attachment
import HologramLive.Desktop.Sessions
import HologramLive.Transport.Gating
import HologramLive.Watch.Persistence
import HologramLive.Channel.Delivery
import HologramLive.Artifact.Canonical
import HologramLive.Desktop.Addressing
import HologramLive.Artifact.RoundTrip
import HologramLive.Registry.CreationTime
import HologramLive.Config.Upgrade
import HologramLive.Gateway.RoundTrip
import HologramLive.ModelHub.HubRuns
import HologramLive.ModelHub.ZipVerified
import HologramLive.Plan.Projection
import HologramLive.Transport.Resolution
import HologramLive.Config.Loopback
import HologramLive.Update.Runnable
import HologramLive.Rootfs.Canonical
import HologramLive.Fetch.Mediated
import HologramLive.Component.Quota
import HologramLive.Component.Cancellation
import HologramLive.Plugin.Boundary
import HologramLive.Audit.Admission
import HologramLive.ModelHub.LedgerChain
import HologramLive.Browse.Query
import HologramLive.Browse.History
import HologramLive.HoloGraph.Frame
import HologramLive.Gateway.Timestamp
import HologramLive.Weightc.SessionTable
import HologramLive.Python.ImageTag
import HologramLive.Python.Fingerprint
import HologramLive.ModelHub.Resumable
import HologramLive.Registry.KappaUntrusted
import HologramLive.Lib.Worklist
import HologramLive.Python.DependencyPlan
import HologramLive.ModelHub.Mirror
import HologramLive.ModelHub.MirroredHub
import HologramLive.ModelHub.Download
import HologramLive.Compile.Sealed
import HologramLive.Compile.Check
import HologramLive.History.Linearizable
import HologramLive.View.Directory
import HologramLive.Weightc.SessionActor
