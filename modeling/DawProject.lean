import DawProject.Lib.HalfUp
import DawProject.Lib.LeadingRun
import DawProject.Lib.Machine
import DawProject.Tempo.Table
import DawProject.Tempo.Web
import DawProject.Tempo.Engine
import DawProject.Tempo.RoundTrip
import DawProject.Tempo.Twins
import DawProject.Lib.Voices
import DawProject.Midi.Schedule
import DawProject.Lib.Register
import DawProject.Lib.Run
import DawProject.Midi.SessionLoop
import DawProject.Audio.Callback
import DawProject.Audio.PartialBlocks
import DawProject.Audio.Held
import DawProject.Audio.TimelineNotes
import DawProject.Audio.Steps
import DawProject.Audio.Rebuild
import DawProject.Audio.LiveNotes
import DawProject.Audio.Partition
import DawProject.Audio.Automation
import DawProject.Document.Geometry
import DawProject.Document.Resolve
import DawProject.Document.Drawn
import DawProject.Document.Alike
import DawProject.Document.Project
import DawProject.Document.Exchange
import DawProject.Server.NoGap
import DawProject.Server.Causality
import DawProject.Engine.Tree
import DawProject.Engine.Store
import DawProject.Engine.RoundTrip
import DawProject.Engine.Stem
import DawProject.Host.Ring
import DawProject.Host.Wet
import DawProject.Host.Midi
import DawProject.Host.Sync
import DawProject.Engine.StemKey
import DawProject.Document.Calls
import DawProject.Document.Journal
import DawProject.Document.Targets
import DawProject.Document.Frame
import DawProject.Document.Shared
import DawProject.Document.Quiet
import DawProject.Document.Musical
import DawProject.Document.Domains
import DawProject.Lib.ListMerge
import DawProject.Document.Lanes
import DawProject.Document.Points
import DawProject.Document.Guard
import DawProject.Server.FileStore
import DawProject.Server.Registry
import DawProject.Audio.Launch
import DawProject.Audio.Scene
import DawProject.Audio.Immediate
import DawProject.Audio.Handover
import DawProject.Audio.LaunchedCount
import DawProject.Lib.Latest
import DawProject.Network.TransportSync
import DawProject.Network.EnginePush
import DawProject.Engine.StateCapture
import DawProject.Network.Outbox
import DawProject.Network.OutboxKept
import DawProject.Engine.Export
import DawProject.Audio.LoopBraces
import DawProject.Audio.Monitor
import DawProject.Audio.Reclaim
import DawProject.Lib.Walk
import DawProject.Lib.Cut
import DawProject.Validate.Web
import DawProject.Validate.Engine
import DawProject.Validate.Faults
import DawProject.Validate.Twins
import DawProject.Midi.Exact
import DawProject.Audio.SessionClock
import DawProject.Tempo.Integral
import DawProject.Tempo.SampleError
import DawProject.Lib.Retrace
import DawProject.Document.Gesture
import DawProject.Document.Split
import DawProject.Document.TrackOrder
import DawProject.Document.TrackDrop
import DawProject.Document.NoteUndo
import DawProject.Document.Drag
import DawProject.Network.ClockOffset
import DawProject.Network.PendingAnchor
import DawProject.Document.Automation
import DawProject.Engine.Wav
import DawProject.Engine.StemMixer
import DawProject.Network.Connection
import DawProject.Host.MidiFifo
import DawProject.Host.ParamFifo
import DawProject.Engine.Sha256
import DawProject.Engine.PathSafety
import DawProject.Document.Ids
import DawProject.Server.Origin
import DawProject.Audio.RingBuffer
import DawProject.Document.ClipSelection
import DawProject.Audio.TapRing
import DawProject.Audio.TapPlayer
import DawProject.Audio.Jam
import DawProject.Lib.Delimited
import DawProject.Host.PluginScan
import DawProject.Lib.Stutter
import DawProject.Document.Pending
import DawProject.Lib.Signals
import DawProject.Playback.Clips
import DawProject.Playback.Graph
import DawProject.Playback.Stem
import DawProject.Playback.Fader
import DawProject.Lib.DelayLine
import DawProject.Playback.Builtins
import DawProject.Playback.Lines
import DawProject.Playback.Devices
import DawProject.Lib.Comb
import DawProject.Playback.Echo
import DawProject.Network.Redial
import DawProject.Audio.Limiter
import DawProject.Network.Gate
import DawProject.Host.SaveState
import DawProject.Lib.Replaced
import DawProject.Server.Assets
import DawProject.Engine.ControlLoop
import DawProject.Lib.Backoff
import DawProject.Engine.Fetch
