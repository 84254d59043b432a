import Esound.Reset
import Esound.Streams
import Esound.SampleRefs
import Esound.Conservation
import Esound.Buffers
import Esound.Gate
import Esound.Admission
import Esound.Interrupts
import Esound.Standby
import Esound.Client
import Esound.AllInfo
import Esound.Playback
import Esound.Looping
import Esound.Swapping
import Esound.Complete
import Esound.Resuming
import Esound.Tuned
import Esound.Lookup
import Esound.BitExact
import Esound.FreshAudio
import Esound.ClientOrder
import Esound.FastPaths
import Esound.MixAndCopy
import Esound.Widths
import Esound.Scales
import Esound.WriteSize
import Esound.DeviceFrames
import Esound.StreamSwap
import Esound.SampleCommands
import Esound.Framing
import Esound.Calls
import Esound.Lockstep
import Esound.SampleReading
import Esound.PartialWrites
import Esound.StreamHeader
import Esound.MmapClock
import Esound.HostString
import Esound.FileCache
import Esound.Config
import Esound.MainLoop
import Esound.Rounds
import Esound.Idle
import Esound.AuthFile
import Esound.Home
import Esound.Watch
import Esound.Bounds
import Esound.Startup
import Esound.Echo
import Esound.Spawn
import Esound.SocketDir
import Esound.Descriptors
import Esound.Delivery
import Esound.StreamCalls
import Esound.OpenSound
