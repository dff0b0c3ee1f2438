import Clither.Lib.Run
import Clither.Lib.Probe
import Clither.Lib.Chain
import Clither.Mem
import Clither.Wrap
import Clither.HmProbes
import Clither.NetAddr
import Clither.RbOps
import Clither.Vec
import Clither.CmdQueue
import Clither.Snake
import Clither.RollbackExact
import Clither.ClientSnake
import Clither.ClientRuns
import Clither.CommandsArrive
import Clither.Server
import Clither.RemovedSender
import Clither.UnknownSender
import Clither.HmRefines
import Clither.CommandCodec
import Clither.Client
import Clither.Framing
import Clither.Flush
import Clither.Equidistant
import Clither.CurveShape
import Clither.ClientLoop
import Clither.ServerSteps
import Clither.SoleClient
import Clither.PositionRange
import Clither.HeadMotion
import Clither.Consumption
import Clither.JoinSync
import Clither.ClientTraffic
import Clither.Proximity
import Clither.JoinOnce
import Clither.MsgText
import Clither.Feedback
import Clither.FrameQueue
import Clither.RbRefines
import Clither.Bset
import Clither.BmapOom
import Clither.BmapGrowth
import Clither.SegmentGrowth
import Clither.StaleSegments
import Clither.IniParsers
import Clither.ServerSaves
import Clither.TrailLength
import Clither.DistanceSearch
import Clither.StrlistRuns
import Clither.CurveBox
import Clither.Lib.Pace
import Clither.Tick
import Clither.Lib.DelayLine
import Clither.Args
import Clither.CommandLine
import Clither.McdWifi
import Clither.Isolation
import Clither.Silence
import Clither.ServerInstance
import Clither.Sentence
import Clither.Lib.Potential
import Clither.ClientPace
import Clither.ClientLife
import Clither.Proxied
import Clither.ClientJoin
