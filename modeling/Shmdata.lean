import Shmdata.Runs
import Shmdata.SemOp
import Shmdata.SysVSem
import Shmdata.WriteLock
import Shmdata.Exclusion
import Shmdata.Server
import Shmdata.ServerLists
import Shmdata.ServerStreams
import Shmdata.ServerConnections
import Shmdata.ServerCounts
import Shmdata.ServerShutdown
import Shmdata.Bytes
import Shmdata.Client
import Shmdata.ConnectData
import Shmdata.Decoding
import Shmdata.System
import Shmdata.Ledger
import Shmdata.Reset
import Shmdata.Accounting
import Shmdata.Mailbox
import Shmdata.Crash
import Shmdata.Segments
import Shmdata.Delivery
import Shmdata.Stale
import Shmdata.Frames
import Shmdata.Announce
import Shmdata.Broadcast
import Shmdata.Refinement
import Shmdata.Teardown
import Shmdata.IpcTable
import Shmdata.IpcObjects
import Shmdata.WriterObject
import Shmdata.WriterSizes
import Shmdata.WriterFailures
import Shmdata.WriterCtor
import Shmdata.Startup
import Shmdata.ServerProgress
import Shmdata.Progress
import Shmdata.Quiescence
import Shmdata.SecondWriter
import Shmdata.Refusal
import Shmdata.Follower
import Shmdata.Reconnect
import Shmdata.Alternation
import Shmdata.Destruction
import Shmdata.Leaving
import Shmdata.Completion
import Shmdata.OrderedMap
import Shmdata.Regex
import Shmdata.TypeDescription
import Shmdata.TypeText
import Shmdata.TypeTokens
import Shmdata.TypeRoundTrip
import Shmdata.TypeIsolation
import Shmdata.TypeAtoms
import Shmdata.TypeGrammar
import Shmdata.TypeItems
import Shmdata.TypeFaults
import Shmdata.TypeHistory
import Shmdata.TypeFixedPoint
import Shmdata.TypeWords
import Shmdata.TypeMalformed
import Shmdata.TypeLayout
import Shmdata.TypeCodec
import Shmdata.Handshake
import Shmdata.ReadRelease
import Shmdata.GstSource
import Shmdata.GstSink
import Shmdata.GstRender
import Shmdata.GstTransfer
import Shmdata.GstDrain
import Shmdata.Sdflow
import Shmdata.PyDatatype
import Shmdata.RefCount
import Shmdata.PyReader
import Shmdata.PyWriter
import Shmdata.PyPush
import Shmdata.PyBroadcast
import Shmdata.PyTransfer
