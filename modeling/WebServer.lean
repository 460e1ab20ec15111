import WebServer.Lib.Run
import WebServer.Lib.Bytes
import WebServer.Lib.DList
import WebServer.Lib.PriorityQueue
import WebServer.Lib.ByteMemory
import WebServer.Lib.Territory
import WebServer.Lib.TracedMemory
import WebServer.Lib.CInt
import WebServer.Memory.MemoryPool
import WebServer.Memory.Division
import WebServer.Memory.Safety
import WebServer.Memory.Threads
import WebServer.Memory.Alignment
import WebServer.Timer.TimerHeap
import WebServer.Timer.Punctual
import WebServer.Cache.LFUCache
import WebServer.Cache.Shape
import WebServer.Cache.AddFreq
import WebServer.Cache.Lists
import WebServer.Cache.Repr
import WebServer.Cache.Concurrent
import WebServer.Cache.Reference
import WebServer.Cache.Refine
import WebServer.Utility.SocketUtils
import WebServer.Utility.Conservation
import WebServer.Event.Epoll
import WebServer.Http.HttpType
import WebServer.Http.ParseLine
import WebServer.Http.ParseHeader
import WebServer.Http.Response
import WebServer.Http.HandleRead
import WebServer.Http.Answer
import WebServer.Http.Framing
import WebServer.Http.HeadRequest
import WebServer.Lib.Path
import WebServer.Http.DocumentRoot
import WebServer.Event.Channel
import WebServer.Event.OutputOrder
import WebServer.Server.WebServer
import WebServer.Lib.Turns
import WebServer.Server.RoundRobin
import WebServer.Server.Backlog
import WebServer.Event.EventLoop
import WebServer.Event.Ownership
import WebServer.Event.Tended
import WebServer.Http.Request
import WebServer.Http.RequestLine
import WebServer.Http.HeaderTrace
import WebServer.Http.HeaderGrammar
import WebServer.Http.Delivery
import WebServer.Http.Pipeline
import WebServer.Http.Resume
import WebServer.Http.Segmentation
import WebServer.Http.HeaderOffsets
import WebServer.Event.HeaderCalls
import WebServer.Http.LostLine
import WebServer.Http.LastByte
import WebServer.Http.SafeCuts
import WebServer.Log.IntToString
import WebServer.Log.Logging
import WebServer.Log.RawStream
import WebServer.Log.Shutdown
import WebServer.Thread.Completion
import WebServer.Thread.TaskRing
import WebServer.Thread.Shutdown
import WebServer.Event.WakeUp
import WebServer.Event.StopLoop
import WebServer.Skiplist.Refine
import WebServer.Skiplist.Persist
import WebServer.Ftp.UserManager
import WebServer.Lib.Program
import WebServer.Ftp.FileOperator
import WebServer.Ftp.Authentication
import WebServer.Ftp.Effects
import WebServer.Ftp.Transfer
import WebServer.Ftp.Deletion
import WebServer.Ftp.ChangeDir
import WebServer.Ftp.Dispatch
import WebServer.Event.KeepAlive
import WebServer.Http.PostBody
import WebServer.WebBench.BuildRequest
import WebServer.Server.Dispatch
import WebServer.Cache.Races
import WebServer.Log.Records
import WebServer.Lib.Monitor
import WebServer.Thread.BlockQueue
import WebServer.Thread.Handshake
import WebServer.Http.Client
import WebServer.Event.Client
import WebServer.Ftp.Course
import WebServer.Lib.Crash
import WebServer.Ftp.Crash
import WebServer.WebBench.Worker
import WebServer.WebBench.Tally
import WebServer.Event.Served
import WebServer.WebBench.Served
import WebServer.Memory.Reuse
import WebServer.Skiplist.Random
