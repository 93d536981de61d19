import ArchNet.Lts
import ArchNet.Bytes
import ArchNet.HashTable
import ArchNet.SocketStream
import ArchNet.MuxDefine
import ArchNet.MuxStream
import ArchNet.MuxSession
import ArchNet.MuxSteps
import ArchNet.MuxFrames
import ArchNet.WireAtomicity
import ArchNet.RecvWindow
import ArchNet.SendWindow
import ArchNet.Registry
import ArchNet.Identity
import ArchNet.Demux
import ArchNet.DeferredReplies
import ArchNet.Isolation
import ArchNet.SimultaneousClose
import ArchNet.EndPoint
import ArchNet.SocketPool
import ArchNet.MuxClient
import ArchNet.EndpointReuse
import ArchNet.ClientMutex
import ArchNet.PoolRepresentation
import ArchNet.DescriptorOwnership
import ArchNet.WebSocket
import ArchNet.RecvLoop
import ArchNet.Reassembly
import ArchNet.ConnectionIsolation
import ArchNet.PBCodec
import ArchNet.RpcStreaming
import ArchNet.RpcRequest
import ArchNet.RpcResponse
import ArchNet.RpcCompletion
import ArchNet.RpcHostile
import ArchNet.RpcClient
import ArchNet.HttpConnection
import ArchNet.Buffer
import ArchNet.BufferRewind
import ArchNet.Future
import ArchNet.FutureLocks
import ArchNet.Continuations
import ArchNet.WorkerPool
import ArchNet.LeastLoaded
import ArchNet.EndOfStream
import ArchNet.SendAck
import ArchNet.MuxTransport
import ArchNet.HeaderCodec
import ArchNet.FrameRoundTrip
import ArchNet.Backtrack
import ArchNet.Trie
import ArchNet.TrieMatch
import ArchNet.TrieGrowth
import ArchNet.Router
import ArchNet.RouteGroup
import ArchNet.RouteParams
import ArchNet.GraftWalk
import ArchNet.MatchAnswers
import ArchNet.GraftAttempts
import ArchNet.RejectedPattern
import ArchNet.Dispatch
import ArchNet.MiddlewareRouting
import ArchNet.Lines
import ArchNet.Multimap
import ArchNet.HttpUtils
import ArchNet.HttpClientRequest
import ArchNet.UrlParser
import ArchNet.HttpQuery
import ArchNet.Unmasking
import ArchNet.ClientMasking
import ArchNet.CodecRoundTrip
import ArchNet.CompressionRoom
import ArchNet.ExactReceive
import ArchNet.ParallelChannel
import ArchNet.HeaderAssembly
import ArchNet.WaitAll
import ArchNet.HttpResponse
import ArchNet.EcmaScript
import ArchNet.TreeMatch
import ArchNet.KeyTree
import ArchNet.TreeRouter
import ArchNet.TreeSearch
import ArchNet.TreeDispatch
import ArchNet.TrieSimulation
import ArchNet.TrieShape
import ArchNet.RouteOrder
import ArchNet.TrieListing
import ArchNet.RouteListing
import ArchNet.OrderedMap
import ArchNet.HostPort
import ArchNet.LoadBalance
import ArchNet.StrictWeak
import ArchNet.ServerOrder
import ArchNet.Resolver
import ArchNet.Base64
import ArchNet.UrlCodec
import ArchNet.BufferFilling
import ArchNet.Rings
import ArchNet.IntrusiveList
import ArchNet.ListSequence
import ArchNet.Serial
import ArchNet.Arq
import ArchNet.Kcp
import ArchNet.KcpSides
import ArchNet.KcpWindows
import ArchNet.KcpWire
import ArchNet.KcpDatagrams
import ArchNet.KcpLink
import ArchNet.KcpTransfer
import ArchNet.KcpClock
