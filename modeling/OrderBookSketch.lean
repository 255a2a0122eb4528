import OrderBookSketch.Library.Loop
import OrderBookSketch.Library.Probing
import OrderBookSketch.Library.Run
import OrderBookSketch.Library.OrderedMap
import OrderBookSketch.HashMap
import OrderBookSketch.HashMapInvariant
import OrderBookSketch.HashMapRun
import OrderBookSketch.Message
import OrderBookSketch.OrderBookType2
import OrderBookSketch.OrderBookType2Index
import OrderBookSketch.Library.Ledger
import OrderBookSketch.OrderBookType2Levels
import OrderBookSketch.OrderBookType2Run
import OrderBookSketch.OrderBookType2Steps
import OrderBookSketch.OrderBookType2Quotes
import OrderBookSketch.OrderBookType2Reference
import OrderBookSketch.OrderBookType2Trades
import OrderBookSketch.Library.MultiMap
import OrderBookSketch.OrderBookImproved
import OrderBookSketch.OrderBookImprovedReference
import OrderBookSketch.BookListings
import OrderBookSketch.OrderBookManager
import OrderBookSketch.OrderBookManagerRouting
import OrderBookSketch.Depth
import OrderBookSketch.DepthSlots
import OrderBookSketch.DepthChanges
import OrderBookSketch.Library.OrderedMapPosition
import OrderBookSketch.DepthLadder
import OrderBookSketch.DepthRun
import OrderBookSketch.OrderBook
import OrderBookSketch.OrderBookTotals
import OrderBookSketch.OrderBookDepth
import OrderBookSketch.ReadThread
import OrderBookSketch.IncomingMsgQ
import OrderBookSketch.OrderPool
import OrderBookSketch.ExchangeSession
import OrderBookSketch.Library.Codec
import OrderBookSketch.MktData
import OrderBookSketch.Publisher
import OrderBookSketch.Subscriber
import OrderBookSketch.OrderGenerator
import OrderBookSketch.Referencer
import OrderBookSketch.Logger
import OrderBookSketch.Library.Ring
import OrderBookSketch.FastBuffer
import OrderBookSketch.ReadThreadCuts
import OrderBookSketch.FlowControl
import OrderBookSketch.Library.Total
import OrderBookSketch.FlowControlTotals
import OrderBookSketch.OrderPoolCalls
import OrderBookSketch.ExchangeConnection
import OrderBookSketch.SocketUtils
import OrderBookSketch.SessionSockets
import OrderBookSketch.TestRequests
import OrderBookSketch.ReferencerDispatch
import OrderBookSketch.ReferencerDriver
import OrderBookSketch.OrderBookImprovedThrows
import OrderBookSketch.OrderBookType2Absent
import OrderBookSketch.OrderBookType2Flags
import OrderBookSketch.DepthAbsent
import OrderBookSketch.QuantityChecks
import OrderBookSketch.HashMapClear
import OrderBookSketch.FlowControlAllowance
import OrderBookSketch.FreeList
import OrderBookSketch.FreeListSync
import OrderBookSketch.LinkedMsgList
import OrderBookSketch.Library.Interleaving
import OrderBookSketch.Library.ChainGaps
import OrderBookSketch.FreeListThreads
import OrderBookSketch.FreeListInterleaving
import OrderBookSketch.MsgListThreads
import OrderBookSketch.MsgListInterleaving
import OrderBookSketch.MsgQ
import OrderBookSketch.MsgQThreads
import OrderBookSketch.MsgQInterleaving
import OrderBookSketch.LocklessQ
import OrderBookSketch.LocklessQThreads
import OrderBookSketch.LocklessQInterleaving
import OrderBookSketch.Library.Buffer
import OrderBookSketch.Library.Decimal
import OrderBookSketch.FastDigits
import OrderBookSketch.SeqNumStore
import OrderBookSketch.MsgField
import OrderBookSketch.Library.ByteOrder
import OrderBookSketch.ByteConverter
import OrderBookSketch.Library.LowerBound
import OrderBookSketch.Library.OrderStatistic
import OrderBookSketch.LatencyChecker
import OrderBookSketch.HexString
import OrderBookSketch.OrderGeneratorCopies
import OrderBookSketch.Library.Keyed
import OrderBookSketch.SubscriberBooks
import OrderBookSketch.MarketFeed
import OrderBookSketch.MarketFeedReference
import OrderBookSketch.OrderBookImprovedLive
import OrderBookSketch.OrderBookManagerImproved
import OrderBookSketch.HashMapErase
import OrderBookSketch.DepthRoundTrip
