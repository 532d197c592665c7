import Fritz2ci.Lib.Blocks
import Fritz2ci.Lib.CString
import Fritz2ci.Lib.CTime
import Fritz2ci.Lib.Calendar
import Fritz2ci.Lib.Decimal
import Fritz2ci.Lib.Delimited
import Fritz2ci.Lib.FdTable
import Fritz2ci.Lib.Heap
import Fritz2ci.Lib.KeyedTable
import Fritz2ci.Lib.Ledger
import Fritz2ci.Lib.LittleEndian
import Fritz2ci.Lib.LocalTime
import Fritz2ci.Lib.Machine
import Fritz2ci.Lib.Memo
import Fritz2ci.Lib.OwnFds
import Fritz2ci.Lib.Paging
import Fritz2ci.Lib.Ranked
import Fritz2ci.Lib.Reading
import Fritz2ci.Lib.Records
import Fritz2ci.Lib.Rewriting
import Fritz2ci.Lib.Socket
import Fritz2ci.Lib.SqlText
import Fritz2ci.Lib.Stores
import Fritz2ci.Lib.XmlTree
import Fritz2ci.Proofs.AddCaller
import Fritz2ci.Proofs.AreaIndex
import Fritz2ci.Proofs.AreaSearch
import Fritz2ci.Proofs.AreaUnknown
import Fritz2ci.Proofs.Backup
import Fritz2ci.Proofs.Broadcast
import Fritz2ci.Proofs.CallLog
import Fritz2ci.Proofs.CallPages
import Fritz2ci.Proofs.CallQueue
import Fritz2ci.Proofs.CallTimes
import Fritz2ci.Proofs.CallerMap
import Fritz2ci.Proofs.ClientList
import Fritz2ci.Proofs.Connecting
import Fritz2ci.Proofs.ControlPipe
import Fritz2ci.Proofs.Daemon
import Fritz2ci.Proofs.DataSet
import Fritz2ci.Proofs.DbStatements
import Fritz2ci.Proofs.Delivery
import Fritz2ci.Proofs.Descriptors
import Fritz2ci.Proofs.FdTests
import Fritz2ci.Proofs.Framing
import Fritz2ci.Proofs.LookupCache
import Fritz2ci.Proofs.LookupDelivery
import Fritz2ci.Proofs.LookupHeap
import Fritz2ci.Proofs.MessageFraming
import Fritz2ci.Proofs.MessageIdentity
import Fritz2ci.Proofs.MsgId
import Fritz2ci.Proofs.MsnTable
import Fritz2ci.Proofs.NetlinkDelivery
import Fritz2ci.Proofs.NetlinkSafety
import Fritz2ci.Proofs.NotificationGrammar
import Fritz2ci.Proofs.PageMatching
import Fritz2ci.Proofs.PartTiling
import Fritz2ci.Proofs.PayloadRead
import Fritz2ci.Proofs.PayloadRoundTrip
import Fritz2ci.Proofs.PayloadStrings
import Fritz2ci.Proofs.PayloadWrite
import Fritz2ci.Proofs.PhoneBook
import Fritz2ci.Proofs.PrepareUrl
import Fritz2ci.Proofs.ProtocolVersion
import Fritz2ci.Proofs.Reassembly
import Fritz2ci.Proofs.Reconnect
import Fritz2ci.Proofs.RecvFailure
import Fritz2ci.Proofs.RecvSafety
import Fritz2ci.Proofs.RemoveEscapes
import Fritz2ci.Proofs.RingStages
import Fritz2ci.Proofs.SentBytes
import Fritz2ci.Proofs.ServerEnd
import Fritz2ci.Proofs.Shutdown
import Fritz2ci.Proofs.SourceFile
import Fritz2ci.Proofs.Startup
import Fritz2ci.Proofs.Statements
import Fritz2ci.Proofs.StreamTransfer
import Fritz2ci.Proofs.TableFree
import Fritz2ci.Proofs.TableRoundTrip
import Fritz2ci.Proofs.Transfer
import Fritz2ci.Proofs.UserIsolation
import Fritz2ci.Spec.AreaCodes
import Fritz2ci.Spec.CIDBConnection
import Fritz2ci.Spec.CIDBLayout
import Fritz2ci.Spec.CIDBMessages
import Fritz2ci.Spec.CIDBPayload
import Fritz2ci.Spec.CIData
import Fritz2ci.Spec.CIServer
import Fritz2ci.Spec.CallRows
import Fritz2ci.Spec.ClientList
import Fritz2ci.Spec.ClientMessage
import Fritz2ci.Spec.Connecting
import Fritz2ci.Spec.Daemon
import Fritz2ci.Spec.DbHandler
import Fritz2ci.Spec.DbStatements
import Fritz2ci.Spec.Fritz
import Fritz2ci.Spec.FritzListener
import Fritz2ci.Spec.Listener
import Fritz2ci.Spec.Lookup
import Fritz2ci.Spec.LookupHeap
import Fritz2ci.Spec.Main
import Fritz2ci.Spec.MsnLookup
import Fritz2ci.Spec.Netlink
import Fritz2ci.Spec.Notification
import Fritz2ci.Spec.PrepareUrl
import Fritz2ci.Spec.RemoveEscapes
import Fritz2ci.Spec.Requests
import Fritz2ci.Spec.RingRecord
import Fritz2ci.Spec.ServerThread
import Fritz2ci.Spec.Shutdown
import Fritz2ci.Spec.Sources
import Fritz2ci.Spec.Startup
import Fritz2ci.Spec.Statements
