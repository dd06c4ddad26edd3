import Tulux.Lib.RingStore
import Tulux.Lib.Framing
import Tulux.Lib.CircularList
import Tulux.SerialLink.RoundbufFifo
import Tulux.SerialLink.Agreement
import Tulux.SerialLink.SpiDrv
import Tulux.SerialLink.SendOrder
import Tulux.Lib.Bell
import Tulux.SerialLink.Requests
import Tulux.SerialLink.Wakeups
import Tulux.Lib.BitString
import Tulux.QCoder.AsnbufFields
import Tulux.QCoder.J2735Position
import Tulux.QCoder.WsmpBits
import Tulux.QApplication.SaeApplication
import Tulux.QApplication.ReceiveLoops
import Tulux.QApplication.LdmSlots
import Tulux.GeoNetRouter.Keys
import Tulux.GeoNetRouter.Neighbors
import Tulux.GeoNetRouter.Duplicates
import Tulux.QApplication.EtsiApplication
import Tulux.SerialLink.SentBytes
import Tulux.RemoteSim.Streams
import Tulux.RemoteSim.Keepalive
import Tulux.RemoteSim.CardControl
import Tulux.RemoteSim.RemoteSimDaemon
import Tulux.Cv2xDaemon.SystemState
import Tulux.Cv2xDaemon.DataCall
import Tulux.EcallApp.ECallManager
import Tulux.QApplication.EtsiBounds
import Tulux.YxString.Search
import Tulux.YxString.HexText
import Tulux.YxString.DecText
import Tulux.Can.YxCan
import Tulux.SerialLink.Dispatcher
import Tulux.QCoder.J2735Derived
import Tulux.QCoder.EncodeMsg
import Tulux.SerialLink.RetransmissionRuns
import Tulux.QCoder.Ieee16092
import Tulux.QCoder.PsidCode
import Tulux.QCoder.AsnbufBounds
import Tulux.QCoder.J2735Sequential
import Tulux.QCoder.WsmpElements
import Tulux.QCoder.WsmpRoundTrip
import Tulux.QCoder.WsmpLoad
import Tulux.QCoder.J2735OpenTypes
import Tulux.QCoder.AsnbufAppend
import Tulux.QCoder.AsnbufJoin
import Tulux.QApplication.FilledBsm
import Tulux.QApplication.LdmFilter
import Tulux.QApplication.MacAddr
import Tulux.QApplication.SafetyThresholds
import Tulux.QCoder.CsvMessages
import Tulux.GeoNetRouter.DuplicateWindow
import Tulux.GeoNetRouter.PositionVectors
import Tulux.GeoNetRouter.LifeTimes
import Tulux.GeoNetRouter.AreaAgreement
import Tulux.GeoNetRouter.Expiry
import Tulux.GeoNetRouter.LocationService
import Tulux.QApplication.RemoteTimestamps
import Tulux.QApplication.LdmVerdict
import Tulux.QCoder.DecodeMsg
import Tulux.QCoder.VehicleMass
import Tulux.QCoder.BitReads
import Tulux.RemoteSim.ApduCases
import Tulux.RemoteSim.ApduExchange
import Tulux.GeoNetRouter.VectorRoundTrip
import Tulux.GeoNetRouter.HopLimits
import Tulux.GeoNetRouter.Forwarding
import Tulux.SerialLink.RxScan
import Tulux.Common.ConfigParser
import Tulux.SerialLink.RoundbufThreads
import Tulux.SerialLink.SpiReception
import Tulux.QApplication.EtsiNetwork
import Tulux.QApplication.EtsiFaults
import Tulux.Libril.Parcel
import Tulux.Libril.RecordStream
import Tulux.ReferenceRil.Readline
import Tulux.ReferenceRil.AtChannel
import Tulux.Libril.RilEvent
import Tulux.Libril.Requests
