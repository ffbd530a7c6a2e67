import SimpleSatOps.Proto.GF256
import SimpleSatOps.Lib.Locator
import SimpleSatOps.Proto.Rs
import SimpleSatOps.Lib.Hamming
import SimpleSatOps.Proto.Rs.Code
import SimpleSatOps.Proto.Rs.Berlekamp
import SimpleSatOps.Proto.Rs.Chien
import SimpleSatOps.Proto.Rs.Forney
import SimpleSatOps.Proto.Rs.Decode
import SimpleSatOps.Lib.Bits
import SimpleSatOps.Lib.FirstMin
import SimpleSatOps.Proto.Golay24
import SimpleSatOps.Proto.Ax100
import SimpleSatOps.Proto.Ax100.Channel
import SimpleSatOps.Proto.Csp
import SimpleSatOps.Pipeline.TxBurst
import SimpleSatOps.Pipeline.RxWindow
import SimpleSatOps.Lib.Ring
import SimpleSatOps.Pipeline.Dedup
import SimpleSatOps.Dsp.AsmSearch
import SimpleSatOps.Lib.Retry
import SimpleSatOps.Dsp.ModemIq
import SimpleSatOps.Pipeline.DecodeLoop
import SimpleSatOps.Pipeline.SyncTolerance
import SimpleSatOps.Lib.Lines
import SimpleSatOps.Proto.AgendaLine
import SimpleSatOps.Proto.TcmdLint
import SimpleSatOps.Ui.AgendaGate
import SimpleSatOps.Lib.Decimal
import SimpleSatOps.Pipeline.TxHandoff
import SimpleSatOps.Proto.SsoPseudo
import SimpleSatOps.Proto.TcmdCommand
import SimpleSatOps.Proto.TcmdGate
import SimpleSatOps.Ui.AutoTcmd.Agenda
import SimpleSatOps.Ui.AutoTcmd.FailClosed
import SimpleSatOps.Ui.AutoTcmd.Parked
import SimpleSatOps.Ipc.Decode
import SimpleSatOps.Ipc.Decoded
import SimpleSatOps.Ipc.Encode
import SimpleSatOps.Ipc.WireText
import SimpleSatOps.Lib.DoubleReread
import SimpleSatOps.Ui.Viewer
import SimpleSatOps.Ipc.Broadcast
import SimpleSatOps.Ipc.Forward
import SimpleSatOps.Db.Batch
import SimpleSatOps.Db.Dedup
import SimpleSatOps.Db.Flush
import SimpleSatOps.Db.Migration
import SimpleSatOps.Hw.RotatorAsync
import SimpleSatOps.Hw.RotatorAsync.Fresh
import SimpleSatOps.Hw.RotatorAsync.Order
import SimpleSatOps.Ipc.Audit
import SimpleSatOps.Ipc.Audit.Calls
import SimpleSatOps.Ipc.Audit.Complete
import SimpleSatOps.Ipc.Transport.Chunks
import SimpleSatOps.Ipc.Transport.Close
import SimpleSatOps.Ipc.Transport.Outbound
import SimpleSatOps.Proto.TcmdClean
import SimpleSatOps.Ui.AutoTcmd.CleanSend
import SimpleSatOps.Beacon.Cts1
import SimpleSatOps.Beacon.FieldText
import SimpleSatOps.Dsp.AsmBytes
import SimpleSatOps.Hw.TrSwitch
import SimpleSatOps.Ipc.Audit.Record
import SimpleSatOps.Ipc.Base64
import SimpleSatOps.Lib.Crc
import SimpleSatOps.Lib.Groups
import SimpleSatOps.Pipeline.Rescue
import SimpleSatOps.Proto.Crc32c
import SimpleSatOps.Proto.Rs.Shortened
import SimpleSatOps.Proto.TcmdGrammar
import SimpleSatOps.Beacon.Print
import SimpleSatOps.Pipeline.AudioRing
import SimpleSatOps.Pipeline.RecordPacket
import SimpleSatOps.Proto.GnssFrag
import SimpleSatOps.Utils.CamJpeg
import SimpleSatOps.Utils.CamJpeg.Copies
import SimpleSatOps.Utils.CamJpeg.Recovery
import SimpleSatOps.Utils.Grouping
import SimpleSatOps.Utils.MpiGaps
import SimpleSatOps.Utils.WavRead
import SimpleSatOps.Lib.Csv
import SimpleSatOps.Lib.JsonString
import SimpleSatOps.Utils.PacketQuery
import SimpleSatOps.Utils.PacketQuery.CsvExport
import SimpleSatOps.Utils.PacketQuery.JsonExport
import SimpleSatOps.Utils.MagReports.Holes
import SimpleSatOps.Orbit.Pursuit
import SimpleSatOps.Orbit.Oem.Interpolation
import SimpleSatOps.Orbit.Prediction.Complete
import SimpleSatOps.Control.OperatorAudio.Subscriptions
import SimpleSatOps.Ui.TextField.Buffer
import SimpleSatOps.Dsp.MonitorSquelch
import SimpleSatOps.Dsp.Viterbi
import SimpleSatOps.Utils.BurstCsv
import SimpleSatOps.Utils.TcmdImport
import SimpleSatOps.Ipc.PassSchedule.Codec
import SimpleSatOps.Pipeline.RxPanel
import SimpleSatOps.Control.ScanSky
import SimpleSatOps.Orbit.TleCsv.Faithful
import SimpleSatOps.Dsp.Fft
import SimpleSatOps.Utils.Detrend
import SimpleSatOps.Lib.Blocks
import SimpleSatOps.Dsp.IqBurst
import SimpleSatOps.Lib.Libm
import SimpleSatOps.Dsp.FirDecim
import SimpleSatOps.Ui.CmdLine.Run
import SimpleSatOps.Pipeline.BurstLink
import SimpleSatOps.Pipeline.LiveSession
import SimpleSatOps.Ipc.Transport.Conversation
import SimpleSatOps.Ui.TxCompose.Sends
import SimpleSatOps.Control.PassTracking
import SimpleSatOps.Lib.Unwrap
