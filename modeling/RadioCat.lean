import RadioCat.Trace.Basic
import RadioCat.Trace.Ledger
import RadioCat.Trace.Machine
import RadioCat.Trace.Transducer
import RadioCat.Trace.Splitter
import RadioCat.Trace.Latest
import RadioCat.Trace.Reader
import RadioCat.Trace.Newest
import RadioCat.Bytes.Codec
import RadioCat.Bytes.Pairs
import RadioCat.Arith.Checked
import RadioCat.Arith.MultiplyShift
import RadioCat.Arith.FloatOps
import RadioCat.Arith.Share
import RadioCat.Arith.Float
import RadioCat.Arith.Tile
import RadioCat.Arith.Timeline
import RadioCat.Arith.Loop
import RadioCat.Assoc.SortedMap
import RadioCat.Program.Within
import RadioCat.Edit.Script
import RadioCat.Assign.Dual
import RadioCat.Assign.Tree
import RadioCat.Assign.Padded
import RadioCat.Cw.Basic
import RadioCat.Cw.Impl.Chunks
import RadioCat.Cw.Impl.Internals
import RadioCat.Cw.Impl.Api
import RadioCat.Cw.Run
import RadioCat.Cw.Moves
import RadioCat.Cw.Lemmas.Calls
import RadioCat.Cw.Lemmas.Notices
import RadioCat.Cw.Lemmas.Shape
import RadioCat.Cw.Lemmas.Refine
import RadioCat.Cw.Lemmas.Chunks
import RadioCat.Cw.Lemmas.Plans
import RadioCat.Cw.Lemmas.Send
import RadioCat.Cw.Safety.Abort
import RadioCat.Cw.Safety.Keying
import RadioCat.Cw.Safety.Lock
import RadioCat.Cw.Safety.Gate
import RadioCat.Cw.Safety.Arming
import RadioCat.Cw.Safety.Drain
import RadioCat.Cw.Safety.Text
import RadioCat.Cw.Safety.Watchdog
import RadioCat.Cw.Safety.Ident
import RadioCat.Cw.Safety.Replies
import RadioCat.Cw.Safety.Grant
import RadioCat.Cw.Safety.Settings
import RadioCat.Cw.Safety.Restore
import RadioCat.Transport.Completion
import RadioCat.Transport.Timeout
import RadioCat.Transport.Envelope
import RadioCat.Server.Release
import RadioCat.Framework.Table
import RadioCat.Framework.Formats
import RadioCat.Framework.Bcd
import RadioCat.Framework.Parameters
import RadioCat.Framework.Capabilities
import RadioCat.Server.Dispatch
import RadioCat.Server.Gate
import RadioCat.Server.Wire
import RadioCat.Diagnostics.Engine
import RadioCat.Native.Frame
import RadioCat.Native.Serve
import RadioCat.Native.Session
import RadioCat.Native.Stream
import RadioCat.Native.Signal
import RadioCat.Native.Link
import RadioCat.Native.Replies
import RadioCat.Rigctl.Lines
import RadioCat.Rigctl.Cache
import RadioCat.Rigctl.Queue
import RadioCat.Rigctl.RawCat
import RadioCat.Rigctl.CwWait
import RadioCat.Server.Dedup
import RadioCat.Server.Udp
import RadioCat.Server.Once
import RadioCat.Server.LocalChannel
import RadioCat.Server.Worker
import RadioCat.Transport.UdpSession
import RadioCat.Transport.Serial
import RadioCat.Transport.Ports
import RadioCat.Transport.Civ
import RadioCat.Transport.Tcp
import RadioCat.Transport.TcpFrames
import RadioCat.Rfc2217.Codec
import RadioCat.Rfc2217.Peer
import RadioCat.Rfc2217.Port
import RadioCat.Rfc2217.Modem
import RadioCat.Rfc2217.Data
import RadioCat.Rfc2217.Announce
import RadioCat.Cw.Safety.Charset
import RadioCat.Cw.Safety.Cadence
import RadioCat.Cw.Safety.Progress
import RadioCat.Cw.Safety.Settling
import RadioCat.Layout.Basic
import RadioCat.Layout.Solve
import RadioCat.Layout.Place
import RadioCat.Signal.Settings
import RadioCat.Signal.Bounds
import RadioCat.Signal.Sources
import RadioCat.Ui.SpectrumMap
import RadioCat.Signal.Ring
import RadioCat.Signal.Playback
import RadioCat.Signal.AudioHandOff
import RadioCat.Signal.Device
import RadioCat.Signal.RtlTcp
import RadioCat.Morse.Rng
import RadioCat.Morse.Keying
import RadioCat.Morse.Band
import RadioCat.Morse.Codec
import RadioCat.Morse.Tokenize
import RadioCat.Morse.Score
import RadioCat.Morse.Hungarian
import RadioCat.Morse.Unordered
import RadioCat.Morse.Stats
import RadioCat.Morse.Table
import RadioCat.Morse.Classifier
import RadioCat.Morse.Detector
import RadioCat.Morse.Decoder
import RadioCat.Morse.Streaming
import RadioCat.Morse.World
import RadioCat.Morse.Callsign
import RadioCat.Morse.Home
import RadioCat.Morse.Scenario
import RadioCat.Morse.Builder
import RadioCat.Morse.Dialogues
import RadioCat.Morse.Contacts
import RadioCat.Morse.Pileup
import RadioCat.Morse.Generate
import RadioCat.Morse.Stations
import RadioCat.Morse.Worked
