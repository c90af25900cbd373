import MuxMPE.Machinery.Runs
import MuxMPE.Machinery.Fifo
import MuxMPE.Queue.ThreadsafeQueue
import MuxMPE.Queue.Threads
import MuxMPE.Queue.Lossless
import MuxMPE.Queue.Notifications
import MuxMPE.Log.History
import MuxMPE.Log.Backends
import MuxMPE.Log.Shutdown
import MuxMPE.Machinery.CrcPolynomial
import MuxMPE.Crc.Crc
import MuxMPE.Crc.ErrorDetection
import MuxMPE.Machinery.Xml.Reader
import MuxMPE.Machinery.Xml.Prefixes
import MuxMPE.Machinery.Xml.Values
import MuxMPE.Main.Config
import MuxMPE.Main.Options
import MuxMPE.Main.Psi
import MuxMPE.Main.Names
import MuxMPE.Machinery.Memory
import MuxMPE.Machinery.Descriptor
import MuxMPE.Mpeg.Mpeg
import MuxMPE.Mpeg.Framing
import MuxMPE.Crc.Trailer
import MuxMPE.Machinery.CrcPeriod
import MuxMPE.Mpeg.Payload
import MuxMPE.Mpeg.Search
import MuxMPE.Mpeg.Footprint
import MuxMPE.Charset.Decoder
import MuxMPE.Machinery.Fallible
import MuxMPE.Charset.Charset
import MuxMPE.Main.Complete
import MuxMPE.Main.Main
import MuxMPE.Crc.Regeneration
import MuxMPE.Machinery.Gregorian
import MuxMPE.Utils.Mjd
import MuxMPE.Mpeg.Dab
import MuxMPE.Mpeg.Delivery
import MuxMPE.Utils.DabTime
import MuxMPE.Log.Format
import MuxMPE.Log.Producers
import MuxMPE.Main.Network
import MuxMPE.Queue.Prebuffering
import MuxMPE.Mpeg.Report
import MuxMPE.Charset.Encoder
import MuxMPE.Charset.Utf16
import MuxMPE.Queue.Quiescence
import MuxMPE.Queue.Wakeups
import MuxMPE.Queue.Observers
import MuxMPE.Mpeg.Resync
import MuxMPE.Log.Output
import MuxMPE.Charset.Walk
import MuxMPE.Crc.Generators
import MuxMPE.Charset.Replace
import MuxMPE.Charset.Unchecked
import MuxMPE.Main.Effective
import MuxMPE.Log.Progress
import MuxMPE.Log.Threads
import MuxMPE.Log.Draining
