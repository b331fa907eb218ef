import Hevc.Bits.Cursor
import Hevc.Bits.Decoder
import Hevc.Bits.Packer
import Hevc.Bits.Sink
import Hevc.Bits.Source
import Hevc.Command.Arguments
import Hevc.Command.Directory
import Hevc.Command.Log
import Hevc.Command.Path
import Hevc.Command.Run
import Hevc.Escape
import Hevc.ExpGolomb
import Hevc.Extradata
import Hevc.Fault
import Hevc.Main
import Hevc.NalUnit.Header
import Hevc.NalUnit.LengthPrefixed
import Hevc.NalUnit.NalType
import Hevc.NalUnit.Stream
import Hevc.Parallelism
import Hevc.ParameterSet.Buffering
import Hevc.ParameterSet.Hrd
import Hevc.ParameterSet.Pps
import Hevc.ParameterSet.RefPicSet
import Hevc.ParameterSet.ScalingList
import Hevc.ParameterSet.Sps
import Hevc.ParameterSet.Vps
import Hevc.ParameterSet.Vui
import Hevc.Profile
import Hevc.Proofs.Arithmetic
import Hevc.Proofs.Bits
import Hevc.Proofs.Cursor
import Hevc.Proofs.Decoder
import Hevc.Proofs.Locality
import Hevc.Proofs.NalUnit
import Hevc.Proofs.Packer
import Hevc.Proofs.ParameterSet.Bounds
import Hevc.Proofs.ParameterSet.Hrd
import Hevc.Proofs.ParameterSet.Reading
import Hevc.Proofs.ParameterSet.RefPicBounds
import Hevc.Proofs.ParameterSet.RefPicOrder
import Hevc.Proofs.ParameterSet.RefPicSet
import Hevc.Proofs.ParameterSet.Safe
import Hevc.Proofs.ParameterSet.ScalingList
import Hevc.Proofs.ParameterSet.Sps
import Hevc.Proofs.ParameterSet.Vui
import Hevc.Proofs.Profile
import Hevc.Proofs.Reads
import Hevc.Proofs.Record.Build
import Hevc.Proofs.Record.Convert
import Hevc.Proofs.Record.Merge
import Hevc.Proofs.Record.RoundTrip
import Hevc.Proofs.Safe
import Hevc.Proofs.Sink
import Hevc.Proofs.Source
import Hevc.Proofs.Stream
import Hevc.Proofs.Word
import Hevc.Proofs.WordRun
import Hevc.Record.Basic
import Hevc.Record.Build
import Hevc.Record.FrameRate
import Hevc.Record.Merge
import Hevc.Record.Serial
import Hevc.Word
import Hevc.Written.Hrd
import Hevc.Written.NalUnit
import Hevc.Written.Pps
import Hevc.Written.Profile
import Hevc.Written.Sps
import Hevc.Written.Vps
import Hevc.Written.Vui
import Hevc.Proofs.ParameterSet.Vps
import Hevc.Proofs.Record.Layout
import Hevc.Proofs.Record.Fields
import Hevc.Proofs.Record.Canonical
import Hevc.Proofs.Record.Order
import Hevc.Proofs.LengthPrefixed
import Hevc.Proofs.Record.Rebuild
import Hevc.Proofs.Record.Refusal
import Hevc.Proofs.Lockstep
import Hevc.Proofs.ParameterSet.Prediction
import Hevc.Proofs.ParameterSet.Shared
import Hevc.Proofs.Elements
import Hevc.Proofs.ParameterSet.ListCode
import Hevc.Proofs.ParameterSet.Matrices
import Hevc.Proofs.Escape
import Hevc.Proofs.Pieces
import Hevc.Proofs.Codes
import Hevc.Proofs.ParameterSet.Pps
import Hevc.Proofs.Streaming
import Hevc.Proofs.Taking
import Hevc.Proofs.Requests
import Hevc.Proofs.FullSink
import Hevc.Proofs.Record.Form
import Hevc.Proofs.Record.Pushes
import Hevc.Proofs.Extradata
import Hevc.Proofs.PendingByte
import Hevc.Proofs.ParameterSet.WellFormed
import Hevc.Proofs.Command.Inspect
import Hevc.Proofs.Command.Conversion
