import Lad.Lib.Utf8
import Lad.Lib.JsonString
import Lad.Lib.JsonValue
import Lad.Lib.JsonText
import Lad.Lib.Decimal
import Lad.Lib.GoRuntime
import Lad.Lib.FindFirst
import Lad.Buffer
import Lad.Ladcore.Level
import Lad.Ladcore.Entry
import Lad.Ladcore.Encoder
import Lad.Ladcore.Field
import Lad.Ladcore.JsonEncoder.Escape
import Lad.Ladcore.JsonEncoder.Basic
import Lad.Ladcore.JsonEncoder.Frame
import Lad.Ladcore.JsonEncoder.Tree
import Lad.Ladcore.JsonEncoder.Valid
import Lad.Ladcore.JsonEncoder.EncodeEntry
import Lad.Ladcore.JsonEncoder.Context
import Lad.Ladcore.ConsoleEncoder
import Lad.Ladcore.Core.Basic
import Lad.Ladcore.Core.Check
import Lad.Ladcore.Core.LevelOf
import Lad.Ladcore.Core.With
import Lad.Ladcore.MemoryEncoder
import Lad.Ladcore.JsonEncoder.Memory
import Lad.Ladcore.Core.Lazy
import Lad.Lib.Lines
import Lad.Ladio.Writer
import Lad.Ladcore.WriteSyncer
import Lad.Lib.Bufio
import Lad.Ladcore.BufferedWriteSyncer
import Lad.Ladcore.Core.Sampler
import Lad.Lib.Unicode
import Lad.Ladcore.LevelText
import Lad.Sink
import Lad.Config
import Lad.Internal.Stacktrace
import Lad.Field
import Lad.Sugar
import Lad.Ladcore.FieldEquals
import Lad.Exp.Ladslog
import Lad.Internal.Stacktrace.Format
import Lad.Logger
import Lad.Logger.Options
import Lad.Logger.Sugar
import Lad.HttpHandler
import Lad.Ladcore.Caller
import Lad.Ladcore.EncoderText
import Lad.Global
import Lad.Array
