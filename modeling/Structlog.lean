import Structlog.Lib.OrdMap
import Structlog.Lib.Bytes
import Structlog.Lib.Utf8
import Structlog.Json
import Structlog.JsonDump
import Structlog.Populators
import Structlog.JsonFormatter
import Structlog.JsonOrder
import Structlog.Lib.JsonSyntax
import Structlog.JsonLexer
import Structlog.JsonParser
import Structlog.JsonStrings
import Structlog.JsonNumbers
import Structlog.JsonTokens
import Structlog.JsonTurns
import Structlog.JsonGrammar
import Structlog.JsonSoundness
import Structlog.JsonDom
import Structlog.JsonHandlers
import Structlog.JsonTexts
import Structlog.JsonRoundTrip
import Structlog.JsonLog
import Structlog.Lib.DigitBuffers
import Structlog.FmtIntegers
import Structlog.FormatStrings
import Structlog.FormatMessages
import Structlog.FormatSpecs
import Structlog.FormatFields
import Structlog.JsonIntegers
import Structlog.AnsicolorSink
import Structlog.CircularQ
import Structlog.CircularQObjects
import Structlog.LogMsg
import Structlog.Registry
import Structlog.RegistryLevels
import Structlog.UnrecognizedLevels
import Structlog.LevelStrings
import Structlog.ArgvLevels
import Structlog.Logger
import Structlog.Executor
import Structlog.LogStatements
import Structlog.SinkIsolation
import Structlog.BacktraceDump
import Structlog.AsyncLogger
import Structlog.DupFilterSink
import Structlog.DupFilterCounts
import Structlog.ThreadPoolProgress
import Structlog.RotatingFileSink
import Structlog.RotatingSize
import Structlog.RotatingOpen
import Structlog.RotatingLimit
import Structlog.FileOpen
import Structlog.TimedFileSinks
import Structlog.FileRing
import Structlog.FailedCleanup
import Structlog.PatternFormatter
import Structlog.PatternOutput
import Structlog.PatternRuns
import Structlog.PatternCaches
import Structlog.PaddedFlags
import Structlog.LocalTimestamps
import Structlog.PatternPieces
import Structlog.PadWidths
import Structlog.PatternScan
import Structlog.EscapedText
import Structlog.CustomFlags
import Structlog.FuncnameFlag
import Structlog.HourlyFiles
import Structlog.HourlyRetention
import Structlog.MessageRings
import Structlog.FileNames
import Structlog.RotationPoints
import Structlog.GmtOffset
import Structlog.RejectedRegistration
import Structlog.RingbufferSink
import Structlog.TcpClient
import Structlog.Lib.DirTree
import Structlog.CreateDir
import Structlog.HexDump
import Structlog.HexLines
import Structlog.ColorRanges
import Structlog.JsonColors
import Structlog.TimeFractions
import Structlog.Lib.SignedInts
import Structlog.CalendarSeconds
import Structlog.Lib.CStrings
import Structlog.ShortNames
import Structlog.Lib.Mutexes
import Structlog.PeriodicFlusher
import Structlog.FlusherWorkers
import Structlog.FlusherOrder
import Structlog.FlusherProgress
