import ProtobufKafkaBench.Transitions
import ProtobufKafkaBench.BoundedFifo
import ProtobufKafkaBench.AtomicCells
import ProtobufKafkaBench.SpscPointerRing
import ProtobufKafkaBench.RingInvariant
import ProtobufKafkaBench.RingRefinement
import ProtobufKafkaBench.ByteBuffers
import ProtobufKafkaBench.WireFormat
import ProtobufKafkaBench.MarketEvents
import ProtobufKafkaBench.EventTraits
import ProtobufKafkaBench.CommandLine
import ProtobufKafkaBench.ProcessEvent
import ProtobufKafkaBench.RunAsync
import ProtobufKafkaBench.AsyncAccounts
import ProtobufKafkaBench.AsyncOutcomes
import ProtobufKafkaBench.KafkaProduce
import ProtobufKafkaBench.KafkaRun
import ProtobufKafkaBench.CsvTables
import ProtobufKafkaBench.CsvWriters
import ProtobufKafkaBench.Grouping
import ProtobufKafkaBench.MergeKafkaResults
import ProtobufKafkaBench.KafkaReport
import ProtobufKafkaBench.MergeAndReport
import ProtobufKafkaBench.FailedMerges
import ProtobufKafkaBench.EarlierOutputs
import ProtobufKafkaBench.BigEndian
import ProtobufKafkaBench.ConfluentFraming
import ProtobufKafkaBench.ByteMemory
import ProtobufKafkaBench.KeyedMembers
import ProtobufKafkaBench.YyjsonDocument
import ProtobufKafkaBench.PipeLines
import ProtobufKafkaBench.Mutexes
import ProtobufKafkaBench.ConcurrentEncoding
import ProtobufKafkaBench.EncodingAccounts
import ProtobufKafkaBench.JsonStrings
import ProtobufKafkaBench.RegistrationBodies
import ProtobufKafkaBench.ResponseIds
import ProtobufKafkaBench.JsonTexts
import ProtobufKafkaBench.RegistryReplies
import ProtobufKafkaBench.AsyncReports
import ProtobufKafkaBench.KafkaRetries
import ProtobufKafkaBench.LossyRepetitions
import ProtobufKafkaBench.NearestRanks
import ProtobufKafkaBench.Percentiles
import ProtobufKafkaBench.CountedLoops
import ProtobufKafkaBench.MeasureLoops
import ProtobufKafkaBench.LatencyPaths
import ProtobufKafkaBench.CompilerReport
import ProtobufKafkaBench.EncodingReports
import ProtobufKafkaBench.MeanThroughput
import ProtobufKafkaBench.KafkaMatrix
import ProtobufKafkaBench.AppendedResults
import ProtobufKafkaBench.RegistryArguments
import ProtobufKafkaBench.ModeLists
import ProtobufKafkaBench.DecimalRepresentations
import ProtobufKafkaBench.BufferAccesses
import ProtobufKafkaBench.FirstMinimum
import ProtobufKafkaBench.FastestPayloads
import ProtobufKafkaBench.Completions
import ProtobufKafkaBench.EncodingSchedules
import ProtobufKafkaBench.AsyncCompletions
import ProtobufKafkaBench.ConcurrentRegistration
import ProtobufKafkaBench.RegistrationSchedules
import ProtobufKafkaBench.Dialogues
import ProtobufKafkaBench.HttpSessions
import ProtobufKafkaBench.RegistrySession
import ProtobufKafkaBench.RegistryAgenda
import ProtobufKafkaBench.RegistryRuns
import ProtobufKafkaBench.RegistrySubjects
import ProtobufKafkaBench.CsvReaders
import ProtobufKafkaBench.EvolutionReport
import ProtobufKafkaBench.ProtoReaders
import ProtobufKafkaBench.SchemaVersions
import ProtobufKafkaBench.KafkaTables
import ProtobufKafkaBench.KafkaScriptRuns
import ProtobufKafkaBench.EncodeTables
import ProtobufKafkaBench.CompilerRuns
import ProtobufKafkaBench.PipelineRows
import ProtobufKafkaBench.PipelineRuns
