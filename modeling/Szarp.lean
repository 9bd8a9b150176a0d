import Szarp.Lib.BigEndian
import Szarp.Lib.Dll
import Szarp.Lib.Gregorian
import Szarp.Lib.Run
import Szarp.Szbase.Date
import Szarp.Szbase.Buffer
import Szarp.Szbase.BufferLinks
import Szarp.Szbase.BufferCache
import Szarp.Szbase.BufferRuns
import Szarp.Szbase.Datablock
import Szarp.Szbase.CombinedDatablock
import Szarp.Szbase.RealDatablock
import Szarp.Szbase.Definable
import Szarp.Szbase.DefinableDatablock
import Szarp.Sync.Packet
import Szarp.Sync.Script
import Szarp.Sync.Message
import Szarp.Sync.FileList
import Szarp.Sync.Exchanger
import Szarp.Sync.Transport
import Szarp.Parcook.Averages
import Szarp.Parcook.ParsInfo
import Szarp.Meaner.SaveParam
import Szarp.Meaner.ProbeCache
import Szarp.Meaner.Execute
import Szarp.Szbase.ProbeBlock
import Szarp.Szbase.AvgProbe
import Szarp.Szbase.Search
import Szarp.Draw3.TimeRuns
import Szarp.Draw3.CountRuns
import Szarp.Ipk.Enumeration
import Szarp.Ipk.DrawPreserved
import Szarp.Ipk.LoadersAgree
import Szarp.Iks.Sets
import Szarp.Iks.ProtocolLocation
import Szarp.Meaner4.Restarts
import Szarp.Probes.Answers
import Szarp.Boruta.ModbusConnection
import Szarp.Modbus.Mbrtu
import Szarp.Boruta.Scheduling
import Szarp.Boruta.ModbusSound
import Szarp.Szbase.ProbeTime
import Szarp.Ipk.Season
import Szarp.Parcook.StoredAverages
import Szarp.Szbase.AvgData
import Szarp.Ipk.FailedPrepare
import Szarp.Szbase.Evaluation
import Szarp.Meaner.CronTime
import Szarp.Meaner.MMapParam
import Szarp.Meaner.DataWriter
import Szarp.Meaner.LineTime
import Szarp.Meaner.Prober
import Szarp.Meaner.Traced
import Szarp.Meaner.Bookkeeping
import Szarp.Meaner.Retry
import Szarp.Meaner.TimeLimit
import Szarp.Parcook.Calcul
import Szarp.Parcook.NoData
import Szarp.Szbase.LuaOperators
import Szarp.Ipk.CombinedType
import Szarp.Probes.WriteFile
import Szarp.Meaner4.ParamPath
import Szarp.Szbase.BlockLists
import Szarp.Szbase.BufferFrame
import Szarp.Szbase.EngineBlocks
import Szarp.Szbase.EngineValues
import Szarp.Szbase.MonthFiles
import Szarp.Szbase.CacheableDatablock
import Szarp.Meaner4.Errors
import Szarp.Misc.Base64
import Szarp.Misc.Tokens
import Szarp.Sync.RelativePath
import Szarp.Lib.PTree
import Szarp.Iks.Colors
import Szarp.Iks.SetTree
import Szarp.Iks.SetRoundTrip
import Szarp.Probes.Retention
import Szarp.Sync.Disconnect
import Szarp.Lib.Accessing
import Szarp.Modbus.Reception
import Szarp.Boruta.RegisterBlocks
import Szarp.Boruta.ModbusValues
import Szarp.Boruta.ModbusServer
import Szarp.Boruta.ServerWrites
import Szarp.Boruta.ServerReads
import Szarp.Lib.Pieces
import Szarp.Boruta.AsciiParser
import Szarp.Boruta.RtuFraming
import Szarp.Boruta.DelayedOutput
import Szarp.Boruta.DaemonCycle
import Szarp.Lib.LocalTime
import Szarp.Draw3.DrawTime
import Szarp.Draw3.DrawTimeIndex
import Szarp.Lib.Aggregate
import Szarp.Draw3.Statistics
import Szarp.Draw3.StatisticsUpdate
import Szarp.Draw3.StatisticsRuns
import Szarp.Szbase.CombinedWords
import Szarp.Szbase.FileReading
import Szarp.Lib.Cells
import Szarp.Szbase.StackMachine
import Szarp.Szbase.StackSafety
import Szarp.Szbase.StackEffects
import Szarp.Szbase.StackRuns
