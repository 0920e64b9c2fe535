import SIPMediaGW.NetstringFraming
import SIPMediaGW.OrgUnitAgreement
import SIPMediaGW.OrgUnitMigration
import SIPMediaGW.OrgUnitReorder
import SIPMediaGW.MediaCleanup
import SIPMediaGW.ScalerOvershoot
import SIPMediaGW.SipScalerFailures
import SIPMediaGW.SipLockCompleteness
import SIPMediaGW.SipDownScale
import SIPMediaGW.AccountAuditReplay
import SIPMediaGW.NetstringReader
import SIPMediaGW.Utf8Text
import SIPMediaGW.IngestDurations
import SIPMediaGW.FirstOccurrences
import SIPMediaGW.OutcomeRecompute
import SIPMediaGW.IngestReplay
import SIPMediaGW.CallsTable
import SIPMediaGW.PartialUniqueIndex
import SIPMediaGW.IngestMapping
import SIPMediaGW.LoginThrottleBound
import SIPMediaGW.LoginThrottle
import SIPMediaGW.ListCounting
import SIPMediaGW.AccountSessionRevocation
import SIPMediaGW.AccountLastAdministrator
import SIPMediaGW.AccountConsole
import SIPMediaGW.AccountTable
import SIPMediaGW.LabelledExecutions
import SIPMediaGW.FieldMap
import SIPMediaGW.PythonJson
import SIPMediaGW.ProxyRegistry
import SIPMediaGW.ProxyInterleaving
import SIPMediaGW.ProxyLostUpdate
import SIPMediaGW.ProxyStartExclusivity
import SIPMediaGW.ProxyStoppingSticky
import SIPMediaGW.ScalerIdempotence
import SIPMediaGW.ProxyPairing
import SIPMediaGW.HistoryFile
import SIPMediaGW.EventRelay
import SIPMediaGW.EventHandler
import SIPMediaGW.HistoryPayload
import SIPMediaGW.StreamRepeats
import SIPMediaGW.Calendar
import SIPMediaGW.QualityCounts
import SIPMediaGW.BracketTexts
import SIPMediaGW.EscapedTexts
import SIPMediaGW.JsonTexts
import SIPMediaGW.PythonLiterals
import SIPMediaGW.LogParser
import SIPMediaGW.CallUrl
import SIPMediaGW.CallerText
import SIPMediaGW.BracketEnds
import SIPMediaGW.BracketLeaves
import SIPMediaGW.BracketBare
import SIPMediaGW.BracketStrings
import SIPMediaGW.JsonStrings
import SIPMediaGW.NetstringDecode
import SIPMediaGW.DisplayNameCodec
import SIPMediaGW.PoolSampler
import SIPMediaGW.EndOfCallVideo
import SIPMediaGW.ScalerTarget
import SIPMediaGW.UpScalePacking
import SIPMediaGW.OutscaleDestruction
import SIPMediaGW.PoolScans
import SIPMediaGW.RegisterAtomicity
import SIPMediaGW.CodeTries
import SIPMediaGW.CodeTryBound
import SIPMediaGW.OrderedTexts
import SIPMediaGW.IsoInstants
import SIPMediaGW.GatewayResolution
import SIPMediaGW.MediaKeys
import SIPMediaGW.SampleRates
import SIPMediaGW.CallColumns
import SIPMediaGW.VideoStates
import SIPMediaGW.LineTexts
import SIPMediaGW.JsonDumps
import SIPMediaGW.HistoryAcceptance
import SIPMediaGW.HistoryReaders
import SIPMediaGW.Transcripts
import SIPMediaGW.SubtitleOffsets
import SIPMediaGW.GatewaySlots
import SIPMediaGW.PercentTexts
import SIPMediaGW.FormTexts
import SIPMediaGW.QueryReaders
import SIPMediaGW.CallUrlQuery
import SIPMediaGW.ScriptTexts
import SIPMediaGW.MeetingScript
import SIPMediaGW.ShellWords
import SIPMediaGW.KeyCommands
import SIPMediaGW.RunningSums
import SIPMediaGW.UsageRoutes
import SIPMediaGW.GroupedSums
import SIPMediaGW.UnitPartition
import SIPMediaGW.PeriodWindows
import SIPMediaGW.LikePatterns
import SIPMediaGW.SearchBox
import SIPMediaGW.TiedPages
import SIPMediaGW.ListingPages
import SIPMediaGW.SessionZones
import SIPMediaGW.PoolSlots
import SIPMediaGW.PoolHours
import SIPMediaGW.NotEstablished
import SIPMediaGW.VideoArtifacts
import SIPMediaGW.Binary64
import SIPMediaGW.HomerLinks
import SIPMediaGW.IsoReading
import SIPMediaGW.CallAges
import SIPMediaGW.CodePoints
import SIPMediaGW.BodyJson
import SIPMediaGW.BodyEscapes
import SIPMediaGW.BodyDocuments
import SIPMediaGW.StoredBodies
import SIPMediaGW.OrgUnitSerial
import SIPMediaGW.BackupSafety
import SIPMediaGW.DatePicker
import SIPMediaGW.CallWindow
import SIPMediaGW.ConsoleRows
import SIPMediaGW.IvrPage
import SIPMediaGW.IvrCodes
import SIPMediaGW.DialledRooms
import SIPMediaGW.SlideFloor
