import Esp32Utils.Interaction.CrashLogic
import Esp32Utils.SaveDurability
import Esp32Utils.AppendExactlyOnce
import Esp32Utils.CrashConsistency
import Esp32Utils.DigestCertification
import Esp32Utils.AppendLaundering
import Esp32Utils.ManipulatorMap
import Esp32Utils.SpiffsRoundTrip
import Esp32Utils.DirectoryListing
import Esp32Utils.DeleteAllFiles
import Esp32Utils.RegisteredHandlers
import Esp32Utils.UrlGrammar
import Esp32Utils.RequestContent
import Esp32Utils.LiveHandles
import Esp32Utils.RejectedHandler
import Esp32Utils.NvsHistory
import Esp32Utils.ResponseBody
import Esp32Utils.HeaderLeaks
import Esp32Utils.MessageOrder
import Esp32Utils.UartAnnouncements
import Esp32Utils.QueuedText
import Esp32Utils.ReceiveLoop
import Esp32Utils.FailedStart
import Esp32Utils.SpiffsReports
import Esp32Utils.ResponseLimit
import Esp32Utils.NvsDiscipline
import Esp32Utils.UartReports
import Esp32Utils.RequestValidity
import Esp32Utils.RequestComponents
import Esp32Utils.BatteryCharge
import Esp32Utils.FilteringLoops
import Esp32Utils.MessageSplitting
import Esp32Utils.PhysicalNames
import Esp32Utils.StackRuns
import Esp32Utils.SpiffsStack
import Esp32Utils.OpenStreams
import Esp32Utils.IdfStack
import Esp32Utils.UndefinedPrints
import Esp32Utils.DbgProgress
import Esp32Utils.StackAppends
import Esp32Utils.ConcurrentLoads
import Esp32Utils.ClientHandles
import Esp32Utils.NvsObjects
