import Acu.Attendance.Acknowledge
import Acu.Attendance.Attempts
import Acu.Attendance.Storage
import Acu.Camera.Capturing
import Acu.Camera.LateFrames
import Acu.Delegator.DateOrder
import Acu.Delegator.FifoService
import Acu.Delegator.NightlyRefresh
import Acu.Delegator.OnlineOffline
import Acu.Delegator.RebootTimer
import Acu.Delegator.ServerAddress
import Acu.Delegator.ServerTime
import Acu.Delegator.Uninitialised
import Acu.Delegator.ZoneList
import Acu.Employee.Concurrent
import Acu.Employee.Consistency
import Acu.Employee.Durability
import Acu.Employee.Malformed
import Acu.Employee.Photo
import Acu.Hardware.SwitchArray
import Acu.Hardware.SwitchGpio
import Acu.Hardware.TimerClient
import Acu.Qt.MainWindow
import Acu.Rfid.Framing
import Acu.Rfid.SameCard
import Acu.Tools.Deadline
import Acu.Tools.ElementText
import Acu.Tools.Itoa
import Acu.Tools.LogService
import Acu.Tools.LogThread
import Acu.Tools.Network
import Acu.Tools.PlainEncoder
import Acu.Tools.Queue
import Acu.Tools.TimerLoop
import Acu.Tools.WavThreads
import Acu.Web.Async
import Acu.Web.BodyLoop
import Acu.Web.FormBody
import Acu.Web.PostRoom
import Acu.Web.Replay
import Acu.Web.Segments
import Acu.Web.SendLoop
import Acu.Core.Lines
import Acu.Core.Strip
import Acu.Core.Strtol
import Acu.Inih.Ini
import Acu.Inih.Calls
import Acu.Inih.Comments
import Acu.Inih.Document
import Acu.Inih.INIReader
import Acu.Core.Table
import Acu.Inih.Numbers
import Acu.Config.Settings
import Acu.Config.Startup
import Acu.Web.Delivery
import Acu.System.Threads
import Acu.System.Database
import Acu.System.Admission
import Acu.System.Openings
import Acu.System.Report
import Acu.System.Door
