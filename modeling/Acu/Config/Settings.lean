import Acu.Core.Table
import Acu.Inih.Numbers

/-!
# The settings of the program

`Settings` takes each setting from the configuration file or, where the file cannot be
opened, from a second list of its own. Asking for a key that was not inserted throws.
-/

namespace Acu.Config

open Acu.Core Acu.Core.CMemory Inih

inductive Exception where
  | EXCEPTION_NO_EXIST_KEY
  deriving DecidableEq, Repr

/-- The maps list their entries in the order of insertion. -/
structure Settings where
  m_mapStr : List (String × Bytes)
  m_mapBool : List (String × Bool)
  m_mapInt : List (String × Int)

inductive Insertion where
  | str (e : String × Bytes)
  | bool (e : String × Bool)
  | int (e : String × Int)

section Macros

variable (category key : String)

def mapStrInsert (value : String) : Insertion := .str (category ++ "::" ++ key, ascii value)

def mapBoolInsert (value : Bool) : Insertion := .bool (category ++ "::" ++ key, value)

def mapIntInsert (value : Int) : Insertion := .int (category ++ "::" ++ key, value)

end Macros

section FromReader

variable (long : Nat) (reader : INIReader) (category key : String)

def mapStrInsertFromReader (value : String) : Insertion :=
  .str (category ++ "::" ++ key, reader.Get (ascii category) (ascii key) (ascii value))

def mapBoolInsertFromReader (value : Bool) : Insertion :=
  .bool (category ++ "::" ++ key, reader.GetBoolean (ascii category) (ascii key) value)

/-- The `long` becomes an `int`. -/
def mapIntInsertFromReader (value : Int) : Insertion :=
  .int (category ++ "::" ++ key,
    Int.bmod (reader.GetInteger long (ascii category) (ascii key) value) (2 ^ 32))

end FromReader

/-- The insertions where the file cannot be opened. -/
def defaults : List Insertion :=
  [mapStrInsert "App" "AUTH_CD" "",
    mapStrInsert "App" "MEMCO_CD" "MC00000003",
    mapStrInsert "App" "SITE_CD" "ST00000005",
    mapStrInsert "App" "DV_LOC" "0001",
    mapStrInsert "App" "DV_NO" "6",
    mapBoolInsert "App" "LOCAL_DATABASE" false,
    mapStrInsert "App" "IN_OUT" "I",
    mapStrInsert "App" "REBOOT_TIME" "",
    mapStrInsert "App" "WORKING_DIRECTORY" "/home/pi/acu",
    mapBoolInsert "App" "DISPLAY_PHOTO" true,
    mapIntInsert "App" "TIMER_INTERVAL" 60,
    mapBoolInsert "Action" "CAPTURE" true,
    mapBoolInsert "Action" "SOUND" true,
    mapStrInsert "Rfid" "MODE" "1356M",
    mapIntInsert "Rfid" "CHECK_INTERVAL" 300,
    mapStrInsert "Rfid" "RFID1356_PORT" "/dev/ttyAMA0",
    mapStrInsert "Rfid" "RFID800_PORT" "/dev/ttyUSB0",
    mapIntInsert "Camera" "DELAY_OFF_TIME" 600,
    mapBoolInsert "Camera" "SAVE_PICTURE_FILE" false,
    mapIntInsert "Camera" "TAKEPICTURE_MAX_WAIT_TIME" 2,
    mapBoolInsert "Log" "CONSOLE" false,
    mapIntInsert "Log" "CONSOLE_LEVEL" 1,
    mapStrInsert "Log" "CONSOLE_PATH" "/dev/pts/3",
    mapBoolInsert "Log" "FILE" true,
    mapIntInsert "Log" "FILE_LEVEL" 3,
    mapStrInsert "Log" "FILE_DIRECTORY" "Log",
    mapStrInsert "Server" "URL" "http://10.9.0.2:8080/WebService/ItlogService.asmx",
    mapIntInsert "Gpio" "YELLOW" 27,
    mapIntInsert "Gpio" "BLUE" 22,
    mapIntInsert "Gpio" "GREEN" 24,
    mapIntInsert "Gpio" "RED" 23,
    mapIntInsert "Gpio" "RELAY" 17,
    mapBoolInsert "Debug" "DEBUG_SERVICE" false]

/-- The insertions from a file. -/
def fromReader (long : Nat) (reader : INIReader) : List Insertion :=
  [mapStrInsertFromReader reader "App" "AUTH_CD" "",
    mapStrInsertFromReader reader "App" "MEMCO_CD" "MC00000003",
    mapStrInsertFromReader reader "App" "SITE_CD" "ST00000005",
    mapStrInsertFromReader reader "App" "DV_LOC" "0001",
    mapStrInsertFromReader reader "App" "DV_NO" "6",
    mapBoolInsertFromReader reader "App" "LOCAL_DATABASE" false,
    mapStrInsertFromReader reader "App" "IN_OUT" "I",
    mapStrInsertFromReader reader "App" "REBOOT_TIME" "",
    mapStrInsertFromReader reader "App" "WORKING_DIRECTORY" "/home/pi/acu",
    mapBoolInsertFromReader reader "App" "DISPLAY_PHOTO" true,
    mapIntInsertFromReader long reader "App" "TIMER_INTERVAL" 60,
    mapBoolInsertFromReader reader "Action" "CAPTURE" true,
    mapBoolInsertFromReader reader "Action" "SOUND" true,
    mapStrInsertFromReader reader "Rfid" "MODE" "1356M",
    mapIntInsertFromReader long reader "Rfid" "CHECK_INTERVAL" 300,
    mapStrInsertFromReader reader "Rfid" "RFID1356_PORT" "/dev/ttyAMA0",
    mapStrInsertFromReader reader "Rfid" "RFID800_PORT" "/dev/ttyUSB0",
    mapIntInsertFromReader long reader "Camera" "DELAY_OFF_TIME" 600,
    mapBoolInsertFromReader reader "Camera" "SAVE_PICTURE_FILE" false,
    mapIntInsertFromReader long reader "Camera" "TAKEPICTURE_MAX_WAIT_TIME" 2,
    mapBoolInsertFromReader reader "Log" "CONSOLE" false,
    mapIntInsertFromReader long reader "Log" "CONSOLE_LEVEL" 1,
    mapStrInsertFromReader reader "Log" "CONSOLE_PATH" "/dev/pts/3",
    mapBoolInsertFromReader reader "Log" "FILE" true,
    mapIntInsertFromReader long reader "Log" "FILE_LEVEL" 3,
    mapStrInsertFromReader reader "Log" "FILE_DIRECTORY" "Log",
    mapStrInsertFromReader reader "Server" "URL"
      "http://10.9.0.2:8080/WebService/ItlogService.asmx",
    mapIntInsertFromReader long reader "Gpio" "YELLOW" 27,
    mapIntInsertFromReader long reader "Gpio" "BLUE" 22,
    mapIntInsertFromReader long reader "Gpio" "GREEN" 24,
    mapIntInsertFromReader long reader "Gpio" "RED" 23,
    mapIntInsertFromReader long reader "Gpio" "RELAY" 17,
    mapBoolInsertFromReader reader "Debug" "DEBUG_SERVICE" false]

namespace Settings

def insert (s : Settings) : Insertion → Settings
  | .str e => { s with m_mapStr := insertNew s.m_mapStr e }
  | .bool e => { s with m_mapBool := insertNew s.m_mapBool e }
  | .int e => { s with m_mapInt := insertNew s.m_mapInt e }

def inserted (l : List Insertion) : Settings := l.foldl insert ⟨[], [], []⟩

/-- The constructor; a file that cannot be opened is `none`. -/
def new (long : Nat) (file : Option Bytes) : Settings :=
  let reader := INIReader.new file
  if reader._error < 0 then inserted defaults else inserted (fromReader long reader)

variable (s : Settings) (key : String)

def get : Except Exception Bytes :=
  match s.m_mapStr.lookup key with
  | none => throw .EXCEPTION_NO_EXIST_KEY
  | some v => pure v

def getBool : Except Exception Bool :=
  match s.m_mapBool.lookup key with
  | none => throw .EXCEPTION_NO_EXIST_KEY
  | some v => pure v

def getInt : Except Exception Int :=
  match s.m_mapInt.lookup key with
  | none => throw .EXCEPTION_NO_EXIST_KEY
  | some v => pure v

end Settings

/-! ## Members that settings are kept in -/

/-- The members that `SettingInit` sets. -/
structure MainDelegator where
  m_cameraDelayOffTime : Int
  m_takePictureMaxWaitTime : Int
  m_bSavePictureFile : Bool
  m_sAuthCd : Bytes
  m_sMemcoCd : Bytes
  m_sSiteCd : Bytes
  m_sDvLoc : Bytes
  m_sDvNo : Bytes
  m_bDatabase : Bool
  m_sInOut : Bytes
  m_bCapture : Bool
  m_bSound : Bool
  m_sRfidMode : Bytes
  m_rfidCheckInterval : Int
  m_sRfid1356Port : Bytes
  m_sRfid900Port : Bytes
  m_sUrl : Bytes
  deriving DecidableEq

def MainDelegator.SettingInit (m_settings : Settings) : Except Exception MainDelegator := do
  let m_cameraDelayOffTime ← m_settings.getInt "Camera::DELAY_OFF_TIME"
  let m_takePictureMaxWaitTime ← m_settings.getInt "Camera::TAKEPICTURE_MAX_WAIT_TIME"
  let m_bSavePictureFile ← m_settings.getBool "Camera::SAVE_PICTURE_FILE"
  let m_sAuthCd ← m_settings.get "App::AUTH_CD"
  let m_sMemcoCd ← m_settings.get "App::MEMCO_CD"
  let m_sSiteCd ← m_settings.get "App::SITE_CD"
  let m_sDvLoc ← m_settings.get "App::DV_LOC"
  let m_sDvNo ← m_settings.get "App::DV_NO"
  let m_bDatabase ← m_settings.getBool "App::LOCAL_DATABASE"
  let m_sInOut ← m_settings.get "App::IN_OUT"
  let m_bCapture ← m_settings.getBool "Action::CAPTURE"
  let m_bSound ← m_settings.getBool "Action::SOUND"
  let m_sRfidMode ← m_settings.get "Rfid::MODE"
  let m_rfidCheckInterval ← m_settings.getInt "Rfid::CHECK_INTERVAL"
  let m_sRfid1356Port ← m_settings.get "Rfid::RFID1356_PORT"
  let m_sRfid900Port ← m_settings.get "Rfid::RFID800_PORT"
  let m_sUrl ← m_settings.get "Server::URL"
  return ⟨m_cameraDelayOffTime, m_takePictureMaxWaitTime, m_bSavePictureFile, m_sAuthCd,
    m_sMemcoCd, m_sSiteCd, m_sDvLoc, m_sDvNo, m_bDatabase, m_sInOut, m_bCapture, m_bSound,
    m_sRfidMode, m_rfidCheckInterval, m_sRfid1356Port, m_sRfid900Port, m_sUrl⟩

/-- The arguments of `log_init`. -/
structure LogInit where
  log_console : Bool
  log_console_level : Int
  log_console_path : Bytes
  file_log : Bool
  log_file_level : Int
  log_file_directory : Bytes
  deriving DecidableEq

/-- The pins of the lamps and of the door. -/
structure Pins where
  m_yellowLed : Int
  m_blueLed : Int
  m_greenLed : Int
  m_redLed : Int
  m_Relay : Int
  deriving DecidableEq

/-- What `EmployeeInfoMgr` keeps. -/
structure EmployeeMembers where
  m_bUseLocalDB : Bool
  m_sMemcoCd : Bytes
  m_sSiteCd : Bytes
  m_bDisplayPhoto : Bool
  deriving DecidableEq

/-- The handler of the constructor is for an `int` and takes no exception of `Settings`. -/
def EmployeeMembers.new (settings : Settings) : Except Exception EmployeeMembers := do
  let m_bUseLocalDB ← settings.getBool "App::LOCAL_DATABASE"
  let m_sMemcoCd ← settings.get "App::MEMCO_CD"
  let m_sSiteCd ← settings.get "App::SITE_CD"
  let m_bDisplayPhoto ← settings.getBool "App::DISPLAY_PHOTO"
  return ⟨m_bUseLocalDB, m_sMemcoCd, m_sSiteCd, m_bDisplayPhoto⟩

/-- What `TimeSheetMgr` keeps. -/
structure TimeSheetMembers where
  m_sMemcoCd : Bytes
  m_sSiteCd : Bytes
  m_sDvLoc : Bytes
  m_sDvNo : Bytes
  m_cInOut : UInt8
  deriving DecidableEq

def TimeSheetMembers.new (m_settings : Settings) : Except Exception TimeSheetMembers := do
  let m_sMemcoCd ← m_settings.get "App::MEMCO_CD"
  let m_sSiteCd ← m_settings.get "App::SITE_CD"
  let m_sDvLoc ← m_settings.get "App::DV_LOC"
  let m_sDvNo ← m_settings.get "App::DV_NO"
  let in_out ← m_settings.get "App::IN_OUT"
  return ⟨m_sMemcoCd, m_sSiteCd, m_sDvLoc, m_sDvNo, in_out.headD 0⟩

/-- All that the constructor of `MainDelegator` takes from the settings. -/
structure Started where
  delegator : MainDelegator
  curdir : Bytes
  log : LogInit
  pins : Pins
  debug_service : Bool
  m_sServerURL : Bytes
  employInfoMrg : EmployeeMembers
  timeSheetMgr : TimeSheetMembers
  interval : Int
  reboot_time : Bytes
  deriving DecidableEq

/-- The constructor up to where the timers run, in its order. -/
def start (long : Nat) (configPath : Option Bytes) : Except Exception Started := do
  let m_settings := Settings.new long configPath
  let delegator ← MainDelegator.SettingInit m_settings
  let curdir ← m_settings.get "App::WORKING_DIRECTORY"
  let log_console ← m_settings.getBool "Log::CONSOLE"
  let log_console_level ← m_settings.getInt "Log::CONSOLE_LEVEL"
  let log_console_path ← m_settings.get "Log::CONSOLE_PATH"
  let file_log ← m_settings.getBool "Log::FILE"
  let log_file_level ← m_settings.getInt "Log::FILE_LEVEL"
  let log_file_directory ← m_settings.get "Log::FILE_DIRECTORY"
  let m_yellowLed ← m_settings.getInt "Gpio::YELLOW"
  let m_blueLed ← m_settings.getInt "Gpio::BLUE"
  let m_greenLed ← m_settings.getInt "Gpio::GREEN"
  let m_redLed ← m_settings.getInt "Gpio::RED"
  let m_Relay ← m_settings.getInt "Gpio::RELAY"
  let debug_service ← m_settings.getBool "Debug::DEBUG_SERVICE"
  let m_sServerURL ← m_settings.get "Server::URL"
  let employInfoMrg ← EmployeeMembers.new m_settings
  let timeSheetMgr ← TimeSheetMembers.new m_settings
  let interval ← m_settings.getInt "App::TIMER_INTERVAL"
  let reboot_time ← m_settings.get "App::REBOOT_TIME"
  let log := ⟨log_console, log_console_level, log_console_path, file_log, log_file_level,
    log_file_directory⟩
  let pins := ⟨m_yellowLed, m_blueLed, m_greenLed, m_redLed, m_Relay⟩
  return ⟨delegator, curdir, log, pins, debug_service, m_sServerURL, employInfoMrg, timeSheetMgr,
    interval, reboot_time⟩

end Acu.Config
