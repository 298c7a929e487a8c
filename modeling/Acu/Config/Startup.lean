import Acu.Config.Settings

/-!
# The configuration of a start

Whatever the configuration file is, the program gets an answer for every key it asks for:
what the file says or the default. A document that gives a setting has it taken as it
was written.
-/

namespace Acu.Config

open Acu.Core Acu.Core.CMemory Inih

/-- A choice of all settings. -/
@[ext]
structure Choices where
  AUTH_CD : Bytes
  MEMCO_CD : Bytes
  SITE_CD : Bytes
  DV_LOC : Bytes
  DV_NO : Bytes
  LOCAL_DATABASE : Bool
  IN_OUT : Bytes
  REBOOT_TIME : Bytes
  WORKING_DIRECTORY : Bytes
  DISPLAY_PHOTO : Bool
  TIMER_INTERVAL : Int
  CAPTURE : Bool
  SOUND : Bool
  MODE : Bytes
  CHECK_INTERVAL : Int
  RFID1356_PORT : Bytes
  RFID800_PORT : Bytes
  DELAY_OFF_TIME : Int
  SAVE_PICTURE_FILE : Bool
  TAKEPICTURE_MAX_WAIT_TIME : Int
  LOG_CONSOLE : Bool
  LOG_CONSOLE_LEVEL : Int
  LOG_CONSOLE_PATH : Bytes
  LOG_FILE : Bool
  LOG_FILE_LEVEL : Int
  LOG_FILE_DIRECTORY : Bytes
  URL : Bytes
  YELLOW : Int
  BLUE : Int
  GREEN : Int
  RED : Int
  RELAY : Int
  DEBUG_SERVICE : Bool

namespace Choices

def factory : Choices where
  AUTH_CD := ascii ""
  MEMCO_CD := ascii "MC00000003"
  SITE_CD := ascii "ST00000005"
  DV_LOC := ascii "0001"
  DV_NO := ascii "6"
  LOCAL_DATABASE := false
  IN_OUT := ascii "I"
  REBOOT_TIME := ascii ""
  WORKING_DIRECTORY := ascii "/home/pi/acu"
  DISPLAY_PHOTO := true
  TIMER_INTERVAL := 60
  CAPTURE := true
  SOUND := true
  MODE := ascii "1356M"
  CHECK_INTERVAL := 300
  RFID1356_PORT := ascii "/dev/ttyAMA0"
  RFID800_PORT := ascii "/dev/ttyUSB0"
  DELAY_OFF_TIME := 600
  SAVE_PICTURE_FILE := false
  TAKEPICTURE_MAX_WAIT_TIME := 2
  LOG_CONSOLE := false
  LOG_CONSOLE_LEVEL := 1
  LOG_CONSOLE_PATH := ascii "/dev/pts/3"
  LOG_FILE := true
  LOG_FILE_LEVEL := 3
  LOG_FILE_DIRECTORY := ascii "Log"
  URL := ascii "http://10.9.0.2:8080/WebService/ItlogService.asmx"
  YELLOW := 27
  BLUE := 22
  GREEN := 24
  RED := 23
  RELAY := 17
  DEBUG_SERVICE := false

/-- The members that the program starts with. -/
def started (c : Choices) : Started where
  delegator := {
    m_cameraDelayOffTime := c.DELAY_OFF_TIME
    m_takePictureMaxWaitTime := c.TAKEPICTURE_MAX_WAIT_TIME
    m_bSavePictureFile := c.SAVE_PICTURE_FILE
    m_sAuthCd := c.AUTH_CD
    m_sMemcoCd := c.MEMCO_CD
    m_sSiteCd := c.SITE_CD
    m_sDvLoc := c.DV_LOC
    m_sDvNo := c.DV_NO
    m_bDatabase := c.LOCAL_DATABASE
    m_sInOut := c.IN_OUT
    m_bCapture := c.CAPTURE
    m_bSound := c.SOUND
    m_sRfidMode := c.MODE
    m_rfidCheckInterval := c.CHECK_INTERVAL
    m_sRfid1356Port := c.RFID1356_PORT
    m_sRfid900Port := c.RFID800_PORT
    m_sUrl := c.URL }
  curdir := c.WORKING_DIRECTORY
  log := ⟨c.LOG_CONSOLE, c.LOG_CONSOLE_LEVEL, c.LOG_CONSOLE_PATH, c.LOG_FILE, c.LOG_FILE_LEVEL,
    c.LOG_FILE_DIRECTORY⟩
  pins := ⟨c.YELLOW, c.BLUE, c.GREEN, c.RED, c.RELAY⟩
  debug_service := c.DEBUG_SERVICE
  m_sServerURL := c.URL
  employInfoMrg := ⟨c.LOCAL_DATABASE, c.MEMCO_CD, c.SITE_CD, c.DISPLAY_PHOTO⟩
  timeSheetMgr := ⟨c.MEMCO_CD, c.SITE_CD, c.DV_LOC, c.DV_NO, c.IN_OUT.headD 0⟩
  interval := c.TIMER_INTERVAL
  reboot_time := c.REBOOT_TIME

section Reading

variable (long : Nat) (r : INIReader) (category key : String)

def text (d : Bytes) : Bytes := r.Get (ascii category) (ascii key) d

def switch (d : Bool) : Bool := r.GetBoolean (ascii category) (ascii key) d

def number (d : Int) : Int := Int.bmod (r.GetInteger long (ascii category) (ascii key) d) (2 ^ 32)

end Reading

/-- The choice that is left of `d` where a reader has values of its own. -/
def heard (d : Choices) (long : Nat) (r : INIReader) : Choices where
  AUTH_CD := text r "App" "AUTH_CD" d.AUTH_CD
  MEMCO_CD := text r "App" "MEMCO_CD" d.MEMCO_CD
  SITE_CD := text r "App" "SITE_CD" d.SITE_CD
  DV_LOC := text r "App" "DV_LOC" d.DV_LOC
  DV_NO := text r "App" "DV_NO" d.DV_NO
  LOCAL_DATABASE := switch r "App" "LOCAL_DATABASE" d.LOCAL_DATABASE
  IN_OUT := text r "App" "IN_OUT" d.IN_OUT
  REBOOT_TIME := text r "App" "REBOOT_TIME" d.REBOOT_TIME
  WORKING_DIRECTORY := text r "App" "WORKING_DIRECTORY" d.WORKING_DIRECTORY
  DISPLAY_PHOTO := switch r "App" "DISPLAY_PHOTO" d.DISPLAY_PHOTO
  TIMER_INTERVAL := number long r "App" "TIMER_INTERVAL" d.TIMER_INTERVAL
  CAPTURE := switch r "Action" "CAPTURE" d.CAPTURE
  SOUND := switch r "Action" "SOUND" d.SOUND
  MODE := text r "Rfid" "MODE" d.MODE
  CHECK_INTERVAL := number long r "Rfid" "CHECK_INTERVAL" d.CHECK_INTERVAL
  RFID1356_PORT := text r "Rfid" "RFID1356_PORT" d.RFID1356_PORT
  RFID800_PORT := text r "Rfid" "RFID800_PORT" d.RFID800_PORT
  DELAY_OFF_TIME := number long r "Camera" "DELAY_OFF_TIME" d.DELAY_OFF_TIME
  SAVE_PICTURE_FILE := switch r "Camera" "SAVE_PICTURE_FILE" d.SAVE_PICTURE_FILE
  TAKEPICTURE_MAX_WAIT_TIME :=
    number long r "Camera" "TAKEPICTURE_MAX_WAIT_TIME" d.TAKEPICTURE_MAX_WAIT_TIME
  LOG_CONSOLE := switch r "Log" "CONSOLE" d.LOG_CONSOLE
  LOG_CONSOLE_LEVEL := number long r "Log" "CONSOLE_LEVEL" d.LOG_CONSOLE_LEVEL
  LOG_CONSOLE_PATH := text r "Log" "CONSOLE_PATH" d.LOG_CONSOLE_PATH
  LOG_FILE := switch r "Log" "FILE" d.LOG_FILE
  LOG_FILE_LEVEL := number long r "Log" "FILE_LEVEL" d.LOG_FILE_LEVEL
  LOG_FILE_DIRECTORY := text r "Log" "FILE_DIRECTORY" d.LOG_FILE_DIRECTORY
  URL := text r "Server" "URL" d.URL
  YELLOW := number long r "Gpio" "YELLOW" d.YELLOW
  BLUE := number long r "Gpio" "BLUE" d.BLUE
  GREEN := number long r "Gpio" "GREEN" d.GREEN
  RED := number long r "Gpio" "RED" d.RED
  RELAY := number long r "Gpio" "RELAY" d.RELAY
  DEBUG_SERVICE := switch r "Debug" "DEBUG_SERVICE" d.DEBUG_SERVICE

end Choices

section Insertions

def Insertion.str? : Insertion → Option (String × Bytes)
  | .str e => some e
  | _ => none

def Insertion.bool? : Insertion → Option (String × Bool)
  | .bool e => some e
  | _ => none

def Insertion.int? : Insertion → Option (String × Int)
  | .int e => some e
  | _ => none

end Insertions

/-- What a file says of each key: its values joined. A file that cannot be opened says nothing. -/
def said (file : Option Bytes) (key : Bytes) : Option Bytes :=
  match file with
  | none => none
  | some f =>
      if valuesOf key (callsIn f) = [] then none else some (joined (valuesOf key (callsIn f)))

/-- A configuration file as a choice of settings. -/
def chosen (long : Nat) (file : Option Bytes) : Choices :=
  Choices.factory.heard long ⟨0, said file⟩

section Reading

theorem values_said (file : Option Bytes) : (INIReader.new file)._values = said file := by
  cases file with
  | none => rfl
  | some f => exact funext (INIReader.values_new f)

theorem error_new (f : Bytes) : 0 ≤ (INIReader.new (some f))._error := Int.natCast_nonneg _

/-- Both lists of the constructor insert the same where the file is silent. -/
theorem defaults_eq (long : Nat) : defaults = fromReader long ⟨-1, said none⟩ := by
  have hstr (category key value : String) :
      mapStrInsertFromReader ⟨-1, said none⟩ category key value =
        mapStrInsert category key value := rfl
  have hbool (category key : String) (value : Bool) :
      mapBoolInsertFromReader ⟨-1, said none⟩ category key value =
        mapBoolInsert category key value := rfl
  have hint (category key : String) (value : Int) (h : Int.bmod value (2 ^ 32) = value) :
      mapIntInsertFromReader long ⟨-1, said none⟩ category key value =
        mapIntInsert category key value := by
    rw [mapIntInsertFromReader, (INIReader.default_of_none rfl long [] false value).2.2, h]
    rfl
  simp only [defaults, fromReader, hstr, hbool]
  rw [hint, hint, hint, hint, hint, hint, hint, hint, hint, hint, hint] <;> rfl

/-- The result of the reading of a file counts for nothing behind the constructor's test. -/
theorem settings_new (long : Nat) (file : Option Bytes) :
    Settings.new long file = Settings.inserted (fromReader long ⟨0, said file⟩) := by
  rw [Settings.new]
  cases file with
  | none => exact congrArg Settings.inserted (defaults_eq long)
  | some f =>
      rw [if_neg (Int.not_lt.mpr (error_new f))]
      rw [← values_said (some f)]
      rfl

theorem lookup_inserted (l : List Insertion) (key : String) :
    (Settings.inserted l).m_mapStr.lookup key = (l.filterMap Insertion.str?).lookup key ∧
      (Settings.inserted l).m_mapBool.lookup key = (l.filterMap Insertion.bool?).lookup key ∧
      (Settings.inserted l).m_mapInt.lookup key = (l.filterMap Insertion.int?).lookup key := by
  have hmaps (s : Settings) :
      (l.foldl Settings.insert s).m_mapStr =
          (l.filterMap Insertion.str?).foldl insertNew s.m_mapStr ∧
        (l.foldl Settings.insert s).m_mapBool =
          (l.filterMap Insertion.bool?).foldl insertNew s.m_mapBool ∧
        (l.foldl Settings.insert s).m_mapInt =
          (l.filterMap Insertion.int?).foldl insertNew s.m_mapInt := by
    induction l generalizing s with
    | nil => exact ⟨rfl, rfl, rfl⟩
    | cons e l ih => cases e <;> exact ih _
  obtain ⟨hstr, hbool, hint⟩ := hmaps ⟨[], [], []⟩
  refine ⟨?_, ?_, ?_⟩
  · rw [Settings.inserted, hstr, lookup_foldl_insertNew, List.nil_append]
  · rw [Settings.inserted, hbool, lookup_foldl_insertNew, List.nil_append]
  · rw [Settings.inserted, hint, lookup_foldl_insertNew, List.nil_append]

end Reading

/-- Under each key stands the choice of it. -/
structure Holds (s : Settings) (c : Choices) : Prop where
  AUTH_CD : s.get "App::AUTH_CD" = .ok c.AUTH_CD
  MEMCO_CD : s.get "App::MEMCO_CD" = .ok c.MEMCO_CD
  SITE_CD : s.get "App::SITE_CD" = .ok c.SITE_CD
  DV_LOC : s.get "App::DV_LOC" = .ok c.DV_LOC
  DV_NO : s.get "App::DV_NO" = .ok c.DV_NO
  LOCAL_DATABASE : s.getBool "App::LOCAL_DATABASE" = .ok c.LOCAL_DATABASE
  IN_OUT : s.get "App::IN_OUT" = .ok c.IN_OUT
  REBOOT_TIME : s.get "App::REBOOT_TIME" = .ok c.REBOOT_TIME
  WORKING_DIRECTORY : s.get "App::WORKING_DIRECTORY" = .ok c.WORKING_DIRECTORY
  DISPLAY_PHOTO : s.getBool "App::DISPLAY_PHOTO" = .ok c.DISPLAY_PHOTO
  TIMER_INTERVAL : s.getInt "App::TIMER_INTERVAL" = .ok c.TIMER_INTERVAL
  CAPTURE : s.getBool "Action::CAPTURE" = .ok c.CAPTURE
  SOUND : s.getBool "Action::SOUND" = .ok c.SOUND
  MODE : s.get "Rfid::MODE" = .ok c.MODE
  CHECK_INTERVAL : s.getInt "Rfid::CHECK_INTERVAL" = .ok c.CHECK_INTERVAL
  RFID1356_PORT : s.get "Rfid::RFID1356_PORT" = .ok c.RFID1356_PORT
  RFID800_PORT : s.get "Rfid::RFID800_PORT" = .ok c.RFID800_PORT
  DELAY_OFF_TIME : s.getInt "Camera::DELAY_OFF_TIME" = .ok c.DELAY_OFF_TIME
  SAVE_PICTURE_FILE : s.getBool "Camera::SAVE_PICTURE_FILE" = .ok c.SAVE_PICTURE_FILE
  TAKEPICTURE_MAX_WAIT_TIME :
    s.getInt "Camera::TAKEPICTURE_MAX_WAIT_TIME" = .ok c.TAKEPICTURE_MAX_WAIT_TIME
  LOG_CONSOLE : s.getBool "Log::CONSOLE" = .ok c.LOG_CONSOLE
  LOG_CONSOLE_LEVEL : s.getInt "Log::CONSOLE_LEVEL" = .ok c.LOG_CONSOLE_LEVEL
  LOG_CONSOLE_PATH : s.get "Log::CONSOLE_PATH" = .ok c.LOG_CONSOLE_PATH
  LOG_FILE : s.getBool "Log::FILE" = .ok c.LOG_FILE
  LOG_FILE_LEVEL : s.getInt "Log::FILE_LEVEL" = .ok c.LOG_FILE_LEVEL
  LOG_FILE_DIRECTORY : s.get "Log::FILE_DIRECTORY" = .ok c.LOG_FILE_DIRECTORY
  URL : s.get "Server::URL" = .ok c.URL
  YELLOW : s.getInt "Gpio::YELLOW" = .ok c.YELLOW
  BLUE : s.getInt "Gpio::BLUE" = .ok c.BLUE
  GREEN : s.getInt "Gpio::GREEN" = .ok c.GREEN
  RED : s.getInt "Gpio::RED" = .ok c.RED
  RELAY : s.getInt "Gpio::RELAY" = .ok c.RELAY
  DEBUG_SERVICE : s.getBool "Debug::DEBUG_SERVICE" = .ok c.DEBUG_SERVICE

theorem start_holds {long : Nat} {file : Option Bytes} {c : Choices}
    (h : Holds (Settings.new long file) c) : start long file = .ok c.started := by
  simp only [start, MainDelegator.SettingInit, EmployeeMembers.new, TimeSheetMembers.new,
    h.AUTH_CD, h.MEMCO_CD, h.SITE_CD, h.DV_LOC, h.DV_NO, h.LOCAL_DATABASE, h.IN_OUT,
    h.REBOOT_TIME, h.WORKING_DIRECTORY, h.DISPLAY_PHOTO, h.TIMER_INTERVAL, h.CAPTURE, h.SOUND,
    h.MODE, h.CHECK_INTERVAL, h.RFID1356_PORT, h.RFID800_PORT, h.DELAY_OFF_TIME,
    h.SAVE_PICTURE_FILE, h.TAKEPICTURE_MAX_WAIT_TIME, h.LOG_CONSOLE, h.LOG_CONSOLE_LEVEL,
    h.LOG_CONSOLE_PATH, h.LOG_FILE, h.LOG_FILE_LEVEL, h.LOG_FILE_DIRECTORY, h.URL, h.YELLOW,
    h.BLUE, h.GREEN, h.RED, h.RELAY, h.DEBUG_SERVICE]
  rfl

section Inserted

variable {l : List Insertion} {key : String}

theorem get_inserted {v : Bytes} (h : (l.filterMap Insertion.str?).lookup key = some v) :
    (Settings.inserted l).get key = .ok v := by
  rw [Settings.get, (lookup_inserted l key).1, h]
  rfl

theorem getBool_inserted {v : Bool} (h : (l.filterMap Insertion.bool?).lookup key = some v) :
    (Settings.inserted l).getBool key = .ok v := by
  rw [Settings.getBool, (lookup_inserted l key).2.1, h]
  rfl

theorem getInt_inserted {v : Int} (h : (l.filterMap Insertion.int?).lookup key = some v) :
    (Settings.inserted l).getInt key = .ok v := by
  rw [Settings.getInt, (lookup_inserted l key).2.2, h]
  rfl

end Inserted

section Lists

variable (long : Nat) (r : INIReader)

open Choices

theorem strs_fromReader : (fromReader long r).filterMap Insertion.str? =
      [("App::AUTH_CD", (factory.heard long r).AUTH_CD),
        ("App::MEMCO_CD", (factory.heard long r).MEMCO_CD),
        ("App::SITE_CD", (factory.heard long r).SITE_CD),
        ("App::DV_LOC", (factory.heard long r).DV_LOC),
        ("App::DV_NO", (factory.heard long r).DV_NO),
        ("App::IN_OUT", (factory.heard long r).IN_OUT),
        ("App::REBOOT_TIME", (factory.heard long r).REBOOT_TIME),
        ("App::WORKING_DIRECTORY", (factory.heard long r).WORKING_DIRECTORY),
        ("Rfid::MODE", (factory.heard long r).MODE),
        ("Rfid::RFID1356_PORT", (factory.heard long r).RFID1356_PORT),
        ("Rfid::RFID800_PORT", (factory.heard long r).RFID800_PORT),
        ("Log::CONSOLE_PATH", (factory.heard long r).LOG_CONSOLE_PATH),
        ("Log::FILE_DIRECTORY", (factory.heard long r).LOG_FILE_DIRECTORY),
        ("Server::URL", (factory.heard long r).URL)] := by
  simp [fromReader, mapStrInsertFromReader, mapBoolInsertFromReader, mapIntInsertFromReader,
    Insertion.str?, heard, factory, text, List.filterMap_cons]

theorem bools_fromReader : (fromReader long r).filterMap Insertion.bool? =
      [("App::LOCAL_DATABASE", (factory.heard long r).LOCAL_DATABASE),
        ("App::DISPLAY_PHOTO", (factory.heard long r).DISPLAY_PHOTO),
        ("Action::CAPTURE", (factory.heard long r).CAPTURE),
        ("Action::SOUND", (factory.heard long r).SOUND),
        ("Camera::SAVE_PICTURE_FILE", (factory.heard long r).SAVE_PICTURE_FILE),
        ("Log::CONSOLE", (factory.heard long r).LOG_CONSOLE),
        ("Log::FILE", (factory.heard long r).LOG_FILE),
        ("Debug::DEBUG_SERVICE", (factory.heard long r).DEBUG_SERVICE)] := by
  simp [fromReader, mapStrInsertFromReader, mapBoolInsertFromReader, mapIntInsertFromReader,
    Insertion.bool?, heard, factory, switch, List.filterMap_cons]

theorem ints_fromReader : (fromReader long r).filterMap Insertion.int? =
      [("App::TIMER_INTERVAL", (factory.heard long r).TIMER_INTERVAL),
        ("Rfid::CHECK_INTERVAL", (factory.heard long r).CHECK_INTERVAL),
        ("Camera::DELAY_OFF_TIME", (factory.heard long r).DELAY_OFF_TIME),
        ("Camera::TAKEPICTURE_MAX_WAIT_TIME", (factory.heard long r).TAKEPICTURE_MAX_WAIT_TIME),
        ("Log::CONSOLE_LEVEL", (factory.heard long r).LOG_CONSOLE_LEVEL),
        ("Log::FILE_LEVEL", (factory.heard long r).LOG_FILE_LEVEL),
        ("Gpio::YELLOW", (factory.heard long r).YELLOW),
        ("Gpio::BLUE", (factory.heard long r).BLUE),
        ("Gpio::GREEN", (factory.heard long r).GREEN),
        ("Gpio::RED", (factory.heard long r).RED),
        ("Gpio::RELAY", (factory.heard long r).RELAY)] := by
  simp [fromReader, mapStrInsertFromReader, mapBoolInsertFromReader, mapIntInsertFromReader,
    Insertion.int?, heard, factory, number, List.filterMap_cons]

theorem holds_fromReader :
    Holds (Settings.inserted (fromReader long r)) (factory.heard long r) where
  AUTH_CD := get_inserted (by simp [strs_fromReader])
  MEMCO_CD := get_inserted (by simp [strs_fromReader, List.lookup_cons])
  SITE_CD := get_inserted (by simp [strs_fromReader, List.lookup_cons])
  DV_LOC := get_inserted (by simp [strs_fromReader, List.lookup_cons])
  DV_NO := get_inserted (by simp [strs_fromReader, List.lookup_cons])
  LOCAL_DATABASE := getBool_inserted (by simp [bools_fromReader])
  IN_OUT := get_inserted (by simp [strs_fromReader, List.lookup_cons])
  REBOOT_TIME := get_inserted (by simp [strs_fromReader, List.lookup_cons])
  WORKING_DIRECTORY := get_inserted (by simp [strs_fromReader, List.lookup_cons])
  DISPLAY_PHOTO := getBool_inserted (by simp [bools_fromReader, List.lookup_cons])
  TIMER_INTERVAL := getInt_inserted (by simp [ints_fromReader])
  CAPTURE := getBool_inserted (by simp [bools_fromReader, List.lookup_cons])
  SOUND := getBool_inserted (by simp [bools_fromReader, List.lookup_cons])
  MODE := get_inserted (by simp [strs_fromReader, List.lookup_cons])
  CHECK_INTERVAL := getInt_inserted (by simp [ints_fromReader, List.lookup_cons])
  RFID1356_PORT := get_inserted (by simp [strs_fromReader, List.lookup_cons])
  RFID800_PORT := get_inserted (by simp [strs_fromReader, List.lookup_cons])
  DELAY_OFF_TIME := getInt_inserted (by simp [ints_fromReader, List.lookup_cons])
  SAVE_PICTURE_FILE := getBool_inserted (by simp [bools_fromReader, List.lookup_cons])
  TAKEPICTURE_MAX_WAIT_TIME := getInt_inserted (by simp [ints_fromReader, List.lookup_cons])
  LOG_CONSOLE := getBool_inserted (by simp [bools_fromReader, List.lookup_cons])
  LOG_CONSOLE_LEVEL := getInt_inserted (by simp [ints_fromReader, List.lookup_cons])
  LOG_CONSOLE_PATH := get_inserted (by simp [strs_fromReader, List.lookup_cons])
  LOG_FILE := getBool_inserted (by simp [bools_fromReader, List.lookup_cons])
  LOG_FILE_LEVEL := getInt_inserted (by simp [ints_fromReader, List.lookup_cons])
  LOG_FILE_DIRECTORY := get_inserted (by simp [strs_fromReader, List.lookup_cons])
  URL := get_inserted (by simp [strs_fromReader, List.lookup_cons])
  YELLOW := getInt_inserted (by simp [ints_fromReader, List.lookup_cons])
  BLUE := getInt_inserted (by simp [ints_fromReader, List.lookup_cons])
  GREEN := getInt_inserted (by simp [ints_fromReader, List.lookup_cons])
  RED := getInt_inserted (by simp [ints_fromReader, List.lookup_cons])
  RELAY := getInt_inserted (by simp [ints_fromReader, List.lookup_cons])
  DEBUG_SERVICE := getBool_inserted (by simp [bools_fromReader, List.lookup_cons])

end Lists

theorem holds_new (long : Nat) (file : Option Bytes) :
    Holds (Settings.new long file) (chosen long file) := by
  rw [settings_new]
  exact holds_fromReader long ⟨0, said file⟩

/-- Every key that is asked for has been inserted, and under it stands what the file says or
else the default. -/
theorem start_file (long : Nat) (file : Option Bytes) :
    start long file = .ok (chosen long file).started :=
  start_holds (holds_new long file)

/-! ## Documents -/

inductive Value where
  | str (v : Bytes)
  | bool (b : Bool)
  | int (n : Int)

/-- The texts that a value may be written as. -/
def Value.WrittenAs : Value → Bytes → Prop
  | str v, t => t = v
  | bool b, t => t.map tolower ∈ INIReader.words b
  | int n, t => t = decimal n ∧ -2 ^ 31 ≤ n ∧ n < 2 ^ 31

structure Setting where
  category : String
  key : String
  value : Value

def Choices.settings (c : Choices) : List Setting :=
  [⟨"App", "AUTH_CD", .str c.AUTH_CD⟩,
   ⟨"App", "MEMCO_CD", .str c.MEMCO_CD⟩,
   ⟨"App", "SITE_CD", .str c.SITE_CD⟩,
   ⟨"App", "DV_LOC", .str c.DV_LOC⟩,
   ⟨"App", "DV_NO", .str c.DV_NO⟩,
   ⟨"App", "LOCAL_DATABASE", .bool c.LOCAL_DATABASE⟩,
   ⟨"App", "IN_OUT", .str c.IN_OUT⟩,
   ⟨"App", "REBOOT_TIME", .str c.REBOOT_TIME⟩,
   ⟨"App", "WORKING_DIRECTORY", .str c.WORKING_DIRECTORY⟩,
   ⟨"App", "DISPLAY_PHOTO", .bool c.DISPLAY_PHOTO⟩,
   ⟨"App", "TIMER_INTERVAL", .int c.TIMER_INTERVAL⟩,
   ⟨"Action", "CAPTURE", .bool c.CAPTURE⟩,
   ⟨"Action", "SOUND", .bool c.SOUND⟩,
   ⟨"Rfid", "MODE", .str c.MODE⟩,
   ⟨"Rfid", "CHECK_INTERVAL", .int c.CHECK_INTERVAL⟩,
   ⟨"Rfid", "RFID1356_PORT", .str c.RFID1356_PORT⟩,
   ⟨"Rfid", "RFID800_PORT", .str c.RFID800_PORT⟩,
   ⟨"Camera", "DELAY_OFF_TIME", .int c.DELAY_OFF_TIME⟩,
   ⟨"Camera", "SAVE_PICTURE_FILE", .bool c.SAVE_PICTURE_FILE⟩,
   ⟨"Camera", "TAKEPICTURE_MAX_WAIT_TIME", .int c.TAKEPICTURE_MAX_WAIT_TIME⟩,
   ⟨"Log", "CONSOLE", .bool c.LOG_CONSOLE⟩,
   ⟨"Log", "CONSOLE_LEVEL", .int c.LOG_CONSOLE_LEVEL⟩,
   ⟨"Log", "CONSOLE_PATH", .str c.LOG_CONSOLE_PATH⟩,
   ⟨"Log", "FILE", .bool c.LOG_FILE⟩,
   ⟨"Log", "FILE_LEVEL", .int c.LOG_FILE_LEVEL⟩,
   ⟨"Log", "FILE_DIRECTORY", .str c.LOG_FILE_DIRECTORY⟩,
   ⟨"Server", "URL", .str c.URL⟩,
   ⟨"Gpio", "YELLOW", .int c.YELLOW⟩,
   ⟨"Gpio", "BLUE", .int c.BLUE⟩,
   ⟨"Gpio", "GREEN", .int c.GREEN⟩,
   ⟨"Gpio", "RED", .int c.RED⟩,
   ⟨"Gpio", "RELAY", .int c.RELAY⟩,
   ⟨"Debug", "DEBUG_SERVICE", .bool c.DEBUG_SERVICE⟩]

/-- The values that the document has under a key. -/
def valuesIn (items : List Item) (category key : String) : List Bytes :=
  valuesOf (MakeKey (ascii category) (ascii key)) (callsOf [] [] items)

/-- A setting is written once, or not at all where it is the default `d`. -/
def Setting.GivenIn (items : List Item) (s d : Setting) : Prop :=
  (∃ t, s.value.WrittenAs t ∧ valuesIn items s.category s.key = [t]) ∨
    s.value = d.value ∧ valuesIn items s.category s.key = []

/-- Every setting, in whatever order the document has them. -/
def Choices.GivenIn (items : List Item) (c : Choices) : Prop :=
  List.Forall₂ (Setting.GivenIn items) c.settings Choices.factory.settings

section Written

variable {items : List Item} {bom : Bool} {long : Nat} {category key : String}

/-- What the document says under the key of a setting. -/
theorem said_written (h : Placed [] items) (hbom : Marked items bom) (category key : String) :
    said (some (written items bom)) (MakeKey (ascii category) (ascii key)) =
      if valuesIn items category key = [] then none
      else some (joined (valuesIn items category key)) := by
  rw [said, INIReader.callsIn_written h hbom]
  rfl

theorem said_once (h : Placed [] items) (hbom : Marked items bom) {t : Bytes}
    (ht : valuesIn items category key = [t]) :
    said (some (written items bom)) (MakeKey (ascii category) (ascii key)) = some t := by
  rw [said_written h hbom, ht, if_neg (List.cons_ne_nil _ _), joined_singleton]

theorem said_nothing (h : Placed [] items) (hbom : Marked items bom)
    (ht : valuesIn items category key = []) :
    said (some (written items bom)) (MakeKey (ascii category) (ascii key)) = none := by
  rw [said_written h hbom, if_pos ht]

variable {r : INIReader}

theorem text_given (hr : r._values = said (some (written items bom))) (h : Placed [] items)
    (hbom : Marked items bom) {v d : Bytes}
    (hgiven : Setting.GivenIn items ⟨category, key, .str v⟩ ⟨category, key, .str d⟩) :
    Choices.text r category key d = v := by
  rw [Choices.text, INIReader.Get, hr]
  rcases hgiven with ⟨t, rfl, ht⟩ | ⟨hd, hnone⟩
  · rw [said_once h hbom ht]
    rfl
  · rw [said_nothing h hbom hnone]
    exact (Value.str.inj hd).symm

theorem switch_given (hr : r._values = said (some (written items bom))) (h : Placed [] items)
    (hbom : Marked items bom) {b d : Bool}
    (hgiven : Setting.GivenIn items ⟨category, key, .bool b⟩ ⟨category, key, .bool d⟩) :
    Choices.switch r category key d = b := by
  rcases hgiven with ⟨t, hword, ht⟩ | ⟨hd, hnone⟩
  · refine INIReader.GetBoolean_word ?_ d
    rw [INIReader.Get, hr, said_once h hbom ht]
    exact hword
  · have hdefault := INIReader.default_of_none (hr ▸ said_nothing h hbom hnone) 0 [] d 0
    rw [Choices.switch, hdefault.2.1]
    exact (Value.bool.inj hd).symm

theorem number_given (hr : r._values = said (some (written items bom))) (h : Placed [] items)
    (hbom : Marked items bom) (hlong : 32 ≤ long) {n d : Int} (hd : Int.bmod d (2 ^ 32) = d)
    (hgiven : Setting.GivenIn items ⟨category, key, .int n⟩ ⟨category, key, .int d⟩) :
    Choices.number long r category key d = n := by
  rw [Choices.number]
  rcases hgiven with ⟨t, ⟨rfl, hlow, hhigh⟩, ht⟩ | ⟨hn, hnone⟩
  · have hpow : (2 : Int) ^ 31 ≤ 2 ^ (long - 1) := by
      exact_mod_cast Nat.pow_le_pow_right (by decide : 0 < 2) (by omega : 31 ≤ long - 1)
    have hget : r.Get (ascii category) (ascii key) [] = decimal n := by
      rw [INIReader.Get, hr, said_once h hbom ht]
      rfl
    rw [INIReader.GetInteger_decimal hget (by omega) (by omega)]
    exact Int.bmod_eq_of_le (by omega) (by omega)
  · rw [(INIReader.default_of_none (hr ▸ said_nothing h hbom hnone) long [] false d).2.2, hd]
    exact (Value.int.inj hn).symm

end Written

/-- The program starts with the settings that a document gives, however it is laid out, and
with the defaults of those it leaves out. -/
theorem start_written {items : List Item} {bom : Bool} (h : Placed [] items)
    (hbom : Marked items bom) {c : Choices} (hgiven : c.GivenIn items) {long : Nat}
    (hlong : 32 ≤ long) : start long (some (written items bom)) = .ok c.started := by
  rw [start_holds (holds_new long _)]
  refine congrArg (fun c : Choices => Except.ok c.started) ?_
  simp only [Choices.GivenIn, Choices.settings, List.forall₂_cons,
    List.forall₂_nil_right_iff] at hgiven
  obtain ⟨hAUTH_CD, hMEMCO_CD, hSITE_CD, hDV_LOC, hDV_NO, hLOCAL_DATABASE, hIN_OUT, hREBOOT_TIME,
    hWORKING_DIRECTORY, hDISPLAY_PHOTO, hTIMER_INTERVAL, hCAPTURE, hSOUND, hMODE, hCHECK_INTERVAL,
    hRFID1356_PORT, hRFID800_PORT, hDELAY_OFF_TIME, hSAVE_PICTURE_FILE,
    hTAKEPICTURE_MAX_WAIT_TIME, hLOG_CONSOLE, hLOG_CONSOLE_LEVEL, hLOG_CONSOLE_PATH, hLOG_FILE,
    hLOG_FILE_LEVEL, hLOG_FILE_DIRECTORY, hURL, hYELLOW, hBLUE, hGREEN, hRED, hRELAY,
    hDEBUG_SERVICE, -⟩ := hgiven
  apply Choices.ext <;> dsimp only [chosen, Choices.heard]
  · exact text_given rfl h hbom hAUTH_CD
  · exact text_given rfl h hbom hMEMCO_CD
  · exact text_given rfl h hbom hSITE_CD
  · exact text_given rfl h hbom hDV_LOC
  · exact text_given rfl h hbom hDV_NO
  · exact switch_given rfl h hbom hLOCAL_DATABASE
  · exact text_given rfl h hbom hIN_OUT
  · exact text_given rfl h hbom hREBOOT_TIME
  · exact text_given rfl h hbom hWORKING_DIRECTORY
  · exact switch_given rfl h hbom hDISPLAY_PHOTO
  · exact number_given rfl h hbom hlong rfl hTIMER_INTERVAL
  · exact switch_given rfl h hbom hCAPTURE
  · exact switch_given rfl h hbom hSOUND
  · exact text_given rfl h hbom hMODE
  · exact number_given rfl h hbom hlong rfl hCHECK_INTERVAL
  · exact text_given rfl h hbom hRFID1356_PORT
  · exact text_given rfl h hbom hRFID800_PORT
  · exact number_given rfl h hbom hlong rfl hDELAY_OFF_TIME
  · exact switch_given rfl h hbom hSAVE_PICTURE_FILE
  · exact number_given rfl h hbom hlong rfl hTAKEPICTURE_MAX_WAIT_TIME
  · exact switch_given rfl h hbom hLOG_CONSOLE
  · exact number_given rfl h hbom hlong rfl hLOG_CONSOLE_LEVEL
  · exact text_given rfl h hbom hLOG_CONSOLE_PATH
  · exact switch_given rfl h hbom hLOG_FILE
  · exact number_given rfl h hbom hlong rfl hLOG_FILE_LEVEL
  · exact text_given rfl h hbom hLOG_FILE_DIRECTORY
  · exact text_given rfl h hbom hURL
  · exact number_given rfl h hbom hlong rfl hYELLOW
  · exact number_given rfl h hbom hlong rfl hBLUE
  · exact number_given rfl h hbom hlong rfl hGREEN
  · exact number_given rfl h hbom hlong rfl hRED
  · exact number_given rfl h hbom hlong rfl hRELAY
  · exact switch_given rfl h hbom hDEBUG_SERVICE

/-! ## A document -/

def relaySection : Header where
  name := ascii "Gpio"
  behind := []
  closed := by decide
  uncommented := by unfold Uncommented; decide
  short := by decide
  oneLine := ⟨by decide, by decide, by decide⟩

def relayPin : Entry where
  name := ascii "RELAY"
  before := []
  separator := 58
  behind := ascii " "
  value := ascii "-18"
  after := []
  comment := []
  named := by decide
  trimmedName := by decide
  beginsPair := by rintro _ ⟨⟩; decide
  uncommentedName := by unfold Uncommented; decide
  separates := ⟨by decide, .inr ⟨rfl, by decide, by decide⟩⟩
  blanksBefore := blanks_nil
  blanksBehind := blanks_space
  trimmedValue := by decide
  uncommentedValue := by unfold Uncommented; decide
  blanksAfter := blanks_nil
  commented := .inl rfl
  oneLine := ⟨by decide, by decide, by decide⟩

/-- A document that gives two of the settings. -/
def gateSettings : List Item :=
  [.header relaySection, .entry relayPin, .filler gateRemark, .header gateSection,
    .entry gateLocation]

def gateChoices : Choices := { Choices.factory with DV_LOC := ascii "0003", RELAY := -18 }

theorem gateChoices_given : gateChoices.GivenIn gateSettings := by
  simp only [Choices.GivenIn, Choices.settings, List.forall₂_cons, List.forall₂_nil_right_iff]
  and_intros
  all_goals first
    | exact .inr ⟨rfl, by decide⟩
    | exact .inl ⟨ascii "0003", rfl, by decide⟩
    | exact .inl ⟨decimal (-18), ⟨rfl, by decide, by decide⟩, by decide⟩
    | trivial

theorem gate_started : start 32 (some (written gateSettings true)) = .ok gateChoices.started :=
  @start_written gateSettings true ⟨⟩ (by unfold Marked; decide) gateChoices gateChoices_given 32
    (by decide)

end Acu.Config
