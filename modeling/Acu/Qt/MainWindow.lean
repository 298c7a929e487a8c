import Acu.Core.Heap
import Acu.Delegator.OnData

/-!
# The window at the gate

The delegator's threads call the window. A text for a label is posted to the window's own thread
with the call; of an employee only the news is posted, and the data is left in members, from which
the slot takes it later. One call for an employee is made at a time, as `onData` makes them; the
statements of the threads come in any order while time passes.
-/

namespace Acu.Qt

open Acu.Core Delegator

/-! ## The code -/

/-- The labels that have a name in `labelTable`. -/
inductive Tag where
  | GateLoc
  | GateNo
  | Server
  | Rfid
  | RfidNo
  | Result
  | Msg
  deriving DecidableEq, Repr

def labelTable : List (String × Tag) :=
  [("GateLoc", .GateLoc), ("GateNo", .GateNo), ("Server", .Server), ("Rfid", .Rfid),
    ("RfidNo", .RfidNo), ("Result", .Result), ("Msg", .Msg)]

/-- An event of the window's thread. -/
inductive Posted where
  | setText (label : Tag) (text : Bytes)
  | employeeInfo
  deriving DecidableEq, Repr

/-- The arguments of `onEmployeeInfo`, the strings as `c_str` gives them. -/
structure Info where
  CoName : Bytes
  Name : Bytes
  PinNo : Bytes
  img_buf : Option Bytes
  img_sz : Int

/-- The next statement of `onEmployeeInfo`. -/
inductive Statement where
  | deleteImg
  | m_CoName
  | m_Name
  | m_PinNo
  | m_img_buf
  | m_img_sz
  | emit
  deriving DecidableEq, Repr

/-- A call of `onEmployeeInfo` that has not returned, with the address of its picture. -/
structure InfoCall where
  info : Info
  img_buf : Option Nat
  next : Statement

/-- Where the window's thread stands: in its event loop, or before a statement of
`updateEmployeeInfo`. -/
inductive SlotPc where
  | idle
  | timer
  | CoName
  | Name
  | img_buf
  | loadFromData
  deriving DecidableEq, Repr

/-- `m_timerEmployeeInfo` holds the millisecond it runs out in. A picture is shown as the bytes
it was loaded from. -/
structure MainWindow where
  m_CoName : Bytes
  m_Name : Bytes
  m_PinNo : Bytes
  m_img_buf : Option Nat
  m_img_sz : Int
  pictures : Heap Bytes
  labelTexts : Tag → Bytes
  labelCoName : Bytes
  labelName : Bytes
  labelPhoto : Option Bytes
  m_timerEmployeeInfo : Option Nat
  events : List Posted
  caller : Option InfoCall
  slot : SlotPc
  now : Nat

/-- A millisecond, a call of the listener, the next statement of a call, the next event, the next
statement of the slot, or the end of the timer. -/
inductive Label where
  | tick
  | call (e : Effect)
  | caller
  | event
  | slot
  | timeout

/-- `c_str()`, copied up to its NUL. -/
def c_str (s : Bytes) : Bytes := s.takeWhile (· ≠ 0)

/-- The loop of `onMessage` over the table. -/
def onMessage (tag : String) (data : Bytes) : List Posted :=
  labelTable.filterMap fun entry =>
    if entry.1 = tag then some (.setText entry.2 (c_str data)) else none

/-- The texts that a call posts. -/
def posts : Effect → List Posted
  | .onMessage tag data => onMessage tag data
  | _ => []

def infoOf : Effect → Option Info
  | .onEmployeeInfo CoName Name PinNo img_buf img_sz =>
      some ⟨c_str CoName, c_str Name, c_str PinNo, img_buf, img_sz⟩
  | _ => none

namespace MainWindow

/-- The call, with its picture in a block of its own. -/
def onEmployeeInfo (s : MainWindow) (info : Info) : MainWindow :=
  { s with
    pictures := s.pictures.allocAll info.img_buf.toList
    caller := some ⟨info, info.img_buf.map fun _ => s.pictures.length, .deleteImg⟩ }

/-- One statement. A picture that was deleted cannot be deleted again. -/
def statement (s : MainWindow) (c : InfoCall) : Option MainWindow :=
  let goOn (next : Statement) : Option InfoCall := some { c with next }
  match c.next with
  | .deleteImg =>
      match s.m_img_buf with
      | none => some { s with caller := goOn .m_CoName }
      | some a => do
          let _ ← s.pictures.deref a
          some { s with pictures := s.pictures.free a, caller := goOn .m_CoName }
  | .m_CoName => some { s with m_CoName := c.info.CoName, caller := goOn .m_Name }
  | .m_Name => some { s with m_Name := c.info.Name, caller := goOn .m_PinNo }
  | .m_PinNo => some { s with m_PinNo := c.info.PinNo, caller := goOn .m_img_buf }
  | .m_img_buf => some { s with m_img_buf := c.img_buf, caller := goOn .m_img_sz }
  | .m_img_sz => some { s with m_img_sz := c.info.img_sz, caller := goOn .emit }
  | .emit => some { s with events := s.events ++ [.employeeInfo], caller := none }

/-- `loadFromData`: `jpg` tells what can be decoded. Neither a deleted picture nor more than a
picture can be read. -/
def loadFromData (jpg : Bytes → Bool) (s : MainWindow) : Option (Option Bytes) :=
  match s.m_img_buf with
  | none => some none
  | some a => do
      let bytes ← s.pictures.deref a
      if 0 ≤ s.m_img_sz ∧ s.m_img_sz ≤ bytes.length then
        let data := bytes.take s.m_img_sz.toNat
        some (if jpg data then some data else none)
      else none

/-- One statement of `updateEmployeeInfo`. -/
def updateEmployeeInfo (jpg : Bytes → Bool) (s : MainWindow) : Option MainWindow :=
  match s.slot with
  | .idle => none
  | .timer => some { s with m_timerEmployeeInfo := some (s.now + 5000), slot := .CoName }
  | .CoName => some { s with labelCoName := s.m_CoName, slot := .Name }
  | .Name => some { s with labelName := s.m_Name, slot := .img_buf }
  | .img_buf =>
      match s.m_img_buf with
      | none => some { s with labelPhoto := none, slot := .idle }
      | some _ => some { s with slot := .loadFromData }
  | .loadFromData => (s.loadFromData jpg).map fun labelPhoto => { s with labelPhoto, slot := .idle }

/-- The labels that `cleanEmployeeInfo` clears. -/
def cleans : Tag → Bool
  | .RfidNo | .Result | .Msg => true
  | _ => false

def cleanEmployeeInfo (s : MainWindow) : MainWindow :=
  { s with
    labelTexts := fun l => if cleans l then [] else s.labelTexts l
    labelCoName := []
    labelName := []
    labelPhoto := none
    m_timerEmployeeInfo := none }

/-- The event loop takes the first event. -/
def event (s : MainWindow) : Option MainWindow :=
  match s.slot, s.events with
  | .idle, .setText l text :: events =>
      some { s with labelTexts := Function.update s.labelTexts l text, events }
  | .idle, .employeeInfo :: events => some { s with slot := .timer, events }
  | _, _ => none

def timeout (s : MainWindow) : Option MainWindow :=
  match s.slot, s.m_timerEmployeeInfo with
  | .idle, some deadline => if deadline ≤ s.now then some s.cleanEmployeeInfo else none
  | _, _ => none

def step (jpg : Bytes → Bool) (s : MainWindow) : Label → Option MainWindow
  | .tick => some { s with now := s.now + 1 }
  | .call e =>
      match infoOf e, s.caller with
      | none, _ => some { s with events := s.events ++ posts e }
      | some info, none => some (s.onEmployeeInfo info)
      | some _, some _ => none
  | .caller =>
      match s.caller with
      | none => none
      | some c => s.statement c
  | .event => s.event
  | .slot => s.updateEmployeeInfo jpg
  | .timeout => s.timeout

/-- As the constructor leaves it, which does not set `m_img_sz`. -/
def start (m_img_sz : Int) (now : Nat) : MainWindow where
  m_CoName := []
  m_Name := []
  m_PinNo := []
  m_img_buf := none
  m_img_sz := m_img_sz
  pictures := []
  labelTexts := fun _ => []
  labelCoName := []
  labelName := []
  labelPhoto := none
  m_timerEmployeeInfo := none
  events := []
  caller := none
  slot := .idle
  now := now

end MainWindow

def window (jpg : Bytes → Bool) : Machine MainWindow Label := ⟨MainWindow.step jpg⟩

/-! ## What the calls ask for -/

/-- The calls of a run, in their order. -/
def calls (labels : List Label) : List Effect :=
  labels.filterMap fun
    | .call e => some e
    | _ => none

/-- The data of the last employee; before the first one there is none. -/
def lastInfo (es : List Effect) : Info :=
  (es.filterMap infoOf).getLast?.getD ⟨[], [], [], none, 0⟩

def textFor (l : Tag) : Posted → Option Bytes
  | .setText label text => if label = l then some text else none
  | .employeeInfo => none

/-- The texts that are posted for a label. -/
def texts (l : Tag) (es : List Effect) : List Bytes := (es.flatMap posts).filterMap (textFor l)

/-- What `loadFromData` makes of the picture. -/
def Info.photo (jpg : Bytes → Bool) (i : Info) : Option Bytes :=
  i.img_buf.bind fun bytes =>
    let data := bytes.take i.img_sz.toNat
    if jpg data then some data else none

theorem lastInfo_append (es : List Effect) (e : Effect) :
    lastInfo (es ++ [e]) = (infoOf e).getD (lastInfo es) := by
  cases h : infoOf e with
  | none => simp [lastInfo, h]
  | some info => simp [lastInfo, h]

theorem texts_append (l : Tag) (es : List Effect) (e : Effect) :
    texts l (es ++ [e]) = texts l es ++ (posts e).filterMap (textFor l) := by
  simp [texts]

theorem posts_of_info {e : Effect} {info : Info} (h : infoOf e = some info) : posts e = [] := by
  cases e <;> first | rfl | cases h

theorem news_not_mem_posts (e : Effect) : .employeeInfo ∉ posts e := by
  cases e with
  | onMessage tag data =>
      intro hmem
      obtain ⟨entry, -, hentry⟩ := List.mem_filterMap.mp hmem
      split at hentry
      · cases hentry
      · cases hentry
  | _ => exact List.not_mem_nil

/-! ## The members -/

/-- What a call has written before its next statement; between calls it is all. -/
def Written (i : Info) (p : Option Nat) (s : MainWindow) : Statement → Prop
  | .deleteImg => ∀ a, s.m_img_buf = some a → (s.pictures.deref a).isSome ∧ p ≠ some a
  | .m_CoName => True
  | .m_Name => s.m_CoName = i.CoName
  | .m_PinNo | .m_img_buf => s.m_CoName = i.CoName ∧ s.m_Name = i.Name
  | .m_img_sz => s.m_CoName = i.CoName ∧ s.m_Name = i.Name ∧ s.m_img_buf = p
  | .emit => s.m_CoName = i.CoName ∧ s.m_Name = i.Name ∧ s.m_img_buf = p ∧
      (p ≠ none → s.m_img_sz = i.img_sz)

/-- The last call's picture is there, and beside it only one that is about to be deleted. -/
structure Members (i : Info) (p : Option Nat) (s : MainWindow) : Prop where
  picture : p.map s.pictures.deref = i.img_buf.map some
  written : match s.caller with
    | none => Written i p s .emit
    | some c => c.info = i ∧ c.img_buf = p ∧ Written i p s c.next
  live : ∀ a, (s.pictures.deref a).isSome → p = some a ∨
    s.m_img_buf = some a ∧ ∃ c, s.caller = some c ∧ c.next = .deleteImg

namespace Members

variable {i : Info} {p : Option Nat} {s t : MainWindow}

theorem start (m_img_sz : Int) (now : Nat) :
    Members ⟨[], [], [], none, 0⟩ none (.start m_img_sz now) where
  picture := rfl
  written := ⟨rfl, rfl, rfl, fun h => absurd rfl h⟩
  live a h := by simp [MainWindow.start, Heap.deref] at h

/-- Nothing else writes the members. -/
theorem keep (h : Members i p s) (hCoName : t.m_CoName = s.m_CoName) (hName : t.m_Name = s.m_Name)
    (himg : t.m_img_buf = s.m_img_buf) (hsz : t.m_img_sz = s.m_img_sz)
    (hpictures : t.pictures = s.pictures) (hcaller : t.caller = s.caller) : Members i p t := by
  obtain ⟨hpicture, hwritten, hlive⟩ := h
  refine ⟨hpictures ▸ hpicture, ?_, ?_⟩
  · have hsame (next : Statement) : Written i p s next → Written i p t next := by
      cases next <;> simp only [Written, hCoName, hName, himg, hsz, hpictures] <;> exact id
    rw [hcaller]
    cases hc : s.caller with
    | none =>
        rw [hc] at hwritten
        exact hsame _ hwritten
    | some c =>
        rw [hc] at hwritten
        exact ⟨hwritten.1, hwritten.2.1, hsame _ hwritten.2.2⟩
  · rw [hpictures, himg, hcaller]
    exact hlive

/-- A call begins with a picture of its own, and the one before still there. -/
theorem onEmployeeInfo (h : Members i p s) (hidle : s.caller = none) (info : Info) :
    Members info (info.img_buf.map fun _ => s.pictures.length) (s.onEmployeeInfo info) := by
  obtain ⟨hpicture, hwritten, hlive⟩ := h
  rw [hidle] at hwritten
  obtain ⟨-, -, himg, -⟩ := hwritten
  have hold {a : Nat} (ha : p = some a) : (s.pictures.deref a).isSome := by
    rw [ha, Option.map_some] at hpicture
    cases hbytes : i.img_buf with
    | none =>
        rw [hbytes] at hpicture
        cases hpicture
    | some bytes =>
        rw [hbytes, Option.map_some, Option.some.injEq] at hpicture
        rw [hpicture]
        rfl
  refine ⟨?_, ⟨rfl, rfl, fun a ha => ?_⟩, fun a ha => ?_⟩
  · cases hinfo : info.img_buf with
    | none => rfl
    | some bytes =>
        have hnew := Heap.deref_allocAll_new s.pictures [bytes] 0
        simp only [MainWindow.onEmployeeInfo, hinfo]
        exact congrArg some hnew
  · have hsome := hold (himg.symm.trans ha)
    obtain ⟨bytes, hbytes⟩ := Option.isSome_iff_exists.mp hsome
    have hlt := Heap.lt_length_of_deref hbytes
    refine ⟨?_, ?_⟩
    · rw [MainWindow.onEmployeeInfo, Heap.deref_allocAll_old hlt]
      exact hsome
    · cases info.img_buf with
      | none => exact nofun
      | some bytes => exact fun heq => Nat.ne_of_gt hlt (Option.some.inj heq)
  · by_cases hlt : a < s.pictures.length
    · rw [MainWindow.onEmployeeInfo, Heap.deref_allocAll_old hlt] at ha
      rcases hlive a ha with hp | ⟨-, c, hc, -⟩
      · exact .inr ⟨himg.trans hp, _, rfl, rfl⟩
      · rw [hidle] at hc
        cases hc
    · obtain ⟨k, rfl⟩ := Nat.exists_eq_add_of_le (Nat.le_of_not_lt hlt)
      rw [MainWindow.onEmployeeInfo, Heap.deref_allocAll_new] at ha
      cases hinfo : info.img_buf with
      | none =>
          rw [hinfo] at ha
          simp at ha
      | some bytes =>
          rw [hinfo] at ha
          cases k with
          | zero => exact .inl rfl
          | succ k => simp at ha

/-- Each statement goes on: in particular no picture is deleted twice. -/
theorem statement (h : Members i p s) {c : InfoCall} (hc : s.caller = some c) :
    ∃ t, s.statement c = some t ∧ Members i p t := by
  obtain ⟨hpicture, hwritten, hlive⟩ := h
  rw [hc] at hwritten
  obtain ⟨rfl, rfl, hwritten⟩ := hwritten
  obtain ⟨info, img_buf, next⟩ := c
  have honly (hnext : next ≠ .deleteImg) (a : Nat) (ha : (s.pictures.deref a).isSome) :
      img_buf = some a := by
    rcases hlive a ha with hp | ⟨-, c', hc', hdelete⟩
    · exact hp
    · obtain rfl := Option.some.inj (hc.symm.trans hc')
      exact absurd hdelete hnext
  cases next with
  | deleteImg =>
      cases himg : s.m_img_buf with
      | none =>
          have ht : s.statement ⟨info, img_buf, .deleteImg⟩ =
              some { s with caller := some ⟨info, img_buf, .m_CoName⟩ } := by
            simp only [MainWindow.statement, himg]
          refine ⟨_, ht, hpicture, ⟨rfl, rfl, trivial⟩, fun a ha => ?_⟩
          rcases hlive a ha with hp | ⟨hold, -⟩
          · exact .inl hp
          · rw [himg] at hold
            cases hold
      | some a =>
          obtain ⟨hsome, hne⟩ := hwritten a himg
          obtain ⟨bytes, hbytes⟩ := Option.isSome_iff_exists.mp hsome
          have ht : s.statement ⟨info, img_buf, .deleteImg⟩ = some { s with
              pictures := s.pictures.free a
              caller := some ⟨info, img_buf, .m_CoName⟩ } := by
            simp only [MainWindow.statement, himg, hbytes, Option.bind_eq_bind, Option.bind_some]
          refine ⟨_, ht, ?_, ⟨rfl, rfl, trivial⟩, fun b hb => ?_⟩
          · rw [← hpicture]
            cases img_buf with
            | none => rfl
            | some b =>
                have hdiffers : a ≠ b := fun heq => hne (congrArg some heq.symm)
                exact congrArg some (Heap.deref_free_of_ne hdiffers)
          · by_cases hab : a = b
            · rw [← hab] at hb
              simp only [Heap.deref_free_self, Option.isSome_none, Bool.false_eq_true] at hb
            · simp only [Heap.deref_free_of_ne hab] at hb
              rcases hlive b hb with hp | ⟨hold, -⟩
              · exact .inl hp
              · exact absurd (Option.some.inj (himg.symm.trans hold)) hab
  | m_CoName =>
      refine ⟨_, rfl, hpicture, ⟨rfl, rfl, rfl⟩, fun a ha => .inl ?_⟩
      exact honly (by decide) a ha
  | m_Name =>
      refine ⟨_, rfl, hpicture, ⟨rfl, rfl, hwritten, rfl⟩, fun a ha => .inl ?_⟩
      exact honly (by decide) a ha
  | m_PinNo =>
      refine ⟨_, rfl, hpicture, ⟨rfl, rfl, hwritten⟩, fun a ha => .inl ?_⟩
      exact honly (by decide) a ha
  | m_img_buf =>
      refine ⟨_, rfl, hpicture, ⟨rfl, rfl, hwritten.1, hwritten.2, rfl⟩, fun a ha => .inl ?_⟩
      exact honly (by decide) a ha
  | m_img_sz =>
      obtain ⟨hCoName, hName, himg⟩ := hwritten
      refine ⟨_, rfl, hpicture, ⟨rfl, rfl, hCoName, hName, himg, fun _ => rfl⟩, fun a ha => .inl ?_⟩
      exact honly (by decide) a ha
  | emit =>
      refine ⟨_, rfl, hpicture, hwritten, fun a ha => .inl ?_⟩
      exact honly (by decide) a ha

end Members

/-! ## The labels of the employee -/

def ShowsInfo (jpg : Bytes → Bool) (i : Info) (s : MainWindow) : Prop :=
  s.labelCoName = i.CoName ∧ s.labelName = i.Name ∧ s.labelPhoto = i.photo jpg

def ShowsNothing (s : MainWindow) : Prop :=
  s.labelCoName = [] ∧ s.labelName = [] ∧ s.labelPhoto = none

/-- What the slot has shown before its next statement, of data that does not change meanwhile. -/
def Shown (jpg : Bytes → Bool) (i : Info) (s : MainWindow) : SlotPc → Prop
  | .idle => s.m_timerEmployeeInfo ≠ none ∧ ShowsInfo jpg i s ∨
      s.m_timerEmployeeInfo = none ∧ ShowsNothing s
  | .timer => True
  | .CoName => s.m_timerEmployeeInfo ≠ none
  | .Name => s.m_timerEmployeeInfo ≠ none ∧ s.labelCoName = i.CoName
  | .img_buf | .loadFromData => s.m_timerEmployeeInfo ≠ none ∧ s.labelCoName = i.CoName ∧
      s.labelName = i.Name

/-- With the last call made and its news taken, the slot is for its data. -/
def Displays (jpg : Bytes → Bool) (i : Info) (s : MainWindow) : Prop :=
  s.caller = none → .employeeInfo ∉ s.events → Shown jpg i s s.slot

/-- A text that was taken for a label stands there until the next one, or until the label is
cleared; those that are posted are still to come. -/
def TextsOf (es : List Effect) (s : MainWindow) (l : Tag) : Prop :=
  ∃ taken, texts l es = taken ++ s.events.filterMap (textFor l) ∧
    (s.labelTexts l = taken.getLast?.getD [] ∨ MainWindow.cleans l = true ∧ s.labelTexts l = [])

/-- A statement of a call leaves what is shown, and posts the news at its end. -/
theorem statement_shows {s t : MainWindow} {c : InfoCall} (h : s.statement c = some t) :
    t.labelTexts = s.labelTexts ∧ t.slot = s.slot ∧
      (t.events = s.events ∧ t.caller ≠ none ∨
        t.events = s.events ++ [.employeeInfo] ∧ t.caller = none) := by
  obtain ⟨info, img_buf, next⟩ := c
  cases next with
  | deleteImg =>
      simp only [MainWindow.statement] at h
      split at h
      · obtain rfl := Option.some.inj h
        exact ⟨rfl, rfl, .inl ⟨rfl, Option.some_ne_none _⟩⟩
      · obtain ⟨bytes, -, h⟩ := Option.bind_eq_some_iff.mp h
        obtain rfl := Option.some.inj h
        exact ⟨rfl, rfl, .inl ⟨rfl, Option.some_ne_none _⟩⟩
  | emit =>
      obtain rfl := Option.some.inj h
      exact ⟨rfl, rfl, .inr ⟨rfl, rfl⟩⟩
  | m_CoName | m_Name | m_PinNo | m_img_buf | m_img_sz =>
      obtain rfl := Option.some.inj h
      exact ⟨rfl, rfl, .inl ⟨rfl, Option.some_ne_none _⟩⟩

/-- The picture that is loaded is the last call's, when no call is on its way. -/
theorem loadFromData_eq {jpg : Bytes → Bool} {i : Info} {p : Option Nat} {s : MainWindow}
    {photo : Option Bytes} (h : Members i p s) (hidle : s.caller = none)
    (hload : s.loadFromData jpg = some photo) : photo = i.photo jpg := by
  obtain ⟨hpicture, hwritten, -⟩ := h
  rw [hidle] at hwritten
  obtain ⟨-, -, himg, hsz⟩ := hwritten
  rw [MainWindow.loadFromData, himg] at hload
  cases p with
  | none =>
      obtain rfl := Option.some.inj hload
      have hnone : i.img_buf = none := by simpa using hpicture.symm
      rw [Info.photo, hnone]
      rfl
  | some a =>
      cases hbytes : i.img_buf with
      | none =>
          rw [hbytes] at hpicture
          cases hpicture
      | some bytes =>
          rw [hbytes, Option.map_some, Option.map_some, Option.some.injEq] at hpicture
          simp only [hpicture, hsz (Option.some_ne_none a), Option.bind_eq_bind, Option.bind_some]
            at hload
          split at hload
          · obtain rfl := Option.some.inj hload
            rw [Info.photo, hbytes]
            rfl
          · cases hload

/-! ## Runs -/

/-- What holds after the calls `es`. -/
structure WindowInv (jpg : Bytes → Bool) (es : List Effect) (s : MainWindow) : Prop where
  members : ∃ p, Members (lastInfo es) p s
  displays : Displays jpg (lastInfo es) s
  texts : ∀ l, TextsOf es s l

theorem windowInv_start (jpg : Bytes → Bool) (m_img_sz : Int) (now : Nat) :
    WindowInv jpg [] (.start m_img_sz now) where
  members := ⟨none, .start m_img_sz now⟩
  displays _ _ := .inr ⟨rfl, rfl, rfl, rfl⟩
  texts _ := ⟨[], rfl, .inl rfl⟩

namespace WindowInv

variable {jpg : Bytes → Bool} {es : List Effect} {s t : MainWindow}

/-- What a step that only moves time or the slot on keeps, but for what is displayed. -/
theorem keep (h : WindowInv jpg es s) (hCoName : t.m_CoName = s.m_CoName)
    (hName : t.m_Name = s.m_Name) (himg : t.m_img_buf = s.m_img_buf)
    (hsz : t.m_img_sz = s.m_img_sz) (hpictures : t.pictures = s.pictures)
    (hcaller : t.caller = s.caller) (htexts : t.labelTexts = s.labelTexts)
    (hevents : t.events = s.events) (hdisplays : Displays jpg (lastInfo es) t) :
    WindowInv jpg es t where
  members := by
    obtain ⟨p, hmembers⟩ := h.members
    exact ⟨p, hmembers.keep hCoName hName himg hsz hpictures hcaller⟩
  displays := hdisplays
  texts l := by
    rw [TextsOf, htexts, hevents]
    exact h.texts l

theorem call (h : WindowInv jpg es s) {e : Effect}
    (hs : s.step jpg (.call e) = some t) : WindowInv jpg (es ++ [e]) t := by
  obtain ⟨⟨p, hmembers⟩, hdisplays, htexts⟩ := h
  simp only [MainWindow.step] at hs
  split at hs
  · next hinfo =>
      obtain rfl := Option.some.inj hs
      have hlast : lastInfo (es ++ [e]) = lastInfo es := by rw [lastInfo_append, hinfo]; rfl
      refine ⟨⟨p, ?_⟩, fun hcaller hnews => ?_, fun l => ?_⟩
      · rw [hlast]
        exact hmembers.keep rfl rfl rfl rfl rfl rfl
      · rw [hlast]
        exact hdisplays hcaller fun hmem => hnews (List.mem_append_left _ hmem)
      · obtain ⟨taken, htaken, hshown⟩ := htexts l
        refine ⟨taken, ?_, hshown⟩
        rw [texts_append, htaken, List.filterMap_append, List.append_assoc]
  · next info hinfo hidle =>
      obtain rfl := Option.some.inj hs
      have hnew : Members (lastInfo (es ++ [e])) (info.img_buf.map fun _ => s.pictures.length)
          (s.onEmployeeInfo info) := by
        rw [lastInfo_append, hinfo]
        exact hmembers.onEmployeeInfo hidle info
      refine ⟨⟨_, hnew⟩, fun hcaller => absurd hcaller (Option.some_ne_none _), fun l => ?_⟩
      rw [TextsOf, texts_append, posts_of_info hinfo, List.filterMap_nil, List.append_nil]
      exact htexts l
  · cases hs

theorem caller (h : WindowInv jpg es s) (hs : s.step jpg .caller = some t) :
    WindowInv jpg es t := by
  obtain ⟨⟨p, hmembers⟩, hdisplays, htexts⟩ := h
  simp only [MainWindow.step] at hs
  cases hc : s.caller with
  | none =>
      rw [hc] at hs
      cases hs
  | some c =>
      simp only [hc] at hs
      obtain ⟨t', ht', hmembers'⟩ := hmembers.statement hc
      obtain rfl := Option.some.inj (ht'.symm.trans hs)
      obtain ⟨htext, -, ⟨hevents, hcaller⟩ | ⟨hevents, hcaller⟩⟩ := statement_shows hs
      · refine ⟨⟨p, hmembers'⟩, fun hnone => absurd hnone hcaller, fun l => ?_⟩
        rw [TextsOf, htext, hevents]
        exact htexts l
      · refine ⟨⟨p, hmembers'⟩, fun _ hnews => absurd ?_ hnews, fun l => ?_⟩
        · rw [hevents]
          exact List.mem_append_right _ (List.mem_singleton.mpr rfl)
        · obtain ⟨taken, htaken, hshown⟩ := htexts l
          refine ⟨taken, ?_, htext ▸ hshown⟩
          rw [htaken, hevents, List.filterMap_append]
          exact congrArg (taken ++ ·) (List.append_nil _).symm

theorem event (h : WindowInv jpg es s) (hs : s.step jpg .event = some t) :
    WindowInv jpg es t := by
  obtain ⟨⟨p, hmembers⟩, hdisplays, htexts⟩ := h
  simp only [MainWindow.step, MainWindow.event] at hs
  split at hs
  · next label text events hidle hevents =>
      obtain rfl := Option.some.inj hs
      refine ⟨⟨p, hmembers.keep rfl rfl rfl rfl rfl rfl⟩, fun hcaller hnews => ?_, fun l => ?_⟩
      · refine hdisplays hcaller fun hmem => hnews ?_
        rw [hevents] at hmem
        exact (List.mem_cons.mp hmem).resolve_left nofun
      · obtain ⟨taken, htaken, hshown⟩ := htexts l
        rw [hevents] at htaken
        by_cases hl : label = l
        · subst hl
          refine ⟨taken ++ [text], ?_, .inl ?_⟩
          · rw [htaken, List.append_assoc]
            simp [textFor]
          · simp
        · refine ⟨taken, ?_, ?_⟩
          · rw [htaken]
            simp [textFor, hl]
          · simpa only [Function.update_of_ne (Ne.symm hl)] using hshown
  · next events hidle hevents =>
      obtain rfl := Option.some.inj hs
      refine ⟨⟨p, hmembers.keep rfl rfl rfl rfl rfl rfl⟩, fun _ _ => trivial, fun l => ?_⟩
      obtain ⟨taken, htaken, hshown⟩ := htexts l
      refine ⟨taken, ?_, hshown⟩
      rw [htaken, hevents]
      rfl
  · cases hs

theorem slot (h : WindowInv jpg es s) (hs : s.step jpg .slot = some t) :
    WindowInv jpg es t := by
  obtain ⟨p, hmembers⟩ := h.members
  have hdisplays := h.displays
  have hdata (hcaller : s.caller = none) :
      s.m_CoName = (lastInfo es).CoName ∧ s.m_Name = (lastInfo es).Name := by
    have hwritten := hmembers.written
    rw [hcaller] at hwritten
    exact ⟨hwritten.1, hwritten.2.1⟩
  simp only [MainWindow.step, MainWindow.updateEmployeeInfo] at hs
  rw [Displays] at hdisplays
  cases hslot : s.slot <;> rw [hslot] at hs hdisplays
  case idle => cases hs
  case timer =>
      obtain rfl := Option.some.inj hs
      exact h.keep rfl rfl rfl rfl rfl rfl rfl rfl fun _ _ => Option.some_ne_none _
  case CoName =>
      obtain rfl := Option.some.inj hs
      refine h.keep rfl rfl rfl rfl rfl rfl rfl rfl fun hcaller hnews => ?_
      exact ⟨hdisplays hcaller hnews, (hdata hcaller).1⟩
  case Name =>
      obtain rfl := Option.some.inj hs
      refine h.keep rfl rfl rfl rfl rfl rfl rfl rfl fun hcaller hnews => ?_
      obtain ⟨htimer, hCoName⟩ := hdisplays hcaller hnews
      exact ⟨htimer, hCoName, (hdata hcaller).2⟩
  case img_buf =>
      cases himg : s.m_img_buf with
      | none =>
          simp only [himg] at hs
          obtain rfl := Option.some.inj hs
          refine h.keep rfl rfl himg.symm rfl rfl rfl rfl rfl fun hcaller hnews => ?_
          obtain ⟨htimer, hCoName, hName⟩ := hdisplays hcaller hnews
          have hload : s.loadFromData jpg = some none := by
            simp only [MainWindow.loadFromData, himg]
          exact .inl ⟨htimer, hCoName, hName, loadFromData_eq hmembers hcaller hload⟩
      | some a =>
          simp only [himg] at hs
          obtain rfl := Option.some.inj hs
          exact h.keep rfl rfl himg.symm rfl rfl rfl rfl rfl hdisplays
  case loadFromData =>
      obtain ⟨photo, hload, rfl⟩ := Option.map_eq_some_iff.mp hs
      refine h.keep rfl rfl rfl rfl rfl rfl rfl rfl fun hcaller hnews => ?_
      obtain ⟨htimer, hCoName, hName⟩ := hdisplays hcaller hnews
      exact .inl ⟨htimer, hCoName, hName, loadFromData_eq hmembers hcaller hload⟩

theorem timeout (h : WindowInv jpg es s) (hs : s.step jpg .timeout = some t) :
    WindowInv jpg es t := by
  obtain ⟨⟨p, hmembers⟩, hdisplays, htexts⟩ := h
  simp only [MainWindow.step, MainWindow.timeout] at hs
  split at hs
  · next deadline hidle htimer =>
      split at hs
      · obtain rfl := Option.some.inj hs
        refine ⟨⟨p, hmembers.keep rfl rfl rfl rfl rfl rfl⟩, fun _ _ => ?_, fun l => ?_⟩
        · rw [show s.cleanEmployeeInfo.slot = .idle from hidle]
          exact .inr ⟨rfl, rfl, rfl, rfl⟩
        · obtain ⟨taken, htaken, hshown⟩ := htexts l
          refine ⟨taken, htaken, ?_⟩
          simp only [MainWindow.cleanEmployeeInfo]
          cases hcleans : MainWindow.cleans l with
          | true => exact .inr ⟨rfl, if_pos rfl⟩
          | false =>
              rw [hcleans] at hshown
              exact .inl (hshown.resolve_right nofun)
      · cases hs
  · cases hs

/-- Any step of the two threads. -/
theorem step (h : WindowInv jpg es s) {a : Label} (hs : s.step jpg a = some t) :
    WindowInv jpg (es ++ calls [a]) t := by
  have hquiet (ha : calls [a] = []) (ht : WindowInv jpg es t) :
      WindowInv jpg (es ++ calls [a]) t := by
    rw [ha, List.append_nil]
    exact ht
  cases a with
  | tick =>
      obtain rfl := Option.some.inj hs
      exact hquiet rfl (h.keep rfl rfl rfl rfl rfl rfl rfl rfl h.displays)
  | call e => exact h.call hs
  | caller => exact hquiet rfl (h.caller hs)
  | event => exact hquiet rfl (h.event hs)
  | slot => exact hquiet rfl (h.slot hs)
  | timeout => exact hquiet rfl (h.timeout hs)

/-- A run adds its calls. -/
theorem run {labels : List Label} (h : WindowInv jpg es s)
    (hrun : (window jpg).run s labels = some t) : WindowInv jpg (es ++ calls labels) t := by
  induction labels generalizing es s with
  | nil =>
      obtain rfl := Option.some.inj hrun
      rw [show calls [] = [] from rfl, List.append_nil]
      exact h
  | cons a labels ih =>
      obtain ⟨r, hstep, hrun⟩ := (window jpg).run_cons_eq_some hrun
      have hcalls : calls (a :: labels) = calls [a] ++ calls labels :=
        List.filterMap_append (l := [a])
      rw [hcalls, ← List.append_assoc]
      exact ih (h.step hstep) hrun

end WindowInv

/-- A card's number and its holder, shown. -/
def holderShown : List Label :=
  [.call (.onMessage "RfidNo" (ascii "77")),
    .call (.onEmployeeInfo (ascii "SK") (ascii "KIM") [] (some [255, 216]) 2), .caller, .event,
    .tick, .caller, .caller, .caller, .caller, .caller, .caller, .event, .slot, .slot, .slot,
    .slot, .slot]

/-- The picture has the bytes that its size tells of. -/
def Info.Fits (i : Info) : Prop :=
  ∀ bytes, i.img_buf = some bytes → 0 ≤ i.img_sz ∧ i.img_sz ≤ bytes.length

/-- A call for an employee begins when the one before has been shown. -/
def Awaits (s : MainWindow) : Label → Prop
  | .call e => infoOf e ≠ none → s.slot = .idle ∧ .employeeInfo ∉ s.events
  | _ => True

/-- No call is on its way while the slot runs, or is still to run. -/
def Apart (s : MainWindow) : Prop :=
  s.slot ≠ .idle ∨ .employeeInfo ∈ s.events → s.caller = none

theorem lastInfo_fits {es : List Effect}
    (h : ∀ e ∈ es, ∀ info, infoOf e = some info → info.Fits) : (lastInfo es).Fits := by
  rw [lastInfo]
  cases hlast : (es.filterMap infoOf).getLast? with
  | none => exact nofun
  | some info =>
      obtain ⟨e, he, hinfo⟩ := List.mem_filterMap.mp (List.mem_of_getLast? hlast)
      exact h e he info hinfo

theorem apart_step {jpg : Bytes → Bool} {s t : MainWindow} {a : Label} (h : Apart s)
    (ha : Awaits s a) (hs : (window jpg).step s a = some t) : Apart t := by
  change s.step jpg a = some t at hs
  cases a with
  | tick =>
      obtain rfl := Option.some.inj hs
      exact h
  | call e =>
      simp only [MainWindow.step] at hs
      split at hs
      · obtain rfl := Option.some.inj hs
        refine fun hbusy => h (hbusy.imp_right fun hmem => ?_)
        exact (List.mem_append.mp hmem).resolve_right (news_not_mem_posts e)
      · next info hinfo hidle =>
          obtain rfl := Option.some.inj hs
          obtain ⟨hslot, hnews⟩ := ha (hinfo ▸ Option.some_ne_none info)
          exact fun hbusy => absurd hbusy (not_or_intro (not_not_intro hslot) hnews)
      · cases hs
  | caller =>
      simp only [MainWindow.step] at hs
      split at hs
      · cases hs
      · next c hc =>
          obtain ⟨-, hslot, ⟨hevents, -⟩ | ⟨-, hcaller⟩⟩ := statement_shows hs
          · intro hbusy
            rw [hslot, hevents] at hbusy
            rw [h hbusy] at hc
            cases hc
          · exact fun _ => hcaller
  | event =>
      simp only [MainWindow.step, MainWindow.event] at hs
      split at hs
      · next hidle hevents =>
          obtain rfl := Option.some.inj hs
          refine fun hbusy => h (hbusy.imp_right fun hmem => ?_)
          rw [hevents]
          exact List.mem_cons_of_mem _ hmem
      · next hidle hevents =>
          obtain rfl := Option.some.inj hs
          refine fun _ => h (.inr ?_)
          rw [hevents]
          exact List.mem_cons_self
      · cases hs
  | slot =>
      have hbusy : s.slot ≠ .idle := by
        intro hidle
        simp only [MainWindow.step, MainWindow.updateEmployeeInfo, hidle] at hs
        cases hs
      have hcaller : t.caller = s.caller := by
        simp only [MainWindow.step, MainWindow.updateEmployeeInfo] at hs
        split at hs
        · cases hs
        · obtain rfl := Option.some.inj hs
          rfl
        · obtain rfl := Option.some.inj hs
          rfl
        · obtain rfl := Option.some.inj hs
          rfl
        · split at hs
          · obtain rfl := Option.some.inj hs
            rfl
          · obtain rfl := Option.some.inj hs
            rfl
        · obtain ⟨photo, -, rfl⟩ := Option.map_eq_some_iff.mp hs
          rfl
      exact fun _ => hcaller.trans (h (.inl hbusy))
  | timeout =>
      simp only [MainWindow.step, MainWindow.timeout] at hs
      split at hs
      · split at hs
        · obtain rfl := Option.some.inj hs
          exact h
        · cases hs
      · cases hs

/-- Where each call for an employee waits until the one before has been shown, and comes with no
more bytes told of than there are, the slot always goes on: it reads no deleted picture and nothing
behind one. -/
theorem slot_reads_picture {jpg : Bytes → Bool} {m_img_sz : Int} {now : Nat} {labels : List Label}
    {t : MainWindow} (hrun : (window jpg).run (.start m_img_sz now) labels = some t)
    (hawaits : (window jpg).AllSteps Awaits (.start m_img_sz now) labels)
    (hfits : ∀ e ∈ calls labels, ∀ info, infoOf e = some info → info.Fits)
    (hslot : t.slot ≠ .idle) : ∃ u, t.updateEmployeeInfo jpg = some u := by
  have hstart : Apart (.start m_img_sz now) := fun _ => rfl
  have hapart : Apart t :=
    Machine.run_invariant (fun _ _ _ => apart_step) hstart hawaits hrun
  have hcaller := hapart (.inl hslot)
  have hinv := (windowInv_start jpg m_img_sz now).run hrun
  rw [List.nil_append] at hinv
  obtain ⟨p, hpicture, hwritten, -⟩ := hinv.members
  rw [hcaller] at hwritten
  obtain ⟨-, -, himg, hsz⟩ := hwritten
  have hload : ∃ photo, t.loadFromData jpg = some photo := by
    rw [MainWindow.loadFromData, himg]
    cases p with
    | none => exact ⟨none, rfl⟩
    | some a =>
        cases hbytes : (lastInfo (calls labels)).img_buf with
        | none =>
            rw [hbytes] at hpicture
            cases hpicture
        | some bytes =>
            rw [hbytes, Option.map_some, Option.map_some, Option.some.injEq] at hpicture
            have hfit := lastInfo_fits hfits bytes hbytes
            rw [← hsz (Option.some_ne_none a)] at hfit
            simp only [hpicture, Option.bind_eq_bind, Option.bind_some, if_pos hfit]
            exact ⟨_, rfl⟩
  obtain ⟨photo, hload⟩ := hload
  rw [MainWindow.updateEmployeeInfo]
  cases hpc : t.slot with
  | idle => exact absurd hpc hslot
  | timer | CoName | Name => exact ⟨_, rfl⟩
  | img_buf =>
      cases t.m_img_buf with
      | none => exact ⟨_, rfl⟩
      | some a => exact ⟨_, rfl⟩
  | loadFromData =>
      simp only [hload]
      exact ⟨_, rfl⟩

theorem holder_slot_reads_picture : ∃ t,
    (window fun _ => true).run (.start 0 0) (holderShown.take 16) = some t ∧
      t.slot = .loadFromData ∧ ∃ u, t.updateEmployeeInfo (fun _ => true) = some u := by
  have hawaits : (window fun _ => true).AllSteps Awaits (.start 0 0) (holderShown.take 16) := by
    refine .cons rfl (fun h => absurd rfl h) (.cons rfl (fun _ => ⟨rfl, nofun⟩) ?_)
    iterate 14 refine .cons rfl trivial ?_
    trivial
  have hfits : ∀ e ∈ calls (holderShown.take 16), ∀ info, infoOf e = some info → info.Fits := by
    intro e he info hinfo
    obtain rfl | rfl : e = .onMessage "RfidNo" (ascii "77") ∨
        e = .onEmployeeInfo (ascii "SK") (ascii "KIM") [] (some [255, 216]) 2 := by
      simpa [calls, holderShown] using he
    · cases hinfo
    · obtain rfl := Option.some.inj hinfo
      intro bytes hbytes
      obtain rfl := Option.some.inj hbytes
      decide
  exact ⟨_, rfl, rfl, @slot_reads_picture (fun _ => true) 0 0 _ _ rfl hawaits hfits nofun⟩

/-- A call that does not wait can delete the picture that is about to be loaded. -/
theorem slot_after_delete (jpg : Bytes → Bool) {s t : MainWindow} {c : InfoCall} {a : Nat}
    (hslot : s.slot = .loadFromData) (himg : s.m_img_buf = some a) (hnext : c.next = .deleteImg)
    (hs : s.statement c = some t) : t.updateEmployeeInfo jpg = none := by
  obtain ⟨info, img_buf, next⟩ := c
  obtain rfl : next = .deleteImg := hnext
  simp only [MainWindow.statement, himg] at hs
  obtain ⟨bytes, -, hs⟩ := Option.bind_eq_some_iff.mp hs
  obtain rfl := Option.some.inj hs
  simp only [MainWindow.updateEmployeeInfo, MainWindow.loadFromData, hslot, Heap.deref_free_self]
  rfl

end Acu.Qt
