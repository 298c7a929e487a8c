import Acu.Employee.Consistency

/-!
# The database file under power loss

A call of `updateLocalDB` is carried out one file operation at a time, and the
power may go between any two of them. The bodies of the replies that were parsed
to their end, and whether the file ever existed, are kept as history.
-/

namespace Acu.Employee

open Acu.Core Web EmployeeInfoMgr

inductive DeviceLabel where
  | call (bForce : Bool) (env : UpdateEnv)
  | op
  | powerLoss

/-- `mgr` is missing once the program crashed or waits for ever: nothing but a power loss
goes on from there. -/
structure Device where
  disk : Disk String
  pending : List (FileEvent String Note)
  mgr : Option EmployeeInfoMgr
  bodies : List Bytes
  existed : Bool

namespace Device

def observe (bodies : List Bytes) : FileEvent String Note → List Bytes
  | .note (.served body) => body :: bodies
  | _ => bodies

/-- The next file operation of the call that is under way. -/
def perform (s : Device) (e : FileEvent String Note) (es : List (FileEvent String Note)) :
    Device :=
  let disk := FileEvent.apply s.disk e
  { s with
    disk := disk
    pending := es
    bodies := observe s.bodies e
    existed := s.existed || (disk DB_FILE).isSome }

def step (cfg : Config) (s : Device) : DeviceLabel → Option Device
  | .call bForce env =>
      match s.pending, s.mgr with
      | [], some mgr =>
          let o := updateLocalDB cfg mgr bForce env s.disk
          some { s with pending := o.events, mgr := o.value }
      | _, _ => none
  | .op =>
      match s.pending with
      | [] => none
      | e :: es => some (s.perform e es)
  | .powerLoss => some { s with pending := [], mgr := some .empty }

end Device

def device (cfg : Config) : Machine Device DeviceLabel where
  step := Device.step cfg

/-- A device whose file, if there is one, came from an earlier reply. -/
def Device.start (d : Disk String) : Device where
  disk := d
  pending := []
  mgr := some .empty
  bodies := (d DB_FILE).toList
  existed := (d DB_FILE).isSome

/-- The file holds the body of a reply that was parsed to its end, and is there for good. -/
structure FileIntact (s : Device) : Prop where
  complete : ∀ content, s.disk DB_FILE = some content → content ∈ s.bodies
  kept : s.existed = true → s.disk DB_FILE ≠ none

/-- A call that leaves `DB_FILE` to itself: it is skipped, or it finds no file and ends
before its parser, or it finds one and its download does not return. -/
def LeavesFile (cfg : Config) (s : Device) : DeviceLabel → Prop
  | .call bForce env =>
      ∀ mgr, s.mgr = some mgr → (mgr.m_bUpdated && !bForce) = false →
        match s.disk DB_FILE with
        | none => ¬ ReachesParsing cfg.m_serverIP cfg.m_sMemcoCd cfg.m_sSiteCd env.download.sys
        | some _ => (download cfg env TEMP_DB_FILE s.disk).value ≠ some (.ok ())
  | .op | .powerLoss => True

/-! ## Calls that leave the file alone -/

/-- What holds in every state of such runs. -/
structure Undisturbed (s : Device) : Prop where
  intact : FileIntact s
  pending : ∀ e ∈ s.pending, DB_FILE ∉ e.touched
  noted : s.disk DB_FILE ≠ none → s.existed = true

/-- The operations of a call that leaves the file alone do not touch it. -/
theorem LeavesFile.frame {cfg : Config} {s : Device} {bForce : Bool} {env : UpdateEnv}
    {mgr : EmployeeInfoMgr} (h : LeavesFile cfg s (.call bForce env)) (hm : s.mgr = some mgr) :
    ∀ e ∈ (updateLocalDB cfg mgr bForce env s.disk).events, DB_FILE ∉ e.touched := by
  cases hskip : mgr.m_bUpdated && !bForce with
  | true =>
      rw [updateLocalDB_skipped hskip]
      exact fun e he => absurd he List.not_mem_nil
  | false =>
      have hleave := h mgr hm hskip
      cases hd : s.disk DB_FILE with
      | none =>
          rw [hd] at hleave
          rw [updateLocalDB_absent hskip hd]
          have hsilent : (download cfg env DB_FILE s.disk).events = [] :=
            request_RfidInfoSelectAll_of_not_reaches _ _ _ _ _ hleave _
          intro e he
          simp only [hsilent, List.not_mem_nil] at he
      | some text =>
          rw [hd] at hleave
          rw [updateLocalDB_present hskip hd]
          cases hv : (download cfg env TEMP_DB_FILE s.disk).value with
          | none =>
              dsimp only
              exact download_temp_frame cfg env s.disk
          | some r =>
              cases r with
              | error e =>
                  dsimp only
                  exact download_temp_frame cfg env s.disk
              | ok u => exact absurd hv hleave

theorem observe_grows (bodies : List Bytes) (e : FileEvent String Note) :
    ∀ body ∈ bodies, body ∈ Device.observe bodies e := by
  intro body hb
  unfold Device.observe
  split
  · exact List.mem_cons_of_mem _ hb
  · exact hb

/-- An operation that does not touch the file keeps it intact. -/
theorem Undisturbed.perform {s : Device} {e : FileEvent String Note}
    {es : List (FileEvent String Note)} (h : Undisturbed s) (hp : s.pending = e :: es) :
    Undisturbed (s.perform e es) := by
  have he : DB_FILE ∉ e.touched := h.pending e (hp ▸ List.mem_cons_self)
  have hframe : FileEvent.apply s.disk e DB_FILE = s.disk DB_FILE :=
    FileEvent.apply_frame s.disk e DB_FILE he
  have hexisted : (s.perform e es).existed = s.existed := by
    change (s.existed || (FileEvent.apply s.disk e DB_FILE).isSome) = s.existed
    rw [hframe, Bool.or_eq_left_iff_imp]
    exact fun hd => h.noted (Option.isSome_iff_ne_none.mp hd)
  refine ⟨⟨fun content hc => ?_, fun hex => ?_⟩, fun f hf => ?_, fun hd => ?_⟩
  · exact observe_grows _ _ _ (h.intact.complete content (hframe ▸ hc))
  · exact fun hd => h.intact.kept (hexisted ▸ hex) (hframe ▸ hd)
  · exact h.pending f (hp ▸ List.mem_cons_of_mem _ hf)
  · exact hexisted.trans (h.noted fun hn => hd (hframe.trans hn))

theorem undisturbed_step {cfg : Config} (s : Device) (a : DeviceLabel) (t : Device)
    (hs : Undisturbed s) (ha : LeavesFile cfg s a) (h : (device cfg).step s a = some t) :
    Undisturbed t := by
  cases a with
  | call bForce env =>
      simp only [device, Device.step] at h
      split at h
      next mgr hp hm =>
        obtain rfl := Option.some.inj h
        exact ⟨⟨hs.intact.complete, hs.intact.kept⟩, ha.frame hm, hs.noted⟩
      · cases h
  | op =>
      simp only [device, Device.step] at h
      split at h
      · cases h
      next e es hp =>
        obtain rfl := Option.some.inj h
        exact hs.perform hp
  | powerLoss =>
      obtain rfl := Option.some.inj h
      exact ⟨⟨hs.intact.complete, hs.intact.kept⟩, fun e he => absurd he List.not_mem_nil,
        hs.noted⟩

theorem undisturbed_start (d : Disk String) : Undisturbed (Device.start d) := by
  refine ⟨⟨fun content hc => ?_, fun hex => ?_⟩, fun e he => absurd he List.not_mem_nil,
    fun hd => ?_⟩
  · exact Option.mem_toList.mpr hc
  · exact Option.isSome_iff_ne_none.mp hex
  · exact Option.isSome_iff_ne_none.mpr hd

/-! ## Calls that do not -/

/-- The operations of a call are carried out in their order when the power stays. -/
theorem run_ops (cfg : Config) (es : List (FileEvent String Note)) (s : Device)
    (rest : List (FileEvent String Note)) (hp : s.pending = es ++ rest) :
    ∃ u, (device cfg).run s (List.replicate es.length .op) = some u ∧
      u.disk = FileEvent.replay s.disk es ∧ u.pending = rest ∧
      (s.existed = true → u.existed = true) := by
  induction es generalizing s with
  | nil => exact ⟨s, rfl, rfl, hp, fun h => h⟩
  | cons e es ih =>
      have hstep : (device cfg).step s .op = some (s.perform e (es ++ rest)) := by
        simp only [device, Device.step, hp, List.cons_append]
      obtain ⟨u, hrun, hdisk, hrest, hex⟩ := ih (s.perform e (es ++ rest)) rfl
      refine ⟨u, ?_, hdisk, hrest, fun h => hex ?_⟩
      · rw [List.length_cons, List.replicate_succ, Machine.run_cons, hstep, Option.bind_some, hrun]
      · change (s.existed || _) = true
        rw [h, Bool.true_or]

/-- A call that replaces the file removes it first. -/
theorem replacing_breaks {cfg : Config} {s t : Device} {bForce : Bool} {env : UpdateEnv}
    {mgr : EmployeeInfoMgr} {text : Bytes} (hs : Undisturbed s)
    (hskip : (mgr.m_bUpdated && !bForce) = false) (hd : s.disk DB_FILE = some text)
    (hv : (download cfg env TEMP_DB_FILE s.disk).value = some (.ok ()))
    (ht : t = { s with
      pending := (updateLocalDB cfg mgr bForce env s.disk).events
      mgr := (updateLocalDB cfg mgr bForce env s.disk).value }) :
    ∃ n u, (device cfg).run t (List.replicate n .op) = some u ∧ ¬ FileIntact u := by
  have hpending : t.pending =
      ((download cfg env TEMP_DB_FILE s.disk).events ++ [.remove DB_FILE]) ++
      [.rename TEMP_DB_FILE DB_FILE] := by
    rw [ht, updateLocalDB_present hskip hd, hv, List.append_assoc]
    rfl
  obtain ⟨u, hrun, hdisk, _, hex⟩ := run_ops cfg _ t _ hpending
  refine ⟨_, u, hrun, fun hintact => ?_⟩
  have hexisted : t.existed = true := by
    rw [ht]
    exact hs.noted (by rw [hd]; exact Option.some_ne_none _)
  refine hintact.kept (hex hexisted) ?_
  rw [hdisk, FileEvent.replay_append, FileEvent.replay_cons, FileEvent.replay_nil]
  exact FileEvent.apply_remove_self _ DB_FILE

/-- A first download that comes to its parser empties the file before it reads the reply. -/
theorem first_download_breaks {cfg : Config} {s t : Device} {bForce : Bool} {env : UpdateEnv}
    {mgr : EmployeeInfoMgr} (hskip : (mgr.m_bUpdated && !bForce) = false)
    (hd : s.disk DB_FILE = none) (hempty : [] ∉ s.bodies)
    (hr : ReachesParsing cfg.m_serverIP cfg.m_sMemcoCd cfg.m_sSiteCd env.download.sys)
    (ht : t = { s with
      pending := (updateLocalDB cfg mgr bForce env s.disk).events
      mgr := (updateLocalDB cfg mgr bForce env s.disk).value }) :
    ∃ n u, (device cfg).run t (List.replicate n .op) = some u ∧ ¬ FileIntact u := by
  obtain ⟨es, hes⟩ := request_RfidInfoSelectAll_creates _ _ _ env.download DB_FILE hr s.disk
  have hpending : t.pending = .create DB_FILE :: es := by
    rw [ht, updateLocalDB_absent hskip hd]
    dsimp only [download]
    exact hes
  refine ⟨1, t.perform (.create DB_FILE) es, ?_, fun hintact => hempty ?_⟩
  · simp only [device, List.replicate_one, Machine.run_cons, Device.step, hpending,
      Option.bind_some, Machine.run_nil]
  · have hbodies : (t.perform (.create DB_FILE) es).bodies = s.bodies := by rw [ht]; rfl
    have hfile : (t.perform (.create DB_FILE) es).disk DB_FILE = some [] :=
      FileEvent.apply_create_self (μ := Note) t.disk DB_FILE
    exact hbodies ▸ hintact.complete [] hfile

/-! ## The whole run -/

def hangsUp : SysCalls where
  socket := 5
  fcntl_nonblock := 0
  errno_inprogress := true
  poll_out := 1
  fcntl_flags := 0
  sends := [146]
  poll_in := 1
  recvs := [.closed]

def noFiles : Disk String := fun _ => none

end Acu.Employee
