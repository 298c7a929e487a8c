import Acu.Employee.Manager

/-!
# Who may pass

The checks that `MainDelegator` makes on the record of a card: the work status,
the zone and the dates, each with the message it leaves.
-/

namespace Acu.Delegator

open Acu.Core Tools Employee

/-- The settings that `onData` and the checks read. -/
structure Settings where
  m_bCapture : Bool
  m_bSound : Bool
  m_bSavePictureFile : Bool
  m_sAuthCd : Bytes
  m_sDvLoc : Bytes
  employee : Employee.Config

/-- The gate locations that each zone opens where `AUTH_CD` names none. -/
def zoneLocations : List (String × List String) :=
  [("0002", ["0001", "0002", "0003"]), ("0003", ["0001", "0004", "0005"]),
    ("0004", ["0001", "0004", "0005"]), ("0005", ["0001"]), ("0006", ["0001", "0003", "0006"]),
    ("0007", ["0001", "0003", "0004", "0005"]), ("0008", ["0001", "0003"]),
    ("0009", ["0001", "0002", "0003", "0004", "0005"]),
    ("0010", ["0001", "0003", "0004", "0005", "0006"])]

def checkZone (cfg : Settings) (sAuth : Bytes) : Bool :=
  let sLoc := cfg.m_sDvLoc
  if (sAuth == [] && sLoc == ascii "0001") || sAuth == ascii "0001" then true
  else
    let sarrAuth := split cfg.m_sAuthCd 44
    if 0 < sarrAuth.length then sarrAuth.any fun sZone => sZone == sAuth
    else
      zoneLocations.any fun zone =>
        sAuth == ascii zone.1 && zone.2.any fun loc => sLoc == ascii loc

/-- `checkDate(start, end, msg)` on the day `today`. -/
def checkDate (today : Date) (start end_ : Option Date) : Bool × Bytes :=
  match start with
  | none => (false, ascii "Access Deny: No Date information")
  | some start =>
      if Date.gt start today then (false, ascii "Access Deny start date:" ++ start.toString)
      else
        match end_ with
        | none => (true, ascii "Checked Success ")
        | some end_ =>
            if Date.lt end_ today then (false, ascii "Access Deny work Until:" ++ end_.toString)
            else (true, ascii "Checked Success " ++ (ascii "at Work Until " ++ end_.toString))

/-- `checkValidate(ei, msg)`: the message stays empty on the way without dates. -/
def checkValidate (cfg : Settings) (today : Date) (ei : EmployeeInfo) : Bool × Bytes :=
  if ei.in_out_gb == ascii "0002" then
    if ei.utype == 67 then (true, [])
    else if !checkZone cfg ei.zone_code then (false, ascii "Authority Deny This Area")
    else checkDate today ei.ent_co_ymd ei.rtr_co_ymd
  else if ei.in_out_gb == ascii "0001" then (false, ascii "Access Deny Standby at Work")
  else if ei.in_out_gb == ascii "0003" then (false, ascii "Access Deny Retired at Work")
  else (false, ascii "Access Deny Check Work Status")

/-! ## What the checks decide -/

/-- The day lies in the time the employee works here. -/
def WorksOn (today : Date) (start end_ : Option Date) : Prop :=
  ∃ first, start = some first ∧ Date.NotAfter first today ∧
    ∀ last, end_ = some last → Date.NotAfter today last

/-- The employee is at work, and is of type C or may enter this zone today. -/
def MayPass (cfg : Settings) (today : Date) (ei : EmployeeInfo) : Prop :=
  ei.in_out_gb = ascii "0002" ∧ (ei.utype = 67 ∨
    (checkZone cfg ei.zone_code = true ∧ WorksOn today ei.ent_co_ymd ei.rtr_co_ymd))

theorem checkDate_iff (today : Date) (start end_ : Option Date) :
    (checkDate today start end_).1 = true ↔ WorksOn today start end_ := by
  unfold checkDate WorksOn
  cases start with
  | none => exact iff_of_false Bool.false_ne_true fun ⟨_, h, _⟩ => nomatch h
  | some first =>
      simp only [Option.some.injEq, exists_eq_left']
      rw [← Date.gt_eq_false_iff]
      cases Date.gt first today with
      | true => exact iff_of_false Bool.false_ne_true fun ⟨h, _⟩ => nomatch h
      | false =>
          cases end_ with
          | none => exact iff_of_true rfl ⟨rfl, fun _ h => nomatch h⟩
          | some last =>
              simp only [Option.some.injEq, forall_eq']
              rw [← Date.lt_eq_false_iff]
              cases Date.lt last today with
              | true => exact iff_of_false Bool.false_ne_true fun ⟨_, h⟩ => nomatch h
              | false => exact iff_of_true rfl ⟨trivial, rfl⟩

theorem checkValidate_iff (cfg : Settings) (today : Date) (ei : EmployeeInfo) :
    (checkValidate cfg today ei).1 = true ↔ MayPass cfg today ei := by
  unfold checkValidate MayPass
  by_cases hstatus : ei.in_out_gb = ascii "0002"
  · rw [if_pos (beq_iff_eq.mpr hstatus)]
    by_cases htype : ei.utype = 67
    · rw [if_pos (beq_iff_eq.mpr htype)]
      exact iff_of_true rfl ⟨hstatus, .inl htype⟩
    · rw [if_neg (by simpa using htype)]
      cases hzone : checkZone cfg ei.zone_code with
      | false =>
          refine iff_of_false Bool.false_ne_true ?_
          intro h
          rcases h with ⟨_, h | ⟨h, _⟩⟩
          · exact htype h
          · cases h
      | true =>
          rw [Bool.not_true, if_neg Bool.false_ne_true, checkDate_iff]
          constructor
          · exact fun h => ⟨hstatus, .inr ⟨rfl, h⟩⟩
          · intro h
            rcases h with ⟨_, h | ⟨_, h⟩⟩
            · exact absurd h htype
            · exact h
  · rw [if_neg (by simpa using hstatus)]
    refine iff_of_false ?_ fun h => hstatus h.1
    split
    · exact Bool.false_ne_true
    · split
      · exact Bool.false_ne_true
      · exact Bool.false_ne_true

/-! ## What the checks depend on -/

section Checks

variable {cfg : Settings} {today : Date} {a b : EmployeeInfo}

/-- The type is looked at only where the employee is at work. -/
theorem checkValidate_congr (hin : a.in_out_gb = b.in_out_gb)
    (htype : a.in_out_gb = ascii "0002" → a.utype = b.utype) (hzone : a.zone_code = b.zone_code)
    (hent : a.ent_co_ymd = b.ent_co_ymd) (hrtr : a.rtr_co_ymd = b.rtr_co_ymd) :
    checkValidate cfg today a = checkValidate cfg today b := by
  unfold checkValidate
  rw [← hin, ← hzone, ← hent, ← hrtr]
  by_cases hstatus : a.in_out_gb = ascii "0002"
  · rw [htype hstatus]
  · have hne : (a.in_out_gb == ascii "0002") = false := by simpa using hstatus
    rw [hne]
    rfl

theorem checkDate_message (start end_ : Option Date) : (checkDate today start end_).2 ≠ [] := by
  have hword (w : String) (hw : ascii w ≠ []) (rest : Bytes) : ascii w ++ rest ≠ [] :=
    fun h => hw (List.append_eq_nil_iff.mp h).1
  unfold checkDate
  split
  · decide
  · split
    · exact hword _ (by decide) _
    · split
      · decide
      · split
        · exact hword _ (by decide) _
        · exact hword _ (by decide) _

/-- Who is at work and of type C is let in without a message, and nobody else is. -/
theorem checkValidate_silent (hstatus : a.in_out_gb = ascii "0002") :
    checkValidate cfg today a = (true, []) ↔ a.utype = 67 := by
  unfold checkValidate
  rw [if_pos (beq_iff_eq.mpr hstatus)]
  by_cases htype : a.utype = 67
  · simp [htype]
  · rw [if_neg (by simpa using htype)]
    refine iff_of_false ?_ htype
    split
    · simp
    · exact fun h => checkDate_message _ _ (congrArg Prod.snd h)

theorem checkValidate_type_ne (ha : a.in_out_gb = ascii "0002") (hb : b.in_out_gb = ascii "0002")
    (hat : a.utype = 67) (hbt : b.utype ≠ 67) :
    checkValidate cfg today a ≠ checkValidate cfg today b := by
  intro heq
  rw [(checkValidate_silent ha).mpr hat] at heq
  exact hbt ((checkValidate_silent hb).mp heq.symm)

end Checks

end Acu.Delegator
