import Acu.Delegator.Validate

/-!
# The zones a gate is opened for

`AUTH_CD` lists zones with commas between them. What `split` makes of it is compared
with the items of the list: an item is lost only when it is empty and the last one, so
that two commas in a row leave an empty item, which is the zone of an employee who has
none.
-/

namespace Acu.Tools

open Acu.Core

section Split

variable {delim : UInt8}

/-- The loop hands out the items of the list, the last one only when it is not empty. -/
theorem getlines_splitOn {item : Bytes} (h : delim ∉ item) (s : Bytes) :
    ∃ front last, (item ++ s).splitOn delim = front ++ [last] ∧
      getlines delim s item = front ++ if last = [] then [] else [last] := by
  induction s generalizing item with
  | nil =>
      refine ⟨[], item, ?_, ?_⟩
      · rw [List.append_nil]
        exact List.splitOn_eq_singleton h
      · cases item with
        | nil => rfl
        | cons c cs => rfl
  | cons c s ih =>
      by_cases hc : c = delim
      · subst hc
        obtain ⟨front, last, hitems, hlines⟩ := ih List.not_mem_nil
        refine ⟨item :: front, last, ?_, ?_⟩
        · rw [List.splitOn_append_cons_self, List.splitOn_eq_singleton h]
          exact congrArg (item :: ·) hitems
        · rw [getlines, if_pos rfl, hlines, List.cons_append]
      · have hitem : delim ∉ item ++ [c] := by
          rw [List.mem_append, List.mem_singleton, not_or]
          exact ⟨h, Ne.symm hc⟩
        obtain ⟨front, last, hitems, hlines⟩ := ih hitem
        refine ⟨front, last, ?_, ?_⟩
        · rw [← hitems, List.append_assoc, List.singleton_append]
        · rw [getlines, if_neg hc, hlines]

/-- Every item that is not empty is found. -/
theorem mem_split_iff {item : Bytes} (hne : item ≠ []) (s : Bytes) :
    item ∈ split s delim ↔ item ∈ s.splitOn delim := by
  obtain ⟨front, last, hitems, hlines⟩ := @getlines_splitOn delim [] List.not_mem_nil s
  rw [List.nil_append] at hitems
  rw [split, hlines, hitems, List.mem_append, List.mem_append, List.mem_singleton]
  by_cases hlast : last = []
  · rw [if_pos hlast, hlast]
    simp [hne]
  · rw [if_neg hlast, List.mem_singleton]

/-- An empty item is found in front of a separator, at the start or behind another one. -/
theorem nil_mem_getlines_iff (s item : Bytes) :
    [] ∈ getlines delim s item ↔ (item = [] ∧ [delim] <+: s) ∨ [delim, delim] <:+: s := by
  induction s generalizing item with
  | nil =>
      cases item with
      | nil => simp [getlines]
      | cons b item => simp [getlines]
  | cons c s ih =>
      rw [getlines, List.infix_cons_iff, List.cons_prefix_cons, List.cons_prefix_cons]
      by_cases hc : c = delim
      · rw [if_pos hc, List.mem_cons, ih]
        simp [hc, eq_comm]
      · have hitem : item ++ [c] ≠ [] := by simp
        rw [if_neg hc, ih]
        simp [hitem, Ne.symm hc]

theorem nil_mem_split_iff (s : Bytes) :
    [] ∈ split s delim ↔ [delim] <+: s ∨ [delim, delim] <:+: s := by
  rw [split, nil_mem_getlines_iff]
  simp

end Split

end Acu.Tools

namespace Acu.Delegator

open Acu.Core Tools Employee

/-- The items of `AUTH_CD`. -/
def Settings.authItems (cfg : Settings) : List Bytes := cfg.m_sAuthCd.splitOn 44

/-- An employee without a zone passes at the main gate alone; a list with items that are not empty
opens the gate for those zones and for no other one. -/
structure ZonesKept (cfg : Settings) : Prop where
  unzoned : checkZone cfg [] = true → cfg.m_sDvLoc = ascii "0001"
  listed : (∃ item ∈ cfg.authItems, item ≠ []) → ∀ sAuth, sAuth ≠ [] → sAuth ≠ ascii "0001" →
    (checkZone cfg sAuth = true ↔ sAuth ∈ cfg.authItems)

variable (cfg : Settings)

/-- A zone that no special case is made for is looked up in the list, when there is one. -/
theorem checkZone_listed {sAuth : Bytes} (hlist : split cfg.m_sAuthCd 44 ≠ [])
    (hmain : sAuth ≠ ascii "0001") :
    checkZone cfg sAuth = true ↔
      (sAuth = [] ∧ cfg.m_sDvLoc = ascii "0001") ∨ sAuth ∈ split cfg.m_sAuthCd 44 := by
  have hne : (sAuth == ascii "0001") = false := by simpa using hmain
  have hlength : 0 < (split cfg.m_sAuthCd 44).length := List.length_pos_iff.mpr hlist
  rw [checkZone, hne, Bool.or_false]
  by_cases hspecial : sAuth = [] ∧ cfg.m_sDvLoc = ascii "0001"
  · rw [if_pos (by simp [hspecial])]
    exact iff_of_true rfl (.inl hspecial)
  · rw [if_neg (by simpa using hspecial), if_pos hlength, List.any_eq_true]
    simp [hspecial]

/-- No zone of the table is empty. -/
theorem zoneLocations_ne_nil :
    (zoneLocations.any fun zone =>
      ([] : Bytes) == ascii zone.1 && zone.2.any fun loc => cfg.m_sDvLoc == ascii loc) = false := by
  have hnames : ∀ zone ∈ zoneLocations, (([] : Bytes) == ascii zone.1) = false := by
    decide +kernel
  rw [List.any_eq_false]
  intro zone hzone
  rw [hnames zone hzone]
  exact Bool.false_ne_true

/-- Without a zone the gate opens at the main gate, and where the list has an empty item. -/
theorem checkZone_unzoned :
    checkZone cfg [] = true ↔ cfg.m_sDvLoc = ascii "0001" ∨ [] ∈ split cfg.m_sAuthCd 44 := by
  by_cases hlist : split cfg.m_sAuthCd 44 = []
  · have hmain : (([] : Bytes) == ascii "0001") = false := by decide
    rw [checkZone, hmain, Bool.or_false, hlist]
    by_cases hloc : cfg.m_sDvLoc = ascii "0001"
    · rw [if_pos (by simp [hloc])]
      exact iff_of_true rfl (.inl hloc)
    · rw [if_neg (by simpa using hloc)]
      dsimp only
      rw [List.length_nil, if_neg (Nat.lt_irrefl 0), zoneLocations_ne_nil]
      simp [hloc]
  · rw [checkZone_listed cfg hlist (by decide)]
    simp

/-- Other zones are looked up as they should be. -/
theorem checkZone_items (hitem : ∃ item ∈ cfg.authItems, item ≠ []) {sAuth : Bytes}
    (hne : sAuth ≠ []) (hmain : sAuth ≠ ascii "0001") :
    checkZone cfg sAuth = true ↔ sAuth ∈ cfg.authItems := by
  rcases hitem with ⟨item, hitem, hitemne⟩
  have hlist : split cfg.m_sAuthCd 44 ≠ [] :=
    List.ne_nil_of_mem ((mem_split_iff hitemne cfg.m_sAuthCd).mpr hitem)
  rw [checkZone_listed cfg hlist hmain, mem_split_iff hne, Settings.authItems]
  simp [hne]

/-- The zones are kept precisely at the main gate, and with a list that neither begins with a
comma nor has two of them in a row. -/
theorem zones_kept_iff :
    ZonesKept cfg ↔ cfg.m_sDvLoc = ascii "0001" ∨
      ¬ ([44] <+: cfg.m_sAuthCd ∨ [44, 44] <:+: cfg.m_sAuthCd) := by
  rw [← nil_mem_split_iff]
  constructor
  · intro h
    by_cases hnil : [] ∈ split cfg.m_sAuthCd 44
    · exact .inl (h.unzoned ((checkZone_unzoned cfg).mpr (.inr hnil)))
    · exact .inr hnil
  · intro h
    refine ⟨fun hopen => ?_, fun hitem _ hne hmain => checkZone_items cfg hitem hne hmain⟩
    cases (checkZone_unzoned cfg).mp hopen with
    | inl hloc => exact hloc
    | inr hnil => exact h.resolve_right (not_not_intro hnil)

/-- A side gate with two zones, and a comma too many between them. -/
def twoCommas : Settings where
  m_bCapture := false
  m_bSound := false
  m_bSavePictureFile := false
  m_sAuthCd := ascii "0002,,0003"
  m_sDvLoc := ascii "0005"
  employee := { m_bUseLocalDB := true, m_sMemcoCd := ascii "MC00000003",
                m_sSiteCd := ascii "ST00000005", m_bDisplayPhoto := false,
                m_serverIP := ascii "10.9.0.2" }

/-- It opens for an employee without a zone. -/
theorem twoCommas_opens_unzoned : ¬ ZonesKept twoCommas := by
  intro h
  have hloc : twoCommas.m_sDvLoc = ascii "0001" := h.unzoned (by decide)
  exact absurd hloc (by decide)

end Acu.Delegator
