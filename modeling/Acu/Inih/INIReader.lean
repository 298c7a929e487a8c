import Acu.Core.Strtol
import Acu.Inih.Document
import Acu.Tools.Itoa
import Mathlib.Logic.Function.Basic

/-!
# Values of a configuration file

`INIReader` keeps the pairs of a file under section and name, without regard to case.
Values of one key are joined by line feeds.
-/

namespace Acu.Inih

open Acu.Core Acu.Core.CMemory

def tolower (c : UInt8) : UInt8 := if 65 ≤ c ∧ c ≤ 90 then c + 32 else c

def MakeKey (section_ name : Bytes) : Bytes := (section_ ++ 46 :: name).map tolower

structure INIReader where
  _error : Int
  _values : Bytes → Option Bytes

namespace INIReader

def ValueHandler : Handler (Bytes → Option Bytes) := fun values section_ name value =>
  let key := MakeKey section_ name
  let old := (values key).getD []
  let begun := if 0 < old.length then old ++ [10] else old
  (Function.update values key (some (begun ++ value)), 1)

/-- A file that cannot be opened is `none`. -/
def new (filename : Option Bytes) : INIReader :=
  let (values, error) := ini_parse ValueHandler filename fun _ => none
  ⟨error, values⟩

variable (r : INIReader)

def Get (section_ name default_value : Bytes) : Bytes :=
  (r._values (MakeKey section_ name)).getD default_value

/-- `long` is the number of bits of a `long`. -/
def GetInteger (long : Nat) (section_ name : Bytes) (default_value : Int) : Int :=
  (strtol long (r.Get section_ name [])).getD default_value

def GetBoolean (section_ name : Bytes) (default_value : Bool) : Bool :=
  let valstr := (r.Get section_ name []).map tolower
  if valstr = ascii "true" ∨ valstr = ascii "yes" ∨ valstr = ascii "on" ∨ valstr = ascii "1" then
    true
  else if valstr = ascii "false" ∨ valstr = ascii "no" ∨ valstr = ascii "off" ∨
      valstr = ascii "0" then false
  else default_value

end INIReader

/-! ## What is kept of the calls -/

/-- The pairs of a file. -/
def Event.call? : Event → Option Call
  | .called c => some c
  | _ => none

def callsIn (file : Bytes) : List Call := (fileEvents file).filterMap Event.call?

/-- The values under a key, in the order of the file. -/
def valuesOf (key : Bytes) (cs : List Call) : List Bytes :=
  (cs.filter fun c => MakeKey c.section c.name = key).map Call.value

/-- Nothing is put behind values that are empty so far. -/
def joined (vs : List Bytes) : Bytes := List.intercalate [10] (vs.dropWhile fun v => v = [])

section Joining

theorem joined_eq_nil {vs : List Bytes} (h : joined vs = []) : ∀ v ∈ vs, v = [] := by
  intro v hv
  by_contra hne
  cases hrest : vs.dropWhile fun v => v = [] with
  | nil =>
      have hall := List.dropWhile_eq_nil_iff.mp hrest v hv
      exact hne (of_decide_eq_true hall)
  | cons a as =>
      have ha : a ≠ [] := by
        have hfirst := List.head_dropWhile_not (fun v : Bytes => decide (v = [])) (l := vs)
          (by rw [hrest]; exact List.cons_ne_nil a as)
        simpa [hrest] using hfirst
      rw [joined, hrest] at h
      cases as with
      | nil =>
          rw [List.intercalate_singleton] at h
          exact ha h
      | cons b bs =>
          rw [List.intercalate_cons_cons, List.append_assoc] at h
          exact ha (List.append_eq_nil_iff.mp h).1

theorem intercalate_concat (sep : Bytes) {vs : List Bytes} (hvs : vs ≠ []) (v : Bytes) :
    sep.intercalate (vs ++ [v]) = sep.intercalate vs ++ sep ++ v := by
  induction vs with
  | nil => exact absurd rfl hvs
  | cons a vs ih =>
      cases vs with
      | nil => simp [List.intercalate_cons_cons]
      | cons b vs =>
          have hrest := ih (List.cons_ne_nil b vs)
          rw [List.cons_append] at hrest
          rw [List.cons_append, List.cons_append, List.intercalate_cons_cons, hrest,
            List.intercalate_cons_cons]
          simp only [List.append_assoc]

theorem joined_singleton (v : Bytes) : joined [v] = v := by
  by_cases hv : v = []
  · subst hv
    rfl
  · rw [joined, List.dropWhile_cons_of_neg (by simpa using hv), List.intercalate_singleton]

/-- One value more, as the handler puts it behind the others. -/
theorem joined_concat (vs : List Bytes) (v : Bytes) :
    joined (vs ++ [v]) =
      (if 0 < (joined vs).length then joined vs ++ [10] else joined vs) ++ v := by
  by_cases hvs : ∀ u ∈ vs, u = []
  · have hskip : (vs ++ [v]).dropWhile (fun u => decide (u = [])) =
        [v].dropWhile fun u => decide (u = []) :=
      List.dropWhile_append_of_pos (by simpa using hvs)
    have hnone : joined vs = [] := by
      rw [joined, List.dropWhile_eq_nil_iff.mpr (by simpa using hvs)]
      rfl
    rw [hnone, joined, hskip]
    by_cases hv : v = []
    · subst hv
      rfl
    · rw [List.dropWhile_cons_of_neg (by simpa using hv)]
      exact List.intercalate_singleton
  · have hsome : joined vs ≠ [] := fun h => hvs (joined_eq_nil h)
    have hrest : vs.dropWhile (fun u => decide (u = [])) ≠ [] := by
      rw [ne_eq, List.dropWhile_eq_nil_iff]
      simpa using hvs
    have hskip : (vs ++ [v]).dropWhile (fun u => decide (u = [])) =
        vs.dropWhile (fun u => decide (u = [])) ++ [v] := by
      rw [List.dropWhile_append, if_neg (by simpa [List.isEmpty_iff] using hrest)]
    rw [if_pos (List.length_pos_iff.mpr hsome), joined, joined, hskip,
      intercalate_concat [10] hrest]

end Joining

namespace INIReader

theorem ValueHandler_self (values : Bytes → Option Bytes) {section_ name key : Bytes}
    (hkey : MakeKey section_ name = key) (value : Bytes) :
    (ValueHandler values section_ name value).1 key =
      some ((if 0 < ((values key).getD []).length then (values key).getD [] ++ [10]
        else (values key).getD []) ++ value) := by
  subst hkey
  exact Function.update_self _ _ _

/-- The calls of the handler leave the values of each key joined. -/
theorem foldl_ValueHandler (cs : List Call) (key : Bytes) :
    cs.foldl (fun u c => (ValueHandler u c.section c.name c.value).1) (fun _ => none) key =
      if valuesOf key cs = [] then none else some (joined (valuesOf key cs)) := by
  induction cs using List.reverseRecOn with
  | nil => rfl
  | append_singleton cs c ih =>
      rw [List.foldl_append, List.foldl_cons, List.foldl_nil]
      by_cases hkey : MakeKey c.section c.name = key
      · have hvalues : valuesOf key (cs ++ [c]) = valuesOf key cs ++ [c.value] := by
          simp [valuesOf, List.filter_append, hkey]
        have hold : (cs.foldl (fun u c => (ValueHandler u c.section c.name c.value).1)
            (fun _ => none) key).getD [] = joined (valuesOf key cs) := by
          rw [ih]
          split
          next hnone => rw [hnone]; rfl
          next => rfl
        rw [hvalues, if_neg (by simp), joined_concat, ValueHandler_self _ hkey, hold]
      · have hvalues : valuesOf key (cs ++ [c]) = valuesOf key cs := by
          simp [valuesOf, List.filter_append, hkey]
        rw [hvalues, ← ih]
        exact Function.update_of_ne (Ne.symm hkey) _ _

theorem feedAll_ValueHandler (es : List Event) (values : Bytes → Option Bytes) :
    feedAll ValueHandler values es =
      (es.filterMap Event.call?).foldl
        (fun u c => (ValueHandler u c.section c.name c.value).1) values := by
  induction es generalizing values with
  | nil => rfl
  | cons e es ih =>
      cases e with
      | quiet => exact ih values
      | called c => exact ih _
      | wrong => exact ih values

/-- What a file leaves under a key. -/
theorem values_new (file key : Bytes) : (new (some file))._values key =
    if valuesOf key (callsIn file) = [] then none
    else some (joined (valuesOf key (callsIn file))) := by
  have hvalues : (new (some file))._values =
      (callsIn file).foldl (fun u c => (ValueHandler u c.section c.name c.value).1)
        (fun _ => none) :=
    (ini_parse_file_data ValueHandler file fun _ => none).trans (feedAll_ValueHandler _ _)
  rw [hvalues, foldl_ValueHandler]

/-- Whatever the file holds: a key has the values of its pairs, joined, or the default. -/
theorem get_file (file section_ name default_value : Bytes) :
    (new (some file)).Get section_ name default_value =
      if valuesOf (MakeKey section_ name) (callsIn file) = [] then default_value
      else joined (valuesOf (MakeKey section_ name) (callsIn file)) := by
  rw [Get, values_new]
  split <;> rfl

theorem callsIn_written {items : List Item} {bom : Bool} (h : Placed [] items)
    (hbom : Marked items bom) : callsIn (written items bom) = callsOf [] [] items := by
  have hcalls (section_ name : Bytes) :
      (documentEvents section_ name items).filterMap Event.call? = callsOf section_ name items := by
    clear h hbom
    induction items generalizing section_ name with
    | nil => rfl
    | cons i items ih =>
        cases i with
        | filler l => exact ih section_ name
        | header d => exact ih d.name []
        | entry e => exact congrArg _ (ih section_ e.name)
        | more m => exact congrArg _ (ih section_ name)
  rw [callsIn]
  rcases fileEvents_written h hbom with hevents | ⟨rfl, hevents⟩
  · rw [hevents, hcalls]
  · rw [hevents]
    rfl

def gateOnce : List Item := [.header gateSection, .filler gateRemark, .entry gateLocation]

end INIReader

end Acu.Inih
