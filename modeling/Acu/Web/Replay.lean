import Acu.Core.Search
import Acu.Web.SendLoop

/-!
# A failed time sheet, sent again

A time sheet that could not be sent is saved as the string of its command.
`request_SendFile` reads the file into a block of its size, and sends the string that
starts there.
-/

namespace Acu.Web

open Acu.Core Acu.Core.CMemory Attendance

namespace Wa

variable (w : Wa) (sys : SysCalls) (d : Disk String)

/-- The call came back with a status other than the one of success. -/
def Fails : Prop := ∃ st, w.status sys d = some st ∧ st ≠ .RET_SUCCESS

end Wa

namespace WebService

/-- The file that a time sheet is saved in. -/
def savedFile (outDirectory : String) (ts : TimeSheet) : String :=
  outDirectory ++ "/" ++ String.ofList (ts.m_time.map fun c => Char.ofNat c.toNat)

section Replay

variable (cfg : Config) (ts : TimeSheet) (outDirectory : String) (env again : CallEnv)
  (d later : Disk String)

/-- The disk behind the request. -/
def disk : Disk String :=
  FileEvent.replay d (request_TimeSheetInsertString cfg ts outDirectory env d).events

/-- The string that `request_SendFile` sends. -/
def replayed (filename : String) : Option Bytes := (sendFileWa filename again later).bind Wa.text

/-- What the socket takes of it. -/
def replayTaken (filename : String) : Option Bytes :=
  (sendFileWa filename again later).bind fun w => w.taken again.sys

variable {cfg ts outDirectory env again d later}

/-- The object of a time sheet holds a string, and saves it when the call fails. -/
theorem timeSheetInsertStringWa_cases {w : Wa}
    (h : timeSheetInsertStringWa cfg ts outDirectory env = some w) :
    ∃ text, w.text = some text ∧
      w.parsing = .ofOption ((WebApi.parsing env.stack env.sys.recvs).map Option.isSome) ∧
      w.onFailure = [.create (savedFile outDirectory ts),
        .append (savedFile outDirectory ts) text] := by
  simp only [timeSheetInsertStringWa, Option.bind_eq_bind, Option.bind_eq_some_iff,
    Option.some.injEq] at h
  rcases h with ⟨⟨cmd, cmd_offset⟩, -, text, htext, rfl⟩
  exact ⟨text, htext, rfl, rfl⟩

/-- A request that fails leaves the string of its command in its file. -/
theorem disk_savedFile {w : Wa} (hw : timeSheetInsertStringWa cfg ts outDirectory env = some w)
    (hfails : w.Fails env.sys d) :
    ∃ text, w.text = some text ∧
      disk cfg ts outDirectory env d (savedFile outDirectory ts) = some text := by
  obtain ⟨text, htext, hparsing, hfailure⟩ := timeSheetInsertStringWa_cases hw
  rcases hfails with ⟨st, hst, hne⟩
  have hsilent : (WebApi.run w.m_cmd w.m_cmd_offset env.sys w.parsing d).events = [] := by
    have hnone : FileProg.Emits (fun _ => False) w.parsing := by
      rw [hparsing]
      exact FileProg.Emits.ofOption _
    have hemits := WebApi.run_emits w.m_cmd w.m_cmd_offset env.sys hnone
    exact List.eq_nil_iff_forall_not_mem.mpr fun e he => hemits d e he
  have hevents : (request_TimeSheetInsertString cfg ts outDirectory env d).events =
      w.onFailure := by
    have hrequest : request_TimeSheetInsertString cfg ts outDirectory env =
        (WebApi.run w.m_cmd w.m_cmd_offset env.sys w.parsing >>= w.finish) := by
      rw [request_TimeSheetInsertString, hw]
      rfl
    rw [hrequest, FileProg.bind_of_some _ hst, hsilent, List.nil_append]
    exact if_pos hne
  refine ⟨text, htext, ?_⟩
  rw [disk, hevents, hfailure]
  simp [FileEvent.apply]

theorem sendFileWa_eq {filename : String} {text : Bytes} (h : later filename = some text) :
    sendFileWa filename again later = some (.ofBool (text ++ again.behind) 0 again) := by
  rw [sendFileWa, h]
  rfl

section Later

variable {text : Bytes} (hfile : later (savedFile outDirectory ts) = some text)

include hfile

theorem replayed_eq :
    replayed again later (savedFile outDirectory ts) = cstring (text ++ again.behind) := by
  rw [replayed, sendFileWa_eq hfile]
  rfl

theorem replayTaken_eq : replayTaken again later (savedFile outDirectory ts) =
    (Wa.ofBool (text ++ again.behind) 0 again).taken again.sys := by
  rw [replayTaken, sendFileWa_eq hfile, Option.bind_some]

/-- The replay sends the saved text itself when a NUL follows the block. -/
theorem replayed_of_nul (h0 : 0 ∉ text) (hnul : again.behind.head? = some 0) :
    replayed again later (savedFile outDirectory ts) = some text := by
  obtain ⟨more, hmore⟩ := List.head?_eq_some_iff.mp hnul
  rw [replayed_eq hfile, hmore]
  exact cstring_append_nul text more h0

/-- Without a NUL behind the block more is sent than was saved, or memory is read that is not
there. -/
theorem replayTaken_ne (h0 : 0 ∉ text) (hnul : again.behind.head? ≠ some 0)
    (hsends : ∀ t, replayed again later (savedFile outDirectory ts) = some t →
      ∃ s : Split t.length, s.results <+: again.sys.sends) :
    replayTaken again later (savedFile outDirectory ts) ≠ some text := by
  rw [replayTaken_eq hfile]
  intro htaken
  have hreplayed : replayed again later (savedFile outDirectory ts) =
      cstring (text ++ again.behind) := replayed_eq hfile
  rw [cstring_append h0] at hreplayed
  cases hbehind : cstring again.behind with
  | none =>
      have htext : (Wa.ofBool (text ++ again.behind) 0 again).text = none := by
        change cstring (text ++ again.behind) = none
        rw [cstring_append h0, hbehind, Option.map_none]
      have hstrlen : strlen (text ++ again.behind) 0 = none :=
        congrArg (Option.map List.length) htext
      simp only [Wa.taken, Wa.ofBool, hstrlen] at htaken
      cases htaken
  | some t =>
      rw [hbehind, Option.map_some] at hreplayed
      obtain ⟨s, more, hmore⟩ := hsends _ hreplayed
      have htext : (Wa.ofBool (text ++ again.behind) 0 again).text = some (text ++ t) := by
        change cstring (text ++ again.behind) = some (text ++ t)
        rw [cstring_append h0, hbehind, Option.map_some]
      obtain ⟨out, hout, hlen, -⟩ := Wa.taken_split htext s hmore.symm
      rw [hout, Option.some.injEq] at htaken
      have hne : t ≠ [] := by
        intro ht
        obtain ⟨-, rest, hrest⟩ := cstring_eq_some hbehind
        rw [ht, List.nil_append] at hrest
        exact hnul (by rw [hrest, List.head?_cons])
      have hpos := List.length_pos_iff.mpr hne
      rw [htaken, List.length_append] at hlen
      omega

end Later

end Replay

/-! A time sheet whose socket cannot be created, and its replay in one piece. -/

def noSocket : SysCalls := ⟨-1, 0, true, 1, 0, [], 1, []⟩

def entrySheet : TimeSheet := .new ⟨114, 9, 18, 9, 0, 0⟩ (ascii "LM00000811") 76 []

/-- The replay, with the memory behind its block. -/
def replayEnv (behind : Bytes) : CallEnv :=
  { netEnv { netThere with sends := [324 + (behind.length - 1 : Nat)] } with behind }

def entryDisk : Disk String :=
  disk gateConfig entrySheet "out" (netEnv noSocket) fun _ => none

theorem entrySheet_saved : ∃ w text,
    timeSheetInsertStringWa gateConfig entrySheet "out" (netEnv noSocket) = some w ∧
      w.Fails noSocket (fun _ => none) ∧ w.text = some text ∧ text.length = 324 ∧
      entryDisk (savedFile "out" entrySheet) = some text := by
  have hlength : ((timeSheetInsertStringWa gateConfig entrySheet "out" (netEnv noSocket)).bind
      Wa.text).map List.length = some 324 := by decide +kernel
  obtain ⟨text, h, hlen⟩ := Option.map_eq_some_iff.mp hlength
  obtain ⟨w, hw, htext⟩ := Option.bind_eq_some_iff.mp h
  have hsocket : noSocket.socket < 0 := by decide
  have hfails : w.Fails noSocket fun _ => none :=
    ⟨_, (Wa.StopsEarly.socket hsocket).status, by decide⟩
  obtain ⟨text', htext', hdisk⟩ := disk_savedFile (d := fun _ => none) hw hfails
  obtain rfl : text = text' := Option.some.inj (htext.symm.trans htext')
  exact ⟨w, text, hw, hfails, htext, hlen, hdisk⟩

end WebService

end Acu.Web
