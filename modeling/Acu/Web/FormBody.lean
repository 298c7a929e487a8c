import Acu.Core.Form
import Acu.Web.PostCommand

/-!
# The body of a time sheet as a form

The values of a time sheet are printed into the body as they are. The server splits
the body and decodes every piece.
-/

namespace Acu.Web

open Acu.Core Acu.Core.CMemory Tools

namespace SheetArgs

variable (a : SheetArgs)

/-- What the server is to find, in the order of the body. -/
def fields : List (Bytes × Bytes) :=
  [(ascii "sMemcoCd", a.sMemcoCd.val), (ascii "sSiteCd", a.sSiteCd.val),
    (ascii "sLabNo", a.sLabNo.val), (ascii "sInOut", [a.cInOut]),
    (ascii "sGateNo", a.sGateNo.val), (ascii "sGateLoc", a.sGateLoc.val),
    (ascii "sUtype", [a.cUtype]), (ascii "sAttendGb", []), (ascii "sEventfunctionkey", []),
    (ascii "sInTime", a.sInTime.val), (ascii "sPhotoImage", a.photo)]

/-- The values that a caller gives. -/
def values : List Bytes :=
  [a.sMemcoCd.val, a.sSiteCd.val, a.sLabNo.val, [a.cInOut], a.sGateNo.val, a.sGateLoc.val,
    [a.cUtype], a.sInTime.val]

/-- The two letters are printed, no value holds a separator or an escape, and the body fits. -/
structure Readable : Prop where
  inOut : a.cInOut ≠ 0
  utype : a.cUtype ≠ 0
  clean : ∀ v ∈ a.values, Form.Clean v
  fits : a.Fits

end SheetArgs

/-- The body that a command passes on is decoded to the fields. -/
def DecodesTo (cmd : Option (Bytes × Int)) (fs : List (Bytes × Bytes)) : Prop :=
  ∃ m cmd_offset body, cmd = some (m, cmd_offset) ∧ stringAt m 200 = some body ∧
    Form.decode body = fs

namespace SheetArgs

variable (a : SheetArgs)

theorem fields_ne_nil : a.fields ≠ [] := List.cons_ne_nil _ _

theorem fields_names : ∀ f ∈ a.fields, Form.Name f.1 := by
  have hnames : ∀ n ∈ a.fields.map Prod.fst, Form.Name n := by
    change ∀ n ∈ [ascii "sMemcoCd", ascii "sSiteCd", ascii "sLabNo", ascii "sInOut",
      ascii "sGateNo", ascii "sGateLoc", ascii "sUtype", ascii "sAttendGb",
      ascii "sEventfunctionkey", ascii "sInTime", ascii "sPhotoImage"], Form.Name n
    decide
  exact fun f hf => hnames f.1 (List.mem_map_of_mem hf)

/-- The body is printed with the names and values joined as they are. -/
theorem format_append_photo : a.format ++ a.photo = Form.joined a.fields := by
  have hascii : ascii "sMemcoCd=" = ascii "sMemcoCd" ++ [61] ∧
      ascii "&sSiteCd=" = 38 :: ascii "sSiteCd" ++ [61] ∧
      ascii "&sLabNo=" = 38 :: ascii "sLabNo" ++ [61] ∧
      ascii "&sInOut=" = 38 :: ascii "sInOut" ++ [61] ∧
      ascii "&sGateNo=" = 38 :: ascii "sGateNo" ++ [61] ∧
      ascii "&sGateLoc=" = 38 :: ascii "sGateLoc" ++ [61] ∧
      ascii "&sUtype=" = 38 :: ascii "sUtype" ++ [61] ∧
      ascii "&sAttendGb=&sEventfunctionkey=&sInTime=" = 38 :: ascii "sAttendGb" ++
        61 :: 38 :: ascii "sEventfunctionkey" ++ 61 :: 38 :: ascii "sInTime" ++ [61] ∧
      ascii "&sPhotoImage=" = 38 :: ascii "sPhotoImage" ++ [61] := by
    decide
  rcases hascii with ⟨h₁, h₂, h₃, h₄, h₅, h₆, h₇, h₈, h₉⟩
  rw [format, h₁, h₂, h₃, h₄, h₅, h₆, h₇, h₈, h₉]
  simp [Form.joined, Form.piece, fields, List.intercalate]

/-- The photograph is always clean. -/
theorem photo_clean : Form.Clean a.photo := by
  have hplain : 43 ∉ a.photo ∧ 38 ∉ a.photo ∧ 37 ∉ a.photo := by
    unfold photo
    split
    next img _ => exact Base64.base64e2_http_plain img.val
    · simp
  refine ⟨hplain.2.1, hplain.1, fun u w hw => ?_⟩
  exact absurd (by rw [hw]; simp) hplain.2.2

theorem fields_clean_iff : (∀ f ∈ a.fields, Form.Clean f.2) ↔ ∀ v ∈ a.values, Form.Clean v := by
  have hnil : Form.Clean [] := by simp [Form.Clean, Form.Literal]
  have hphoto := a.photo_clean
  simp only [fields, values, List.forall_mem_cons, hnil, hphoto, true_and]
  simp

/-- A letter that is a NUL cuts off everything behind it. -/
theorem body_length_of_nul (h : a.cInOut = 0 ∨ a.cUtype = 0) :
    a.body.length + 53 ≤ (Form.joined a.fields).length := by
  have hcut (u w : Bytes) (hw : 52 ≤ w.length) (hformat : a.format = u ++ 0 :: w) :
      a.prefixText.length + 53 ≤ a.format.length := by
    have hprefix : a.prefixText.length ≤ u.length := by
      rw [prefixText, hformat, List.takeWhile_append]
      split
      · simp
      · exact (List.takeWhile_sublist _).length_le
    rw [hformat, List.length_append, List.length_cons]
    omega
  have htail : (ascii "&sAttendGb=&sEventfunctionkey=&sInTime=").length = 39 ∧
      (ascii "&sPhotoImage=").length = 13 := by decide
  have hprefix : a.prefixText.length + 53 ≤ a.format.length := by
    cases h with
    | inl h0 =>
        refine hcut (ascii "sMemcoCd=" ++ a.sMemcoCd.val ++ ascii "&sSiteCd=" ++ a.sSiteCd.val ++
          ascii "&sLabNo=" ++ a.sLabNo.val ++ ascii "&sInOut=") (ascii "&sGateNo=" ++
          a.sGateNo.val ++ ascii "&sGateLoc=" ++ a.sGateLoc.val ++ ascii "&sUtype=" ++
          [a.cUtype] ++ ascii "&sAttendGb=&sEventfunctionkey=&sInTime=" ++ a.sInTime.val ++
          ascii "&sPhotoImage=") ?_ ?_
        · simp only [List.length_append, htail]
          omega
        · simp only [format, h0, List.append_assoc, List.cons_append, List.nil_append]
    | inr h0 =>
        refine hcut (ascii "sMemcoCd=" ++ a.sMemcoCd.val ++ ascii "&sSiteCd=" ++ a.sSiteCd.val ++
          ascii "&sLabNo=" ++ a.sLabNo.val ++ ascii "&sInOut=" ++ [a.cInOut] ++
          ascii "&sGateNo=" ++ a.sGateNo.val ++ ascii "&sGateLoc=" ++ a.sGateLoc.val ++
          ascii "&sUtype=") (ascii "&sAttendGb=&sEventfunctionkey=&sInTime=" ++ a.sInTime.val ++
          ascii "&sPhotoImage=") ?_ ?_
        · simp only [List.length_append, htail]
          omega
        · simp only [format, h0, List.append_assoc, List.cons_append, List.nil_append]
  rw [← format_append_photo, List.length_append, body, List.length_append]
  omega

/-- The body alone: decoded it gives the fields when both letters are printed and every value is
clean, and only then. -/
theorem decode_body_iff : Form.decode a.body = a.fields ↔
    (a.cInOut ≠ 0 ∧ a.cUtype ≠ 0) ∧ ∀ v ∈ a.values, Form.Clean v := by
  by_cases h0 : a.cInOut ≠ 0 ∧ a.cUtype ≠ 0
  · have hformat : 0 ∉ a.format := by
      have hascii : 0 ∉ ascii "sMemcoCd=" ∧ 0 ∉ ascii "&sSiteCd=" ∧ 0 ∉ ascii "&sLabNo=" ∧
          0 ∉ ascii "&sInOut=" ∧ 0 ∉ ascii "&sGateNo=" ∧ 0 ∉ ascii "&sGateLoc=" ∧
          0 ∉ ascii "&sUtype=" ∧ 0 ∉ ascii "&sAttendGb=&sEventfunctionkey=&sInTime=" ∧
          0 ∉ ascii "&sPhotoImage=" := by
        decide
      simp only [format, List.mem_append, List.mem_singleton, hascii, a.sMemcoCd.property,
        a.sSiteCd.property, a.sLabNo.property, a.sGateNo.property, a.sGateLoc.property,
        a.sInTime.property, h0.1.symm, h0.2.symm, or_self, not_false_eq_true]
    have hbody : a.body = Form.joined a.fields := by
      rw [body, prefixText, takeWhile_of_nul_not_mem hformat, format_append_photo]
    have hiff := Form.decode_joined_iff a.fields_ne_nil a.fields_names
    rw [hbody, hiff, fields_clean_iff]
    simp [h0]
  · constructor
    · intro h
      have hbound := Form.decode_size a.body
      have hjoined := Form.joined_length a.fields_ne_nil
      have hnul : a.cInOut = 0 ∨ a.cUtype = 0 := by
        by_contra hno
        exact h0 ⟨fun h => hno (.inl h), fun h => hno (.inr h)⟩
      have hcut := body_length_of_nul a hnul
      have hcount : a.fields.length = 11 := rfl
      rw [h] at hbound
      omega
    · intro h
      exact absurd h.1 h0

end SheetArgs

/-- A command whose body fits is decoded as the body is. -/
theorem decodesTo_iff_body (memory : Nat → UInt8) (itoaBuf : CharArray 32) (m_serverIP : ServerIP)
    {a : SheetArgs} (hfits : a.Fits) (fs : List (Bytes × Bytes)) :
    DecodesTo (WebService.timeSheetCmd memory itoaBuf m_serverIP a) fs ↔
      Form.decode a.body = fs := by
  obtain ⟨pre, post, hpre, hcmd⟩ := WebService.timeSheetCmd_eq memory itoaBuf m_serverIP a hfits
  have hstring : stringAt (pre ++ (SheetArgs.header m_serverIP.val a.body.length ++
      (a.body ++ 0 :: post))) 200 = some a.body := by
    rw [← List.append_assoc, ← hpre, ← List.length_append]
    exact stringAt_append _ (WebService.body_nul a) post
  constructor
  · intro h
    rcases h with ⟨m, cmd_offset, body, hm, hs, hd⟩
    rw [hcmd] at hm
    have hmem := (Prod.mk.inj (Option.some.inj hm)).1
    rw [← hmem, hstring] at hs
    rw [Option.some.inj hs]
    exact hd
  · intro hd
    exact ⟨_, _, _, hcmd, hstring, hd⟩

/-- The values come back from the body that is passed on precisely when it is readable. -/
theorem timeSheet_decodes_iff (memory : Nat → UInt8) (itoaBuf : CharArray 32)
    (m_serverIP : ServerIP) (a : SheetArgs) :
    DecodesTo (WebService.timeSheetCmd memory itoaBuf m_serverIP a) a.fields ↔ a.Readable := by
  by_cases hfits : a.Fits
  · rw [decodesTo_iff_body memory itoaBuf m_serverIP hfits, SheetArgs.decode_body_iff]
    exact ⟨fun h => ⟨h.1.1, h.1.2, h.2, hfits⟩, fun h => ⟨⟨h.inOut, h.utype⟩, h.clean⟩⟩
  · have hcmd := WebService.timeSheetCmd_overflows memory itoaBuf m_serverIP a hfits
    constructor
    · intro h
      rcases h with ⟨m, cmd_offset, body, hm, -⟩
      rw [hcmd] at hm
      cases hm
    · intro h
      exact absurd h.fits hfits

/-- The entry of a worker whose number holds a plus sign. -/
def plusArgs : SheetArgs :=
  { WebService.entryArgs with sLabNo := ⟨ascii "LAB+01", by decide⟩, imageBuf := none }

/-- The plus sign arrives as a blank. -/
theorem timeSheet_plus_lost : ¬ DecodesTo (WebService.timeSheetCmd (fun _ => 0)
    ⟨List.replicate 32 0, List.length_replicate⟩ WebService.gateIP plusArgs) plusArgs.fields := by
  have hfits : plusArgs.Fits := WebService.fits_of_format plusArgs (by decide +kernel)
  have hlost : Form.decode plusArgs.body ≠ plusArgs.fields := by decide +kernel
  exact fun h => hlost ((decodesTo_iff_body _ _ _ hfits _).mp h)

end Acu.Web
