import Acu.Core.Decimal
import Acu.Web.HeaderScan

/-!
# The header of a well-formed reply

A reply of HTTP/1.1 with the status 200 has any fields, one of them its length. The
scan takes the first line with the name of the length spelled one way, skips one letter
of its value, and takes the line for the last one.
-/

namespace Acu.Web

open Acu.Core Acu.Core.CMemory

/-! ## The grammar -/

/-- A letter of the name of a field. -/
def isTokenChar (c : UInt8) : Bool :=
  isDigit c || (65 ≤ c && c ≤ 90) || (97 ≤ c && c ≤ 122) ||
    (ascii "!#$%&'*+-.^_`|~").contains c

/-- A letter of the value of a field, or of a reason. -/
def isTextChar (c : UInt8) : Bool := c == 9 || (32 ≤ c && c != 127)

def isBlank (c : UInt8) : Bool := c == 32 || c == 9

def lower (s : Bytes) : Bytes := s.map fun c => if 65 ≤ c && c ≤ 90 then c + 32 else c

/-- A field, the blanks around its value with it. -/
structure Field where
  name : Bytes
  value : Bytes
  name_ne_nil : name ≠ []
  name_token : ∀ c ∈ name, isTokenChar c = true
  value_text : ∀ c ∈ value, isTextChar c = true

def Field.line (f : Field) : Bytes := f.name ++ 58 :: f.value

/-- A field that gives the length; its name may be spelled in letters of either case. -/
structure LengthField extends Field where
  lead : Bytes
  digits : Bytes
  trail : Bytes
  spelled : lower name = ascii "content-length"
  lead_blank : ∀ c ∈ lead, isBlank c = true
  digits_ne_nil : digits ≠ []
  digits_digit : ∀ c ∈ digits, isDigit c = true
  trail_blank : ∀ c ∈ trail, isBlank c = true
  value_eq : value = lead ++ (digits ++ trail)

/-- A reply with the status 200 and one field that gives the length of its body. -/
structure OkReply where
  reason : Bytes
  before : List Field
  length : LengthField
  after : List Field
  body : Bytes
  reason_text : ∀ c ∈ reason, isTextChar c = true
  others : ∀ f ∈ before ++ after, lower f.name ≠ ascii "content-length"
  announced : digitsValue 0 length.digits = body.length

namespace OkReply

variable (r : OkReply)

def fields : List Field := r.before ++ r.length.toField :: r.after

/-- The header up to its blank line. -/
def head : Bytes :=
  ascii "HTTP/1.1 200 " ++ (r.reason ++ ([13, 10] ++
    (r.fields.flatMap (fun f => f.line ++ [13, 10]) ++ [13, 10])))

def text : Bytes := r.head ++ r.body

/-- What the scan relies on. -/
structure Expected : Prop where
  spelled : r.length.name = ascii "Content-Length"
  last : r.after = []
  skips : r.length.lead ≠ [] ∨ r.length.digits.head? = some 48
  fits : r.body.length < 2147483648

end OkReply

/-! ## Letters -/

theorem textChar_ne {c : UInt8} (h : isTextChar c = true) : c ≠ 0 ∧ c ≠ 10 ∧ c ≠ 13 := by
  refine ⟨?_, ?_, ?_⟩ <;> (rintro rfl; exact absurd h (by decide))

theorem tokenChar_ne {c : UInt8} (h : isTokenChar c = true) :
    c ≠ 0 ∧ c ≠ 10 ∧ c ≠ 13 ∧ c ≠ 58 := by
  refine ⟨?_, ?_, ?_, ?_⟩ <;> (rintro rfl; exact absurd h (by decide))

theorem textChar_of_digit {c : UInt8} (h : isDigit c = true) : isTextChar c = true := by
  have hbounds := digit_bounds h
  simp only [isTextChar, Bool.or_eq_true, Bool.and_eq_true, decide_eq_true_eq, bne_iff_ne, ne_eq,
    beq_iff_eq, UInt8.le_iff_toNat_le, ← UInt8.toNat_inj]
  simp only [UInt8.reduceToNat]
  omega

theorem isSpace_of_isBlank {c : UInt8} (h : isBlank c = true) : isSpace c = true := by
  rw [isBlank, Bool.or_eq_true, beq_iff_eq, beq_iff_eq] at h
  cases h with
  | inl h => rw [h]; decide
  | inr h => rw [h]; decide

/-- No line of a field holds the end of a line, or a NUL. -/
theorem Field.line_plain (f : Field) : 0 ∉ f.line ∧ 10 ∉ f.line ∧ 13 ∉ f.line := by
  have hplain (c : UInt8) (hc : c ∈ f.line) : c ≠ 0 ∧ c ≠ 10 ∧ c ≠ 13 := by
    rw [Field.line, List.mem_append, List.mem_cons] at hc
    rcases hc with hname | rfl | hvalue
    · have htoken := tokenChar_ne (f.name_token c hname)
      exact ⟨htoken.1, htoken.2.1, htoken.2.2.1⟩
    · decide
    · exact textChar_ne (f.value_text c hvalue)
  exact ⟨fun h => (hplain 0 h).1 rfl, fun h => (hplain 10 h).2.1 rfl,
    fun h => (hplain 13 h).2.2 rfl⟩

/-! ## Lines that begin with a mark -/

/-- The lines, each with the end of the line before it. -/
def marked (fs : List Field) : Bytes := fs.flatMap fun f => 10 :: (f.line ++ [13])

theorem marked_cons (f : Field) (fs : List Field) :
    marked (f :: fs) = 10 :: (f.line ++ 13 :: marked fs) := by
  simp [marked]

theorem marked_append (fs gs : List Field) : marked (fs ++ gs) = marked fs ++ marked gs :=
  List.flatMap_append

theorem marked_eq_nil {fs : List Field} : marked fs = [] ↔ fs = [] := by
  cases fs with
  | nil => simp [marked]
  | cons f fs => simp [marked_cons]

theorem nul_not_mem_marked (fs : List Field) : 0 ∉ marked fs := by
  induction fs with
  | nil => exact List.not_mem_nil
  | cons f fs ih => simp [marked_cons, f.line_plain.1, ih]

/-- The lines with their own ends, behind the end of a line. -/
theorem lines_eq_marked (fs : List Field) :
    10 :: fs.flatMap (fun f => f.line ++ [13, 10]) = marked fs ++ [10] := by
  induction fs with
  | nil => rfl
  | cons f fs ih =>
      simp only [marked_cons, List.flatMap_cons, List.cons_append, List.append_assoc,
        List.nil_append, ← ih]

theorem OkReply.head_eq (r : OkReply) :
    r.head = ascii "HTTP/1.1" ++ 32 :: (ascii "200" ++ 32 :: (r.reason ++
      13 :: (marked r.fields ++ [10, 13, 10]))) := by
  have hstatus : ascii "HTTP/1.1 200 " = ascii "HTTP/1.1" ++ 32 :: (ascii "200" ++ [32]) := by
    decide
  have hlines : [13, 10] ++ (r.fields.flatMap (fun f => f.line ++ [13, 10]) ++ [13, 10]) =
      13 :: (marked r.fields ++ [10, 13, 10]) := by
    have hmarked := congrArg (· ++ [13, 10]) (lines_eq_marked r.fields)
    simp only [List.cons_append, List.append_assoc, List.nil_append] at hmarked ⊢
    rw [hmarked]
  rw [OkReply.head, hlines, hstatus]
  simp

/-- `"Content-Length:"`. -/
def nameKey : Bytes := ascii "Content-Length:"

theorem lengthKey_eq : lengthKey = 10 :: nameKey := by decide

/-- A line begins with the name of the length only when that is the name of its field. -/
theorem name_of_nameKey {f : Field} (h : nameKey <+: f.line) : f.name = ascii "Content-Length" := by
  rcases h with ⟨t, ht⟩
  have hcolon : 58 ∉ f.name := fun hc => (tokenChar_ne (f.name_token 58 hc)).2.2.2 rfl
  have hkey : nameKey = ascii "Content-Length" ++ [58] := by decide
  have hline : First [58] f.line f.name f.value := first_letter.mpr ⟨rfl, hcolon⟩
  have hfirst : First [58] f.line (ascii "Content-Length") t := by
    refine first_letter.mpr ⟨?_, by decide⟩
    rw [← ht, hkey, List.append_assoc]
    rfl
  exact (hline.unique hfirst).1

/-- Lines of other fields do not hold the mark and the name. -/
theorem not_infix_marked {fs : List Field} (h : ∀ f ∈ fs, f.name ≠ ascii "Content-Length")
    {tail : Bytes} (htail : ¬ lengthKey <:+: tail) : ¬ lengthKey <:+: marked fs ++ tail := by
  induction fs with
  | nil => exact htail
  | cons f fs ih =>
      have hrest := ih fun g hg => h g (List.mem_cons_of_mem f hg)
      have hreturn : (13 : UInt8) ∉ nameKey := by decide
      have hline : (10 : UInt8) ∉ f.line ++ [13] := by
        simp [f.line_plain.2.1]
      rw [marked_cons, lengthKey_eq, List.cons_append, List.append_assoc, List.cons_append]
      intro hinfix
      cases List.infix_cons_iff.mp hinfix with
      | inl hp =>
          have hname := prefix_of_parts (Parts.cons hreturn _) (List.cons_prefix_cons.mp hp).2
          exact h f List.mem_cons_self (name_of_nameKey hname)
      | inr hi =>
          rw [lengthKey_eq] at hrest
          have hskip := not_infix_append hline hrest
          rw [List.append_assoc] at hskip
          exact hskip hi

/-! ## Where the scan comes to -/

namespace OkReply

variable (r : OkReply)

/-- The status line, whatever follows the header. -/
theorem statusLine (more : Bytes) : StatusLine (r.head ++ more) (ascii "HTTP/1.1") (ascii "200")
    (r.reason ++ 13 :: (marked r.fields ++ ([10, 13, 10] ++ more))) where
  eq := by
    rw [head_eq]
    simp
  version := by decide
  code := by decide

theorem reason_plain : 0 ∉ r.reason ∧ 10 ∉ r.reason := by
  refine ⟨fun h => ?_, fun h => ?_⟩
  · exact (textChar_ne (r.reason_text 0 h)).1 rfl
  · exact (textChar_ne (r.reason_text 10 h)).2.1 rfl

/-- Only a name in other letters stands in the way of the name. -/
theorem other_names {f : Field} (h : lower f.name ≠ ascii "content-length") :
    f.name ≠ ascii "Content-Length" := by
  intro hname
  exact h (by rw [hname]; decide)

theorem not_infix_reason {fs : List Field} (h : ∀ f ∈ fs, f.name ≠ ascii "Content-Length")
    {tail : Bytes} (htail : ¬ lengthKey <:+: tail) :
    ¬ lengthKey <:+: r.reason ++ 13 :: (marked fs ++ tail) := by
  have hreason : (10 : UInt8) ∉ r.reason ++ [13] := by
    simp [r.reason_plain.2]
  have hrest := not_infix_marked h htail
  rw [lengthKey_eq] at hrest ⊢
  have hskip := not_infix_append hreason hrest
  rwa [List.append_assoc] at hskip

theorem value_ne_nil : r.length.value ≠ [] := by
  intro h
  rw [r.length.value_eq, List.append_eq_nil_iff, List.append_eq_nil_iff] at h
  exact r.length.digits_ne_nil h.2.1

/-- The line of the length, when its name is spelled as it is searched for. -/
theorem lengthLine (hname : r.length.name = ascii "Content-Length") {skipped : UInt8}
    {value : Bytes} (hvalue : r.length.value = skipped :: value) (more : Bytes) :
    LengthLine (r.reason ++ 13 :: (marked r.fields ++ ([10, 13, 10] ++ more)))
      (r.reason ++ 13 :: marked r.before) skipped value
      (marked r.after ++ ([10, 13, 10] ++ more)) where
  first := by
    have hbefore : ¬ lengthKey <:+: r.reason ++ 13 :: marked r.before := by
      have hnil : ¬ lengthKey <:+: [] := by decide
      have hnames : ∀ f ∈ r.before, f.name ≠ ascii "Content-Length" :=
        fun f hf => other_names (r.others f (List.mem_append_left _ hf))
      have hinfix := r.not_infix_reason hnames hnil
      rwa [List.append_nil] at hinfix
    have hline : r.length.toField.line = nameKey ++ skipped :: value := by
      rw [Field.line, hname, hvalue]
      rfl
    have hmark : (10 : UInt8) ∉ nameKey := by decide
    have hfirst := first_of_mark hmark (lengthKey_eq ▸ hbefore)
      (skipped :: (value ++ 13 :: (marked r.after ++ ([10, 13, 10] ++ more))))
    have htext : r.reason ++ 13 :: (marked r.fields ++ ([10, 13, 10] ++ more)) =
        r.reason ++ 13 :: marked r.before ++ (10 :: nameKey ++
          skipped :: (value ++ 13 :: (marked r.after ++ ([10, 13, 10] ++ more)))) := by
      rw [fields, marked_append, marked_cons, hline]
      simp
    rw [htext, lengthKey_eq]
    exact hfirst
  before := by
    simp [r.reason_plain.1, nul_not_mem_marked]
  value := by
    have hplain (c : UInt8) (hc : c ∈ value) : c ≠ 0 ∧ c ≠ 10 ∧ c ≠ 13 :=
      textChar_ne (r.length.value_text c (hvalue ▸ List.mem_cons_of_mem _ hc))
    exact ⟨fun h => (hplain 13 h).2.2 rfl, fun h => (hplain 0 h).1 rfl⟩

end OkReply

/-- The value without its first letter is the length when that letter is a blank or a zero, up to
the largest number of an `int`. -/
theorem LengthField.atoi_iff (f : LengthField) {skipped : UInt8} {value : Bytes}
    (hvalue : f.value = skipped :: value) :
    atoi value = (digitsValue 0 f.digits : Int) ↔
      (f.lead ≠ [] ∨ f.digits.head? = some 48) ∧ digitsValue 0 f.digits < 2147483648 := by
  have hblank (s : Bytes) (hs : ∀ c ∈ s, isBlank c = true) : ∀ c ∈ s, isSpace c = true :=
    fun c hc => isSpace_of_isBlank (hs c hc)
  have htrail := hblank f.trail f.trail_blank
  have heq := f.value_eq.symm.trans hvalue
  cases hlead : f.lead with
  | cons c lead =>
      rw [hlead, List.cons_append] at heq
      obtain ⟨-, rfl⟩ := List.cons.inj heq
      have hspaces : ∀ c ∈ lead, isSpace c = true := fun d hd =>
        hblank f.lead f.lead_blank d (by rw [hlead]; exact List.mem_cons_of_mem c hd)
      rw [atoi_number hspaces f.digits_digit htrail]
      simp only [ne_eq, reduceCtorEq, not_false_eq_true, true_or, true_and]
      omega
  | nil =>
      obtain ⟨c, ds, hds⟩ := List.exists_cons_of_ne_nil f.digits_ne_nil
      rw [hlead, hds, List.nil_append, List.cons_append] at heq
      obtain ⟨-, rfl⟩ := List.cons.inj heq
      have hdigits : ∀ d ∈ ds, isDigit d = true := fun d hd =>
        f.digits_digit d (by rw [hds]; exact List.mem_cons_of_mem c hd)
      have hc : isDigit c = true := f.digits_digit c (by rw [hds]; exact List.mem_cons_self)
      have hbounds := digit_bounds hc
      have hread := atoi_number (fun c hc => absurd hc List.not_mem_nil) hdigits htrail
      rw [List.nil_append] at hread
      have hall : digitsValue 0 (c :: ds) = digitsValue (c.toNat - 48) ds := by
        rw [digitsValue, if_pos hc, Nat.mul_zero, Nat.zero_add]
      have hzero : c = 48 ↔ c.toNat - 48 = 0 := by
        rw [← UInt8.toNat_inj]
        simp only [UInt8.reduceToNat]
        omega
      rw [hread, hds, hall, List.head?_cons, Option.some.injEq, hzero]
      by_cases h0 : c.toNat - 48 = 0
      · simp only [h0, ne_eq, not_true_eq_false, or_true, true_and]
        omega
      · have hlt := digitsValue_strict hdigits (Nat.pos_of_ne_zero h0)
        simp only [ne_eq, not_true_eq_false, h0, or_self, false_and, iff_false]
        omega

namespace OkReply

variable (r : OkReply) {readlen : Nat}

/-- Where the contents are taken to start is short of their place by the fields behind the
length. -/
theorem scan_expected (hname : r.length.name = ascii "Content-Length") {skipped : UInt8}
    {value : Bytes} (hvalue : r.length.value = skipped :: value) (more : Bytes) :
    ∃ h, scanHeader (r.head ++ more) readlen = some (some h) ∧ h.contentLength = atoi value ∧
      h.startContent + (marked r.after).length = r.head.length ∧
      h.readByteContent = (readlen : Int) - h.startContent := by
  have hcode : atoi (ascii "200") = 200 := by decide
  refine ⟨_, scanHeader_iff.mpr (.accepted (r.statusLine more) hcode
    (r.lengthLine hname hvalue more)), rfl, ?_, rfl⟩
  have hversion : (ascii "HTTP/1.1").length = 8 := by decide
  have hthree : (ascii "200").length = 3 := by decide
  have hkey : lengthKey.length = 16 := by decide
  have hnamelen : (ascii "Content-Length").length = 14 := by decide
  have hline : r.length.toField.line.length = value.length + 16 := by
    rw [Field.line, hname, hvalue, List.length_append, hnamelen, List.length_cons,
      List.length_cons]
    omega
  rw [head_eq, fields, marked_append, marked_cons]
  simp only [headerOf, List.length_append, List.length_cons, List.length_nil, hversion, hthree,
    hkey, hline]
  omega

/-- A name in other letters is not found before the end of the header. -/
theorem scan_other (hname : r.length.name ≠ ascii "Content-Length") {more : Bytes} {h : Header}
    (hscan : scanHeader (r.head ++ more) readlen = some (some h)) :
    r.head.length < h.startContent := by
  cases scanHeader_iff.mp hscan with
  | accepted line hcode length =>
      rename_i version code rest before value behind skipped
      obtain ⟨rfl, rfl, rfl⟩ := line.unique (r.statusLine more)
      have hnames : ∀ f ∈ r.fields, f.name ≠ ascii "Content-Length" := by
        intro f hf
        rw [fields, List.mem_append, List.mem_cons] at hf
        rcases hf with hf | rfl | hf
        · exact other_names (r.others f (List.mem_append_left _ hf))
        · exact hname
        · exact other_names (r.others f (List.mem_append_right _ hf))
      have hblank : ¬ lengthKey <:+: [10, 13, 10] := by decide
      have hnot := r.not_infix_reason hnames hblank
      have hfirst := length.first
      have hrest : r.reason ++ 13 :: (marked r.fields ++ ([10, 13, 10] ++ more)) =
          (r.reason ++ 13 :: (marked r.fields ++ [10, 13, 10])) ++ more := by
        simp
      rw [hrest] at hfirst
      have hkey : lengthKey.length = 16 := by decide
      have hbehind : (r.reason ++ 13 :: (marked r.fields ++ [10, 13, 10])).length <
          before.length + lengthKey.length := by
        by_contra hle
        obtain ⟨post, -, hinside⟩ := hfirst.restrict (Nat.not_lt.mp hle)
        exact hnot ⟨before, post, by rw [hinside.eq, List.append_assoc]⟩
      rw [hkey] at hbehind
      rw [head_eq]
      simp only [headerOf, List.length_append, List.length_cons, List.length_nil, hkey] at hbehind ⊢
      omega

/-- The header as it is to be read from the first `k` bytes of the reply. -/
structure Read (k : Nat) (h : Header) : Prop where
  contentLength : h.contentLength = r.body.length
  startContent : h.startContent = r.head.length
  readByteContent : h.readByteContent = (k - r.head.length : Nat)

theorem scanned_iff {k : Nat} (more : Bytes) :
    (∃ h, scanHeader (r.text.take k ++ more) k = some (some h) ∧ r.Read k h) ↔
      r.Expected ∧ r.head.length ≤ k := by
  obtain ⟨skipped, value, hvalue⟩ := List.exists_cons_of_ne_nil r.value_ne_nil
  have hlength : atoi value = (r.body.length : Int) ↔
      (r.length.lead ≠ [] ∨ r.length.digits.head? = some 48) ∧ r.body.length < 2147483648 := by
    rw [← r.announced]
    exact r.length.atoi_iff hvalue
  have hbuf (hhead : r.head.length ≤ k) :
      r.text.take k ++ more = r.head ++ (r.body.take (k - r.head.length) ++ more) := by
    rw [text, List.take_append, List.take_of_length_le hhead, List.append_assoc]
  constructor
  · intro h
    rcases h with ⟨h, hscan, hread⟩
    have hcount := (scanHeader_iff.mp hscan).contents.2.1
    have hstart := hread.startContent
    have hdelivered := hread.readByteContent
    -- a count below zero is not the number of bytes that came
    have hhead : r.head.length ≤ k := by omega
    rw [hbuf hhead] at hscan
    by_cases hname : r.length.name = ascii "Content-Length"
    · obtain ⟨h', hscan', hcontent, hplace, -⟩ := r.scan_expected hname hvalue _
      obtain rfl : h = h' := Option.some.inj (Option.some.inj (hscan.symm.trans hscan'))
      have hnone : marked r.after = [] := List.eq_nil_of_length_eq_zero (by omega)
      obtain ⟨hskips, hfits⟩ := hlength.mp (hcontent.symm.trans hread.contentLength)
      exact ⟨⟨hname, marked_eq_nil.mp hnone, hskips, hfits⟩, hhead⟩
    · have hbehind := r.scan_other hname hscan
      omega
  · intro h
    rcases h with ⟨hexpected, hhead⟩
    obtain ⟨h, hscan, hcontent, hplace, hcount⟩ :=
      r.scan_expected hexpected.spelled hvalue (r.body.take (k - r.head.length) ++ more)
    rw [hexpected.last] at hplace
    have hstart : h.startContent = r.head.length := hplace
    rw [hbuf hhead]
    refine ⟨h, hscan, ?_, hstart, by omega⟩
    exact hcontent.trans (hlength.mpr ⟨hexpected.skips, hexpected.fits⟩)

end OkReply

/-! ## The first bytes that are received -/

/-- What the first `recv` delivers, within the size it asks for: the start of a reply, other
bytes, or nothing. -/
inductive FirstRecv where
  | reply (r : OkReply) (k : Nat) (delivered : 0 < k) (received : k ≤ r.text.length)
      (asked : k < RCVHEADERBUFSIZE)
  | other (bytes : Bytes) (delivered : bytes ≠ []) (asked : bytes.length < RCVHEADERBUFSIZE)
      (foreign : ∀ r : OkReply, ¬ bytes <+: r.text)
  | closed
  | error

namespace FirstRecv

/-- The call returns true with the header as it is, or false, and then looks at nothing but what
was received. -/
def Lawful (stack : CharArray RCVHEADERBUFSIZE) : FirstRecv → Prop
  | .reply r k _ _ _ =>
      ∃ h, parsingHeader stack (.data (r.text.take k)) = some (some h) ∧ r.Read k h
  | .other bytes _ _ _ =>
      parsingHeader stack (.data bytes) = some none ∧ scanHeader bytes bytes.length = some none
  | .closed => parsingHeader stack .closed = some none
  | .error => parsingHeader stack .error = some none

/-- The whole header came, as the scan relies on it; or another status between two blanks. -/
def Sound : FirstRecv → Prop
  | .reply r k _ _ _ => r.Expected ∧ r.head.length ≤ k
  | .other bytes _ _ _ =>
      ∃ version code rest, StatusLine bytes version code rest ∧ atoi code ≠ 200
  | .closed | .error => True

theorem parsingHeader_received (stack : CharArray RCVHEADERBUFSIZE) {bytes : Bytes}
    (h : bytes ≠ []) (hlt : bytes.length < RCVHEADERBUFSIZE) :
    parsingHeader stack (.data bytes) =
      scanHeader (bytes ++ stack.val.drop bytes.length) bytes.length := by
  have hpos := List.length_pos_iff.mpr h
  rw [parsingHeader_data, if_neg (by omega), if_neg (by omega)]

end FirstRecv

/-- The header of a reply is read as it is, and anything else refused within what was received,
precisely in the sound cases. -/
theorem parsingHeader_lawful_iff (stack : CharArray RCVHEADERBUFSIZE) (first : FirstRecv) :
    first.Lawful stack ↔ first.Sound := by
  cases first with
  | reply r k hpos hk hlt =>
      have hlen : (r.text.take k).length = k := by
        rw [List.length_take]
        omega
      have hne : r.text.take k ≠ [] := by
        intro hnil
        rw [hnil, List.length_nil] at hlen
        omega
      rw [FirstRecv.Lawful, FirstRecv.Sound,
        FirstRecv.parsingHeader_received stack hne (hlen.symm ▸ hlt), hlen]
      exact r.scanned_iff _
  | other bytes hne hlt hother =>
      rw [FirstRecv.Lawful, FirstRecv.Sound, FirstRecv.parsingHeader_received stack hne hlt]
      constructor
      · intro h
        rcases h with ⟨-, hscan⟩
        cases scanHeader_iff.mp hscan with
        | refused line hcode => exact ⟨_, _, _, line, hcode⟩
      · intro h
        rcases h with ⟨version, code, rest, line, hcode⟩
        have hscans : Scans bytes bytes.length none := .refused line hcode
        exact ⟨scanHeader_iff.mpr (hscans.extend _), scanHeader_iff.mpr hscans⟩
  | closed => exact iff_of_true rfl trivial
  | error => exact iff_of_true rfl trivial

/-! A reply that names its connection behind its length. -/

def closeField : Field :=
  ⟨ascii "Connection", ascii " close", by decide +kernel, by decide +kernel, by decide +kernel⟩

/-- The length as it is mostly written, with one blank. -/
def lengthField (digits : Bytes) (hne : digits ≠ []) (h : ∀ c ∈ digits, isDigit c = true) :
    LengthField where
  name := ascii "Content-Length"
  value := 32 :: digits
  name_ne_nil := by decide +kernel
  name_token := by decide +kernel
  value_text := by
    intro c hc
    rcases List.mem_cons.mp hc with rfl | hc
    · decide +kernel
    · exact textChar_of_digit (h c hc)
  lead := [32]
  digits := digits
  trail := []
  spelled := by decide +kernel
  lead_blank := by decide +kernel
  digits_ne_nil := hne
  digits_digit := h
  trail_blank := by decide +kernel
  value_eq := by simp

theorem ok_text : ∀ c ∈ ascii "OK", isTextChar c = true := by decide +kernel

def closeReply : OkReply where
  reason := ascii "OK"
  before := []
  length := lengthField (ascii "1") (by decide +kernel) (by decide +kernel)
  after := [closeField]
  body := ascii "a"
  reason_text := ok_text
  others := by decide +kernel
  announced := by decide +kernel

def closeFirst : FirstRecv :=
  .reply closeReply closeReply.text.length (by decide +kernel) (Nat.le_refl _) (by decide +kernel)

/-- The contents are taken to start two bytes into the line behind the length. -/
theorem closeFirst_not_lawful :
    ¬ closeFirst.Lawful ⟨List.replicate RCVHEADERBUFSIZE 0, zeros_length⟩ := by
  intro h
  rcases h with ⟨h, hparse, hread⟩
  have hplace : (parsingHeader ⟨List.replicate RCVHEADERBUFSIZE 0, zeros_length⟩
      (.data (closeReply.text.take closeReply.text.length))).map (Option.map (·.startContent)) =
        some (some 38) := by
    decide +kernel
  have hhead : closeReply.head.length = 57 := by decide +kernel
  have hstart := hread.startContent
  rw [hparse] at hplace
  have hthere : h.startContent = 38 := Option.some.inj (Option.some.inj hplace)
  omega

end Acu.Web
