import Acu.Inih.Comments
import Mathlib.Data.List.Chain

/-!
# Configuration files as they are written

A document is a list of lines: comments, section headings, pairs, and further values of
the pair before them. However it is laid out, the handler is called with precisely the
values that were written.
-/

namespace Acu.Inih

open Acu.Core Acu.Core.CMemory

/-- No `;` follows a blank. -/
def Uncommented (s : Bytes) : Prop := s.IsChain fun a b => isSpace a = true → b ≠ 59

def Blanks (ws : Bytes) : Prop := ∀ c ∈ ws, isSpace c = true

instance (ws : Bytes) : Decidable (Blanks ws) := List.decidableBAll _ ws

theorem blanks_nil : Blanks [] := List.forall_mem_nil _

theorem blanks_space : Blanks (ascii " ") := by decide

/-! ## Lines -/

/-- Text that stands in one line of the file. -/
structure OneLine (line : Bytes) : Prop where
  nul : 0 ∉ line
  lineFeed : 10 ∉ line
  fits : line.length < INI_MAX_LINE - 1

/-- An empty line or a comment. -/
structure Filler where
  line : Bytes
  comment : Comment line
  oneLine : OneLine line

/-- `[name]`, and anything behind it. -/
structure Header where
  name : Bytes
  behind : Bytes
  closed : 93 ∉ name
  uncommented : Uncommented name
  short : name.length < MAX_SECTION
  oneLine : OneLine (91 :: name ++ 93 :: behind)

def Header.line (h : Header) : Bytes := 91 :: h.name ++ 93 :: h.behind

/-- A pair with blanks around its parts, and maybe a comment. An empty value has none: the
comment would become the value. -/
structure Entry where
  name : Bytes
  before : Bytes
  separator : UInt8
  behind : Bytes
  value : Bytes
  after : Bytes
  comment : Bytes
  named : name ≠ []
  trimmedName : Trimmed isSpace name
  beginsPair : ∀ c ∈ name.head?, c ≠ 59 ∧ c ≠ 35 ∧ c ≠ 91
  uncommentedName : Uncommented name
  separates : 61 ∉ name ∧ (separator = 61 ∨ separator = 58 ∧ 58 ∉ name ∧ 61 ∉ value)
  blanksBefore : Blanks before
  blanksBehind : Blanks behind
  trimmedValue : Trimmed isSpace value
  uncommentedValue : Uncommented value
  blanksAfter : Blanks after
  commented : comment = [] ∨ value ≠ [] ∧ after ≠ [] ∧ comment.head? = some 59
  oneLine : OneLine (name ++ before ++ separator :: (behind ++ value ++ after ++ comment))

def Entry.line (e : Entry) : Bytes :=
  e.name ++ e.before ++ e.separator :: (e.behind ++ e.value ++ e.after ++ e.comment)

/-- A further value, indented. -/
structure More where
  indent : Bytes
  value : Bytes
  after : Bytes
  indented : indent ≠ []
  blanksIndent : Blanks indent
  given : value ≠ []
  trimmed : Trimmed isSpace value
  beginsValue : ∀ c ∈ value.head?, c ≠ 59 ∧ c ≠ 35
  blanksAfter : Blanks after
  oneLine : OneLine (indent ++ (value ++ after))

def More.line (m : More) : Bytes := m.indent ++ (m.value ++ m.after)

inductive Item where
  | filler (l : Filler)
  | header (h : Header)
  | entry (e : Entry)
  | more (m : More)

namespace Item

def line : Item → Bytes
  | filler l => l.line
  | header h => h.line
  | entry e => e.line
  | more m => m.line

theorem oneLine : ∀ i : Item, OneLine i.line
  | filler l => l.oneLine
  | header h => h.oneLine
  | entry e => e.oneLine
  | more m => m.oneLine

/-- What a line of the document says behind those of a context. -/
def reads : Item → Line
  | filler _ => .ignored
  | header h => .header h.name
  | entry e => .pair e.name e.value
  | more m => .continued m.value

end Item

/-! ## Documents -/

/-- The text of the file. -/
def document (items : List Item) : Bytes := (items.map fun i => i.line ++ [10]).flatten

/-- What the document says: values under their section and name. -/
def callsOf (section_ name : Bytes) : List Item → List Call
  | [] => []
  | .filler _ :: is => callsOf section_ name is
  | .header h :: is => callsOf h.name [] is
  | .entry e :: is => ⟨section_, e.name, e.value⟩ :: callsOf section_ e.name is
  | .more m :: is => ⟨section_, name, m.value⟩ :: callsOf section_ name is

/-- Further values stand behind a pair of their section, whose name is not too long for them. -/
def Placed (name : Bytes) : List Item → Prop
  | [] => True
  | .filler _ :: is => Placed name is
  | .header _ :: is => Placed [] is
  | .entry e :: is => Placed e.name is
  | .more _ :: is => name ≠ [] ∧ name.length < MAX_NAME ∧ Placed name is

/-! ## Searching a line -/

section Passing

variable {c : UInt8} {w : Bool} {s : Bytes}

/-- Whether the search has passed a blank just before. -/
def blankAt (w : Bool) (s : Bytes) : Bool := s.getLast?.elim w isSpace

/-- The search goes on behind what holds neither the character nor a comment. -/
theorem passed_append (hc : c ∉ s) (hs : Uncommented s) (hw : w = true → s.head? ≠ some 59)
    (t : Bytes) :
    passed c w (s ++ t) = (s ++ (passed c (blankAt w s) t).1, (passed c (blankAt w s) t).2) := by
  induction s generalizing w with
  | nil => rfl
  | cons b s ih =>
      obtain ⟨hb, hcs⟩ := not_or.mp (mt List.mem_cons.mpr hc)
      have hgoes : b ≠ c ∧ ¬ (w = true ∧ b = 59) := by
        refine ⟨Ne.symm hb, fun ⟨hblank, hsemicolon⟩ => hw hblank ?_⟩
        rw [hsemicolon]
        rfl
      have htail : Uncommented s := (List.isChain_cons.mp hs).2
      have hnext : isSpace b = true → s.head? ≠ some 59 := by
        intro hblank hhead
        exact (List.isChain_cons.mp hs).1 59 hhead hblank rfl
      have hlast : blankAt w (b :: s) = blankAt (isSpace b) s := by
        cases s with
        | nil => rfl
        | cons d s => rw [blankAt, blankAt, List.getLast?_cons_cons]; rfl
      rw [List.cons_append, passed, if_pos hgoes, ih hcs htail hnext, hlast]
      rfl

theorem passed_self (t : Bytes) : passed c w (c :: t) = ([], c :: t) := by
  rw [passed, if_neg (fun h => h.1 rfl)]

theorem passed_comment (t : Bytes) : passed c true (59 :: t) = ([], 59 :: t) := by
  rw [passed, if_neg (fun h => h.2 ⟨rfl, rfl⟩)]

theorem passed_all (hc : c ∉ s) (hs : Uncommented s) (hw : w = true → s.head? ≠ some 59) :
    passed c w s = (s, []) := by
  have happend := passed_append hc hs hw []
  rw [List.append_nil] at happend
  rw [happend]
  exact Prod.ext (List.append_nil s) rfl

/-- What is not there in front of a comment is not found. -/
theorem passed_not_found {t : Bytes} (hc : c ∉ s) (ht : t = [] ∨ blankAt w s = true ∧
    t.head? = some 59 ∧ c ≠ 59) : (passed c w (s ++ t)).2.head? ≠ some c := by
  induction s generalizing w with
  | nil =>
      rcases ht with rfl | ⟨hblank, hhead, hne⟩
      · simp [passed]
      · cases t with
        | nil => cases hhead
        | cons d t =>
            obtain rfl : d = 59 := Option.some.inj hhead
            have hw : w = true := hblank
            rw [List.nil_append, hw, passed_comment]
            simpa using Ne.symm hne
  | cons b s ih =>
      obtain ⟨hb, hcs⟩ := not_or.mp (mt List.mem_cons.mpr hc)
      rw [List.cons_append, passed]
      split
      · refine ih hcs (ht.imp_right fun h => ⟨?_, h.2⟩)
        have hblank := h.1
        cases s with
        | nil => exact hblank
        | cons d s => rwa [blankAt, List.getLast?_cons_cons] at hblank
      · simpa using Ne.symm hb

theorem passed_none (hc : c ∉ s) : (passed c w s).2.head? ≠ some c := by
  have hnot := passed_not_found (w := w) hc (.inl rfl : [] = [] ∨ _)
  rwa [List.append_nil] at hnot

end Passing

section Blanks

variable {ws s : Bytes}

theorem Blanks.not_mem (h : Blanks ws) {c : UInt8} (hc : isSpace c = false) : c ∉ ws := by
  intro hmem
  rw [h c hmem] at hc
  cases hc

theorem Blanks.head (h : Blanks ws) : ws.head? ≠ some 59 := by
  intro hhead
  have hmem : (59 : UInt8) ∈ ws := List.mem_of_mem_head? hhead
  exact h.not_mem (by decide) hmem

theorem Blanks.uncommented (h : Blanks ws) : Uncommented ws := by
  induction ws with
  | nil => exact .nil
  | cons a ws ih =>
      have htail : Blanks ws := fun c hc => h c (List.mem_cons_of_mem _ hc)
      exact List.isChain_cons.mpr ⟨fun b hb _ hsemicolon => htail.head (hsemicolon ▸ hb), ih htail⟩

theorem Blanks.append {vs : Bytes} (h : Blanks ws) (h' : Blanks vs) : Blanks (ws ++ vs) := by
  intro c hc
  exact (List.mem_append.mp hc).elim (h c) (h' c)

/-- Blanks behind a text begin no comment in it. -/
theorem Uncommented.append_blanks (hs : Uncommented s) (h : Blanks ws) : Uncommented (s ++ ws) := by
  exact List.isChain_append.mpr
    ⟨hs, h.uncommented, fun a _ b hb _ hsemicolon => h.head (hsemicolon ▸ hb)⟩

theorem Blanks.blankAt (h : Blanks ws) (hne : ws ≠ []) (w : Bool) (s : Bytes) :
    blankAt w (s ++ ws) = true := by
  rw [Inih.blankAt, List.getLast?_append_of_ne_nil _ hne, List.getLast?_eq_some_getLast hne]
  exact h _ (List.getLast_mem hne)

end Blanks

/-! ## Reading a line -/

section Reading

/-- A line that does not begin with blanks and continues nothing is read for what it holds. -/
theorem readText_pair {moved : Bool} {prev_name start : Bytes}
    (hmoved : prev_name = [] ∨ moved = false) (hne : start ≠ [])
    (hhead : ∀ c ∈ start.head?, c ≠ 59 ∧ c ≠ 35 ∧ c ≠ 91) :
    readText moved prev_name start = readPair start := by
  cases start with
  | nil => exact absurd rfl hne
  | cons c start =>
      obtain ⟨h59, h35, h91⟩ := hhead c rfl
      have hcontinues : ¬ (prev_name ≠ [] ∧ c :: start ≠ [] ∧ moved = true) := by
        rintro ⟨hprev, -, hmove⟩
        rcases hmoved with h | h
        · exact hprev h
        · rw [h] at hmove
          cases hmove
      unfold readText
      rw [if_neg (by simp [h59, h35]), if_neg hcontinues, if_neg (by simp [h91]),
        if_pos (by simp [h59])]

namespace Entry

variable (e : Entry)

/-- What is left of the line behind the separator. -/
def rest (e : Entry) : Bytes := rstrip (e.behind ++ e.value ++ e.after ++ e.comment ++ [10])

theorem separator_not_space : isSpace e.separator = false := by
  rcases e.separates.2 with h | ⟨h, -⟩ <;> rw [h] <;> rfl

theorem rstrip_line :
    rstrip (e.line ++ [10]) = e.name ++ e.before ++ e.separator :: e.rest := by
  unfold line
  rw [List.append_assoc, List.cons_append]
  exact rdropWhile_append_cons e.separator_not_space _ _

theorem head_start : (e.name ++ e.before ++ e.separator :: e.rest).head? = e.name.head? := by
  rw [List.append_assoc, List.head?_append_of_ne_nil _ e.named]

theorem lskip_line :
    lskip (rstrip (e.line ++ [10])) = e.name ++ e.before ++ e.separator :: e.rest := by
  rw [e.rstrip_line]
  exact dropWhile_of_head fun c hc =>
    e.trimmedName.head c (e.head_start ▸ hc)

/-- The blanks of the value, then the value, and behind it nothing or a comment. -/
theorem rest_eq : (e.value = [] ∧ e.rest = []) ∨
    (e.value ≠ [] ∧ e.comment = [] ∧ e.rest = e.behind ++ e.value) ∨
    (e.value ≠ [] ∧ e.after ≠ [] ∧
      ∃ text, e.rest = e.behind ++ (e.value ++ (e.after ++ 59 :: text))) := by
  have hfeed : Blanks [10] := by simp [Blanks, isSpace]
  rcases e.commented with hnone | ⟨hvalue, hafter, hhead⟩
  · by_cases hvalue : e.value = []
    · refine .inl ⟨hvalue, ?_⟩
      rw [rest, rstrip, hvalue, hnone, List.append_nil, List.append_nil,
        List.rdropWhile_eq_nil_iff]
      exact (e.blanksBehind.append e.blanksAfter).append hfeed
    · refine .inr (.inl ⟨hvalue, hnone, ?_⟩)
      rw [rest, hnone, List.append_nil, List.append_assoc]
      refine rdropWhile_blanks (e.blanksAfter.append hfeed) fun a ha => ?_
      rw [List.getLast?_append_of_ne_nil _ hvalue] at ha
      exact e.trimmedValue.last a ha
  · refine .inr (.inr ⟨hvalue, hafter, ?_⟩)
    obtain ⟨text, htext⟩ : ∃ text, e.comment = 59 :: text := by
      cases hcomment : e.comment with
      | nil => rw [hcomment] at hhead; cases hhead
      | cons c text =>
          rw [hcomment] at hhead
          exact ⟨text, by rw [Option.some.inj hhead]⟩
    refine ⟨rstrip (text ++ [10]), ?_⟩
    rw [rest, htext, List.append_assoc, List.cons_append, ← List.append_assoc e.value,
      ← List.append_assoc e.behind, ← List.append_assoc e.behind]
    exact rdropWhile_append_cons (by decide) _ _

/-- The separator is found where it stands. -/
theorem findSeparator_eq :
    findSeparator (e.name ++ e.before ++ e.separator :: e.rest) =
      (e.name ++ e.before, e.separator :: e.rest) := by
  have huncommented := e.uncommentedName.append_blanks e.blanksBefore
  have hpass {c : UInt8} (hc : c ∉ e.name) (hspace : isSpace c = false)
      (hsep : e.separator = c) :
      passed c false (e.name ++ e.before ++ e.separator :: e.rest) =
        (e.name ++ e.before, e.separator :: e.rest) := by
    have hboth : c ∉ e.name ++ e.before := by
      rw [List.mem_append, not_or]
      exact ⟨hc, e.blanksBefore.not_mem hspace⟩
    rw [passed_append hboth huncommented (by simp), hsep, passed_self, List.append_nil]
  obtain ⟨hname, hequals | ⟨hcolon, hcolonName, hvalue⟩⟩ := e.separates
  · rw [findSeparator, find_char_or_comment, hpass hname (by decide) hequals, hequals]
    rfl
  · have hnone : (passed 61 false (e.name ++ e.before ++ e.separator :: e.rest)).2.head? ≠
        some 61 := by
      have hfront : (61 : UInt8) ∉ e.name ++ e.before ++ e.separator :: (e.behind ++ e.value) := by
        simp only [List.mem_append, List.mem_cons, not_or]
        exact ⟨⟨hname, e.blanksBefore.not_mem (by decide)⟩, by rw [hcolon]; decide,
          e.blanksBehind.not_mem (by decide), hvalue⟩
      rcases e.rest_eq with ⟨-, hrest⟩ | ⟨-, -, hrest⟩ | ⟨-, hafter, text, hrest⟩
      · have hshort : (61 : UInt8) ∉ e.name ++ e.before ++ [e.separator] := by
          simp only [List.mem_append, List.mem_cons, not_or] at hfront ⊢
          exact ⟨hfront.1, hfront.2.1, List.not_mem_nil⟩
        rw [hrest]
        exact passed_none hshort
      · rw [hrest]
        exact passed_none hfront
      · have hblank : blankAt false (e.name ++ e.before ++
            e.separator :: (e.behind ++ e.value) ++ e.after) = true :=
          e.blanksAfter.blankAt hafter _ _
        have hfront' : (61 : UInt8) ∉ e.name ++ e.before ++
            e.separator :: (e.behind ++ e.value) ++ e.after := by
          rw [List.mem_append, not_or]
          exact ⟨hfront, e.blanksAfter.not_mem (by decide)⟩
        have hcomment := passed_not_found hfront' (.inr ⟨hblank, rfl, by decide⟩ :
          59 :: text = [] ∨
            blankAt false _ = true ∧ (59 :: text).head? = some 59 ∧ (61 : UInt8) ≠ 59)
        rw [hrest]
        simpa using hcomment
    rw [findSeparator, find_char_or_comment, if_neg hnone]
    exact hpass hcolonName (by decide) hcolon

/-- The value without its blanks and the comment. -/
theorem value_eq : rstrip (find_char_or_comment (lskip e.rest) 0).1 = e.value := by
  have hnul : 0 ∉ e.value := fun h => e.oneLine.nul (by simp [h])
  have hself : rstrip e.value = e.value := rdropWhile_of_last e.trimmedValue.last
  rcases e.rest_eq with ⟨hvalue, hrest⟩ | ⟨hvalue, -, hrest⟩ | ⟨hvalue, hafter, text, hrest⟩
  · rw [hrest, hvalue]
    rfl
  · rw [hrest, lskip, dropWhile_blanks e.blanksBehind e.trimmedValue.head, find_char_or_comment,
      passed_all hnul e.uncommentedValue (by simp)]
    exact hself
  · have hhead : ∀ a ∈ (e.value ++ (e.after ++ 59 :: text)).head?, isSpace a = false := by
      intro a ha
      rw [List.head?_append_of_ne_nil _ hvalue] at ha
      exact e.trimmedValue.head a ha
    have hboth : 0 ∉ e.value ++ e.after := by
      rw [List.mem_append, not_or]
      exact ⟨hnul, e.blanksAfter.not_mem (by decide)⟩
    have hpass : find_char_or_comment (e.value ++ (e.after ++ 59 :: text)) 0 =
        (e.value ++ e.after, 59 :: text) := by
      rw [← List.append_assoc, find_char_or_comment,
        passed_append hboth (e.uncommentedValue.append_blanks e.blanksAfter) (by simp),
        e.blanksAfter.blankAt hafter, passed_comment, List.append_nil]
    rw [hrest, lskip, dropWhile_blanks e.blanksBehind hhead, hpass]
    exact rdropWhile_blanks e.blanksAfter e.trimmedValue.last

theorem readPair_eq :
    readPair (e.name ++ e.before ++ e.separator :: e.rest) = .pair e.name e.value := by
  have hfound : e.separator = 61 ∨ e.separator = 58 := e.separates.2.imp_right And.left
  have hname : rstrip (e.name ++ e.before) = e.name :=
    rdropWhile_blanks e.blanksBefore e.trimmedName.last
  unfold readPair
  rw [e.findSeparator_eq]
  simp only [List.head?_cons, Option.some.injEq, hfound, if_true, List.tail_cons, hname,
    e.value_eq]

end Entry

theorem Header.rstrip_line (h : Header) :
    rstrip (h.line ++ [10]) = 91 :: h.name ++ 93 :: rstrip (h.behind ++ [10]) := by
  rw [Header.line, List.append_assoc]
  exact rdropWhile_append_cons (by decide) _ _

theorem Header.readText_eq (h : Header) {moved : Bool} {prev_name : Bytes}
    (hmoved : prev_name = [] ∨ moved = false) :
    readText moved prev_name (91 :: h.name ++ 93 :: rstrip (h.behind ++ [10])) =
      .header h.name := by
  have hfound : find_char_or_comment (h.name ++ 93 :: rstrip (h.behind ++ [10])) 93 =
      (h.name, 93 :: rstrip (h.behind ++ [10])) := by
    rw [find_char_or_comment, passed_append h.closed h.uncommented (by simp), passed_self,
      List.append_nil]
  have hcontinues : ¬ (prev_name ≠ [] ∧ 91 :: h.name ++ 93 :: rstrip (h.behind ++ [10]) ≠ [] ∧
      moved = true) := by
    rintro ⟨hprev, -, hmove⟩
    rcases hmoved with heq | heq
    · exact hprev heq
    · rw [heq] at hmove
      cases hmove
  unfold readText
  rw [if_neg hcontinues, List.cons_append, List.head?_cons, List.tail_cons, hfound]
  rfl

theorem More.strip_line (m : More) :
    rstrip (m.line ++ [10]) = m.indent ++ m.value ∧ lskip (m.indent ++ m.value) = m.value := by
  have hfeed : Blanks [10] := by simp [Blanks, isSpace]
  refine ⟨?_, dropWhile_blanks m.blanksIndent m.trimmed.head⟩
  rw [More.line, List.append_assoc, List.append_assoc, ← List.append_assoc m.indent]
  refine rdropWhile_blanks (m.blanksAfter.append hfeed) fun a ha => ?_
  rw [List.getLast?_append_of_ne_nil _ m.given] at ha
  exact m.trimmed.last a ha

theorem More.readText_eq (m : More) {prev_name : Bytes} (hprev : prev_name ≠ []) :
    readText true prev_name m.value = .continued m.value := by
  have hmark : ¬ (m.value.head? = some 59 ∨ m.value.head? = some 35) := by
    rintro (h | h)
    · exact (m.beginsValue 59 h).1 rfl
    · exact (m.beginsValue 35 h).2 rfl
  unfold readText
  rw [if_neg hmark, if_pos ⟨hprev, m.given, rfl⟩]

/-- A line of a document is read for what it says, where no pair is before it that it could
continue unless it is meant to. -/
theorem readText_item (i : Item) {prev_name : Bytes} (moved : Bool)
    (hmoved : prev_name = [] ∨ moved = false) (hmore : ∀ m, i = .more m → prev_name ≠ []) :
    readText (moved || decide ((lskip (rstrip (i.line ++ [10]))).length <
        (rstrip (i.line ++ [10])).length)) prev_name (lskip (rstrip (i.line ++ [10]))) =
      i.reads := by
  cases i with
  | filler l =>
      refine readText_comment fun c hc => l.comment c ?_
      rw [lskip_rstrip_head] at hc
      have htext : l.line.takeWhile (· ≠ 0) = l.line := by
        refine List.takeWhile_eq_self_iff.mpr fun b hb => ?_
        simpa using fun h : b = 0 => l.oneLine.nul (h ▸ hb)
      rw [htext]
      obtain ⟨ws, t, hline, hws, ht, hskip⟩ := blanks_split isSpace l.line
      have hlskip : lskip l.line = t := hskip
      rw [hlskip]
      cases t with
      | nil =>
          have hall : lskip (l.line ++ [10]) = [] := by
            refine List.dropWhile_eq_nil_iff.mpr fun a ha => ?_
            rcases List.mem_append.mp ha with h | h
            · rw [hline, List.append_nil] at h
              exact hws a h
            · rw [List.mem_singleton.mp h]
              rfl
          have hc' : c ∈ (lskip (l.line ++ [10])).head? := hc
          rw [hall] at hc'
          cases hc'
      | cons a t =>
          have hfirst : lskip (l.line ++ [10]) = a :: t ++ [10] := by
            rw [hline, List.append_assoc]
            exact dropWhile_blanks hws (by simpa using ht a rfl)
          have hc' : c ∈ (lskip (l.line ++ [10])).head? := hc
          rw [hfirst] at hc'
          exact hc'
  | header h =>
      have hstart : lskip (rstrip (h.line ++ [10])) =
          91 :: h.name ++ 93 :: rstrip (h.behind ++ [10]) := by
        rw [h.rstrip_line]
        rfl
      have hline : (Item.header h).line = h.line := rfl
      rw [hline, hstart, h.rstrip_line, decide_eq_false (Nat.lt_irrefl _), Bool.or_false]
      exact h.readText_eq hmoved
  | entry e =>
      have hline : (Item.entry e).line = e.line := rfl
      have hne : e.name ++ e.before ++ e.separator :: e.rest ≠ [] := by simp
      rw [hline, e.lskip_line, e.rstrip_line, decide_eq_false (Nat.lt_irrefl _), Bool.or_false,
        readText_pair hmoved hne (e.head_start ▸ e.beginsPair), e.readPair_eq]
      rfl
  | more m =>
      obtain ⟨hstrip, hskip⟩ := m.strip_line
      have hlt : m.value.length < (m.indent ++ m.value).length := by
        have hpos := List.length_pos_iff.mpr m.indented
        rw [List.length_append]
        omega
      have hline : (Item.more m).line = m.line := rfl
      rw [hline, hstrip, hskip, decide_eq_true hlt, Bool.or_true,
        m.readText_eq (hmore m rfl)]
      rfl

theorem takeWhile_line (i : Item) : (i.line ++ [10]).takeWhile (· ≠ 0) = i.line ++ [10] := by
  refine List.takeWhile_eq_self_iff.mpr fun b hb => ?_
  have hnul : 0 ∉ i.line ++ [10] := by
    rw [List.mem_append, not_or]
    exact ⟨i.oneLine.nul, by decide⟩
  simpa using fun h : b = 0 => hnul (h ▸ hb)

theorem readLine_item (i : Item) {lineno : Nat} {prev_name : Bytes}
    (hbom : lineno ≠ 1 ∨ ¬ BOM <+: i.line ++ [10]) (hmore : ∀ m, i = .more m → prev_name ≠ []) :
    readLine lineno prev_name (i.line ++ [10]) = i.reads := by
  have hmark : (decide (lineno = 1) && BOM.isPrefixOf (i.line ++ [10])) = false := by
    rcases hbom with h | h
    · rw [decide_eq_false h, Bool.false_and]
    · have hpre : BOM.isPrefixOf (i.line ++ [10]) = false := by
        rw [Bool.eq_false_iff]
        exact fun hpre => h (List.isPrefixOf_iff_prefix.mp hpre)
      rw [hpre, Bool.and_false]
  simp only [readLine, takeWhile_line, hmark, Bool.false_eq_true, if_false]
  exact readText_item i false (.inr rfl) hmore

/-- The first line behind a byte order mark. -/
theorem readLine_marked (i : Item) (hmore : ∀ m, i ≠ .more m) :
    readLine 1 [] (BOM ++ (i.line ++ [10])) = i.reads := by
  have htext : (BOM ++ (i.line ++ [10])).takeWhile (· ≠ 0) = BOM ++ (i.line ++ [10]) := by
    rw [List.takeWhile_append_of_pos (List.all_eq_true.mp rfl), takeWhile_line]
  have hdrop : (BOM ++ (i.line ++ [10])).drop 3 = i.line ++ [10] := rfl
  simp only [readLine, htext, hdrop]
  exact readText_item i true (.inl rfl) fun m hm => absurd hm (hmore m)

end Reading

/-! ## Reading a document -/

/-- One event for each line. -/
def documentEvents (section_ name : Bytes) : List Item → List Event
  | [] => []
  | .filler _ :: is => .quiet :: documentEvents section_ name is
  | .header h :: is => .quiet :: documentEvents h.name [] is
  | .entry e :: is => .called ⟨section_, e.name, e.value⟩ :: documentEvents section_ e.name is
  | .more m :: is => .called ⟨section_, name, m.value⟩ :: documentEvents section_ name is

section Documents

variable {items : List Item}

theorem strncpy0_short {src : Bytes} {size : Nat} (h : src.length < size) :
    strncpy0 src size = src :=
  List.take_of_length_le (Nat.le_sub_one_of_lt h)

/-- The first line of a document is the event it stands for, and the parser goes on with the
section and the name, cut off, that the document is in. -/
theorem documentEvents_cons {section_ name : Bytes} {i : Item} (h : Placed name (i :: items)) :
    ∃ section' name', Placed name' items ∧
      Context.after ⟨section_, strncpy0 name MAX_NAME⟩ i.reads =
        ⟨section', strncpy0 name' MAX_NAME⟩ ∧
      documentEvents section_ name (i :: items) =
        Context.event ⟨section_, strncpy0 name MAX_NAME⟩ i.reads ::
          documentEvents section' name' items ∧
      ∀ m, i = .more m → strncpy0 name MAX_NAME ≠ [] := by
  cases i with
  | filler l => exact ⟨section_, name, h, rfl, rfl, nofun⟩
  | header d =>
      refine ⟨d.name, [], h, ?_, rfl, nofun⟩
      show (⟨strncpy0 d.name MAX_SECTION, []⟩ : Context) = ⟨d.name, []⟩
      rw [strncpy0_short d.short]
  | entry e => exact ⟨section_, e.name, h, rfl, rfl, nofun⟩
  | more m =>
      obtain ⟨hname, hshort, hplaced⟩ := h
      refine ⟨section_, name, hplaced, rfl, ?_, fun _ _ => ?_⟩
      · rw [strncpy0_short hshort]
        rfl
      · rwa [strncpy0_short hshort]

theorem events_document {n : Nat} (hn : n ≠ 0) {section_ name : Bytes} (h : Placed name items) :
    Context.events n ⟨section_, strncpy0 name MAX_NAME⟩ (items.map fun i => i.line ++ [10]) =
      documentEvents section_ name items := by
  induction items generalizing n section_ name with
  | nil => rfl
  | cons i items ih =>
      obtain ⟨section', name', hplaced, hafter, hevents, hmore⟩ :=
        @documentEvents_cons items section_ name i h
      have hline := @readLine_item i (n + 1) _ (.inl (by omega)) hmore
      rw [List.map_cons, Context.events, hline, hafter, hevents,
        ih (Nat.succ_ne_zero n) hplaced]

theorem lines_document (items : List Item) :
    lines (document items) = items.map fun i => i.line ++ [10] := by
  induction items with
  | nil => rfl
  | cons i items ih =>
      have hfits := fgetsAll_line i.oneLine.lineFeed i.oneLine.fits (document items)
      have htext : document (i :: items) = i.line ++ 10 :: document items := by simp [document]
      rw [lines] at ih ⊢
      rw [htext, hfits, ih]
      rfl

/-- Behind whatever the first line begins with. -/
theorem events_first {i : Item} {first : Bytes} (h : Placed [] (i :: items))
    (hfirst : readLine 1 [] first = i.reads) :
    Context.start.events 0 (first :: items.map fun i => i.line ++ [10]) =
      documentEvents [] [] (i :: items) := by
  obtain ⟨section', name', hplaced, hafter, hevents, -⟩ := @documentEvents_cons items [] [] i h
  have hstart : Context.start = ⟨[], strncpy0 [] MAX_NAME⟩ := rfl
  have hfirst' : readLine (0 + 1) (strncpy0 [] MAX_NAME) first = i.reads := hfirst
  rw [hstart, Context.events, hfirst', hafter, hevents,
    events_document (Nat.succ_ne_zero 0) hplaced]

/-- A byte order mark is left out of the first line, which must fit with it. A document without
the mark must not begin like one. -/
def Marked (items : List Item) : Bool → Prop
  | true => ∀ i ∈ items.head?, i.line.length + 3 < INI_MAX_LINE - 1
  | false => ¬ BOM <+: document items

def written (items : List Item) (bom : Bool) : Bytes := (if bom then BOM else []) ++ document items

theorem fileEvents_written {bom : Bool} (h : Placed [] items) (hbom : Marked items bom) :
    fileEvents (written items bom) = documentEvents [] [] items ∨
      items = [] ∧ fileEvents (written items bom) = [.quiet] := by
  cases items with
  | nil =>
      cases bom with
      | true => exact .inr ⟨rfl, by decide⟩
      | false => exact .inl rfl
  | cons i items =>
      refine .inl ?_
      have hmore : ∀ m, i ≠ .more m := by
        rintro m rfl
        exact h.1 rfl
      cases bom with
      | false =>
          have hcut := lines_document (i :: items)
          rw [fileEvents, written, if_neg Bool.false_ne_true, List.nil_append, hcut]
          refine events_first h (readLine_item i (.inr fun hpre => hbom ?_) fun m hm =>
            absurd hm (hmore m))
          rw [document, List.map_cons, List.flatten_cons]
          exact hpre.trans (List.prefix_append _ _)
      | true =>
          have hfeed : 10 ∉ BOM ++ i.line := by
            rw [List.mem_append, not_or]
            exact ⟨by decide, i.oneLine.lineFeed⟩
          have hlength : (BOM ++ i.line).length < INI_MAX_LINE - 1 := by
            have hfits := hbom i rfl
            rw [List.length_append, Nat.add_comm]
            exact hfits
          have htext : written (i :: items) true = (BOM ++ i.line) ++ 10 :: document items := by
            simp [written, document]
          have hcut : lines (written (i :: items) true) =
              (BOM ++ (i.line ++ [10])) :: items.map fun i => i.line ++ [10] := by
            rw [htext, lines, fgetsAll_line hfeed hlength, ← lines_document, List.append_assoc]
            rfl
          rw [fileEvents, hcut]
          exact events_first h (readLine_marked i hmore)

section Handlers

variable {σ : Type} {handler : Handler σ} {user : σ}

theorem feedAll_documentEvents (section_ name : Bytes) (items : List Item) :
    feedAll handler user (documentEvents section_ name items) =
      (callsOf section_ name items).foldl
        (fun u c => (handler u c.section c.name c.value).1) user := by
  induction items generalizing section_ name user with
  | nil => rfl
  | cons i items ih =>
      cases i with
      | filler l => exact ih section_ name
      | header d => exact ih d.name []
      | entry e => exact ih section_ e.name
      | more m => exact ih section_ name

theorem wrong_not_mem_documentEvents (section_ name : Bytes) (items : List Item) :
    .wrong ∉ documentEvents section_ name items := by
  induction items generalizing section_ name with
  | nil => exact List.not_mem_nil
  | cons i items ih =>
      cases i <;> simp [documentEvents, ih]

/-- With a handler that refuses nothing only malformed lines are in error. -/
theorem not_inError (haccepts : ∀ u s n v, (handler u s n v).2 ≠ 0) {es : List Event}
    (hes : .wrong ∉ es) (k : Nat) : ¬ InError handler user es k := by
  rintro ⟨e, he, hrefused⟩
  cases e with
  | quiet => cases hrefused
  | called c => exact haccepts _ _ _ _ (of_decide_eq_true hrefused)
  | wrong => exact hes (List.mem_of_getElem? he)

end Handlers

end Documents

/-- Written in any layout, with or without a byte order mark, a document is read without an
error, and the handler gets its values one after the other. -/
theorem ini_parse_file_written {σ : Type} (handler : Handler σ)
    (haccepts : ∀ u s n v, (handler u s n v).2 ≠ 0) (items : List Item) (bom : Bool)
    (h : Placed [] items) (hbom : Marked items bom) (user : σ) :
    ini_parse_file handler (written items bom) user =
      ((callsOf [] [] items).foldl (fun u c => (handler u c.section c.name c.value).1) user,
        0) := by
  have hdata := ini_parse_file_data handler (written items bom) user
  have hclean := ini_parse_file_clean handler (written items bom) user
  rcases fileEvents_written h hbom with hevents | ⟨rfl, hevents⟩
  · refine Prod.ext ?_ (hclean.mpr fun k => ?_)
    · rw [hdata, hevents, feedAll_documentEvents]
    · rw [hevents]
      exact not_inError haccepts (wrong_not_mem_documentEvents [] [] items) k
  · refine Prod.ext ?_ (hclean.mpr fun k => ?_)
    · rw [hdata, hevents]
      rfl
    · rw [hevents]
      exact not_inError haccepts (by decide) k

/-! ## A document -/

def gateSection : Header where
  name := ascii "App"
  behind := ascii " ; gate"
  closed := by decide
  uncommented := by unfold Uncommented; decide
  short := by decide
  oneLine := ⟨by decide, by decide, by decide⟩

def gateLocation : Entry where
  name := ascii "DV_LOC"
  before := ascii " "
  separator := 61
  behind := ascii " "
  value := ascii "0003"
  after := [9]
  comment := ascii ";east"
  named := by decide
  trimmedName := by decide
  beginsPair := by rintro _ ⟨⟩; decide
  uncommentedName := by unfold Uncommented; decide
  separates := ⟨by decide, .inl rfl⟩
  blanksBefore := blanks_space
  blanksBehind := blanks_space
  trimmedValue := by decide
  uncommentedValue := by unfold Uncommented; decide
  blanksAfter := by decide
  commented := .inr ⟨by decide, by decide, rfl⟩
  oneLine := ⟨by decide, by decide, by decide⟩

def gateRemark : Filler where
  line := ascii "  # DV_NO = 6"
  comment := by rintro _ ⟨⟩; decide
  oneLine := ⟨by decide, by decide, by decide⟩

def gateAlso : More where
  indent := ascii "  "
  value := ascii "0004"
  after := []
  indented := by decide
  blanksIndent := by decide
  given := by decide
  trimmed := by decide
  beginsValue := by rintro _ ⟨⟩; decide
  blanksAfter := blanks_nil
  oneLine := ⟨by decide, by decide, by decide⟩

/-- A section with one pair, a remark, and a second value of the pair. -/
def gateItems : List Item :=
  [.header gateSection, .entry gateLocation, .filler gateRemark, .more gateAlso]

theorem gateItems_placed : Placed [] gateItems := ⟨by decide, by decide, trivial⟩

theorem gate_file_read :
    ini_parse_file (fun vs s n v => (vs ++ [(s, n, v)], 1)) (written gateItems false) [] =
      ([(ascii "App", ascii "DV_LOC", ascii "0003"), (ascii "App", ascii "DV_LOC", ascii "0004")],
        0) :=
  ini_parse_file_written (fun vs s n v => (vs ++ [(s, n, v)], 1)) (fun _ _ _ _ => Int.one_ne_zero)
    gateItems false gateItems_placed (by unfold Marked; decide) []

end Acu.Inih
