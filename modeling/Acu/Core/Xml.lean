import Acu.Core.Search

/-!
# XML texts

Content as it is written: elements with their tags, character data between them, and
what else is marked up. References stay as they are written. An element is found by its
name as the first one in the order of the start tags.
-/

namespace Acu.Core.Xml

open CMemory

/-! ## Names and tags -/

def isNameChar (c : UInt8) : Bool :=
  isDigit c || (65 ≤ c && c ≤ 90) || (97 ≤ c && c ≤ 122) || c == 45 || c == 46 || c == 58 ||
    c == 95 || 128 ≤ c

/-- Digits, `-` and `.` do not begin a name. -/
def isNameStart (c : UInt8) : Bool := isNameChar c && !isDigit c && c != 45 && c != 46

def isBlank (c : UInt8) : Bool := c == 32 || c == 9 || c == 10 || c == 13

def Name := { s : Bytes // s.head?.any isNameStart = true ∧ s.all isNameChar = true }

def Blanks := { s : Bytes // s.all isBlank = true }

/-- A value in quotation marks of one kind. -/
structure Attribute where
  before : Blanks
  apart : before.val ≠ []
  name : Name
  beforeEq : Blanks
  behindEq : Blanks
  quote : UInt8
  value : Bytes
  quoted : (quote = 34 ∨ quote = 39) ∧ quote ∉ value
  plain : Plain value

def Attribute.text (a : Attribute) : Bytes :=
  a.before.val ++ (a.name.val ++ (a.beforeEq.val ++ 61 :: (a.behindEq.val ++
    a.quote :: (a.value ++ [a.quote]))))

/-- What stands in a start tag; no two of the attributes have one name. -/
structure Tag where
  name : Name
  attributes : List Attribute
  distinct : (attributes.map fun a => a.name.val).Nodup
  blanks : Blanks

namespace Tag

variable (t : Tag)

/-- What stands behind the name. -/
def rest : Bytes := t.attributes.flatMap Attribute.text ++ t.blanks.val

def startText : Bytes := 60 :: (t.name.val ++ (t.rest ++ [62]))

def emptyText : Bytes := 60 :: (t.name.val ++ (t.rest ++ [47, 62]))

def endText (closing : Blanks) : Bytes := 60 :: 47 :: (t.name.val ++ (closing.val ++ [62]))

end Tag

/-! ## Content -/

def CharData := { s : Bytes // Plain s }

/-- Comments, processing instructions (a declaration is written like one), sections of character
data, and a declaration of the document's type. -/
inductive Misc where
  | comment (body : Bytes) (h : 0 ∉ body ∧ ¬ [45, 45] <:+: body ∧ body.getLast? ≠ some 45)
  | instruction (target : Name) (body : Bytes)
      (h : 0 ∉ body ∧ body.head?.all isBlank = true ∧ ¬ [63, 62] <:+: body)
  | cdata (body : Bytes) (h : 0 ∉ body ∧ ¬ [93, 93, 62] <:+: body)
  | doctype (body : Bytes) (h : 0 ∉ body)

def Misc.text : Misc → Bytes
  | comment body _ => ascii "<!--" ++ (body ++ ascii "-->")
  | instruction target body _ => ascii "<?" ++ (target.val ++ (body ++ ascii "?>"))
  | cdata body _ => ascii "<![CDATA[" ++ (body ++ ascii "]]>")
  | doctype body _ => ascii "<!DOCTYPE" ++ (body ++ ascii ">")

/-- An item of a content and the items behind it. -/
inductive Content where
  | nil
  | text (s : CharData) (rest : Content)
  | misc (m : Misc) (rest : Content)
  | empty (tag : Tag) (rest : Content)
  | element (tag : Tag) (children : Content) (closing : Blanks) (rest : Content)

/-- An element, which has a content and an end tag or is empty. -/
structure Element where
  tag : Tag
  content : Option (Content × Blanks)

namespace Content

def written : Content → Bytes
  | nil => []
  | text s rest => s.val ++ rest.written
  | misc m rest => m.text ++ rest.written
  | empty tag rest => tag.emptyText ++ rest.written
  | element tag children closing rest =>
      tag.startText ++ (children.written ++ tag.endText closing) ++ rest.written

/-- The text of a content that is nothing but text. -/
def plain : Content → Option Bytes
  | nil => some []
  | text s rest => rest.plain.map (s.val ++ ·)
  | _ => none

/-- The first element with a name, and what is written before it. -/
def find (name : Bytes) : Content → Option (Bytes × Element)
  | nil => none
  | text s rest => (rest.find name).map fun r => (s.val ++ r.1, r.2)
  | misc m rest => (rest.find name).map fun r => (m.text ++ r.1, r.2)
  | empty tag rest =>
      if tag.name.val = name then some ([], ⟨tag, none⟩)
      else (rest.find name).map fun r => (tag.emptyText ++ r.1, r.2)
  | element tag children closing rest =>
      if tag.name.val = name then some ([], ⟨tag, some (children, closing)⟩)
      else
        ((children.find name).map fun r => (tag.startText ++ r.1, r.2)).or
          ((rest.find name).map fun r =>
            (tag.startText ++ (children.written ++ tag.endText closing) ++ r.1, r.2))

end Content

namespace Element

variable (e : Element)

def written : Bytes :=
  match e.content with
  | none => e.tag.emptyText
  | some (children, closing) => e.tag.startText ++ (children.written ++ e.tag.endText closing)

/-- The text of an element that holds nothing but text. -/
def plain : Option Bytes :=
  match e.content with
  | none => some []
  | some (children, _) => children.plain

end Element

/-! ## Tags are complete -/

theorem nameChar_markup {c : UInt8} (h : isNameChar c = true) :
    c ≠ 0 ∧ c ≠ 33 ∧ c ≠ 47 ∧ c ≠ 60 ∧ c ≠ 62 ∧ c ≠ 63 := by
  refine ⟨?_, ?_, ?_, ?_, ?_, ?_⟩ <;> (intro hc; rw [hc] at h; revert h; decide)

theorem Name.plain (n : Name) : Plain n.val := by
  constructor
  · intro h
    exact (nameChar_markup (List.all_eq_true.mp n.property.2 60 h)).2.2.2.1 rfl
  · intro h
    exact (nameChar_markup (List.all_eq_true.mp n.property.2 0 h)).1 rfl

/-- A name does not reach over the end of a tag. -/
theorem Name.not_close (n : Name) : 62 ∉ n.val := by
  intro h
  exact (nameChar_markup (List.all_eq_true.mp n.property.2 62 h)).2.2.2.2.1 rfl

theorem Blanks.plain (b : Blanks) : Plain b.val := by
  constructor
  · intro h
    exact absurd (List.all_eq_true.mp b.property 60 h) (by decide)
  · intro h
    exact absurd (List.all_eq_true.mp b.property 0 h) (by decide)

theorem plain_append {s t : Bytes} (hs : Plain s) (ht : Plain t) : Plain (s ++ t) := by
  constructor
  · rw [List.mem_append, not_or]
    exact ⟨hs.1, ht.1⟩
  · rw [List.mem_append, not_or]
    exact ⟨hs.2, ht.2⟩

theorem plain_cons {c : UInt8} {s : Bytes} (hc : c ≠ 60 ∧ c ≠ 0) (hs : Plain s) :
    Plain (c :: s) := by
  constructor
  · rw [List.mem_cons, not_or]
    exact ⟨Ne.symm hc.1, hs.1⟩
  · rw [List.mem_cons, not_or]
    exact ⟨Ne.symm hc.2, hs.2⟩

theorem plain_nil : Plain [] := ⟨List.not_mem_nil, List.not_mem_nil⟩

theorem Attribute.text_plain (a : Attribute) : Plain a.text := by
  have hquote : a.quote ≠ 60 ∧ a.quote ≠ 0 := by
    rcases a.quoted.1 with h | h <;> rw [h] <;> decide
  have hvalue := plain_append a.plain (plain_cons hquote plain_nil)
  have hbehind := plain_append a.behindEq.plain (plain_cons hquote hvalue)
  have heq := plain_append a.beforeEq.plain (plain_cons (c := 61) (by decide) hbehind)
  exact plain_append a.before.plain (plain_append a.name.plain heq)

theorem Tag.rest_plain (t : Tag) : Plain t.rest := by
  refine plain_append ?_ t.blanks.plain
  have hall (as : List Attribute) : Plain (as.flatMap Attribute.text) := by
    induction as with
    | nil => exact plain_nil
    | cons a as ih => exact plain_append a.text_plain ih
  exact hall t.attributes

/-- Markup ends with its `>`. -/
theorem filler_of_end {s : Bytes} (h : 0 ∉ s) : Filler [] (s ++ [62]) where
  text := by
    rw [List.mem_append, not_or]
    exact ⟨h, by decide⟩
  closed := by
    intro u w heq
    rcases List.eq_nil_or_concat w with rfl | ⟨w, c, rfl⟩
    · rw [List.append_singleton_inj] at heq
      exact absurd heq.2 (by decide)
    · have hlast : s ++ [62] = (u ++ 60 :: w) ++ [c] := by rw [heq]; simp
      rw [List.append_singleton_inj] at hlast
      rw [← hlast.2]
      simp
  free := fun name h => absurd h List.not_mem_nil

theorem filler_append {s t : Bytes} (hs : Filler [] s) (ht : Filler [] t) : Filler [] (s ++ t) :=
  hs.append (fun _ h => absurd h List.not_mem_nil) ht

theorem Tag.startText_filler (t : Tag) : Filler [] t.startText := by
  have hplain := plain_append t.name.plain t.rest_plain
  have h := filler_of_end (s := 60 :: (t.name.val ++ t.rest))
    (by rw [List.mem_cons, not_or]; exact ⟨by decide, hplain.2⟩)
  simpa [Tag.startText] using h

theorem Tag.emptyText_filler (t : Tag) : Filler [] t.emptyText := by
  have hplain := plain_append t.name.plain (plain_append t.rest_plain
    (plain_cons (c := 47) (by decide) plain_nil))
  have h := filler_of_end (s := 60 :: (t.name.val ++ (t.rest ++ [47])))
    (by rw [List.mem_cons, not_or]; exact ⟨by decide, hplain.2⟩)
  simpa [Tag.emptyText] using h

theorem Tag.endText_filler (t : Tag) (closing : Blanks) : Filler [] (t.endText closing) := by
  have hplain := plain_cons (c := 47) (by decide) (plain_append t.name.plain closing.plain)
  have h := filler_of_end (s := 60 :: 47 :: (t.name.val ++ closing.val))
    (by rw [List.mem_cons, not_or]; exact ⟨by decide, hplain.2⟩)
  simpa [Tag.endText] using h

theorem Misc.text_filler (m : Misc) : Filler [] m.text := by
  cases m with
  | comment body h =>
      have hend := filler_of_end (s := ascii "<!--" ++ (body ++ ascii "--")) (by
        rw [List.mem_append, List.mem_append, not_or, not_or]
        exact ⟨by decide, h.1, by decide⟩)
      have htext : (Misc.comment body h).text = ascii "<!--" ++ (body ++ ascii "--") ++ [62] := by
        rw [Misc.text, show ascii "-->" = ascii "--" ++ [62] from rfl]
        simp
      rw [htext]
      exact hend
  | instruction target body h =>
      have hend := filler_of_end (s := ascii "<?" ++ (target.val ++ (body ++ ascii "?"))) (by
        rw [List.mem_append, List.mem_append, List.mem_append, not_or, not_or, not_or]
        exact ⟨by decide, target.plain.2, h.1, by decide⟩)
      have htext : (Misc.instruction target body h).text =
          ascii "<?" ++ (target.val ++ (body ++ ascii "?")) ++ [62] := by
        rw [Misc.text, show ascii "?>" = ascii "?" ++ [62] from rfl]
        simp
      rw [htext]
      exact hend
  | cdata body h =>
      have hend := filler_of_end (s := ascii "<![CDATA[" ++ (body ++ ascii "]]")) (by
        rw [List.mem_append, List.mem_append, not_or, not_or]
        exact ⟨by decide, h.1, by decide⟩)
      have htext : (Misc.cdata body h).text =
          ascii "<![CDATA[" ++ (body ++ ascii "]]") ++ [62] := by
        rw [Misc.text, show ascii "]]>" = ascii "]]" ++ [62] from rfl]
        simp
      rw [htext]
      exact hend
  | doctype body h =>
      have hend := filler_of_end (s := ascii "<!DOCTYPE" ++ body) (by
        rw [List.mem_append, not_or]
        exact ⟨by decide, h⟩)
      have htext : (Misc.doctype body h).text = ascii "<!DOCTYPE" ++ body ++ [62] := by
        rw [Misc.text, show ascii ">" = [62] from rfl]
        simp
      rw [htext]
      exact hend

namespace Content

theorem written_filler (x : Content) : Filler [] x.written := by
  induction x with
  | nil => exact Filler.nil []
  | text s rest ih => exact filler_append (Filler.of_plain s.property []) ih
  | misc m rest ih => exact filler_append m.text_filler ih
  | empty tag rest ih => exact filler_append tag.emptyText_filler ih
  | element tag children closing rest ihc ih =>
      have hinner := filler_append ihc (tag.endText_filler closing)
      exact filler_append (filler_append tag.startText_filler hinner) ih

theorem plain_written {x : Content} {c : Bytes} (h : x.plain = some c) :
    x.written = c ∧ Plain c := by
  induction x generalizing c with
  | nil =>
      cases h
      exact ⟨rfl, plain_nil⟩
  | text s rest ih =>
      obtain ⟨d, hd, rfl⟩ := Option.map_eq_some_iff.mp h
      obtain ⟨hwritten, hplain⟩ := ih hd
      exact ⟨by rw [written, hwritten], plain_append s.property hplain⟩
  | misc m rest ih => cases h
  | empty tag rest ih => cases h
  | element tag children closing rest ihc ih => cases h

/-- An element with the name stands in the text, behind markup that is complete. -/
def StandsIn (name text before : Bytes) (e : Element) : Prop :=
  e.tag.name.val = name ∧ Filler [] before ∧ ∃ behind, text = before ++ (e.written ++ behind)

/-- A search that goes on behind `s`. -/
theorem standsIn_behind {name s text before : Bytes} {e : Element}
    {found : Option (Bytes × Element)} (more : Bytes) (hs : Filler [] s)
    (hfound : ∀ {before}, found = some (before, e) → StandsIn name text before e)
    (h : found.map (fun r => (s ++ r.1, r.2)) = some (before, e)) :
    StandsIn name (s ++ (text ++ more)) before e := by
  obtain ⟨r, hr, heq⟩ := Option.map_eq_some_iff.mp h
  cases heq
  obtain ⟨hname, hbefore, behind, rfl⟩ := hfound hr
  exact ⟨hname, filler_append hs hbefore, behind ++ more, by simp⟩

/-- The element that is found has the name, and stands in the text behind markup that is
complete. -/
theorem find_written {name before : Bytes} {e : Element} {x : Content}
    (h : x.find name = some (before, e)) : StandsIn name x.written before e := by
  induction x generalizing before with
  | nil => cases h
  | text s rest ih =>
      have hstands := standsIn_behind [] (Filler.of_plain s.property []) ih h
      rwa [List.append_nil] at hstands
  | misc m rest ih =>
      have hstands := standsIn_behind [] m.text_filler ih h
      rwa [List.append_nil] at hstands
  | empty tag rest ih =>
      rw [find] at h
      split at h
      next hname =>
        cases h
        exact ⟨hname, Filler.nil [], rest.written, rfl⟩
      next =>
        have hstands := standsIn_behind [] tag.emptyText_filler ih h
        rwa [List.append_nil] at hstands
  | element tag children closing rest ihc ih =>
      rw [find] at h
      split at h
      next hname =>
        cases h
        exact ⟨hname, Filler.nil [], rest.written, rfl⟩
      next =>
        have hinner := filler_append children.written_filler (tag.endText_filler closing)
        cases Option.or_eq_some_iff.mp h with
        | inl h =>
            have hstands := standsIn_behind (tag.endText closing ++ rest.written)
              tag.startText_filler ihc h
            simpa [written] using hstands
        | inr h =>
            have hstands := standsIn_behind []
              (filler_append tag.startText_filler hinner) ih h.2
            rwa [List.append_nil] at hstands

end Content

end Acu.Core.Xml
