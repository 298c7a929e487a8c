import Acu.Core.Xml
import Acu.Tools.Utils

/-!
# The text of an element

`getElementData` looks for a `<` with the name of the element behind it, skips one
letter, and takes what stands there up to the next `<`. That is the text of the element
where its start tag is the first place with the name and ends right behind it.
-/

namespace Acu.Tools

open Acu.Core CMemory Xml

/-! ## Elements -/

/-- In a memory that holds the text the call comes to the text of the first element with the name,
inside that element, if it holds nothing but text; and it throws if there is none. -/
def GivesText (pre rest : Bytes) (x : Content) (tag : Name) : Prop :=
  match x.find tag.val with
  | none => getElementData (pre ++ (x.written ++ 0 :: rest)) pre.length tag.val =
      some (pre ++ (x.written ++ 0 :: rest), none)
  | some (before, e) => ∀ c, e.plain = some c → ∃ m p,
      getElementData (pre ++ (x.written ++ 0 :: rest)) pre.length tag.val = some (m, some p) ∧
        stringAt m p = some c ∧ pre.length + before.length < p ∧
        p ≤ pre.length + before.length + e.written.length

/-- Nothing that is written before the element can be taken for it, and its start tag is the name
alone; without an element nothing can be taken for one. -/
def Unmistakable (x : Content) (tag : Name) : Prop :=
  match x.find tag.val with
  | none => ¬ 60 :: tag.val <:+: x.written
  | some (before, e) => e.plain.isSome = true →
      ¬ 60 :: tag.val <:+: before ∧ e.content.isSome = true ∧ e.tag.rest = []

section Element

variable {x : Content} {tag : Name} {before behind : Bytes} {e : Xml.Element}

/-- What is taken for the element before it begins, ends before it does. -/
theorem pointer_before {m' : Bytes} {p : Nat} (pre : Bytes) (hbefore : Filler [] before)
    (hstands : 60 :: tag.val <:+: before)
    (h : getElementData (pre ++ (before ++ behind)) pre.length tag.val = some (m', some p)) :
    p ≤ pre.length + before.length := by
  obtain ⟨u, b, v, rest, hcut, -, rfl⟩ := (getElementData_iff_cut pre m' p).mp h
  obtain ⟨u', v', hthere⟩ := First.exists_of_infix hstands
  obtain ⟨rfl, -⟩ := hcut.first.unique (hthere.extend behind)
  have hclose := hbefore.closed u (tag.val ++ v') hthere.eq
  have hv : v' ≠ [] := by
    intro hnil
    rw [hnil, List.append_nil] at hclose
    exact tag.not_close hclose
  have hlen := congrArg List.length hthere.eq
  have hpos := List.length_pos_iff.mpr hv
  rw [List.length_append, List.length_append, List.length_cons] at hlen
  rw [front_length]
  omega

/-- What the pointer is given to stands behind the skipped letter, up to the next `<`. -/
theorem given_of_behind (pre : Bytes) {m s w c m' : Bytes} {b : UInt8} {p : Nat} (h0 : 0 ∉ s)
    (hfree : ¬ 60 :: tag.val <:+: s) (hm : m = pre ++ (s ++ 60 :: (tag.val ++ b :: w)))
    (h : getElementData m pre.length tag.val = some (m', some p))
    (hstring : stringAt m' p = some c) : ∃ t, w = c ++ 60 :: t ∧ 60 ∉ c := by
  rw [hm] at h
  obtain ⟨s', b', v, t, hcut, rfl, rfl⟩ := (getElementData_iff_cut pre m' p).mp h
  obtain ⟨rfl, hbehind⟩ := hcut.first.unique (first_of_mark tag.plain.1 hfree (b :: w))
  obtain ⟨rfl, rfl⟩ := List.cons.inj hbehind
  cases (stringAt_append (front pre s' tag.val b') hcut.value.2 t).symm.trans hstring
  exact ⟨t, rfl, hcut.value.1⟩

/-- An element whose start tag is its name gives its text. -/
theorem givesText_of_bare (pre rest : Bytes) {c : Bytes} (hname : e.tag.name.val = tag.val)
    (h0 : 0 ∉ before) (hfree : ¬ 60 :: tag.val <:+: before) (hplain : e.plain = some c)
    (hcontent : e.content.isSome = true) (hrest : e.tag.rest = []) :
    ∃ m p, getElementData (pre ++ (before ++ (e.written ++ behind) ++ 0 :: rest)) pre.length
        tag.val = some (m, some p) ∧
      stringAt m p = some c ∧ pre.length + before.length < p ∧
      p ≤ pre.length + before.length + e.written.length := by
  obtain ⟨⟨children, closing⟩, hsome⟩ := Option.isSome_iff_exists.mp hcontent
  rw [Element.plain, hsome] at hplain
  obtain ⟨hwritten, hc⟩ := Content.plain_written hplain
  have htext : e.written = 60 :: (tag.val ++ 62 :: (c ++ e.tag.endText closing)) := by
    rw [Element.written, hsome]
    simp only [Tag.startText, hname, hrest, hwritten]
    simp
  have hmem : pre ++ (before ++ (e.written ++ behind) ++ 0 :: rest) =
      pre ++ (before ++ 60 :: (tag.val ++ 62 :: (c ++ 60 ::
        (47 :: (tag.val ++ (closing.val ++ [62])) ++ behind ++ 0 :: rest)))) := by
    rw [htext, Tag.endText, hname]
    simp
  have hcut := Cut.of_mark h0 hfree tag.plain.1 hc 62
    (47 :: (tag.val ++ (closing.val ++ [62])) ++ behind ++ 0 :: rest)
  have hfound := getElementData_cut pre hcut
  rw [← hmem] at hfound
  refine ⟨_, _, hfound, stringAt_append _ hc.2 _, ?_, ?_⟩
  · rw [front_length]
    omega
  · rw [front_length, htext]
    simp only [List.length_cons, List.length_append]
    omega

section Given

variable {c m' : Bytes} {p : Nat} (pre rest : Bytes) (hname : e.tag.name.val = tag.val)
  (h0 : 0 ∉ before) (hfree : ¬ 60 :: tag.val <:+: before) (hplain : e.plain = some c)
  (h : getElementData (pre ++ (before ++ (e.written ++ behind) ++ 0 :: rest)) pre.length
    tag.val = some (m', some p)) (hstring : stringAt m' p = some c)

include hname h0 hfree hplain h hstring

/-- The text of an empty element is not given, but the end of its tag. -/
theorem content_of_given : e.content.isSome = true := by
  have hrestplain := e.tag.rest_plain
  cases hcontent : e.content with
  | some content => rfl
  | none =>
      exfalso
      rw [Element.plain, hcontent] at hplain
      cases hplain
      -- the letter that is skipped, and the ones behind it up to the end of the tag
      obtain ⟨b, w, hw, hwne, hw60⟩ : ∃ b w, e.tag.rest ++ [47, 62] = b :: w ∧ w ≠ [] ∧ 60 ∉ w := by
        cases hrest : e.tag.rest with
        | nil => exact ⟨47, [62], rfl, by simp, by decide⟩
        | cons b r =>
            refine ⟨b, r ++ [47, 62], rfl, by simp, ?_⟩
            rw [hrest] at hrestplain
            rw [List.mem_append, not_or]
            exact ⟨fun hr => hrestplain.1 (List.mem_cons_of_mem b hr), by decide⟩
      have hmem : pre ++ (before ++ (e.written ++ behind) ++ 0 :: rest) =
          pre ++ (before ++ 60 :: (tag.val ++ b :: (w ++ (behind ++ 0 :: rest)))) := by
        rw [Element.written, hcontent]
        simp only [Tag.emptyText, hname, hw]
        simp
      obtain ⟨t, hv, -⟩ := given_of_behind pre h0 hfree hmem h hstring
      cases w with
      | nil => exact hwne rfl
      | cons d w =>
          obtain ⟨rfl, -⟩ := List.cons.inj hv
          exact hw60 List.mem_cons_self

/-- What stands in a start tag behind the first letter would be given with the text. -/
theorem rest_of_given {children : Content} {closing : Blanks}
    (hcontent : e.content = some (children, closing)) : e.tag.rest = [] := by
  have hrestplain := e.tag.rest_plain
  rw [Element.plain, hcontent] at hplain
  obtain ⟨hwritten, hc⟩ := Content.plain_written hplain
  cases hrest : e.tag.rest with
  | nil => rfl
  | cons b r =>
      exfalso
      rw [hrest] at hrestplain
      have hmem : pre ++ (before ++ (e.written ++ behind) ++ 0 :: rest) =
          pre ++ (before ++ 60 :: (tag.val ++ b :: ((r ++ 62 :: c) ++ 60 ::
            (47 :: (tag.val ++ (closing.val ++ [62])) ++ behind ++ 0 :: rest)))) := by
        rw [Element.written, hcontent]
        simp only [Tag.startText, Tag.endText, hname, hrest, hwritten]
        simp
      obtain ⟨t, hv, hv60⟩ := given_of_behind pre h0 hfree hmem h hstring
      have hlonger : 60 ∉ r ++ 62 :: c := by
        rw [List.mem_append, List.mem_cons, not_or, not_or]
        exact ⟨fun hr => hrestplain.1 (List.mem_cons_of_mem b hr), by decide, hc.1⟩
      obtain ⟨hsame, -⟩ :=
        (first_letter.mpr ⟨hv, hv60⟩).unique (first_letter.mpr ⟨rfl, hlonger⟩)
      have hlen := congrArg List.length hsame
      rw [List.length_append, List.length_cons] at hlen
      omega

/-- One whose text is given has nothing else in its start tag. -/
theorem bare_of_givesText : e.content.isSome = true ∧ e.tag.rest = [] := by
  have hsome := content_of_given pre rest hname h0 hfree hplain h hstring
  obtain ⟨⟨children, closing⟩, hcontent⟩ := Option.isSome_iff_exists.mp hsome
  exact ⟨hsome, rest_of_given pre rest hname h0 hfree hplain h hstring hcontent⟩

end Given

end Element

/-- The text of an element is given precisely when nothing else can be taken for it. -/
theorem gives_text_iff (pre rest : Bytes) (x : Content) (tag : Name) :
    GivesText pre rest x tag ↔ Unmistakable x tag := by
  have h0 := x.written_filler.text
  rw [GivesText, Unmistakable]
  cases hfind : x.find tag.val with
  | none =>
      constructor
      · intro h hstands
        obtain ⟨-, s, t, heq, hs, habsent⟩ := (getElementData_iff_absent pre tag.plain.2 _).mp h
        obtain ⟨rfl, -⟩ :=
          (first_letter.mpr ⟨heq, hs⟩).unique (first_letter.mpr ⟨rfl, h0⟩)
        exact habsent hstands
      · intro h
        exact (getElementData_iff_absent pre tag.plain.2 _).mpr ⟨rfl, x.written, rest, rfl, h0, h⟩
  | some found =>
      obtain ⟨before, e⟩ := found
      obtain ⟨hname, hbefore, behind, hwritten⟩ := Content.find_written hfind
      dsimp only
      rw [hwritten]
      constructor
      · intro h hplain
        obtain ⟨c, hc⟩ := Option.isSome_iff_exists.mp hplain
        obtain ⟨m, p, hget, hstring, hinside, -⟩ := h c hc
        have hfree : ¬ 60 :: tag.val <:+: before := by
          intro hstands
          rw [List.append_assoc] at hget
          have hle := pointer_before pre hbefore hstands hget
          omega
        exact ⟨hfree, bare_of_givesText pre rest hname hbefore.text hfree hc hget hstring⟩
      · intro h c hc
        obtain ⟨hfree, hcontent, hrest⟩ := h (by rw [hc]; rfl)
        exact givesText_of_bare pre rest hname hbefore.text hfree hc hcontent hrest

/-! ## An empty element -/

def noBlanks : Blanks := ⟨[], rfl⟩

def bareTag (name : Name) : Tag := ⟨name, [], List.nodup_nil, noBlanks⟩

def zoneCd : Name := ⟨ascii "ZONE_CD", by decide⟩

/-- `<Table><ZONE_CD /><UTYPE>L</UTYPE></Table>` -/
def tableWithoutZone : Content :=
  .element (bareTag ⟨ascii "Table", by decide⟩)
    (.empty ⟨zoneCd, [], List.nodup_nil, ⟨[32], rfl⟩⟩
      (.element (bareTag ⟨ascii "UTYPE", by decide⟩)
        (.text ⟨ascii "L", by unfold Plain; decide⟩ .nil) noBlanks .nil)) noBlanks .nil

/-- The zone is read as `/>`. -/
theorem empty_zone_misread : ¬ GivesText [] [] tableWithoutZone zoneCd := by
  intro h
  have hwritten : tableWithoutZone.written =
      ascii "<Table><ZONE_CD /><UTYPE>L</UTYPE></Table>" := by decide
  have hfind : tableWithoutZone.find zoneCd.val =
      some (ascii "<Table>", ⟨⟨zoneCd, [], List.nodup_nil, ⟨[32], rfl⟩⟩, none⟩) := by rfl
  rw [GivesText, hfind, hwritten] at h
  obtain ⟨m, p, hget, hstring, -⟩ := h [] rfl
  have hread : getElementData (ascii "<Table><ZONE_CD /><UTYPE>L</UTYPE></Table>" ++ [0]) 0
      (ascii "ZONE_CD") =
      some (ascii "<Table><ZONE_CD />" ++ 0 :: ascii "UTYPE>L</UTYPE></Table>" ++ [0],
        some 16) := by
    decide +kernel
  cases hread.symm.trans hget
  have hgiven : stringAt (ascii "<Table><ZONE_CD />" ++ 0 :: ascii "UTYPE>L</UTYPE></Table>" ++ [0])
      16 = some (ascii "/>") := by
    decide +kernel
  cases hgiven.symm.trans hstring

end Acu.Tools
