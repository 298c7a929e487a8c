import Acu.Core.Decimal
import Acu.Employee.Elements

/-!
# Documents of records

A record as the server writes it, with any of its elements missing, and the
document of a database. The parsers read every element of the record they stand
before, and nothing else.
-/

namespace Acu.Employee

open Acu.Core Acu.Core.CMemory Tools

/-! ## Records as text -/

/-- A record by the values of its elements: the card number fits its field, the type and the
dates are whole. -/
structure Row where
  value : Tag → Option Bytes
  plain : ∀ t v, value t = some v → Plain v
  card : ∃ v, value .RFID_CAR = some v ∧ v.length ≤ 14
  kind : ∃ v, value .UTYPE = some v ∧ v ≠ []
  dates : ∀ t v, t = .ENT_CO_YMD ∨ t = .RTR_CO_YMD → value t = some v →
    v.length = 8 ∧ ∀ c ∈ v, isDigit c = true

/-- The names that begin no tag of a filler, where the parser reads `tags`. -/
def reserved (tags : List Tag) : List Bytes :=
  ascii "Table" :: ascii "/Table" :: (tags ++ [Tag.UTYPE]).map Tag.name

/-- How a record is laid out: the attributes of its tag, and what stands before each element and
behind the last one. -/
structure Layout (tags : List Tag) where
  attributes : Bytes
  before : Tag → Bytes
  last : Bytes
  attributes_plain : Plain attributes
  before_filler : ∀ t, Filler (reserved tags) (before t)
  last_filler : Filler (reserved tags) last

def elementText (t : Tag) (v : Bytes) : Bytes := FlatElement.text ⟨t.name, [], v⟩

namespace Row

variable (row : Row) {tags : List Tag} (layout : Layout tags)

def field (t : Tag) : Bytes := layout.before t ++ (row.value t).elim [] (elementText t)

def fields (ts : List Tag) : Bytes := ts.flatMap (row.field layout)

/-- The record up to its end tag. -/
def text : Bytes :=
  60 :: (ascii "Table" ++ layout.attributes ++ [62]) ++
    (row.fields layout Tag.moving ++ (row.field layout .UTYPE ++ layout.last))

section Filler

variable {layout : Layout tags} {names : List Bytes}

theorem field_filler {t : Tag} (hlike : ∀ name ∈ names, NameLike name)
    (hname : ∀ name ∈ names, ¬ name <+: t.name ∧ ¬ name <+: 47 :: t.name)
    (hbefore : Filler names (layout.before t)) : Filler names (row.field layout t) := by
  have hclosing : ∀ name ∈ names, 62 ∉ name := fun name hn => (hlike name hn).1
  refine hbefore.append hclosing ?_
  cases hv : row.value t with
  | none => exact Filler.nil _
  | some v =>
      have hformed : FlatElement.Formed ⟨t.name, [], v⟩ :=
        ⟨t.name_plain, ⟨by simp, by simp⟩, row.plain t v hv, fun d hd => by cases hd⟩
      exact hformed.filler hlike hname

theorem fields_filler (ts : List Tag) (hlike : ∀ name ∈ names, NameLike name)
    (hname : ∀ t ∈ ts, ∀ name ∈ names, ¬ name <+: t.name ∧ ¬ name <+: 47 :: t.name)
    (hbefore : ∀ t, Filler names (layout.before t)) : Filler names (row.fields layout ts) := by
  induction ts with
  | nil => exact Filler.nil _
  | cons t ts ih =>
      have hfirst := row.field_filler hlike (hname t List.mem_cons_self) (hbefore t)
      have hothers := ih fun u hu => hname u (List.mem_cons_of_mem _ hu)
      exact hfirst.append (fun name hn => (hlike name hn).1) hothers

end Filler

end Row

/-! ## Fillers -/

/-- Other elements may stand anywhere, if their names begin with none of those that are read. -/
theorem reserved_flat {tags : List Tag} {e : FlatElement} (h : e.Formed)
    (htags : ∀ t ∈ tags ++ [Tag.UTYPE], ¬ t.name <+: e.name) (htable : ¬ ascii "Table" <+: e.name)
    (hend : e.name.head? ≠ some 47) : Filler (reserved tags) e.text := by
  have hslash {name : Bytes} : ¬ 47 :: name <+: e.name := by
    intro h
    rcases h with ⟨rest, hrest⟩
    exact hend (by rw [← hrest]; rfl)
  refine h.filler (fun name hn => ?_) fun name hn => ?_
  · simp only [reserved, List.mem_cons, List.mem_map] at hn
    obtain rfl | rfl | ⟨t, -, rfl⟩ := hn
    · decide
    · decide
    · exact t.name_nameLike
  · simp only [reserved, List.mem_cons, List.mem_map] at hn
    obtain rfl | rfl | ⟨t, ht, rfl⟩ := hn
    · exact ⟨htable, fun hp => by cases (List.cons_prefix_cons.mp hp).1⟩
    · exact ⟨hslash, fun hp => htable (List.cons_prefix_cons.mp hp).2⟩
    · exact ⟨htags t ht, t.not_prefix_end _⟩

theorem reserved_append {tags : List Tag} {s t : Bytes} (hs : Filler (reserved tags) s)
    (ht : Filler (reserved tags) t) : Filler (reserved tags) (s ++ t) := by
  refine hs.append (fun name hn => ?_) ht
  simp only [reserved, List.mem_cons, List.mem_map] at hn
  obtain rfl | rfl | ⟨u, -, rfl⟩ := hn
  · decide
  · decide
  · exact u.name_nameLike.1

/-! ## Texts without certain tags -/

/-- A text in which no tag of `ts` is found, and behind which none can have begun. -/
def Passed (ts : List Tag) (s : Bytes) : Prop := Filler (ts.map Tag.name) s

namespace Passed

variable {ts us : List Tag} {s t : Bytes}

theorem nameLike {name : Bytes} (hn : name ∈ ts.map Tag.name) : NameLike name := by
  obtain ⟨t, -, rfl⟩ := List.mem_map.mp hn
  exact t.name_nameLike

theorem append (hs : Passed ts s) (ht : Passed ts t) : Passed ts (s ++ t) :=
  Filler.append (fun _ hn => (nameLike hn).1) hs ht

theorem sub (h : Passed ts s) (hsub : us ⊆ ts) : Passed us s :=
  h.mono (List.map_subset _ hsub)

theorem free {tag : Tag} (h : Passed ts s) (ht : tag ∈ ts) : ¬ 60 :: tag.name <:+: s :=
  Filler.free h _ (List.mem_map_of_mem ht)

theorem apart {tag : Tag} (ht : tag ∉ ts) :
    ∀ name ∈ ts.map Tag.name, ¬ name <+: tag.name ∧ ¬ name <+: 47 :: tag.name := by
  intro name hn
  obtain ⟨u, hu, rfl⟩ := List.mem_map.mp hn
  have hne : u ≠ tag := fun h => ht (h ▸ hu)
  exact ⟨Tag.not_prefix_name hne, u.not_prefix_end _⟩

variable {row : Row} {tags : List Tag} {layout : Layout tags}

theorem field (row : Row) {tag : Tag} (hbefore : Passed ts (layout.before tag)) (ht : tag ∉ ts) :
    Passed ts (row.field layout tag) :=
  row.field_filler (fun _ => nameLike) (apart ht) hbefore

theorem fields {us : List Tag} (hbefore : ∀ t, Passed ts (layout.before t))
    (hus : ∀ t ∈ us, t ∉ ts) : Passed ts (row.fields layout us) :=
  row.fields_filler us (fun _ => nameLike) (fun t ht => apart (hus t ht)) hbefore

end Passed

/-! ## Reading a record -/

section Reading

variable (signedChar : Bool) (row : Row) {tags : List Tag} (layout : Layout tags)

/-- The cursor goes through the elements it looks for, past all others. -/
theorem readAll_fields (keep : Tag → Bool) (ts : List Tag) (hnodup : (ts ++ [Tag.UTYPE]).Nodup)
    (hread : ∀ t v, keep t = true → row.value t = some v → Readable signedChar t v)
    (pre lead tail rest : Bytes) (ei : EmployeeInfo)
    (hlead : Passed (ts.filter keep ++ [Tag.UTYPE]) lead)
    (hbefore : ∀ t, Passed (ts.filter keep ++ [Tag.UTYPE]) (layout.before t))
    (htail : Passed (ts.filter keep) tail) :
    ∃ pre' lead', Cursor.readAll signedChar (ts.filter keep)
        ⟨pre ++ (lead ++ (row.fields layout ts ++ (tail ++ 0 :: rest))), pre.length, ei⟩ =
      some ⟨pre' ++ (lead' ++ (tail ++ 0 :: rest)), pre'.length,
        ei.assignAll signedChar row.value (ts.filter keep)⟩ ∧ Passed [Tag.UTYPE] lead' := by
  induction ts generalizing pre lead ei with
  | nil => exact ⟨pre, lead, rfl, hlead⟩
  | cons t ts ih =>
      obtain ⟨hnew, hrest⟩ : t ∉ ts ++ [Tag.UTYPE] ∧ (ts ++ [Tag.UTYPE]).Nodup :=
        List.nodup_cons.mp hnodup
      have hkept : t ∉ ts.filter keep ++ [Tag.UTYPE] := by
        simp only [List.mem_append, List.mem_filter] at hnew ⊢
        tauto
      have hfields : row.fields layout (t :: ts) = row.field layout t ++ row.fields layout ts := by
        simp [Row.fields]
      cases hk : keep t with
      | false =>
          have hfilter : (t :: ts).filter keep = ts.filter keep := by simp [hk]
          rw [hfilter] at hlead hbefore htail ⊢
          have hpast := hlead.append (Passed.field row (hbefore t) hkept)
          obtain ⟨pre', lead', hrun, hlead'⟩ := ih hrest pre (lead ++ row.field layout t) ei
            hpast hbefore htail
          refine ⟨pre', lead', ?_, hlead'⟩
          rw [← hrun, hfields]
          simp
      | true =>
          have hfilter : (t :: ts).filter keep = t :: ts.filter keep := by simp [hk]
          rw [hfilter] at hlead hbefore htail ⊢
          have hbehind : ts.filter keep ++ [Tag.UTYPE] ⊆ t :: ts.filter keep ++ [Tag.UTYPE] := by
            simp
          have hself : [t] ⊆ t :: ts.filter keep ++ [Tag.UTYPE] := by simp
          have hmark : Passed [t] (lead ++ layout.before t) :=
            (hlead.sub hself).append ((hbefore t).sub hself)
          have hbefore' := fun u => (hbefore u).sub hbehind
          have htail' : Passed (ts.filter keep) tail := htail.sub (by simp)
          cases hv : row.value t with
          | none =>
              have hothers : Passed [t] (row.fields layout ts) := by
                refine Passed.fields (fun u => (hbefore u).sub hself) fun u hu hut => ?_
                obtain rfl : u = t := by simpa using hut
                exact hnew (by simp [hu])
              have hall := hmark.append (hothers.append (htail.sub (by simp)))
              have hstep := Cursor.read_missing signedChar ei t pre rest
                hall.text (hall.free (by simp))
              obtain ⟨pre', lead', hrun, hlead'⟩ := ih hrest pre (lead ++ layout.before t) ei
                ((hlead.sub hbehind).append (hbefore' t)) hbefore' htail'
              refine ⟨pre', lead', ?_, hlead'⟩
              have hmem : pre ++ (lead ++ (row.fields layout (t :: ts) ++ (tail ++ 0 :: rest))) =
                  pre ++ (lead ++ layout.before t ++ (row.fields layout ts ++ tail) ++
                    0 :: rest) := by
                simp [hfields, Row.field, hv]
              rw [hmem, Cursor.readAll, hstep, EmployeeInfo.assignAll_cons, hv,
                EmployeeInfo.assign_none, ← hrun]
              simp
          | some v =>
              obtain ⟨mid, hstep⟩ := Cursor.read_found signedChar ei
                (fun h => hnew (by simp [h])) pre
                (47 :: (t.name ++ [62]) ++ (row.fields layout ts ++ (tail ++ 0 :: rest)))
                hmark.text (hmark.free (by simp)) (row.plain t v hv) (hread t v hk hv)
              have hend : Passed (ts.filter keep ++ [Tag.UTYPE]) (47 :: (t.name ++ [62])) := by
                refine Filler.of_plain ⟨?_, ?_⟩ _
                · simpa using t.name_plain.1
                · simpa using t.name_plain.2
              obtain ⟨pre', lead', hrun, hlead'⟩ := ih hrest mid (47 :: (t.name ++ [62]))
                (ei.assign signedChar t (some v)) hend hbefore' htail'
              refine ⟨pre', lead', ?_, hlead'⟩
              have hmem : pre ++ (lead ++ (row.fields layout (t :: ts) ++ (tail ++ 0 :: rest))) =
                  pre ++ (lead ++ layout.before t ++ 60 :: (t.name ++ 62 :: (v ++ 60 :: (47 ::
                    (t.name ++ [62]) ++ (row.fields layout ts ++ (tail ++ 0 :: rest)))))) := by
                simp [hfields, Row.field, hv, elementText, FlatElement.text]
              rw [hmem, Cursor.readAll, hstep, EmployeeInfo.assignAll_cons, hv, ← hrun]
              simp

theorem names_subset_reserved {ts : List Tag} (hts : ts ⊆ tags ++ [Tag.UTYPE]) :
    ts.map Tag.name ⊆ reserved tags := fun _ hn =>
  List.mem_cons_of_mem _ (List.mem_cons_of_mem _ (List.map_subset _ hts hn))

theorem Layout.passed_before (layout : Layout tags) {ts : List Tag}
    (hts : ts ⊆ tags ++ [Tag.UTYPE]) (t : Tag) : Passed ts (layout.before t) :=
  (layout.before_filler t).mono (names_subset_reserved hts)

theorem Layout.passed_last (layout : Layout tags) {ts : List Tag}
    (hts : ts ⊆ tags ++ [Tag.UTYPE]) : Passed ts layout.last :=
  layout.last_filler.mono (names_subset_reserved hts)

/-- The tag of the record itself. -/
theorem Layout.passed_tag (layout : Layout tags) (ts : List Tag) :
    Passed ts (60 :: (ascii "Table" ++ layout.attributes ++ [62])) := by
  refine Filler.tag ⟨?_, ?_⟩ fun name hn => ?_
  · simpa using ⟨by decide, layout.attributes_plain.1⟩
  · simpa using ⟨by decide, layout.attributes_plain.2⟩
  · obtain ⟨t, -, rfl⟩ := List.mem_map.mp hn
    exact t.not_prefix_table _

/-- All of a record is read, up to the NUL behind it. -/
theorem read_row (keep : Tag → Bool) (hkeep : Tag.moving.filter keep ⊆ tags)
    (hread : ∀ t v, keep t = true → row.value t = some v → Readable signedChar t v)
    (pre closing rest : Bytes) (ei : EmployeeInfo)
    (hclosing : Passed (Tag.moving.filter keep) closing) :
    ∃ pre' p, (Cursor.readAll signedChar (Tag.moving.filter keep)
        ⟨pre ++ (row.text layout ++ (closing ++ 0 :: rest)), pre.length, ei⟩).bind Cursor.utype =
      some ⟨pre' ++ 0 :: rest, p,
        ei.assignAll signedChar row.value (Tag.moving.filter keep ++ [.UTYPE])⟩ := by
  rcases row.kind with ⟨v, hv, hne⟩
  have hmoving : Tag.moving.filter keep ⊆ tags ++ [Tag.UTYPE] :=
    List.subset_append_of_subset_left _ hkeep
  have hall : Tag.moving.filter keep ++ [Tag.UTYPE] ⊆ tags ++ [Tag.UTYPE] :=
    List.append_subset.mpr ⟨hmoving, by simp⟩
  have hlast : Tag.UTYPE ∉ Tag.moving.filter keep := by
    simp [Tag.moving]
  have hbefore := layout.passed_before hall
  have htail : Passed (Tag.moving.filter keep)
      (row.field layout .UTYPE ++ layout.last ++ closing) :=
    ((Passed.field row (layout.passed_before hmoving .UTYPE) hlast).append
      (layout.passed_last hmoving)).append hclosing
  obtain ⟨mid, lead, hrun, hlead⟩ := readAll_fields signedChar row layout keep Tag.moving
    (by decide) hread pre (60 :: (ascii "Table" ++ layout.attributes ++ [62]))
    (row.field layout .UTYPE ++ layout.last ++ closing) rest ei (layout.passed_tag _) hbefore htail
  have hself : [Tag.UTYPE] ⊆ tags ++ [Tag.UTYPE] := by simp
  have hmark : Passed [Tag.UTYPE] (lead ++ layout.before .UTYPE) :=
    hlead.append (layout.passed_before hself .UTYPE)
  obtain ⟨pre', p, hstep⟩ := Cursor.utype_found signedChar
    (ei.assignAll signedChar row.value (Tag.moving.filter keep)) mid
    (47 :: (Tag.UTYPE.name ++ [62]) ++ (layout.last ++ (closing ++ 0 :: rest)))
    hmark.text (hmark.free (by simp)) (row.plain _ v hv) hne
  refine ⟨pre' ++ (47 :: (Tag.UTYPE.name ++ [62]) ++ (layout.last ++ closing)), p, ?_⟩
  have hmem : pre ++ (row.text layout ++ (closing ++ 0 :: rest)) =
      pre ++ (60 :: (ascii "Table" ++ layout.attributes ++ [62]) ++ (row.fields layout Tag.moving ++
        (row.field layout .UTYPE ++ layout.last ++ closing ++ 0 :: rest))) := by
    simp [Row.text]
  have hmem' : mid ++ (lead ++ (row.field layout .UTYPE ++ layout.last ++ closing ++ 0 :: rest)) =
      mid ++ (lead ++ layout.before .UTYPE ++ 60 :: (Tag.UTYPE.name ++ 62 :: (v ++ 60 ::
        (47 :: (Tag.UTYPE.name ++ [62]) ++ (layout.last ++ (closing ++ 0 :: rest)))))) := by
    simp [Row.field, hv, elementText, FlatElement.text]
  rw [hmem, hrun, Option.bind_some, hmem', hstep, EmployeeInfo.assignAll_append]
  simp [EmployeeInfo.assignAll, hv]

end Reading

/-! ## Documents -/

/-- A record in its place: what stands in front of it begins no record. -/
structure Entry where
  gap : Bytes
  layout : Layout offlineTags
  row : Row
  gap_text : 0 ∉ gap
  gap_free : ¬ 60 :: ascii "Table" <:+: gap

/-- A document of records, up to its NUL. -/
structure Document where
  entries : List Entry
  last : Bytes
  last_text : 0 ∉ last
  last_free : ¬ 60 :: ascii "Table" <:+: last

def Entry.text (e : Entry) : Bytes := e.gap ++ (e.row.text e.layout ++ ascii "</Table>")

namespace Document

def rows (doc : Document) : List Row := doc.entries.map Entry.row

def text (doc : Document) : Bytes := doc.entries.flatMap Entry.text ++ doc.last

end Document

namespace Row

/-- The record that is read, in the block it is built in. -/
def info (row : Row) (block : Uninit) : EmployeeInfo :=
  (EmployeeInfo.new block).assignAll false row.value (offlineTags ++ [.UTYPE])

/-- The records of a document, the first in the block of index `i`. -/
def infos (blocks : Nat → Uninit) : Nat → List Row → List EmployeeInfo
  | _, [] => []
  | i, row :: rows => row.info (blocks i) :: infos blocks (i + 1) rows

theorem readable (row : Row) (signedChar : Bool) {t : Tag} {v : Bytes} (hv : row.value t = some v)
    (ht : t ≠ .PHOTO_IMAGE) : Readable signedChar t v := by
  cases t with
  | ENT_CO_YMD => exact (row.dates _ v (.inl rfl) hv).1
  | RTR_CO_YMD => exact (row.dates _ v (.inr rfl) hv).1
  | PHOTO_IMAGE => exact absurd rfl ht
  | UTYPE =>
      rcases row.kind with ⟨u, hu, hne⟩
      obtain rfl : u = v := Option.some.inj (hu.symm.trans hv)
      exact hne
  | _ => trivial

/-- The end tag of a record is not found inside it. -/
theorem end_filler (row : Row) {tags : List Tag} (layout : Layout tags) :
    Filler [ascii "/Table"]
      (row.fields layout Tag.moving ++ (row.field layout .UTYPE ++ layout.last)) := by
  have hsub : [ascii "/Table"] ⊆ reserved tags := by simp [reserved]
  have hlike : ∀ name ∈ [ascii "/Table"], NameLike name := by decide
  have hname (t : Tag) : ∀ name ∈ [ascii "/Table"],
      ¬ name <+: t.name ∧ ¬ name <+: 47 :: t.name := by
    cases t <;> decide
  have hbefore := fun t => (layout.before_filler t).mono hsub
  have hclosing : ∀ name ∈ [ascii "/Table"], 62 ∉ name := by decide
  have hfields := row.fields_filler Tag.moving hlike (fun t _ => hname t) hbefore
  have hfield := row.field_filler hlike (hname .UTYPE) (hbefore .UTYPE)
  exact hfields.append hclosing (hfield.append hclosing (layout.last_filler.mono hsub))

theorem nul_not_mem_text (row : Row) {tags : List Tag} (layout : Layout tags) :
    0 ∉ row.text layout := by
  have hbefore (t : Tag) : Filler [] (layout.before t) :=
    (layout.before_filler t).mono (List.nil_subset _)
  have hlike : ∀ name ∈ ([] : List Bytes), NameLike name := fun _ h => nomatch h
  have hfields := row.fields_filler Tag.moving hlike (fun _ _ _ h => nomatch h) hbefore
  have hkind := row.field_filler (t := .UTYPE) hlike (fun _ h => nomatch h) (hbefore .UTYPE)
  have hattributes := layout.attributes_plain.2
  have hname : 0 ∉ ascii "Table" := by decide
  rw [Row.text]
  simp only [List.mem_append, List.mem_cons, List.not_mem_nil, or_false, not_or]
  exact ⟨⟨by decide, ⟨hname, hattributes⟩, by decide⟩, hfields.text, hkind.text,
    layout.last_filler.text⟩

end Row

theorem Document.nul_not_mem_text (doc : Document) : 0 ∉ doc.text := by
  rw [Document.text, List.mem_append, not_or]
  refine ⟨fun h => ?_, doc.last_text⟩
  obtain ⟨e, -, he⟩ := List.mem_flatMap.mp h
  have hend : 0 ∉ ascii "</Table>" := by decide
  rw [Entry.text, List.mem_append, List.mem_append] at he
  rcases he with hgap | hrow | hclosing
  · exact e.gap_text hgap
  · exact e.row.nul_not_mem_text e.layout hrow
  · exact hend hclosing

theorem offlineTags_eq : Tag.moving.filter (· ≠ .PHOTO_IMAGE) = offlineTags := by decide

/-- The body of the loop reads the record it stands before. -/
theorem fillRecord_row (row : Row) (layout : Layout offlineTags) (pre rest : Bytes)
    (block : Uninit) :
    ∃ pre' p, fillRecord ⟨pre ++ (row.text layout ++ 0 :: rest), pre.length,
        EmployeeInfo.new block⟩ = some ⟨pre' ++ 0 :: rest, p, row.info block⟩ := by
  have hread := read_row false row layout
    (fun t => decide (t ≠ .PHOTO_IMAGE)) (by rw [offlineTags_eq]; exact List.Subset.refl _)
    (fun t v ht hv => row.readable false hv (of_decide_eq_true ht)) pre [] rest
    (EmployeeInfo.new block) (Filler.nil _)
  rw [offlineTags_eq] at hread
  rw [fillRecord_eq false]
  exact hread

/-- The search for a record passes over a text that begins none. -/
theorem strstr_table (row : Row) {tags : List Tag} (layout : Layout tags) (pre : Bytes)
    {gap : Bytes} (h0 : 0 ∉ gap) (hfree : ¬ 60 :: ascii "Table" <:+: gap) (rest : Bytes) :
    strstr (pre ++ (gap ++ (row.text layout ++ rest))) pre.length (ascii "<Table") =
      some (some (pre.length + gap.length)) := by
  have htag : row.text layout ++ rest =
      60 :: (ascii "Table" ++ ((row.text layout).drop 6 ++ rest)) := rfl
  rw [htag]
  exact strstr_found_behind pre _ h0 hfree (by decide)

/-- The search for the end tag, which begins behind the first letter after the name. -/
theorem strstr_end (row : Row) {tags : List Tag} (layout : Layout tags) (pre rest : Bytes) :
    strstr (pre ++ (row.text layout ++ 60 :: (ascii "/Table" ++ rest))) (pre.length + 7)
        (60 :: ascii "/Table") =
      some (some (pre.length + (row.text layout).length)) := by
  let body := row.fields layout Tag.moving ++ (row.field layout .UTYPE ++ layout.last)
  have hbody : Filler [ascii "/Table"] body := row.end_filler layout
  obtain ⟨x, head, hx⟩ : ∃ x head, layout.attributes ++ [62] = x :: head := by
    cases layout.attributes with
    | nil => exact ⟨62, [], rfl⟩
    | cons x attributes => exact ⟨x, attributes ++ [62], rfl⟩
  have hattributes : Plain (x :: head) := by
    rw [← hx]
    exact ⟨by simpa using layout.attributes_plain.1, by simpa using layout.attributes_plain.2⟩
  obtain ⟨hmark, hnul⟩ : 60 ∉ head ∧ 0 ∉ head :=
    ⟨fun h => hattributes.1 (List.mem_cons_of_mem _ h),
      fun h => hattributes.2 (List.mem_cons_of_mem _ h)⟩
  let start := pre ++ 60 :: (ascii "Table" ++ [x])
  have hlen : start.length = pre.length + 7 := by
    have hname : (ascii "Table").length = 5 := rfl
    simp [start, hname]
  have htext : row.text layout = 60 :: (ascii "Table" ++ [x]) ++ (head ++ body) := by
    simp [Row.text, body, hx]
  have hmem : pre ++ (row.text layout ++ 60 :: (ascii "/Table" ++ rest)) =
      start ++ ((head ++ body) ++ 60 :: (ascii "/Table" ++ rest)) := by
    simp [htext, start]
  have hfound := strstr_found_behind start rest (s := head ++ body)
    (by simpa using ⟨hnul, hbody.text⟩)
    (not_infix_append hmark (hbody.free _ List.mem_cons_self)) (by decide)
  rw [← hlen, hmem, hfound, htext]
  simp [start]
  omega

/-- One round of the loop. -/
theorem fillLoop_entry (blocks : Nat → Uninit) (e : Entry) (fuel : Nat) (pre rest : Bytes)
    (elems : List EmployeeInfo) :
    ∃ pre', fillLoop blocks (fuel + 1) (pre ++ (e.text ++ rest)) pre.length elems =
      fillLoop blocks fuel (pre' ++ rest) pre'.length
        (elems ++ [e.row.info (blocks elems.length)]) := by
  have hmem : pre ++ (e.text ++ rest) =
      (pre ++ e.gap) ++ (e.row.text e.layout ++ 60 :: (ascii "/Table" ++ 62 :: rest)) := by
    have hend : ascii "</Table>" = 60 :: (ascii "/Table" ++ [62]) := rfl
    simp [Entry.text, hend]
  have hopen := strstr_table e.row e.layout pre e.gap_text e.gap_free
    (60 :: (ascii "/Table" ++ 62 :: rest))
  rw [← List.append_assoc, ← hmem, ← List.length_append] at hopen
  have hclose := strstr_end e.row e.layout (pre ++ e.gap) (62 :: rest)
  have hcut := store_behind (pre ++ e.gap) (e.row.text e.layout) 60 0
    (ascii "/Table" ++ 62 :: rest)
  obtain ⟨pre', p, hrow⟩ := fillRecord_row e.row e.layout (pre ++ e.gap)
    (ascii "/Table" ++ 62 :: rest) (blocks elems.length)
  have hsize := fillRecord_keepsSize _ _ hrow
  have hcursor : (pre ++ e.gap).length + (e.row.text e.layout).length + 8 =
      (pre' ++ 0 :: (ascii "/Table" ++ [62])).length := by
    have hname : (ascii "/Table").length = 6 := rfl
    simp only [List.length_append, List.length_cons, List.length_nil, hname] at hsize ⊢
    omega
  have hnext : pre' ++ 0 :: (ascii "/Table" ++ 62 :: rest) =
      (pre' ++ 0 :: (ascii "/Table" ++ [62])) ++ rest := by simp
  have hkey : ascii "</Table" = 60 :: ascii "/Table" := rfl
  refine ⟨pre' ++ 0 :: (ascii "/Table" ++ [62]), ?_⟩
  rw [fillLoop, hkey, hopen, hmem]
  simp only [Option.bind_eq_bind, Option.bind_some, hclose, hcut, hrow, hcursor, hnext]

theorem fillLoop_entries (blocks : Nat → Uninit) {last : Bytes} (h0 : 0 ∉ last)
    (hfree : ¬ 60 :: ascii "Table" <:+: last) (tail : Bytes) (entries : List Entry) (fuel : Nat)
    (pre : Bytes) (elems : List EmployeeInfo) (hfuel : entries.length < fuel) :
    fillLoop blocks fuel (pre ++ (entries.flatMap Entry.text ++ (last ++ 0 :: tail))) pre.length
        elems =
      some (elems ++ Row.infos blocks elems.length (entries.map Entry.row)) := by
  induction entries generalizing fuel pre elems with
  | nil =>
      cases fuel with
      | zero => omega
      | succ fuel =>
          have hnone := strstr_missing pre tail h0 hfree (by decide)
          have hkey : ascii "<Table" = 60 :: ascii "Table" := rfl
          simp only [List.flatMap_nil, List.nil_append, fillLoop, hkey, hnone]
          simp [Row.infos]
  | cons e entries ih =>
      cases fuel with
      | zero => omega
      | succ fuel =>
          obtain ⟨pre', hround⟩ := fillLoop_entry blocks e fuel pre
            (entries.flatMap Entry.text ++ (last ++ 0 :: tail)) elems
          have hrest := ih fuel pre' (elems ++ [e.row.info (blocks elems.length)])
            (by simpa using hfuel)
          rw [List.flatMap_cons, List.append_assoc, hround, hrest]
          simp [Row.infos]

/-- The records of a document are appended one for one, in order. -/
theorem fillEmployeeInfoes_text (blocks : Nat → Uninit) (doc : Document) (tail : Bytes)
    (elems : List EmployeeInfo) :
    fillEmployeeInfoes blocks (doc.text ++ 0 :: tail) elems =
      some (elems ++ Row.infos blocks elems.length doc.rows) := by
  have hfuel : doc.entries.length < (doc.text ++ 0 :: tail).length + 1 := by
    have hle : doc.entries.length ≤ (doc.entries.flatMap Entry.text).length := by
      induction doc.entries with
      | nil => simp
      | cons e entries ih =>
          simp only [List.flatMap_cons, List.length_append, List.length_cons, Entry.text,
            Row.text]
          omega
    simp only [Document.text, List.length_append]
    omega
  have h := fillLoop_entries blocks doc.last_text doc.last_free tail doc.entries _ [] elems hfuel
  rw [fillEmployeeInfoes, Document.text, List.append_assoc]
  simpa [Document.rows, Document.text] using h

/-! ## What a record carries -/

/-- The number a text of digits stands for. -/
def number (v : Bytes) : Nat := v.foldl (fun n c => 10 * n + (c.toNat - 48)) 0

/-- The day `YYYYMMDD`. -/
def calendarDay (v : Bytes) : Date :=
  ⟨number (v.take 4), number ((v.drop 4).take 2), number ((v.drop 6).take 2)⟩

/-- A record holds the values of the row, and nothing where the row has none. -/
structure Row.CarriedBy (row : Row) (ei : EmployeeInfo) : Prop where
  pin_no : ei.pin_no = (row.value .PIN_NO).getD []
  lab_no : ei.lab_no = (row.value .LAB_NO).getD []
  lab_name : ei.lab_name = (row.value .LAB_NM).getD []
  company_name : ei.company_name = (row.value .CO_NM).getD []
  serial_number : cstring ei.serial_number.val = row.value .RFID_CAR
  in_out_gb : ei.in_out_gb = (row.value .IN_OUT_GB).getD []
  zone_code : ei.zone_code = (row.value .ZONE_CD).getD []
  ent_co_ymd : ei.ent_co_ymd = (row.value .ENT_CO_YMD).map calendarDay
  rtr_co_ymd : ei.rtr_co_ymd = (row.value .RTR_CO_YMD).map calendarDay
  utype : some ei.utype = (row.value .UTYPE).bind List.head?

/-! ### Dates -/

/-- Up to four digits are read as the number they stand for. -/
theorem atoi_digits {ds : Bytes} (h : ∀ c ∈ ds, isDigit c = true) (hlen : ds.length ≤ 4) :
    atoi ds = number ds := by
  have hvalue : (digitsValue 0 ds : Int) = number ds := by
    rw [digitsValue_eq h, number]
  have hlt : digitsValue 0 ds < 2147483647 := by
    have hbound := digitsValue_lt h 0
    have hpow : 10 ^ ds.length ≤ 10 ^ 4 := Nat.pow_le_pow_right (by decide) hlen
    omega
  have hsign := atoi_number (fun c hc => absurd hc List.not_mem_nil) h
    fun c hc => absurd hc List.not_mem_nil
  rw [List.nil_append, List.append_nil] at hsign
  rw [hsign, hvalue]
  omega

theorem dateOf_eq {v : Bytes} (h : ∀ c ∈ v, isDigit c = true) : dateOf v = calendarDay v := by
  have htwo (k : Nat) : atoi ((v.drop k).take 2) = number ((v.drop k).take 2) := by
    apply atoi_digits
    · exact fun c hc => h c (List.mem_of_mem_drop (List.mem_of_mem_take hc))
    · rw [List.length_take]
      omega
  have hyear : atoi (v.take 4) = number (v.take 4) := by
    apply atoi_digits
    · exact fun c hc => h c (List.mem_of_mem_take hc)
    · rw [List.length_take]
      omega
  rw [dateOf, hyear, htwo, htwo]
  rfl

/-! ### Records -/

namespace Row

variable (row : Row)

theorem date_value {t : Tag} (ht : t = .ENT_CO_YMD ∨ t = .RTR_CO_YMD) :
    (row.value t).map dateOf = (row.value t).map calendarDay := by
  cases hv : row.value t with
  | none => rfl
  | some v => rw [Option.map_some, Option.map_some, dateOf_eq (row.dates t v ht hv).2]

theorem info_carries (block : Uninit) : row.CarriedBy (row.info block) where
  pin_no := rfl
  lab_no := rfl
  lab_name := rfl
  company_name := rfl
  serial_number := by
    rcases row.card with ⟨v, hv, hlen⟩
    have hserial : (row.info block).serial_number =
        (row.value .RFID_CAR).elim block.serial_number fun s =>
          strncpy block.serial_number s 15 serial_fits := rfl
    rw [hserial, hv, Option.elim_some, cstring_strncpy _ _ (row.plain _ v hv).2 (by omega)]
  in_out_gb := rfl
  zone_code := rfl
  ent_co_ymd := by
    rw [← row.date_value (.inl rfl)]
    exact Option.or_none
  rtr_co_ymd := by
    rw [← row.date_value (.inr rfl)]
    exact Option.or_none
  utype := by
    rcases row.kind with ⟨v, hv, hne⟩
    have hutype : (row.info block).utype = ((row.value .UTYPE).bind List.head?).getD block.utype :=
      rfl
    cases v with
    | nil => exact absurd rfl hne
    | cons b v =>
        rw [hutype, hv]
        rfl

theorem infos_append (blocks : Nat → Uninit) (i : Nat) (before after : List Row) :
    infos blocks i (before ++ after) =
      infos blocks i before ++ infos blocks (i + before.length) after := by
  induction before generalizing i with
  | nil => rfl
  | cons row before ih =>
      rw [List.cons_append, infos, ih, infos, List.cons_append, List.length_cons,
        Nat.add_assoc, Nat.add_comm 1]

theorem mem_infos {blocks : Nat → Uninit} {i : Nat} {rows : List Row} {ei : EmployeeInfo}
    (h : ei ∈ infos blocks i rows) : ∃ row ∈ rows, row.CarriedBy ei := by
  induction rows generalizing i with
  | nil => cases h
  | cons row rows ih =>
      cases List.mem_cons.mp h with
      | inl heq =>
          rw [heq]
          exact ⟨row, List.mem_cons_self, row.info_carries (blocks i)⟩
      | inr hmem =>
          obtain ⟨row', hrow, hcarried⟩ := ih hmem
          exact ⟨row', List.mem_cons_of_mem _ hrow, hcarried⟩

theorem infos_carry (blocks : Nat → Uninit) (i : Nat) (rows : List Row) :
    List.Forall₂ CarriedBy rows (infos blocks i rows) := by
  induction rows generalizing i with
  | nil => exact .nil
  | cons row rows ih => exact .cons (row.info_carries (blocks i)) (ih (i + 1))

end Row

/-- The records of a document, whatever its records lack and whatever stands between their
elements, are appended one for one and in order, each with its own values. -/
theorem fillEmployeeInfoes_document (blocks : Nat → Uninit) (doc : Document) (tail : Bytes)
    (elems : List EmployeeInfo) :
    ∃ recs, fillEmployeeInfoes blocks (doc.text ++ 0 :: tail) elems = some (elems ++ recs) ∧
      List.Forall₂ Row.CarriedBy doc.rows recs :=
  ⟨_, fillEmployeeInfoes_text blocks doc tail elems, Row.infos_carry blocks _ doc.rows⟩

end Acu.Employee
