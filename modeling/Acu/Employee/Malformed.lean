import Acu.Employee.Elements

/-!
# Malformed texts

The parsers go on with what a search gives, whatever that is. They stay inside the text
where each search finds what it looks for, or a NUL, before the text ends, and where a
date or a photograph is long enough.
-/

namespace Acu.Employee

open Acu.Core CMemory Tools

/-! ## What a text has to be -/

/-- What the step for an element needs of its value `v` and of the text behind the cut. -/
def Room (signedChar : Bool) (t : Tag) (v rest : Bytes) : Prop :=
  match t with
  | .ENT_CO_YMD | .RTR_CO_YMD => 8 ≤ (v ++ 0 :: rest).length
  | .PHOTO_IMAGE =>
      (∀ k < 4 * ((v.length + 3) / 4), Base64.Readable signedChar (v ++ 0 :: rest) k) ∧
        (v.length = 0 ∨ 3 * ((v.length + 3) / 4) ≤ v.length)
  | _ => True

/-- A memory and a pointer into it. -/
structure Place where
  mem : Bytes
  p : Nat

/-- An element is absent, or it can be cut and has room. -/
inductive Passes (signedChar : Bool) (t : Tag) : Place → Place → Prop where
  | missing (pre m : Bytes) (h : Absent (60 :: t.name) m) :
      Passes signedChar t ⟨pre ++ m, pre.length⟩ ⟨pre ++ m, pre.length⟩
  | found (pre : Bytes) {m s v rest : Bytes} {b : UInt8} (h : Cut t.name m s b v rest)
      (hroom : Room signedChar t v rest) :
      Passes signedChar t ⟨pre ++ m, pre.length⟩
        ⟨pre ++ (s ++ 60 :: (t.name ++ b :: (v ++ 0 :: rest))), pre.length + advance t s b v⟩

inductive PassesAll (signedChar : Bool) : List Tag → Place → Place → Prop where
  | nil (x : Place) : PassesAll signedChar [] x x
  | cons {t : Tag} {ts : List Tag} {x y z : Place} (h : Passes signedChar t x y)
      (hrest : PassesAll signedChar ts y z) : PassesAll signedChar (t :: ts) x z

/-- The records of a text from the pointer on: each begins with `<Table`, goes on to a `</Table`
that is cut, and has elements that can be passed; behind the last one the text has a NUL. -/
inductive Complete (signedChar : Bool) : Place → Prop where
  | last (pre m : Bytes) (h : Absent (ascii "<Table") m) :
      Complete signedChar ⟨pre ++ m, pre.length⟩
  | record (pre : Bytes) {m s v rest : Bytes} {c : UInt8} {y : Place}
      (hopen : First (ascii "<Table") m s (c :: (v ++ (ascii "</Table" ++ rest)))) (hs : 0 ∉ s)
      (hclose : First (ascii "</Table") (v ++ (ascii "</Table" ++ rest)) v rest) (hv : 0 ∉ v)
      (hread : PassesAll signedChar (offlineTags ++ [.UTYPE])
        ⟨pre ++ (s ++ (ascii "<Table" ++ c :: (v ++ 0 :: (ascii "/Table" ++ rest)))),
          pre.length + s.length⟩ y)
      (hnext : Complete signedChar ⟨y.mem, pre.length + s.length + v.length + 15⟩) :
      Complete signedChar ⟨pre ++ m, pre.length⟩

/-- A reply holds no record, or the elements behind its first `<Table` can be passed. -/
def ReplyComplete (signedChar m_bDisplayPhoto : Bool) (m : Bytes) : Prop :=
  Absent (ascii "<Table") m ∨ ∃ s rest y, First (ascii "<Table") m s rest ∧ 0 ∉ s ∧
    PassesAll signedChar (onlineTags m_bDisplayPhoto ++ [.UTYPE]) ⟨m, s.length⟩ y

/-! ## Steps -/

namespace Cursor

/-- The shape of a step: `handle` is what is done where the element is found. -/
def look (tag : Bytes) (handle : Bytes → Nat → Cursor → Option Cursor) (c : Cursor) :
    Option Cursor := do
  match ← getElementData c.mem c.p tag with
  | (mem, none) => some { c with mem := mem }
  | (mem, some q) => handle mem q c

/-- The step comes to a place precisely where the element can be passed to it. -/
def Follows (signedChar : Bool) (t : Tag) (step : Cursor → Option Cursor) : Prop :=
  ∀ mem p ei y, (∃ ei', step ⟨mem, p, ei⟩ = some ⟨y.mem, y.p, ei'⟩) ↔
    Passes signedChar t ⟨mem, p⟩ y

section Follows

variable {signedChar : Bool} {t : Tag}

/-- Of a step with that shape only what it does at a cut is left to be seen. -/
theorem follows_of_cut {step : Cursor → Option Cursor}
    (handle : Bytes → Nat → Cursor → Option Cursor) (hshape : step = look t.name handle)
    (hcut : ∀ pre m s b v rest ei (y : Place), Cut t.name m s b v rest →
      ((∃ ei', step ⟨pre ++ m, pre.length, ei⟩ = some ⟨y.mem, y.p, ei'⟩) ↔
        Room signedChar t v rest ∧
          y = ⟨front pre s t.name b ++ (v ++ 0 :: rest), pre.length + advance t s b v⟩)) :
    Follows signedChar t step := by
  intro mem p ei y
  obtain ⟨after, q⟩ := y
  constructor
  · intro h
    rcases h with ⟨ei', hstep⟩
    have h := hstep
    rw [hshape] at h
    obtain ⟨⟨mem', r⟩, hget, h⟩ := Option.bind_eq_some_iff.mp h
    obtain ⟨pre, m, rfl, rfl⟩ := exists_of_getElementData hget
    cases r with
    | none =>
        obtain ⟨rfl, habsent⟩ := (getElementData_iff_absent pre t.name_plain.2 mem').mp hget
        cases h
        exact .missing pre m habsent
    | some start =>
        obtain ⟨s, b, v, rest, hthere⟩ := cut_of_getElementData pre hget
        obtain ⟨hroom, heq⟩ := (hcut pre m s b v rest ei ⟨after, q⟩ hthere).mp ⟨ei', hstep⟩
        rw [heq, ← front_append]
        exact .found pre hthere hroom
  · intro h
    cases h with
    | missing pre m habsent =>
        have hget := (getElementData_iff_absent pre t.name_plain.2 _).mpr ⟨rfl, habsent⟩
        refine ⟨ei, ?_⟩
        rw [hshape, look, hget]
        rfl
    | found pre hthere hroom =>
        refine (hcut pre _ _ _ _ _ ei _ hthere).mpr ⟨hroom, ?_⟩
        rw [front_append]

theorem element_follows {use : Bytes → Nat → EmployeeInfo → Option EmployeeInfo}
    (hadvance : ∀ s b v, advance t s b v = s.length + t.name.length + v.length + 3)
    (huse : ∀ pre v rest ei, Plain v →
      ((∃ ei', use (pre ++ (v ++ 0 :: rest)) pre.length ei = some ei') ↔
        Room signedChar t v rest)) :
    Follows signedChar t (element t.text use) := by
  refine follows_of_cut (fun mem q c => do
    let ei ← use mem q c.ei
    let len ← strlen mem q
    some ⟨mem, q + len + 1, ei⟩) rfl fun pre m s b v rest ei y hthere => ?_
  obtain ⟨after, q⟩ := y
  have hnext : pre.length + advance t s b v = (front pre s t.name b).length + v.length + 1 := by
    rw [hadvance, front_length]
    omega
  rw [element_cut pre use ei hthere, hnext,
    ← huse (front pre s t.name b) v rest ei hthere.value]
  constructor
  · intro h
    rcases h with ⟨ei', h⟩
    obtain ⟨ei₁, hei, h⟩ := Option.map_eq_some_iff.mp h
    cases h
    exact ⟨⟨_, hei⟩, rfl⟩
  · intro h
    rcases h with ⟨⟨ei', hei⟩, heq⟩
    cases heq
    exact ⟨ei', Option.map_eq_some_iff.mpr ⟨ei', hei, rfl⟩⟩

theorem text_follows (assign : Bytes → EmployeeInfo → EmployeeInfo)
    (hadvance : ∀ s b v, advance t s b v = s.length + t.name.length + v.length + 3)
    (hroom : ∀ v rest, Room signedChar t v rest) : Follows signedChar t (text t.text assign) := by
  refine element_follows hadvance fun pre v rest ei hv => ?_
  rw [stringAt_append pre hv.2]
  exact iff_of_true ⟨assign v ei, rfl⟩ (hroom v rest)

/-- A date is read from eight bytes, whatever they are. -/
theorem ofText_isSome_iff (pre m : Bytes) :
    (∃ d, Date.ofText (pre ++ m) pre.length = some d) ↔ 8 ≤ m.length := by
  constructor
  · intro h
    rcases h with ⟨d, h⟩
    obtain ⟨year, -, h⟩ := Option.bind_eq_some_iff.mp h
    obtain ⟨month, -, h⟩ := Option.bind_eq_some_iff.mp h
    obtain ⟨day, hday, -⟩ := Option.bind_eq_some_iff.mp h
    rw [load] at hday
    split at hday
    next hle =>
      rw [List.length_append] at hle
      omega
    next => cases hday
  · intro h
    have hyear : load (pre ++ m) pre.length 4 = some ((m.drop 0).take 4) := by
      have hload := load_behind pre (v := m) [] (k := 0) (n := 4) (by omega)
      rwa [List.append_nil] at hload
    have hmonth := load_behind pre (v := m) [] (k := 4) (n := 2) (by omega)
    have hday := load_behind pre (v := m) [] (k := 6) (n := 2) (by omega)
    rw [List.append_nil] at hmonth hday
    rw [Date.ofText, hyear, hmonth, hday]
    exact ⟨_, rfl⟩

theorem date_follows (assign : Date → EmployeeInfo → EmployeeInfo)
    (hadvance : ∀ s b v, advance t s b v = s.length + t.name.length + v.length + 3)
    (hroom : ∀ v rest, Room signedChar t v rest ↔ 8 ≤ (v ++ 0 :: rest).length) :
    Follows signedChar t (date t.text assign) := by
  refine element_follows hadvance fun pre v rest ei hv => ?_
  rw [hroom, ← ofText_isSome_iff pre]
  constructor
  · intro h
    rcases h with ⟨ei', h⟩
    obtain ⟨d, hd, -⟩ := Option.bind_eq_some_iff.mp h
    exact ⟨d, hd⟩
  · intro h
    rcases h with ⟨d, hd⟩
    exact ⟨assign d ei, by rw [hd]; rfl⟩

theorem serialNumber_follows : Follows signedChar .RFID_CAR serialNumber := by
  refine element_follows (fun _ _ _ => rfl) fun pre v rest ei hv => ?_
  rw [stringAt_append pre hv.2]
  exact iff_of_true ⟨_, rfl⟩ trivial

/-- The bytes of the photograph are read behind the pointer. -/
theorem readable_behind (pre m : Bytes) (k : Nat) :
    Base64.Readable signedChar (pre ++ m) (pre.length + k) ↔ Base64.Readable signedChar m k := by
  rw [Base64.Readable, Base64.Readable, List.getElem?_append_right (Nat.le_add_right _ _),
    Nat.add_sub_cancel_left]

theorem photoImage_follows : Follows signedChar .PHOTO_IMAGE (photoImage signedChar) := by
  refine element_follows (fun _ _ _ => rfl) fun pre v rest ei hv => ?_
  have hdecode := @Base64.base64d_isSome_iff signedChar (pre ++ (v ++ 0 :: rest)) pre.length
    v.length v.length
  simp only [readable_behind] at hdecode
  rw [Room, ← hdecode, strlen_append pre hv.2 rest, Option.bind_eq_bind, Option.bind_some]
  constructor
  · intro h
    rcases h with ⟨ei', h⟩
    obtain ⟨r, hr, -⟩ := Option.bind_eq_some_iff.mp h
    exact ⟨r, hr⟩
  · intro h
    rcases h with ⟨r, hr⟩
    rw [hr]
    exact ⟨_, rfl⟩

/-- A step that needs nothing of the value. -/
theorem follows_of_always {step : Cursor → Option Cursor}
    (handle : Bytes → Nat → Cursor → Option Cursor) (hshape : step = look t.name handle)
    (hroom : ∀ v rest, Room signedChar t v rest)
    (hcut : ∀ pre m s b v rest ei, Cut t.name m s b v rest →
      ∃ ei', step ⟨pre ++ m, pre.length, ei⟩ =
        some ⟨front pre s t.name b ++ (v ++ 0 :: rest), pre.length + advance t s b v, ei'⟩) :
    Follows signedChar t step := by
  refine follows_of_cut handle hshape fun pre m s b v rest ei y hthere => ?_
  obtain ⟨ei₁, hstep⟩ := hcut pre m s b v rest ei hthere
  obtain ⟨after, q⟩ := y
  rw [hstep]
  constructor
  · intro h
    rcases h with ⟨ei', h⟩
    cases h
    exact ⟨hroom v rest, rfl⟩
  · intro h
    rcases h with ⟨-, heq⟩
    cases heq
    exact ⟨ei₁, rfl⟩

theorem pinNo_follows : Follows signedChar .PIN_NO pinNo := by
  refine follows_of_always (fun mem q c => do
    let s ← stringAt mem q
    let len ← strlen mem c.p
    some ⟨mem, c.p + len + 1, { c.ei with pin_no := s }⟩) rfl (fun _ _ => trivial)
    fun pre m s b v rest ei hthere => ?_
  exact ⟨_, pinNo_cut pre ei hthere⟩

theorem utype_follows : Follows signedChar .UTYPE utype := by
  refine follows_of_always (fun mem q c => do
    let b ← mem[q]?
    some { c with mem := mem, ei := { c.ei with utype := b } }) rfl (fun _ _ => trivial)
    fun pre m s b v rest ei hthere => ?_
  exact ⟨_, utype_cut pre ei hthere⟩

theorem read_follows (signedChar : Bool) (t : Tag) : Follows signedChar t (read signedChar t) := by
  cases t with
  | PIN_NO => exact pinNo_follows
  | LAB_NO =>
      exact text_follows (t := .LAB_NO) (fun s ei => { ei with lab_no := s })
        (fun _ _ _ => rfl) fun _ _ => trivial
  | LAB_NM =>
      exact text_follows (t := .LAB_NM) (fun s ei => { ei with lab_name := s })
        (fun _ _ _ => rfl) fun _ _ => trivial
  | CO_NM =>
      exact text_follows (t := .CO_NM) (fun s ei => { ei with company_name := s })
        (fun _ _ _ => rfl) fun _ _ => trivial
  | RFID_CAR => exact serialNumber_follows
  | IN_OUT_GB =>
      exact text_follows (t := .IN_OUT_GB) (fun s ei => { ei with in_out_gb := s })
        (fun _ _ _ => rfl) fun _ _ => trivial
  | ZONE_CD =>
      exact text_follows (t := .ZONE_CD) (fun s ei => { ei with zone_code := s })
        (fun _ _ _ => rfl) fun _ _ => trivial
  | PHOTO_IMAGE => exact photoImage_follows
  | ENT_CO_YMD =>
      exact date_follows (t := .ENT_CO_YMD) (fun d ei => { ei with ent_co_ymd := some d })
        (fun _ _ _ => rfl) fun _ _ => Iff.rfl
  | RTR_CO_YMD =>
      exact date_follows (t := .RTR_CO_YMD) (fun d ei => { ei with rtr_co_ymd := some d })
        (fun _ _ _ => rfl) fun _ _ => Iff.rfl
  | UTYPE => exact utype_follows

end Follows

theorem readAll_iff_passesAll (signedChar : Bool) (ts : List Tag) (mem : Bytes) (p : Nat)
    (ei : EmployeeInfo) (y : Place) :
    (∃ ei', readAll signedChar ts ⟨mem, p, ei⟩ = some ⟨y.mem, y.p, ei'⟩) ↔
      PassesAll signedChar ts ⟨mem, p⟩ y := by
  induction ts generalizing mem p ei with
  | nil =>
      constructor
      · intro h
        rcases h with ⟨ei', h⟩
        cases h
        exact .nil y
      · intro h
        cases h
        exact ⟨ei, rfl⟩
  | cons t ts ih =>
      constructor
      · intro h
        rcases h with ⟨ei', h⟩
        obtain ⟨c, hc, h⟩ := Option.bind_eq_some_iff.mp h
        exact .cons ((read_follows signedChar t mem p ei ⟨c.mem, c.p⟩).mp ⟨c.ei, hc⟩)
          ((ih c.mem c.p c.ei).mp ⟨ei', h⟩)
      · intro h
        cases h with
        | cons hfirst hrest =>
            obtain ⟨ei₁, hc⟩ := (read_follows signedChar t mem p ei _).mpr hfirst
            obtain ⟨ei', h⟩ := (ih _ _ ei₁).mpr hrest
            refine ⟨ei', ?_⟩
            rw [readAll, hc]
            exact h

theorem readAll_utype (signedChar : Bool) (ts : List Tag) (c : Cursor) :
    (readAll signedChar ts c).bind utype = readAll signedChar (ts ++ [.UTYPE]) c := by
  induction ts generalizing c with
  | nil =>
      rw [List.nil_append, readAll, readAll, Option.bind_some, read]
      cases utype c with
      | none => rfl
      | some d => rfl
  | cons t ts ih =>
      rw [List.cons_append, readAll, readAll, Option.bind_eq_bind, Option.bind_assoc]
      exact Option.bind_congr fun d _ => ih d

end Cursor

/-! ## Runs -/

section Runs

variable {signedChar : Bool} {blocks : Nat → Uninit}

theorem fillRecord_iff_passesAll (signedChar : Bool) (mem : Bytes) (p : Nat) (ei : EmployeeInfo)
    (y : Place) :
    (∃ ei', fillRecord ⟨mem, p, ei⟩ = some ⟨y.mem, y.p, ei'⟩) ↔
      PassesAll signedChar (offlineTags ++ [.UTYPE]) ⟨mem, p⟩ y := by
  rw [fillRecord_eq signedChar, Cursor.readAll_utype]
  exact Cursor.readAll_iff_passesAll signedChar _ mem p ei y

/-- One letter is skipped behind `<Table`, and a `</Table` has to follow. -/
theorem close_found_iff (pre s post : Bytes) (stop : Nat) :
    strstr (pre ++ (s ++ (ascii "<Table" ++ post))) (pre.length + s.length + 7)
        (ascii "</Table") = some (some stop) ↔
      ∃ c v rest, post = c :: (v ++ (ascii "</Table" ++ rest)) ∧
        First (ascii "</Table") (v ++ (ascii "</Table" ++ rest)) v rest ∧ 0 ∉ v ∧
        stop = pre.length + s.length + 7 + v.length := by
  have hsix : (ascii "<Table").length = 6 := by decide
  cases post with
  | nil =>
      refine iff_of_false ?_ (by simp)
      intro h
      rw [strstr, List.drop_eq_nil_of_le] at h
      · cases h
      · simp only [List.length_append, List.length_nil, hsix]
        omega
  | cons c w =>
      let start := pre ++ (s ++ (ascii "<Table" ++ [c]))
      have hmem : pre ++ (s ++ (ascii "<Table" ++ c :: w)) = start ++ w := by simp [start]
      have hlen : pre.length + s.length + 7 = start.length := by
        simp only [start, List.length_append, List.length_cons, List.length_nil, hsix]
        omega
      have hne : ascii "</Table" ≠ [] := by decide
      rw [hmem, hlen, strstr_iff_first hne start rfl stop]
      constructor
      · intro h
        rcases h with ⟨v, rest, hfirst, hv, rfl⟩
        have heq := hfirst.eq
        subst heq
        exact ⟨c, v, rest, rfl, hfirst, hv, rfl⟩
      · intro h
        rcases h with ⟨c', v, rest, heq, hfirst, hv, rfl⟩
        obtain ⟨-, rfl⟩ := List.cons.inj heq
        exact ⟨v, rest, hfirst, hv, rfl⟩

/-- The NUL that ends a record is written over the first letter of its end tag. -/
theorem store_close (pre s v rest : Bytes) (c : UInt8) :
    store (pre ++ (s ++ (ascii "<Table" ++ c :: (v ++ (ascii "</Table" ++ rest)))))
        (pre.length + s.length + 7 + v.length) 0 =
      some (pre ++ (s ++ (ascii "<Table" ++ c :: (v ++ 0 :: (ascii "/Table" ++ rest))))) := by
  let start := pre ++ (s ++ (ascii "<Table" ++ [c]))
  have hsix : (ascii "<Table").length = 6 := by decide
  have hlen : pre.length + s.length + 7 = start.length := by
    simp only [start, List.length_append, List.length_cons, List.length_nil, hsix]
    omega
  have hcut := store_behind start v 60 0 (ascii "/Table" ++ rest)
  rw [← hlen] at hcut
  have hkey : ascii "</Table" ++ rest = 60 :: (ascii "/Table" ++ rest) := rfl
  rw [hkey]
  simpa [start] using hcut

/-- A loop that ends has gone through the records of a complete text. -/
theorem complete_of_fillLoop (signedChar : Bool) {fuel : Nat} {m : Bytes} {p : Nat}
    {elems out : List EmployeeInfo} (h : fillLoop blocks fuel m p elems = some out) :
    Complete signedChar ⟨m, p⟩ := by
  induction fuel generalizing m p elems with
  | zero => cases h
  | succ fuel ih =>
      have hne : ascii "<Table" ≠ [] := by decide
      have hnul : 0 ∉ ascii "<Table" := by decide
      rw [fillLoop] at h
      obtain ⟨found, hfound, h⟩ := Option.bind_eq_some_iff.mp h
      obtain ⟨pre, t, rfl, rfl⟩ := exists_of_strstr hfound
      cases found with
      | none => exact .last pre t ((strstr_iff_absent hne hnul pre rfl).mp hfound)
      | some q =>
          obtain ⟨close, hclose, h⟩ := Option.bind_eq_some_iff.mp h
          obtain ⟨stop, hstop, h⟩ := Option.bind_eq_some_iff.mp h
          obtain ⟨cut, hcut, h⟩ := Option.bind_eq_some_iff.mp h
          obtain ⟨c, hc, hloop⟩ := Option.bind_eq_some_iff.mp h
          obtain ⟨s, post, hfirst, hs, rfl⟩ := (strstr_iff_first hne pre rfl q).mp hfound
          rw [hstop, hfirst.eq] at hclose
          obtain ⟨b, v, rest, rfl, hend, hv, rfl⟩ := (close_found_iff pre s post stop).mp hclose
          rw [hfirst.eq, store_close, Option.some.injEq] at hcut
          rw [← hcut] at hc
          have hread := (fillRecord_iff_passesAll signedChar _ _ _ ⟨c.mem, c.p⟩).mp ⟨c.ei, hc⟩
          refine .record pre hfirst hs hend hv hread ?_
          have hnext : pre.length + s.length + v.length + 15 =
              pre.length + s.length + 7 + v.length + 8 := by omega
          rw [hnext]
          exact ih hloop

/-- On a complete text the loop ends, and needs no more rounds than there are bytes left. -/
theorem fillLoop_of_complete {x : Place} (h : Complete signedChar x) (fuel : Nat)
    (elems : List EmployeeInfo) (hfuel : x.mem.length < fuel + x.p) (hpos : 0 < fuel) :
    ∃ out, fillLoop blocks fuel x.mem x.p elems = some out := by
  have hne : ascii "<Table" ≠ [] := by decide
  have hnul : 0 ∉ ascii "<Table" := by decide
  induction h generalizing fuel elems with
  | last pre m habsent =>
      obtain ⟨fuel, rfl⟩ : ∃ f, fuel = f + 1 := ⟨fuel - 1, by omega⟩
      have hmissing := (strstr_iff_absent hne hnul pre rfl).mpr habsent
      refine ⟨elems, ?_⟩
      rw [fillLoop, hmissing]
      rfl
  | @record pre m s v rest b y hopen hs hend hv hread hnext ih =>
      obtain ⟨fuel, rfl⟩ : ∃ f, fuel = f + 1 := ⟨fuel - 1, by omega⟩
      have hfound := (strstr_iff_first hne pre rfl _).mpr ⟨s, _, hopen, hs, rfl⟩
      have hclose := (close_found_iff pre s _ _).mpr ⟨b, v, rest, rfl, hend, hv, rfl⟩
      obtain ⟨ei, hc⟩ := (fillRecord_iff_passesAll signedChar _ _
        (EmployeeInfo.new (blocks elems.length)) y).mpr hread
      have hlen := fillRecord_keepsSize _ _ hc
      have hsix : (ascii "<Table").length = 6 := by decide
      have hseven : (ascii "/Table").length = 6 := by decide
      have hend' : (ascii "</Table").length = 7 := by decide
      rw [hopen.eq] at hfuel
      simp only [List.length_append, List.length_cons, hsix, hseven, hend'] at hlen hfuel
      obtain ⟨out, hout⟩ := ih fuel (elems ++ [ei]) (by dsimp only; omega) (by omega)
      refine ⟨out, ?_⟩
      have hafter : pre.length + s.length + v.length + 15 =
          pre.length + s.length + 7 + v.length + 8 := by omega
      rw [hafter] at hout
      rw [fillLoop, hfound, hopen.eq, Option.bind_eq_bind, Option.bind_some]
      dsimp only
      rw [hclose, Option.bind_some, Option.bind_eq_bind, Option.bind_some, store_close,
        Option.bind_eq_bind, Option.bind_some, hc]
      exact hout

theorem fillEmployeeInfoes_iff_complete (signedChar : Bool) (blocks : Nat → Uninit) (m : Bytes) :
    (∃ elems, fillEmployeeInfoes blocks m [] = some elems) ↔ Complete signedChar ⟨m, 0⟩ := by
  constructor
  · intro h
    rcases h with ⟨elems, h⟩
    exact complete_of_fillLoop signedChar h
  · intro h
    exact fillLoop_of_complete h (m.length + 1) [] (Nat.lt_succ_self m.length) (Nat.succ_pos _)

theorem fillEmployeeInfo_iff_complete (signedChar m_bDisplayPhoto : Bool) (m : Bytes)
    (ei : EmployeeInfo) :
    (∃ r, fillEmployeeInfo signedChar m_bDisplayPhoto m ei = some r) ↔
      ReplyComplete signedChar m_bDisplayPhoto m := by
  have hne : ascii "<Table" ≠ [] := by decide
  have hnul : 0 ∉ ascii "<Table" := by decide
  have hmissing := strstr_iff_absent (m := m) hne hnul [] rfl
  have hfirst := strstr_iff_first (m := m) hne [] rfl
  rw [List.nil_append, List.length_nil] at hmissing hfirst
  rw [fillEmployeeInfo_eq]
  constructor
  · intro h
    rcases h with ⟨r, h⟩
    cases hfound : strstr m 0 (ascii "<Table") with
    | none =>
        rw [hfound] at h
        cases h
    | some found =>
        cases found with
        | none => exact .inl (hmissing.mp hfound)
        | some q =>
            rw [hfound] at h
            dsimp only at h
            rw [Cursor.readAll_utype] at h
            obtain ⟨c, hc, -⟩ := Option.bind_eq_some_iff.mp h
            obtain ⟨s, rest, hopen, hs, hq⟩ := (hfirst q).mp hfound
            rw [hq, Nat.zero_add] at hc
            exact .inr ⟨s, rest, _, hopen, hs,
              (Cursor.readAll_iff_passesAll _ _ _ _ ei ⟨c.mem, c.p⟩).mp ⟨c.ei, hc⟩⟩
  · intro h
    cases h with
    | inl habsent =>
        rw [hmissing.mpr habsent]
        exact ⟨_, rfl⟩
    | inr hthere =>
        obtain ⟨s, rest, y, hopen, hs, hread⟩ := hthere
        have hfound := (hfirst s.length).mpr ⟨s, rest, hopen, hs, by simp⟩
        obtain ⟨ei', hc⟩ := (Cursor.readAll_iff_passesAll _ _ _ _ ei y).mpr hread
        rw [hfound]
        dsimp only
        rw [Cursor.readAll_utype, hc]
        exact ⟨_, rfl⟩

theorem getElementData_iff_complete (pre m : Bytes) {tag : Bytes} (htag : 0 ∉ tag) :
    (∃ r, getElementData (pre ++ m) pre.length tag = some r) ↔
      Absent (60 :: tag) m ∨ ∃ s b v rest, Cut tag m s b v rest := by
  constructor
  · intro h
    rcases h with ⟨⟨m', r⟩, h⟩
    cases r with
    | none => exact .inl ((getElementData_iff_absent pre htag m').mp h).2
    | some p => exact .inr (cut_of_getElementData pre h)
  · intro h
    cases h with
    | inl habsent =>
        exact ⟨_, (getElementData_iff_absent pre htag (pre ++ m)).mpr ⟨rfl, habsent⟩⟩
    | inr hthere =>
        obtain ⟨s, b, v, rest, hcut⟩ := hthere
        exact ⟨_, getElementData_cut pre hcut⟩

end Runs

/-! ## Received texts -/

/-- What goes through a text: the refresh of the list, the lookup of a reply, or the search of an
element behind the first part of a memory. -/
inductive Reader where
  | fillEmployeeInfoes (blocks : Nat → Uninit)
  | fillEmployeeInfo (m_bDisplayPhoto : Bool) (ei : EmployeeInfo)
  | getElementData (passed : Bytes) (tag : { s : Bytes // 0 ∉ s })

/-- The call ends without an access outside. The buffer of `updateLocalDB` has the size of the file,
and that of a reply one byte more, which is a NUL. -/
def Reader.StaysInside (signedChar : Bool) (text : Bytes) : Reader → Prop
  | fillEmployeeInfoes blocks => ∃ elems, Employee.fillEmployeeInfoes blocks text [] = some elems
  | fillEmployeeInfo m_bDisplayPhoto ei =>
      ∃ r, Employee.fillEmployeeInfo signedChar m_bDisplayPhoto (text ++ [0]) ei = some r
  | getElementData passed tag =>
      ∃ r, Tools.getElementData (passed ++ text) passed.length tag.val = some r

/-- The text has what each search is for. -/
def Reader.Finds (signedChar : Bool) (text : Bytes) : Reader → Prop
  | fillEmployeeInfoes _ => Complete signedChar ⟨text, 0⟩
  | fillEmployeeInfo m_bDisplayPhoto _ => ReplyComplete signedChar m_bDisplayPhoto (text ++ [0])
  | getElementData _ tag =>
      Absent (60 :: tag.val) text ∨ ∃ s b v rest, Cut tag.val text s b v rest

theorem stays_inside_iff (signedChar : Bool) (text : Bytes) (r : Reader) :
    r.StaysInside signedChar text ↔ r.Finds signedChar text := by
  cases r with
  | fillEmployeeInfoes blocks => exact fillEmployeeInfoes_iff_complete signedChar blocks text
  | fillEmployeeInfo m_bDisplayPhoto ei =>
      exact fillEmployeeInfo_iff_complete signedChar m_bDisplayPhoto (text ++ [0]) ei
  | getElementData passed tag => exact getElementData_iff_complete passed text tag.property

/-- The file of an empty list has no NUL, and the search for a record leaves the buffer. -/
theorem empty_list_left :
    ¬ (Reader.fillEmployeeInfoes fun _ => emptyBlock).StaysInside false
      (ascii "<NewDataSet />") := by
  intro h
  rcases h with ⟨elems, h⟩
  have hnone : fillEmployeeInfoes (fun _ => emptyBlock) (ascii "<NewDataSet />") [] = none := by
    decide +kernel
  rw [hnone] at h
  cases h

end Acu.Employee
