import Acu.Core.CMemory

/-!
# Searching a text made of parts

A key that begins with a mark and holds it nowhere else does not lie across the
border of two parts whose second begins with that mark. A search therefore passes
over a part that does not hold the key.
-/

namespace Acu.Core.CMemory

/-- No letter of `name` can stand at the start of `text`. -/
def Parts (name text : Bytes) : Prop := ∀ d, text.head? = some d → d ∉ name

theorem Parts.cons {name : Bytes} {d : UInt8} (h : d ∉ name) (text : Bytes) :
    Parts name (d :: text) := by
  intro e he
  cases he
  exact h

theorem prefix_of_parts {name s t : Bytes} (ht : Parts name t) (h : name <+: s ++ t) :
    name <+: s := by
  induction s generalizing name with
  | nil =>
      cases name with
      | nil => exact List.nil_prefix
      | cons a name =>
          rcases h with ⟨r, hr⟩
          have hhead : t.head? = some a := by
            rw [← List.nil_append t, ← hr]
            rfl
          exact absurd List.mem_cons_self (ht a hhead)
  | cons b s ih =>
      cases name with
      | nil => exact List.nil_prefix
      | cons a name =>
          obtain ⟨heq, hname⟩ := List.cons_prefix_cons.mp h
          have hparts : Parts name t := fun d hd hm => ht d hd (List.mem_cons_of_mem _ hm)
          exact List.cons_prefix_cons.mpr ⟨heq, ih hparts hname⟩

/-! ## Where a key lies -/

section Infix

variable {c : UInt8} {name s t : Bytes}

theorem not_infix_of_not_mem (hs : c ∉ s) : ¬ c :: name <:+: s :=
  fun h => hs (h.subset List.mem_cons_self)

/-- A part without the mark can be left out. -/
theorem not_infix_append (hs : c ∉ s) (ht : ¬ c :: name <:+: t) : ¬ c :: name <:+: s ++ t := by
  induction s with
  | nil => exact ht
  | cons b s ih =>
      obtain ⟨hb, hs⟩ : c ≠ b ∧ c ∉ s := by simpa using hs
      intro h
      cases List.infix_cons_iff.mp h with
      | inl hp => exact hb (List.cons_prefix_cons.mp hp).1
      | inr hi => exact ih hs hi

theorem not_infix_mark (hs : ¬ name <+: s) (h : ¬ c :: name <:+: s) : ¬ c :: name <:+: c :: s := by
  intro hi
  cases List.infix_cons_iff.mp hi with
  | inl hp => exact hs (List.cons_prefix_cons.mp hp).2
  | inr hr => exact h hr

end Infix

/-! ## Searching -/

section Search

variable {c : UInt8} {name s rest : Bytes}

theorem strstrFrom_here {key m : Bytes} (hne : key ≠ []) (h : key <+: m) (pos : Nat) :
    strstrFrom key m pos = some (some pos) := by
  cases m with
  | nil => exact absurd (List.prefix_nil.mp h) hne
  | cons b m => rw [strstrFrom, if_pos (List.isPrefixOf_iff_prefix.mpr h)]

theorem strstrFrom_nul {key : Bytes} (hne : key ≠ []) (h0 : 0 ∉ key) (m : Bytes) (pos : Nat) :
    strstrFrom key (0 :: m) pos = some none := by
  have hkey : key.isPrefixOf (0 :: m) = false := by
    rw [Bool.eq_false_iff, ne_eq, List.isPrefixOf_iff_prefix]
    intro h
    cases key with
    | nil => exact hne rfl
    | cons a key =>
        obtain ⟨rfl, -⟩ := List.cons_prefix_cons.mp h
        exact h0 List.mem_cons_self
  simp [strstrFrom, hkey]

/-- The search passes over a part that does not hold the key. -/
theorem strstrFrom_append (h0 : 0 ∉ s) (hs : ¬ c :: name <:+: s) (hrest : Parts name rest)
    (pos : Nat) :
    strstrFrom (c :: name) (s ++ rest) pos =
      strstrFrom (c :: name) rest (pos + s.length) := by
  induction s generalizing pos with
  | nil => rfl
  | cons b s ih =>
      obtain ⟨hb, h0⟩ : 0 ≠ b ∧ 0 ∉ s := by simpa using h0
      have hkey : (c :: name).isPrefixOf (b :: (s ++ rest)) = false := by
        rw [Bool.eq_false_iff, ne_eq, List.isPrefixOf_iff_prefix]
        intro h
        obtain ⟨heq, hname⟩ := List.cons_prefix_cons.mp h
        have hp : c :: name <+: b :: s :=
          List.cons_prefix_cons.mpr ⟨heq, prefix_of_parts hrest hname⟩
        exact hs hp.isInfix
      have hrec := ih h0 (fun h => hs (List.infix_cons h)) (pos + 1)
      rw [List.cons_append, strstrFrom, hkey, if_neg Bool.false_ne_true, if_neg (Ne.symm hb), hrec,
        List.length_cons]
      congr 1
      omega

theorem strstr_append (pre m key : Bytes) :
    strstr (pre ++ m) pre.length key = strstrFrom key m pre.length := by
  rw [strstr, List.drop_left]

/-- A key is found behind a part that does not hold it. -/
theorem strstr_found_behind (pre rest : Bytes) (h0 : 0 ∉ s) (hs : ¬ c :: name <:+: s)
    (hc : c ∉ name) :
    strstr (pre ++ (s ++ c :: (name ++ rest))) pre.length (c :: name) =
      some (some (pre.length + s.length)) := by
  rw [strstr_append, strstrFrom_append h0 hs (.cons hc _)]
  exact strstrFrom_here (List.cons_ne_nil _ _) (List.prefix_append (c :: name) rest) _

theorem strstr_missing (pre rest : Bytes) (h0 : 0 ∉ s) (hs : ¬ c :: name <:+: s)
    (hkey : 0 ∉ c :: name) :
    strstr (pre ++ (s ++ 0 :: rest)) pre.length (c :: name) = some none := by
  rw [strstr_append, strstrFrom_append h0 hs (.cons (fun h => hkey (List.mem_cons_of_mem _ h)) _)]
  exact strstrFrom_nul (List.cons_ne_nil _ _) hkey _ _

end Search

/-! ## Strings with memory behind them -/

/-- The string that starts with a text ends where the memory behind it has a NUL. -/
theorem cstring_append {text : Bytes} (h0 : 0 ∉ text) (behind : Bytes) :
    cstring (text ++ behind) = (cstring behind).map (text ++ ·) := by
  induction text with
  | nil => simp
  | cons c cs ih =>
      obtain ⟨hc, hcs⟩ : 0 ≠ c ∧ 0 ∉ cs := by simpa using h0
      rw [List.cons_append, cstring, if_neg (Ne.symm hc), ih hcs, Option.map_map]
      rfl

theorem cstring_takeWhile (s rest : Bytes) :
    cstring (s ++ 0 :: rest) = some (s.takeWhile (· ≠ 0)) := by
  induction s with
  | nil => simp [cstring]
  | cons c cs ih =>
      by_cases hc : c = 0
      · simp [cstring, hc]
      · simp [cstring, hc, ih]

theorem takeWhile_of_nul_not_mem {s : Bytes} (h : 0 ∉ s) : s.takeWhile (· ≠ 0) = s := by
  have hrest := cstring_takeWhile s []
  rw [cstring_append_nul s [] h, Option.some.injEq] at hrest
  exact hrest.symm

/-! ## Access behind a part -/

/-- A block in front of a position and behind it. -/
theorem exists_split {m : Bytes} {n : Nat} (h : n ≤ m.length) :
    ∃ front back, m = front ++ back ∧ front.length = n :=
  ⟨m.take n, m.drop n, (List.take_append_drop n m).symm, by simp [h]⟩

theorem store_behind (pre s : Bytes) (a b : UInt8) (post : Bytes) :
    store (pre ++ (s ++ a :: post)) (pre.length + s.length) b =
      some (pre ++ (s ++ b :: post)) := by
  have hset : (pre ++ s ++ a :: post).set (pre ++ s).length b = pre ++ s ++ b :: post := by
    simp
  rw [store, if_pos (by simp), ← List.append_assoc, ← List.length_append, hset,
    List.append_assoc]

theorem stringAt_append (pre : Bytes) {s : Bytes} (h0 : 0 ∉ s) (rest : Bytes) :
    stringAt (pre ++ (s ++ 0 :: rest)) pre.length = some s := by
  rw [stringAt, List.drop_left, cstring_append_nul s rest h0]

theorem strlen_append (pre : Bytes) {s : Bytes} (h0 : 0 ∉ s) (rest : Bytes) :
    strlen (pre ++ (s ++ 0 :: rest)) pre.length = some s.length := by
  rw [strlen, stringAt_append pre h0 rest]
  rfl

theorem load_behind (pre : Bytes) {v : Bytes} (rest : Bytes) {k n : Nat} (h : k + n ≤ v.length) :
    load (pre ++ (v ++ rest)) (pre.length + k) n = some ((v.drop k).take n) := by
  have hbound : pre.length + k + n ≤ (pre ++ (v ++ rest)).length := by
    simp only [List.length_append]
    omega
  rw [load, if_pos hbound, List.drop_length_add_append, List.drop_append_of_le_length (by omega),
    List.take_append_of_le_length (by simp; omega)]

/-! ## Comparing -/

section Strcmp

variable {sn : Bytes}

theorem strcmpEq_cstring {a s : Bytes} (h : cstring a = some s) (h0 : 0 ∉ sn) :
    strcmpEq a (sn ++ [0]) = some (decide (s = sn)) := by
  induction a generalizing s sn with
  | nil => cases h
  | cons c cs ih =>
      unfold cstring at h
      split at h
      next hc =>
        cases h
        cases sn with
        | nil => simp [strcmpEq, hc]
        | cons b bs =>
            have hb : (0 : UInt8) ≠ b := fun h => h0 (by simp [h])
            simp [strcmpEq, hc, hb]
      next hc =>
        obtain ⟨t, ht, rfl⟩ := Option.map_eq_some_iff.mp h
        cases sn with
        | nil => simp [strcmpEq, hc]
        | cons b bs =>
            have hbs : 0 ∉ bs := fun h => h0 (List.mem_cons_of_mem _ h)
            by_cases hcb : c = b
            · subst hcb
              simp [strcmpEq, hc, ih ht hbs]
            · simp [strcmpEq, hcb]

theorem cstring_of_strcmpEq {a : Bytes} (h0 : 0 ∉ sn) (h : strcmpEq a (sn ++ [0]) = some true) :
    cstring a = some sn := by
  induction a generalizing sn with
  | nil => cases sn <;> cases h
  | cons c cs ih =>
      cases sn with
      | nil =>
          by_cases hc : c = 0
          · simp [cstring, hc]
          · simp [strcmpEq, hc] at h
      | cons b bs =>
          obtain ⟨hb, hbs⟩ : 0 ≠ b ∧ 0 ∉ bs := by simpa using h0
          by_cases hcb : c = b
          · subst hcb
            have hrec : strcmpEq cs (bs ++ [0]) = some true := by
              simpa [strcmpEq, Ne.symm hb] using h
            simp [cstring, Ne.symm hb, ih hbs hrec]
          · simp [strcmpEq, hcb] at h

theorem strcmpEq_append {p : Bytes} (h0 : 0 ∉ p) (x y : Bytes) :
    strcmpEq (p ++ x) (p ++ y) = strcmpEq x y := by
  induction p with
  | nil => rfl
  | cons c p ih =>
      obtain ⟨hc, hp⟩ : 0 ≠ c ∧ 0 ∉ p := by simpa using h0
      simp [strcmpEq, Ne.symm hc, ih hp]

theorem strcmpEq_of_not_prefix {p : Bytes} (hp : 0 ∉ p) (h : ¬ p <+: sn) (x : Bytes) :
    strcmpEq (p ++ x) (sn ++ [0]) = some false := by
  induction p generalizing sn with
  | nil => exact absurd List.nil_prefix h
  | cons c p ih =>
      obtain ⟨hc, hp⟩ : 0 ≠ c ∧ 0 ∉ p := by simpa using hp
      cases sn with
      | nil => simp [strcmpEq, Ne.symm hc]
      | cons b bs =>
          by_cases hcb : c = b
          · subst hcb
            have hrest : ¬ p <+: bs := fun hr => h (List.cons_prefix_cons.mpr ⟨rfl, hr⟩)
            simp [strcmpEq, Ne.symm hc, ih hp hrest]
          · simp [strcmpEq, hcb]

/-- A string, as far as there is room for it, is not told from itself. -/
theorem strcmpEq_self (h0 : 0 ∉ sn) {k n : Nat} (hk : k ≤ n) :
    strcmpEq ((sn ++ List.replicate n 0).take k) (sn ++ [0]) ≠ some false := by
  induction sn generalizing k with
  | nil =>
      cases k with
      | zero => simp [strcmpEq]
      | succ k =>
          obtain ⟨n, rfl⟩ : ∃ n', n = n' + 1 := ⟨n - 1, by omega⟩
          simp [strcmpEq, List.replicate_succ]
  | cons b bs ih =>
      obtain ⟨hb, hbs⟩ : 0 ≠ b ∧ 0 ∉ bs := by simpa using h0
      cases k with
      | zero => simp [strcmpEq]
      | succ k => simpa [strcmpEq, Ne.symm hb] using ih hbs (by omega)

/-- A terminated text shorter than the memory it is compared with is always compared to an end. -/
theorem strcmpEq_terminated {m s : Bytes} (hs : 0 ∉ s) (hlen : s.length < m.length) :
    strcmpEq m (s ++ [0]) = some (decide (cstring m = some s)) := by
  induction m generalizing s with
  | nil => simp at hlen
  | cons c cs ih =>
      cases s with
      | nil =>
          by_cases hc : c = 0
          · simp [strcmpEq, cstring, hc]
          · simp [strcmpEq, cstring, hc]
      | cons b bs =>
          obtain ⟨hb, hbs⟩ : 0 ≠ b ∧ 0 ∉ bs := by simpa using hs
          rw [List.cons_append, strcmpEq]
          by_cases hcb : c = b
          · subst hcb
            rw [if_neg (by simp), if_neg (Ne.symm hb),
              ih hbs (by simpa using hlen), cstring, if_neg (Ne.symm hb)]
            congr 1
            rw [decide_eq_decide, Option.map_eq_some_iff]
            constructor
            · exact fun h => ⟨bs, h, rfl⟩
            · intro h
              rcases h with ⟨a, ha, hab⟩
              cases hab
              exact ha
          · rw [if_pos hcb, cstring]
            by_cases hc : c = 0
            · simp [hc]
            · have hne : ∀ a, ¬ (c :: a = b :: bs) := fun a h => hcb (List.cons.inj h).1
              simp [hc, hne]

end Strcmp

/-! ## Markup -/

/-- A text without `<` and NUL. -/
def Plain (s : Bytes) : Prop := 60 ∉ s ∧ 0 ∉ s

/-- A text whose tags are complete, and none of whose tags begins with one of the names. -/
structure Filler (names : List Bytes) (s : Bytes) : Prop where
  text : 0 ∉ s
  closed : ∀ u w, s = u ++ 60 :: w → 62 ∈ w
  free : ∀ name ∈ names, ¬ 60 :: name <:+: s

/-- An element that holds a text. -/
structure FlatElement where
  name : Bytes
  attributes : Bytes
  value : Bytes

namespace FlatElement

variable (e : FlatElement)

def text : Bytes :=
  60 :: (e.name ++ (e.attributes ++ 62 :: (e.value ++ 60 :: 47 :: (e.name ++ [62]))))

/-- The parts of the element are texts, and the attributes stand apart from the name. -/
structure Formed : Prop where
  name : Plain e.name
  attributes : Plain e.attributes
  value : Plain e.value
  apart : ∀ d, e.attributes.head? = some d → d = 32

end FlatElement

section Filler

variable {names : List Bytes} {s t : Bytes}

/-- What a name has to be for a tag to end it: no blank and no `>`. -/
def NameLike (name : Bytes) : Prop := 62 ∉ name ∧ 32 ∉ name

instance (name : Bytes) : Decidable (NameLike name) := inferInstanceAs (Decidable (_ ∧ _))

theorem Filler.mono {names' : List Bytes} (h : Filler names s) (hsub : names' ⊆ names) :
    Filler names' s :=
  ⟨h.text, h.closed, fun name hn => h.free name (hsub hn)⟩

theorem Filler.nil (names : List Bytes) : Filler names [] where
  text := by simp
  closed := by simp
  free := fun name _ h => by simp at h

theorem Filler.of_plain (h : Plain s) (names : List Bytes) : Filler names s where
  text := h.2
  closed := by
    intro u w hs
    exact absurd (by simp [hs]) h.1
  free := fun _ _ => not_infix_of_not_mem h.1

/-- A tag that is complete does not go on in the part behind it. -/
theorem infix_append_of_closed {name : Bytes} (hname : 62 ∉ name)
    (hs : ∀ u w, s = u ++ 60 :: w → 62 ∈ w) (h : 60 :: name <:+: s ++ t) :
    60 :: name <:+: s ∨ 60 :: name <:+: t := by
  induction s with
  | nil => exact .inr h
  | cons b s ih =>
      cases List.infix_cons_iff.mp h with
      | inl hp =>
          obtain ⟨heq, hp⟩ := List.cons_prefix_cons.mp hp
          have hclose : 62 ∈ s := hs [] s (by rw [heq, List.nil_append])
          have hname' : name <+: s := by
            cases List.prefix_or_prefix_of_prefix hp (List.prefix_append s t) with
            | inl hn => exact hn
            | inr hr => exact absurd (hr.subset hclose) hname
          have hkey : 60 :: name <+: b :: s := List.cons_prefix_cons.mpr ⟨heq, hname'⟩
          exact .inl hkey.isInfix
      | inr hi =>
          cases ih (fun u w hu => hs (b :: u) w (by rw [hu, List.cons_append])) hi with
          | inl hl => exact .inl (List.infix_cons hl)
          | inr hr => exact .inr hr

theorem Filler.append (hnames : ∀ name ∈ names, 62 ∉ name) (hs : Filler names s)
    (ht : Filler names t) : Filler names (s ++ t) where
  text := by simpa using ⟨hs.text, ht.text⟩
  closed := by
    intro u w h
    cases List.append_eq_append_iff.mp h with
    | inl hu =>
        rcases hu with ⟨v, -, hv⟩
        exact ht.closed v w hv
    | inr hu =>
        rcases hu with ⟨v, hv, hw⟩
        cases v with
        | nil => exact ht.closed [] w hw.symm
        | cons b v =>
            obtain ⟨rfl, rfl⟩ : 60 = b ∧ w = v ++ t := by simpa using hw
            exact List.mem_append_left _ (hs.closed u v hv)
  free := by
    intro name hn h
    cases infix_append_of_closed (hnames name hn) hs.closed h with
    | inl hl => exact hs.free name hn hl
    | inr hr => exact ht.free name hn hr

/-- A single tag. -/
theorem Filler.tag (hs : Plain s) (hnames : ∀ name ∈ names, ¬ name <+: s ++ [62]) :
    Filler names (60 :: (s ++ [62])) where
  text := by simpa using hs.2
  closed := by
    intro u w h
    cases u with
    | nil =>
        obtain rfl : s ++ [62] = w := (List.cons.inj h).2
        simp
    | cons b u =>
        have hmem : (60 : UInt8) ∈ s ++ [62] := by
          rw [(List.cons.inj h).2]
          simp
        exact absurd (by simpa using hmem) hs.1
  free := by
    intro name hn
    refine not_infix_mark (hnames name hn) (not_infix_of_not_mem ?_)
    simpa using hs.1

/-- An element whose name begins with none of the names. -/
theorem FlatElement.Formed.filler {e : FlatElement} (h : e.Formed)
    (hlike : ∀ name ∈ names, NameLike name)
    (hname : ∀ name ∈ names, ¬ name <+: e.name ∧ ¬ name <+: 47 :: e.name) :
    Filler names e.text := by
  have hopen : Filler names (60 :: (e.name ++ e.attributes ++ [62])) := by
    refine .tag ⟨?_, ?_⟩ fun name hn hp => ?_
    · simpa using ⟨h.name.1, h.attributes.1⟩
    · simpa using ⟨h.name.2, h.attributes.2⟩
    · have hparts : Parts name (e.attributes ++ [62]) := by
        intro d hd
        cases ha : e.attributes with
        | nil =>
            rw [ha] at hd
            cases hd
            exact (hlike name hn).1
        | cons b attributes =>
            have hb := h.apart b (by rw [ha]; rfl)
            rw [ha, hb] at hd
            cases hd
            exact (hlike name hn).2
      rw [List.append_assoc] at hp
      exact (hname name hn).1 (prefix_of_parts hparts hp)
  have hclose : Filler names (60 :: (47 :: e.name ++ [62])) := by
    refine .tag ⟨?_, ?_⟩ fun name hn hp => ?_
    · simpa using h.name.1
    · simpa using h.name.2
    · exact (hname name hn).2 (prefix_of_parts (.cons (hlike name hn).1 []) hp)
  have hnames : ∀ name ∈ names, 62 ∉ name := fun name hn => (hlike name hn).1
  have htext : e.text = 60 :: (e.name ++ e.attributes ++ [62]) ++ e.value ++
      60 :: (47 :: e.name ++ [62]) := by
    simp [FlatElement.text]
  rw [htext]
  exact ((hopen.append hnames (.of_plain h.value names)).append hnames hclose)

end Filler

end Acu.Core.CMemory
