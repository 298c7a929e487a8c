import Acu.Core.Search

/-!
# The first occurrence of a key

Where a key stands first in a text does not change when the text goes on, and is seen
in every part of the text from its start that holds the key. `strstr` finds it when no
NUL comes before it.
-/

namespace Acu.Core

universe u

variable {α : Type u} {key m pre post : List α}

/-- The key stands behind `pre` in `m`, and nowhere before. -/
structure First (key m pre post : List α) : Prop where
  eq : m = pre ++ (key ++ post)
  least : ∀ pre' post', m = pre' ++ (key ++ post') → pre.length ≤ pre'.length

namespace First

theorem unique {pre' post' : List α} (h : First key m pre post) (h' : First key m pre' post') :
    pre = pre' ∧ post = post' := by
  have hle := h.least pre' post' h'.eq
  have hge := h'.least pre post h.eq
  obtain ⟨hpre, hrest⟩ := List.append_inj (h.eq.symm.trans h'.eq) (Nat.le_antisymm hle hge)
  exact ⟨hpre, List.append_cancel_left hrest⟩

/-- What comes behind a text does not move the key. -/
theorem extend (h : First key m pre post) (more : List α) :
    First key (m ++ more) pre (post ++ more) where
  eq := by rw [h.eq, List.append_assoc, List.append_assoc]
  least := by
    intro pre' post' heq
    by_contra hlt
    have hinside : (pre' ++ key).length ≤ m.length := by
      rw [h.eq, List.length_append, List.length_append, List.length_append]
      omega
    have hprefix : pre' ++ key <+: m := by
      refine List.prefix_of_prefix_length_le ?_ (List.prefix_append m more) hinside
      rw [heq, ← List.append_assoc]
      exact List.prefix_append (pre' ++ key) post'
    rcases hprefix with ⟨t, ht⟩
    have hle := h.least pre' t (by rw [← ht, List.append_assoc])
    omega

/-- A part of the text that reaches behind the key has it at the same place. -/
theorem restrict {more : List α} (h : First key (m ++ more) pre post)
    (hlen : pre.length + key.length ≤ m.length) :
    ∃ post', post = post' ++ more ∧ First key m pre post' := by
  have hprefix : pre ++ key <+: m := by
    refine List.prefix_of_prefix_length_le ?_ (List.prefix_append m more) ?_
    · rw [h.eq, ← List.append_assoc]
      exact List.prefix_append (pre ++ key) post
    · rw [List.length_append]
      exact hlen
  rcases hprefix with ⟨post', hpost⟩
  have hm : m = pre ++ (key ++ post') := by rw [← hpost, List.append_assoc]
  refine ⟨post', ?_, hm, fun pre' t ht => ?_⟩
  · have heq := h.eq
    rw [hm, List.append_assoc, List.append_assoc] at heq
    exact (List.append_cancel_left (List.append_cancel_left heq)).symm
  · refine h.least pre' (t ++ more) ?_
    rw [ht, List.append_assoc, List.append_assoc]

theorem here (post : List α) : First key (key ++ post) [] post where
  eq := rfl
  least := fun pre' _ _ => Nat.zero_le pre'.length

/-- One letter further on, where the key does not stand. -/
theorem cons (h : First key m pre post) {c : α} (hc : ¬ key <+: c :: m) :
    First key (c :: m) (c :: pre) post where
  eq := by rw [h.eq, List.cons_append]
  least := by
    intro pre' post' heq
    cases pre' with
    | nil => exact absurd ⟨post', heq.symm⟩ hc
    | cons b pre' =>
        obtain ⟨-, htail⟩ := List.cons.inj heq
        exact Nat.succ_le_succ (h.least pre' post' htail)

/-- A key that stands anywhere stands somewhere first. -/
theorem exists_of_infix (h : key <:+: m) : ∃ pre post, First key m pre post := by
  induction m with
  | nil =>
      rw [List.infix_nil] at h
      exact ⟨[], [], by rw [h]; exact here []⟩
  | cons c m ih =>
      by_cases hc : key <+: c :: m
      · rcases hc with ⟨post, hc⟩
        exact ⟨[], post, hc ▸ here post⟩
      · obtain ⟨pre, post, hrest⟩ := ih ((List.infix_cons_iff.mp h).resolve_left hc)
        exact ⟨c :: pre, post, hrest.cons hc⟩

theorem tail {c : α} (h : First key (c :: m) (c :: pre) post) : First key m pre post where
  eq := (List.cons.inj h.eq).2
  least := by
    intro pre' post' heq
    have hle := h.least (c :: pre') post' (by rw [heq, List.cons_append])
    exact Nat.le_of_succ_le_succ hle

end First

/-- A single letter stands first where it does not come before. -/
theorem first_letter {c : α} : First [c] m pre post ↔ m = pre ++ c :: post ∧ c ∉ pre := by
  constructor
  · intro h
    refine ⟨h.eq, fun hc => ?_⟩
    obtain ⟨a, b, rfl⟩ := List.append_of_mem hc
    have hle := h.least a (b ++ c :: post) (by rw [h.eq]; simp)
    rw [List.length_append, List.length_cons] at hle
    omega
  · intro h
    rcases h with ⟨rfl, hc⟩
    refine ⟨rfl, fun pre' post' heq => ?_⟩
    by_contra hlt
    have hget := congrArg (fun l => l[pre'.length]?) heq
    rw [Nat.not_le] at hlt
    simp only [List.getElem?_append_left hlt, List.getElem?_append_right (Nat.le_refl _),
      Nat.sub_self, List.cons_append, List.getElem?_cons_zero] at hget
    exact hc (List.mem_of_getElem? hget)

namespace CMemory

/-- A key with a mark that it holds at its start alone stands behind a part without it. -/
theorem first_of_mark {c : UInt8} {name s : Bytes} (hc : c ∉ name) (hs : ¬ c :: name <:+: s)
    (post : Bytes) : First (c :: name) (s ++ (c :: name ++ post)) s post := by
  induction s with
  | nil => exact First.here post
  | cons b s ih =>
      have hrest := ih fun h => hs (List.infix_cons h)
      refine hrest.cons fun hp => ?_
      obtain ⟨rfl, hname⟩ := List.cons_prefix_cons.mp hp
      have hinside : name <+: s := prefix_of_parts (Parts.cons hc _) hname
      exact hs (List.cons_prefix_cons.mpr ⟨rfl, hinside⟩).isInfix

theorem first_mark_iff {c : UInt8} {name m s post : Bytes} (hc : c ∉ name) :
    First (c :: name) m s post ↔ m = s ++ (c :: name ++ post) ∧ ¬ c :: name <:+: s := by
  constructor
  · intro h
    refine ⟨h.eq, ?_⟩
    intro h
    rcases h with ⟨u, v, rfl⟩
    have hle := h.least u (v ++ (c :: name ++ post)) (by rw [h.eq]; simp)
    rw [List.length_append, List.length_append, List.length_cons] at hle
    omega
  · intro h
    rcases h with ⟨rfl, hs⟩
    exact first_of_mark hc hs post

/-- `strstr` finds the first occurrence, when no NUL comes before it. -/
theorem strstrFrom_iff_first {key m : Bytes} (hne : key ≠ []) (pos q : Nat) :
    strstrFrom key m pos = some (some q) ↔
      ∃ pre post, First key m pre post ∧ 0 ∉ pre ∧ q = pos + pre.length := by
  induction m generalizing pos with
  | nil =>
      refine iff_of_false (by simp [strstrFrom]) ?_
      intro h
      rcases h with ⟨pre, post, h, -⟩
      have hnil := h.eq.symm
      rw [List.append_eq_nil_iff, List.append_eq_nil_iff] at hnil
      exact hne hnil.2.1
  | cons c m ih =>
      by_cases hp : key <+: c :: m
      · rw [strstrFrom_here hne hp]
        rcases hp with ⟨t, ht⟩
        have hhere : First key (c :: m) [] t := ht ▸ First.here t
        constructor
        · intro h
          cases h
          exact ⟨[], t, hhere, List.not_mem_nil, rfl⟩
        · intro h
          rcases h with ⟨pre, post, h, -, rfl⟩
          obtain ⟨rfl, -⟩ := h.unique hhere
          rfl
      · have hkey : key.isPrefixOf (c :: m) = false := by
          rw [Bool.eq_false_iff, ne_eq, List.isPrefixOf_iff_prefix]
          exact hp
        rw [strstrFrom, hkey, if_neg Bool.false_ne_true]
        by_cases hc : c = 0
        · rw [if_pos hc]
          refine iff_of_false (by simp) ?_
          intro h
          rcases h with ⟨pre, post, h, hpre, -⟩
          cases pre with
          | nil => exact hp ⟨post, h.eq.symm⟩
          | cons b pre =>
              obtain ⟨rfl, -⟩ := List.cons.inj h.eq
              exact hpre (hc ▸ List.mem_cons_self)
        · rw [if_neg hc, ih (pos + 1)]
          constructor
          · intro h
            rcases h with ⟨pre, post, h, hpre, rfl⟩
            refine ⟨c :: pre, post, h.cons hp, ?_, by rw [List.length_cons]; omega⟩
            rw [List.mem_cons, not_or]
            exact ⟨Ne.symm hc, hpre⟩
          · intro h
            rcases h with ⟨pre, post, h, hpre, rfl⟩
            cases pre with
            | nil => exact absurd ⟨post, h.eq.symm⟩ hp
            | cons b pre =>
                obtain ⟨rfl, -⟩ := List.cons.inj h.eq
                refine ⟨pre, post, h.tail, fun h0 => hpre (List.mem_cons_of_mem _ h0), ?_⟩
                rw [List.length_cons]
                omega

/-- The key does not stand in the string that the memory begins with. -/
def Absent (key m : Bytes) : Prop := ∃ s rest, m = s ++ 0 :: rest ∧ 0 ∉ s ∧ ¬ key <:+: s

theorem Absent.cons_iff {key m : Bytes} {c : UInt8} (hc : c ≠ 0) (hp : ¬ key <+: c :: m) :
    Absent key (c :: m) ↔ Absent key m := by
  constructor
  · intro h
    rcases h with ⟨s, rest, heq, h0, hs⟩
    cases s with
    | nil => exact absurd (List.cons.inj heq).1 hc
    | cons b s =>
        obtain ⟨-, rfl⟩ := List.cons.inj heq
        exact ⟨s, rest, rfl, fun h => h0 (List.mem_cons_of_mem b h),
          fun h => hs (List.infix_cons h)⟩
  · intro h
    rcases h with ⟨s, rest, rfl, h0, hs⟩
    refine ⟨c :: s, rest, rfl, ?_, ?_⟩
    · rw [List.mem_cons, not_or]
      exact ⟨Ne.symm hc, h0⟩
    · intro hi
      cases List.infix_cons_iff.mp hi with
      | inl hkey => exact hp (hkey.trans (List.prefix_append (c :: s) (0 :: rest)))
      | inr hi => exact hs hi

/-- `strstr` gives the null pointer where the key is absent. -/
theorem strstrFrom_iff_absent {key m : Bytes} (hne : key ≠ []) (h0 : 0 ∉ key) (pos : Nat) :
    strstrFrom key m pos = some none ↔ Absent key m := by
  induction m generalizing pos with
  | nil =>
      refine iff_of_false (by simp [strstrFrom]) ?_
      intro h
      rcases h with ⟨s, rest, heq, -⟩
      cases s <;> cases heq
  | cons c m ih =>
      by_cases hp : key <+: c :: m
      · rw [strstrFrom_here hne hp]
        refine iff_of_false (by simp) ?_
        intro h
        rcases h with ⟨s, rest, heq, -, hs⟩
        rw [heq] at hp
        exact hs (prefix_of_parts (Parts.cons h0 rest) hp).isInfix
      · have hkey : key.isPrefixOf (c :: m) = false := by
          rw [Bool.eq_false_iff, ne_eq, List.isPrefixOf_iff_prefix]
          exact hp
        rw [strstrFrom, hkey, if_neg Bool.false_ne_true]
        by_cases hc : c = 0
        · rw [if_pos hc]
          refine iff_of_true rfl ⟨[], m, by rw [hc, List.nil_append], List.not_mem_nil, ?_⟩
          rw [List.infix_nil]
          exact hne
        · rw [if_neg hc, ih (pos + 1), Absent.cons_iff hc hp]

/-- A search that starts behind `before`. -/
theorem strstr_iff_first {key m : Bytes} (hne : key ≠ []) (before : Bytes)
    {p : Nat} (hp : p = before.length) (q : Nat) :
    strstr (before ++ m) p key = some (some q) ↔
      ∃ pre post, First key m pre post ∧ 0 ∉ pre ∧ q = before.length + pre.length := by
  rw [hp, strstr_append]
  exact strstrFrom_iff_first hne before.length q

/-- A search that comes to a result starts inside the memory. -/
theorem exists_of_strstr {m key : Bytes} {p : Nat} {r : Option Nat} (h : strstr m p key = some r) :
    ∃ before t, m = before ++ t ∧ before.length = p := by
  refine exists_split ?_
  by_contra hlt
  rw [strstr, List.drop_eq_nil_of_le (by omega)] at h
  cases h

theorem strstr_iff_absent {key m : Bytes} (hne : key ≠ []) (h0 : 0 ∉ key) (before : Bytes)
    {p : Nat} (hp : p = before.length) :
    strstr (before ++ m) p key = some none ↔ Absent key m := by
  rw [hp, strstr_append]
  exact strstrFrom_iff_absent hne h0 before.length

theorem strstr_iff_letter {m : Bytes} (before : Bytes) {p : Nat} (hp : p = before.length)
    (c : UInt8) (q : Nat) :
    strstr (before ++ m) p [c] = some (some q) ↔
      ∃ pre post, m = pre ++ c :: post ∧ c ∉ pre ∧ 0 ∉ pre ∧
        q = before.length + pre.length := by
  simp only [strstr_iff_first (List.cons_ne_nil c []) before hp, first_letter, and_assoc]

end CMemory

end Acu.Core
