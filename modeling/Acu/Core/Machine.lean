import Mathlib.Tactic.Common

/-! # Labelled machines and their runs

A machine is a partial step function: a label without a successor is not enabled
in that state. A run is a list of labels. The rules below carry a state property,
or a condition on the steps, along a whole run; an exact condition is one that
holds at every step precisely when the property holds in every state.
-/

namespace Acu.Core

universe u v

structure Machine (σ : Type u) (α : Type v) where
  step : σ → α → Option σ

namespace Machine

variable {σ : Type u} {α : Type v} (m : Machine σ α)

def run (s : σ) : List α → Option σ
  | [] => some s
  | a :: as => (m.step s a).bind fun t => run t as

/-- `P` holds in `s` and in every state the run passes through. -/
def AllStates (P : σ → Prop) (s : σ) : List α → Prop
  | [] => P s
  | a :: as => P s ∧ ∀ t, m.step s a = some t → AllStates P t as

/-- Every step the run takes satisfies `G` at the state it is taken in. -/
def AllSteps (G : σ → α → Prop) (s : σ) : List α → Prop
  | [] => True
  | a :: as => ∀ t, m.step s a = some t → G s a ∧ AllSteps G t as

@[simp] theorem run_nil (s : σ) : m.run s [] = some s := rfl

@[simp] theorem run_cons (s : σ) (a : α) (as : List α) :
    m.run s (a :: as) = (m.step s a).bind fun t => m.run t as := rfl

theorem run_cons_eq_some {s t : σ} {a : α} {as : List α} (h : m.run s (a :: as) = some t) :
    ∃ r, m.step s a = some r ∧ m.run r as = some t := by
  rw [run_cons] at h
  exact Option.bind_eq_some_iff.mp h

theorem run_append (s : σ) (as bs : List α) :
    m.run s (as ++ bs) = (m.run s as).bind fun t => m.run t bs := by
  induction as generalizing s with
  | nil => rfl
  | cons a as ih =>
      cases h : m.step s a with
      | none => simp [h]
      | some t => simp [h, ih t]

variable {m} in
theorem AllStates.head {P : σ → Prop} {s : σ} {as : List α} (h : m.AllStates P s as) : P s := by
  cases as with
  | nil => exact h
  | cons a as => exact h.1

/-- The states a run passes through are those its prefixes lead to. -/
theorem allStates_iff_prefix {P : σ → Prop} {s : σ} {as : List α} :
    m.AllStates P s as ↔ ∀ pre t, pre <+: as → m.run s pre = some t → P t := by
  induction as generalizing s with
  | nil =>
      constructor
      · intro h pre t hp hr
        rw [List.prefix_nil.mp hp, run_nil, Option.some.injEq] at hr
        exact hr ▸ h
      · intro h
        exact h [] s List.prefix_rfl rfl
  | cons a as ih =>
      constructor
      · rintro ⟨hs, ht⟩ pre t hp hr
        cases pre with
        | nil =>
            rw [run_nil, Option.some.injEq] at hr
            exact hr ▸ hs
        | cons b pre =>
            obtain ⟨rfl, hpre⟩ := List.cons_prefix_cons.mp hp
            obtain ⟨r, hstep, hr⟩ := m.run_cons_eq_some hr
            exact ih.mp (ht r hstep) pre t hpre hr
      · intro h
        refine ⟨h [] s List.nil_prefix rfl, fun t hstep => ih.mpr ?_⟩
        intro pre r hp hr
        refine h (a :: pre) r (List.cons_prefix_cons.mpr ⟨rfl, hp⟩) ?_
        rw [run_cons, hstep, Option.bind_some, hr]

variable {m} in
theorem AllStates.last {P : σ → Prop} {s t : σ} {as : List α} (h : m.AllStates P s as)
    (hr : m.run s as = some t) : P t :=
  m.allStates_iff_prefix.mp h as t List.prefix_rfl hr

variable {m} in
theorem allSteps_of_forall {G : σ → α → Prop} (h : ∀ s a, G s a) (s : σ) (as : List α) :
    m.AllSteps G s as := by
  induction as generalizing s with
  | nil => trivial
  | cons a as ih => exact fun t _ => ⟨h s a, ih t⟩

variable {m} in
theorem AllSteps.cons {G : σ → α → Prop} {s t : σ} {a : α} {as : List α}
    (hs : m.step s a = some t) (hg : G s a) (h : m.AllSteps G t as) :
    m.AllSteps G s (a :: as) := by
  intro r hr
  obtain rfl : t = r := Option.some.inj (hs.symm.trans hr)
  exact ⟨hg, h⟩

/-- The steps of two runs, the second from where the first ends. -/
theorem allSteps_append {G : σ → α → Prop} {s : σ} {as bs : List α} :
    m.AllSteps G s (as ++ bs) ↔
      m.AllSteps G s as ∧ ∀ t, m.run s as = some t → m.AllSteps G t bs := by
  induction as generalizing s with
  | nil => simp [AllSteps]
  | cons a as ih =>
      constructor
      · intro h
        refine ⟨fun t ht => ⟨(h t ht).1, (ih.mp (h t ht).2).1⟩, fun r hr => ?_⟩
        obtain ⟨t, ht, hr⟩ := m.run_cons_eq_some hr
        exact (ih.mp (h t ht).2).2 r hr
      · rintro ⟨has, hbs⟩ t ht
        refine ⟨(has t ht).1, ih.mpr ⟨(has t ht).2, fun r hr => hbs r ?_⟩⟩
        rw [run_cons, ht, Option.bind_some, hr]

section Rules

variable {m} {I P : σ → Prop} {G H : σ → α → Prop}

/-- Invariant rule: what the good steps preserve holds at the end of a run of good steps. -/
theorem run_invariant (hstep : ∀ s a t, I s → G s a → m.step s a = some t → I t)
    {s t : σ} {as : List α} (h0 : I s) (hg : m.AllSteps G s as) (hr : m.run s as = some t) :
    I t := by
  induction as generalizing s with
  | nil =>
      rw [run_nil, Option.some.injEq] at hr
      exact hr ▸ h0
  | cons a as ih =>
      obtain ⟨r, hs, hr⟩ := m.run_cons_eq_some hr
      obtain ⟨hga, hgs⟩ := hg r hs
      exact ih (hstep s a r h0 hga hs) hgs hr

/-- The same rule for every state the run passes through. -/
theorem allStates_of_allSteps (hIP : ∀ s, I s → P s)
    (hstep : ∀ s a t, I s → G s a → m.step s a = some t → I t)
    {s : σ} {as : List α} (h0 : I s) (hg : m.AllSteps G s as) : m.AllStates P s as := by
  induction as generalizing s with
  | nil => exact hIP s h0
  | cons a as ih =>
      refine ⟨hIP s h0, fun t ht => ?_⟩
      obtain ⟨hga, hgs⟩ := hg t ht
      exact ih (hstep s a t h0 hga ht) hgs

/-- With no condition on the steps. -/
theorem allStates_of_preserved (hIP : ∀ s, I s → P s)
    (hstep : ∀ s a t, I s → m.step s a = some t → I t)
    {s : σ} (h0 : I s) (as : List α) : m.AllStates P s as := by
  induction as generalizing s with
  | nil => exact hIP s h0
  | cons a as ih => exact ⟨hIP s h0, fun t ht => ih (hstep s a t h0 ht)⟩

/-- Conditions that agree at the steps of every invariant state agree along a run, when the good
steps keep the invariant. -/
theorem allSteps_congr (hstep : ∀ s a t, I s → G s a → m.step s a = some t → I t)
    (hGH : ∀ s a t, I s → m.step s a = some t → (G s a ↔ H s a))
    {s : σ} (h0 : I s) (as : List α) : m.AllSteps G s as ↔ m.AllSteps H s as := by
  induction as generalizing s with
  | nil => exact Iff.rfl
  | cons a as ih =>
      refine forall_congr' fun t => forall_congr' fun ht => ?_
      rw [← hGH s a t h0 ht]
      exact and_congr_right fun hg => ih (hstep s a t h0 hg ht)

/-- A condition that invariant states make of another one. -/
theorem AllSteps.imp (hstep : ∀ s a t, I s → G s a → m.step s a = some t → I t)
    (hGH : ∀ s a t, I s → G s a → m.step s a = some t → H s a)
    {s : σ} (h0 : I s) {as : List α} (h : m.AllSteps G s as) : m.AllSteps H s as := by
  induction as generalizing s with
  | nil => trivial
  | cons a as ih =>
      intro t ht
      obtain ⟨hga, hgs⟩ := h t ht
      exact ⟨hGH s a t h0 hga ht, ih (hstep s a t h0 hga ht) hgs⟩

/-- Exact condition for a part of the system: every step satisfies `G` precisely when the law `L`
holds along the run and, wherever the run is stopped, along every run of that part alone. -/
theorem allSteps_iff_left_alone {L A : σ → α → Prop}
    (hstep : ∀ s a t, I s → G s a → m.step s a = some t → I t)
    (hlaw : ∀ s a t, I s → G s a → m.step s a = some t → L s a)
    (halone : ∀ s a t, I s → A s a → m.step s a = some t → G s a)
    (hdoom : ∀ s a t, I s → ¬ G s a → m.step s a = some t →
      ∃ bs, m.AllSteps A t bs ∧ ¬ m.AllSteps L t bs)
    {s : σ} (h0 : I s) (as : List α) :
    m.AllSteps G s as ↔ ∀ pre t bs, pre <+: as → m.run s pre = some t → m.AllSteps A t bs →
      m.AllSteps L s (pre ++ bs) := by
  constructor
  · rintro h pre t bs ⟨rest, rfl⟩ hr hbs
    have hpre := ((m.allSteps_append).mp h).1
    have hG : m.AllSteps G s (pre ++ bs) := by
      refine (m.allSteps_append).mpr ⟨hpre, fun r hr' => ?_⟩
      obtain rfl : t = r := Option.some.inj (hr.symm.trans hr')
      exact AllSteps.imp (fun s a t hs ha ht => hstep s a t hs (halone s a t hs ha ht) ht) halone
        (run_invariant hstep h0 hpre hr) hbs
    exact AllSteps.imp hstep hlaw h0 hG
  · intro h
    induction as generalizing s with
    | nil => trivial
    | cons a as ih =>
        intro t ht
        have hga : G s a := by
          by_contra hg
          obtain ⟨bs, hbs, hbroken⟩ := hdoom s a t h0 hg ht
          have hrun : m.run s [a] = some t := by rw [run_cons, ht, Option.bind_some, run_nil]
          have hcons : [a] <+: a :: as := List.cons_prefix_cons.mpr ⟨rfl, List.nil_prefix⟩
          exact hbroken (h [a] t bs hcons hrun hbs t ht).2
        refine ⟨hga, ih (hstep s a t h0 hga ht) ?_⟩
        intro pre r bs hpre hr hbs
        have hrun : m.run s (a :: pre) = some r := by rw [run_cons, ht, Option.bind_some, hr]
        exact (h (a :: pre) r bs (List.cons_prefix_cons.mpr ⟨rfl, hpre⟩) hrun hbs t ht).2

/-- Exact condition: when a step that breaks `G` breaks `P` at once, the runs in
which `P` always holds are precisely the runs in which every step satisfies `G`. -/
theorem allStates_iff_allSteps (hIP : ∀ s, I s → P s)
    (hstep : ∀ s a t, I s → G s a → m.step s a = some t → I t)
    (hbad : ∀ s a t, I s → ¬ G s a → m.step s a = some t → ¬ P t)
    {s : σ} (h0 : I s) (as : List α) : m.AllStates P s as ↔ m.AllSteps G s as := by
  refine ⟨fun h => ?_, allStates_of_allSteps hIP hstep h0⟩
  induction as generalizing s with
  | nil => trivial
  | cons a as ih =>
      intro t ht
      have hga : G s a := by
        by_contra hg
        exact hbad s a t h0 hg ht ((h.2 t ht).head)
      exact ⟨hga, ih (hstep s a t h0 hga ht) (h.2 t ht)⟩

/-- Exact condition for finished runs: a step that breaks `G` dooms the run, and a
doomed run that reaches a final state breaks `P` there. -/
theorem allStates_iff_allSteps_of_final {D F : σ → Prop} (hIP : ∀ s, I s → P s)
    (hstep : ∀ s a t, I s → G s a → m.step s a = some t → I t)
    (hbad : ∀ s a t, I s → ¬ G s a → m.step s a = some t → D t)
    (hdoom : ∀ s a t, D s → m.step s a = some t → D t)
    (hfinal : ∀ s, D s → F s → ¬ P s)
    {s t : σ} {as : List α} (h0 : I s) (hr : m.run s as = some t) (hF : F t) :
    m.AllStates P s as ↔ m.AllSteps G s as := by
  refine ⟨fun h => ?_, allStates_of_allSteps hIP hstep h0⟩
  induction as generalizing s with
  | nil => trivial
  | cons a as ih =>
      obtain ⟨r, hs, hr⟩ := m.run_cons_eq_some hr
      intro r' hs'
      obtain rfl : r = r' := Option.some.inj (hs.symm.trans hs')
      have hga : G s a := by
        by_contra hg
        have hD : D t := run_invariant (G := fun _ _ => True)
          (fun s a t hD _ ht => hdoom s a t hD ht) (hbad s a r h0 hg hs)
          (allSteps_of_forall (fun _ _ => trivial) r as) hr
        exact hfinal t hD hF ((h.2 r hs).last hr)
      exact ⟨hga, ih (hstep s a r h0 hga hs) hr (h.2 r hs)⟩

end Rules

/-- Where every step is followed by one of the abstract function `f`, so is every run. -/
theorem run_follows {τ β : Type*} {f : τ → β → τ} {label : β → α} {R : τ → σ → Prop}
    (hstep : ∀ t s b, R t s → ∃ s', m.step s (label b) = some s' ∧ R (f t b) s') {t : τ} {s : σ}
    (h0 : R t s) (bs : List β) :
    ∃ s', m.run s (bs.map label) = some s' ∧ R (bs.foldl f t) s' := by
  induction bs generalizing t s with
  | nil => exact ⟨s, rfl, h0⟩
  | cons b bs ih =>
      obtain ⟨s', hs', hR⟩ := hstep t s b h0
      obtain ⟨s'', hrun, hend⟩ := ih hR
      refine ⟨s'', ?_, hend⟩
      rw [List.map_cons, run_cons, hs', Option.bind_some, hrun]

end Machine

end Acu.Core
