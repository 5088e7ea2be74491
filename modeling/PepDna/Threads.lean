import Mathlib.Data.List.Basic
import Mathlib.Data.Nat.Notation
import PepDna.Lts

/-!
# Threads over shared state

A pool of threads that take steps one at a time on a shared state. A proof outline gives every
thread an assertion about the shared state and itself, a relation between any two threads, and a
list of things that are due as long as some thread is there to do them. A step keeps the outline
if it keeps what the thread says of itself and does not disturb what the others say.

A thread is not influenced by the others if what it finds in the shared state is always what it
would find there if it were alone.
-/

namespace PepDna

structure Pool (σ τ : Type) where
  shared : σ
  threads : List τ
  deriving Repr, DecidableEq

namespace Pool

variable {σ τ ο : Type}

def spawn (p : Pool σ τ) (t : τ) : Pool σ τ := { p with threads := p.threads ++ [t] }

/-- Thread `i` takes a step. -/
def move (f : σ → τ → Option (σ × τ)) (p : Pool σ τ) (i : ℕ) : Option (Pool σ τ) :=
  (p.threads[i]?).bind fun t => (f p.shared t).map fun r => ⟨r.1, p.threads.set i r.2⟩

/-- Another thread than thread `i`. -/
def Other (p : Pool σ τ) (i : ℕ) (u : τ) : Prop := ∃ j, j ≠ i ∧ p.threads[j]? = some u

theorem move_eq_some (f : σ → τ → Option (σ × τ)) (p q : Pool σ τ) (i : ℕ)
    (h : p.move f i = some q) :
    ∃ t s' t', p.threads[i]? = some t ∧ f p.shared t = some (s', t') ∧
      q = ⟨s', p.threads.set i t'⟩ := by
  obtain ⟨t, ht, h⟩ := Option.bind_eq_some_iff.mp h
  obtain ⟨⟨s', t'⟩, hf, rfl⟩ := Option.map_eq_some_iff.mp h
  exact ⟨t, s', t', ht, hf, rfl⟩

theorem getElem?_set_cases (l : List τ) (i j : ℕ) (t u : τ) (h : (l.set i t)[j]? = some u) :
    (j = i ∧ u = t) ∨ (j ≠ i ∧ l[j]? = some u) := by
  rw [List.getElem?_set] at h
  split at h
  · next hij =>
    split at h
    · cases h
      exact Or.inl ⟨hij.symm, rfl⟩
    · cases h
  · next hij => exact Or.inr ⟨fun hji => hij hji.symm, h⟩

theorem getElem?_append_cases (l : List τ) (j : ℕ) (t u : τ) (h : (l ++ [t])[j]? = some u) :
    (j = l.length ∧ u = t) ∨ (j < l.length ∧ l[j]? = some u) := by
  rcases Nat.lt_or_ge j l.length with hj | hj
  · rw [List.getElem?_append_left hj] at h
    exact Or.inr ⟨hj, h⟩
  · rw [List.getElem?_append_right hj] at h
    have h0 : j - l.length = 0 := by
      have hlt := (List.getElem?_eq_some_iff.mp h).1
      rw [List.length_singleton] at hlt
      omega
    rw [h0] at h
    cases h
    exact Or.inl ⟨by omega, rfl⟩

/-- `due s o`: somebody has to do `o`; `pays o t`: thread `t` is about to. -/
structure Outline (σ τ ο : Type) where
  common : σ → Prop
  each : σ → τ → Prop
  pair : τ → τ → Prop
  due : σ → ο → Prop
  pays : ο → τ → Prop
  pair_symm : ∀ t u, pair t u → pair u t

namespace Outline

structure Holds (O : Outline σ τ ο) (p : Pool σ τ) : Prop where
  common : O.common p.shared
  each : ∀ (i : ℕ) t, p.threads[i]? = some t → O.each p.shared t
  pair : ∀ (i j : ℕ) t u, i ≠ j → p.threads[i]? = some t → p.threads[j]? = some u → O.pair t u
  paid : ∀ o, O.due p.shared o → ∃ (i : ℕ) (t : τ), p.threads[i]? = some t ∧ O.pays o t

/-- What has to be shown of a step of thread `t` from `s` to `s'` and `t'`, beside `others`. -/
structure Keeps (O : Outline σ τ ο) (others : τ → Prop) (s : σ) (t : τ) (s' : σ) (t' : τ) :
    Prop where
  common : O.common s'
  each : O.each s' t'
  free : ∀ u, others u → O.each s u → O.pair t u → O.each s' u
  pair : ∀ u, others u → O.each s u → O.pair t u → O.pair t' u
  paid : ∀ o, O.due s' o → O.pays o t' ∨ (O.due s o ∧ ¬ O.pays o t)

/-- A step that keeps the thread's own assertion and is free of interference keeps the outline. -/
theorem holds_move (O : Outline σ τ ο) (f : σ → τ → Option (σ × τ)) (p q : Pool σ τ) (i : ℕ)
    (hp : O.Holds p) (h : p.move f i = some q)
    (hkeep : ∀ t s' t', p.threads[i]? = some t → f p.shared t = some (s', t') →
      O.Keeps (p.Other i) p.shared t s' t') : O.Holds q := by
  obtain ⟨t, s', t', ht, hf, rfl⟩ := move_eq_some f p q i h
  have hk := hkeep t s' t' ht hf
  have hother (j : ℕ) (u : τ) (hj : j ≠ i) (hu : p.threads[j]? = some u) :
      O.each s' u ∧ O.pair t' u := by
    have heach := hp.each j u hu
    have hpair := hp.pair i j t u hj.symm ht hu
    exact ⟨hk.free u ⟨j, hj, hu⟩ heach hpair, hk.pair u ⟨j, hj, hu⟩ heach hpair⟩
  refine ⟨hk.common, ?_, ?_, ?_⟩
  · intro j u hu
    rcases getElem?_set_cases _ _ _ _ _ hu with ⟨-, rfl⟩ | ⟨hj, hu⟩
    · exact hk.each
    · exact (hother j u hj hu).1
  · intro j k u v hjk hu hv
    rcases getElem?_set_cases _ _ _ _ _ hu with ⟨hj, rfl⟩ | ⟨hj, hu'⟩ <;>
      rcases getElem?_set_cases _ _ _ _ _ hv with ⟨hk', rfl⟩ | ⟨hk', hv'⟩
    · exact absurd (hj.trans hk'.symm) hjk
    · exact (hother k v hk' hv').2
    · exact O.pair_symm _ _ (hother j u hj hu').2
    · exact hp.pair j k u v hjk hu' hv'
  · intro o ho
    have hlen : i < p.threads.length := (List.getElem?_eq_some_iff.mp ht).1
    rcases hk.paid o ho with hpay | ⟨hdue, hnot⟩
    · exact ⟨i, t', List.getElem?_set_self hlen, hpay⟩
    · -- somebody else pays, and is still there
      obtain ⟨j, u, hu, hpay⟩ := hp.paid o hdue
      have hj : j ≠ i := by
        rintro rfl
        cases ht.symm.trans hu
        exact hnot hpay
      exact ⟨j, u, (List.getElem?_set_ne hj.symm).trans hu, hpay⟩

/-- A new thread keeps the outline together with a change of the shared state that nobody minds. -/
theorem holds_spawn (O : Outline σ τ ο) (p : Pool σ τ) (s' : σ) (t : τ) (hp : O.Holds p)
    (hcommon : O.common s') (heach : O.each s' t)
    (hfree : ∀ u, O.each p.shared u → O.each s' u)
    (hpair : ∀ u ∈ p.threads, O.each p.shared u → O.pair t u)
    (hdue : ∀ o, O.due s' o → O.pays o t ∨ O.due p.shared o) :
    O.Holds ⟨s', p.threads ++ [t]⟩ := by
  have hnew (j : ℕ) (u : τ) (hu : p.threads[j]? = some u) : O.pair t u :=
    hpair u (List.mem_of_getElem? hu) (hp.each j u hu)
  refine ⟨hcommon, ?_, ?_, ?_⟩
  · intro j u hu
    rcases getElem?_append_cases _ _ _ _ hu with ⟨-, rfl⟩ | ⟨-, hu⟩
    · exact heach
    · exact hfree u (hp.each j u hu)
  · intro j k u v hjk hu hv
    rcases getElem?_append_cases _ _ _ _ hu with ⟨hj, rfl⟩ | ⟨-, hu'⟩ <;>
      rcases getElem?_append_cases _ _ _ _ hv with ⟨hk, rfl⟩ | ⟨-, hv'⟩
    · exact absurd (hj.trans hk.symm) hjk
    · exact hnew k v hv'
    · exact O.pair_symm _ _ (hnew j u hu')
    · exact hp.pair j k u v hjk hu' hv'
  · intro o ho
    rcases hdue o ho with hpay | hdue
    · exact ⟨p.threads.length, t, by simp, hpay⟩
    · obtain ⟨j, u, hu, hpay⟩ := hp.paid o hdue
      have hj : j < p.threads.length := (List.getElem?_eq_some_iff.mp hu).1
      exact ⟨j, u, (List.getElem?_append_left hj).trans hu, hpay⟩

end Outline

/- ### A thread on its own -/

section Alone

variable {α : Type} (f : α → σ → τ → Option (σ × τ))

/-- Thread `a.1` takes a step with the input `a.2`. -/
def input (p : Pool σ τ) (a : ℕ × α) : Option (Pool σ τ) := p.move (f a.2) a.1

/-- The step of a thread that has the shared state for itself. -/
def alone (c : σ × τ) (x : α) : Option (σ × τ) := f x c.1 c.2

def inputsOf (i : ℕ) (acts : List (ℕ × α)) : List α :=
  acts.filterMap fun a => if a.1 = i then some a.2 else none

theorem inputsOf_cons_self (i : ℕ) (x : α) (acts : List (ℕ × α)) :
    inputsOf i ((i, x) :: acts) = x :: inputsOf i acts := by
  simp [inputsOf]

theorem inputsOf_cons_ne (i j : ℕ) (x : α) (acts : List (ℕ × α)) (h : j ≠ i) :
    inputsOf i ((j, x) :: acts) = inputsOf i acts := by
  simp [inputsOf, h]

/- `own t` is the shared state as thread `t` alone would have left it. -/
theorem run_alone (own : τ → σ) (ok : Pool σ τ → ℕ × α → Prop)
    (hstep : ∀ p i x t s' t', ok p (i, x) → p.threads[i]? = some t →
      f x p.shared t = some (s', t') → f x (own t) t = some (own t', t'))
    (p q : Pool σ τ) (acts : List (ℕ × α)) (hok : Lts.Along (input f) ok p acts)
    (hr : Lts.run (input f) p acts = some q) (i : ℕ) (t : τ) (ht : p.threads[i]? = some t) :
    ∃ t', q.threads[i]? = some t' ∧
      Lts.run (alone f) (own t, t) (inputsOf i acts) = some (own t', t') := by
  induction acts generalizing p t with
  | nil =>
    cases hr
    exact ⟨t, ht, rfl⟩
  | cons a acts ih =>
    obtain ⟨j, x⟩ := a
    obtain ⟨r, hpr, hr⟩ := (Lts.run_cons_eq_some p q (j, x) acts).mp hr
    obtain ⟨u, s', u', hu, hf, rfl⟩ := move_eq_some (f x) p r j hpr
    have hlen : j < p.threads.length := (List.getElem?_eq_some_iff.mp hu).1
    by_cases hj : j = i
    · subst hj
      cases ht.symm.trans hu
      obtain ⟨t', ht', hrun⟩ := ih _ (hok.2 _ hpr) hr u' (List.getElem?_set_self hlen)
      refine ⟨t', ht', ?_⟩
      rw [inputsOf_cons_self]
      exact (Lts.run_cons_eq_some _ _ _ _).mpr
        ⟨(own u', u'), hstep p j x t s' u' hok.1 hu hf, hrun⟩
    · rw [inputsOf_cons_ne i j x acts hj]
      exact ih _ (hok.2 _ hpr) hr t ((List.getElem?_set_ne hj).trans ht)

end Alone

end Pool

end PepDna
