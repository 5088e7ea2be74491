import Mathlib.Logic.Relation
import Mathlib.Data.List.Infix

/-!
# Runs of a partial step function

A system is a function `step : σ → α → Option σ`; `none` means that the action
is not enabled. A run is the list of its actions. Every safety argument of the
development is one of the two invariant rules below.
-/

namespace PepDna.Lts

variable {σ α : Type} {step : σ → α → Option σ}

/-- The state after the actions, `none` if one of them is not enabled. -/
def run (step : σ → α → Option σ) : σ → List α → Option σ
  | s, [] => some s
  | s, a :: as => (step s a).bind fun t => run step t as

theorem run_cons (s : σ) (a : α) (as : List α) :
    run step s (a :: as) = (step s a).bind fun t => run step t as := rfl

theorem run_cons_eq_some (s u : σ) (a : α) (as : List α) :
    run step s (a :: as) = some u ↔ ∃ t, step s a = some t ∧ run step t as = some u := by
  rw [run_cons]
  exact Option.bind_eq_some_iff

theorem run_append (s : σ) (as bs : List α) :
    run step s (as ++ bs) = (run step s as).bind fun t => run step t bs := by
  induction as generalizing s with
  | nil => rfl
  | cons a as ih =>
    simp only [List.cons_append, run_cons]
    cases step s a with
    | none => rfl
    | some t => exact ih t

theorem run_getD (s d : σ) (as : List α) (h : (run step s as).isSome) :
    run step s as = some ((run step s as).getD d) := by
  obtain ⟨t, ht⟩ := Option.isSome_iff_exists.mp h
  rw [ht, Option.getD_some]

/-- Every action of the run meets `ok` in the state in which it is taken. -/
def Along (step : σ → α → Option σ) (ok : σ → α → Prop) : σ → List α → Prop
  | _, [] => True
  | s, a :: as => ok s a ∧ ∀ t, step s a = some t → Along step ok t as

theorem along_and (ok ok' : σ → α → Prop) (s : σ) (as : List α) (h : Along step ok s as)
    (h' : Along step ok' s as) : Along step (fun s a => ok s a ∧ ok' s a) s as := by
  induction as generalizing s with
  | nil => trivial
  | cons a as ih => exact ⟨⟨h.1, h'.1⟩, fun t ht => ih t (h.2 t ht) (h'.2 t ht)⟩

theorem along_suffix (ok : σ → α → Prop) (s t : σ) (as bs : List α)
    (h : Along step ok s (as ++ bs)) (hr : run step s as = some t) : Along step ok t bs := by
  induction as generalizing s with
  | nil =>
    cases hr
    exact h
  | cons a as ih =>
    obtain ⟨u, hu, hr⟩ := (run_cons_eq_some s t a as).mp hr
    exact ih u (h.2 u hu) hr

instance decidableAlong (ok : σ → α → Prop) [∀ s a, Decidable (ok s a)] :
    ∀ s as, Decidable (Along step ok s as)
  | _, [] => isTrue trivial
  | s, a :: as =>
    match h : step s a with
    | none => decidable_of_iff (ok s a) ⟨fun ha => ⟨ha, by simp [h]⟩, fun ha => ha.1⟩
    | some t =>
      have := decidableAlong ok t as
      decidable_of_iff (ok s a ∧ Along step ok t as)
        ⟨fun ha => ⟨ha.1, fun u hu => by cases h.symm.trans hu; exact ha.2⟩,
          fun ha => ⟨ha.1, ha.2 t h⟩⟩

theorem along_of_forall (ok : α → Prop) (s : σ) (as : List α) (h : ∀ a ∈ as, ok a) :
    Along step (fun _ a => ok a) s as := by
  induction as generalizing s with
  | nil => trivial
  | cons a as ih =>
    rw [List.forall_mem_cons] at h
    exact ⟨h.1, fun t _ => ih t h.2⟩

/-- Invariant rule for runs whose actions all meet a condition. -/
theorem run_invariant_along (inv : σ → Prop) (ok : σ → α → Prop)
    (hstep : ∀ s a t, inv s → ok s a → step s a = some t → inv t)
    (s t : σ) (as : List α) (hs : inv s) (hok : Along step ok s as)
    (hr : run step s as = some t) : inv t := by
  induction as generalizing s with
  | nil =>
    cases hr
    exact hs
  | cons a as ih =>
    obtain ⟨u, hu, hr⟩ := (run_cons_eq_some s t a as).mp hr
    exact ih u (hstep s a u hs hok.1 hu) (hok.2 u hu) hr

/-- Invariant rule for arbitrary runs. -/
theorem run_invariant (inv : σ → Prop) (hstep : ∀ s a t, inv s → step s a = some t → inv t)
    (s t : σ) (as : List α) (hs : inv s) (hr : run step s as = some t) : inv t := by
  induction as generalizing s with
  | nil =>
    cases hr
    exact hs
  | cons a as ih =>
    obtain ⟨u, hu, hr⟩ := (run_cons_eq_some s t a as).mp hr
    exact ih u (hstep s a u hs hu) hr

/-- Invariant rule in which the invariant may mention the actions taken, and a step the place it has
in the whole run. -/
theorem run_invariant_history (inv : List α → σ → Prop) (all : List α)
    (hstep : ∀ pre s a post t, all = pre ++ a :: post → inv pre s → step s a = some t →
      inv (pre ++ [a]) t)
    (pre : List α) (s t : σ) (as : List α) (hall : all = pre ++ as) (hs : inv pre s)
    (hr : run step s as = some t) : inv all t := by
  induction as generalizing pre s with
  | nil =>
    cases hr
    rwa [hall, List.append_nil]
  | cons a as ih =>
    obtain ⟨u, hu, hr⟩ := (run_cons_eq_some s t a as).mp hr
    have hu' := hstep pre s a as u hall hs hu
    refine ih (pre ++ [a]) u ?_ hu' hr
    rw [hall, List.append_assoc, List.singleton_append]

/-- Two conditions on actions that agree on the enabled ones, wherever the invariant holds. It need
be kept only by actions that meet the second one. -/
theorem along_congr (inv : σ → Prop) (pre ok ok' : σ → α → Prop)
    (hstep : ∀ s a t, inv s → pre s a → ok' s a → step s a = some t → inv t)
    (hok : ∀ s a t, inv s → pre s a → step s a = some t → (ok s a ↔ ok' s a)) (s t : σ)
    (as : List α) (hs : inv s) (hpre : Along step pre s as) (hr : run step s as = some t) :
    Along step ok s as ↔ Along step ok' s as := by
  induction as generalizing s with
  | nil => exact Iff.rfl
  | cons a as ih =>
    obtain ⟨u, hu, hr⟩ := (run_cons_eq_some s t a as).mp hr
    have hiff (ha : ok' s a) := ih u (hstep s a u hs hpre.1 ha hu) (hpre.2 u hu) hr
    have ha := hok s a u hs hpre.1 hu
    constructor
    · intro h
      refine ⟨ha.mp h.1, fun v hv => ?_⟩
      cases hu.symm.trans hv
      exact (hiff (ha.mp h.1)).mp (h.2 u hu)
    · intro h
      refine ⟨ha.mpr h.1, fun v hv => ?_⟩
      cases hu.symm.trans hv
      exact (hiff h.1).mpr (h.2 u hu)

/-- A renaming of states and actions that commutes with every step of the run. -/
theorem run_map (f : σ → σ) (g : α → α) (inv : σ → Prop) (ok : σ → α → Prop)
    (hstep : ∀ s a, inv s → ok s a → step (f s) (g a) = (step s a).map f)
    (hinv : ∀ s a t, inv s → ok s a → step s a = some t → inv t) (s : σ) (as : List α) (hs : inv s)
    (hok : Along step ok s as) : run step (f s) (as.map g) = (run step s as).map f := by
  induction as generalizing s with
  | nil => rfl
  | cons a as ih =>
    rw [List.map_cons, run_cons, run_cons, hstep s a hs hok.1]
    cases ht : step s a with
    | none => rfl
    | some t => exact ih t (hinv s a t hs hok.1 ht) (hok.2 t ht)

end PepDna.Lts
