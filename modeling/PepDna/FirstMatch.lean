import Mathlib.Data.List.Basic

/-!
# The first match in a list

A table that is searched from its front: `find` gives the first element that matches, and `modify`
works on that element and leaves the others as they are.
-/

namespace PepDna.FirstMatch

variable {α β : Type} (p q : α → Prop) [DecidablePred p] [DecidablePred q]

def find (l : List α) : Option α := l.find? fun a => decide (p a)

def modify (g : α → α) : List α → List α
  | [] => []
  | a :: l => if p a then g a :: l else a :: modify g l

theorem find_cons (a : α) (l : List α) :
    find p (a :: l) = if p a then some a else find p l := by
  unfold find
  by_cases h : p a
  · rw [List.find?_cons_of_pos (by exact decide_eq_true h), if_pos h]
  · rw [List.find?_cons_of_neg (by simpa using h), if_neg h]

theorem find_spec (l : List α) (a : α) (h : find p l = some a) : a ∈ l ∧ p a := by
  have hp := List.find?_some h
  exact ⟨List.mem_of_find?_eq_some h, of_decide_eq_true hp⟩

/-! ### Only the match counts -/

theorem modify_congr (l : List α) (g g' : α → α) (h : ∀ a, find p l = some a → g a = g' a) :
    modify p g l = modify p g' l := by
  induction l with
  | nil => rfl
  | cons a l ih =>
    simp only [find_cons] at h
    rw [modify, modify]
    by_cases ha : p a
    · rw [if_pos ha, if_pos ha, h a (if_pos ha)]
    · simp only [if_neg ha] at h ⊢
      rw [ih h]

theorem modify_id (l : List α) : modify p (fun a => a) l = l := by
  induction l with
  | nil => rfl
  | cons a l ih => rw [modify, ih, ite_self]

theorem modify_fixed (l : List α) (g : α → α) (h : ∀ a, find p l = some a → g a = a) :
    modify p g l = l :=
  (modify_congr p l g (fun a => a) h).trans (modify_id p l)

theorem modify_none (l : List α) (g : α → α) (h : find p l = none) : modify p g l = l := by
  refine modify_fixed p l g fun a ha => ?_
  rw [h] at ha
  cases ha

theorem map_modify_eq_iff (l : List α) (g : α → α) (f : α → β) (a : α) (h : find p l = some a) :
    (modify p g l).map f = l.map f ↔ f (g a) = f a := by
  induction l with
  | nil => cases h
  | cons b l ih =>
    rw [find_cons] at h
    rw [modify]
    by_cases hb : p b
    · rw [if_pos hb] at h ⊢
      cases h
      simp only [List.map_cons, List.cons.injEq, and_true]
    · rw [if_neg hb] at h ⊢
      simp only [List.map_cons, List.cons.injEq, true_and]
      exact ih h

/-- A map that keeps the matches carries `modify` over. -/
theorem modify_map (r : β → Prop) [DecidablePred r] (f : α → β) (g : α → α) (g' : β → β)
    (hr : ∀ a, r (f a) ↔ p a) (hg : ∀ a, p a → g' (f a) = f (g a)) (l : List α) :
    modify r g' (l.map f) = (modify p g l).map f := by
  induction l with
  | nil => rfl
  | cons a l ih =>
    rw [List.map_cons, modify, modify]
    by_cases ha : p a
    · rw [if_pos ha, if_pos ((hr a).mpr ha), List.map_cons, hg a ha]
    · rw [if_neg ha, if_neg fun h => ha ((hr a).mp h), List.map_cons, ih]

/-! ### Searching again -/

theorem find_modify (l : List α) (g : α → α) (hg : ∀ a, p a → p (g a)) :
    find p (modify p g l) = (find p l).map g := by
  induction l with
  | nil => rfl
  | cons a l ih =>
    rw [modify, find_cons]
    by_cases ha : p a
    · rw [if_pos ha, if_pos ha, find_cons, if_pos (hg a ha)]
      rfl
    · rw [if_neg ha, if_neg ha, find_cons, if_neg ha, ih]

theorem find_modify_other (l : List α) (g : α → α) (hg : ∀ a, p a → ¬q a ∧ ¬q (g a)) :
    find q (modify p g l) = find q l := by
  induction l with
  | nil => rfl
  | cons a l ih =>
    rw [modify]
    by_cases ha : p a
    · rw [if_pos ha, find_cons, find_cons, if_neg (hg a ha).1, if_neg (hg a ha).2]
    · rw [if_neg ha, find_cons, find_cons, ih]

end PepDna.FirstMatch
