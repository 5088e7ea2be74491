import Mathlib.Data.List.Infix
import Mathlib.Data.List.Sort

/-!
# Numbered lists

Items carry a number. A list is numbered from `n` on if its items have the numbers `n + 1`,
`n + 2` and so on; what is taken from it in the order of the numbers is a part of it.
-/

namespace PepDna.Numbering

variable {α : Type} {key : α → ℕ}

/-- The items have the numbers `n + 1`, `n + 2`, … -/
def From (key : α → ℕ) : ℕ → List α → Prop
  | _, [] => True
  | n, a :: l => key a = n + 1 ∧ From key (n + 1) l

theorem from_append {n : ℕ} {l l' : List α} :
    From key n (l ++ l') ↔ From key n l ∧ From key (n + l.length) l' := by
  induction l generalizing n with
  | nil => exact ⟨fun h => ⟨trivial, h⟩, fun h => h.2⟩
  | cons a l ih =>
    have hlen : n + (a :: l).length = n + 1 + l.length := by
      rw [List.length_cons]
      omega
    rw [List.cons_append, hlen]
    exact (and_congr_right fun _ => ih).trans and_assoc.symm

theorem From.bounds {n : ℕ} {l : List α} (h : From key n l) {a : α} (ha : a ∈ l) :
    n < key a ∧ key a ≤ n + l.length := by
  induction l generalizing n with
  | nil => exact absurd ha List.not_mem_nil
  | cons b l ih =>
    rw [List.length_cons]
    rcases List.mem_cons.mp ha with rfl | ha
    · have := h.1
      omega
    · have := ih h.2 ha
      omega

theorem From.key_getElem {n : ℕ} {l : List α} (h : From key n l) (i : ℕ) (hi : i < l.length) :
    key l[i] = n + i + 1 := by
  induction l generalizing n i with
  | nil => exact absurd hi (Nat.not_lt_zero i)
  | cons a l ih =>
    cases i with
    | zero => exact h.1
    | succ i =>
      rw [List.getElem_cons_succ, ih h.2 i (Nat.lt_of_succ_lt_succ hi)]
      omega

theorem From.exists_key {n k : ℕ} {l : List α} (h : From key n l) (hn : n < k)
    (hk : k ≤ n + l.length) : ∃ a ∈ l, key a = k := by
  have hi : k - n - 1 < l.length := by omega
  refine ⟨l[k - n - 1], List.getElem_mem hi, ?_⟩
  rw [h.key_getElem _ hi]
  omega

/-- The number tells the item. -/
theorem From.key_inj {n : ℕ} {l : List α} (h : From key n l) {a b : α} (ha : a ∈ l) (hb : b ∈ l)
    (heq : key a = key b) : a = b := by
  obtain ⟨i, hi, rfl⟩ := List.getElem_of_mem ha
  obtain ⟨j, hj, rfl⟩ := List.getElem_of_mem hb
  rw [h.key_getElem i hi, h.key_getElem j hj] at heq
  have hij : i = j := by omega
  subst hij
  rfl

theorem From.pairwise {n : ℕ} {l : List α} (h : From key n l) :
    l.Pairwise fun a b => key a < key b := by
  induction l generalizing n with
  | nil => exact List.Pairwise.nil
  | cons a l ih =>
    refine List.Pairwise.cons (fun b hb => ?_) (ih h.2)
    rw [h.1]
    exact (h.2.bounds hb).1

/-- Items in the order of their numbers are a sublist. -/
theorem From.sublist {n : ℕ} {l r : List α} (h : From key n l)
    (hr : r.Pairwise fun a b => key a < key b) (hmem : ∀ a ∈ r, a ∈ l) : r.Sublist l := by
  have hnodup : r.Nodup := hr.imp fun hlt heq => Nat.ne_of_lt hlt (congrArg key heq)
  have hsub : r.Subperm l := List.subperm_of_subset hnodup hmem
  have : Std.Antisymm fun a b : α => key a < key b :=
    ⟨fun a b hab hba => absurd hba (Nat.lt_asymm hab)⟩
  exact List.sublist_of_subperm_of_pairwise hsub hr h.pairwise

/-- Items with consecutive numbers stand together. -/
theorem From.isInfix {n m : ℕ} {l r : List α} (h : From key n l) (hr : From key m r)
    (hmem : ∀ a ∈ r, a ∈ l) : r <:+: l := by
  have hslice : ∀ i (hi : i < r.length), l[m - n + i]? = some r[i] := by
    intro i hi
    obtain ⟨j, hj, heq⟩ := List.getElem_of_mem (hmem r[i] (List.getElem_mem hi))
    have hkey := congrArg key heq
    rw [h.key_getElem j hj, hr.key_getElem i hi] at hkey
    -- the first item of `r` is in `l` too, so `n ≤ m`
    have hfirst := (h.bounds (hmem r[0] (List.getElem_mem (Nat.zero_lt_of_lt hi)))).1
    rw [hr.key_getElem 0] at hfirst
    have hidx : m - n + i = j := by omega
    rw [hidx, List.getElem?_eq_getElem hj, heq]
  have htake : (l.drop (m - n)).take r.length = r := by
    refine List.ext_getElem? fun i => ?_
    rw [List.getElem?_take]
    split
    · next hi => rw [List.getElem?_drop, hslice i hi, List.getElem?_eq_getElem hi]
    · next hi => rw [List.getElem?_eq_none (Nat.le_of_not_lt hi)]
  rw [← htake]
  exact (List.take_prefix _ _).isInfix.trans (List.drop_suffix _ _).isInfix

end PepDna.Numbering
