import Mathlib.Data.List.Basic
import Mathlib.Data.Nat.Notation

/-!
# Writing a buffer piece by piece

A writer cuts a buffer into pieces of at most `m` items and hands them over one
after the other until nothing is left or a piece is refused. Whether the `i`-th
piece is taken is `ok i`. With `m = 0` the writer makes no progress.
-/

namespace PepDna.Chunks

variable {α : Type}

/-- The pieces handed over and whether none was refused; `none` if the fuel does not suffice. -/
def pieces (m : ℕ) (ok : ℕ → Bool) : ℕ → ℕ → List α → Option (List (List α) × Bool)
  | 0, _, _ => none
  | _ + 1, _, [] => some ([], true)
  | fuel + 1, i, b :: bs =>
    if ok i then
      (pieces m ok fuel (i + 1) ((b :: bs).drop m)).map fun r => ((b :: bs).take m :: r.1, r.2)
    else some ([], false)

variable {m : ℕ} {ok : ℕ → Bool}

theorem pieces_isSome (hm : 0 < m) (fuel i : ℕ) (left : List α) (h : left.length < fuel) :
    (pieces m ok fuel i left).isSome := by
  induction fuel generalizing i left with
  | zero => omega
  | succ fuel ih =>
    cases left with
    | nil => rfl
    | cons b bs =>
      have hlen : ((b :: bs).drop m).length < fuel := by
        rw [List.length_drop]
        rw [List.length_cons] at h ⊢
        omega
      simp only [pieces]
      split
      · rw [Option.isSome_map]
        exact ih (i + 1) _ hlen
      · rfl

/- The two ways the writer goes on with something left. -/
theorem pieces_cons (fuel i : ℕ) (b : α) (bs : List α) (l : List (List α)) (d : Bool)
    (h : pieces m ok (fuel + 1) i (b :: bs) = some (l, d)) :
    (ok i = false ∧ l = [] ∧ d = false) ∨
      (ok i = true ∧ ∃ r, pieces m ok fuel (i + 1) ((b :: bs).drop m) = some (r, d) ∧
        l = (b :: bs).take m :: r) := by
  simp only [pieces] at h
  split at h
  · next hi =>
    obtain ⟨⟨r, d'⟩, hr, heq⟩ := Option.map_eq_some_iff.mp h
    simp only [Prod.mk.injEq] at heq
    obtain ⟨rfl, rfl⟩ := heq
    exact Or.inr ⟨hi, r, hr, rfl⟩
  · next hi =>
    simp only [Option.some.injEq, Prod.mk.injEq] at h
    exact Or.inl ⟨Bool.eq_false_iff.mpr hi, h.1.symm, h.2.symm⟩

/-- Nothing is handed over exactly if the first piece is refused. -/
theorem pieces_eq_nil_iff (fuel i : ℕ) (b : α) (bs : List α) (l : List (List α)) (d : Bool)
    (h : pieces m ok (fuel + 1) i (b :: bs) = some (l, d)) : l = [] ↔ ok i = false := by
  rcases pieces_cons fuel i b bs l d h with ⟨hi, rfl, -⟩ | ⟨hi, r, -, rfl⟩
  · exact iff_of_true rfl hi
  · exact iff_of_false (by simp) (by simp [hi])

theorem pieces_done_flatten (fuel i : ℕ) (left : List α) (l : List (List α))
    (h : pieces m ok fuel i left = some (l, true)) : l.flatten = left := by
  induction fuel generalizing i left l with
  | zero => cases h
  | succ fuel ih =>
    cases left with
    | nil =>
      cases h
      rfl
    | cons b bs =>
      rcases pieces_cons fuel i b bs l true h with ⟨-, -, hd⟩ | ⟨-, r, hr, rfl⟩
      · cases hd
      · rw [List.flatten_cons, ih _ _ _ hr, List.take_append_drop]

/-- After a refusal something is missing. -/
theorem pieces_refused_length (fuel i : ℕ) (left : List α) (l : List (List α))
    (h : pieces m ok fuel i left = some (l, false)) : l.flatten.length < left.length := by
  induction fuel generalizing i left l with
  | zero => cases h
  | succ fuel ih =>
    cases left with
    | nil => cases h
    | cons b bs =>
      rcases pieces_cons fuel i b bs l false h with ⟨-, rfl, -⟩ | ⟨-, r, hr, rfl⟩
      · simp
      · have hlt := ih _ _ _ hr
        have htake := congrArg List.length (List.take_append_drop m (b :: bs))
        rw [List.length_append] at htake
        rw [List.flatten_cons, List.length_append]
        omega

theorem pieces_length_le (hm : 0 < m) (fuel i : ℕ) (left : List α) (l : List (List α)) (d : Bool)
    (h : pieces m ok fuel i left = some (l, d)) : l.length ≤ left.length := by
  induction fuel generalizing i left l with
  | zero => cases h
  | succ fuel ih =>
    cases left with
    | nil =>
      cases h
      exact Nat.le_refl _
    | cons b bs =>
      rcases pieces_cons fuel i b bs l d h with ⟨-, rfl, -⟩ | ⟨-, r, hr, rfl⟩
      · exact Nat.zero_le _
      · have hle := ih _ _ _ hr
        rw [List.length_drop] at hle
        rw [List.length_cons, List.length_cons] at *
        omega

theorem pieces_mem_length_le (fuel i : ℕ) (left : List α) (l : List (List α)) (d : Bool)
    (h : pieces m ok fuel i left = some (l, d)) : ∀ p ∈ l, p.length ≤ m := by
  induction fuel generalizing i left l with
  | zero => cases h
  | succ fuel ih =>
    cases left with
    | nil =>
      cases h
      exact fun p hp => absurd hp List.not_mem_nil
    | cons b bs =>
      rcases pieces_cons fuel i b bs l d h with ⟨-, rfl, -⟩ | ⟨-, r, hr, rfl⟩
      · exact fun p hp => absurd hp List.not_mem_nil
      · rw [List.forall_mem_cons]
        exact ⟨List.length_take_le _ _, ih _ _ _ hr⟩

/-- Nothing is refused exactly if every piece that starts inside the buffer is taken. -/
theorem pieces_done_iff (fuel i : ℕ) (left : List α) (l : List (List α)) (d : Bool)
    (h : pieces m ok fuel i left = some (l, d)) :
    d = true ↔ ∀ j, j * m < left.length → ok (i + j) = true := by
  induction fuel generalizing i left l with
  | zero => cases h
  | succ fuel ih =>
    cases left with
    | nil =>
      cases h
      simp
    | cons b bs =>
      rcases pieces_cons fuel i b bs l d h with ⟨hi, -, rfl⟩ | ⟨hi, r, hr, -⟩
      · have hnot : ¬∀ j, j * m < (b :: bs).length → ok (i + j) = true := by
          intro hall
          have h0 := hall 0 (by simp)
          rw [Nat.add_zero, hi] at h0
          cases h0
        exact iff_of_false (by simp) hnot
      · rw [ih _ _ _ hr, List.length_drop]
        constructor
        · intro hall j hj
          cases j with
          | zero => exact hi
          | succ j =>
            rw [Nat.succ_mul] at hj
            have hok := hall j (by omega)
            rwa [Nat.add_right_comm] at hok
        · intro hall j hj
          have hok := hall (j + 1) (by rw [Nat.succ_mul]; omega)
          rwa [← Nat.add_assoc, Nat.add_right_comm] at hok

/- ### Pieces of no items -/

theorem pieces_zero_cons (fuel i : ℕ) (b : α) (bs : List α) :
    pieces 0 ok (fuel + 1) i (b :: bs) =
      if ok i then (pieces 0 ok fuel (i + 1) (b :: bs)).map fun r => ([] :: r.1, r.2)
      else some ([], false) := rfl

/-- A writer that makes no progress ends only at a refusal. -/
theorem pieces_zero_stuck (fuel i : ℕ) (b : α) (bs : List α) (h : ∀ j, ok j = true) :
    pieces 0 ok fuel i (b :: bs) = none := by
  induction fuel generalizing i with
  | zero => rfl
  | succ fuel ih => rw [pieces_zero_cons, if_pos (h i), ih, Option.map_none]

theorem pieces_zero_refused (n i : ℕ) (b : α) (bs : List α) (h : ok (i + n) = false) :
    (pieces 0 ok (n + 1) i (b :: bs)).isSome := by
  induction n generalizing i with
  | zero =>
    rw [Nat.add_zero] at h
    rw [pieces_zero_cons, h]
    rfl
  | succ n ih =>
    rw [pieces_zero_cons]
    split
    · rw [Option.isSome_map]
      exact ih (i + 1) (by rwa [Nat.add_right_comm, Nat.add_assoc])
    · rfl

theorem pieces_zero_flatten (fuel i : ℕ) (b : α) (bs : List α) (l : List (List α)) (d : Bool)
    (h : pieces 0 ok fuel i (b :: bs) = some (l, d)) : l.flatten = [] ∧ d = false := by
  induction fuel generalizing i l with
  | zero => cases h
  | succ fuel ih =>
    rcases pieces_cons fuel i b bs l d h with ⟨-, rfl, rfl⟩ | ⟨-, r, hr, rfl⟩
    · exact ⟨rfl, rfl⟩
    · obtain ⟨hr, hd⟩ := ih _ _ hr
      rw [List.take_zero, List.flatten_cons, hr]
      exact ⟨rfl, hd⟩

/- ### Writers that end with everything or nothing handed over -/

def AllOrNothing (m : ℕ) (ok : ℕ → Bool) (left : List α) : Prop :=
  (∃ fuel, (pieces m ok fuel 0 left).isSome) ∧
    ∀ fuel l d, pieces m ok fuel 0 left = some (l, d) → d = true ∨ l.flatten = []

theorem allOrNothing_zero (b : α) (bs : List α) :
    AllOrNothing 0 ok (b :: bs) ↔ ∃ j, ok j = false := by
  constructor
  · rintro ⟨⟨fuel, hsome⟩, -⟩
    by_contra hno
    have hall (j : ℕ) : ok j = true := by
      cases hj : ok j with
      | true => rfl
      | false => exact absurd ⟨j, hj⟩ hno
    rw [pieces_zero_stuck fuel 0 b bs hall] at hsome
    cases hsome
  · rintro ⟨j, hj⟩
    refine ⟨⟨j + 1, pieces_zero_refused j 0 b bs (by rwa [Nat.zero_add])⟩, ?_⟩
    intro fuel l d hp
    exact Or.inr (pieces_zero_flatten fuel 0 b bs l d hp).1

theorem allOrNothing_pos (hm : 0 < m) (b : α) (bs : List α) :
    AllOrNothing m ok (b :: bs) ↔
      ok 0 = false ∨ ∀ j, j * m < (b :: bs).length → ok j = true := by
  have hdone (fuel : ℕ) (l : List (List α)) (d : Bool)
      (hp : pieces m ok fuel 0 (b :: bs) = some (l, d)) :
      d = true ↔ ∀ j, j * m < (b :: bs).length → ok j = true := by
    have hiff := pieces_done_iff fuel 0 (b :: bs) l d hp
    simp only [Nat.zero_add] at hiff
    exact hiff
  have hsome : (pieces m ok ((b :: bs).length + 1) 0 (b :: bs)).isSome :=
    pieces_isSome hm _ 0 (b :: bs) (Nat.lt_succ_self _)
  constructor
  · rintro ⟨-, hall⟩
    obtain ⟨⟨l, d⟩, hp⟩ := Option.isSome_iff_exists.mp hsome
    rcases hall _ l d hp with hd | hl
    · exact Or.inr ((hdone _ l d hp).mp hd)
    · -- the first piece of a positive size is not empty
      rcases pieces_cons _ _ _ _ _ _ hp with ⟨h0, -, -⟩ | ⟨-, r, -, rfl⟩
      · exact Or.inl h0
      · have hm0 : m ≠ 0 := by omega
        simp [hm0] at hl
  · intro hcond
    refine ⟨⟨_, hsome⟩, ?_⟩
    intro fuel l d hp
    rcases hcond with h0 | hall
    · right
      cases fuel with
      | zero => cases hp
      | succ fuel =>
        rw [(pieces_eq_nil_iff _ _ _ _ _ _ hp).mpr h0]
        rfl
    · exact Or.inl ((hdone fuel l d hp).mpr hall)

end PepDna.Chunks
