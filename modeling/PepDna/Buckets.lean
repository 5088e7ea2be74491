import Mathlib.Data.Fin.VecNotation
import Mathlib.Data.List.FinRange
import Mathlib.Data.List.Nodup
import Mathlib.Algebra.BigOperators.Fin

/-!
# Chained hash tables

An array of lists. An element is put at the head of the list that the hash of its key selects,
a lookup walks one list to the first element with the key, and any node can be unlinked. Nothing
makes the keys distinct: `unique_add_iff` says which insertions keep them so.
-/

namespace PepDna

/-- `placed` is what makes a lookup complete: no element is in a list where none looks. -/
structure Buckets (α : Type) {κ : Type} {n : ℕ} (key : α → κ) (hash : κ → Fin n) where
  heads : Fin n → List α
  placed : ∀ b, ∀ e ∈ heads b, hash (key e) = b

namespace Buckets

variable {α κ : Type} {n : ℕ} {key : α → κ} {hash : κ → Fin n}

def empty : Buckets α key hash := ⟨fun _ => [], fun _ _ h => absurd h List.not_mem_nil⟩

/-- All elements, list by list. -/
def entries (t : Buckets α key hash) : List α := (List.finRange n).flatMap t.heads

def find [DecidableEq κ] (t : Buckets α key hash) (k : κ) : Option α :=
  (t.heads (hash k)).find? fun e => key e = k

def add (t : Buckets α key hash) (e : α) : Buckets α key hash where
  heads b := if b = hash (key e) then e :: t.heads b else t.heads b
  placed b f hf := by
    split at hf
    · next hb =>
      rcases List.mem_cons.mp hf with rfl | hf
      · exact hb.symm
      · exact t.placed b f hf
    · exact t.placed b f hf

/-- The node at position `i` of list `b` is unlinked. -/
def del (t : Buckets α key hash) (b : Fin n) (i : ℕ) : Buckets α key hash where
  heads c := if c = b then (t.heads c).eraseIdx i else t.heads c
  placed c e he := by
    split at he
    · exact t.placed c e (List.mem_of_mem_eraseIdx he)
    · exact t.placed c e he

/-- No two nodes of the table have the same key. -/
def Unique (t : Buckets α key hash) : Prop := (t.entries.map key).Nodup

instance [DecidableEq κ] (t : Buckets α key hash) : Decidable t.Unique :=
  inferInstanceAs (Decidable (List.Nodup _))

@[simp] theorem entries_empty : (empty : Buckets α key hash).entries = [] := by
  simp [entries, empty]

theorem mem_entries (t : Buckets α key hash) (e : α) :
    e ∈ t.entries ↔ e ∈ t.heads (hash (key e)) := by
  simp only [entries, List.mem_flatMap, List.mem_finRange, true_and]
  constructor
  · rintro ⟨b, hb⟩
    rwa [t.placed b e hb]
  · intro h
    exact ⟨_, h⟩

section Lookup

variable [DecidableEq κ]

theorem find_eq_none_iff (t : Buckets α key hash) (k : κ) :
    t.find k = none ↔ ∀ e ∈ t.entries, key e ≠ k := by
  rw [find, List.find?_eq_none]
  constructor
  · intro h e he hk
    subst hk
    exact h e ((mem_entries t e).mp he) (by simp)
  · intro h e he
    have hmem : e ∈ t.entries := by
      rw [mem_entries, t.placed _ e he]
      exact he
    simpa using h e hmem

theorem find_eq_some (t : Buckets α key hash) (k : κ) (e : α) (h : t.find k = some e) :
    e ∈ t.entries ∧ key e = k := by
  have hk : key e = k := by simpa using List.find?_some h
  refine ⟨?_, hk⟩
  rw [mem_entries, hk]
  exact List.mem_of_find?_eq_some h

end Lookup

/-- Only nodes of one list can share a key. -/
theorem unique_iff (t : Buckets α key hash) :
    t.Unique ↔ ∀ b, ((t.heads b).map key).Nodup := by
  rw [Unique, entries, List.map_flatMap, List.nodup_flatMap]
  constructor
  · intro h b
    exact h.1 b (List.mem_finRange b)
  · intro h
    refine ⟨fun b _ => h b, (List.nodup_finRange n).imp ?_⟩
    intro b c hbc k hb hc
    obtain ⟨e, he, rfl⟩ := List.mem_map.mp hb
    obtain ⟨f, hf, hfe⟩ := List.mem_map.mp hc
    refine hbc ?_
    rw [← t.placed b e he, ← t.placed c f hf, hfe]

theorem unique_empty : (empty : Buckets α key hash).Unique := by
  simp [Unique]

/-- An insertion keeps the keys distinct exactly when the lookup of the new key fails. -/
theorem unique_add_iff [DecidableEq κ] (t : Buckets α key hash) (e : α) (ht : t.Unique) :
    (t.add e).Unique ↔ t.find (key e) = none := by
  rw [unique_iff] at ht ⊢
  rw [find, List.find?_eq_none]
  constructor
  · intro h f hf hk
    have hb := h (hash (key e))
    simp only [add, if_true, List.map_cons, List.nodup_cons] at hb
    refine hb.1 (List.mem_map.mpr ⟨f, hf, ?_⟩)
    simpa using hk
  · intro h b
    simp only [add]
    split
    · next hb =>
      subst hb
      rw [List.map_cons, List.nodup_cons]
      refine ⟨?_, ht _⟩
      intro hmem
      obtain ⟨f, hf, hk⟩ := List.mem_map.mp hmem
      exact h f hf (by simpa using hk)
    · exact ht b

theorem unique_del (t : Buckets α key hash) (b : Fin n) (i : ℕ) (ht : t.Unique) :
    (t.del b i).Unique := by
  rw [unique_iff] at ht ⊢
  intro c
  simp only [del]
  split
  · exact (ht c).sublist ((List.eraseIdx_sublist _ i).map key)
  · exact ht c

/-- With distinct keys a lookup finds every element under its key. -/
theorem find_of_unique [DecidableEq κ] (t : Buckets α key hash) (ht : t.Unique) (e : α)
    (he : e ∈ t.entries) : t.find (key e) = some e := by
  cases hf : t.find (key e) with
  | none => exact absurd rfl ((find_eq_none_iff t _).mp hf e he)
  | some f =>
    obtain ⟨hmem, hk⟩ := find_eq_some t _ f hf
    rw [List.inj_on_of_nodup_map ht hmem he hk]

/-! ### The number of elements -/

theorem entries_length (t : Buckets α key hash) :
    t.entries.length = ∑ b, (t.heads b).length := by
  rw [entries, List.length_flatMap, Fin.sum_univ_def]

theorem entries_length_add (t : Buckets α key hash) (e : α) :
    (t.add e).entries.length = t.entries.length + 1 := by
  have hb (b : Fin n) : ((t.add e).heads b).length =
      (t.heads b).length + if b = hash (key e) then 1 else 0 := by
    simp only [add]
    split <;> rfl
  simp only [entries_length, hb, Finset.sum_add_distrib, Finset.sum_ite_eq', Finset.mem_univ,
    if_true]

theorem entries_length_del (t : Buckets α key hash) (b : Fin n) (i : ℕ)
    (hi : i < (t.heads b).length) : (t.del b i).entries.length + 1 = t.entries.length := by
  have hc (c : Fin n) : (t.heads c).length =
      ((t.del b i).heads c).length + if c = b then 1 else 0 := by
    simp only [del]
    split
    · next h =>
      subst h
      rw [List.length_eraseIdx_of_lt hi]
      omega
    · rfl
  simp only [entries_length, hc, Finset.sum_add_distrib, Finset.sum_ite_eq', Finset.mem_univ,
    if_true]

end Buckets

end PepDna
