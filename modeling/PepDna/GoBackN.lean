import Mathlib.Logic.Relation
import Mathlib.Data.Set.Insert

/-!
# Go-back-N with unbounded numbers

One direction of a reliable channel over a network that loses, duplicates and
reorders. The sender numbers its items from `0`, keeps those from `una` on, and
the receiver takes an item only when its number is `delivered`. The two soups
`data` and `acks` hold everything that was ever on the wire: an item that is
lost is one that is never taken out, a retransmission adds nothing to them.
-/

namespace PepDna.GoBackN

variable {α : Type}

structure State (α : Type) where
  sent : List α
  una : ℕ
  delivered : ℕ
  data : Set (ℕ × α)
  acks : Set ℕ

def init : State α := ⟨[], 0, 0, ∅, ∅⟩

def State.push (s : State α) (a : α) : State α :=
  { s with sent := s.sent ++ [a], data := insert (s.sent.length, a) s.data }

inductive Step : State α → State α → Prop
  | send (s : State α) (a : α) : Step s (s.push a)
  | deliver (s : State α) (a : α) (h : (s.delivered, a) ∈ s.data) :
      Step s { s with delivered := s.delivered + 1, acks := insert (s.delivered + 1) s.acks }
  | reject (s : State α) : Step s { s with acks := insert s.delivered s.acks }
  | ack (s : State α) (k : ℕ) (h : k ∈ s.acks) : Step s { s with una := max s.una k }

abbrev Steps : State α → State α → Prop := Relation.ReflTransGen Step

structure Inv (s : State α) : Prop where
  una_le : s.una ≤ s.delivered
  delivered_le : s.delivered ≤ s.sent.length
  data_sent : ∀ i a, (i, a) ∈ s.data → s.sent[i]? = some a
  acks_le : ∀ k ∈ s.acks, k ≤ s.delivered

theorem init_inv : Inv (init : State α) :=
  ⟨le_rfl, le_rfl, fun _ _ h => h.elim, fun _ h => h.elim⟩

theorem step_inv (s t : State α) (hs : Inv s) (h : Step s t) : Inv t := by
  cases h with
  | send a =>
    refine ⟨hs.una_le, ?_, ?_, hs.acks_le⟩
    · have hd := hs.delivered_le
      simp only [State.push, List.length_append, List.length_singleton]
      omega
    · intro i b hb
      simp only [State.push] at hb ⊢
      rcases Set.mem_insert_iff.mp hb with hb | hb
      · obtain ⟨rfl, rfl⟩ := Prod.mk.inj hb
        simp
      · have hi := hs.data_sent i b hb
        obtain ⟨hlt, -⟩ := List.getElem?_eq_some_iff.mp hi
        rw [List.getElem?_append_left hlt]
        exact hi
  | deliver a ha =>
    obtain ⟨hlt, -⟩ := List.getElem?_eq_some_iff.mp (hs.data_sent _ _ ha)
    refine ⟨Nat.le_succ_of_le hs.una_le, hlt, hs.data_sent, ?_⟩
    intro k hk
    rcases Set.mem_insert_iff.mp hk with rfl | hk
    · exact le_rfl
    · exact Nat.le_succ_of_le (hs.acks_le k hk)
  | reject =>
    refine ⟨hs.una_le, hs.delivered_le, hs.data_sent, ?_⟩
    intro k hk
    rcases Set.mem_insert_iff.mp hk with rfl | hk
    · exact le_rfl
    · exact hs.acks_le k hk
  | ack k hk =>
    exact ⟨max_le hs.una_le (hs.acks_le k hk), hs.delivered_le, hs.data_sent, hs.acks_le⟩

theorem steps_inv (s t : State α) (hs : Inv s) (h : Steps s t) : Inv t := by
  induction h with
  | refl => exact hs
  | tail _ h ih => exact step_inv _ _ ih h

/-- What is on the wire under the expected number is the next item of the sender. -/
theorem take_succ_delivered (s : State α) (hs : Inv s) (a : α) (h : (s.delivered, a) ∈ s.data) :
    s.sent.take (s.delivered + 1) = s.sent.take s.delivered ++ [a] := by
  rw [List.take_add_one, hs.data_sent _ _ h]
  rfl

end PepDna.GoBackN
