import Mathlib.Data.List.Basic

/-!
# Computations with a record of their accesses

A program that reads from or writes to memory by offset is modelled as a computation that carries,
beside its result, the list of the accesses it has made. Whether they all lie where they should is
then a property of the list, and it splits along the program.
-/

namespace PepDna

structure Traced (ι α : Type) where
  val : α
  log : List ι

namespace Traced

variable {ι α β : Type}

instance : Monad (Traced ι) where
  pure v := ⟨v, []⟩
  bind x f := ⟨(f x.val).val, x.log ++ (f x.val).log⟩

/-- One access `i`, which gives `v`. -/
def access (i : ι) (v : α) : Traced ι α := ⟨v, [i]⟩

/-- Every access of the computation satisfies `P`. -/
def All (P : ι → Prop) (x : Traced ι α) : Prop := ∀ i ∈ x.log, P i

instance (P : ι → Prop) [DecidablePred P] (x : Traced ι α) : Decidable (x.All P) :=
  List.decidableBAll P x.log

@[simp] theorem val_pure (v : α) : (pure v : Traced ι α).val = v := rfl

@[simp] theorem val_bind (x : Traced ι α) (f : α → Traced ι β) : (x >>= f).val = (f x.val).val := rfl

@[simp] theorem val_access (i : ι) (v : α) : (access i v).val = v := rfl

@[simp] theorem all_pure (P : ι → Prop) (v : α) : (pure v : Traced ι α).All P := by
  intro i hi
  cases hi

@[simp] theorem all_bind (P : ι → Prop) (x : Traced ι α) (f : α → Traced ι β) :
    (x >>= f).All P ↔ x.All P ∧ (f x.val).All P := List.forall_mem_append

@[simp] theorem all_access (P : ι → Prop) (i : ι) (v : α) : (access i v).All P ↔ P i :=
  List.forall_mem_singleton

end Traced

end PepDna
