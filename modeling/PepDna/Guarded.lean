import Mathlib.Logic.Basic

/-!
# Steps that can fail, with an error exit

The shape of initialisation code in C: a step either succeeds and the next one follows, or it
fails, what was done before is undone and the failure is handed on. A step is a function that
says whether it succeeded and which state it leaves.

`Spec` is a triple with two exits.
-/

namespace PepDna

abbrev Proc (σ : Type) := σ → Bool × σ

namespace Proc

variable {σ : Type} {P Q R E : σ → Prop} {f k : Proc σ} {undo : σ → σ}

/-- One call: `ok` says whether it succeeds, `g` is its effect. -/
def attempt (ok : Bool) (g : σ → σ) : Proc σ := fun s => if ok then (true, g s) else (false, s)

/-- `rc = f(); if (rc < 0) { undo(); return rc; }`, followed by `k`. -/
def guarded (f : Proc σ) (undo : σ → σ) (k : Proc σ) : Proc σ := fun s =>
  if (f s).1 then k (f s).2 else (false, undo (f s).2)

/-- What cannot fail. -/
def always (g : σ → σ) : Proc σ := fun s => (true, g s)

/-- From `P`, success leaves `Q` and failure leaves `E`. -/
def Spec (P : σ → Prop) (f : Proc σ) (Q E : σ → Prop) : Prop :=
  ∀ s, P s → if (f s).1 then Q (f s).2 else E (f s).2

theorem Spec.failed (h : Spec P f Q E) {s : σ} (hp : P s) (hf : (f s).1 = false) : E (f s).2 := by
  have := h s hp
  rwa [hf, if_neg Bool.false_ne_true] at this

theorem Spec.succeeded (h : Spec P f Q E) {s : σ} (hp : P s) (hf : (f s).1 = true) :
    Q (f s).2 := by
  have := h s hp
  rwa [hf, if_pos rfl] at this

theorem Spec.weaken (h : Spec P f Q E) (hq : ∀ s, Q s → R s) : Spec P f R E := by
  intro s hp
  have hs := h s hp
  cases hf : (f s).1 with
  | false =>
    rw [hf] at hs
    exact hs
  | true =>
    rw [hf] at hs
    exact hq _ hs

theorem Spec.attempt {ok : Bool} {g : σ → σ} (h : ∀ s, P s → Q (g s)) :
    Spec P (attempt ok g) Q P := by
  intro s hp
  cases ok with
  | false => exact hp
  | true => exact h s hp

theorem Spec.always {g : σ → σ} (h : ∀ s, P s → Q (g s)) : Spec P (always g) Q E :=
  fun s hp => h s hp

/-- The error exit of `f` is `undo`; that of `k` is left to `k`. -/
theorem Spec.guarded (hf : Spec P f Q R) (hu : ∀ s, R s → E (undo s))
    {Q' : σ → Prop} (hk : Spec Q k Q' E) : Spec P (guarded f undo k) Q' E := by
  intro s hp
  have h := hf s hp
  unfold Proc.guarded
  cases hs : (f s).1 with
  | false =>
    rw [hs] at h
    exact hu _ h
  | true =>
    rw [hs] at h
    exact hk _ h

/-- Whether `f` succeeds does not depend on the state. -/
def Answers (f : Proc σ) (c : Bool) : Prop := ∀ s, (f s).1 = c

theorem Answers.attempt (ok : Bool) (g : σ → σ) : Answers (attempt ok g) ok := by
  intro s
  cases ok <;> rfl

theorem Answers.guarded {c c' : Bool} (hf : Answers f c) (hk : Answers k c') :
    Answers (guarded f undo k) (c && c') := by
  intro s
  unfold Proc.guarded
  rw [hf s]
  cases c with
  | false => rfl
  | true => exact hk _

theorem Answers.guarded_always {c : Bool} {g : σ → σ} (hf : Answers f c) :
    Answers (Proc.guarded f undo (always g)) c := by
  have h : Answers (Proc.guarded f undo (always g)) (c && true) := hf.guarded fun _ => rfl
  rwa [Bool.and_true] at h

end Proc

end PepDna
