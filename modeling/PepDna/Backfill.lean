import Mathlib.Data.List.Basic
import Mathlib.Data.Nat.Notation

/-!
# Writers that fill a buffer from its end

A packet whose header holds the length of its body is built backwards: the body is written first,
in front of what is there already, and the header in front of the body. A writer takes a buffer and
the offset of what has been written so far. `Writes f w` says all there is to say about one: it
puts `w` in front of what has been written, leaves everything else as it was, and refuses exactly
if `w` does not fit. The rules below put writers together.
-/

namespace PepDna.Backfill

variable {α : Type}

/-- A buffer of which the part behind `offset` has been written. -/
structure Buf (α : Type) where
  data : List α
  offset : ℕ
  inside : offset ≤ data.length

/-- `refused` is the writer's own error; `outside` is a write in front of the buffer. -/
inductive Fault where
  | refused
  | outside
  deriving Repr, DecidableEq

abbrev Writer (α : Type) := Buf α → Except Fault (Buf α)

def Buf.written (b : Buf α) : List α := b.data.drop b.offset

/-- `buf[--offset] = x`, which asks for no room. -/
def store (x : α) : Writer α := fun b =>
  if h : 0 < b.offset then
    .ok ⟨b.data.set (b.offset - 1) x, b.offset - 1, by
      rw [List.length_set]
      exact Nat.le_trans (Nat.sub_le _ _) b.inside⟩
  else .error .outside

/-- The same behind a test for room. -/
def push (x : α) : Writer α := fun b => if b.offset < 1 then .error .refused else store x b

/-- A copy of `w` to the place in front of the offset, behind a test for room. -/
def put (w : List α) : Writer α := fun b =>
  if h : w.length ≤ b.offset then
    .ok ⟨b.data.take (b.offset - w.length) ++ (w ++ b.data.drop b.offset), b.offset - w.length, by
      have hb := b.inside
      simp only [List.length_append, List.length_take]
      omega⟩
  else .error .refused

def Writes (f : Writer α) (w : List α) : Prop := ∀ b, f b = put w b

theorem Buf.ext' (b c : Buf α) (hd : b.data = c.data) (ho : b.offset = c.offset) : b = c := by
  cases b
  cases c
  cases hd
  cases ho
  rfl

theorem put_ok (w : List α) (b : Buf α) (h : w.length ≤ b.offset) :
    ∃ c, put w b = .ok c ∧ c.offset = b.offset - w.length ∧
      c.data = b.data.take (b.offset - w.length) ++ (w ++ b.data.drop b.offset) :=
  ⟨_, dif_pos h, rfl, rfl⟩

theorem put_refused (w : List α) (b : Buf α) (h : ¬ w.length ≤ b.offset) : put w b = .error .refused :=
  dif_neg h

theorem put_written (w : List α) (b c : Buf α) (h : put w b = .ok c) :
    w.length ≤ b.offset ∧ c.offset = b.offset - w.length ∧ c.written = w ++ b.written ∧
      c.data.length = b.data.length ∧ c.data.take c.offset = b.data.take c.offset := by
  by_cases hw : w.length ≤ b.offset
  · obtain ⟨d, hd, ho, hdata⟩ := put_ok w b hw
    obtain rfl : d = c := Except.ok.inj (hd.symm.trans h)
    have hb := b.inside
    have hlen : (b.data.take (b.offset - w.length)).length = b.offset - w.length := by
      rw [List.length_take]
      omega
    refine ⟨hw, ho, ?_, ?_, ?_⟩
    · rw [Buf.written, hdata, ho, List.drop_left' hlen]
      rfl
    · rw [hdata, List.length_append, hlen, List.length_append, List.length_drop]
      omega
    · rw [hdata, ho, List.take_left' hlen]
  · rw [put_refused w b hw] at h
    exact nomatch h

theorem writes_nil : Writes (fun b : Buf α => .ok b) [] := by
  intro b
  obtain ⟨c, hc, ho, hd⟩ := put_ok [] b (Nat.zero_le _)
  rw [hc]
  refine congrArg Except.ok (Buf.ext' b c ?_ ho.symm)
  rw [hd]
  exact (List.take_append_drop _ _).symm

/- Two copies one in front of the other are one copy. -/
theorem put_bind_put (u v : List α) (b : Buf α) :
    (put u b >>= put v) = put (v ++ u) b := by
  by_cases hu : u.length ≤ b.offset
  · obtain ⟨c, hc, hco, hcd⟩ := put_ok u b hu
    have hlen : (b.data.take (b.offset - u.length)).length = b.offset - u.length := by
      have hb := b.inside
      rw [List.length_take]
      omega
    have hsum : (v ++ u).length = v.length + u.length := List.length_append
    rw [hc]
    change put v c = _
    by_cases hv : v.length ≤ c.offset
    · obtain ⟨d, hd, hdo, hdd⟩ := put_ok v c hv
      obtain ⟨e, he, heo, hed⟩ := put_ok (v ++ u) b (by omega)
      rw [hd, he]
      refine congrArg Except.ok (Buf.ext' d e ?_ (by omega))
      have htake : c.data.take (c.offset - v.length) = b.data.take (b.offset - (v ++ u).length) := by
        rw [hcd, List.take_append_of_le_length (by omega), List.take_take]
        exact congrArg (b.data.take ·) (by omega)
      have hdrop : c.data.drop c.offset = u ++ b.data.drop b.offset := by
        rw [hcd, hco, List.drop_left' hlen]
      rw [hdd, hed, htake, hdrop, List.append_assoc]
    · rw [put_refused v c hv, put_refused (v ++ u) b (by omega)]
  · have hsum : (v ++ u).length = v.length + u.length := List.length_append
    rw [put_refused u b hu, put_refused (v ++ u) b (by omega)]
    rfl

theorem Writes.bind {f g : Writer α} {u v : List α} (hf : Writes f u) (hg : Writes g v) :
    Writes (fun b => f b >>= g) (v ++ u) := by
  intro b
  have hg' : g = put v := funext hg
  simp only [hf b, hg', put_bind_put]

/- A writer that is given the number of bytes the writer before it has written. -/
theorem Writes.enclose {f : Writer α} {u : List α} {g : ℕ → Writer α} {v : ℕ → List α}
    (hf : Writes f u) (hg : Writes (g u.length) (v u.length)) :
    Writes (fun b => f b >>= fun c => g (b.offset - c.offset) c) (v u.length ++ u) := by
  intro b
  have hsame : (f b >>= fun c => g (b.offset - c.offset) c) = (f b >>= g u.length) := by
    rw [hf b]
    by_cases hu : u.length ≤ b.offset
    · obtain ⟨c, hc, hco, -⟩ := put_ok u b hu
      have hdiff : b.offset - c.offset = u.length := by omega
      rw [hc]
      exact congrArg (g · c) hdiff
    · rw [put_refused u b hu]
      rfl
  exact hsame.trans (hf.bind hg b)

theorem store_eq_put (x : α) (b : Buf α) (h : 0 < b.offset) : store x b = put [x] b := by
  obtain ⟨c, hc, ho, hd⟩ := put_ok [x] b h
  rw [hc, store, dif_pos h]
  have hb := b.inside
  have hx : b.offset - 1 + 1 = b.offset := by omega
  have hset : b.data.set (b.offset - 1) x =
      b.data.take (b.offset - 1) ++ (x :: b.data.drop b.offset) := by
    rw [List.set_eq_take_append_cons_drop, if_pos (by omega), hx]
  exact congrArg Except.ok (Buf.ext' _ c (hset.trans hd.symm) ho.symm)

theorem writes_push (x : α) : Writes (push x) [x] := by
  intro b
  by_cases h : b.offset < 1
  · rw [push, if_pos h, put_refused [x] b (by rw [List.length_singleton]; omega)]
  · rw [push, if_neg h, store_eq_put x b (by omega)]

/- A writer that is right wherever there is room, behind a test for that room. -/
theorem writes_guarded {f : Writer α} {w : List α}
    (hf : ∀ b : Buf α, w.length ≤ b.offset → f b = put w b) :
    Writes (fun b => if b.offset < w.length then .error .refused else f b) w := by
  intro b
  by_cases h : b.offset < w.length
  · rw [put_refused w b (by omega)]
    exact if_pos h
  · exact (if_neg h).trans (hf b (by omega))

end PepDna.Backfill
