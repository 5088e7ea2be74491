import PepDna.Basic
import Mathlib.Data.List.Infix

/-!
# The write loop `pepdna_sock_write` (tcp_utils.c:159-202)

One iteration is one call of `kernel_sendmsg`. The loop sleeps, or is overtaken
by other threads, between two iterations, so both proxies step through it one
result at a time. `done` are the first `sent` bytes of the buffer and `rest` the
`left` bytes behind them, so `iov_base` is `rest` and `iov_len` its length.
-/

namespace PepDna

structure SockWrite where
  done : Bytes
  rest : Bytes
  count : ℕ
  deriving Repr, DecidableEq

inductive WriteOut where
  | again (w : SockWrite)
  | ret (rc : Int)
  deriving Repr, DecidableEq

def SockWrite.start (buf : Bytes) : SockWrite := ⟨[], buf, 0⟩

/-- The bytes the socket took when `kernel_sendmsg` returned `rc`. -/
def SockWrite.accepted (w : SockWrite) (rc : Int) : Bytes := w.rest.take rc.toNat

def pepdnaSockWriteIter (w : SockWrite) (rc : Int) : WriteOut :=
  if rc = 0 then
    -- the counter is never reset: the second zero of the whole call ends it
    if w.count + 1 < 2 then .again { w with count := w.count + 1 } else .ret (-EPIPE)
  else if 0 < rc then
    let w' := { w with done := w.done ++ w.accepted rc, rest := w.rest.drop rc.toNat }
    if w'.rest = [] then .ret w'.done.length else .again w'
  else if rc = -EAGAIN then .again w
  else .ret rc

theorem accepted_append_drop (w : SockWrite) (rc : Int) :
    w.accepted rc ++ w.rest.drop rc.toNat = w.rest := List.take_append_drop _ _

theorem accepted_of_nonpos (w : SockWrite) (rc : Int) (h : rc ≤ 0) : w.accepted rc = [] := by
  have h0 : rc.toNat = 0 := Int.toNat_of_nonpos h
  simp only [SockWrite.accepted, h0, List.take_zero]

/-- An iteration that goes on moves exactly the accepted bytes from `rest` to `done`. -/
theorem iter_again (w w' : SockWrite) (rc : Int) (h : pepdnaSockWriteIter w rc = .again w')
    (hr : w.rest ≠ []) :
    w'.done = w.done ++ w.accepted rc ∧ w.accepted rc ++ w'.rest = w.rest ∧ w'.rest ≠ [] := by
  unfold pepdnaSockWriteIter at h
  split at h
  · next hz =>
    rw [accepted_of_nonpos w rc (by omega)]
    split at h
    · cases h
      exact ⟨(List.append_nil _).symm, rfl, hr⟩
    · cases h
  · split at h
    · next hpos =>
      simp only at h
      split at h
      · cases h
      · next hne =>
        cases h
        exact ⟨rfl, accepted_append_drop w rc, hne⟩
    · next hneg =>
      rw [accepted_of_nonpos w rc (by omega)]
      split at h
      · cases h
        exact ⟨(List.append_nil _).symm, rfl, hr⟩
      · cases h

/-- A non-negative return value is the length of the buffer, and all of it was taken. -/
theorem iter_ret_nonneg (w : SockWrite) (rc v : Int) (h : pepdnaSockWriteIter w rc = .ret v)
    (hv : 0 ≤ v) : w.accepted rc = w.rest ∧ v = (w.done ++ w.rest).length := by
  unfold pepdnaSockWriteIter at h
  split at h
  · split at h
    · cases h
    · cases h
      simp [EPIPE] at hv
  · split at h
    · simp only at h
      split at h
      · next he =>
        cases h
        have ha := accepted_append_drop w rc
        rw [he, List.append_nil] at ha
        exact ⟨ha, by rw [ha]⟩
      · cases h
    · next hneg =>
      split at h
      · cases h
      · cases h
        omega

/-- An error return took nothing in its last iteration. -/
theorem iter_ret_neg (w : SockWrite) (rc v : Int) (h : pepdnaSockWriteIter w rc = .ret v)
    (hv : v < 0) : w.accepted rc = [] := by
  apply accepted_of_nonpos
  by_contra hpos
  unfold pepdnaSockWriteIter at h
  rw [if_neg (by omega), if_pos (by omega)] at h
  simp only at h
  split at h
  · cases h
    omega
  · cases h

end PepDna
