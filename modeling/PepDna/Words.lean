import Mathlib.Algebra.Ring.Nat
import Mathlib.Data.List.Basic

/-!
# Words in the memory of a host

A word of `k` bytes lies in memory with its lowest or with its highest byte first. A program that
exchanges words with hosts of the other kind converts them to network order, highest byte first,
before it stores them and after it has loaded them (`htons`, `htonl` and their inverses). The
lemmas say when the conversion is undone at the other end.
-/

namespace PepDna.Words

inductive Endian where
  | little
  | big
  deriving Repr, DecidableEq

/-- The lowest `k` bytes of a number, lowest first. -/
def digits : ℕ → ℕ → List (Fin 256)
  | 0, _ => []
  | k + 1, v => ⟨v % 256, Nat.mod_lt v (by decide)⟩ :: digits k (v / 256)

def value : List (Fin 256) → ℕ
  | [] => 0
  | b :: bs => b.val + 256 * value bs

def store (e : Endian) (k v : ℕ) : List (Fin 256) :=
  match e with
  | .little => digits k v
  | .big => (digits k v).reverse

def load (e : Endian) (bs : List (Fin 256)) : ℕ :=
  match e with
  | .little => value bs
  | .big => value bs.reverse

/-- The bytes of a word in the other order. -/
def swab (k v : ℕ) : ℕ := value (digits k v).reverse

/-- `htons` and `htonl`, which are also `ntohs` and `ntohl`, for words of `k` bytes. -/
def hton (e : Endian) (k v : ℕ) : ℕ :=
  match e with
  | .little => swab k v
  | .big => v

@[simp] theorem digits_length (k v : ℕ) : (digits k v).length = k := by
  induction k generalizing v with
  | zero => rfl
  | succ k ih => simp only [digits, List.length_cons, ih]

@[simp] theorem store_length (e : Endian) (k v : ℕ) : (store e k v).length = k := by
  cases e with
  | little => exact digits_length k v
  | big => exact List.length_reverse.trans (digits_length k v)

theorem value_digits (k v : ℕ) : value (digits k v) = v % 256 ^ k := by
  induction k generalizing v with
  | zero =>
    rw [digits, value, Nat.pow_zero, Nat.mod_one]
  | succ k ih =>
    rw [digits, value, ih, Nat.pow_succ, Nat.mul_comm (256 ^ k) 256, Nat.mod_mul]

theorem digits_value (bs : List (Fin 256)) : digits bs.length (value bs) = bs := by
  induction bs with
  | nil => rfl
  | cons b bs ih =>
    have hmod : (b.val + 256 * value bs) % 256 = b.val := by omega
    have hdiv : (b.val + 256 * value bs) / 256 = value bs := by omega
    simp only [List.length_cons, value, digits, hmod, hdiv, ih]

theorem load_store (e : Endian) (k v : ℕ) (h : v < 256 ^ k) : load e (store e k v) = v := by
  have hv := (value_digits k v).trans (Nat.mod_eq_of_lt h)
  cases e with
  | little => exact hv
  | big =>
    rw [store, load, List.reverse_reverse]
    exact hv

theorem store_load (e : Endian) (bs : List (Fin 256)) : store e bs.length (load e bs) = bs := by
  cases e with
  | little => exact digits_value bs
  | big =>
    have h := digits_value bs.reverse
    rw [List.length_reverse] at h
    rw [store, load, h, List.reverse_reverse]

theorem digits_swab (k v : ℕ) : digits k (swab k v) = (digits k v).reverse := by
  have h := digits_value (digits k v).reverse
  rwa [List.length_reverse, digits_length] at h

/- What is stored after the conversion is the same on every host. -/
theorem store_hton (e : Endian) (k v : ℕ) : store e k (hton e k v) = store .big k v := by
  cases e with
  | little => exact digits_swab k v
  | big => rfl

/- What is loaded and converted depends on the bytes only. -/
theorem hton_load (e : Endian) (bs : List (Fin 256)) :
    hton e bs.length (load e bs) = load .big bs := by
  cases e with
  | little =>
    rw [hton, load, swab, digits_value]
    rfl
  | big => rfl

theorem hton_load_store (s r : Endian) (k v : ℕ) (h : v < 256 ^ k) :
    hton r k (load r (store s k (hton s k v))) = v := by
  have hl := hton_load r (store s k (hton s k v))
  rw [store_length] at hl
  rw [hl, store_hton, load_store .big k v h]

/- A word that neither end converts arrives on a host of the other kind with its bytes in the
other order. -/
theorem load_store_ne (s r : Endian) (k v : ℕ) (h : s ≠ r) : load r (store s k v) = swab k v := by
  cases s <;> cases r <;> first | exact absurd rfl h | rfl

theorem swab_two_eq_iff (v : ℕ) (h : v < 65536) : swab 2 v = v ↔ v % 257 = 0 := by
  have hs : swab 2 v = v / 256 + 256 * (v % 256) := by
    simp only [swab, digits, List.reverse_cons, List.reverse_nil, List.nil_append, List.cons_append,
      value]
    omega
  obtain ⟨lo, hi, hlo, hhi, rfl⟩ : ∃ lo hi, lo < 256 ∧ hi < 256 ∧ v = lo + 256 * hi :=
    ⟨v % 256, v / 256, by omega, by omega, by omega⟩
  have hdiv : (lo + 256 * hi) / 256 = hi := by omega
  have hmod : (lo + 256 * hi) % 256 = lo := by omega
  rw [hs, hdiv, hmod]
  constructor
  · intro heq
    have hsame : lo = hi := by omega
    omega
  · intro h0
    have hsame : lo = hi := by omega
    omega

end PepDna.Words
