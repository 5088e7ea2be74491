import Mathlib.Algebra.GroupWithZero.Nat
import Mathlib.Data.List.Basic
import Mathlib.Data.Nat.Notation

/-!
# Machine words, error numbers and the 4-tuple of a connection
-/

namespace PepDna

abbrev Byte := Fin 256
abbrev Bytes := List Byte

-- one proof for all numerals of the type
instance byteNeZero : NeZero 256 := ⟨by decide⟩

-- `-EAGAIN`, `-ENOMEM`, ... as the kernel returns them
def EAGAIN : Int := 11
def ENOMEM : Int := 12
def EPIPE : Int := 32

/-- Reduction to an unsigned 32-bit field. -/
def u32 (n : ℕ) : ℕ := n % 4294967296

/-- `a - b` on unsigned 32-bit operands. -/
def u32Sub (a b : ℕ) : ℕ := (a + 4294967296 - b) % 4294967296

/-- A 64-bit signed value stored into an unsigned 32-bit field. -/
def u32OfLong (m : Int) : ℕ := (m % 4294967296).toNat

theorem u32_of_lt (n : ℕ) (h : n < 4294967296) : u32 n = n := Nat.mod_eq_of_lt h

/-- `struct syn_tuple`, every field in network byte order. -/
structure SynTuple where
  saddr : ℕ
  source : ℕ
  daddr : ℕ
  dest : ℕ
  deriving Repr, DecidableEq

end PepDna
