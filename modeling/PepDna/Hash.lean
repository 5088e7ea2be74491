import PepDna.Basic
import PepDna.Words

/-!
# The connection identifier (hash.c, hash.h)

Jenkins' 32-bit mix over source address and source port. `be32_to_cpu` swaps the bytes on a
little-endian host and does nothing on a big-endian one. The 16-bit port is widened before it is
swapped, so the two compute different identifiers; but for the codec of MINIP, which is about hosts
of both kinds, the proxies are little-endian.
-/

namespace PepDna
open Words (Endian)

def be32ToCpu (x : UInt32) : UInt32 :=
  (x <<< 24) ||| ((x &&& (0xFF00 : UInt32)) <<< 8) ||| ((x >>> 8) &&& (0xFF00 : UInt32)) |||
    (x >>> 24)

/-- The macro `pepdna_hashmix(a, b, c)`, returning the new values of its three arguments. -/
def pepdnaHashmix (a b c : UInt32) : UInt32 × UInt32 × UInt32 :=
  let a := a - b; let a := a - c; let a := a ^^^ (c >>> 13)
  let b := b - c; let b := b - a; let b := b ^^^ (a <<< 8)
  let c := c - a; let c := c - b; let c := c ^^^ (b >>> 13)
  let a := a - b; let a := a - c; let a := a ^^^ (c >>> 12)
  let b := b - c; let b := b - a; let b := b ^^^ (a <<< 16)
  let c := c - a; let c := c - b; let c := c ^^^ (b >>> 5)
  let a := a - b; let a := a - c; let a := a ^^^ (c >>> 3)
  let b := b - c; let b := b - a; let b := b ^^^ (a <<< 10)
  let c := c - a; let c := c - b; let c := c ^^^ (b >>> 15)
  (a, b, c)

def pepdnaHashSeed : UInt32 := 1315423911

def be32ToCpuOn (e : Endian) (x : UInt32) : UInt32 :=
  match e with
  | .little => be32ToCpu x
  | .big => x

/-- `pepdna_hash32_rjenkins1_2` on a host of byte order `e`, which has loaded address and port. -/
def pepdnaHash32Rjenkins12On (e : Endian) (srcIp srcPort : ℕ) : ℕ :=
  let a := be32ToCpuOn e (UInt32.ofNat srcIp)
  let b := be32ToCpuOn e (UInt32.ofNat (srcPort % 65536))
  let hash := pepdnaHashSeed ^^^ a ^^^ b
  let x : UInt32 := 231232
  let y : UInt32 := 1232
  let (a, b, hash) := pepdnaHashmix a b hash
  let (_, _, hash) := pepdnaHashmix x a hash
  let (_, _, hash) := pepdnaHashmix b y hash
  hash.toNat

def pepdnaHash32Rjenkins12 (srcIp srcPort : ℕ) : ℕ :=
  pepdnaHash32Rjenkins12On .little srcIp srcPort

/-- The id of the connection of a SYN, on both proxies. -/
def SynTuple.hashId (syn : SynTuple) : ℕ := pepdnaHash32Rjenkins12 syn.saddr syn.source

end PepDna
