import PepDna.Basic
import PepDna.Backfill
import PepDna.Words

/-!
# NDN packets, as ccn-lite builds them (ccnl-pkt-ndntlv.c)

The functions `ccnl_ndntlv_prepend...` build a packet from its end. Below each of them stands what
it writes, as a plain function to bytes, and `writes_...` says that it writes that, in front of
what is there, and nothing else.

The numbers are `uint64_t`; `offset`, the buffer and the return value are those of the library.
`e` is the byte order of the host, which only the nonce depends on.
-/

namespace PepDna.Ndn

open PepDna.Backfill

def NDN_TLV_Interest : ℕ := 0x05
def NDN_TLV_Data : ℕ := 0x06
def NDN_TLV_Name : ℕ := 0x07
def NDN_TLV_NameComponent : ℕ := 0x08
def NDN_TLV_Selectors : ℕ := 0x09
def NDN_TLV_Nonce : ℕ := 0x0a
def NDN_TLV_Scope : ℕ := 0x0b
def NDN_TLV_InterestLifetime : ℕ := 0x0c
def NDN_TLV_MinSuffixComponents : ℕ := 0x0d
def NDN_TLV_MaxSuffixComponents : ℕ := 0x0e
def NDN_TLV_MustBeFresh : ℕ := 0x12
def NDN_TLV_MetaInfo : ℕ := 0x14
def NDN_TLV_Content : ℕ := 0x15
def NDN_TLV_SignatureInfo : ℕ := 0x16
def NDN_TLV_SignatureValue : ℕ := 0x17
def NDN_TLV_FreshnessPeriod : ℕ := 0x19
def NDN_TLV_FinalBlockId : ℕ := 0x1a
def NDN_TLV_SignatureType : ℕ := 0x1b
def NDN_TLV_NdnlpFragment : ℕ := 0x52
def NDN_TLV_Fragment : ℕ := 0x64
def NDN_TLV_Frag_BeginEndFields : ℕ := 0x5c

def NDN_Marker_SegmentNumber : Byte := 0x00
def NDN_VAL_SIGTYPE_DIGESTSHA256 : Byte := 0x00
def NDN_VAL_SIGTYPE_HMAC256 : Byte := 0x04

def CCNL_MAX_NAME_COMP : ℕ := 64
def CCNL_MAX_PACKET_SIZE : ℕ := 8096

theorem low_lt (val : ℕ) : val % 256 < 256 := Nat.mod_lt val (Nat.zero_lt_succ 255)

/-- `(uint8_t) (val & 0xffU)` -/
def lowByte (val : ℕ) : Byte := ⟨val % 256, low_lt val⟩

/- ### Types and lengths -/

/-- How many bytes of the number follow the first byte, and the first byte. -/
def tlForm (val : ℕ) : ℕ × Byte :=
  if val < 253 then (0, lowByte val)
  else if val ≤ 0xffff then (2, 253)
  else if val ≤ 0xffffffff then (4, 254)
  else (8, 255)

def storeLow : ℕ → ℕ → Writer Byte
  | 0, _, b => .ok b
  | k + 1, val, b => store (lowByte val) b >>= storeLow k (val / 256)

def prependTLval (val : ℕ) : Writer Byte := fun b =>
  if b.offset < (tlForm val).1 + 1 then .error .refused
  else storeLow (tlForm val).1 val b >>= store (tlForm val).2

def prependTL (type len : ℕ) : Writer Byte := fun b => prependTLval len b >>= prependTLval type

def tlVal (val : ℕ) : Bytes := (tlForm val).2 :: Words.store .big (tlForm val).1 val

def tlv (type : ℕ) (value : Bytes) : Bytes := (tlVal type ++ tlVal value.length) ++ value

theorem store_big_succ (k val : ℕ) :
    Words.store .big (k + 1) val = Words.store .big k (val / 256) ++ [lowByte val] := by
  rw [Words.store, Words.digits, List.reverse_cons]
  rfl

theorem storeLow_eq_put (k val : ℕ) (b : Buf Byte) (h : k ≤ b.offset) :
    storeLow k val b = put (Words.store .big k val) b := by
  induction k generalizing val b with
  | zero => exact writes_nil b
  | succ k ih =>
    obtain ⟨c, hc, hoff, -⟩ := put_ok [lowByte val] b (by rw [List.length_singleton]; omega)
    rw [List.length_singleton] at hoff
    have hstore : store (lowByte val) b = .ok c := (store_eq_put _ b (by omega)).trans hc
    have hrest : storeLow k (val / 256) c = put (Words.store .big k (val / 256)) c :=
      ih (val / 256) c (by omega)
    rw [store_big_succ, ← put_bind_put, hc, storeLow, hstore]
    exact hrest

theorem writes_prependTLval (val : ℕ) : Writes (prependTLval val) (tlVal val) := by
  have hlen : (tlVal val).length = (tlForm val).1 + 1 := by
    rw [tlVal, List.length_cons, Words.store_length]
  have h : Writes (fun b => if b.offset < (tlVal val).length then .error .refused
      else storeLow (tlForm val).1 val b >>= store (tlForm val).2) (tlVal val) := by
    apply writes_guarded
    intro b hb
    obtain ⟨c, hc, hoff, -⟩ := put_ok (Words.store .big (tlForm val).1 val) b
      (by rw [Words.store_length]; omega)
    rw [Words.store_length] at hoff
    rw [storeLow_eq_put _ val b (by omega), hc]
    have hlast := store_eq_put (tlForm val).2 c (by omega)
    have hboth := put_bind_put (Words.store .big (tlForm val).1 val) [(tlForm val).2] b
    rw [hc] at hboth
    exact hlast.trans hboth
  rw [hlen] at h
  exact h

theorem writes_prependTL (type len : ℕ) :
    Writes (prependTL type len) (tlVal type ++ tlVal len) :=
  (writes_prependTLval len).bind (writes_prependTLval type)

/- ### Non-negative integers -/

/-- `while (val) ...`; a `uint64_t` has eight bytes. -/
def valLoop : ℕ → ℕ → ℕ → Buf Byte → Except Fault (ℕ × Buf Byte)
  | 0, _, len, b => .ok (len, b)
  | fuel + 1, val, len, b =>
    if val = 0 then .ok (len, b)
    else push (lowByte val) b >>= valLoop fuel (val / 256) (len + 1)

def fill : List ℕ := [1, 0, 0, 1, 0, 3, 2, 1, 0]

/-- `for (i = 0; i < fill[len]; ++i) ...`, whose body also increments `len`; no entry is over 3. -/
def fillLoop : ℕ → ℕ → ℕ → Writer Byte
  | 0, _, _, b => .ok b
  | fuel + 1, i, len, b =>
    if i < fill.getD len 0 then push 0 b >>= fillLoop fuel (i + 1) (len + 1) else .ok b

def prependNonNegIntVal (val : ℕ) : Writer Byte := fun b =>
  valLoop 8 val 0 b >>= fun r => fillLoop 3 0 r.1 r.2

def prependNonNegInt (type val : ℕ) : Writer Byte := fun b =>
  prependNonNegIntVal val b >>= fun c => prependTL type (b.offset - c.offset) c

def prependIncludedNonNegInt (type val : ℕ) (marker : Byte) : Writer Byte := fun b =>
  (prependNonNegIntVal val b >>= push marker) >>= fun c => prependTL type (b.offset - c.offset) c

/-- The number of bytes of a number without leading zeros. -/
def byteLen : ℕ → ℕ → ℕ
  | 0, _ => 0
  | fuel + 1, val => if val = 0 then 0 else byteLen fuel (val / 256) + 1

/-- How many zeros `fillLoop` writes. -/
def fillCount : ℕ → ℕ → ℕ → ℕ
  | 0, _, _ => 0
  | fuel + 1, i, len => if i < fill.getD len 0 then fillCount fuel (i + 1) (len + 1) + 1 else 0

def width (val : ℕ) : ℕ := byteLen 8 val + fillCount 3 0 (byteLen 8 val)

def nonNegIntVal (val : ℕ) : Bytes := Words.store .big (width val) val

theorem valLoop_eq (fuel val len : ℕ) (b : Buf Byte) :
    valLoop fuel val len b = put (Words.store .big (byteLen fuel val) val) b >>=
      fun c => .ok (len + byteLen fuel val, c) := by
  induction fuel generalizing val len b with
  | zero =>
    have hput : put (Words.store .big 0 val) b = .ok b := (writes_nil b).symm
    rw [byteLen, hput]
    rfl
  | succ fuel ih =>
    by_cases hv : val = 0
    · have hput : put (Words.store .big 0 val) b = .ok b := (writes_nil b).symm
      rw [valLoop, byteLen, if_pos hv, if_pos hv, hput]
      rfl
    · have hsum : len + 1 + byteLen fuel (val / 256) = len + (byteLen fuel (val / 256) + 1) := by
        omega
      rw [valLoop, byteLen, if_neg hv, if_neg hv, store_big_succ, ← put_bind_put,
        writes_push, bind_assoc, ← hsum]
      exact congrArg (put [lowByte val] b >>= ·) (funext fun c => ih (val / 256) (len + 1) c)

theorem writes_fillLoop (fuel i len : ℕ) :
    Writes (fillLoop fuel i len) (List.replicate (fillCount fuel i len) 0) := by
  induction fuel generalizing i len with
  | zero => exact writes_nil
  | succ fuel ih =>
    by_cases hi : i < fill.getD len 0
    · have h := (writes_push (0 : Byte)).bind (ih (i + 1) (len + 1))
      rw [← List.replicate_succ'] at h
      intro b
      rw [fillLoop, fillCount, if_pos hi, if_pos hi]
      exact h b
    · intro b
      rw [fillLoop, fillCount, if_neg hi, if_neg hi]
      exact writes_nil b

theorem lt_pow_byteLen (fuel val : ℕ) (h : val < 256 ^ fuel) : val < 256 ^ byteLen fuel val := by
  induction fuel generalizing val with
  | zero => exact h
  | succ fuel ih =>
    rw [byteLen]
    by_cases hv : val = 0
    · rw [if_pos hv, hv]
      decide
    · rw [if_neg hv]
      have hdiv : val / 256 < 256 ^ fuel := by
        rw [Nat.pow_succ] at h
        omega
      have hlt := ih (val / 256) hdiv
      rw [Nat.pow_succ]
      omega

theorem byteLen_le (fuel val : ℕ) : byteLen fuel val ≤ fuel := by
  induction fuel generalizing val with
  | zero => exact Nat.le_refl 0
  | succ fuel ih =>
    have h := ih (val / 256)
    rw [byteLen]
    split <;> omega

theorem digits_zero (j : ℕ) : Words.digits j 0 = List.replicate j 0 := by
  induction j with
  | zero => rfl
  | succ j ih =>
    rw [List.replicate_succ, ← ih]
    rfl

theorem digits_pad (j k val : ℕ) (h : val < 256 ^ k) :
    Words.digits (k + j) val = Words.digits k val ++ List.replicate j 0 := by
  induction k generalizing val with
  | zero =>
    have hval : val = 0 := by rw [Nat.pow_zero] at h; omega
    rw [hval, Nat.zero_add, digits_zero]
    rfl
  | succ k ih =>
    have hdiv : val / 256 < 256 ^ k := by
      rw [Nat.pow_succ] at h
      omega
    rw [Nat.add_right_comm, Words.digits, Words.digits, ih (val / 256) hdiv, List.cons_append]

theorem writes_prependNonNegIntVal (val : ℕ) (h : val < 2 ^ 64) :
    Writes (prependNonNegIntVal val) (nonNegIntVal val) := by
  have hlt : val < 256 ^ byteLen 8 val := lt_pow_byteLen 8 val (by omega)
  have hbytes : nonNegIntVal val =
      List.replicate (fillCount 3 0 (byteLen 8 val)) 0 ++ Words.store .big (byteLen 8 val) val := by
    rw [nonNegIntVal, width, Words.store, digits_pad _ _ val hlt, List.reverse_append,
      List.reverse_replicate]
    rfl
  intro b
  rw [hbytes, ← put_bind_put, prependNonNegIntVal, valLoop_eq, Nat.zero_add, bind_assoc]
  exact congrArg (put _ b >>= ·) (funext fun c => writes_fillLoop 3 0 (byteLen 8 val) c)

theorem writes_prependNonNegInt (type val : ℕ) (h : val < 2 ^ 64) :
    Writes (prependNonNegInt type val) (tlv type (nonNegIntVal val)) :=
  Writes.enclose (v := fun n => tlVal type ++ tlVal n) (writes_prependNonNegIntVal val h)
    (writes_prependTL type _)

theorem writes_prependIncludedNonNegInt (type val : ℕ) (marker : Byte) (h : val < 2 ^ 64) :
    Writes (prependIncludedNonNegInt type val marker) (tlv type (marker :: nonNegIntVal val)) :=
  Writes.enclose (v := fun n => tlVal type ++ tlVal n)
    ((writes_prependNonNegIntVal val h).bind (writes_push marker)) (writes_prependTL type _)

/- ### Names -/

/-- `struct ccnl_prefix_s`: `comp` with `complen`, and `chunknum`, which may be NULL. -/
structure Prefix where
  comps : List Bytes
  chunknum : Option UInt32
  deriving Repr, DecidableEq

def prependBlob (type : ℕ) (blob : Bytes) : Writer Byte := fun b =>
  put blob b >>= prependTL type blob.length

def prependChunknum (chunknum : Option UInt32) : Writer Byte := fun b =>
  match chunknum with
  | some c => prependIncludedNonNegInt NDN_TLV_NameComponent c.toNat NDN_Marker_SegmentNumber b
  | none => .ok b

/-- `for (cnt = name->compcnt; cnt > 0; cnt--) ...`: the last component is written first. -/
def prependComps : List Bytes → Writer Byte
  | [], b => .ok b
  | comp :: comps, b => prependComps comps b >>= prependBlob NDN_TLV_NameComponent comp

def prependName (name : Prefix) : Writer Byte := fun b =>
  (prependChunknum name.chunknum b >>= prependComps name.comps) >>= fun c =>
    prependTL NDN_TLV_Name (b.offset - c.offset) c

def chunkComp (chunknum : Option UInt32) : List Bytes :=
  match chunknum with
  | some c => [NDN_Marker_SegmentNumber :: nonNegIntVal c.toNat]
  | none => []

/-- The components on the wire: the chunk number has become the last one. -/
def Prefix.wire (name : Prefix) : List Bytes := name.comps ++ chunkComp name.chunknum

def compsVal (comps : List Bytes) : Bytes := (comps.map (tlv NDN_TLV_NameComponent)).flatten

theorem compsVal_cons (comp : Bytes) (comps : List Bytes) :
    compsVal (comp :: comps) = tlv NDN_TLV_NameComponent comp ++ compsVal comps := by
  rw [compsVal, List.map_cons, List.flatten_cons]
  rfl

theorem compsVal_append (comps comps' : List Bytes) :
    compsVal (comps ++ comps') = compsVal comps ++ compsVal comps' := by
  rw [compsVal, List.map_append, List.flatten_append]
  rfl

theorem writes_prependBlob (type : ℕ) (blob : Bytes) :
    Writes (prependBlob type blob) (tlv type blob) :=
  Writes.bind (f := put blob) (fun _ => rfl) (writes_prependTL type blob.length)

theorem writes_prependComps (comps : List Bytes) : Writes (prependComps comps) (compsVal comps) := by
  induction comps with
  | nil => exact writes_nil
  | cons comp comps ih =>
    rw [compsVal_cons]
    exact ih.bind (writes_prependBlob NDN_TLV_NameComponent comp)

theorem uint32_lt (n : UInt32) : n.toNat < 2 ^ 64 := by
  have h := n.toNat_lt
  omega

theorem writes_prependChunknum (chunknum : Option UInt32) :
    Writes (prependChunknum chunknum) (compsVal (chunkComp chunknum)) := by
  cases chunknum with
  | none => exact writes_nil
  | some c =>
    have hval : compsVal (chunkComp (some c)) = tlv NDN_TLV_NameComponent
        (NDN_Marker_SegmentNumber :: nonNegIntVal c.toNat) := List.append_nil _
    rw [hval]
    exact writes_prependIncludedNonNegInt _ _ _ (uint32_lt c)

theorem writes_prependName (name : Prefix) :
    Writes (prependName name) (tlv NDN_TLV_Name (compsVal name.wire)) := by
  have hbody := (writes_prependChunknum name.chunknum).bind (writes_prependComps name.comps)
  rw [← compsVal_append] at hbody
  exact Writes.enclose (v := fun n => tlVal NDN_TLV_Name ++ tlVal n) hbody (writes_prependTL _ _)

/- ### Interests -/

/-- `struct ccnl_ndntlv_interest_opts_s` -/
structure InterestOpts where
  nonce : UInt32
  mustbefresh : UInt8
  interestlifetime : UInt32
  deriving Repr, DecidableEq

def prependScope (scope : ℤ) : Writer Byte := fun b =>
  if 0 ≤ scope then
    if 2 < scope then .error .refused else prependNonNegInt NDN_TLV_Scope scope.toNat b
  else .ok b

def prependInterestLifetime (interestlifetime : UInt32) : Writer Byte := fun b =>
  if interestlifetime ≠ 0 then
    prependNonNegInt NDN_TLV_InterestLifetime interestlifetime.toNat b
  else .ok b

def prependSelectors (mustbefresh : UInt8) : Writer Byte := fun b =>
  if mustbefresh ≠ 0 then
    prependTL NDN_TLV_MustBeFresh 0 b >>= fun c =>
      prependTL NDN_TLV_Selectors (b.offset - c.offset) c
  else .ok b

def interestBody (e : Words.Endian) (name : Prefix) (scope : ℤ) (opts : InterestOpts) :
    Writer Byte := fun b => do
  let b ← prependScope scope b
  let b ← prependInterestLifetime opts.interestlifetime b
  let b ← prependBlob NDN_TLV_Nonce (Words.store e 4 opts.nonce.toNat) b
  let b ← prependSelectors opts.mustbefresh b
  prependName name b

def prependInterestK (e : Words.Endian) (name : Prefix) (scope : ℤ) (opts : InterestOpts) :
    Writer Byte := fun b =>
  interestBody e name scope opts b >>= fun c => prependTL NDN_TLV_Interest (b.offset - c.offset) c

/-- `opts` with a nonce; `prandom` is what `prandom_u32` returns. -/
def InterestOpts.withNonce (opts : InterestOpts) (prandom : UInt32) : InterestOpts :=
  if opts.nonce = 0 then { opts with nonce := prandom } else opts

/-- For a name of the suite NDNTLV. -/
def mkInterestK (e : Words.Endian) (name : Prefix) (opts : InterestOpts) (prandom : UInt32) :
    Writer Byte := prependInterestK e name (-1) (opts.withNonce prandom)

/-- The bytes of the `ccnl_buf_s`, or NULL. `tmp` is what `kmalloc` returned. -/
def mkSimpleInterestK (e : Words.Endian) (name : Prefix) (opts : InterestOpts) (prandom : UInt32)
    (tmp : { d : Bytes // d.length = CCNL_MAX_PACKET_SIZE }) : Option Bytes :=
  match mkInterestK e name opts prandom ⟨tmp.1, CCNL_MAX_PACKET_SIZE, Nat.le_of_eq tmp.2.symm⟩ with
  | .error _ => none
  | .ok c =>
    if CCNL_MAX_PACKET_SIZE - c.offset > 0 then
      some ((c.data.drop c.offset).take (CCNL_MAX_PACKET_SIZE - c.offset))
    else none

def scopeVal (scope : ℤ) : Bytes :=
  if 0 ≤ scope then tlv NDN_TLV_Scope (nonNegIntVal scope.toNat) else []

def lifetimeVal (interestlifetime : UInt32) : Bytes :=
  if interestlifetime ≠ 0 then
    tlv NDN_TLV_InterestLifetime (nonNegIntVal interestlifetime.toNat)
  else []

def selectorsVal (mustbefresh : UInt8) : Bytes :=
  if mustbefresh ≠ 0 then tlv NDN_TLV_Selectors (tlv NDN_TLV_MustBeFresh []) else []

def interestVal (e : Words.Endian) (name : Prefix) (scope : ℤ) (opts : InterestOpts) : Bytes :=
  tlv NDN_TLV_Name (compsVal name.wire) ++ (selectorsVal opts.mustbefresh ++
    (tlv NDN_TLV_Nonce (Words.store e 4 opts.nonce.toNat) ++
      (lifetimeVal opts.interestlifetime ++ scopeVal scope)))

theorem writes_prependScope (scope : ℤ) (h : scope ≤ 2) :
    Writes (prependScope scope) (scopeVal scope) := by
  intro b
  by_cases h0 : 0 ≤ scope
  · rw [prependScope, scopeVal, if_pos h0, if_pos h0, if_neg (by omega)]
    exact writes_prependNonNegInt _ _ (by omega) b
  · rw [prependScope, scopeVal, if_neg h0, if_neg h0]
    exact writes_nil b

theorem writes_prependInterestLifetime (interestlifetime : UInt32) :
    Writes (prependInterestLifetime interestlifetime) (lifetimeVal interestlifetime) := by
  intro b
  by_cases h0 : interestlifetime ≠ 0
  · rw [prependInterestLifetime, lifetimeVal, if_pos h0, if_pos h0]
    exact writes_prependNonNegInt _ _ (uint32_lt _) b
  · rw [prependInterestLifetime, lifetimeVal, if_neg h0, if_neg h0]
    exact writes_nil b

theorem writes_prependSelectors (mustbefresh : UInt8) :
    Writes (prependSelectors mustbefresh) (selectorsVal mustbefresh) := by
  have hone : Writes (prependTL NDN_TLV_MustBeFresh 0) (tlv NDN_TLV_MustBeFresh []) := by
    rw [tlv, List.append_nil]
    exact writes_prependTL NDN_TLV_MustBeFresh 0
  have hsel := Writes.enclose (v := fun n => tlVal NDN_TLV_Selectors ++ tlVal n) hone
    (writes_prependTL NDN_TLV_Selectors _)
  intro b
  by_cases h0 : mustbefresh ≠ 0
  · rw [prependSelectors, selectorsVal, if_pos h0, if_pos h0]
    exact hsel b
  · rw [prependSelectors, selectorsVal, if_neg h0, if_neg h0]
    exact writes_nil b

theorem writes_interestBody (e : Words.Endian) (name : Prefix) (scope : ℤ) (opts : InterestOpts)
    (h : scope ≤ 2) :
    Writes (interestBody e name scope opts) (interestVal e name scope opts) := by
  have hlife := (writes_prependScope scope h).bind
    (writes_prependInterestLifetime opts.interestlifetime)
  have hnonce := hlife.bind
    (writes_prependBlob NDN_TLV_Nonce (Words.store e 4 opts.nonce.toNat))
  have hsel := hnonce.bind (writes_prependSelectors opts.mustbefresh)
  have hname := hsel.bind (writes_prependName name)
  intro b
  rw [interestVal, ← hname b]
  simp only [bind_assoc]
  rfl

theorem writes_prependInterestK (e : Words.Endian) (name : Prefix) (scope : ℤ)
    (opts : InterestOpts) (h : scope ≤ 2) :
    Writes (prependInterestK e name scope opts)
      (tlv NDN_TLV_Interest (interestVal e name scope opts)) :=
  Writes.enclose (v := fun n => tlVal NDN_TLV_Interest ++ tlVal n)
    (writes_interestBody e name scope opts h) (writes_prependTL _ _)

theorem prependInterestK_refused (e : Words.Endian) (name : Prefix) (scope : ℤ)
    (opts : InterestOpts) (b : Buf Byte) (h : 2 < scope) :
    prependInterestK e name scope opts b = .error .refused := by
  have hscope : prependScope scope b = .error .refused := by
    rw [prependScope, if_pos (by omega), if_pos h]
  rw [prependInterestK, interestBody, hscope]
  rfl

/- The checks for room along the way are enough for every write. -/
theorem prependInterestK_outcome (e : Words.Endian) (name : Prefix) (scope : ℤ)
    (opts : InterestOpts) (b : Buf Byte) :
    (∃ c, prependInterestK e name scope opts b = .ok c ∧ scope ≤ 2 ∧
      c.written = tlv NDN_TLV_Interest (interestVal e name scope opts) ++ b.written ∧
      c.data.length = b.data.length ∧ c.data.take c.offset = b.data.take c.offset) ∨
    (prependInterestK e name scope opts b = .error .refused ∧
      (2 < scope ∨ b.offset < (tlv NDN_TLV_Interest (interestVal e name scope opts)).length)) := by
  by_cases hs : scope ≤ 2
  · have hw := writes_prependInterestK e name scope opts hs b
    by_cases hfit : (tlv NDN_TLV_Interest (interestVal e name scope opts)).length ≤ b.offset
    · obtain ⟨c, hc, -⟩ := put_ok _ b hfit
      obtain ⟨-, -, hwritten, hlen, hframe⟩ := put_written _ b c hc
      exact .inl ⟨c, hw.trans hc, hs, hwritten, hlen, hframe⟩
    · exact .inr ⟨hw.trans (put_refused _ b hfit), .inr (by omega)⟩
  · exact .inr ⟨prependInterestK_refused e name scope opts b (by omega), .inl (by omega)⟩

theorem mkSimpleInterestK_eq (e : Words.Endian) (name : Prefix) (opts : InterestOpts)
    (prandom : UInt32) (tmp : { d : Bytes // d.length = CCNL_MAX_PACKET_SIZE }) :
    mkSimpleInterestK e name opts prandom tmp =
      if (tlv NDN_TLV_Interest (interestVal e name (-1) (opts.withNonce prandom))).length ≤
          CCNL_MAX_PACKET_SIZE
      then some (tlv NDN_TLV_Interest (interestVal e name (-1) (opts.withNonce prandom)))
      else none := by
  obtain ⟨tmp, htmp⟩ := tmp
  let b : Buf Byte := ⟨tmp, CCNL_MAX_PACKET_SIZE, Nat.le_of_eq htmp.symm⟩
  let pkt := tlv NDN_TLV_Interest (interestVal e name (-1) (opts.withNonce prandom))
  have hw : mkInterestK e name opts prandom b = put pkt b :=
    writes_prependInterestK e name (-1) _ (by decide) b
  have hpos : 0 < pkt.length := Nat.succ_pos _
  by_cases hfit : pkt.length ≤ CCNL_MAX_PACKET_SIZE
  · obtain ⟨c, hc, -⟩ := put_ok pkt b hfit
    obtain ⟨-, hoff, hwritten, -⟩ := put_written pkt b c hc
    have hlen : CCNL_MAX_PACKET_SIZE - c.offset = pkt.length := by
      rw [hoff]
      exact Nat.sub_sub_self hfit
    have hnil : b.written = [] := List.drop_of_length_le (Nat.le_of_eq htmp)
    have htake : (c.data.drop c.offset).take pkt.length = pkt := by
      change c.written.take pkt.length = pkt
      rw [hwritten, hnil, List.append_nil, List.take_length]
    rw [mkSimpleInterestK, hw, hc, if_pos hfit]
    simp only [hlen, htake, gt_iff_lt, hpos, if_true]
    rfl
  · rw [mkSimpleInterestK, hw, put_refused pkt b hfit, if_neg hfit]

/- ### Data -/

/-- `struct ccnl_ndntlv_data_opts_s` -/
structure DataOpts where
  freshnessperiod : UInt32
  finalblockid : UInt32
  deriving Repr, DecidableEq

def prependSignatureInfo : Writer Byte := fun b =>
  prependBlob NDN_TLV_SignatureType [NDN_VAL_SIGTYPE_DIGESTSHA256] b >>= fun c =>
    prependTL NDN_TLV_SignatureInfo (b.offset - c.offset) c

-- `finalblockid != UINT32_MAX`
def prependFinalBlockId (finalblockid : UInt32) : Writer Byte := fun b =>
  if finalblockid ≠ 0xffffffff then
    prependIncludedNonNegInt NDN_TLV_NameComponent finalblockid.toNat NDN_Marker_SegmentNumber b
      >>= fun c => prependTL NDN_TLV_FinalBlockId (b.offset - c.offset) c
  else .ok b

def prependFreshnessPeriod (freshnessperiod : UInt32) : Writer Byte := fun b =>
  if freshnessperiod ≠ 0 then prependNonNegInt NDN_TLV_FreshnessPeriod freshnessperiod.toNat b
  else .ok b

def metaInfoFields (opts : Option DataOpts) : Writer Byte := fun b =>
  match opts with
  | some opts => prependFinalBlockId opts.finalblockid b >>= prependFreshnessPeriod opts.freshnessperiod
  | none => .ok b

def prependMetaInfo (opts : Option DataOpts) : Writer Byte := fun b =>
  metaInfoFields opts b >>= fun c => prependTL NDN_TLV_MetaInfo (b.offset - c.offset) c

def contentBody (name : Prefix) (payload : Bytes) (opts : Option DataOpts) : Writer Byte :=
  fun b => do
  let b ← prependTL NDN_TLV_SignatureValue 0 b
  let b ← prependSignatureInfo b
  let b ← prependBlob NDN_TLV_Content payload b
  let b ← prependMetaInfo opts b
  prependName name b

def prependData (name : Prefix) (payload : Bytes) (opts : Option DataOpts) : Writer Byte :=
  fun b => contentBody name payload opts b >>= fun c =>
    prependTL NDN_TLV_Data (b.offset - c.offset) c

/-- With `*contentpos`, which is computed as if nothing followed the content. -/
def prependContent (name : Prefix) (payload : Bytes) (opts : Option DataOpts) (b : Buf Byte) :
    Except Fault (Buf Byte × ℕ) :=
  (prependData name payload opts b).map fun c => (c, b.offset - payload.length - c.offset)

def finalBlockIdVal (finalblockid : UInt32) : Bytes :=
  if finalblockid ≠ 0xffffffff then
    tlv NDN_TLV_FinalBlockId
      (tlv NDN_TLV_NameComponent (NDN_Marker_SegmentNumber :: nonNegIntVal finalblockid.toNat))
  else []

def freshnessPeriodVal (freshnessperiod : UInt32) : Bytes :=
  if freshnessperiod ≠ 0 then
    tlv NDN_TLV_FreshnessPeriod (nonNegIntVal freshnessperiod.toNat)
  else []

def metaInfoVal (opts : Option DataOpts) : Bytes :=
  match opts with
  | some opts => freshnessPeriodVal opts.freshnessperiod ++ finalBlockIdVal opts.finalblockid
  | none => []

def signatureVal : Bytes :=
  tlv NDN_TLV_SignatureInfo (tlv NDN_TLV_SignatureType [NDN_VAL_SIGTYPE_DIGESTSHA256]) ++
    tlv NDN_TLV_SignatureValue []

def contentVal (name : Prefix) (payload : Bytes) (opts : Option DataOpts) : Bytes :=
  tlv NDN_TLV_Name (compsVal name.wire) ++ (tlv NDN_TLV_MetaInfo (metaInfoVal opts) ++
    (tlv NDN_TLV_Content payload ++ signatureVal))

theorem writes_prependSignature :
    Writes (fun b => prependTL NDN_TLV_SignatureValue 0 b >>= prependSignatureInfo)
      signatureVal := by
  have hvalue : Writes (prependTL NDN_TLV_SignatureValue 0) (tlv NDN_TLV_SignatureValue []) := by
    rw [tlv, List.append_nil]
    exact writes_prependTL NDN_TLV_SignatureValue 0
  have hinfo : Writes prependSignatureInfo _ :=
    Writes.enclose (v := fun n => tlVal NDN_TLV_SignatureInfo ++ tlVal n)
      (writes_prependBlob NDN_TLV_SignatureType [NDN_VAL_SIGTYPE_DIGESTSHA256])
      (writes_prependTL _ _)
  exact hvalue.bind hinfo

theorem writes_prependFinalBlockId (finalblockid : UInt32) :
    Writes (prependFinalBlockId finalblockid) (finalBlockIdVal finalblockid) := by
  have hid := Writes.enclose (v := fun n => tlVal NDN_TLV_FinalBlockId ++ tlVal n)
    (writes_prependIncludedNonNegInt NDN_TLV_NameComponent _ NDN_Marker_SegmentNumber
      (uint32_lt finalblockid)) (writes_prependTL NDN_TLV_FinalBlockId _)
  intro b
  by_cases h : finalblockid ≠ 0xffffffff
  · rw [prependFinalBlockId, finalBlockIdVal, if_pos h, if_pos h]
    exact hid b
  · rw [prependFinalBlockId, finalBlockIdVal, if_neg h, if_neg h]
    exact writes_nil b

theorem writes_prependFreshnessPeriod (freshnessperiod : UInt32) :
    Writes (prependFreshnessPeriod freshnessperiod) (freshnessPeriodVal freshnessperiod) := by
  intro b
  by_cases h : freshnessperiod ≠ 0
  · rw [prependFreshnessPeriod, freshnessPeriodVal, if_pos h, if_pos h]
    exact writes_prependNonNegInt _ _ (uint32_lt _) b
  · rw [prependFreshnessPeriod, freshnessPeriodVal, if_neg h, if_neg h]
    exact writes_nil b

theorem writes_prependMetaInfo (opts : Option DataOpts) :
    Writes (prependMetaInfo opts) (tlv NDN_TLV_MetaInfo (metaInfoVal opts)) := by
  have hfields : Writes (metaInfoFields opts) (metaInfoVal opts) := by
    cases opts with
    | none => exact writes_nil
    | some opts => exact (writes_prependFinalBlockId _).bind (writes_prependFreshnessPeriod _)
  exact Writes.enclose (v := fun n => tlVal NDN_TLV_MetaInfo ++ tlVal n) hfields
    (writes_prependTL _ _)

theorem writes_prependData (name : Prefix) (payload : Bytes) (opts : Option DataOpts) :
    Writes (prependData name payload opts)
      (tlv NDN_TLV_Data (contentVal name payload opts)) := by
  have hcontent := writes_prependSignature.bind (writes_prependBlob NDN_TLV_Content payload)
  have hmeta := hcontent.bind (writes_prependMetaInfo opts)
  have hname := hmeta.bind (writes_prependName name)
  have hbody : Writes (contentBody name payload opts) (contentVal name payload opts) := by
    intro b
    rw [contentVal, ← hname b]
    simp only [bind_assoc]
    rfl
  exact Writes.enclose (v := fun n => tlVal NDN_TLV_Data ++ tlVal n) hbody (writes_prependTL _ _)

end PepDna.Ndn
