import Mathlib.Data.List.Induction
import PepDna.Ndn.Encode

/-!
# NDN packets, as the CCN relay reads them (ccnl-pkt-ndntlv.c, ccnl-fwd.c)

`ccnl_ndntlv_bytes2pkt` walks over the elements of a packet; some of them it opens with a loop of
the same kind. A cursor, `*data` with `*datalen`, is what is there from `*data` to the end of the
datagram, together with the length that the code takes to be there.

The two are not always the same. `ccnl_ndntlv_dehead` compares the length of an element with the
bytes that were there before it read the header, so a value may reach past the end of what it is
in; the subtraction behind it then gives a length near `SIZE_MAX`, with which the code goes on. It
may still bail out. If it reads a byte behind the end of the datagram that matters, the outcome is
`overrun`, and what happens after it is not modelled.

The relay is built with `USE_HMAC256` and without `USE_FRAG`. Memory is always there. `nameptr` and
`namelen`, pointers into the packet that nothing here uses, are left out.
-/

namespace PepDna.Ndn

inductive ParseError where
  | bail
  | overrun
  deriving Repr, DecidableEq

/- ### Headers -/

structure Cursor where
  cp : Bytes
  len : ℕ
  deriving Repr, DecidableEq

/-- The difference of two values of type `size_t`. -/
def sizeSub (a b : ℕ) : ℕ := if b ≤ a then a - b else 2 ^ 64 - (b - a)

/-- `cp += n; len -= n`. -/
def Cursor.skip (c : Cursor) (n : ℕ) : Cursor := ⟨c.cp.drop n, sizeSub c.len n⟩

/-- The next `n` bytes, whatever length is left. -/
def Cursor.read (c : Cursor) (n : ℕ) : Except ParseError Bytes :=
  if c.cp.length < n then .error .overrun else .ok (c.cp.take n)

/-- The first byte is read before the length is tested, but has no effect if that is 0. -/
def varlenint (c : Cursor) : Except ParseError (Option (ℕ × Cursor)) :=
  if c.len = 0 then .ok none
  else
    match c.cp with
    | [] => .error .overrun
    | b :: _ =>
      if b.val < 253 then .ok (some (b.val, c.skip 1))
      else if b.val = 253 ∧ 3 ≤ c.len then
        ((c.skip 1).read 2).map fun val => some (Words.load .big val, c.skip 3)
      else if b.val = 254 ∧ 5 ≤ c.len then
        ((c.skip 1).read 4).map fun val => some (Words.load .big val, c.skip 5)
      else .ok none

def nonNegInt (cp : Bytes) : ℕ := cp.foldl (fun val b => (val * 256 + b.val) % 2 ^ 64) 0

/-- Type and length of an element and the cursor behind its header, or the length that is left
after a failure. -/
inductive Head where
  | fail (left : ℕ)
  | element (typ vallen : ℕ) (c : Cursor)
  deriving Repr, DecidableEq

def dehead (c : Cursor) : Except ParseError Head :=
  varlenint c >>= fun
    | none => .ok (.fail c.len)
    | some (typ, c') => varlenint c' >>= fun
      | none => .ok (.fail c'.len)
      | some (vallen, c'') =>
        .ok (if c.len < vallen then .fail c''.len else .element typ vallen c'')

/-- Type, length and cursor, in a loop that bails out if there is no header. -/
def next (c : Cursor) : Except ParseError (ℕ × ℕ × Cursor) :=
  dehead c >>= fun
    | .fail _ => .error .bail
    | .element typ i c => .ok (typ, i, c)

/-- `while (len2 > 0)` over the parts of an element; `body` leaves the cursor behind the part. A
round reads two bytes or more, so that the number of bytes and one is enough fuel. -/
def partsLoop {σ : Type} (body : ℕ → ℕ → Cursor → σ → Except ParseError (Cursor × σ)) :
    ℕ → Cursor → σ → Except ParseError σ
  | 0, _, _ => .error .overrun
  | fuel + 1, c, s =>
    if c.len = 0 then .ok s
    else next c >>= fun r => body r.1 r.2.1 r.2.2 s >>= fun r => partsLoop body fuel r.1 r.2

/- ### Packets -/

/-- `struct ccnl_pkt_s`. `val` holds the 64 bits of `final_block_id` or `seqno`;
`validAlgoIsHmac256` is a local variable of the parser. -/
structure Pkt where
  type : ℕ
  request : Bool
  reply : Bool
  fragBegin : Bool
  fragEnd : Bool
  pfx : Option Prefix
  content : Option Bytes
  val : ℕ
  minsuffix : ℕ
  maxsuffix : ℕ
  scope : ℕ
  mbf : Bool
  nonce : Option Bytes
  interestlifetime : ℕ
  freshnessperiod : ℕ
  validAlgoIsHmac256 : Bool
  hmac : Option (ℕ × Bytes)
  buf : Bytes
  deriving Repr, DecidableEq

def CCNL_INTEREST_TIMEOUT : ℕ := 10

def newPkt (pkttype : ℕ) : Pkt where
  type := pkttype
  request := pkttype = NDN_TLV_Interest
  reply := pkttype = NDN_TLV_Data
  fragBegin := false
  fragEnd := false
  pfx := none
  content := none
  val := 0
  minsuffix := 0
  maxsuffix := CCNL_MAX_NAME_COMP
  scope := 3
  mbf := false
  nonce := none
  interestlifetime := CCNL_INTEREST_TIMEOUT * 1000
  freshnessperiod := 0
  validAlgoIsHmac256 := false
  hmac := none
  buf := []

/-- `prefix->chunknum`, if the component is marked as one. `cp[0]` of an empty component is the
byte behind it, and with a zero there `i - 1` is `SIZE_MAX`. -/
def chunkOf (i : ℕ) (c : Cursor) (chunknum : Option UInt32) : Except ParseError (Option UInt32) :=
  match c.cp with
  | [] => .error .overrun
  | b :: _ =>
    if b = NDN_Marker_SegmentNumber then
      (c.skip 1).read (sizeSub i 1) >>= fun digits =>
        if 0xffffffff < nonNegInt digits then .error .bail
        else .ok (some (UInt32.ofNat (nonNegInt digits)))
    else .ok chunknum

/-- One part of a name. A component is a pointer, its bytes are not read here. -/
def component (typ i : ℕ) (c : Cursor) (p : Prefix) : Except ParseError (Cursor × Prefix) :=
  if typ = NDN_TLV_NameComponent ∧ p.comps.length < CCNL_MAX_NAME_COMP then
    (chunkOf i c p.chunknum).map fun chunknum => (c.skip i, ⟨p.comps ++ [c.cp.take i], chunknum⟩)
  else .ok (c.skip i, p)

def selector (typ i : ℕ) (c : Cursor) (pkt : Pkt) : Except ParseError (Cursor × Pkt) :=
  if typ = NDN_TLV_MinSuffixComponents then
    (c.read i).map fun value => (c.skip i, { pkt with minsuffix := nonNegInt value })
  else if typ = NDN_TLV_MaxSuffixComponents then
    (c.read i).map fun value => (c.skip i, { pkt with maxsuffix := nonNegInt value })
  else if typ = NDN_TLV_MustBeFresh then .ok (c.skip i, { pkt with mbf := true })
  else .ok (c.skip i, pkt)

/-- A `FinalBlockId`, whose own length is not looked at. -/
def finalBlockId (c : Cursor) (pkt : Pkt) : Except ParseError (Cursor × Pkt) :=
  next c >>= fun r =>
    if r.1 = NDN_TLV_NameComponent then
      (r.2.2.skip 1).read (sizeSub r.2.1 1) >>= fun digits =>
        if 2 ^ 63 ≤ nonNegInt digits then .error .bail
        else .ok (r.2.2.skip r.2.1, { pkt with val := nonNegInt digits })
    else .ok (r.2.2.skip r.2.1, pkt)

def metaInfo (typ i : ℕ) (c : Cursor) (pkt : Pkt) : Except ParseError (Cursor × Pkt) :=
  if typ = NDN_TLV_FinalBlockId then finalBlockId c pkt
  else if typ = NDN_TLV_FreshnessPeriod then
    (c.read i).map fun value => (c.skip i, { pkt with freshnessperiod := nonNegInt value })
  else .ok (c.skip i, pkt)

/-- Whether an HMAC is announced; the loop stops where it is. -/
def signatureInfoLoop : ℕ → Cursor → Except ParseError Bool
  | 0, _ => .error .overrun
  | fuel + 1, c =>
    if c.len = 0 then .ok false
    else next c >>= fun r =>
      if r.1 = NDN_TLV_SignatureType ∧ r.2.1 = 1 then
        r.2.2.read 1 >>= fun value =>
          if value = [NDN_VAL_SIGTYPE_HMAC256] then .ok true
          else signatureInfoLoop fuel (r.2.2.skip r.2.1)
      else signatureInfoLoop fuel (r.2.2.skip r.2.1)

/-- The body of the loop of `ccnl_ndntlv_bytes2pkt`; `oldpos` is where the element starts and `v` is
`*data` with `len`. -/
def element (typ oldpos : ℕ) (v : Cursor) (pkt : Pkt) : Except ParseError Pkt :=
  if typ = NDN_TLV_Name then
    if pkt.pfx.isSome then .error .bail
    else (partsLoop component (v.cp.length + 1) v ⟨[], none⟩).map fun p =>
      { pkt with pfx := some p, val := 2 ^ 64 - 1 }
  else if typ = NDN_TLV_Selectors then partsLoop selector (v.cp.length + 1) v pkt
  else if typ = NDN_TLV_Nonce then
    (v.read v.len).map fun value => { pkt with nonce := some value }
  else if typ = NDN_TLV_Scope then
    (v.read v.len).map fun value => { pkt with scope := nonNegInt value }
  else if typ = NDN_TLV_Content ∨ typ = NDN_TLV_NdnlpFragment then
    .ok { pkt with content := some (v.cp.take v.len) }
  else if typ = NDN_TLV_MetaInfo then partsLoop metaInfo (v.cp.length + 1) v pkt
  else if typ = NDN_TLV_InterestLifetime then
    (v.read v.len).map fun value => { pkt with interestlifetime := nonNegInt value }
  else if typ = NDN_TLV_Frag_BeginEndFields then
    (v.read v.len).map fun value => { pkt with
      fragBegin := pkt.fragBegin || (nonNegInt value).testBit 14
      fragEnd := pkt.fragEnd || (nonNegInt value).testBit 15
      val := nonNegInt value % 0x4000 }
  else if typ = NDN_TLV_SignatureInfo then
    (signatureInfoLoop (v.cp.length + 1) v).map fun hmac =>
      { pkt with validAlgoIsHmac256 := pkt.validAlgoIsHmac256 || hmac }
  else if typ = NDN_TLV_SignatureValue then
    if pkt.validAlgoIsHmac256 ∧ v.len = 32 then
      .ok { pkt with hmac := some (oldpos, v.cp.take v.len) }
    else .ok pkt
  else .ok pkt

/-- The loop, which ends at the first header that cannot be read, with the length that is left. -/
def pktLoop : ℕ → ℕ → Cursor → Pkt → Except ParseError (ℕ × Pkt)
  | 0, _, _, _ => .error .overrun
  | fuel + 1, oldpos, c, pkt =>
    dehead c >>= fun
      | .fail left => .ok (left, pkt)
      | .element typ len c' =>
        element typ oldpos ⟨c'.cp, len⟩ pkt >>= fun pkt =>
          pktLoop fuel (oldpos + (c.cp.length - (c'.skip len).cp.length)) (c'.skip len) pkt

def bytes2pkt (pkttype : ℕ) (start : Bytes) (c : Cursor) : Except ParseError Pkt :=
  if pkttype = NDN_TLV_Interest ∨ pkttype = NDN_TLV_Data then
    pktLoop (c.cp.length + 1) (start.length - c.cp.length) c (newPkt pkttype) >>= fun r =>
      if r.1 ≠ 0 then .error .bail else .ok { r.2 with buf := start }
  else .error .bail

/-- The parsing part of `ccnl_ndntlv_forwarder`. -/
def ndntlvForwarder (data : Bytes) : Except ParseError Pkt :=
  dehead ⟨data, data.length⟩ >>= fun
    | .fail _ => .error .bail
    | .element typ len c => if c.len < len then .error .bail else bytes2pkt typ data c

-- a second name is refused before its length is looked at
example : ndntlvForwarder [5, 7, 7, 3, 8, 1, 65, 7, 1] = .error .bail := by decide

/- ### What has been written is read -/

theorem skip_append (value rest : Bytes) (n k : ℕ) (h : value.length = k) :
    (Cursor.mk (value ++ rest) (k + n)).skip k = ⟨rest, n⟩ := by
  rw [Cursor.skip, sizeSub, if_pos (Nat.le_add_right _ _), Nat.add_sub_cancel_left,
    List.drop_left' h]

theorem read_append (value rest : Bytes) (n k : ℕ) (h : value.length = k) :
    (Cursor.mk (value ++ rest) n).read k = .ok value := by
  have hlen : ¬ (value ++ rest).length < k := by
    rw [List.length_append]
    omega
  rw [Cursor.read, if_neg hlen, List.take_left' h]

theorem varlenint_tlVal (val : ℕ) (rest : Bytes) (n : ℕ) (h : val < 2 ^ 32) :
    varlenint ⟨tlVal val ++ rest, (tlVal val).length + n⟩ = .ok (some (val, ⟨rest, n⟩)) := by
  have hskip := skip_append (tlVal val) rest n _ rfl
  have hlen : (tlVal val).length = (tlForm val).1 + 1 := by
    rw [tlVal, List.length_cons, Words.store_length]
  have hread : ((Cursor.mk (tlVal val ++ rest) ((tlVal val).length + n)).skip 1).read
      (tlForm val).1 = .ok (Words.store .big (tlForm val).1 val) :=
    read_append _ rest _ _ (Words.store_length .big (tlForm val).1 val)
  have hload (k : ℕ) (hk : val < 256 ^ k) : Words.load .big (Words.store .big k val) = val :=
    Words.load_store .big k val hk
  have hcons : tlVal val ++ rest =
      (tlForm val).2 :: (Words.store .big (tlForm val).1 val ++ rest) := rfl
  rw [hlen, hcons] at hskip hread ⊢
  unfold varlenint
  rw [if_neg (by dsimp only; omega)]
  dsimp only
  by_cases h1 : val < 253
  · have hform : tlForm val = (0, lowByte val) := by rw [tlForm, if_pos h1]
    have hb : (lowByte val).val = val := Nat.mod_eq_of_lt (by omega)
    rw [hform] at hskip ⊢
    rw [hb, if_pos h1, hskip]
  · by_cases h2 : val ≤ 0xffff
    · have hform : tlForm val = (2, 253) := by rw [tlForm, if_neg h1, if_pos h2]
      rw [hform] at hskip hread ⊢
      rw [if_neg (by decide), if_pos ⟨rfl, by omega⟩, hread, hskip]
      exact congrArg (fun v => Except.ok (some (v, Cursor.mk rest n))) (hload 2 (by omega))
    · have hform : tlForm val = (4, 254) := by
        rw [tlForm, if_neg h1, if_neg h2, if_pos (by omega)]
      rw [hform] at hskip hread ⊢
      rw [if_neg (by decide), if_neg (fun hb => absurd hb.1 (by decide)), if_pos ⟨rfl, by omega⟩,
        hread, hskip]
      exact congrArg (fun v => Except.ok (some (v, Cursor.mk rest n))) (hload 4 (by omega))

theorem dehead_tlv (type : ℕ) (value rest : Bytes) (n : ℕ) (ht : type < 2 ^ 32)
    (hv : value.length < 2 ^ 32) :
    dehead ⟨tlv type value ++ rest, (tlv type value).length + n⟩ =
      .ok (.element type value.length ⟨value ++ rest, value.length + n⟩) := by
  have hbytes : tlv type value ++ rest = tlVal type ++ (tlVal value.length ++ (value ++ rest)) := by
    rw [tlv, List.append_assoc, List.append_assoc]
  have hlen : (tlv type value).length + n =
      (tlVal type).length + ((tlVal value.length).length + (value.length + n)) := by
    rw [tlv, List.length_append, List.length_append]
    omega
  rw [dehead, hbytes, hlen, varlenint_tlVal type _ _ ht]
  simp only [bind, Except.bind, varlenint_tlVal value.length _ _ hv]
  rw [if_neg (by omega)]

theorem next_tlv (type : ℕ) (value rest : Bytes) (n : ℕ) (ht : type < 2 ^ 32)
    (hv : value.length < 2 ^ 32) :
    next ⟨tlv type value ++ rest, (tlv type value).length + n⟩ =
      .ok (type, value.length, ⟨value ++ rest, value.length + n⟩) := by
  rw [next, dehead_tlv type value rest n ht hv]
  rfl

theorem partsLoop_tlv {σ : Type} (body : ℕ → ℕ → Cursor → σ → Except ParseError (Cursor × σ))
    (fuel type : ℕ) (value rest : Bytes) (n : ℕ) (s : σ) (ht : type < 2 ^ 32)
    (hv : value.length < 2 ^ 32) :
    partsLoop body (fuel + 1) ⟨tlv type value ++ rest, (tlv type value).length + n⟩ s =
      body type value.length ⟨value ++ rest, value.length + n⟩ s >>= fun r =>
        partsLoop body fuel r.1 r.2 := by
  have hpos : ¬ (tlv type value).length + n = 0 := by
    rw [tlv, tlVal, List.cons_append, List.cons_append, List.length_cons]
    omega
  rw [partsLoop, if_neg hpos, next_tlv type value rest n ht hv]
  rfl

theorem nonNegInt_eq (cp : Bytes) : nonNegInt cp = Words.load .big cp % 2 ^ 64 := by
  induction cp using List.reverseRecOn with
  | nil => rfl
  | append_singleton cp b ih =>
    have hload : Words.load .big (cp ++ [b]) = b.val + 256 * Words.load .big cp := by
      rw [Words.load, List.reverse_append]
      rfl
    rw [nonNegInt, List.foldl_append, hload]
    have hstep : (nonNegInt cp * 256 + b.val) % 2 ^ 64 =
        (b.val + 256 * Words.load .big cp) % 2 ^ 64 := by
      rw [ih]
      omega
    exact hstep

theorem nonNegInt_nonNegIntVal (val : ℕ) (h : val < 2 ^ 64) :
    nonNegInt (nonNegIntVal val) = val := by
  have hlt : val < 256 ^ byteLen 8 val := lt_pow_byteLen 8 val (by omega)
  have hwidth : val < 256 ^ width val :=
    Nat.lt_of_lt_of_le hlt (Nat.pow_le_pow_right (by decide) (Nat.le_add_right _ _))
  rw [nonNegInt_eq, nonNegIntVal, Words.load_store .big _ val hwidth, Nat.mod_eq_of_lt h]

theorem byteLen_le_iff (fuel val k : ℕ) (h : val < 256 ^ fuel) :
    byteLen fuel val ≤ k ↔ val < 256 ^ k := by
  induction fuel generalizing val k with
  | zero =>
    have hval : val = 0 := by rw [Nat.pow_zero] at h; omega
    rw [hval]
    exact ⟨fun _ => Nat.pow_pos (by decide), fun _ => Nat.zero_le k⟩
  | succ fuel ih =>
    rw [byteLen]
    by_cases hv : val = 0
    · rw [if_pos hv, hv]
      exact ⟨fun _ => Nat.pow_pos (by decide), fun _ => Nat.zero_le k⟩
    · rw [if_neg hv]
      cases k with
      | zero =>
        rw [Nat.pow_zero]
        omega
      | succ k =>
        have hdiv : val / 256 < 256 ^ fuel := by
          rw [Nat.pow_succ] at h
          omega
        have hk := ih (val / 256) k hdiv
        rw [Nat.pow_succ]
        omega

theorem width_eq (val : ℕ) : width val = [1, 1, 2, 4, 4, 7, 7, 8, 8].getD (byteLen 8 val) 0 := by
  have hle := byteLen_le 8 val
  rw [width]
  generalize byteLen 8 val = k at hle ⊢
  revert k
  decide

/- `fill[len]` is looked up again after `len` has been incremented, so numbers of five and six bytes
are padded to seven. -/
theorem nonNegInt_codec (val : ℕ) (h : val < 2 ^ 64) :
    nonNegInt (nonNegIntVal val) = val ∧
      ((nonNegIntVal val).length ∈ [1, 2, 4, 8] ↔ val < 2 ^ 32 ∨ 2 ^ 48 ≤ val) := by
  refine ⟨nonNegInt_nonNegIntVal val h, ?_⟩
  have h4 := byteLen_le_iff 8 val 4 (by omega)
  have h6 := byteLen_le_iff 8 val 6 (by omega)
  have htable : ∀ k ≤ 8, ([1, 1, 2, 4, 4, 7, 7, 8, 8].getD k 0 ∈ [1, 2, 4, 8] ↔ k ≤ 4 ∨ ¬ k ≤ 6) := by
    decide
  rw [nonNegIntVal, Words.store_length, width_eq, htable _ (byteLen_le 8 val), h4, h6]
  omega

theorem nonNegInt_codec_five :
    nonNegInt (nonNegIntVal (2 ^ 32)) = 2 ^ 32 ∧
      ((nonNegIntVal (2 ^ 32)).length ∈ [1, 2, 4, 8] ↔ 2 ^ 32 < 2 ^ 32 ∨ 2 ^ 48 ≤ 2 ^ 32) :=
  nonNegInt_codec (2 ^ 32) (by decide)

end PepDna.Ndn
