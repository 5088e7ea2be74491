import PepDna.Hash
import PepDna.Scan

/-!
# The 4-tuple on its way through RINA

The near proxy tells the flow allocator in user space which connection to open
(`pepdna_nl_sendmsg`, netlink.c). `FlowAllocatorClient::createFlow` writes the tuple into the
application instance name of the flow request; `FlowAllocatorServer::ev_thread_fn` on the far
side reads it back and passes it to the far proxy (`nl_r2i_callback`, rina.c). Hosts are
little-endian. The name itself is taken to cross RINA unaltered.
-/

namespace PepDna.Rina

/-! ### Byte order -/

/-- `be16_to_cpu`, and `cpu_to_be16`, of a little-endian host. -/
def be16ToCpu (x : UInt16) : UInt16 := (x <<< 8) ||| (x >>> 8)

theorem byteMask_getLsbD : ∀ i < 32, (0xFF00#32).getLsbD i = decide (8 ≤ i ∧ i < 16) := by
  decide

/-- Bit `i` of the swapped word is bit `i % 8` of the opposite octet. -/
theorem be32ToCpu_getLsbD (x : UInt32) (i : ℕ) (hi : i < 32) :
    (be32ToCpu x).toBitVec.getLsbD i = x.toBitVec.getLsbD (24 - i / 8 * 8 + i % 8) := by
  have h24 : ((24 : UInt32).toBitVec % 32).toNat = 24 := rfl
  have h8 : ((8 : UInt32).toBitVec % 32).toNat = 8 := rfl
  have hmask : (0xFF00 : UInt32).toBitVec = 0xFF00#32 := rfl
  have hout : ∀ j, 32 ≤ j → x.toBitVec.getLsbD j = false := fun j hj =>
    BitVec.getLsbD_of_ge _ _ hj
  simp only [be32ToCpu, UInt32.toBitVec_or, UInt32.toBitVec_and, UInt32.toBitVec_shiftLeft,
    UInt32.toBitVec_shiftRight, BitVec.getLsbD_or, BitVec.getLsbD_and, BitVec.shiftLeft_eq',
    BitVec.ushiftRight_eq', BitVec.getLsbD_shiftLeft, BitVec.getLsbD_ushiftRight, h24, h8, hmask]
  rw [byteMask_getLsbD i hi, byteMask_getLsbD (i - 8) (by omega)]
  -- one octet of the result at a time: exactly one of the four terms is left
  rcases (by omega : i < 8 ∨ (8 ≤ i ∧ i < 16) ∨ (16 ≤ i ∧ i < 24) ∨ 24 ≤ i) with h | h | h | h
  · rw [show 24 - i / 8 * 8 + i % 8 = 24 + i by omega]
    simp [show i < 24 by omega, h, show ¬ 8 ≤ i by omega]
  · rw [show 24 - i / 8 * 8 + i % 8 = 8 + i by omega, hout (24 + i) (by omega)]
    simp [show i < 24 by omega, h, show ¬ 8 ≤ i - 8 by omega]
  · rw [show 24 - i / 8 * 8 + i % 8 = i - 8 by omega, hout (24 + i) (by omega)]
    simp [hi, h.2, show ¬ i < 8 by omega, show ¬ i < 16 by omega, show 8 ≤ i - 8 by omega,
      show i - 8 < 16 by omega]
  · rw [show 24 - i / 8 * 8 + i % 8 = i - 24 by omega, hout (24 + i) (by omega)]
    simp [hi, show ¬ i < 24 by omega, show ¬ i < 16 by omega, show ¬ i - 8 < 16 by omega]

@[simp] theorem be32ToCpu_be32ToCpu (x : UInt32) : be32ToCpu (be32ToCpu x) = x := by
  apply UInt32.toBitVec_inj.mp
  apply BitVec.eq_of_getLsbD_eq
  intro i hi
  rw [be32ToCpu_getLsbD _ i hi, be32ToCpu_getLsbD _ _ (by omega)]
  congr 1
  omega

theorem be16ToCpu_getLsbD (x : UInt16) (i : ℕ) (hi : i < 16) :
    (be16ToCpu x).toBitVec.getLsbD i = x.toBitVec.getLsbD (8 - i / 8 * 8 + i % 8) := by
  have h8 : ((8 : UInt16).toBitVec % 16).toNat = 8 := rfl
  simp only [be16ToCpu, UInt16.toBitVec_or, UInt16.toBitVec_shiftLeft, UInt16.toBitVec_shiftRight,
    BitVec.getLsbD_or, BitVec.shiftLeft_eq', BitVec.ushiftRight_eq', BitVec.getLsbD_shiftLeft,
    BitVec.getLsbD_ushiftRight, h8]
  by_cases h : i < 8
  · rw [show 8 - i / 8 * 8 + i % 8 = 8 + i by omega]
    simp [h]
  · rw [show 8 - i / 8 * 8 + i % 8 = i - 8 by omega, BitVec.getLsbD_of_ge _ (8 + i) (by omega)]
    simp [hi, h]

@[simp] theorem be16ToCpu_be16ToCpu (x : UInt16) : be16ToCpu (be16ToCpu x) = x := by
  apply UInt16.toBitVec_inj.mp
  apply BitVec.eq_of_getLsbD_eq
  intro i hi
  rw [be16ToCpu_getLsbD _ i hi, be16ToCpu_getLsbD _ _ (by omega)]
  congr 1
  omega

/-! ### The netlink message -/

/-- `struct nl_msg`, the same packed record in the kernel and in the flow allocator, where `id`
is called `hash_conn_id`. -/
structure NlMsg where
  saddr : UInt32
  source : UInt16
  daddr : UInt32
  dest : UInt16
  id : ℕ
  portId : Int
  alloc : Bool
  deriving Repr, DecidableEq

/-- The message `pepdna_nl_sendmsg` builds; `netlink_unicast` carries it. -/
def pepdnaNlSendmsg (saddr : UInt32) (source : UInt16) (daddr : UInt32) (dest : UInt16)
    (id : ℕ) (portId : Int) (alloc : Bool) : NlMsg where
  saddr := be32ToCpu saddr
  source := be16ToCpu source
  daddr := be32ToCpu daddr
  dest := be16ToCpu dest
  id := id
  portId := portId
  alloc := alloc

/-- The tuple `nl_r2i_callback` fills in; `cpu_to_be32` and `cpu_to_be16` are the same swaps. -/
def NlMsg.syn (m : NlMsg) : SynTuple where
  saddr := (be32ToCpu m.saddr).toNat
  source := (be16ToCpu m.source).toNat
  daddr := (be32ToCpu m.daddr).toNat
  dest := (be16ToCpu m.dest).toNat

/-! ### The application instance name -/

/-- `%d` and `%u` of a number that is not negative. -/
def decimal (n : ℕ) : List Char := Nat.toDigits 10 n

/-- `uint32_to_string`: lowest octet first. -/
def uint32ToString (intIp : UInt32) : List Char :=
  decimal (intIp &&& 0xFF).toNat ++ '.' ::
    (decimal ((intIp >>> 8) &&& 0xFF).toNat ++ '.' ::
      (decimal ((intIp >>> 16) &&& 0xFF).toNat ++ '.' ::
        decimal ((intIp >>> 24) &&& 0xFF).toNat))

/-- The `client_api` that `createFlow` makes of a message. -/
def tupleName (m : NlMsg) : List Char :=
  uint32ToString m.saddr ++ '-' ::
    (decimal m.source.toNat ++ '-' ::
      (uint32ToString m.daddr ++ '-' :: decimal m.dest.toNat))

/-- `sscanf(ip, "%d.%d.%d.%d", …)`; `none` when a field is missing, which the source does not
look at. -/
def sscanfOctets (ip : List Char) : Option (Int × Int × Int × Int) := do
  let (a, s) ← Scan.int ip
  let s ← Scan.lit '.' s
  let (b, s) ← Scan.int s
  let s ← Scan.lit '.' s
  let (c, s) ← Scan.int s
  let s ← Scan.lit '.' s
  let (d, _) ← Scan.int s
  pure (a, b, c, d)

/-- What `%d` read, stored into an `int` and then a `char`: the octet a word of them holds. -/
def octet (a : Int) : ℕ := (a % 256).toNat

/-- `cstring_to_uint32`: four octets in an array, read as a word of a little-endian host. -/
def cstringToUint32 (ip : List Char) : Option UInt32 := do
  let (a, b, c, d) ← sscanfOctets ip
  pure (UInt32.ofNat (octet a + 256 * octet b + 65536 * octet c + 16777216 * octet d))

def UINT16_MAX : Int := 65535

/-- `cstring_to_uint16`; `strtol` answers 0 when it reads no number. -/
def cstringToUint16 (port : List Char) : UInt16 :=
  let val := ((Scan.int port).map Prod.fst).getD 0
  if val < 0 ∨ val > UINT16_MAX then 0 else UInt16.ofNat val.toNat

/-- `ev_thread_fn` on a `FLOW_ALLOCATION_REQUESTED_EVENT`: the message for the far proxy, `none`
where the source would read past the tokens or use an octet it has not read. -/
def evThreadFn (processInstance : List Char) (portId : Int) : Option NlMsg := do
  let tokens := Scan.getlines '-' processInstance
  let saddr ← cstringToUint32 (← tokens[0]?)
  let source := cstringToUint16 (← tokens[1]?)
  let daddr ← cstringToUint32 (← tokens[2]?)
  let dest := cstringToUint16 (← tokens[3]?)
  pure ⟨saddr, source, daddr, dest, 0, portId, true⟩

/-! ### Reading back what was written -/

theorem decimal_ne_nil (n : ℕ) : decimal n ≠ [] := Nat.toDigits_ne_nil

theorem isDigit_of_decimal (n : ℕ) : ∀ c ∈ decimal n, c.isDigit = true :=
  Scan.isDigit_of_toDigits n

theorem int_decimal (n : ℕ) (h : n < 9223372036854775808) :
    Scan.int (decimal n) = some ((n : Int), []) := by
  have hi := Scan.int_toDigits n h [] Scan.stops_nil
  rwa [List.append_nil] at hi

theorem int_decimal_dot (n : ℕ) (h : n < 9223372036854775808) (s : List Char) :
    Scan.int (decimal n ++ '.' :: s) = some ((n : Int), '.' :: s) :=
  Scan.int_toDigits n h _ (Scan.stops_cons _ _ rfl)

theorem sscanfOctets_dotted (a b c d : ℕ) (ha : a < 256) (hb : b < 256) (hc : c < 256)
    (hd : d < 256) :
    sscanfOctets (decimal a ++ '.' :: (decimal b ++ '.' :: (decimal c ++ '.' :: decimal d))) =
      some ((a : Int), (b : Int), (c : Int), (d : Int)) := by
  simp only [sscanfOctets, int_decimal_dot a (by omega), int_decimal_dot b (by omega),
    int_decimal_dot c (by omega), int_decimal d (by omega), Scan.lit_cons, Option.bind_eq_bind,
    Option.bind_some, Option.pure_def]

theorem octet_of_lt (n : ℕ) (h : n < 256) : octet n = n := by
  have hmod : ((n : Int) % 256) = n := Int.emod_eq_of_lt (by omega) (by omega)
  rw [octet, hmod, Int.toNat_natCast]

theorem mask_toNat (x : UInt32) : (x &&& 0xFF).toNat = x.toNat % 256 := by
  rw [UInt32.toNat_and]
  exact Nat.and_two_pow_sub_one_eq_mod x.toNat 8

theorem shift_toNat (x k : UInt32) (h : k.toNat < 32) :
    (x >>> k).toNat = x.toNat / 2 ^ k.toNat := by
  rw [UInt32.toNat_shiftRight, Nat.mod_eq_of_lt h, Nat.shiftRight_eq_div_pow]

/-- The octets come out in the order in which they were printed. -/
theorem cstringToUint32_uint32ToString (x : UInt32) :
    cstringToUint32 (uint32ToString x) = some x := by
  have h1 : ((x >>> 8) &&& 0xFF).toNat = x.toNat / 256 % 256 := by
    rw [mask_toNat, shift_toNat x 8 (by decide)]
    rfl
  have h2 : ((x >>> 16) &&& 0xFF).toNat = x.toNat / 65536 % 256 := by
    rw [mask_toNat, shift_toNat x 16 (by decide)]
    rfl
  have h3 : ((x >>> 24) &&& 0xFF).toNat = x.toNat / 16777216 % 256 := by
    rw [mask_toNat, shift_toNat x 24 (by decide)]
    rfl
  have hx : x.toNat < 4294967296 := x.toNat_lt
  have hword : x.toNat % 256 + 256 * (x.toNat / 256 % 256) + 65536 * (x.toNat / 65536 % 256) +
      16777216 * (x.toNat / 16777216 % 256) = x.toNat := by omega
  rw [cstringToUint32, uint32ToString, mask_toNat x, h1, h2, h3,
    sscanfOctets_dotted _ _ _ _ (by omega) (by omega) (by omega) (by omega)]
  simp only [Option.bind_eq_bind, Option.bind_some, Option.pure_def]
  rw [octet_of_lt _ (by omega), octet_of_lt _ (by omega), octet_of_lt _ (by omega),
    octet_of_lt _ (by omega), hword, UInt32.ofNat_toNat]

/- A field that no `long` holds is `LONG_MAX`, whose low octet is 255. -/
example : cstringToUint32 "18446744073709551616.0.0.1".toList = some 16777471 := by decide

theorem cstringToUint16_decimal (x : UInt16) : cstringToUint16 (decimal x.toNat) = x := by
  have hx : x.toNat < 65536 := x.toNat_lt
  have hval : ¬ ((x.toNat : Int) < 0 ∨ (x.toNat : Int) > UINT16_MAX) := by
    rw [UINT16_MAX]
    omega
  simp only [cstringToUint16, int_decimal x.toNat (by omega), Option.map_some, Option.getD_some,
    if_neg hval, Int.toNat_natCast, UInt16.ofNat_toNat]

theorem dash_not_mem_decimal (n : ℕ) : '-' ∉ decimal n := by
  intro h
  exact absurd (isDigit_of_decimal n '-' h) (by decide)

theorem dash_not_mem_uint32ToString (x : UInt32) : '-' ∉ uint32ToString x := by
  simp [uint32ToString, dash_not_mem_decimal]

theorem uint32ToString_ne_nil (x : UInt32) : uint32ToString x ≠ [] := by
  simp [uint32ToString]

theorem getlines_tupleName (m : NlMsg) :
    Scan.getlines '-' (tupleName m) =
      [uint32ToString m.saddr, decimal m.source.toNat, uint32ToString m.daddr,
        decimal m.dest.toNat] := by
  have hname : tupleName m = ['-'].intercalate [uint32ToString m.saddr, decimal m.source.toNat,
      uint32ToString m.daddr, decimal m.dest.toNat] := by
    simp [tupleName, List.intercalate, List.intersperse]
  rw [hname]
  apply Scan.getlines_intercalate
  · simp
  · simp [dash_not_mem_decimal, dash_not_mem_uint32ToString]
  · simp [(decimal_ne_nil _).symm, (uint32ToString_ne_nil _).symm]

/-- The far flow allocator rebuilds the message up to its id and port id. -/
theorem evThreadFn_tupleName (m : NlMsg) (portId : Int) :
    evThreadFn (tupleName m) portId =
      some ⟨m.saddr, m.source, m.daddr, m.dest, 0, portId, true⟩ := by
  simp [evThreadFn, getlines_tupleName, cstringToUint32_uint32ToString, cstringToUint16_decimal]

/-- **The 4-tuple survives the trip.** The far proxy allocates its connection for the tuple and
the id of the near proxy's. -/
theorem tuple_through_rina (saddr daddr : UInt32) (source dest : UInt16) (id : ℕ)
    (portId farPortId : Int) :
    let syn : SynTuple := ⟨saddr.toNat, source.toNat, daddr.toNat, dest.toNat⟩
    let name := tupleName (pepdnaNlSendmsg saddr source daddr dest id portId true)
    (evThreadFn name farPortId).map NlMsg.syn = some syn ∧
      ((evThreadFn name farPortId).map fun m => m.syn.hashId) = some syn.hashId := by
  intro syn name
  have hfar : (evThreadFn name farPortId).map NlMsg.syn = some syn := by
    rw [evThreadFn_tupleName]
    simp [NlMsg.syn, pepdnaNlSendmsg, syn]
  refine ⟨hfar, ?_⟩
  have hid := congrArg (Option.map SynTuple.hashId) hfar
  rwa [Option.map_map] at hid

end PepDna.Rina
