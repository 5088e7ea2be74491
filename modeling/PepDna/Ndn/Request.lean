import Mathlib.Data.List.TakeWhile
import PepDna.CcnRequest
import PepDna.Ndn.RoundTrip

/-!
# From the client's request to the name the relay reads (ccn.c, ccnl-prefix.c)

`pepdna_send_to_ccn_relay` turns the URL of `parse_request` into a prefix and sends an Interest for
it. Of the options only the nonce is set; `mustbefresh` and `interestlifetime` are what was on the
stack.
-/

namespace PepDna.Ndn

open PepDna.Ccn

def slash : Byte := 47
def percent : Byte := 37

def tolower (c : ℕ) : ℕ := if 65 ≤ c ∧ c ≤ 90 then c + 32 else c

def hex2int (c : Byte) : ℕ :=
  if 48 ≤ c.val ∧ c.val ≤ 57 then c.val - 48
  else if 97 ≤ tolower c.val ∧ tolower c.val ≤ 102 then tolower c.val - 97 + 10
  else 0

/-- The bytes in front of the terminating zero; the component is rewritten in place. -/
def unescapeComponent : Bytes → Bytes
  | c :: h :: l :: rest =>
    if c ≠ percent then c :: unescapeComponent (h :: l :: rest)
    else lowByte (hex2int h * 16 + hex2int l) :: unescapeComponent rest
  | short => short

/-- The pieces between slashes, at most `n` of them. -/
def pieces : ℕ → Bytes → List Bytes
  | 0, _ => []
  | _ + 1, [] => []
  | n + 1, b :: uri =>
    (b :: uri).takeWhile (· ≠ slash) :: pieces n (((b :: uri).dropWhile (· ≠ slash)).drop 1)

def uriPieces (uri : Bytes) : List Bytes :=
  pieces (CCNL_MAX_NAME_COMP - 1) (if uri.head? = some slash then uri.tail else uri)

def uriToComponentsK (uri : Bytes) : List Bytes := (uriPieces uri).map unescapeComponent

def uriToPrefixK (uri : Bytes) (chunknum : Option UInt32) : Prefix :=
  ⟨uriToComponentsK uri, chunknum⟩

/-- The bytes handed to `kernel_sendmsg`. `chunknum` is `UINT_MAX`, so the name has none. -/
def pepdnaSendToCcnRelay (e : Words.Endian) (content : Bytes) (opts : InterestOpts)
    (prandom : UInt32) (tmp : { d : Bytes // d.length = CCNL_MAX_PACKET_SIZE }) : Option Bytes :=
  mkSimpleInterestK e (uriToPrefixK content none) opts prandom tmp

/-- The word behind the first `"GET"`. -/
def requestWord (request : Bytes) : Bytes :=
  match strstr (request.takeWhile (· ≠ 0)) getWord with
  | some pos => secondWord pos
  | none => []

theorem parseRequest_eq (request : Bytes) : parseRequest request = ndnTest ++ requestWord request :=
  rfl

theorem uriPieces_ndnTest (word : Bytes) :
    uriPieces (ndnTest ++ word) =
      [110, 100, 110] :: [116, 101, 115, 116] :: pieces (CCNL_MAX_NAME_COMP - 3) word := rfl

/- ### The Interest fits -/

theorem unescapeComponent_length_le (comp : Bytes) :
    (unescapeComponent comp).length ≤ comp.length := by
  fun_induction unescapeComponent comp with
  | case1 c h l rest hc ih =>
    rw [List.length_cons, List.length_cons]
    omega
  | case2 c h l rest hc ih =>
    simp only [List.length_cons]
    omega
  | case3 comp hshort => exact Nat.le_refl _

/-- The bytes of the components, and one more for each. -/
def total (comps : List Bytes) : ℕ := (comps.map fun comp => comp.length + 1).sum

theorem total_cons (comp : Bytes) (comps : List Bytes) :
    total (comp :: comps) = comp.length + 1 + total comps := by
  rw [total, List.map_cons, List.sum_cons]
  rfl

theorem total_pieces_le (n : ℕ) (uri : Bytes) : total (pieces n uri) ≤ uri.length + 1 := by
  induction n generalizing uri with
  | zero => exact Nat.zero_le _
  | succ n ih =>
    cases uri with
    | nil => exact Nat.zero_le _
    | cons b uri =>
      have hsplit : ((b :: uri).takeWhile (· ≠ slash)).length +
          ((b :: uri).dropWhile (· ≠ slash)).length = (b :: uri).length := by
        rw [← List.length_append, List.takeWhile_append_dropWhile]
      rw [pieces, total_cons]
      cases hd : (b :: uri).dropWhile (· ≠ slash) with
      | nil =>
        have hrest : total (pieces n (List.drop 1 [])) = 0 := by cases n <;> rfl
        rw [hd, List.length_nil] at hsplit
        omega
      | cons s rest =>
        have hrest := ih rest
        rw [hd, List.length_cons] at hsplit
        rw [List.drop_one, List.tail_cons]
        omega

theorem total_map_unescape (comps : List Bytes) :
    total (comps.map unescapeComponent) ≤ total comps := by
  induction comps with
  | nil => exact Nat.le_refl _
  | cons comp comps ih =>
    have h := unescapeComponent_length_le comp
    rw [List.map_cons, total_cons, total_cons]
    omega

theorem length_le_total (comps : List Bytes) : comps.length ≤ total comps := by
  induction comps with
  | nil => exact Nat.le_refl _
  | cons comp comps ih =>
    rw [total_cons, List.length_cons]
    omega

theorem tlVal_length_le (val : ℕ) : (tlVal val).length ≤ 9 := by
  rw [tlVal, List.length_cons, Words.store_length, tlForm]
  split
  · exact Nat.le_add_left 1 8
  · split
    · decide
    · split <;> decide

theorem tlv_length_le (type : ℕ) (value : Bytes) : (tlv type value).length ≤ value.length + 18 := by
  have ht := tlVal_length_le type
  have hl := tlVal_length_le value.length
  rw [tlv, List.length_append, List.length_append]
  omega

theorem compsVal_length_le (comps : List Bytes) : (compsVal comps).length ≤ 18 * total comps := by
  induction comps with
  | nil => exact Nat.le_refl _
  | cons comp comps ih =>
    have h := tlv_length_le NDN_TLV_NameComponent comp
    rw [compsVal_cons, List.length_append, total_cons]
    omega

theorem nonNegIntVal_length_le (val : ℕ) : (nonNegIntVal val).length ≤ 8 := by
  have htable : ∀ k ≤ 8, [1, 1, 2, 4, 4, 7, 7, 8, 8].getD k 0 ≤ 8 := by decide
  rw [nonNegIntVal, Words.store_length, width_eq]
  exact htable _ (byteLen_le 8 val)

theorem interestVal_length_le (e : Words.Endian) (comps : List Bytes) (opts : InterestOpts) :
    (interestVal e ⟨comps, none⟩ (-1) opts).length ≤ 18 * total comps + 100 := by
  have hname := tlv_length_le NDN_TLV_Name (compsVal comps)
  have hcomps := compsVal_length_le comps
  have hnonce := tlv_length_le NDN_TLV_Nonce (Words.store e 4 opts.nonce.toNat)
  have hlife : (lifetimeVal opts.interestlifetime).length ≤ 26 := by
    have hval := nonNegIntVal_length_le opts.interestlifetime.toNat
    have htlv := tlv_length_le NDN_TLV_InterestLifetime
      (nonNegIntVal opts.interestlifetime.toNat)
    rw [lifetimeVal]
    split
    · omega
    · exact Nat.zero_le _
  have hsel : (selectorsVal opts.mustbefresh).length ≤ 4 := by
    rw [selectorsVal]
    split <;> decide
  have hwire : Prefix.wire ⟨comps, none⟩ = comps := List.append_nil comps
  rw [Words.store_length] at hnonce
  rw [interestVal, hwire]
  simp only [List.length_append]
  have hscope : (scopeVal (-1)).length = 0 := rfl
  omega

/- ### Components that pass for chunk numbers -/

/-- A percent sign and two characters that both read as zero, as all do that are no hex digits. -/
def zeroEscape : Bytes → Bool
  | c :: h :: l :: _ => c == percent && hex2int h == 0 && hex2int l == 0
  | _ => false

theorem hex2int_lt (c : Byte) : hex2int c < 16 := by
  rw [hex2int]
  split
  · omega
  · split <;> omega

theorem lowByte_hex_eq_zero (h l : Byte) :
    lowByte (hex2int h * 16 + hex2int l) = NDN_Marker_SegmentNumber ↔
      hex2int h = 0 ∧ hex2int l = 0 := by
  have hh := hex2int_lt h
  have hl := hex2int_lt l
  have hmod : (hex2int h * 16 + hex2int l) % 256 = hex2int h * 16 + hex2int l :=
    Nat.mod_eq_of_lt (by omega)
  rw [Fin.ext_iff]
  change (hex2int h * 16 + hex2int l) % 256 = 0 ↔ _
  omega

theorem marked_unescape_iff (piece : Bytes) (h0 : ∀ b ∈ piece, b ≠ 0) :
    Marked (unescapeComponent piece) ↔ zeroEscape piece = true := by
  have hhead (b : Byte) (rest : Bytes) (hb : b ∈ piece) : ¬ Marked (b :: rest) :=
    fun hm => h0 b hb (Option.some.inj hm)
  match piece, h0, hhead with
  | [], _, _ => exact ⟨fun hm => (nomatch hm), fun hz => (nomatch hz)⟩
  | [b], _, hhead => exact ⟨fun hm => absurd hm (hhead b _ List.mem_cons_self), fun hz => (nomatch hz)⟩
  | [b, c], _, hhead =>
    exact ⟨fun hm => absurd hm (hhead b _ List.mem_cons_self), fun hz => (nomatch hz)⟩
  | c :: h :: l :: rest, _, hhead =>
    rw [unescapeComponent, zeroEscape]
    by_cases hc : c = percent
    · rw [if_neg (not_not_intro hc)]
      simp only [hc, beq_self_eq_true, Bool.true_and, Bool.and_eq_true, beq_iff_eq]
      exact Option.some_inj.trans (lowByte_hex_eq_zero h l)
    · rw [if_pos hc]
      simp only [beq_eq_false_iff_ne.mpr hc, Bool.false_and, Bool.false_eq_true, iff_false]
      exact hhead c _ List.mem_cons_self

theorem mem_pieces (n : ℕ) (uri piece : Bytes) (h : piece ∈ pieces n uri) :
    ∀ b ∈ piece, b ∈ uri := by
  induction n generalizing uri with
  | zero => exact absurd h List.not_mem_nil
  | succ n ih =>
    cases uri with
    | nil => exact absurd h List.not_mem_nil
    | cons b uri =>
      rw [pieces] at h
      intro c hc
      rcases List.mem_cons.mp h with rfl | h
      · exact (List.takeWhile_sublist _).subset hc
      · exact (List.dropWhile_sublist _).subset (List.mem_of_mem_drop (ih _ h c hc))

theorem requestWord_ne_zero (request : Bytes) : ∀ b ∈ requestWord request, b ≠ 0 := by
  intro b hb
  rw [requestWord] at hb
  cases hpos : strstr (request.takeWhile (· ≠ 0)) getWord with
  | none =>
    rw [hpos] at hb
    exact absurd hb List.not_mem_nil
  | some pos =>
    rw [hpos] at hb
    have hsuffix : pos <:+ request.takeWhile (· ≠ 0) :=
      (List.mem_tails _ _).mp (List.mem_of_find?_eq_some hpos)
    have hsub : (secondWord pos).Sublist pos :=
      ((List.takeWhile_sublist _).trans (List.dropWhile_sublist _)).trans (List.dropWhile_sublist _)
    have hmem : b ∈ pos := hsub.subset hb
    have hne := List.mem_takeWhile_imp (hsuffix.subset hmem)
    simpa using hne

/- ### The whole way -/

/-- The components of the name a request asks for. -/
def requestComps (request : Bytes) : List Bytes :=
  [110, 100, 110] :: [116, 101, 115, 116] ::
    (pieces (CCNL_MAX_NAME_COMP - 3) (requestWord request)).map unescapeComponent

theorem uriToPrefixK_parseRequest (request : Bytes) :
    uriToPrefixK (parseRequest request) none = ⟨requestComps request, none⟩ := by
  rw [uriToPrefixK, uriToComponentsK, parseRequest_eq, uriPieces_ndnTest]
  rfl

theorem readable_request_iff (request : Bytes) :
    Readable ⟨requestComps request, none⟩ ↔
      ∀ piece ∈ pieces (CCNL_MAX_NAME_COMP - 3) (requestWord request), zeroEscape piece = false := by
  have hmarked (piece : Bytes)
      (hp : piece ∈ pieces (CCNL_MAX_NAME_COMP - 3) (requestWord request)) :=
    marked_unescape_iff piece fun b hb =>
      requestWord_ne_zero request b (mem_pieces _ _ piece hp b hb)
  constructor
  · intro hr piece hp
    rw [← Bool.not_eq_true, ← hmarked piece hp]
    intro hm
    have hmem : unescapeComponent piece ∈ requestComps request :=
      List.mem_cons_of_mem _ (List.mem_cons_of_mem _ (List.mem_map_of_mem hp))
    exact (hr _ hmem hm).1 rfl
  · intro hz comp hc hm
    rcases List.mem_cons.mp hc with rfl | hc
    · exact absurd hm (by decide)
    · rcases List.mem_cons.mp hc with rfl | hc
      · exact absurd hm (by decide)
      · obtain ⟨piece, hp, rfl⟩ := List.mem_map.mp hc
        have := (hmarked piece hp).mp hm
        rw [hz piece hp] at this
        exact nomatch this

theorem total_requestComps_le (request : Bytes) :
    total (requestComps request) ≤ (parseRequest request).length := by
  have hp := total_pieces_le (CCNL_MAX_NAME_COMP - 3) (requestWord request)
  have hu := total_map_unescape (pieces (CCNL_MAX_NAME_COMP - 3) (requestWord request))
  have hlen : (parseRequest request).length = 10 + (requestWord request).length := by
    rw [parseRequest_eq, List.length_append]
    rfl
  have hcons : total (requestComps request) = 9 +
      total ((pieces (CCNL_MAX_NAME_COMP - 3) (requestWord request)).map unescapeComponent) := by
    rw [requestComps, total_cons, total_cons]
    exact (Nat.add_assoc 4 5 _).symm
  omega

theorem requestComps_length_le (request : Bytes) (hurl : (parseRequest request).length < 32) :
    (requestComps request).length ≤ CCNL_MAX_NAME_COMP := by
  have hlen := length_le_total (requestComps request)
  have htotal := total_requestComps_le request
  rw [CCNL_MAX_NAME_COMP]
  omega

theorem request_packet (e : Words.Endian) (request : Bytes) (opts : InterestOpts)
    (prandom : UInt32) (tmp : { d : Bytes // d.length = CCNL_MAX_PACKET_SIZE })
    (hurl : (parseRequest request).length < 32) :
    ∃ pkt, pepdnaSendToCcnRelay e (parseRequest request) opts prandom tmp = some pkt ∧
      pkt.head? = some 5 ∧
      (ndntlvForwarder pkt = .ok (interestPkt e ⟨requestComps request, none⟩ (-1)
          (opts.withNonce prandom) pkt) ↔
        ∀ piece ∈ pieces (CCNL_MAX_NAME_COMP - 3) (requestWord request),
          zeroEscape piece = false) := by
  have htotal := total_requestComps_le request
  have hwire : Prefix.wire ⟨requestComps request, none⟩ = requestComps request :=
    List.append_nil _
  have hsize : (tlv NDN_TLV_Interest (interestVal e ⟨requestComps request, none⟩ (-1)
      (opts.withNonce prandom))).length ≤ CCNL_MAX_PACKET_SIZE := by
    have htlv := tlv_length_le NDN_TLV_Interest
      (interestVal e ⟨requestComps request, none⟩ (-1) (opts.withNonce prandom))
    have hval := interestVal_length_le e (requestComps request) (opts.withNonce prandom)
    rw [CCNL_MAX_PACKET_SIZE]
    omega
  have hsend : pepdnaSendToCcnRelay e (parseRequest request) opts prandom tmp =
      some (tlv NDN_TLV_Interest (interestVal e ⟨requestComps request, none⟩ (-1)
        (opts.withNonce prandom))) := by
    rw [pepdnaSendToCcnRelay, uriToPrefixK_parseRequest, mkSimpleInterestK_eq, if_pos hsize]
  refine ⟨_, hsend, rfl, ?_⟩
  have hread := forwarder_interest_iff e ⟨requestComps request, none⟩ (opts.withNonce prandom)
    (by rw [hwire]; exact requestComps_length_le request hurl) hsize
  rw [hwire] at hread
  rw [hread, readable_request_iff]

theorem request_reaches_relay (e : Words.Endian) (request : Bytes) (opts : InterestOpts)
    (prandom : UInt32) (tmp : { d : Bytes // d.length = CCNL_MAX_PACKET_SIZE })
    (hurl : (parseRequest request).length < 32) :
    ∃ pkt, pepdnaSendToCcnRelay e (parseRequest request) opts prandom tmp = some pkt ∧
      (ndntlvForwarder pkt = .ok (interestPkt e ⟨requestComps request, none⟩ (-1)
          (opts.withNonce prandom) pkt) ↔
        ∀ piece ∈ pieces (CCNL_MAX_NAME_COMP - 3) (requestWord request),
          zeroEscape piece = false) := by
  obtain ⟨pkt, hsend, -, hread⟩ := request_packet e request opts prandom tmp hurl
  exact ⟨pkt, hsend, hread⟩

/-- `"GET f"` -/
def getF : Bytes := [71, 69, 84, 32, 102]

theorem getF_reaches_relay :
    ∃ pkt, pepdnaSendToCcnRelay .little (parseRequest getF) ⟨7, 0, 0⟩ 7 zeros = some pkt ∧
      (ndntlvForwarder pkt = .ok (interestPkt .little ⟨requestComps getF, none⟩ (-1) ⟨7, 0, 0⟩ pkt) ↔
        ∀ piece ∈ pieces (CCNL_MAX_NAME_COMP - 3) (requestWord getF), zeroEscape piece = false) :=
  request_reaches_relay .little getF ⟨7, 0, 0⟩ 7 zeros (by decide)

-- in `"GET %zz"` neither character behind the percent sign is a hex digit
example : zeroEscape (requestWord [71, 69, 84, 32, 37, 122, 122]) = true := by decide

end PepDna.Ndn
