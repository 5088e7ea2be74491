import PepDna.Ndn.Decode

/-!
# What is built is what the relay reads

The relay's parser on the packets of the encoder. A component that starts with a zero byte is taken
for a chunk number, so a name comes back as it was exactly if it is `Readable`.
-/

namespace PepDna.Ndn

open PepDna.Backfill

/- ### Sequences of elements -/

def elementsVal (elems : List (ℕ × Bytes)) : Bytes := (elems.map fun e => tlv e.1 e.2).flatten

/-- The elements of a packet one after the other. -/
def readElements : ℕ → List (ℕ × Bytes) → Pkt → Except ParseError Pkt
  | _, [], pkt => .ok pkt
  | oldpos, e :: elems, pkt =>
    element e.1 oldpos ⟨e.2 ++ elementsVal elems, e.2.length⟩ pkt >>=
      readElements (oldpos + (tlv e.1 e.2).length) elems

/-- Types and lengths the parser knows the form of. -/
def Fits (elems : List (ℕ × Bytes)) : Prop := ∀ e ∈ elems, e.1 < 2 ^ 32 ∧ e.2.length < 2 ^ 32

theorem elementsVal_cons (e : ℕ × Bytes) (elems : List (ℕ × Bytes)) :
    elementsVal (e :: elems) = tlv e.1 e.2 ++ elementsVal elems := by
  rw [elementsVal, List.map_cons, List.flatten_cons]
  rfl

theorem tlv_ne_nil (type : ℕ) (value : Bytes) : ∃ cp, tlv type value = (tlForm type).2 :: cp :=
  ⟨_, rfl⟩

theorem tlv_length (type : ℕ) (value : Bytes) : value.length + 2 ≤ (tlv type value).length := by
  simp only [tlv, tlVal, List.length_append, List.length_cons]
  omega

theorem pktLoop_elements (elems : List (ℕ × Bytes)) (fuel oldpos : ℕ) (pkt : Pkt)
    (hf : Fits elems) (h : (elementsVal elems).length < fuel) :
    pktLoop fuel oldpos ⟨elementsVal elems, (elementsVal elems).length⟩ pkt =
      (readElements oldpos elems pkt).map fun pkt => (0, pkt) := by
  induction elems generalizing fuel oldpos pkt with
  | nil =>
    obtain ⟨fuel, rfl⟩ : ∃ k, fuel = k + 1 := ⟨fuel - 1, by omega⟩
    rfl
  | cons e elems ih =>
    obtain ⟨⟨ht, hv⟩, hrest⟩ := List.forall_mem_cons.mp hf
    obtain ⟨fuel, rfl⟩ : ∃ k, fuel = k + 1 := ⟨fuel - 1, by omega⟩
    rw [elementsVal_cons, List.length_append] at h ⊢
    have hlen := tlv_length e.1 e.2
    have hskip := skip_append e.2 (elementsVal elems) (elementsVal elems).length _ rfl
    have hpos : (tlv e.1 e.2 ++ elementsVal elems).length - (elementsVal elems).length =
        (tlv e.1 e.2).length := by
      rw [List.length_append]
      omega
    simp only [pktLoop, dehead_tlv e.1 e.2 _ _ ht hv, readElements]
    cases hel : element e.1 oldpos ⟨e.2 ++ elementsVal elems, e.2.length⟩ pkt with
    | error err => simp only [bind, Except.bind, hel, Except.map]
    | ok pkt' =>
      simp only [bind, Except.bind, hel, hskip, hpos]
      exact ih fuel _ pkt' hrest (by omega)

/- ### Names -/

def Marked (comp : Bytes) : Prop := comp.head? = some NDN_Marker_SegmentNumber

instance (comp : Bytes) : Decidable (Marked comp) :=
  inferInstanceAs (Decidable (comp.head? = some NDN_Marker_SegmentNumber))

/-- The chunk number after one more component. -/
def readChunk (chunknum : Option UInt32) (comp : Bytes) : Except ParseError (Option UInt32) :=
  if Marked comp then
    if 0xffffffff < nonNegInt comp.tail then .error .bail
    else .ok (some (UInt32.ofNat (nonNegInt comp.tail)))
  else .ok chunknum

def readChunks : Option UInt32 → List Bytes → Except ParseError (Option UInt32)
  | chunknum, [] => .ok chunknum
  | chunknum, comp :: comps => readChunk chunknum comp >>= fun c => readChunks c comps

/-- Something follows, and it does not start with the marker. -/
def Fence (behind : Bytes) : Prop := ∃ b cp, behind = b :: cp ∧ b ≠ NDN_Marker_SegmentNumber

theorem fence_tlv (type : ℕ) (value rest : Bytes) (h : (tlForm type).2 ≠ NDN_Marker_SegmentNumber) :
    Fence (tlv type value ++ rest) := by
  obtain ⟨cp, hcp⟩ := tlv_ne_nil type value
  exact ⟨_, cp ++ rest, by rw [hcp]; rfl, h⟩

theorem fence_compsVal (comps : List Bytes) (behind : Bytes) (h : Fence behind) :
    Fence (compsVal comps ++ behind) := by
  cases comps with
  | nil => exact h
  | cons comp comps =>
    rw [compsVal_cons, List.append_assoc]
    exact fence_tlv _ _ _ (by decide)

theorem chunkOf_eq (comp behind : Bytes) (n : ℕ) (chunknum : Option UInt32) (h : Fence behind) :
    chunkOf comp.length ⟨comp ++ behind, comp.length + n⟩ chunknum = readChunk chunknum comp := by
  cases comp with
  | nil =>
    obtain ⟨b, cp, rfl, hb⟩ := h
    exact if_neg hb
  | cons b digits =>
    by_cases hb : b = NDN_Marker_SegmentNumber
    · have hm : Marked (b :: digits) := congrArg some hb
      have hread : ((Cursor.mk (b :: digits ++ behind) ((b :: digits).length + n)).skip 1).read
          (sizeSub (b :: digits).length 1) = .ok digits := read_append digits behind _ _ rfl
      rw [readChunk, if_pos hm, chunkOf]
      change (if b = NDN_Marker_SegmentNumber then _ else _) = _
      rw [if_pos hb, hread]
      rfl
    · have hm : ¬ Marked (b :: digits) := fun h => hb (Option.some.inj h)
      rw [readChunk, if_neg hm, chunkOf]
      exact if_neg hb

theorem nameLoop_compsVal (behind : Bytes) (comps : List Bytes) (fuel : ℕ) (p : Prefix)
    (hb : Fence behind) (hlen : p.comps.length + comps.length ≤ CCNL_MAX_NAME_COMP)
    (hv : ∀ comp ∈ comps, comp.length < 2 ^ 32) (hf : (compsVal comps).length < fuel) :
    partsLoop component fuel ⟨compsVal comps ++ behind, (compsVal comps).length⟩ p =
      (readChunks p.chunknum comps).map fun c => ⟨p.comps ++ comps, c⟩ := by
  induction comps generalizing fuel p with
  | nil =>
    obtain ⟨fuel, rfl⟩ : ∃ k, fuel = k + 1 := ⟨fuel - 1, by omega⟩
    have hp : p = ⟨p.comps ++ [], p.chunknum⟩ := by rw [List.append_nil]
    rw [readChunks, Except.map, ← hp]
    exact if_pos rfl
  | cons comp comps ih =>
    obtain ⟨hc, hcs⟩ := List.forall_mem_cons.mp hv
    rw [List.length_cons] at hlen
    have htl := tlv_length NDN_TLV_NameComponent comp
    rw [compsVal_cons, List.length_append] at hf
    obtain ⟨fuel, rfl⟩ : ∃ k, fuel = k + 1 := ⟨fuel - 1, by omega⟩
    have hchunk := chunkOf_eq comp (compsVal comps ++ behind) (compsVal comps).length p.chunknum
      (fence_compsVal comps behind hb)
    have hskip := skip_append comp (compsVal comps ++ behind) (compsVal comps).length _ rfl
    have htake : (comp ++ (compsVal comps ++ behind)).take comp.length = comp := List.take_left
    have hroom : p.comps.length < CCNL_MAX_NAME_COMP := by omega
    rw [compsVal_cons, List.append_assoc, List.length_append,
      partsLoop_tlv component fuel NDN_TLV_NameComponent comp _ _ p (by decide) hc, component,
      if_pos ⟨rfl, hroom⟩, hchunk, hskip, htake, readChunks]
    cases hread : readChunk p.chunknum comp with
    | error err => rfl
    | ok c =>
      have hp := ih fuel ⟨p.comps ++ [comp], c⟩
        (by rw [List.length_append, List.length_singleton]; omega) hcs (by omega)
      simp only [bind, Except.bind, Except.map] at hp ⊢
      rw [hp]
      simp only [List.append_assoc, List.singleton_append]

/-- No component passes for a chunk number if the name has none, and none stops the parser. -/
def Readable (name : Prefix) : Prop :=
  ∀ comp ∈ name.comps, Marked comp → name.chunknum ≠ none ∧ nonNegInt comp.tail ≤ 0xffffffff

instance (name : Prefix) : Decidable (Readable name) :=
  inferInstanceAs (Decidable (∀ comp ∈ name.comps,
    Marked comp → name.chunknum ≠ none ∧ nonNegInt comp.tail ≤ 0xffffffff))

theorem readChunks_append (chunknum : Option UInt32) (comps comps' : List Bytes) :
    readChunks chunknum (comps ++ comps') =
      readChunks chunknum comps >>= fun c => readChunks c comps' := by
  induction comps generalizing chunknum with
  | nil => rfl
  | cons comp comps ih =>
    simp only [List.cons_append, readChunks, ih, bind_assoc]

theorem readChunk_unmarked (chunknum : Option UInt32) (comp : Bytes) (h : ¬ Marked comp) :
    readChunk chunknum comp = .ok chunknum := if_neg h

theorem readChunk_marked (chunknum : Option UInt32) (comp : Bytes) (h : Marked comp)
    (hn : nonNegInt comp.tail ≤ 0xffffffff) :
    readChunk chunknum comp = .ok (some (UInt32.ofNat (nonNegInt comp.tail))) := by
  rw [readChunk, if_pos h, if_neg (by omega)]

theorem readChunk_bail (chunknum : Option UInt32) (comp : Bytes) (h : Marked comp)
    (hn : ¬ nonNegInt comp.tail ≤ 0xffffffff) : readChunk chunknum comp = .error .bail := by
  rw [readChunk, if_pos h, if_pos (by omega)]

/- The parser gets through the components if no marked one is too large. -/
theorem readChunks_ok_iff (chunknum : Option UInt32) (comps : List Bytes) :
    (∃ c, readChunks chunknum comps = .ok c) ↔
      ∀ comp ∈ comps, Marked comp → nonNegInt comp.tail ≤ 0xffffffff := by
  induction comps generalizing chunknum with
  | nil => exact ⟨fun _ comp hc => absurd hc List.not_mem_nil, fun _ => ⟨chunknum, rfl⟩⟩
  | cons comp comps ih =>
    rw [List.forall_mem_cons, readChunks]
    by_cases hm : Marked comp
    · by_cases hn : nonNegInt comp.tail ≤ 0xffffffff
      · rw [readChunk_marked _ _ hm hn]
        refine (ih _).trans ⟨fun h => ⟨fun _ => hn, h⟩, fun h => h.2⟩
      · rw [readChunk_bail _ _ hm hn]
        exact ⟨fun ⟨c, hc⟩ => (nomatch hc), fun h => absurd (h.1 hm) hn⟩
    · rw [readChunk_unmarked _ _ hm]
      exact (ih _).trans ⟨fun h => ⟨fun h' => absurd h' hm, h⟩, fun h => h.2⟩

/- A chunk number that has been read stays one. -/
theorem readChunks_some (n : UInt32) (comps : List Bytes) :
    readChunks (some n) comps ≠ .ok none := by
  induction comps generalizing n with
  | nil => exact fun h => nomatch h
  | cons comp comps ih =>
    rw [readChunks]
    by_cases hm : Marked comp
    · by_cases hn : nonNegInt comp.tail ≤ 0xffffffff
      · rw [readChunk_marked _ _ hm hn]
        exact ih _
      · rw [readChunk_bail _ _ hm hn]
        exact fun h => nomatch h
    · rw [readChunk_unmarked _ _ hm]
      exact ih n

theorem readChunks_none_iff (comps : List Bytes) :
    readChunks none comps = .ok none ↔ ∀ comp ∈ comps, ¬ Marked comp := by
  induction comps with
  | nil => exact ⟨fun _ comp hc => absurd hc List.not_mem_nil, fun _ => rfl⟩
  | cons comp comps ih =>
    rw [List.forall_mem_cons, readChunks]
    by_cases hm : Marked comp
    · refine ⟨fun h => ?_, fun h => absurd hm h.1⟩
      by_cases hn : nonNegInt comp.tail ≤ 0xffffffff
      · rw [readChunk_marked _ _ hm hn] at h
        exact absurd h (readChunks_some _ comps)
      · rw [readChunk_bail _ _ hm hn] at h
        exact nomatch h
    · rw [readChunk_unmarked _ _ hm]
      exact ih.trans ⟨fun h => ⟨hm, h⟩, fun h => h.2⟩

theorem readChunk_own (c : Option UInt32) (n : UInt32) :
    readChunk c (NDN_Marker_SegmentNumber :: nonNegIntVal n.toNat) = .ok (some n) := by
  have hval : nonNegInt (nonNegIntVal n.toNat) = n.toNat := nonNegInt_nonNegIntVal _ (uint32_lt n)
  have hlt := n.toNat_lt
  have hm : Marked (NDN_Marker_SegmentNumber :: nonNegIntVal n.toNat) := rfl
  rw [readChunk_marked c _ hm (by rw [List.tail_cons, hval]; omega), List.tail_cons, hval,
    UInt32.ofNat_toNat]

/- The name comes back with the chunk number it was written with. -/
theorem readChunks_wire_iff (name : Prefix) :
    readChunks none name.wire = .ok name.chunknum ↔ Readable name := by
  obtain ⟨comps, chunknum⟩ := name
  rw [Prefix.wire, readChunks_append]
  cases chunknum with
  | none =>
    have hnil : (readChunks none comps >>= fun c => readChunks c (chunkComp none)) =
        readChunks none comps := bind_pure _
    rw [hnil, readChunks_none_iff]
    exact ⟨fun h comp hc hm => absurd hm (h comp hc), fun h comp hc hm => (h comp hc hm).1 rfl⟩
  | some n =>
    have hown (c : Option UInt32) : readChunks c (chunkComp (some n)) = .ok (some n) := by
      rw [chunkComp, readChunks, readChunk_own]
      rfl
    simp only [hown]
    have hok : (readChunks none comps >>= fun _ => .ok (some n)) = .ok (some n) ↔
        ∃ c, readChunks none comps = .ok c := by
      cases readChunks none comps with
      | error err => exact ⟨fun h => (nomatch h), fun ⟨c, hc⟩ => (nomatch hc)⟩
      | ok c => exact ⟨fun _ => ⟨c, rfl⟩, fun _ => rfl⟩
    rw [hok, readChunks_ok_iff]
    exact ⟨fun h comp hc hm => ⟨Option.some_ne_none n, h comp hc hm⟩,
      fun h comp hc hm => (h comp hc hm).2⟩

/- ### Packets -/

theorem elementsVal_append (elems elems' : List (ℕ × Bytes)) :
    elementsVal (elems ++ elems') = elementsVal elems ++ elementsVal elems' := by
  rw [elementsVal, List.map_append, List.flatten_append]
  rfl

theorem length_le_elementsVal (elems : List (ℕ × Bytes)) (e : ℕ × Bytes) (h : e ∈ elems) :
    e.2.length ≤ (elementsVal elems).length := by
  induction elems with
  | nil => exact absurd h List.not_mem_nil
  | cons e' elems ih =>
    have hlen := tlv_length e'.1 e'.2
    rw [elementsVal_cons, List.length_append]
    rcases List.mem_cons.mp h with rfl | h
    · omega
    · have := ih h
      omega

theorem compsVal_eq (comps : List Bytes) :
    compsVal comps = elementsVal (comps.map (NDN_TLV_NameComponent, ·)) := by
  rw [elementsVal, List.map_map]
  rfl

theorem length_le_compsVal (comps : List Bytes) (comp : Bytes) (h : comp ∈ comps) :
    comp.length ≤ (compsVal comps).length := by
  rw [compsVal_eq]
  exact length_le_elementsVal _ (NDN_TLV_NameComponent, comp) (List.mem_map_of_mem h)

theorem fits_of_length (elems : List (ℕ × Bytes)) (ht : ∀ e ∈ elems, e.1 < 2 ^ 32)
    (h : (elementsVal elems).length < 2 ^ 32) : Fits elems :=
  fun e he => ⟨ht e he, Nat.lt_of_le_of_lt (length_le_elementsVal elems e he) h⟩

theorem bytes2pkt_elements (pkttype : ℕ) (start : Bytes) (elems : List (ℕ × Bytes))
    (ht : pkttype = NDN_TLV_Interest ∨ pkttype = NDN_TLV_Data) (hf : Fits elems) :
    bytes2pkt pkttype start ⟨elementsVal elems, (elementsVal elems).length⟩ =
      (readElements (start.length - (elementsVal elems).length) elems (newPkt pkttype)).map
        fun pkt => { pkt with buf := start } := by
  rw [bytes2pkt, if_pos ht, pktLoop_elements elems _ _ _ hf (Nat.lt_succ_self _)]
  cases readElements (start.length - (elementsVal elems).length) elems (newPkt pkttype) with
  | error err => rfl
  | ok pkt => rfl

theorem forwarder_elements (pkttype : ℕ) (elems : List (ℕ × Bytes))
    (ht : pkttype = NDN_TLV_Interest ∨ pkttype = NDN_TLV_Data) (hf : Fits elems)
    (h : (elementsVal elems).length < 2 ^ 32) :
    ndntlvForwarder (tlv pkttype (elementsVal elems)) =
      (readElements ((tlv pkttype (elementsVal elems)).length - (elementsVal elems).length) elems
        (newPkt pkttype)).map fun pkt => { pkt with buf := tlv pkttype (elementsVal elems) } := by
  have htyp : pkttype < 2 ^ 32 := by
    rcases ht with rfl | rfl <;> decide
  have hhead := dehead_tlv pkttype (elementsVal elems) [] 0 htyp h
  rw [List.append_nil, List.append_nil, Nat.add_zero, Nat.add_zero] at hhead
  rw [ndntlvForwarder, hhead, ← bytes2pkt_elements pkttype _ elems ht hf]
  exact if_neg (Nat.lt_irrefl _)

/- The name, the first element of every packet. -/
theorem readElements_name (oldpos : ℕ) (name : Prefix) (elems : List (ℕ × Bytes)) (pkt : Pkt)
    (hpkt : pkt.pfx = none) (hb : Fence (elementsVal elems))
    (hlen : name.wire.length ≤ CCNL_MAX_NAME_COMP) (hv : (compsVal name.wire).length < 2 ^ 32) :
    readElements oldpos ((NDN_TLV_Name, compsVal name.wire) :: elems) pkt =
      readChunks none name.wire >>= fun c =>
        readElements (oldpos + (tlv NDN_TLV_Name (compsVal name.wire)).length) elems
          { pkt with pfx := some ⟨name.wire, c⟩, val := 2 ^ 64 - 1 } := by
  have hcomp : ∀ comp ∈ name.wire, comp.length < 2 ^ 32 := fun comp hc =>
    Nat.lt_of_le_of_lt (length_le_compsVal name.wire comp hc) hv
  have hloop := nameLoop_compsVal (elementsVal elems) name.wire
    ((compsVal name.wire ++ elementsVal elems).length + 1) ⟨[], none⟩ hb
    (by rw [List.length_nil]; omega) hcomp (by rw [List.length_append]; omega)
  have hel : element NDN_TLV_Name oldpos
      ⟨compsVal name.wire ++ elementsVal elems, (compsVal name.wire).length⟩ pkt =
        (partsLoop component ((compsVal name.wire ++ elementsVal elems).length + 1)
          ⟨compsVal name.wire ++ elementsVal elems, (compsVal name.wire).length⟩
          ⟨[], none⟩).map fun p => { pkt with pfx := some p, val := 2 ^ 64 - 1 } := by
    rw [element, if_pos rfl, hpkt]
    rfl
  rw [readElements, hel, hloop]
  cases readChunks none name.wire with
  | error err => rfl
  | ok c => rfl

/- ### Interests -/

def selectorsElems (mustbefresh : UInt8) : List (ℕ × Bytes) :=
  if mustbefresh ≠ 0 then [(NDN_TLV_Selectors, tlv NDN_TLV_MustBeFresh [])] else []

def lifetimeElems (interestlifetime : UInt32) : List (ℕ × Bytes) :=
  if interestlifetime ≠ 0 then
    [(NDN_TLV_InterestLifetime, nonNegIntVal interestlifetime.toNat)]
  else []

def scopeElems (scope : ℤ) : List (ℕ × Bytes) :=
  if 0 ≤ scope then [(NDN_TLV_Scope, nonNegIntVal scope.toNat)] else []

def interestTail (e : Words.Endian) (scope : ℤ) (opts : InterestOpts) : List (ℕ × Bytes) :=
  selectorsElems opts.mustbefresh ++ ((NDN_TLV_Nonce, Words.store e 4 opts.nonce.toNat) ::
    (lifetimeElems opts.interestlifetime ++ scopeElems scope))

def interestElems (e : Words.Endian) (name : Prefix) (scope : ℤ) (opts : InterestOpts) :
    List (ℕ × Bytes) := (NDN_TLV_Name, compsVal name.wire) :: interestTail e scope opts

/-- The Interest as the relay should see it. -/
def interestPkt (e : Words.Endian) (pfx : Prefix) (scope : ℤ) (opts : InterestOpts) (buf : Bytes) :
    Pkt :=
  { newPkt NDN_TLV_Interest with
    pfx := some pfx
    val := 2 ^ 64 - 1
    mbf := opts.mustbefresh ≠ 0
    nonce := some (Words.store e 4 opts.nonce.toNat)
    interestlifetime :=
      if opts.interestlifetime ≠ 0 then opts.interestlifetime.toNat
      else CCNL_INTEREST_TIMEOUT * 1000
    scope := if 0 ≤ scope then scope.toNat else 3
    buf := buf }

theorem elementsVal_interestElems (e : Words.Endian) (name : Prefix) (scope : ℤ)
    (opts : InterestOpts) :
    elementsVal (interestElems e name scope opts) = interestVal e name scope opts := by
  have hsel : elementsVal (selectorsElems opts.mustbefresh) = selectorsVal opts.mustbefresh := by
    rw [selectorsElems, selectorsVal]
    split
    · exact List.append_nil _
    · rfl
  have hlife : elementsVal (lifetimeElems opts.interestlifetime) =
      lifetimeVal opts.interestlifetime := by
    rw [lifetimeElems, lifetimeVal]
    split
    · exact List.append_nil _
    · rfl
  have hscope : elementsVal (scopeElems scope) = scopeVal scope := by
    rw [scopeElems, scopeVal]
    split
    · exact List.append_nil _
    · rfl
  rw [interestElems, interestTail, interestVal, elementsVal_cons, elementsVal_append, hsel,
    elementsVal_cons, elementsVal_append, hlife, hscope]

theorem element_selectors (oldpos : ℕ) (behind : Bytes) (pkt : Pkt) :
    element NDN_TLV_Selectors oldpos ⟨tlv NDN_TLV_MustBeFresh [] ++ behind, 2⟩ pkt =
      .ok { pkt with mbf := true } := rfl

/-- The elements of which the parser reads the value as a whole. -/
theorem map_read (f : Bytes → Pkt) (value behind : Bytes) :
    ((Cursor.mk (value ++ behind) value.length).read value.length).map f = .ok (f value) := by
  rw [read_append value behind _ _ rfl]
  rfl

theorem map_read_nonNegInt (f : ℕ → Pkt) (n : ℕ) (behind : Bytes) (h : n < 2 ^ 64) :
    ((Cursor.mk (nonNegIntVal n ++ behind) (nonNegIntVal n).length).read
      (nonNegIntVal n).length).map (fun value => f (nonNegInt value)) = .ok (f n) := by
  rw [map_read (fun value => f (nonNegInt value)), nonNegInt_nonNegIntVal n h]

theorem element_nonce (oldpos : ℕ) (value behind : Bytes) (pkt : Pkt) :
    element NDN_TLV_Nonce oldpos ⟨value ++ behind, value.length⟩ pkt =
      .ok { pkt with nonce := some value } :=
  map_read (fun value => { pkt with nonce := some value }) value behind

theorem element_lifetime (oldpos n : ℕ) (behind : Bytes) (pkt : Pkt) (h : n < 2 ^ 64) :
    element NDN_TLV_InterestLifetime oldpos ⟨nonNegIntVal n ++ behind, (nonNegIntVal n).length⟩
      pkt = .ok { pkt with interestlifetime := n } :=
  map_read_nonNegInt (fun val => { pkt with interestlifetime := val }) n behind h

theorem element_scope (oldpos n : ℕ) (behind : Bytes) (pkt : Pkt) (h : n < 2 ^ 64) :
    element NDN_TLV_Scope oldpos ⟨nonNegIntVal n ++ behind, (nonNegIntVal n).length⟩ pkt =
      .ok { pkt with scope := n } :=
  map_read_nonNegInt (fun val => { pkt with scope := val }) n behind h

theorem readElements_scope (oldpos : ℕ) (scope : ℤ) (pkt : Pkt) (h : scope ≤ 2) :
    readElements oldpos (scopeElems scope) pkt =
      .ok { pkt with scope := if 0 ≤ scope then scope.toNat else pkt.scope } := by
  by_cases h0 : 0 ≤ scope
  · rw [scopeElems, if_pos h0, if_pos h0, readElements,
      element_scope oldpos _ _ pkt (by omega)]
    rfl
  · rw [scopeElems, if_neg h0, if_neg h0]
    rfl

theorem readElements_lifetime (oldpos : ℕ) (interestlifetime : UInt32) (elems : List (ℕ × Bytes))
    (pkt : Pkt) :
    ∃ pos, readElements oldpos (lifetimeElems interestlifetime ++ elems) pkt =
      readElements pos elems { pkt with
        interestlifetime := if interestlifetime ≠ 0 then interestlifetime.toNat
          else pkt.interestlifetime } := by
  by_cases h0 : interestlifetime ≠ 0
  · refine ⟨oldpos + (tlv NDN_TLV_InterestLifetime (nonNegIntVal interestlifetime.toNat)).length, ?_⟩
    rw [lifetimeElems, if_pos h0, if_pos h0, List.singleton_append, readElements,
      element_lifetime oldpos _ _ pkt (uint32_lt _)]
    rfl
  · refine ⟨oldpos, ?_⟩
    rw [lifetimeElems, if_neg h0, if_neg h0]
    rfl

theorem readElements_selectors (oldpos : ℕ) (mustbefresh : UInt8) (elems : List (ℕ × Bytes))
    (pkt : Pkt) :
    ∃ pos, readElements oldpos (selectorsElems mustbefresh ++ elems) pkt =
      readElements pos elems { pkt with
        mbf := if mustbefresh ≠ 0 then true else pkt.mbf } := by
  by_cases h0 : mustbefresh ≠ 0
  · refine ⟨oldpos + (tlv NDN_TLV_Selectors (tlv NDN_TLV_MustBeFresh [])).length, ?_⟩
    have hsel := element_selectors oldpos (elementsVal elems) pkt
    rw [selectorsElems, if_pos h0, if_pos h0, List.singleton_append, readElements]
    exact congrArg (· >>= readElements _ elems) hsel
  · refine ⟨oldpos, ?_⟩
    rw [selectorsElems, if_neg h0, if_neg h0]
    rfl

theorem readElements_interestTail (oldpos : ℕ) (e : Words.Endian) (scope : ℤ)
    (opts : InterestOpts) (pkt : Pkt) (h : scope ≤ 2) :
    readElements oldpos (interestTail e scope opts) pkt = .ok { pkt with
      mbf := if opts.mustbefresh ≠ 0 then true else pkt.mbf
      nonce := some (Words.store e 4 opts.nonce.toNat)
      interestlifetime := if opts.interestlifetime ≠ 0 then opts.interestlifetime.toNat
        else pkt.interestlifetime
      scope := if 0 ≤ scope then scope.toNat else pkt.scope } := by
  rw [interestTail]
  obtain ⟨pos, hsel⟩ := readElements_selectors oldpos opts.mustbefresh
    ((NDN_TLV_Nonce, Words.store e 4 opts.nonce.toNat) ::
      (lifetimeElems opts.interestlifetime ++ scopeElems scope)) pkt
  rw [hsel, readElements, element_nonce]
  obtain ⟨pos', hlife⟩ := readElements_lifetime
    (pos + (tlv NDN_TLV_Nonce (Words.store e 4 opts.nonce.toNat)).length) opts.interestlifetime
    (scopeElems scope)
    { pkt with
      mbf := if opts.mustbefresh ≠ 0 then true else pkt.mbf
      nonce := some (Words.store e 4 opts.nonce.toNat) }
  exact hlife.trans (readElements_scope pos' scope _ h)

theorem fence_interestTail (e : Words.Endian) (scope : ℤ) (opts : InterestOpts) :
    Fence (elementsVal (interestTail e scope opts)) := by
  rw [interestTail, elementsVal_append]
  by_cases h0 : opts.mustbefresh ≠ 0
  · rw [selectorsElems, if_pos h0, elementsVal_cons, List.append_assoc]
    exact fence_tlv _ _ _ (by decide)
  · rw [selectorsElems, if_neg h0]
    change Fence (elementsVal _)
    rw [elementsVal_cons]
    exact fence_tlv NDN_TLV_Nonce _ _ (by decide)

theorem interestElems_types (e : Words.Endian) (name : Prefix) (scope : ℤ) (opts : InterestOpts) :
    ∀ el ∈ interestElems e name scope opts, el.1 < 2 ^ 32 := by
  have hsel : ∀ el ∈ selectorsElems opts.mustbefresh, el.1 < 2 ^ 32 := by
    rw [selectorsElems]
    split <;> simp [NDN_TLV_Selectors]
  have hlife : ∀ el ∈ lifetimeElems opts.interestlifetime, el.1 < 2 ^ 32 := by
    rw [lifetimeElems]
    split <;> simp [NDN_TLV_InterestLifetime]
  have hscope : ∀ el ∈ scopeElems scope, el.1 < 2 ^ 32 := by
    rw [scopeElems]
    split <;> simp [NDN_TLV_Scope]
  rw [interestElems, interestTail, List.forall_mem_cons, List.forall_mem_append,
    List.forall_mem_cons, List.forall_mem_append]
  have hname : NDN_TLV_Name < 2 ^ 32 := by decide
  have hnonce : NDN_TLV_Nonce < 2 ^ 32 := by decide
  exact ⟨hname, hsel, hnonce, hlife, hscope⟩

/- The relay on an Interest: all that can go wrong is in the components of the name. -/
theorem forwarder_interest (e : Words.Endian) (name : Prefix) (scope : ℤ) (opts : InterestOpts)
    (hs : scope ≤ 2) (hlen : name.wire.length ≤ CCNL_MAX_NAME_COMP)
    (hv : (interestVal e name scope opts).length < 2 ^ 32) :
    ndntlvForwarder (tlv NDN_TLV_Interest (interestVal e name scope opts)) =
      (readChunks none name.wire).map fun c =>
        interestPkt e ⟨name.wire, c⟩ scope opts
          (tlv NDN_TLV_Interest (interestVal e name scope opts)) := by
  have hval := elementsVal_interestElems e name scope opts
  have hel : (elementsVal (interestElems e name scope opts)).length < 2 ^ 32 := by rwa [hval]
  have hname : (compsVal name.wire).length < 2 ^ 32 :=
    Nat.lt_of_le_of_lt (length_le_elementsVal _ (NDN_TLV_Name, compsVal name.wire)
      List.mem_cons_self) hel
  have hfw := forwarder_elements NDN_TLV_Interest (interestElems e name scope opts) (.inl rfl)
    (fits_of_length _ (interestElems_types e name scope opts) hel) hel
  have hread := readElements_name
    ((tlv NDN_TLV_Interest (elementsVal (interestElems e name scope opts))).length -
      (elementsVal (interestElems e name scope opts)).length)
    name (interestTail e scope opts) (newPkt NDN_TLV_Interest) rfl
    (fence_interestTail e scope opts) hlen hname
  rw [← hval, hfw]
  simp only [interestElems] at hread ⊢
  rw [hread]
  simp only [readElements_interestTail _ e scope opts _ hs]
  cases readChunks none name.wire with
  | error err => rfl
  | ok c =>
    simp only [bind, Except.bind, Except.map, interestPkt, newPkt]
    simp only [ne_eq, decide_not, Bool.if_true_left, Bool.or_false]

theorem map_eq_ok_iff (r : Except ParseError (Option UInt32)) (f : Option UInt32 → Pkt)
    (hf : ∀ c c', f c = f c' → c = c') (c : Option UInt32) : r.map f = .ok (f c) ↔ r = .ok c := by
  cases r with
  | error err => exact ⟨fun h => (nomatch h), fun h => (nomatch h)⟩
  | ok c' =>
    exact ⟨fun h => congrArg Except.ok (hf c' c (Except.ok.inj h)),
      fun h => congrArg (Except.ok ∘ f) (Except.ok.inj h)⟩

theorem forwarder_interest_iff (e : Words.Endian) (name : Prefix) (opts : InterestOpts)
    (hlen : name.wire.length ≤ CCNL_MAX_NAME_COMP)
    (hfit : (tlv NDN_TLV_Interest (interestVal e name (-1) opts)).length ≤ CCNL_MAX_PACKET_SIZE) :
    ndntlvForwarder (tlv NDN_TLV_Interest (interestVal e name (-1) opts)) =
      .ok (interestPkt e ⟨name.wire, name.chunknum⟩ (-1) opts
        (tlv NDN_TLV_Interest (interestVal e name (-1) opts))) ↔ Readable name := by
  have hv : (interestVal e name (-1) opts).length < 2 ^ 32 := by
    have htl := tlv_length NDN_TLV_Interest (interestVal e name (-1) opts)
    rw [CCNL_MAX_PACKET_SIZE] at hfit
    omega
  rw [forwarder_interest e name (-1) opts (by decide) hlen hv, ← readChunks_wire_iff]
  refine map_eq_ok_iff _ (fun c => interestPkt e ⟨name.wire, c⟩ (-1) opts _) ?_ name.chunknum
  intro c c' heq
  have hpfx : some (Prefix.mk name.wire c) = some ⟨name.wire, c'⟩ := congrArg Pkt.pfx heq
  exact congrArg Prefix.chunknum (Option.some.inj hpfx)

theorem mkSimpleInterestK_forwarder (e : Words.Endian) (name : Prefix) (opts : InterestOpts)
    (prandom : UInt32) (tmp : { d : Bytes // d.length = CCNL_MAX_PACKET_SIZE }) (pkt : Bytes)
    (hlen : name.wire.length ≤ CCNL_MAX_NAME_COMP)
    (h : mkSimpleInterestK e name opts prandom tmp = some pkt) :
    ndntlvForwarder pkt = .ok (interestPkt e ⟨name.wire, name.chunknum⟩ (-1)
      (opts.withNonce prandom) pkt) ↔ Readable name := by
  rw [mkSimpleInterestK_eq] at h
  split at h
  · rename_i hfit
    obtain rfl := Option.some.inj h
    exact forwarder_interest_iff e name (opts.withNonce prandom) hlen hfit
  · exact nomatch h

/-- `/a` with the nonce 7. -/
def interestA : Bytes := [5, 11, 7, 3, 8, 1, 97, 10, 4, 7, 0, 0, 0]

def zeros : { d : Bytes // d.length = CCNL_MAX_PACKET_SIZE } :=
  ⟨List.replicate CCNL_MAX_PACKET_SIZE 0, List.length_replicate⟩

theorem interestA_forwarder :
    ndntlvForwarder interestA = .ok (interestPkt .little ⟨[[97]], none⟩ (-1) ⟨7, 0, 0⟩ interestA) :=
  (mkSimpleInterestK_forwarder .little ⟨[[97]], none⟩ ⟨7, 0, 0⟩ 0 zeros interestA (by decide)
    (by rw [mkSimpleInterestK_eq]; exact if_pos (by decide))).mpr (by decide)

/- ### Data -/

def contentElems (name : Prefix) (payload : Bytes) (opts : Option DataOpts) : List (ℕ × Bytes) :=
  [(NDN_TLV_Name, compsVal name.wire), (NDN_TLV_MetaInfo, metaInfoVal opts),
    (NDN_TLV_Content, payload),
    (NDN_TLV_SignatureInfo, tlv NDN_TLV_SignatureType [NDN_VAL_SIGTYPE_DIGESTSHA256]),
    (NDN_TLV_SignatureValue, [])]

/-- `final_block_id` and `freshnessperiod` of a packet built with these options. -/
def metaFields (opts : Option DataOpts) (pkt : Pkt) : Pkt :=
  match opts with
  | some opts =>
    { pkt with
      val := if opts.finalblockid ≠ 0xffffffff then opts.finalblockid.toNat else pkt.val
      freshnessperiod := if opts.freshnessperiod ≠ 0 then opts.freshnessperiod.toNat
        else pkt.freshnessperiod }
  | none => pkt

/-- The Data packet as the relay should see it. -/
def dataPkt (pfx : Prefix) (payload : Bytes) (opts : Option DataOpts) (buf : Bytes) : Pkt :=
  { metaFields opts { newPkt NDN_TLV_Data with val := 2 ^ 64 - 1 } with
    pfx := some pfx
    content := some payload
    buf := buf }

theorem elementsVal_contentElems (name : Prefix) (payload : Bytes) (opts : Option DataOpts) :
    elementsVal (contentElems name payload opts) = contentVal name payload opts := by
  simp only [contentElems, elementsVal_cons, contentVal, signatureVal]
  rfl

theorem metaInfo_finalBlockId (finalblockid : UInt32) (behind : Bytes) (fuel : ℕ) (pkt : Pkt)
    (hf : (finalBlockIdVal finalblockid).length < fuel)
    (hv : (finalBlockIdVal finalblockid).length < 2 ^ 32) :
    partsLoop metaInfo fuel
      ⟨finalBlockIdVal finalblockid ++ behind, (finalBlockIdVal finalblockid).length⟩ pkt =
        .ok { pkt with
          val := if finalblockid ≠ 0xffffffff then finalblockid.toNat else pkt.val } := by
  obtain ⟨fuel, rfl⟩ : ∃ k, fuel = k + 1 := ⟨fuel - 1, by omega⟩
  by_cases h : finalblockid ≠ 0xffffffff
  · rw [finalBlockIdVal, if_pos h] at hf hv ⊢
    generalize hcomp : NDN_Marker_SegmentNumber :: nonNegIntVal finalblockid.toNat = comp at hf hv ⊢
    have hlt := finalblockid.toNat_lt
    have hval : nonNegInt (nonNegIntVal finalblockid.toNat) = finalblockid.toNat :=
      nonNegInt_nonNegIntVal _ (uint32_lt finalblockid)
    have houter := tlv_length NDN_TLV_FinalBlockId (tlv NDN_TLV_NameComponent comp)
    have hinner := tlv_length NDN_TLV_NameComponent comp
    have hloop := partsLoop_tlv metaInfo fuel NDN_TLV_FinalBlockId (tlv NDN_TLV_NameComponent comp)
      behind 0 pkt (by decide) (by omega)
    have hnext := next_tlv NDN_TLV_NameComponent comp behind 0 (by decide) (by omega)
    have hread : ((Cursor.mk (comp ++ behind) (comp.length + 0)).skip 1).read
        (sizeSub comp.length 1) = .ok (nonNegIntVal finalblockid.toNat) := by
      rw [← hcomp]
      exact read_append _ behind _ _ rfl
    have hskip := skip_append comp behind 0 _ rfl
    have hid : ¬ 2 ^ 63 ≤ finalblockid.toNat := by omega
    obtain ⟨fuel, rfl⟩ : ∃ k, fuel = k + 1 := ⟨fuel - 1, by omega⟩
    rw [metaInfo, if_pos rfl, finalBlockId, hnext] at hloop
    simp only [bind, Except.bind, if_true, hread, hval, if_neg hid, hskip] at hloop
    rw [if_pos h]
    exact hloop.trans (if_pos rfl)
  · rw [finalBlockIdVal, if_neg h, if_neg h]
    rfl

theorem element_metaInfo (oldpos : ℕ) (opts : Option DataOpts) (behind : Bytes) (pkt : Pkt)
    (hv : (metaInfoVal opts).length < 2 ^ 32) :
    element NDN_TLV_MetaInfo oldpos ⟨metaInfoVal opts ++ behind, (metaInfoVal opts).length⟩ pkt =
      .ok (metaFields opts pkt) := by
  change partsLoop metaInfo ((metaInfoVal opts ++ behind).length + 1)
    ⟨metaInfoVal opts ++ behind, (metaInfoVal opts).length⟩ pkt = _
  cases opts with
  | none => rfl
  | some opts =>
    by_cases h : opts.freshnessperiod ≠ 0
    · have hval : nonNegInt (nonNegIntVal opts.freshnessperiod.toNat) =
          opts.freshnessperiod.toNat := nonNegInt_nonNegIntVal _ (uint32_lt opts.freshnessperiod)
      rw [metaInfoVal, freshnessPeriodVal, if_pos h] at hv ⊢
      rw [List.length_append] at hv
      rw [List.length_append, List.length_append]
      generalize hvalue : nonNegIntVal opts.freshnessperiod.toNat = value at hv hval ⊢
      have hlen := tlv_length NDN_TLV_FreshnessPeriod value
      have hread := read_append value (finalBlockIdVal opts.finalblockid ++ behind)
        (value.length + (finalBlockIdVal opts.finalblockid).length) _ rfl
      have hskip := skip_append value (finalBlockIdVal opts.finalblockid ++ behind)
        (finalBlockIdVal opts.finalblockid).length _ rfl
      rw [List.append_assoc, partsLoop_tlv metaInfo _ NDN_TLV_FreshnessPeriod value _ _ pkt
        (by decide) (by omega), metaInfo, if_neg (by decide), if_pos rfl, hread, hskip]
      simp only [bind, Except.bind, Except.map, hval, metaFields, if_pos h]
      exact metaInfo_finalBlockId opts.finalblockid behind _ _ (by omega) (by omega)
    · rw [metaInfoVal, freshnessPeriodVal, if_neg h, List.nil_append] at hv ⊢
      rw [metaInfo_finalBlockId opts.finalblockid behind _ pkt (by rw [List.length_append]; omega)
        hv, metaFields, if_neg h]

theorem element_content (oldpos : ℕ) (value behind : Bytes) (pkt : Pkt) :
    element NDN_TLV_Content oldpos ⟨value ++ behind, value.length⟩ pkt =
      .ok { pkt with content := some value } := by
  have htake : (value ++ behind).take value.length = value := List.take_left
  exact congrArg (fun v => Except.ok { pkt with content := some v }) htake

/- The digest the encoder announces is no HMAC. -/
theorem readElements_signature (oldpos : ℕ) (pkt : Pkt) :
    readElements oldpos
      [(NDN_TLV_SignatureInfo, tlv NDN_TLV_SignatureType [NDN_VAL_SIGTYPE_DIGESTSHA256]),
        (NDN_TLV_SignatureValue, [])] pkt = .ok pkt := by
  have hinfo (pos : ℕ) (behind : Bytes) : element NDN_TLV_SignatureInfo pos
      ⟨tlv NDN_TLV_SignatureType [NDN_VAL_SIGTYPE_DIGESTSHA256] ++ behind,
        (tlv NDN_TLV_SignatureType [NDN_VAL_SIGTYPE_DIGESTSHA256]).length⟩ pkt =
        .ok { pkt with validAlgoIsHmac256 := pkt.validAlgoIsHmac256 || false } := rfl
  have hvalue (pos : ℕ) (behind : Bytes) :
      element NDN_TLV_SignatureValue pos ⟨[] ++ behind, ([] : Bytes).length⟩ pkt = .ok pkt := by
    have hlen : ¬ (pkt.validAlgoIsHmac256 = true ∧ ([] : Bytes).length = 32) :=
      fun h => absurd h.2 (by decide)
    exact if_neg hlen
  rw [readElements, hinfo, Bool.or_false]
  simp only [bind, Except.bind, readElements, hvalue]

theorem contentElems_types (name : Prefix) (payload : Bytes) (opts : Option DataOpts) :
    ∀ el ∈ contentElems name payload opts, el.1 < 2 ^ 32 := by
  simp [contentElems, NDN_TLV_Name, NDN_TLV_MetaInfo, NDN_TLV_Content, NDN_TLV_SignatureInfo,
    NDN_TLV_SignatureValue]

theorem forwarder_content (name : Prefix) (payload : Bytes) (opts : Option DataOpts)
    (hlen : name.wire.length ≤ CCNL_MAX_NAME_COMP)
    (hv : (contentVal name payload opts).length < 2 ^ 32) :
    ndntlvForwarder (tlv NDN_TLV_Data (contentVal name payload opts)) =
      (readChunks none name.wire).map fun c =>
        dataPkt ⟨name.wire, c⟩ payload opts (tlv NDN_TLV_Data (contentVal name payload opts)) := by
  have hval := elementsVal_contentElems name payload opts
  have hel : (elementsVal (contentElems name payload opts)).length < 2 ^ 32 := by rwa [hval]
  have hname : (compsVal name.wire).length < 2 ^ 32 :=
    Nat.lt_of_le_of_lt (length_le_elementsVal _ (NDN_TLV_Name, compsVal name.wire)
      List.mem_cons_self) hel
  have hmeta : (metaInfoVal opts).length < 2 ^ 32 :=
    Nat.lt_of_le_of_lt (length_le_elementsVal _ (NDN_TLV_MetaInfo, metaInfoVal opts)
      (List.mem_cons_of_mem _ List.mem_cons_self)) hel
  have hfw := forwarder_elements NDN_TLV_Data (contentElems name payload opts) (.inr rfl)
    (fits_of_length _ (contentElems_types name payload opts) hel) hel
  have hread := readElements_name
    ((tlv NDN_TLV_Data (elementsVal (contentElems name payload opts))).length -
      (elementsVal (contentElems name payload opts)).length)
    name (contentElems name payload opts).tail (newPkt NDN_TLV_Data) rfl
    (by
      rw [contentElems, List.tail_cons, elementsVal_cons]
      exact fence_tlv NDN_TLV_MetaInfo _ _ (by decide)) hlen hname
  rw [← hval, hfw]
  simp only [contentElems, List.tail_cons] at hread ⊢
  rw [hread]
  cases readChunks none name.wire with
  | error err => rfl
  | ok c =>
    simp only [bind, Except.bind]
    rw [readElements, element_metaInfo _ opts _ _ hmeta]
    simp only [bind, Except.bind]
    rw [readElements, element_content]
    simp only [bind, Except.bind]
    rw [readElements_signature]
    cases opts with
    | none => rfl
    | some opts => rfl

theorem content_position (name : Prefix) (payload : Bytes) (opts : Option DataOpts) :
    ∃ pre, tlv NDN_TLV_Data (contentVal name payload opts) = pre ++ (payload ++ signatureVal) := by
  refine ⟨tlVal NDN_TLV_Data ++ tlVal (contentVal name payload opts).length ++
    (tlv NDN_TLV_Name (compsVal name.wire) ++ (tlv NDN_TLV_MetaInfo (metaInfoVal opts) ++
      (tlVal NDN_TLV_Content ++ tlVal payload.length))), ?_⟩
  rw [tlv, contentVal, tlv.eq_1 NDN_TLV_Content]
  simp only [List.append_assoc]

theorem prependContent_forwarder (name : Prefix) (payload : Bytes) (opts : Option DataOpts)
    (b c : Buf Byte) (contentpos : ℕ) (hlen : name.wire.length ≤ CCNL_MAX_NAME_COMP)
    (hb : b.data.length < 2 ^ 32)
    (h : prependContent name payload opts b = .ok (c, contentpos)) :
    ∃ pkt, c.written = pkt ++ b.written ∧
      (ndntlvForwarder pkt = .ok (dataPkt ⟨name.wire, name.chunknum⟩ payload opts pkt) ↔
        Readable name) ∧
      7 ≤ contentpos ∧ (pkt.drop (contentpos - 7)).take payload.length = payload := by
  have hw := writes_prependData name payload opts b
  rw [prependContent, hw] at h
  cases hput : put (tlv NDN_TLV_Data (contentVal name payload opts)) b with
  | error err =>
    rw [hput] at h
    exact nomatch h
  | ok d =>
    rw [hput] at h
    obtain ⟨rfl, rfl⟩ := Prod.mk.inj (Except.ok.inj h)
    obtain ⟨hfit, hoff, hwritten, -⟩ := put_written _ b d hput
    obtain ⟨pre, hpre⟩ := content_position name payload opts
    have hsize : (tlv NDN_TLV_Data (contentVal name payload opts)).length =
        pre.length + (payload.length + 7) := by
      rw [hpre, List.length_append, List.length_append]
      rfl
    have hin := b.inside
    have htl := tlv_length NDN_TLV_Data (contentVal name payload opts)
    refine ⟨_, hwritten, ?_, by omega, ?_⟩
    · rw [forwarder_content name payload opts hlen (by omega), ← readChunks_wire_iff]
      refine map_eq_ok_iff _ (fun c => dataPkt ⟨name.wire, c⟩ payload opts _) ?_ name.chunknum
      intro c c' heq
      have hpfx : some (Prefix.mk name.wire c) = some ⟨name.wire, c'⟩ := congrArg Pkt.pfx heq
      exact congrArg Prefix.chunknum (Option.some.inj hpfx)
    · have hpos : b.offset - payload.length - d.offset - 7 = pre.length := by omega
      rw [hpos, hpre, List.drop_left, List.take_left]

def emptyBuf : Buf Byte := ⟨List.replicate 20 0, 20, by decide⟩

def dataA : Buf Byte :=
  ⟨[6, 18, 7, 3, 8, 1, 97, 20, 0, 21, 2, 1, 2, 22, 3, 27, 1, 0, 23, 0], 0, by decide⟩

theorem dataA_forwarder :
    ∃ pkt, dataA.written = pkt ++ emptyBuf.written ∧
      (ndntlvForwarder pkt = .ok (dataPkt ⟨[[97]], none⟩ [1, 2] none pkt) ↔
        Readable ⟨[[97]], none⟩) ∧
      7 ≤ 18 ∧ (pkt.drop (18 - 7)).take 2 = [1, 2] :=
  prependContent_forwarder ⟨[[97]], none⟩ [1, 2] none emptyBuf dataA 18 (by decide) (by decide) rfl

end PepDna.Ndn
