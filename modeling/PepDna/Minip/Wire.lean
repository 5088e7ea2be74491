import PepDna.Words
import PepDna.Minip.Ops

/-!
# MINIP packets as bytes (minip.h:37-62, minip.c:389-725)

`struct minip_hdr` is packed, 19 bytes. The senders fill in some of its fields of a buffer that
they have not cleared, and convert `id`, `seq`, `ack` and `ts` to network order but not `sdu_len`.
`ts` of an ACK is copied from the DATA packet as it lies in memory. The handler of a REQUEST reads
none of these fields: it computes the id from the address and the port in the tuple behind the
header. Sender and receiver may be hosts of different byte order.
-/

namespace PepDna.Minip
open PepDna.Words

/-- `enum minip_packet_type`. -/
def Kind.code : Kind → Byte
  | .request => 1
  | .response => 2
  | .delete => 3
  | .finished => 4
  | .data => 5
  | .ack => 6

def Kind.ofCode (b : Byte) : Option Kind :=
  if b = 1 then some .request
  else if b = 2 then some .response
  else if b = 3 then some .delete
  else if b = 4 then some .finished
  else if b = 5 then some .data
  else if b = 6 then some .ack
  else none

@[simp] theorem Kind.ofCode_code (k : Kind) : Kind.ofCode k.code = some k := by
  cases k <;> rfl

namespace Wire

/-- `struct minip_hdr`, each field as the host that works on it loads it. -/
structure MinipHdr where
  pktType : Byte
  sduLen : ℕ
  id : ℕ
  seq : ℕ
  ack : ℕ
  ts : ℕ
  deriving Repr, DecidableEq

def HDR_LEN : ℕ := 19  -- sizeof(struct minip_hdr)

def MinipHdr.bytes (e : Endian) (h : MinipHdr) : Bytes :=
  h.pktType :: (store e 2 h.sduLen ++ (store e 4 h.id ++ (store e 4 h.seq ++
    (store e 4 h.ack ++ store e 4 h.ts))))

@[simp] theorem MinipHdr.bytes_length (e : Endian) (h : MinipHdr) :
    (h.bytes e).length = HDR_LEN := by
  simp [MinipHdr.bytes, HDR_LEN]

/-- `struct syn_tuple`: two bytes of padding behind each port. The fields are in network order on
every host; `SynTuple` has them as a little-endian host loads them. -/
def synBytes (pad : Byte × Byte × Byte × Byte) (syn : SynTuple) : Bytes :=
  store .little 4 syn.saddr ++ (store .little 2 syn.source ++ ([pad.1, pad.2.1] ++
    (store .little 4 syn.daddr ++ (store .little 2 syn.dest ++ [pad.2.2.1, pad.2.2.2]))))

/-! ### The senders -/

section Senders

-- `raw` is what `skb_put` finds in the buffer
variable (e : Endian) (raw : MinipHdr)

def pepdnaMinipConnDelete (id : ℕ) : MinipHdr :=
  { raw with pktType := Kind.delete.code, sduLen := 0, id := hton e 4 id }

def pepdnaMinipConnFinished (id : ℕ) : MinipHdr :=
  { raw with pktType := Kind.finished.code, sduLen := 0, id := hton e 4 id }

def pepdnaMinipSendResponse (id : ℕ) : MinipHdr :=
  { raw with
    pktType := Kind.response.code
    sduLen := 0
    id := hton e 4 id
    seq := hton e 4 MINIP_FIRST_SEQ
    ack := hton e 4 (MINIP_FIRST_SEQ + 1) }

/-- `ts` is a `__be32` and not converted. -/
def pepdnaMinipSendAck (id ack ts : ℕ) : MinipHdr :=
  { raw with
    pktType := Kind.ack.code
    sduLen := 0
    id := hton e 4 id
    ack := hton e 4 ack
    ts := ts }

def pepdnaMinipConnRequest (id now : ℕ) : MinipHdr where
  pktType := Kind.request.code
  sduLen := 16
  id := hton e 4 id
  seq := hton e 4 MINIP_FIRST_SEQ
  ack := hton e 4 MINIP_FIRST_SEQ
  ts := hton e 4 now

/-- The header of `pepdna_minip_skb_send`; `len` is stored as it is. -/
def pepdnaMinipSkbSend (id seq len now : ℕ) : MinipHdr :=
  { raw with
    pktType := Kind.data.code
    sduLen := len % 65536
    id := hton e 4 id
    seq := hton e 4 seq
    ts := hton e 4 now }

/-- The bytes that leave a host of byte order `e` for a packet. -/
def encode (pad : Byte × Byte × Byte × Byte) : Packet → Bytes
  | .request id _ _ ts syn => (pepdnaMinipConnRequest e id ts).bytes e ++ synBytes pad syn
  | .response id _ _ => (pepdnaMinipSendResponse e raw id).bytes e
  | .data d => (pepdnaMinipSkbSend e raw d.id d.seq d.sdu.length d.ts).bytes e ++ d.sdu
  | .ack id ack ts => (pepdnaMinipSendAck e raw id ack (hton e 4 ts)).bytes e
  | .delete id => (pepdnaMinipConnDelete e raw id).bytes e
  | .finished id => (pepdnaMinipConnFinished e raw id).bytes e

end Senders

/-! ### The receiver -/

/-- A received frame from its network header on, and what the memory holds behind it. -/
structure Frame where
  bytes : Bytes
  behind : ℕ → Byte

/-- The `n` bytes from `off` on, wherever the frame ends. -/
def Frame.slice (f : Frame) (off n : ℕ) : Bytes :=
  (List.range n).map fun i => f.bytes.getD (off + i) (f.behind (off + i))

def Frame.hdr (e : Endian) (f : Frame) : MinipHdr where
  pktType := f.bytes.getD 0 (f.behind 0)
  sduLen := load e (f.slice 1 2)
  id := load e (f.slice 3 4)
  seq := load e (f.slice 7 4)
  ack := load e (f.slice 11 4)
  ts := load e (f.slice 15 4)

/-- The tuple as a host of byte order `e` loads it. -/
def Frame.syn (e : Endian) (f : Frame) (off : ℕ) : SynTuple where
  saddr := load e (f.slice off 4)
  source := load e (f.slice (off + 4) 2)
  daddr := load e (f.slice (off + 8) 4)
  dest := load e (f.slice (off + 12) 2)

/-- The hash of the tuple in a REQUEST. -/
def Frame.hash (e : Endian) (f : Frame) (off : ℕ) : ℕ :=
  pepdnaHash32Rjenkins12On e (f.syn e off).saddr (f.syn e off).source

def Frame.pdu (e : Endian) (f : Frame) : DataPdu :=
  ⟨hton e 4 (f.hdr e).id, hton e 4 (f.hdr e).seq, (f.hdr e).sduLen, hton e 4 (f.hdr e).ts,
    f.slice HDR_LEN (f.hdr e).sduLen⟩

/-- What the handler of a packet takes from it. A REQUEST is for the connection with the hash of
its tuple, which is in network order: `syn` has it as a little-endian host loads it. -/
inductive Seen where
  | request (hash : ℕ) (syn : SynTuple)
  | response (id : ℕ)
  | data (d : DataPdu)
  | ack (id ack ts : ℕ)
  | delete (id : ℕ)
  | finished (id : ℕ)
  deriving Repr, DecidableEq

/-- The fields of a packet of a kind, as the handlers of a host of byte order `e` take them from the
frame. -/
def Frame.seen (e : Endian) (f : Frame) : Kind → Seen
  | .request => .request (f.hash e HDR_LEN) (f.syn .little HDR_LEN)
  | .response => .response (hton e 4 (f.hdr e).id)
  | .delete => .delete (hton e 4 (f.hdr e).id)
  | .finished => .finished (hton e 4 (f.hdr e).id)
  | .data => .data (f.pdu e)
  | .ack => .ack (hton e 4 (f.hdr e).id) (hton e 4 (f.hdr e).ack) (hton e 4 (f.hdr e).ts)

def decode (e : Endian) (f : Frame) : Option Seen :=
  (Kind.ofCode (f.hdr e).pktType).map (f.seen e)

/-- What the sender of a packet has encoded for the handler. -/
def meant : Packet → Seen
  | .request id _ _ _ syn => .request id syn
  | .response id _ _ => .response id
  | .data d => .data d
  | .ack id ack ts => .ack id ack ts
  | .delete id => .delete id
  | .finished id => .finished id

/-! ### Reading back what was written -/

theorem Frame.slice_eq (f : Frame) (a b c : Bytes) (off n : ℕ) (hf : f.bytes = a ++ (b ++ c))
    (ha : a.length = off) (hb : b.length = n) : f.slice off n = b := by
  subst ha hb
  refine List.ext_getElem (by simp [Frame.slice]) fun i h1 h2 => ?_
  have hget : (a ++ (b ++ c))[a.length + i]? = some b[i] := by
    rw [List.getElem?_append_right (Nat.le_add_right _ _), Nat.add_sub_cancel_left,
      List.getElem?_append_left h2, List.getElem?_eq_getElem h2]
  simp [Frame.slice, hf, hget]

/- The header of a frame, as the receiver loads what the sender has stored. -/
theorem Frame.hdr_bytes (s r : Endian) (h : MinipHdr) (rest : Bytes) (behind : ℕ → Byte) :
    Frame.hdr r ⟨h.bytes s ++ rest, behind⟩ =
      ⟨h.pktType, load r (store s 2 h.sduLen), load r (store s 4 h.id), load r (store s 4 h.seq),
        load r (store s 4 h.ack), load r (store s 4 h.ts)⟩ := by
  have hlen := Frame.slice_eq ⟨h.bytes s ++ rest, behind⟩ [h.pktType] (store s 2 h.sduLen)
    (store s 4 h.id ++ (store s 4 h.seq ++ (store s 4 h.ack ++ (store s 4 h.ts ++ rest)))) 1 2
    (by simp [MinipHdr.bytes]) rfl (by simp)
  have hid := Frame.slice_eq ⟨h.bytes s ++ rest, behind⟩ (h.pktType :: store s 2 h.sduLen)
    (store s 4 h.id) (store s 4 h.seq ++ (store s 4 h.ack ++ (store s 4 h.ts ++ rest))) 3 4
    (by simp [MinipHdr.bytes]) (by simp) (by simp)
  have hseq := Frame.slice_eq ⟨h.bytes s ++ rest, behind⟩
    (h.pktType :: (store s 2 h.sduLen ++ store s 4 h.id)) (store s 4 h.seq)
    (store s 4 h.ack ++ (store s 4 h.ts ++ rest)) 7 4 (by simp [MinipHdr.bytes]) (by simp) (by simp)
  have hack := Frame.slice_eq ⟨h.bytes s ++ rest, behind⟩
    (h.pktType :: (store s 2 h.sduLen ++ (store s 4 h.id ++ store s 4 h.seq))) (store s 4 h.ack)
    (store s 4 h.ts ++ rest) 11 4 (by simp [MinipHdr.bytes]) (by simp) (by simp)
  have hts := Frame.slice_eq ⟨h.bytes s ++ rest, behind⟩
    (h.pktType :: (store s 2 h.sduLen ++ (store s 4 h.id ++ (store s 4 h.seq ++ store s 4 h.ack))))
    (store s 4 h.ts) rest 15 4 (by simp [MinipHdr.bytes]) (by simp) (by simp)
  simp only [Frame.hdr, hlen, hid, hseq, hack, hts]
  rfl

theorem Frame.payload_bytes (s : Endian) (h : MinipHdr) (sdu rest : Bytes) (behind : ℕ → Byte) :
    Frame.slice ⟨h.bytes s ++ (sdu ++ rest), behind⟩ HDR_LEN sdu.length = sdu :=
  Frame.slice_eq _ (h.bytes s) sdu rest _ _ rfl (by simp) rfl

def SynFits (syn : SynTuple) : Prop :=
  syn.saddr < 4294967296 ∧ syn.source < 65536 ∧ syn.daddr < 4294967296 ∧ syn.dest < 65536

instance (syn : SynTuple) : Decidable (SynFits syn) := instDecidableAnd

/-- A tuple of the sender's, as a host of byte order `e` loads it. -/
def synOn (e : Endian) (syn : SynTuple) : SynTuple where
  saddr := load e (store .little 4 syn.saddr)
  source := load e (store .little 2 syn.source)
  daddr := load e (store .little 4 syn.daddr)
  dest := load e (store .little 2 syn.dest)

theorem synOn_little (syn : SynTuple) (h : SynFits syn) : synOn .little syn = syn := by
  obtain ⟨h1, h2, h3, h4⟩ := h
  simp only [synOn, load_store .little 4 _ h1, load_store .little 2 _ h2,
    load_store .little 4 _ h3, load_store .little 2 _ h4]

/-- The id of a connection at a proxy of byte order `e`. -/
def hashOn (e : Endian) (syn : SynTuple) : ℕ :=
  pepdnaHash32Rjenkins12On e (synOn e syn).saddr (synOn e syn).source

theorem Frame.syn_bytes (e : Endian) (a rest : Bytes) (pad : Byte × Byte × Byte × Byte)
    (syn : SynTuple) (behind : ℕ → Byte) :
    Frame.syn e ⟨a ++ (synBytes pad syn ++ rest), behind⟩ a.length = synOn e syn := by
  have hsaddr := Frame.slice_eq ⟨a ++ (synBytes pad syn ++ rest), behind⟩ a
    (store .little 4 syn.saddr) (store .little 2 syn.source ++ ([pad.1, pad.2.1] ++
      (store .little 4 syn.daddr ++ (store .little 2 syn.dest ++ ([pad.2.2.1, pad.2.2.2] ++ rest)))))
    a.length 4 (by simp [synBytes]) rfl (by simp)
  have hsource := Frame.slice_eq ⟨a ++ (synBytes pad syn ++ rest), behind⟩
    (a ++ store .little 4 syn.saddr) (store .little 2 syn.source) ([pad.1, pad.2.1] ++
      (store .little 4 syn.daddr ++ (store .little 2 syn.dest ++ ([pad.2.2.1, pad.2.2.2] ++ rest))))
    (a.length + 4) 2 (by simp [synBytes]) (by simp) (by simp)
  have hdaddr := Frame.slice_eq ⟨a ++ (synBytes pad syn ++ rest), behind⟩
    (a ++ (store .little 4 syn.saddr ++ (store .little 2 syn.source ++ [pad.1, pad.2.1])))
    (store .little 4 syn.daddr) (store .little 2 syn.dest ++ ([pad.2.2.1, pad.2.2.2] ++ rest))
    (a.length + 8) 4 (by simp [synBytes]) (by simp) (by simp)
  have hdest := Frame.slice_eq ⟨a ++ (synBytes pad syn ++ rest), behind⟩
    (a ++ (store .little 4 syn.saddr ++ (store .little 2 syn.source ++ ([pad.1, pad.2.1] ++
      store .little 4 syn.daddr)))) (store .little 2 syn.dest) ([pad.2.2.1, pad.2.2.2] ++ rest)
    (a.length + 12) 2 (by simp [synBytes]) (by simp) (by simp)
  simp only [Frame.syn, synOn, hsaddr, hsource, hdaddr, hdest]

/-! ### Hosts of different byte order -/

/-- The packets that the senders on a host of byte order `s` make, with fields of the sizes of
their types. -/
def Sendable (s : Endian) : Packet → Prop
  | .request id seq ack ts syn =>
    id = hashOn s syn ∧ seq = MINIP_FIRST_SEQ ∧ ack = MINIP_FIRST_SEQ ∧ ts < 4294967296 ∧
      SynFits syn
  | .response id seq ack => id < 4294967296 ∧ seq = MINIP_FIRST_SEQ ∧ ack = MINIP_FIRST_SEQ + 1
  | .data d =>
    d.id < 4294967296 ∧ d.seq < 4294967296 ∧ d.ts < 4294967296 ∧ d.sduLen = d.sdu.length ∧
      1 ≤ d.sdu.length ∧ d.sdu.length ≤ MINIP_MSS
  | .ack id ack ts => id < 4294967296 ∧ ack < 4294967296 ∧ ts < 4294967296
  | .delete id => id < 4294967296
  | .finished id => id < 4294967296

instance decidableSendable (s : Endian) : (p : Packet) → Decidable (Sendable s p)
  | .request .. => instDecidableAnd
  | .response .. => instDecidableAnd
  | .data _ => instDecidableAnd
  | .ack .. => instDecidableAnd
  | .delete id => Nat.decLt id 4294967296
  | .finished id => Nat.decLt id 4294967296

/-- The time stamp that the sender of a DATA packet, of byte order `s`, reads in the ACK for it.
The receiver takes it from the frame as it lies there. -/
def stampReadBack (s r : Endian) (frame : Frame) (raw : MinipHdr) (id ack : ℕ) (rest : Bytes)
    (behind : ℕ → Byte) : ℕ :=
  hton s 4 (Frame.hdr s
    ⟨(pepdnaMinipSendAck r raw id ack (frame.hdr r).ts).bytes r ++ rest, behind⟩).ts

/-- A packet from a host of byte order `s` is at a host of byte order `r` what it was, and its time
stamp comes back in the ACK. The buffers are not cleared and the frame may be padded. -/
structure HostIndependent (s r : Endian) (raw : MinipHdr) (pad : Byte × Byte × Byte × Byte)
    (rest : Bytes) (behind : ℕ → Byte) (p : Packet) : Prop where
  fields : decode r ⟨encode s raw pad p ++ rest, behind⟩ = some (meant p)
  stamp : ∀ d, p = .data d → ∀ raw' id ack rest' behind',
    stampReadBack s r ⟨encode s raw pad p ++ rest, behind⟩ raw' id ack rest' behind' = d.ts

section Hosts

variable (s r : Endian) (raw : MinipHdr) (pad : Byte × Byte × Byte × Byte) (rest : Bytes)
  (behind : ℕ → Byte)

/- A REQUEST arrives with the hash that the receiver computes. -/
theorem decode_request (id seq ack ts : ℕ) (syn : SynTuple)
    (hp : Sendable s (.request id seq ack ts syn)) :
    decode r ⟨encode s raw pad (.request id seq ack ts syn) ++ rest, behind⟩ =
      some (.request (hashOn r syn) syn) := by
  have hsyn (e : Endian) := Frame.syn_bytes e ((pepdnaMinipConnRequest s id ts).bytes s) rest pad
    syn behind
  simp only [MinipHdr.bytes_length] at hsyn
  have hcode : Kind.ofCode (pepdnaMinipConnRequest s id ts).pktType = some .request := rfl
  simp only [decode, encode, List.append_assoc, Frame.hdr_bytes, hcode, Option.map_some,
    Frame.seen, Frame.hash, hsyn, synOn_little syn hp.2.2.2.2, hashOn]

theorem decode_response (id seq ack : ℕ) (hp : Sendable s (.response id seq ack)) :
    decode r ⟨encode s raw pad (.response id seq ack) ++ rest, behind⟩ = some (.response id) := by
  simp only [decode, Frame.seen, encode, Frame.hdr_bytes, pepdnaMinipSendResponse, Kind.ofCode_code,
    Option.map_some, hton_load_store s r 4 _ hp.1]

theorem decode_ack (id ack ts : ℕ) (hp : Sendable s (.ack id ack ts)) :
    decode r ⟨encode s raw pad (.ack id ack ts) ++ rest, behind⟩ = some (.ack id ack ts) := by
  obtain ⟨h1, h2, h3⟩ := hp
  simp only [decode, Frame.seen, encode, Frame.hdr_bytes, pepdnaMinipSendAck, Kind.ofCode_code,
    Option.map_some, hton_load_store s r 4 _ h1, hton_load_store s r 4 _ h2,
    hton_load_store s r 4 _ h3]

theorem decode_delete (id : ℕ) (hp : Sendable s (.delete id)) :
    decode r ⟨encode s raw pad (.delete id) ++ rest, behind⟩ = some (.delete id) := by
  simp only [decode, Frame.seen, encode, Frame.hdr_bytes, pepdnaMinipConnDelete, Kind.ofCode_code,
    Option.map_some, hton_load_store s r 4 id hp]

theorem decode_finished (id : ℕ) (hp : Sendable s (.finished id)) :
    decode r ⟨encode s raw pad (.finished id) ++ rest, behind⟩ = some (.finished id) := by
  simp only [decode, Frame.seen, encode, Frame.hdr_bytes, pepdnaMinipConnFinished, Kind.ofCode_code,
    Option.map_some, hton_load_store s r 4 id hp]

/- A DATA packet arrives with the length that the receiver loads for it. -/
theorem decode_data (d : DataPdu) (hp : Sendable s (.data d)) :
    decode r ⟨encode s raw pad (.data d) ++ rest, behind⟩ =
      some (.data ⟨d.id, d.seq, load r (store s 2 d.sduLen), d.ts,
        Frame.slice ⟨encode s raw pad (.data d) ++ rest, behind⟩ HDR_LEN
          (load r (store s 2 d.sduLen))⟩) := by
  obtain ⟨h1, h2, h3, h4, -, h6⟩ := hp
  have hlen : d.sdu.length % 65536 = d.sduLen := by
    have hmss : MINIP_MSS < 65536 := by decide
    omega
  simp only [decode, Frame.seen, Frame.pdu, encode, List.append_assoc, Frame.hdr_bytes, pepdnaMinipSkbSend,
    Kind.ofCode_code, Option.map_some, hlen, hton_load_store s r 4 _ h1,
    hton_load_store s r 4 _ h2, hton_load_store s r 4 _ h3]

theorem stampReadBack_data (d : DataPdu) (hp : Sendable s (.data d)) (raw' : MinipHdr) (id ack : ℕ)
    (rest' : Bytes) (behind' : ℕ → Byte) :
    stampReadBack s r ⟨encode s raw pad (.data d) ++ rest, behind⟩ raw' id ack rest' behind' =
      d.ts := by
  -- the receiver stores the bytes that it has loaded
  have hcopy := store_load r (store s 4 (hton s 4 d.ts))
  rw [store_length] at hcopy
  simp only [stampReadBack, encode, List.append_assoc, Frame.hdr_bytes, pepdnaMinipSkbSend,
    pepdnaMinipSendAck, hcopy]
  exact hton_load_store s s 4 d.ts hp.2.2.1

/- The length that the receiver loads, which neither side converts. -/
theorem load_sduLen_iff (n : ℕ) (h : n < 65536) :
    load r (store s 2 n) = n ↔ (s = r ∨ n % 257 = 0) := by
  by_cases hsr : s = r
  · subst hsr
    simp only [load_store s 2 n h, true_or]
  · rw [load_store_ne s r 2 n hsr, swab_two_eq_iff n h]
    simp only [hsr, false_or]

theorem decode_data_iff (d : DataPdu) (hp : Sendable s (.data d)) :
    decode r ⟨encode s raw pad (.data d) ++ rest, behind⟩ = some (.data d) ↔
      (s = r ∨ d.sdu.length % 257 = 0) := by
  have hlen : d.sduLen = d.sdu.length := hp.2.2.2.1
  have hlt : d.sdu.length < 65536 := lt_of_le_of_lt hp.2.2.2.2.2 (by decide)
  rw [decode_data s r raw pad rest behind d hp, hlen, ← load_sduLen_iff s r d.sdu.length hlt]
  constructor
  · intro h
    injection h with h
    injection h with h
    have hload := congrArg DataPdu.sduLen h
    exact hload.trans hlen
  · intro hload
    have hsdu := Frame.payload_bytes s (pepdnaMinipSkbSend s raw d.id d.seq d.sdu.length d.ts) d.sdu
      rest behind
    simp only [hload, encode, List.append_assoc, hsdu]
    rw [← hlen]

theorem decode_request_iff (id seq ack ts : ℕ) (syn : SynTuple)
    (hp : Sendable s (.request id seq ack ts syn)) :
    decode r ⟨encode s raw pad (.request id seq ack ts syn) ++ rest, behind⟩ =
      some (meant (.request id seq ack ts syn)) ↔ hashOn s syn = hashOn r syn := by
  rw [decode_request s r raw pad rest behind id seq ack ts syn hp, meant, hp.1,
    Option.some.injEq, Seen.request.injEq, and_iff_left rfl]
  exact eq_comm

/-- What a packet of the other byte order must meet: two equal bytes in the length of a DATA
packet, and the same hash on both hosts for the tuple of a REQUEST. -/
def Neutral (s r : Endian) : Packet → Prop
  | .data d => d.sdu.length % 257 = 0
  | .request _ _ _ _ syn => hashOn s syn = hashOn r syn
  | _ => True

/-- The bytes of a packet mean the same on both hosts if these have the same byte order, and else
if the packet is a RESPONSE, an ACK, a DELETE or a FINISHED, if it is DATA and its length has two
equal bytes, or if it is a REQUEST and the hashes of the two hosts agree on its tuple. -/
theorem hostIndependent_iff (p : Packet) (hp : Sendable s p) :
    HostIndependent s r raw pad rest behind p ↔ (s = r ∨ Neutral s r p) := by
  have other (hdata : ∀ d, p ≠ .data d) :
      HostIndependent s r raw pad rest behind p ↔
        decode r ⟨encode s raw pad p ++ rest, behind⟩ = some (meant p) :=
    ⟨fun h => h.fields, fun h => ⟨h, fun d hd => absurd hd (hdata d)⟩⟩
  have always (hdata : ∀ d, p ≠ .data d)
      (hfields : decode r ⟨encode s raw pad p ++ rest, behind⟩ = some (meant p)) (h : Neutral s r p) :
      HostIndependent s r raw pad rest behind p ↔ (s = r ∨ Neutral s r p) :=
    iff_of_true ((other hdata).mpr hfields) (Or.inr h)
  cases p with
  | request id seq ack ts syn =>
    rw [other (by simp), decode_request_iff s r raw pad rest behind id seq ack ts syn hp]
    refine ⟨Or.inr, fun h => ?_⟩
    rcases h with rfl | h
    · rfl
    · exact h
  | response id seq ack =>
    exact always (by simp) (decode_response s r raw pad rest behind id seq ack hp) trivial
  | ack id ack ts => exact always (by simp) (decode_ack s r raw pad rest behind id ack ts hp) trivial
  | delete id => exact always (by simp) (decode_delete s r raw pad rest behind id hp) trivial
  | finished id => exact always (by simp) (decode_finished s r raw pad rest behind id hp) trivial
  | data d =>
    have hiff := decode_data_iff s r raw pad rest behind d hp
    constructor
    · intro h
      exact hiff.mp h.fields
    · intro h
      refine ⟨hiff.mpr h, fun d' hd' => ?_⟩
      cases hd'
      exact stampReadBack_data s r raw pad rest behind d hp

end Hosts

def oneByte : DataPdu := ⟨1, 10, 1, 5, [7]⟩

def clearHdr : MinipHdr := ⟨0, 0, 0, 0, 0, 0⟩

theorem hostIndependent_oneByte :
    HostIndependent .little .little clearHdr (0, 0, 0, 0) [] (fun _ => 0) (.data oneByte) :=
  (hostIndependent_iff .little .little clearHdr (0, 0, 0, 0) [] (fun _ => 0) (.data oneByte)
    (by decide)).mpr (Or.inl rfl)

/- The client of a connection, with its id on a little-endian host. -/
def oneClient : SynTuple := ⟨16777226, 20480, 33554442, 36895⟩

def oneRequest : Packet := .request (hashOn .little oneClient) 9 9 5 oneClient

/- A big-endian host takes the length 1 of a little-endian one for 256, and allocates a connection
with another id for its REQUEST. -/
theorem not_hostIndependent_oneByte :
    Sendable .little (.data oneByte) ∧
      (Frame.hdr .big ⟨encode .little clearHdr (0, 0, 0, 0) (.data oneByte), fun _ => 0⟩).sduLen =
        256 ∧
      ¬HostIndependent .little .big clearHdr (0, 0, 0, 0) [] (fun _ => 0) (.data oneByte) ∧
      Sendable .little oneRequest ∧ hashOn .little oneClient = 142361238 ∧
      Frame.hash .big ⟨encode .little clearHdr (0, 0, 0, 0) oneRequest, fun _ => 0⟩ HDR_LEN =
        95852278 ∧
      ¬HostIndependent .little .big clearHdr (0, 0, 0, 0) [] (fun _ => 0) oneRequest := by
  refine ⟨by decide, by decide, ?_, by decide +kernel, by decide +kernel, by decide +kernel, ?_⟩
  · intro h
    exact absurd h.fields (by decide)
  · intro h
    exact absurd h.fields (by decide +kernel)

end Wire

end PepDna.Minip
