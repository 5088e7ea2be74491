import PepDna.FirstMatch
import PepDna.Traced
import PepDna.Minip.Wire

/-!
# The receive path on the bytes of a frame (minip.c:824-1082, 1142-1177, server.c:297-312)

`pepdna_minip_recv_packet` and its handlers get a frame of any length and contents and never look at
its length. Each load from it is recorded with its offset and size; what lies behind the frame is
arbitrary. The loads of the debug messages count. What is then done to a connection is the handler
of `Handlers` on the decoded fields.
-/

namespace PepDna.Minip.Wire
open PepDna.Words

-- a load is an offset and a number of bytes
abbrev Read := Traced (ℕ × ℕ)

structure Rcvd where
  ret : Int
  cons : List Con
  deriving Repr, DecidableEq

def HasId (key : ℕ) (c : Con) : Prop := c.hashed = true ∧ c.id = key

instance (key : ℕ) : DecidablePred (HasId key) := fun _ => instDecidableAnd

/-- `pepdna_con_find`. -/
def conFind (t : List Con) (key : ℕ) : Option Con := FirstMatch.find (HasId key) t

/-- The table once a handler has worked on the connection that `pepdna_con_find` returns. -/
def conUpdate (key : ℕ) (g : Con → Con) (t : List Con) : List Con :=
  FirstMatch.modify (HasId key) g t

section Handlers

variable (e : Endian) (f : Frame) (t : List Con)

/-- `skb->data` after `skb_pull(skb, sizeof(struct minip_hdr))`, which does nothing to a frame that
is shorter. -/
def Frame.pulled : ℕ := if HDR_LEN ≤ f.bytes.length then HDR_LEN else 0

def Frame.loadId : Read ℕ := .access (3, 4) (hton e 4 (f.hdr e).id)

def Frame.loadSeq : Read ℕ := .access (7, 4) (hton e 4 (f.hdr e).seq)

def Frame.loadTs : Read ℕ := .access (15, 4) (hton e 4 (f.hdr e).ts)

/-- The handlers that need no more than the id: `g` is what they do to the connection. -/
def recvById (g : Con → Con) : Read Rcvd := do
  let hash ← f.loadId e
  match conFind t hash with
  | none => pure ⟨-1, t⟩
  | some _ => pure ⟨0, conUpdate hash g t⟩

def pepdnaMinipRecvFinished : Read Rcvd := recvById e f t Minip.pepdnaMinipRecvFinished

def pepdnaMinipRecvDelete : Read Rcvd := recvById e f t Minip.pepdnaMinipRecvDelete

def pepdnaMinipRecvResponse : Read Rcvd := recvById e f t Minip.pepdnaMinipRecvResponse

def pepdnaMinipRecvAck (now : ℕ) (xmit : ℕ → Int) : Read Rcvd := do
  let hash ← f.loadId e
  match conFind t hash with
  | none => pure ⟨-1, t⟩
  | some con =>
    let ack ← Traced.access (11, 4) (hton e 4 (f.hdr e).ack)
    if ack < con.lastAcked then pure ⟨0, t⟩
    else
      let ts ← f.loadTs e
      pure ⟨0, conUpdate hash (fun c => Minip.pepdnaMinipRecvAck c ack ts now xmit) t⟩

/-- `pepdna_con_minip2i_fwd`; `sdu_len` is a host-order word and the payload is where `skb->data`
points. -/
def pepdnaConMinip2iFwd (hash : ℕ) (con : Con) : Read Rcvd := do
  let read ← Traced.access (1, 2) (f.hdr e).sduLen
  let seq ← f.loadSeq e
  if seq = con.nextRecv then
    let buf ← Traced.access (f.pulled, read) (f.slice f.pulled read)
    let ts ← f.loadTs e
    pure ⟨0, conUpdate hash (fun c => Minip.pepdnaConMinip2iFwd c ⟨hash, seq, read, ts, buf⟩) t⟩
  else
    let ts ← f.loadTs e
    pure ⟨0, conUpdate hash (fun c => Minip.pepdnaConMinip2iFwd c ⟨hash, seq, read, ts, []⟩) t⟩

def pepdnaMinipRecvData : Read Rcvd := do
  let hash ← f.loadId e
  let _ ← f.loadSeq e
  match conFind t hash with
  | none => pure ⟨-1, t⟩
  | some con => pepdnaConMinip2iFwd e f t hash con

/-- `pepdna_minip_recv_request`; `mem` says whether `pepdna_con_alloc` gets its memory, before it
copies the tuple, which stays in network order. -/
def pepdnaMinipRecvRequest (mode : Mode) (mem : Bool) : Read Rcvd := do
  let saddr ← Traced.access (f.pulled, 4) (f.syn e f.pulled).saddr
  let source ← Traced.access (f.pulled + 4, 2) (f.syn e f.pulled).source
  let hash := pepdnaHash32Rjenkins12On e saddr source
  if mem then
    let _ ← Traced.access (f.pulled + 8, 4) (f.syn e f.pulled).daddr
    let _ ← Traced.access (f.pulled + 12, 2) (f.syn e f.pulled).dest
    pure ⟨0, pepdnaConAlloc mode (f.syn .little f.pulled) hash :: t⟩
  else pure ⟨-1, t⟩

/-- The `switch` of `pepdna_minip_recv_packet`. -/
def dispatch (mode : Mode) (mem : Bool) (now : ℕ) (xmit : ℕ → Int) : Option Kind → Read Rcvd
  | some .request => pepdnaMinipRecvRequest e f t mode mem
  | some .response => pepdnaMinipRecvResponse e f t
  | some .data => pepdnaMinipRecvData e f t
  | some .ack => pepdnaMinipRecvAck e f t now xmit
  | some .delete => pepdnaMinipRecvDelete e f t
  | some .finished => pepdnaMinipRecvFinished e f t
  | none => pure ⟨0, t⟩

/-- `pepdna_minip_recv_packet`; it frees the frame in the end, whatever `ret` is. -/
def pepdnaMinipRecvPacket (mode : Mode) (mem : Bool) (now : ℕ) (xmit : ℕ → Int) : Read Rcvd := do
  let pktType ← Traced.access (0, 1) (f.hdr e).pktType
  dispatch e f t mode mem now xmit (Kind.ofCode pktType)

/-- How often `pepdna_minip_skb_recv` drops the reference to the frame: `kfree_skb` in
`pepdna_minip_recv_packet`, and `dev_kfree_skb_any` if that did not return 0. -/
def skbDrops (mode : Mode) (mem : Bool) (now : ℕ) (xmit : ℕ → Int) : ℕ :=
  let kfreeSkb := 1
  let devKfreeSkbAny :=
    if (pepdnaMinipRecvPacket e f t mode mem now xmit).val.ret ≠ 0 then 1 else 0
  kfreeSkb + devKfreeSkbAny

end Handlers

/-! ### Loads outside the frame -/

def Frame.Inside (f : Frame) (a : ℕ × ℕ) : Prop := a.1 + a.2 ≤ f.bytes.length

instance (f : Frame) : DecidablePred f.Inside := fun _ => Nat.decLe _ _

theorem Frame.inside_iff (f : Frame) (off n : ℕ) :
    f.Inside (off, n) ↔ off + n ≤ f.bytes.length := Iff.rfl

/-- The frame holds its header, the four fields of the tuple of a REQUEST (the structure ends in
two more bytes of padding), and the payload that a DATA packet announces. -/
def Complete (e : Endian) (f : Frame) : Prop :=
  HDR_LEN ≤ f.bytes.length ∧
    (Kind.ofCode (f.hdr e).pktType = some .request → HDR_LEN + 14 ≤ f.bytes.length) ∧
    (Kind.ofCode (f.hdr e).pktType = some .data → HDR_LEN + (f.hdr e).sduLen ≤ f.bytes.length)

-- what was sent for a connection does not count as a change of it
def withoutTx (c : Con) : Con := { c with tx := [] }

def SameCons (t t' : List Con) : Prop := t'.map withoutTx = t.map withoutTx

theorem sameCons_refl (t : List Con) : SameCons t t := rfl

theorem sameCons_update_iff (t : List Con) (key : ℕ) (g : Con → Con) (c : Con)
    (h : conFind t key = some c) :
    SameCons t (conUpdate key g t) ↔ withoutTx (g c) = withoutTx c :=
  FirstMatch.map_modify_eq_iff (HasId key) t g withoutTx c h

section Bounds

variable (e : Endian) (f : Frame) (t : List Con)

/- A handler that changes the connection it finds must have the whole header. -/
theorem recvById_iff (g : Con → Con) (hg : ∀ c, withoutTx (g c) ≠ withoutTx c) :
    ((recvById e f t g).All f.Inside ∧
        (¬HDR_LEN ≤ f.bytes.length → SameCons t (recvById e f t g).val.cons)) ↔
      (7 ≤ f.bytes.length ∧
        ∀ c, conFind t (hton e 4 (f.hdr e).id) = some c → HDR_LEN ≤ f.bytes.length) := by
  simp only [recvById, Frame.loadId, Traced.all_bind, Traced.all_access, Traced.val_bind,
    Traced.val_access, Frame.inside_iff, Nat.reduceAdd]
  cases hc : conFind t (hton e 4 (f.hdr e).id) with
  | none => simp [sameCons_refl]
  | some c =>
    have hne : ¬SameCons t (conUpdate (hton e 4 (f.hdr e).id) g t) := by
      rw [sameCons_update_iff t _ g c hc]
      exact hg c
    simp [hne]

theorem recvAck_iff (now : ℕ) (xmit : ℕ → Int) :
    ((pepdnaMinipRecvAck e f t now xmit).All f.Inside ∧
        (¬HDR_LEN ≤ f.bytes.length →
          SameCons t (pepdnaMinipRecvAck e f t now xmit).val.cons)) ↔
      (7 ≤ f.bytes.length ∧ ∀ c, conFind t (hton e 4 (f.hdr e).id) = some c →
        HDR_LEN ≤ f.bytes.length ∨
          (15 ≤ f.bytes.length ∧ hton e 4 (f.hdr e).ack < c.lastAcked)) := by
  have hlen : HDR_LEN = 19 := rfl
  simp only [pepdnaMinipRecvAck, Frame.loadId, Frame.loadTs, Traced.all_bind, Traced.all_access,
    Traced.val_bind, Traced.val_access, Frame.inside_iff, Nat.reduceAdd]
  cases hc : conFind t (hton e 4 (f.hdr e).id) with
  | none => simp [sameCons_refl]
  | some c =>
    by_cases hold : hton e 4 (f.hdr e).ack < c.lastAcked
    · -- an old ACK changes nothing
      simp only [Traced.all_bind, Traced.all_access, Traced.val_bind, Traced.val_access,
        Frame.inside_iff, Nat.reduceAdd, hold, if_true, Traced.all_pure, Traced.val_pure,
        sameCons_refl, and_true, implies_true, Option.some.injEq, forall_eq']
      omega
    · simp only [Traced.all_bind, Traced.all_access, Traced.val_bind, Traced.val_access,
        Frame.inside_iff, Nat.reduceAdd, hold, if_false, Traced.all_pure, and_true, and_false,
        or_false, Option.some.injEq, forall_eq']
      constructor
      · rintro ⟨⟨h7, h15, h19⟩, -⟩
        exact ⟨h7, h19⟩
      · rintro ⟨h7, h19⟩
        exact ⟨⟨h7, by omega, h19⟩, fun hn => absurd h19 hn⟩

theorem recvData_iff :
    ((pepdnaMinipRecvData e f t).All f.Inside ∧
        (¬(HDR_LEN ≤ f.bytes.length ∧ HDR_LEN + (f.hdr e).sduLen ≤ f.bytes.length) →
          SameCons t (pepdnaMinipRecvData e f t).val.cons)) ↔
      (11 ≤ f.bytes.length ∧ ∀ c, conFind t (hton e 4 (f.hdr e).id) = some c →
        HDR_LEN ≤ f.bytes.length ∧
          (hton e 4 (f.hdr e).seq = c.nextRecv →
            HDR_LEN + (f.hdr e).sduLen ≤ f.bytes.length)) := by
  have hlen : HDR_LEN = 19 := rfl
  simp only [pepdnaMinipRecvData, Frame.loadId, Frame.loadSeq, Traced.all_bind, Traced.all_access,
    Traced.val_bind, Traced.val_access, Frame.inside_iff, Nat.reduceAdd]
  cases hc : conFind t (hton e 4 (f.hdr e).id) with
  | none =>
    simp [sameCons_refl]
    omega
  | some c =>
    simp only [pepdnaConMinip2iFwd, Frame.loadSeq, Frame.loadTs, Traced.all_bind,
      Traced.all_access, Traced.val_bind, Traced.val_access, Frame.inside_iff, Nat.reduceAdd,
      Option.some.injEq, forall_eq']
    by_cases hin : hton e 4 (f.hdr e).seq = c.nextRecv
    · simp only [hin, if_true, Traced.all_bind, Traced.all_access, Traced.val_bind,
        Traced.val_access, Frame.inside_iff, Nat.reduceAdd, Traced.all_pure, and_true,
        forall_const]
      have hpull (h : HDR_LEN ≤ f.bytes.length) : f.pulled = HDR_LEN := if_pos h
      constructor
      · rintro ⟨⟨h7, h11, h3, -, hbuf, h19⟩, -⟩
        rw [hpull h19] at hbuf
        exact ⟨h11, h19, hbuf⟩
      · rintro ⟨h11, h19, hbuf⟩
        refine ⟨⟨by omega, h11, by omega, h11, ?_, h19⟩, fun hn => absurd ⟨h19, hbuf⟩ hn⟩
        rw [hpull h19]
        exact hbuf
    · -- out of order: an ACK is sent and the connection stays as it is
      have hsame : SameCons t (conUpdate (hton e 4 (f.hdr e).id) (fun c' =>
          Minip.pepdnaConMinip2iFwd c' ⟨hton e 4 (f.hdr e).id, hton e 4 (f.hdr e).seq,
            (f.hdr e).sduLen, hton e 4 (f.hdr e).ts, []⟩) t) := by
        rw [sameCons_update_iff t _ _ c hc, Minip.pepdnaConMinip2iFwd, if_neg hin]
        rfl
      simp only [hin, if_false, Traced.all_bind, Traced.all_access, Traced.val_bind,
        Traced.val_access, Traced.val_pure, Frame.inside_iff, Nat.reduceAdd, Traced.all_pure,
        and_true, hsame, implies_true, false_implies]
      omega

/-- Without memory for the connection only two fields of the tuple are read. In a frame that is
shorter than a header they are taken from its start. -/
def RequestFits (mem : Bool) : Prop :=
  if mem then HDR_LEN + 14 ≤ f.bytes.length
  else HDR_LEN + 6 ≤ f.bytes.length ∨ (6 ≤ f.bytes.length ∧ f.bytes.length < HDR_LEN)

theorem recvRequest_iff (mode : Mode) (mem : Bool) :
    ((pepdnaMinipRecvRequest e f t mode mem).All f.Inside ∧
        (¬(HDR_LEN ≤ f.bytes.length ∧ HDR_LEN + 14 ≤ f.bytes.length) →
          SameCons t (pepdnaMinipRecvRequest e f t mode mem).val.cons)) ↔ RequestFits f mem := by
  have hlen : HDR_LEN = 19 := rfl
  have hpull : f.pulled = if HDR_LEN ≤ f.bytes.length then HDR_LEN else 0 := rfl
  cases mem with
  | false =>
    simp only [pepdnaMinipRecvRequest, RequestFits, Traced.all_bind, Traced.all_access,
      Traced.val_bind, Bool.false_eq_true, if_false, Traced.all_pure, Traced.val_pure,
      sameCons_refl, implies_true, and_true, Frame.inside_iff]
    split at hpull <;> omega
  | true =>
    have hnew (c : Con) : ¬SameCons t (c :: t) := by
      intro h
      have hl := congrArg List.length h
      simp at hl
    simp only [pepdnaMinipRecvRequest, RequestFits, Traced.all_bind, Traced.all_access,
      Traced.val_bind, Traced.val_access, if_true, Traced.all_pure, Traced.val_pure, hnew, and_true,
      imp_false, not_not, Frame.inside_iff]
    split at hpull <;> omega

/-- One call reads nothing outside the frame, and a frame that is not complete changes no
connection. -/
structure StaysInside (mode : Mode) (mem : Bool) (now : ℕ) (xmit : ℕ → Int) : Prop where
  inside : (pepdnaMinipRecvPacket e f t mode mem now xmit).All f.Inside
  rejected : ¬Complete e f → SameCons t (pepdnaMinipRecvPacket e f t mode mem now xmit).val.cons

/-- What a frame must hold for the handler that it goes to. -/
def FrameFits (mem : Bool) : Option Kind → Prop
  | none => True
  | some .request => RequestFits f mem
  | some .response | some .delete | some .finished =>
    7 ≤ f.bytes.length ∧
      ∀ c, conFind t (hton e 4 (f.hdr e).id) = some c → HDR_LEN ≤ f.bytes.length
  | some .ack =>
    7 ≤ f.bytes.length ∧ ∀ c, conFind t (hton e 4 (f.hdr e).id) = some c →
      HDR_LEN ≤ f.bytes.length ∨ (15 ≤ f.bytes.length ∧ hton e 4 (f.hdr e).ack < c.lastAcked)
  | some .data =>
    11 ≤ f.bytes.length ∧ ∀ c, conFind t (hton e 4 (f.hdr e).id) = some c →
      HDR_LEN ≤ f.bytes.length ∧
        (hton e 4 (f.hdr e).seq = c.nextRecv → HDR_LEN + (f.hdr e).sduLen ≤ f.bytes.length)

/- A FINISHED or DELETE drops a reference to the connection. -/
theorem close_changes (c c' : Con) (h : c'.drops = c.drops) (hr : c'.rflag = false) :
    withoutTx (pepdnaConClose c') ≠ withoutTx c := by
  intro heq
  have hdrops := congrArg Con.drops heq
  rw [pepdnaConClose_eq] at hdrops
  simp only [withoutTx, dropClose, hr, h, Bool.not_false, Bool.or_true, if_true] at hdrops
  omega

theorem response_changes (c : Con) :
    withoutTx (Minip.pepdnaMinipRecvResponse c) ≠ withoutTx c := by
  intro heq
  have hnext : u32 (c.nextRecv + 1) = c.nextRecv := congrArg Con.nextRecv heq
  unfold u32 at hnext
  omega

/- One byte, and then what the handler needs. -/
theorem staysInside_dispatch (mode : Mode) (mem : Bool) (now : ℕ) (xmit : ℕ → Int) :
    StaysInside e f t mode mem now xmit ↔
      (1 ≤ f.bytes.length ∧
        ((dispatch e f t mode mem now xmit (Kind.ofCode (f.hdr e).pktType)).All f.Inside ∧
          (¬Complete e f → SameCons t
            (dispatch e f t mode mem now xmit (Kind.ofCode (f.hdr e).pktType)).val.cons))) := by
  have hall : (pepdnaMinipRecvPacket e f t mode mem now xmit).All f.Inside ↔ (1 ≤ f.bytes.length ∧
      (dispatch e f t mode mem now xmit (Kind.ofCode (f.hdr e).pktType)).All f.Inside) := by
    simp only [pepdnaMinipRecvPacket, Traced.all_bind, Traced.all_access, Traced.val_access,
      Frame.inside_iff, Nat.zero_add]
  rw [← and_assoc, ← hall]
  exact ⟨fun h => ⟨h.inside, h.rejected⟩, fun h => ⟨h.1, h.2⟩⟩

theorem complete_iff_hdr (k : Kind) (hk : Kind.ofCode (f.hdr e).pktType = some k)
    (hreq : k ≠ .request) (hdata : k ≠ .data) : Complete e f ↔ HDR_LEN ≤ f.bytes.length := by
  simp only [Complete, hk, Option.some.injEq, hreq, hdata, false_implies, and_true]

/-- The receive path stays inside the frame exactly if the frame holds what its handler reads. -/
theorem staysInside_iff (mode : Mode) (mem : Bool) (now : ℕ) (xmit : ℕ → Int) :
    StaysInside e f t mode mem now xmit ↔
      (1 ≤ f.bytes.length ∧ FrameFits e f t mem (Kind.ofCode (f.hdr e).pktType)) := by
  rw [staysInside_dispatch]
  refine and_congr_right fun _ => ?_
  cases hk : Kind.ofCode (f.hdr e).pktType with
  | none => simp [dispatch, FrameFits, sameCons_refl]
  | some k =>
    cases k with
    | request =>
      have hfull : Complete e f ↔
          (HDR_LEN ≤ f.bytes.length ∧ HDR_LEN + 14 ≤ f.bytes.length) := by
        simp [Complete, hk]
      rw [hfull]
      exact recvRequest_iff e f t mode mem
    | data =>
      have hfull : Complete e f ↔
          (HDR_LEN ≤ f.bytes.length ∧ HDR_LEN + (f.hdr e).sduLen ≤ f.bytes.length) := by
        simp [Complete, hk]
      rw [hfull]
      exact recvData_iff e f t
    | response =>
      rw [complete_iff_hdr e f _ hk (by decide) (by decide)]
      exact recvById_iff e f t _ response_changes
    | ack =>
      rw [complete_iff_hdr e f _ hk (by decide) (by decide)]
      exact recvAck_iff e f t now xmit
    | delete =>
      rw [complete_iff_hdr e f _ hk (by decide) (by decide)]
      exact recvById_iff e f t _ fun c => close_changes c _ rfl rfl
    | finished =>
      rw [complete_iff_hdr e f _ hk (by decide) (by decide)]
      exact recvById_iff e f t _ fun c => close_changes c _ rfl rfl

end Bounds

def openTo (nextRecv : ℕ) : Con :=
  { pepdnaConAlloc .minip2tcp ⟨1, 2, 3, 4⟩ 7 with nextRecv := nextRecv, lsock := true }

/- The header of a DATA packet for it, number 10, that announces five bytes. -/
def dataHeader : Bytes := [5, 5, 0, 0, 0, 0, 7, 0, 0, 0, 10, 0, 0, 0, 0, 0, 0, 0, 1]

/-- A frame that ends with the header: the five bytes that lie behind it go to the TCP socket. -/
theorem not_staysInside_header :
    ¬StaysInside .little ⟨dataHeader, fun _ => 238⟩ [openTo 10] .minip2tcp true 0 (fun _ => 0) ∧
      (pepdnaMinipRecvPacket .little ⟨dataHeader, fun _ => 238⟩ [openTo 10] .minip2tcp true 0
        fun _ => 0).val.cons.map (fun c => c.rx.map fun r => r.w.rest) =
          [some [238, 238, 238, 238, 238]] := by
  refine ⟨?_, by decide⟩
  intro h
  exact absurd h.inside (by decide)

/-! ### Frames and packets -/

/-- What a packet does to the table: a REQUEST adds a connection, and any other one is for the
connection with its id. -/
def packetEffect (t : List Con) (mode : Mode) (mem : Bool) (now : ℕ) (xmit : ℕ → Int) :
    Packet → List Con
  | .request id _ _ _ syn => if mem then pepdnaConAlloc mode syn id :: t else t
  | p => conUpdate p.id (fun c => Minip.pepdnaMinipRecvPacket c p now xmit) t

section Refines

variable (e : Endian) (f : Frame) (t : List Con) (now : ℕ) (xmit : ℕ → Int)

/- `pepdna_minip_recv_packet` of `Handlers` on the connection that was found. -/
theorem found_recvPacket (p : Packet) (key : ℕ) (g : Con → Con) (hid : p.id = key)
    (hg : ∀ c, (c.hashed = true ∧ p.id = c.id) → Minip.pepdnaMinipRecvPacket c p now xmit = g c) :
    conUpdate key g t = conUpdate key (fun c => Minip.pepdnaMinipRecvPacket c p now xmit) t := by
  refine FirstMatch.modify_congr (HasId key) t _ _ fun c hc => ?_
  obtain ⟨hhashed, hkey⟩ := (FirstMatch.find_spec (HasId key) t c hc).2
  exact (hg c ⟨hhashed, hid.trans hkey.symm⟩).symm

theorem recvById_refines (p : Packet) (g : Con → Con) (hid : p.id = hton e 4 (f.hdr e).id)
    (hg : ∀ c, (c.hashed = true ∧ p.id = c.id) → Minip.pepdnaMinipRecvPacket c p now xmit = g c) :
    (recvById e f t g).val.cons =
      conUpdate p.id (fun c => Minip.pepdnaMinipRecvPacket c p now xmit) t := by
  rw [hid, ← found_recvPacket t now xmit p _ g hid hg]
  simp only [recvById, Frame.loadId, Traced.val_bind, Traced.val_access]
  cases hc : conFind t (hton e 4 (f.hdr e).id) with
  | none =>
    rw [conUpdate, FirstMatch.modify_none _ t _ hc]
    rfl
  | some c => rfl

theorem recvAck_refines :
    (pepdnaMinipRecvAck e f t now xmit).val.cons =
      conUpdate (hton e 4 (f.hdr e).id)
        (fun c => Minip.pepdnaMinipRecvPacket c (.ack (hton e 4 (f.hdr e).id)
          (hton e 4 (f.hdr e).ack) (hton e 4 (f.hdr e).ts)) now xmit) t := by
  have hack : ∀ c, (c.hashed = true ∧ hton e 4 (f.hdr e).id = c.id) →
      Minip.pepdnaMinipRecvPacket c (.ack (hton e 4 (f.hdr e).id) (hton e 4 (f.hdr e).ack)
        (hton e 4 (f.hdr e).ts)) now xmit =
        Minip.pepdnaMinipRecvAck c (hton e 4 (f.hdr e).ack) (hton e 4 (f.hdr e).ts) now xmit :=
    fun c hc => if_pos hc
  rw [← found_recvPacket t now xmit (.ack (hton e 4 (f.hdr e).id) _ _) (hton e 4 (f.hdr e).id) _ rfl
    hack]
  simp only [pepdnaMinipRecvAck, Frame.loadId, Frame.loadTs, Traced.val_bind, Traced.val_access]
  cases hc : conFind t (hton e 4 (f.hdr e).id) with
  | none =>
    rw [conUpdate, FirstMatch.modify_none _ t _ hc]
    rfl
  | some con =>
    by_cases hold : hton e 4 (f.hdr e).ack < con.lastAcked
    · rw [conUpdate, FirstMatch.modify_fixed]
      · simp [hold]
      · intro c hc'
        rw [← conFind, hc] at hc'
        cases hc'
        exact recvAck_old con _ _ now xmit hold
    · simp [hold]

theorem recvData_refines (hfull : HDR_LEN ≤ f.bytes.length) :
    (pepdnaMinipRecvData e f t).val.cons =
      conUpdate (hton e 4 (f.hdr e).id)
        (fun c => Minip.pepdnaMinipRecvPacket c (.data (f.pdu e)) now xmit) t := by
  have hpull : f.pulled = HDR_LEN := if_pos hfull
  have hdata : ∀ c, (c.hashed = true ∧ (f.pdu e).id = c.id) →
      Minip.pepdnaMinipRecvPacket c (.data (f.pdu e)) now xmit =
        Minip.pepdnaConMinip2iFwd c (f.pdu e) :=
    fun c hc => if_pos hc
  rw [← found_recvPacket t now xmit (.data (f.pdu e)) (hton e 4 (f.hdr e).id) _ rfl hdata]
  simp only [pepdnaMinipRecvData, Frame.loadId, Frame.loadSeq, Traced.val_bind, Traced.val_access]
  cases hc : conFind t (hton e 4 (f.hdr e).id) with
  | none =>
    rw [conUpdate, FirstMatch.modify_none _ t _ hc]
    rfl
  | some con =>
    by_cases hin : hton e 4 (f.hdr e).seq = con.nextRecv
    · simp only [pepdnaConMinip2iFwd, Frame.loadSeq, Frame.loadTs, Traced.val_bind,
        Traced.val_access, hin, if_true, Traced.val_pure, hpull, Frame.pdu]
    · simp only [pepdnaConMinip2iFwd, Frame.loadSeq, Frame.loadTs, Traced.val_bind,
        Traced.val_access, hin, if_false, Traced.val_pure]
      -- the payload of a packet that is out of order is not looked at
      refine FirstMatch.modify_congr _ t _ _ fun c hc' => ?_
      rw [← conFind, hc] at hc'
      cases hc'
      rw [Minip.pepdnaConMinip2iFwd, Minip.pepdnaConMinip2iFwd, Frame.pdu, if_neg hin, if_neg hin]

/-- On a complete frame the receive path does what `Handlers` says of a packet with the fields that
it takes from the frame. -/
theorem recvPacket_refines (mode : Mode) (mem : Bool) (hfull : Complete e f) (p : Packet)
    (hp : decode e f = some (meant p)) :
    (pepdnaMinipRecvPacket e f t mode mem now xmit).val.cons =
      packetEffect t mode mem now xmit p := by
  have hval : (pepdnaMinipRecvPacket e f t mode mem now xmit).val =
      (dispatch e f t mode mem now xmit (Kind.ofCode (f.hdr e).pktType)).val := rfl
  rw [hval]
  cases hk : Kind.ofCode (f.hdr e).pktType with
  | none =>
    simp only [decode, hk] at hp
    cases hp
  | some k =>
    simp only [decode, hk, Option.map_some, Option.some.injEq] at hp
    cases k with
    | request =>
      have hpull : f.pulled = HDR_LEN := if_pos hfull.1
      cases p with
      | request id seq ack ts syn =>
        obtain ⟨rfl, rfl⟩ := Seen.request.inj hp
        cases mem with
        | false => simp [dispatch, pepdnaMinipRecvRequest, packetEffect]
        | true => simp [dispatch, pepdnaMinipRecvRequest, packetEffect, hpull, Frame.hash]
      | _ => cases hp
    | response =>
      cases p with
      | response id seq ack =>
        obtain rfl := Seen.response.inj hp
        exact recvById_refines e f t now xmit _ _ rfl fun c hc => if_pos hc
      | _ => cases hp
    | delete =>
      cases p with
      | delete id =>
        obtain rfl := Seen.delete.inj hp
        exact recvById_refines e f t now xmit _ _ rfl fun c hc => if_pos hc
      | _ => cases hp
    | finished =>
      cases p with
      | finished id =>
        obtain rfl := Seen.finished.inj hp
        exact recvById_refines e f t now xmit _ _ rfl fun c hc => if_pos hc
      | _ => cases hp
    | ack =>
      cases p with
      | ack id ack ts =>
        obtain ⟨rfl, rfl, rfl⟩ := Seen.ack.inj hp
        exact recvAck_refines e f t now xmit
      | _ => cases hp
    | data =>
      cases p with
      | data d =>
        obtain rfl := Seen.data.inj hp
        exact recvData_refines e f t now xmit hfull.1
      | _ => cases hp

end Refines

/-! ### The reference to the frame -/

section Drops

variable (e : Endian) (f : Frame) (t : List Con)

/-- The handler has what it needs: memory for a new connection, or the connection in the table. -/
def Served (mem : Bool) : Option Kind → Prop
  | none => True
  | some .request => mem = true
  | some _ => (conFind t (hton e 4 (f.hdr e).id)).isSome = true

theorem recvById_ret (g : Con → Con) :
    (recvById e f t g).val.ret = 0 ↔ (conFind t (hton e 4 (f.hdr e).id)).isSome = true := by
  simp only [recvById, Frame.loadId, Traced.val_bind, Traced.val_access]
  cases conFind t (hton e 4 (f.hdr e).id) with
  | none => simp
  | some c => simp

theorem recvAck_ret (now : ℕ) (xmit : ℕ → Int) :
    (pepdnaMinipRecvAck e f t now xmit).val.ret = 0 ↔
      (conFind t (hton e 4 (f.hdr e).id)).isSome = true := by
  simp only [pepdnaMinipRecvAck, Frame.loadId, Traced.val_bind, Traced.val_access]
  cases conFind t (hton e 4 (f.hdr e).id) with
  | none => simp
  | some c =>
    by_cases hold : hton e 4 (f.hdr e).ack < c.lastAcked
    · simp [hold]
    · simp [hold]

theorem recvData_ret :
    (pepdnaMinipRecvData e f t).val.ret = 0 ↔
      (conFind t (hton e 4 (f.hdr e).id)).isSome = true := by
  simp only [pepdnaMinipRecvData, Frame.loadId, Traced.val_bind, Traced.val_access]
  cases conFind t (hton e 4 (f.hdr e).id) with
  | none => simp
  | some c =>
    simp only [pepdnaConMinip2iFwd, Traced.val_bind]
    split <;> simp

theorem recvRequest_ret (mode : Mode) (mem : Bool) :
    (pepdnaMinipRecvRequest e f t mode mem).val.ret = 0 ↔ mem = true := by
  cases mem with
  | false => simp [pepdnaMinipRecvRequest]
  | true => simp [pepdnaMinipRecvRequest]

/-- A frame is released once if its handler is served, and twice if it is not. -/
theorem skbDrops_eq_one_iff (mode : Mode) (mem : Bool) (now : ℕ) (xmit : ℕ → Int) :
    skbDrops e f t mode mem now xmit = 1 ↔
      Served e f t mem (Kind.ofCode (f.hdr e).pktType) := by
  have hdrops : skbDrops e f t mode mem now xmit = 1 ↔
      (dispatch e f t mode mem now xmit (Kind.ofCode (f.hdr e).pktType)).val.ret = 0 := by
    simp only [skbDrops, pepdnaMinipRecvPacket, Traced.val_bind, Traced.val_access]
    by_cases h : (dispatch e f t mode mem now xmit (Kind.ofCode (f.hdr e).pktType)).val.ret = 0
    · simp [h]
    · simp [h]
  rw [hdrops]
  cases Kind.ofCode (f.hdr e).pktType with
  | none => simp [dispatch, Served]
  | some k =>
    cases k with
    | request => exact recvRequest_ret e f t mode mem
    | data => exact recvData_ret e f t
    | ack => exact recvAck_ret e f t now xmit
    | response => exact recvById_ret e f t _
    | delete => exact recvById_ret e f t _
    | finished => exact recvById_ret e f t _

end Drops

/- The header above, for a host that has no connection: `kfree_skb` and `dev_kfree_skb_any`. -/
theorem skbDrops_unknown :
    skbDrops .little ⟨dataHeader, fun _ => 0⟩ [] .minip2tcp true 0 (fun _ => 0) = 2 := by
  decide

end PepDna.Minip.Wire
