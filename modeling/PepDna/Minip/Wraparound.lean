import PepDna.Minip.Session

/-!
# Sequence numbers that pass `2^32 - 1`

Two runs of one connection are compared, the second with every sequence number
of the first moved by `k` modulo `2^32`. Increments, the test for the expected
packet and the count of packets in flight are arithmetic modulo `2^32` and do
not see the difference. The comparisons with `<` and `>` do, and they are the
only ones: a step commutes with the shift whenever no two numbers that it
compares are separated by the wrap.
-/

namespace PepDna.Minip

def shift (k n : ℕ) : ℕ := u32 (n + k)

/- ### Arithmetic -/

theorem shift_zero (n : ℕ) (h : n < 4294967296) : shift 0 n = n := u32_of_lt n h

theorem shift_succ (k n : ℕ) : u32 (shift k n + 1) = shift k (u32 (n + 1)) := by
  simp only [shift, u32]
  omega

theorem shift_pred (k n : ℕ) (hn : n < 4294967296) :
    u32Sub (shift k n) 1 = shift k (u32Sub n 1) := by
  simp only [shift, u32, u32Sub]
  omega

theorem shift_sub (k m n : ℕ) (hm : m < 4294967296) (hn : n < 4294967296) :
    u32Sub (shift k m) (shift k n) = u32Sub m n := by
  simp only [shift, u32, u32Sub]
  omega

theorem shift_inj (k m n : ℕ) (hm : m < 4294967296) (hn : n < 4294967296) :
    shift k m = shift k n ↔ m = n := by
  simp only [shift, u32]
  omega

/-- Neither or both of the numbers pass `2^32 - 1` when they are moved by `k`. -/
def SameSide (k m n : ℕ) : Prop := m + k < 4294967296 ↔ n + k < 4294967296

instance (k m n : ℕ) : Decidable (SameSide k m n) := by
  unfold SameSide
  infer_instance

theorem shift_lt_shift (k m n : ℕ) (hk : k < 4294967296) (hm : m < 4294967296)
    (hn : n < 4294967296) (h : SameSide k m n) : shift k m < shift k n ↔ m < n := by
  simp only [SameSide, shift, u32] at *
  omega

/- ### The shifted connection -/

def shiftPdu (k : ℕ) (d : DataPdu) : DataPdu := { d with seq := shift k d.seq }

def shiftPacket (k : ℕ) : Packet → Packet
  | .request id seq ack ts syn => .request id (shift k seq) (shift k ack) ts syn
  | .response id seq ack => .response id (shift k seq) (shift k ack)
  | .data d => .data (shiftPdu k d)
  | .ack id ack ts => .ack id (shift k ack) ts
  | .delete id => .delete id
  | .finished id => .finished id

def shiftEntry (k : ℕ) (e : RtxqEntry) : RtxqEntry := { e with skb := shiftPdu k e.skb }

def shiftQueue (k : ℕ) (q : Rtxqueue) : Rtxqueue :=
  ⟨q.head.map (shiftEntry k), q.len, by rw [List.length_map, q.len_eq]⟩

def shiftCon (k : ℕ) (c : Con) : Con :=
  { c with
    lastAcked := shift k c.lastAcked
    nextSeq := shift k c.nextSeq
    nextRecv := shift k c.nextRecv
    rtxq := shiftQueue k c.rtxq
    rx := c.rx.map fun r => { r with pdu := shiftPdu k r.pdu }
    tx := c.tx.map (shiftPacket k) }

/- The device answers for a packet what it answered for the unshifted one. -/
def shiftAct (k : ℕ) : Act → Act
  | .timeout now xmit => .timeout now fun n => xmit (u32Sub n k)
  | .recv p now xmit => .recv (shiftPacket k p) now fun n => xmit (u32Sub n k)
  | a => a

/- Every number fits its 32-bit field. -/
def Packet.Words : Packet → Prop
  | .request _ m n _ _ => m < 4294967296 ∧ n < 4294967296
  | .response _ m n => m < 4294967296 ∧ n < 4294967296
  | .data d => d.seq < 4294967296
  | .ack _ n _ => n < 4294967296
  | _ => True

instance (p : Packet) : Decidable p.Words := by
  unfold Packet.Words
  split <;> infer_instance

def Act.Words : Act → Prop
  | .recv p _ _ => p.Words
  | _ => True

instance (a : Act) : Decidable a.Words := by
  unfold Act.Words
  split <;> infer_instance

structure Words (c : Con) : Prop where
  lastAcked : c.lastAcked < 4294967296
  nextSeq : c.nextSeq < 4294967296
  nextRecv : c.nextRecv < 4294967296
  rtxq : ∀ e ∈ c.rtxq.head, e.skb.seq < 4294967296
  rx : ∀ r ∈ c.rx, r.pdu.seq < 4294967296
  tx : ∀ p ∈ c.tx, p.Words

/-- Every pair of numbers that a step may compare with `<` or `>`. The loop over the queue may stop
before it has come to an entry, and a repeated duplicate ACK does not look at the queue. -/
def compared (c : Con) : Act → List (ℕ × ℕ)
  | .timeout _ _ => c.rtxq.head.map fun e => (e.skb.seq, u32 (c.lastAcked + 1))
  | .recv (.ack id ack _) _ _ =>
    if c.hashed ∧ id = c.id then
      (ack, c.lastAcked) ::
        if ack < c.lastAcked then [] else c.rtxq.head.map fun e => (e.skb.seq, ack)
    else []
  | _ => []

/-- No comparison of the step is across the wrap. -/
def Unwrapped (k : ℕ) (c : Con) (a : Act) : Prop := ∀ p ∈ compared c a, SameSide k p.1 p.2

instance (k : ℕ) (c : Con) (a : Act) : Decidable (Unwrapped k c a) := by
  unfold Unwrapped
  infer_instance

/- ### Operations that do not look at sequence numbers -/

variable {k : ℕ}

theorem shiftCon_transmit (c : Con) (p : Packet) :
    transmit (shiftCon k c) (shiftPacket k p) = shiftCon k (transmit c p) := by
  simp only [transmit, shiftCon, List.map_append, List.map_cons, List.map_nil]

theorem shiftCon_put (c : Con) : pepdnaConPut (shiftCon k c) = shiftCon k (pepdnaConPut c) := by
  rw [pepdnaConPut_eq, pepdnaConPut_eq]
  rfl

theorem shiftCon_close (c : Con) :
    pepdnaConClose (shiftCon k c) = shiftCon k (pepdnaConClose c) := by
  rw [pepdnaConClose_eq, pepdnaConClose_eq]
  have hfull : fullClose (shiftCon k c) = fullClose c := rfl
  rw [hfull]
  cases fullClose c <;> rfl

theorem shiftCon_ready (c : Con) :
    pepdnaL2rConnDataReady (shiftCon k c) = shiftCon k (pepdnaL2rConnDataReady c) := by
  rw [pepdnaL2rConnDataReady_eq, pepdnaL2rConnDataReady_eq]
  rfl

theorem shiftCon_wake (c : Con) : wakeLsock (shiftCon k c) = shiftCon k (wakeLsock c) := by
  unfold wakeLsock
  rw [shiftCon_ready, apply_ite (shiftCon k)]
  rfl

/- ### The queue -/

theorem entriesAck_shift (ack : ℕ) (l : List RtxqEntry) (hk : k < 4294967296)
    (ha : ack < 4294967296)
    (hl : ∀ e ∈ l, e.skb.seq < 4294967296 ∧ SameSide k e.skb.seq ack) :
    entriesAck (shift k ack) (l.map (shiftEntry k)) =
      ((entriesAck ack l).1.map (shiftEntry k), (entriesAck ack l).2) := by
  induction l with
  | nil => rfl
  | cons cur n ih =>
    rw [List.forall_mem_cons] at hl
    have hcmp : shift k cur.skb.seq ≥ shift k ack ↔ cur.skb.seq ≥ ack := by
      have := shift_lt_shift k _ _ hk hl.1.1 ha hl.1.2
      omega
    rw [List.map_cons, entriesAck, entriesAck, ih hl.2]
    simp only [shiftEntry, shiftPdu, hcmp]
    split <;> rfl

theorem entriesRtx_shift (ack now : ℕ) (xmit xmit' : ℕ → Int) (l : List RtxqEntry)
    (hk : k < 4294967296) (ha : ack < 4294967296)
    (hx : ∀ n < 4294967296, xmit' (shift k n) = xmit n)
    (hl : ∀ e ∈ l, e.skb.seq < 4294967296 ∧ SameSide k e.skb.seq ack) :
    entriesRtx (shift k ack) now xmit' (l.map (shiftEntry k)) =
      ((entriesRtx ack now xmit l).1.map (shiftEntry k),
        (entriesRtx ack now xmit l).2.1.map (shiftPdu k), (entriesRtx ack now xmit l).2.2) := by
  induction l with
  | nil => rfl
  | cons cur n ih =>
    rw [List.forall_mem_cons] at hl
    have hcmp : shift k cur.skb.seq ≥ shift k ack ↔ cur.skb.seq ≥ ack := by
      have := shift_lt_shift k _ _ hk hl.1.1 ha hl.1.2
      omega
    rw [List.map_cons, entriesRtx, entriesRtx]
    simp only [shiftEntry, shiftPdu, hcmp, hx _ hl.1.1, ih hl.2]
    split
    · split
      · split <;> rfl
      · rfl
    · rfl

/- The entries of the queue and the threshold of the loop are words on the same side. -/
def Aligned (k : ℕ) (c : Con) (ack : ℕ) : Prop :=
  ack < 4294967296 ∧ ∀ e ∈ c.rtxq.head, e.skb.seq < 4294967296 ∧ SameSide k e.skb.seq ack

theorem rtxqAck_shift (c : Con) (ack : ℕ) (hk : k < 4294967296) (h : Aligned k c ack) :
    rtxqAck (shiftCon k c) (shift k ack) = (shiftCon k (rtxqAck c ack).1, (rtxqAck c ack).2) := by
  have hq : rtxqueueEntriesAck (shiftQueue k c.rtxq) (shift k ack) =
      (shiftQueue k (rtxqueueEntriesAck c.rtxq ack).1, (rtxqueueEntriesAck c.rtxq ack).2) := by
    simp only [rtxqueueEntriesAck, shiftQueue, entriesAck_shift ack c.rtxq.head hk h.1 h.2]
  simp only [rtxqAck]
  rw [show (shiftCon k c).rtxq = shiftQueue k c.rtxq from rfl, hq]
  rfl

theorem rtxqFullRtx_shift (c : Con) (ack now : ℕ) (xmit xmit' : ℕ → Int) (hk : k < 4294967296)
    (hx : ∀ n < 4294967296, xmit' (shift k n) = xmit n) (h : Aligned k c ack) :
    rtxqFullRtx (shiftCon k c) (shift k ack) now xmit' =
      (shiftCon k (rtxqFullRtx c ack now xmit).1, (rtxqFullRtx c ack now xmit).2) := by
  have hq : rtxqueueEntriesRtx (shiftQueue k c.rtxq) (shift k ack) now xmit' =
      (shiftQueue k (rtxqueueEntriesRtx c.rtxq ack now xmit).1,
        (rtxqueueEntriesRtx c.rtxq ack now xmit).2.1.map (shiftPdu k),
        (rtxqueueEntriesRtx c.rtxq ack now xmit).2.2) := by
    simp only [rtxqueueEntriesRtx, shiftQueue,
      entriesRtx_shift ack now xmit xmit' c.rtxq.head hk h.1 hx h.2]
  simp only [rtxqFullRtx]
  rw [show (shiftCon k c).rtxq = shiftQueue k c.rtxq from rfl, hq]
  simp only [shiftCon, touchRtxq, List.map_append, List.map_map]
  rfl

/- ### The handlers -/

theorem updateCwnd_shift (c : Con) (hs : c.nextSeq < 4294967296) (ha : c.lastAcked < 4294967296) :
    minipUpdateCwnd (shiftCon k c) = shiftCon k (minipUpdateCwnd c) := by
  have hf : u32Sub (shiftCon k c).nextSeq (shiftCon k c).lastAcked =
      u32Sub c.nextSeq c.lastAcked := shift_sub k _ _ hs ha
  unfold minipUpdateCwnd
  dsimp only
  rw [hf]
  rfl

theorem ackSample_shift (c : Con) (ts now : ℕ) :
    ackSample (shiftCon k c) ts now = shiftCon k (ackSample c ts now) := by
  unfold ackSample
  dsimp only
  split <;> rfl

theorem rtxEnd_shift (ok : Con → Con) (hok : ∀ c, ok (shiftCon k c) = shiftCon k (ok c)) (id : ℕ)
    (r : Con × Bool) : rtxEnd ok id (shiftCon k r.1, r.2) = shiftCon k (rtxEnd ok id r) := by
  unfold rtxEnd
  rw [apply_ite (shiftCon k), hok, ← shiftCon_close, ← shiftCon_transmit]
  rfl

theorem timeout_shift (c : Con) (now : ℕ) (xmit xmit' : ℕ → Int) (hk : k < 4294967296)
    (hx : ∀ n < 4294967296, xmit' (shift k n) = xmit n)
    (h : Aligned k c (u32 (c.lastAcked + 1))) :
    minipSenderTimeout (shiftCon k c) now xmit' = shiftCon k (minipSenderTimeout c now xmit) := by
  have hack : u32 ((shiftCon k c).lastAcked + 1) = shift k (u32 (c.lastAcked + 1)) :=
    shift_succ k c.lastAcked
  rw [minipSenderTimeout_eq, minipSenderTimeout_eq, apply_ite (shiftCon k), hack,
    show recovering (shiftCon k c) = shiftCon k (recovering c) from rfl,
    rtxqFullRtx_shift (recovering c) _ now xmit xmit' hk hx h, rtxEnd_shift rearm (fun _ => rfl)]
  rfl

theorem dupAck_shift (c : Con) (ack now : ℕ) (xmit xmit' : ℕ → Int) (hk : k < 4294967296)
    (hx : ∀ n < 4294967296, xmit' (shift k n) = xmit n) (h : Aligned k c ack) :
    recvDupAck (shiftCon k c) (shift k ack) now xmit' = shiftCon k (recvDupAck c ack now xmit) := by
  rw [recvDupAck_eq, recvDupAck_eq, apply_ite (shiftCon k),
    show duplicate (shiftCon k c) = shiftCon k (duplicate c) from rfl,
    rtxqFullRtx_shift (duplicate c) _ now xmit xmit' hk hx h, rtxEnd_shift id (fun _ => rfl)]
  rfl

theorem leaveRecovery_shift (c : Con) :
    leaveRecovery (shiftCon k c) = shiftCon k (leaveRecovery c) := by
  unfold leaveRecovery
  rw [apply_ite (shiftCon k)]
  rfl

theorem leaveRecovery_nums (c : Con) :
    (leaveRecovery c).nextSeq = c.nextSeq ∧ (leaveRecovery c).lastAcked = c.lastAcked := by
  unfold leaveRecovery
  split <;> exact ⟨rfl, rfl⟩

theorem growWindow_shift (c : Con) (hs : c.nextSeq < 4294967296) (ha : c.lastAcked < 4294967296) :
    growWindow (shiftCon k c) = shiftCon k (growWindow c) := by
  unfold growWindow
  rw [apply_ite (shiftCon k), ← updateCwnd_shift c hs ha]
  rfl

theorem newAckEnd_shift (r : Con × ℕ) (hs : r.1.nextSeq < 4294967296)
    (ha : r.1.lastAcked < 4294967296) :
    newAckEnd (shiftCon k r.1, r.2) = shiftCon k (newAckEnd r) := by
  obtain ⟨hns, hla⟩ := leaveRecovery_nums r.1
  unfold newAckEnd
  rw [leaveRecovery_shift, ← shiftCon_wake, ← growWindow_shift]
  · rfl
  · exact lt_of_eq_of_lt hns hs
  · exact lt_of_eq_of_lt hla ha

theorem newAck_shift (c : Con) (ack : ℕ) (hk : k < 4294967296) (hs : c.nextSeq < 4294967296)
    (h : Aligned k c ack) :
    recvNewAck (shiftCon k c) (shift k ack) = shiftCon k (recvNewAck c ack) := by
  have hset : advanceAck (shiftCon k c) (shift k ack) = shiftCon k (advanceAck c ack) := by
    unfold advanceAck
    rw [shift_pred k ack h.1]
    rfl
  rw [recvNewAck_eq, recvNewAck_eq, hset, rtxqAck_shift (advanceAck c ack) ack hk h]
  exact newAckEnd_shift _ hs (Nat.mod_lt _ (by decide))

theorem recvAck_shift (c : Con) (ack ts now : ℕ) (xmit xmit' : ℕ → Int) (hk : k < 4294967296)
    (hx : ∀ n < 4294967296, xmit' (shift k n) = xmit n) (hc : Words c) (ha : ack < 4294967296)
    (hs : SameSide k ack c.lastAcked)
    (hq : ¬ack < c.lastAcked → ∀ e ∈ c.rtxq.head, SameSide k e.skb.seq ack) :
    pepdnaMinipRecvAck (shiftCon k c) (shift k ack) ts now xmit' =
      shiftCon k (pepdnaMinipRecvAck c ack ts now xmit) := by
  have hold : shift k ack < (shiftCon k c).lastAcked ↔ ack < c.lastAcked :=
    shift_lt_shift k _ _ hk ha hc.lastAcked hs
  have hnew : shift k ack > (shiftCon k c).lastAcked ↔ ack > c.lastAcked :=
    shift_lt_shift k _ _ hk hc.lastAcked ha hs.symm
  unfold pepdnaMinipRecvAck
  dsimp only
  by_cases h : ack < c.lastAcked
  · rw [if_pos h, if_pos (hold.mpr h)]
  · have hseq : (ackSample c ts now).nextSeq = c.nextSeq := by rw [ackSample_eq]
    have hlast := ackSample_lastAcked c ts now
    have hal : Aligned k (ackSample c ts now) ack := by
      refine ⟨ha, fun e he => ?_⟩
      rw [ackSample_rtxq] at he
      exact ⟨hc.rtxq e he, hq h e he⟩
    rw [if_neg h, if_neg (mt hold.mp h), ackSample_shift, dupAck_shift _ ack now xmit xmit' hk hx hal,
      newAck_shift _ ack hk (hseq.symm ▸ hc.nextSeq) hal, hlast,
      show (shiftCon k (ackSample c ts now)).lastAcked = (shiftCon k c).lastAcked from
        congrArg (shift k) hlast]
    by_cases hn : ack > c.lastAcked
    · rw [if_pos hn, if_pos (hnew.mpr hn)]
    · rw [if_neg hn, if_neg (mt hnew.mp hn)]

theorem sendAck_shift (c : Con) (ts : ℕ) :
    pepdnaMinipSendAck (shiftCon k c) ts = shiftCon k (pepdnaMinipSendAck c ts) :=
  shiftCon_transmit c (.ack c.id c.nextRecv ts)

theorem delete_close_shift (c : Con) (id : ℕ) :
    pepdnaConClose (transmit (shiftCon k c) (.delete id)) =
      shiftCon k (pepdnaConClose (transmit c (.delete id))) := by
  rw [← shiftCon_close, ← shiftCon_transmit]
  rfl

theorem received_shift (c : Con) : received (shiftCon k c) = shiftCon k (received c) := by
  unfold received
  rw [show (shiftCon k c).nextRecv = shift k c.nextRecv from rfl, shift_succ]
  rfl

theorem finish_shift (c : Con) (d : DataPdu) (sent : Int) :
    minip2iFinish (shiftCon k c) (shiftPdu k d) sent = shiftCon k (minip2iFinish c d sent) := by
  have hrx : ({ shiftCon k c with rx := none } : Con) = shiftCon k { c with rx := none } := rfl
  rw [minip2iFinish_eq, minip2iFinish_eq, apply_ite (shiftCon k), apply_ite (shiftCon k),
    received_shift, sendAck_shift, delete_close_shift, hrx, sendAck_shift, delete_close_shift]
  rfl

theorem minip2iFwd_shift (c : Con) (d : DataPdu) (hc : Words c) (hd : d.seq < 4294967296) :
    pepdnaConMinip2iFwd (shiftCon k c) (shiftPdu k d) = shiftCon k (pepdnaConMinip2iFwd c d) := by
  have hseq : (shiftPdu k d).seq = (shiftCon k c).nextRecv ↔ d.seq = c.nextRecv :=
    shift_inj k _ _ hd hc.nextRecv
  unfold pepdnaConMinip2iFwd
  simp only [hseq]
  split
  · change (if c.lsock then _ else _) = _
    split
    · change (if d.sdu.take d.sduLen = [] then _ else _) = _
      split
      · exact finish_shift c d 0
      · rfl
    · rfl
  · exact sendAck_shift c d.ts

theorem sendmsg_shift (c : Con) (rc : Int) :
    minip2iSendmsg (shiftCon k c) rc = (minip2iSendmsg c rc).map (shiftCon k) := by
  unfold minip2iSendmsg
  cases hx : c.rx with
  | none => simp [shiftCon, hx]
  | some r =>
    rw [show (shiftCon k c).rx = some { r with pdu := shiftPdu k r.pdu } by simp [shiftCon, hx]]
    dsimp only
    change (if rc ≤ r.w.rest.length ∧ (c.shut ∨ c.sockErr → rc ≤ 0) then _ else _) = _
    split
    · cases pepdnaSockWriteIter r.w rc with
      | again w => rfl
      | ret v =>
        rw [Option.map_some, ← finish_shift]
        rfl
    · rfl

theorem recvPacket_shift (c : Con) (p : Packet) (now : ℕ) (xmit xmit' : ℕ → Int)
    (hk : k < 4294967296) (hx : ∀ n < 4294967296, xmit' (shift k n) = xmit n) (hc : Words c)
    (hp : p.Words) (hs : Unwrapped k c (.recv p now xmit)) :
    pepdnaMinipRecvPacket (shiftCon k c) (shiftPacket k p) now xmit' =
      shiftCon k (pepdnaMinipRecvPacket c p now xmit) := by
  have hid : (shiftPacket k p).id = p.id := by cases p <;> rfl
  unfold pepdnaMinipRecvPacket
  rw [hid, apply_ite (shiftCon k)]
  change (if c.hashed ∧ p.id = c.id then _ else _) = _
  split
  · next hfound =>
    cases p with
    | request => rfl
    | response id seq ack =>
      change pepdnaMinipRecvResponse (shiftCon k c) = shiftCon k (pepdnaMinipRecvResponse c)
      have ha : u32 ((shiftCon k c).lastAcked + 1) = shift k (u32 (c.lastAcked + 1)) := shift_succ k _
      have hr : u32 ((shiftCon k c).nextRecv + 1) = shift k (u32 (c.nextRecv + 1)) := shift_succ k _
      unfold pepdnaMinipRecvResponse
      rw [ha, hr]
      rfl
    | data d => exact minip2iFwd_shift c d hc hp
    | ack id ack ts =>
      have hpairs : compared c (.recv (.ack id ack ts) now xmit) = (ack, c.lastAcked) ::
          if ack < c.lastAcked then [] else c.rtxq.head.map fun e => (e.skb.seq, ack) :=
        if_pos hfound
      unfold Unwrapped at hs
      rw [hpairs, List.forall_mem_cons] at hs
      refine recvAck_shift c ack ts now xmit xmit' hk hx hc hp hs.1 fun hn e he => ?_
      rw [if_neg hn] at hs
      exact hs.2 _ (List.mem_map_of_mem he)
    | delete id =>
      change pepdnaConClose _ = shiftCon k (pepdnaConClose _)
      rw [← shiftCon_close]
      congr 1
      exact congrArg (fun c => { c with rflag := false }) (shiftCon_transmit c (.finished c.id))
    | finished id => exact shiftCon_close { c with rflag := false }
  · rfl

/- ### The work and the accept -/

theorem push_shift (q : Rtxqueue) (d : DataPdu) :
    rtxqueuePush (shiftQueue k q) (shiftPdu k d) = shiftQueue k (rtxqueuePush q d) := by
  simp only [rtxqueuePush, shiftQueue, List.map_append]
  rfl

theorem skbSend_shift (c : Con) (buf : Bytes) (o : SkbSend) (now : ℕ) :
    pepdnaMinipSkbSend (shiftCon k c) buf o now =
      (shiftCon k (pepdnaMinipSkbSend c buf o now).1, (pepdnaMinipSkbSend c buf o now).2) := by
  cases o with
  | xmit rc =>
    have hpush : ({ touchRtxq (shiftCon k c) with
          rtxq := rtxqueuePush (shiftCon k c).rtxq (shiftPdu k (dataPdu c buf now)) } : Con) =
        shiftCon k { touchRtxq c with rtxq := rtxqueuePush c.rtxq (dataPdu c buf now) } := by
      rw [show (shiftCon k c).rtxq = shiftQueue k c.rtxq from rfl, push_shift]
      rfl
    have hsend := shiftCon_transmit (k := k)
      { touchRtxq c with rtxq := rtxqueuePush c.rtxq (dataPdu c buf now) }
      (.data (dataPdu c buf now))
    rw [← hpush] at hsend
    exact congrArg (fun c => (c, rc)) hsend
  | _ => rfl

theorem sndData_shift (c : Con) (left : Bytes) (sent : ℕ) (o : SkbSend) (now : ℕ) :
    sndData (shiftCon k c) left sent o now = shiftCon k (sndData c left sent o now) := by
  unfold sndData
  dsimp only
  rw [skbSend_shift]
  dsimp only
  split
  · split <;> rfl
  · rfl

theorem sndAdvance_shift (c : Con) (left : Bytes) (sent : ℕ) :
    sndAdvance (shiftCon k c) left sent = shiftCon k (sndAdvance c left sent) := by
  unfold sndAdvance
  rw [show (shiftCon k c).nextSeq = shift k c.nextSeq from rfl, shift_succ]
  rfl

theorem workStep_shift (c : Con) (i : WorkIn) :
    workStep (shiftCon k c) i = (workStep c i).map (shiftCon k) := by
  unfold workStep
  rw [show (shiftCon k c).pc = c.pc from rfl]
  split
  · change (if c.pending then _ else _) = _
    split <;> rfl
  · rfl
  · rfl
  · rfl
  · split <;> rfl
  · split <;> rfl
  · exact congrArg some (sndData_shift c _ _ _ _)
  · exact congrArg some (sndAdvance_shift c _ _)
  · exact congrArg (fun c => some { c with pc := .close }) (shiftCon_transmit c (.delete c.id))
  · exact congrArg (fun c => some { c with pc := .test }) (shiftCon_close c)
  · exact congrArg some (shiftCon_put { c with pc := .idle })
  · rfl

theorem accept_shift (c : Con) :
    pepdnaTcpAccept (shiftCon k c) = (pepdnaTcpAccept c).map (shiftCon k) := by
  unfold pepdnaTcpAccept
  change (if c.synPending then _ else _) = _
  split
  · refine congrArg some ?_
    change (if c.hashed then _ else _) = _
    rw [apply_ite (shiftCon k), ← shiftCon_wake]
    rfl
  · rfl

/- ### Steps and runs -/

/- `a'` is `a` moved by `k`. The device is asked about words only. -/
inductive Shifted (k : ℕ) : Act → Act → Prop
  | timeout (now : ℕ) (xmit xmit' : ℕ → Int)
      (hx : ∀ n < 4294967296, xmit' (shift k n) = xmit n) :
      Shifted k (.timeout now xmit) (.timeout now xmit')
  | recv (p : Packet) (now : ℕ) (xmit xmit' : ℕ → Int)
      (hx : ∀ n < 4294967296, xmit' (shift k n) = xmit n) :
      Shifted k (.recv p now xmit) (.recv (shiftPacket k p) now xmit')
  | same (a : Act) (hr : a.isRecv = false) (ht : ∀ now xmit, a ≠ .timeout now xmit) : Shifted k a a

theorem conStep_shift (c : Con) (a a' : Act) (hk : k < 4294967296) (hc : Words c)
    (ht : c.tcfa = .done) (ha : a.Words) (h : Shifted k a a') (hs : Unwrapped k c a) :
    conStep (shiftCon k c) a' = (conStep c a).map (shiftCon k) := by
  cases h with
  | timeout now xmit xmit' hx =>
    have hal : Aligned k c (u32 (c.lastAcked + 1)) :=
      ⟨Nat.mod_lt _ (by decide), fun e he => ⟨hc.rtxq e he, hs _ (List.mem_map_of_mem he)⟩⟩
    simp only [conStep]
    change (if c.timer then _ else _) = _
    split
    · exact congrArg some (timeout_shift c now xmit xmit' hk hx hal)
    · rfl
  | recv p now xmit xmit' hx =>
    have hrx : (shiftCon k c).rx = none ↔ c.rx = none := Option.map_eq_none_iff
    simp only [conStep, hrx]
    split
    · exact congrArg some (recvPacket_shift c p now xmit xmit' hk hx hc ha hs)
    · rfl
  | same a hr hnt =>
    cases a with
    | tcfa rc now =>
      simp only [conStep]
      rw [tcfaStep_done c rc now ht, tcfaStep_done (shiftCon k c) rc now ht]
      rfl
    | accept => exact accept_shift c
    | dataReady =>
      simp only [conStep]
      change (if c.lsock then _ else _) = _
      split
      · exact congrArg some (shiftCon_ready c)
      · rfl
    | work i => exact workStep_shift c i
    | timeout now xmit => exact absurd rfl (hnt now xmit)
    | recv => cases hr
    | sendmsg rc => exact sendmsg_shift c rc

theorem shifted_shiftAct (a : Act) (hk : k < 4294967296) : Shifted k a (shiftAct k a) := by
  have hx (xmit : ℕ → Int) (n : ℕ) (hn : n < 4294967296) :
      xmit (u32Sub (shift k n) k) = xmit n := by
    congr 1
    simp only [shift, u32, u32Sub]
    omega
  cases a with
  | timeout now xmit => exact .timeout now xmit _ (hx xmit)
  | recv p now xmit => exact .recv p now xmit _ (hx xmit)
  | _ => exact .same _ rfl (by simp)

theorem shift_zero_iff (n : ℕ) : n < 4294967296 ↔ shift 0 n = n := by
  simp only [shift, u32]
  omega

theorem pdu_words_iff (d : DataPdu) : d.seq < 4294967296 ↔ shiftPdu 0 d = d := by
  rw [shift_zero_iff]
  cases d
  simp [shiftPdu]

theorem packet_words_iff (p : Packet) : p.Words ↔ shiftPacket 0 p = p := by
  cases p with
  | request => simp [Packet.Words, shiftPacket, shift_zero_iff]
  | response => simp [Packet.Words, shiftPacket, shift_zero_iff]
  | data d => simp [Packet.Words, shiftPacket, pdu_words_iff]
  | ack => simp [Packet.Words, shiftPacket, shift_zero_iff]
  | _ => simp [Packet.Words, shiftPacket]

theorem map_eq_self_iff {α : Type} (f : α → α) (l : List α) :
    l.map f = l ↔ ∀ x ∈ l, f x = x := by
  induction l with
  | nil => simp
  | cons x l ih => simp [ih]

theorem queue_words_iff (q : Rtxqueue) :
    (∀ e ∈ q.head, e.skb.seq < 4294967296) ↔ shiftQueue 0 q = q := by
  have hentry (e : RtxqEntry) : e.skb.seq < 4294967296 ↔ shiftEntry 0 e = e := by
    rw [pdu_words_iff]
    cases e
    simp [shiftEntry]
  simp only [hentry]
  rw [← map_eq_self_iff]
  cases q
  simp [shiftQueue]

theorem rx_words_iff (x : Option RxWrite) :
    (∀ r ∈ x, r.pdu.seq < 4294967296) ↔
      (x.map fun r => { r with pdu := shiftPdu 0 r.pdu }) = x := by
  cases x with
  | none => simp
  | some r =>
    cases r
    simp [pdu_words_iff]

/- Moving by `0` reduces every number to its field, so it tells whether all of them fit. -/
theorem words_iff (c : Con) : Words c ↔ shiftCon 0 c = c := by
  have htx : (∀ p ∈ c.tx, p.Words) ↔ c.tx.map (shiftPacket 0) = c.tx := by
    simp only [packet_words_iff]
    exact (map_eq_self_iff _ _).symm
  constructor
  · intro h
    unfold shiftCon
    rw [shift_zero _ h.lastAcked, shift_zero _ h.nextSeq, shift_zero _ h.nextRecv,
      (queue_words_iff _).mp h.rtxq, (rx_words_iff _).mp h.rx, htx.mp h.tx]
  · intro h
    exact ⟨(shift_zero_iff _).mpr (congrArg Con.lastAcked h),
      (shift_zero_iff _).mpr (congrArg Con.nextSeq h),
      (shift_zero_iff _).mpr (congrArg Con.nextRecv h),
      (queue_words_iff _).mpr (congrArg Con.rtxq h), (rx_words_iff _).mpr (congrArg Con.rx h),
      htx.mpr (congrArg Con.tx h)⟩

theorem compared_words (c : Con) (a : Act) (hc : Words c) (ha : a.Words) (p : ℕ × ℕ)
    (hp : p ∈ compared c a) : p.1 < 4294967296 ∧ p.2 < 4294967296 := by
  have hqueue (n : ℕ) (hn : n < 4294967296)
      (hp : p ∈ c.rtxq.head.map fun e => (e.skb.seq, n)) : p.1 < 4294967296 ∧ p.2 < 4294967296 := by
    obtain ⟨e, he, rfl⟩ := List.mem_map.mp hp
    exact ⟨hc.rtxq e he, hn⟩
  unfold compared at hp
  split at hp
  · exact hqueue _ (Nat.mod_lt _ (by decide)) hp
  · next id ack _ _ _ =>
    split at hp
    · rcases List.mem_cons.mp hp with rfl | hp
      · exact ⟨ha, hc.lastAcked⟩
      · split at hp
        · exact absurd hp List.not_mem_nil
        · exact hqueue ack ha hp
    · exact absurd hp List.not_mem_nil
  · exact absurd hp List.not_mem_nil

theorem words_step (c : Con) (a : Act) (c' : Con) (hc : Words c) (ht : c.tcfa = .done) (ha : a.Words)
    (h : conStep c a = some c') : Words c' := by
  have hsame : Shifted 0 a a := by
    cases a with
    | timeout now xmit => exact .timeout now xmit xmit fun n hn => by rw [shift_zero n hn]
    | recv p now xmit =>
      have hr : Shifted 0 (.recv p now xmit) (.recv (shiftPacket 0 p) now xmit) :=
        .recv p now xmit xmit fun n hn => by rw [shift_zero n hn]
      rwa [(packet_words_iff p).mp ha] at hr
    | _ => exact .same _ rfl (by simp)
  have hun : Unwrapped 0 c a := fun p hp =>
    iff_of_true (compared_words c a hc ha p hp).1 (compared_words c a hc ha p hp).2
  have hstep := conStep_shift c a a (by decide) hc ht ha hsame hun
  rw [(words_iff c).mp hc, h] at hstep
  exact (words_iff c').mpr (Option.some.inj hstep).symm

theorem conStep_done (c c' : Con) (a : Act) (ht : c.tcfa = .done) (h : conStep c a = some c') :
    c'.tcfa = .done := by
  cases conStep_fixed c c' a h with
  | tcfa rc now ha =>
    subst ha
    simp only [conStep, tcfaStep_done c rc now ht] at h
    cases h
  | accept _ hf =>
    simp only [fixedPart, Prod.mk.injEq] at hf
    exact hf.2.2.2.2.2.trans ht
  | response _ hf =>
    simp only [fixedPart, Prod.mk.injEq] at hf
    exact hf.2.2.2.2.2.trans ht
  | same _ hf =>
    simp only [fixedPart, Prod.mk.injEq] at hf
    exact hf.2.2.2.2.2.trans ht

/-- The shifted run is the run, with every sequence number shifted. -/
theorem conRun_shift (k : ℕ) (c : Con) (acts : List Act) (hk : k < 4294967296) (hc : Words c)
    (ht : c.tcfa = .done) (ha : ∀ a ∈ acts, a.Words) (hs : Lts.Along conStep (Unwrapped k) c acts) :
    Lts.run conStep (shiftCon k c) (acts.map (shiftAct k)) =
      (Lts.run conStep c acts).map (shiftCon k) := by
  refine Lts.run_map (shiftCon k) (shiftAct k) (fun c => Words c ∧ c.tcfa = .done)
    (fun c a => Unwrapped k c a ∧ a.Words) ?_ ?_ c acts ⟨hc, ht⟩
    (Lts.along_and _ _ c acts hs (Lts.along_of_forall Act.Words c acts ha))
  · intro c a hc hok
    exact conStep_shift c a _ hk hc.1 hc.2 hok.2 (shifted_shiftAct a hk) hok.1
  · intro c a c' hc hok h
    exact ⟨words_step c a c' hc.1 hc.2 hok.2 h, conStep_done c c' a hc.2 h⟩

theorem words_openCon (mode : Mode) (syn : SynTuple) : Words (openCon mode syn) := by
  have hfirst : MINIP_FIRST_SEQ + 1 < 4294967296 := by decide
  refine ⟨hfirst, hfirst, hfirst, ?_, ?_, ?_⟩
  · exact fun _ h => absurd h List.not_mem_nil
  · exact fun _ h => by cases h
  · exact fun _ h => absurd h List.not_mem_nil

/- Two bytes go out as packets `10` and `11`, and the first of them is acknowledged. -/
def twoSentOneAcked : List Act :=
  [.work .tau, .work .tau, .work .tau, .work (.read [1]), .work (.skb (.xmit 0) 5), .work .tau,
    .work .tau, .work .tau, .work (.read [2]), .work (.skb (.xmit 0) 6), .work .tau,
    .recv (.ack sampleSyn.hashId 11 5) 7 (fun _ => 0)]

/- `next_seq` passes `2^32 - 1` here and nothing is compared with it. -/
theorem twoSentOneAcked_shift :
    Lts.run conStep (shiftCon 4294967284 (openCon .tcp2minip sampleSyn))
        (twoSentOneAcked.map (shiftAct 4294967284)) =
      (Lts.run conStep (openCon .tcp2minip sampleSyn) twoSentOneAcked).map (shiftCon 4294967284) :=
  conRun_shift 4294967284 (openCon .tcp2minip sampleSyn) twoSentOneAcked (by decide)
    (words_openCon .tcp2minip sampleSyn) rfl (by decide) (by decide +kernel)

/- One byte goes out as packet `10` and is acknowledged. -/
def oneSentAcked : List Act :=
  [.work .tau, .work .tau, .work .tau, .work (.read [1]), .work (.skb (.xmit 0) 5), .work .tau,
    .recv (.ack sampleSyn.hashId 11 5) 7 (fun _ => 0)]

/-- Moved by `2^32 - 11`, the packet is number `2^32 - 1`, its acknowledgement `0` passes for an
old one and the packet stays in the queue. -/
theorem oneSentAcked_wrapped :
    ((Lts.run conStep (openCon .tcp2minip sampleSyn) oneSentAcked).map fun c =>
      (c.lastAcked, c.rtxq.len)) = some (10, 0) ∧
    ((Lts.run conStep (shiftCon 4294967285 (openCon .tcp2minip sampleSyn))
        (oneSentAcked.map (shiftAct 4294967285))).map fun c =>
      (c.lastAcked, c.rtxq.len)) = some (4294967295, 1) ∧
    Lts.run conStep (shiftCon 4294967285 (openCon .tcp2minip sampleSyn))
        (oneSentAcked.map (shiftAct 4294967285)) ≠
      (Lts.run conStep (openCon .tcp2minip sampleSyn) oneSentAcked).map (shiftCon 4294967285) := by
  decide +kernel

end PepDna.Minip
