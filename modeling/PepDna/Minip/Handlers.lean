import PepDna.Minip.Connection

/-!
# Packet handlers and the retransmission timer (minip.c:293-384, 824-1082, 1142-1177)

Each handler runs to completion in softirq context, except that the handler of a
DATA packet waits inside `pepdna_sock_write`; it is cut there into
`pepdnaConMinip2iFwd` and `minip2iFinish`. `now` is `jiffies_to_msecs(jiffies)`
and `xmit` answers the calls of `dev_queue_xmit` for retransmissions. A failure
to put an ACK, DELETE or FINISHED on the wire is only logged by the code and is
the same to it as the loss of the frame.
-/

namespace PepDna.Minip

/-- `rtxq_size`. -/
def rtxqSize (c : Con) : ℕ := c.rtxq.len

/-- `rtxq_ack` on the queue of the connection; the second component is the credit. -/
def rtxqAck (c : Con) (ack : ℕ) : Con × ℕ :=
  let r := rtxqueueEntriesAck c.rtxq ack
  ({ touchRtxq c with rtxq := r.1 }, r.2)

/-- `rtxq_full_rtx`: `false` when it returned `-1`. -/
def rtxqFullRtx (c : Con) (ack now : ℕ) (xmit : ℕ → Int) : Con × Bool :=
  let r := rtxqueueEntriesRtx c.rtxq ack now xmit
  ({ touchRtxq c with rtxq := r.1, tx := c.tx ++ r.2.1.map Packet.data }, r.2.2)

def minipUpdateCwnd (c : Con) : Con :=
  let flight := u32Sub c.nextSeq c.lastAcked
  let window :=
    if WINDOW_SIZE ≥ flight then (c.window + 1) % 256
    else if c.window > 0 then c.window - 1 else c.window
  { c with window := if window > WINDOW_SIZE then WINDOW_SIZE else window }

/-- `minip_update_rto`; `m` is the C variable of type `long`. -/
def minipUpdateRto (c : Con) (newRtt : ℕ) : Con :=
  let m : Int := newRtt
  let sv : ℕ × ℕ :=
    if c.srtt ≠ 0 then
      let m := m - (c.srtt / 8 : ℕ)
      let srtt := u32OfLong (c.srtt + m)
      let m := if m < 0 then -m else m
      let m := m - (c.rttvar / 4 : ℕ)
      (srtt, u32OfLong (c.rttvar + m))
    else (u32OfLong (m * 8), u32OfLong (m * 2))
  { c with srtt := sv.1, rttvar := sv.2, rto := u32 (sv.1 / 8 + sv.2) }

/-- `minip_sender_timeout`, entered with the timer no longer pending. -/
def minipSenderTimeout (c : Con) (now : ℕ) (xmit : ℕ → Int) : Con :=
  let c := touchRtxq { c with timer := false }
  if rtxqSize c ≠ 0 then
    let c := { c with sending := false, state := .recovery }
    let r := rtxqFullRtx c (u32 (c.lastAcked + 1)) now xmit
    if r.2 then { r.1 with timer := true }
    else pepdnaConClose (transmit r.1 (.delete c.id))
  else { c with timer := true }

/-- The branch of `pepdna_minip_recv_ack` for an ACK above `last_acked`. -/
def recvNewAck (c : Con) (ack : ℕ) : Con :=
  let c := { c with dupAcks := 0, lastAcked := u32Sub ack 1 }
  let r := rtxqAck c ack
  let c := r.1
  let c := if c.state = .recovery then { c with sending := true, state := .established } else c
  let c := { c with window := (c.window + r.2) % 256 }
  let c := if rtxqSize c < WINDOW_SIZE / 2 then minipUpdateCwnd c else c
  wakeLsock c

/-- The branch of `pepdna_minip_recv_ack` for an ACK equal to `last_acked`. -/
def recvDupAck (c : Con) (ack now : ℕ) (xmit : ℕ → Int) : Con :=
  let c := { c with dupAcks := u32 (c.dupAcks + 1), state := .recovery, sending := false }
  if c.dupAcks ≠ 1 then c
  else
    let r := rtxqFullRtx c ack now xmit
    if r.2 then r.1 else pepdnaConClose (transmit r.1 (.delete c.id))

/-- The RTT sample and the timer, common to every ACK that is not old. -/
def ackSample (c : Con) (ts now : ℕ) : Con :=
  let rtt := u32Sub now ts
  let c := if ts ≠ 0 ∧ rtt ≠ 0 then minipUpdateRto c rtt else c
  { c with timer := true }

theorem ackSample_eq (c : Con) (ts now : ℕ) :
    ackSample c ts now = { c with
      srtt := (ackSample c ts now).srtt
      rttvar := (ackSample c ts now).rttvar
      rto := (ackSample c ts now).rto
      timer := true } := by
  unfold ackSample
  dsimp only
  split <;> rfl

theorem ackSample_rtxq (c : Con) (ts now : ℕ) : (ackSample c ts now).rtxq = c.rtxq := by
  rw [ackSample_eq]

theorem ackSample_lastAcked (c : Con) (ts now : ℕ) :
    (ackSample c ts now).lastAcked = c.lastAcked := by
  rw [ackSample_eq]

def pepdnaMinipRecvAck (c : Con) (ack ts now : ℕ) (xmit : ℕ → Int) : Con :=
  if ack < c.lastAcked then c
  else
    let c := ackSample c ts now
    if ack > c.lastAcked then recvNewAck c ack else recvDupAck c ack now xmit

theorem recvAck_old (c : Con) (ack ts now : ℕ) (xmit : ℕ → Int) (h : ack < c.lastAcked) :
    pepdnaMinipRecvAck c ack ts now xmit = c := by
  rw [pepdnaMinipRecvAck, if_pos h]

theorem recvAck_new (c : Con) (ack ts now : ℕ) (xmit : ℕ → Int) (h : c.lastAcked < ack) :
    pepdnaMinipRecvAck c ack ts now xmit = recvNewAck (ackSample c ts now) ack := by
  rw [pepdnaMinipRecvAck, if_neg (by omega)]
  dsimp only
  rw [if_pos (by rw [ackSample_lastAcked]; exact h)]

theorem recvAck_dup (c : Con) (ack ts now : ℕ) (xmit : ℕ → Int) (h : ack = c.lastAcked) :
    pepdnaMinipRecvAck c ack ts now xmit = recvDupAck (ackSample c ts now) ack now xmit := by
  rw [pepdnaMinipRecvAck, if_neg (by omega)]
  dsimp only
  rw [if_neg (by rw [ackSample_lastAcked]; omega)]

/-- `pepdna_minip_send_ack` with the number expected next. -/
def pepdnaMinipSendAck (c : Con) (ts : ℕ) : Con := transmit c (.ack c.id c.nextRecv ts)

/-- End of `pepdna_con_minip2i_fwd` and of `pepdna_minip_recv_data`, once `pepdna_sock_write`
returned `sent`. -/
def minip2iFinish (c : Con) (d : DataPdu) (sent : Int) : Con :=
  let c := { c with rx := none }
  if sent < 0 then
    pepdnaConClose (transmit (pepdnaMinipSendAck c d.ts) (.delete c.id))
  else
    let c := pepdnaMinipSendAck { c with nextRecv := u32 (c.nextRecv + 1) } d.ts
    -- the handler returns sdu_len, and 0 is taken for an error
    if d.sduLen = 0 then pepdnaConClose (transmit c (.delete c.id)) else c

/-- `pepdna_minip_recv_data` up to the first `kernel_sendmsg`. The frame may be padded behind the
`sdu_len` payload bytes. -/
def pepdnaConMinip2iFwd (c : Con) (d : DataPdu) : Con :=
  if d.seq = c.nextRecv then
    if c.lsock then
      let buf := d.sdu.take d.sduLen
      if buf = [] then minip2iFinish c d 0
      else { c with rx := some ⟨d, SockWrite.start buf⟩ }
    else { c with oops := true }
  else pepdnaMinipSendAck c d.ts

/-- One `kernel_sendmsg` of the DATA handler. The socket takes at most what it is offered, and
nothing once it has returned an error or was shut down. -/
def minip2iSendmsg (c : Con) (rc : Int) : Option Con :=
  match c.rx with
  | none => none
  | some r =>
    if rc ≤ r.w.rest.length ∧ (c.shut ∨ c.sockErr → rc ≤ 0) then
      let c := { c with
        wr := c.wr ++ r.w.accepted rc
        sockErr := c.sockErr || decide (rc < 0 ∧ rc ≠ -EAGAIN) }
      match pepdnaSockWriteIter r.w rc with
      | .again w => some { c with rx := some ⟨r.pdu, w⟩ }
      | .ret v => some (minip2iFinish c r.pdu v)
    else none

/-- `c` after `kernel_sendmsg` took its bytes and before the loop looks at the result. -/
def sendmsgTook (c : Con) (w : SockWrite) (rc : Int) : Con :=
  { c with
    wr := c.wr ++ w.accepted rc
    sockErr := c.sockErr || decide (rc < 0 ∧ rc ≠ -EAGAIN) }

/- The two ways a `kernel_sendmsg` of the DATA handler goes on. -/
inductive SendmsgStep (c : Con) (rc : Int) : Con → Prop
  | again (r : RxWrite) (w : SockWrite) (hx : c.rx = some r) (hd : c.shut ∨ c.sockErr → rc ≤ 0)
      (hi : pepdnaSockWriteIter r.w rc = .again w) :
      SendmsgStep c rc { sendmsgTook c r.w rc with rx := some ⟨r.pdu, w⟩ }
  | ret (r : RxWrite) (v : Int) (hx : c.rx = some r) (hd : c.shut ∨ c.sockErr → rc ≤ 0)
      (hi : pepdnaSockWriteIter r.w rc = .ret v) :
      SendmsgStep c rc (minip2iFinish (sendmsgTook c r.w rc) r.pdu v)

theorem sendmsg_lines (c c' : Con) (rc : Int) (h : minip2iSendmsg c rc = some c') :
    SendmsgStep c rc c' := by
  unfold minip2iSendmsg at h
  split at h
  · cases h
  · next r hx =>
    split at h
    · next hg =>
      split at h
      · next w hi =>
        cases h
        exact .again r w hx hg.2 hi
      · next v hi =>
        cases h
        exact .ret r v hx hg.2 hi
    · cases h

def pepdnaMinipRecvDelete (c : Con) : Con :=
  pepdnaConClose { transmit c (.finished c.id) with rflag := false }

def pepdnaMinipRecvFinished (c : Con) : Con := pepdnaConClose { c with rflag := false }

/-- `pepdna_minip_recv_response`: the stored SYN goes back to the stack. -/
def pepdnaMinipRecvResponse (c : Con) : Con :=
  { c with
    rflag := true
    lastAcked := u32 (c.lastAcked + 1)
    state := .established
    nextRecv := u32 (c.nextRecv + 1)
    syns := c.syns + 1
    synPending := true }

def Packet.id : Packet → ℕ
  | .request id .. => id
  | .response id .. => id
  | .data d => d.id
  | .ack id .. => id
  | .delete id => id
  | .finished id => id

/-- `pepdna_minip_recv_packet` on the connection `pepdna_con_find` returns. A REQUEST is not about
an existing connection: it allocates one. -/
def pepdnaMinipRecvPacket (c : Con) (p : Packet) (now : ℕ) (xmit : ℕ → Int) : Con :=
  if c.hashed ∧ p.id = c.id then
    match p with
    | .request .. => c
    | .response .. => pepdnaMinipRecvResponse c
    | .data d => pepdnaConMinip2iFwd c d
    | .ack _ ack ts => pepdnaMinipRecvAck c ack ts now xmit
    | .delete _ => pepdnaMinipRecvDelete c
    | .finished _ => pepdnaMinipRecvFinished c
  else c

/- ### The handlers, cut into parts -/

/- The end of a retransmission: the retries are used up or the device refused a packet. -/
def rtxEnd (ok : Con → Con) (id : ℕ) (r : Con × Bool) : Con :=
  if r.2 then ok r.1 else pepdnaConClose (transmit r.1 (.delete id))

def rearm (c : Con) : Con := { c with timer := true }

def recovering (c : Con) : Con :=
  { touchRtxq { c with timer := false } with sending := false, state := .recovery }

theorem minipSenderTimeout_eq (c : Con) (now : ℕ) (xmit : ℕ → Int) :
    minipSenderTimeout c now xmit =
      if c.rtxq.len ≠ 0 then
        rtxEnd rearm c.id
          (rtxqFullRtx (recovering c) (u32 (c.lastAcked + 1)) now xmit)
      else rearm (touchRtxq c) := rfl

def duplicate (c : Con) : Con :=
  { c with dupAcks := u32 (c.dupAcks + 1), state := .recovery, sending := false }

theorem recvDupAck_eq (c : Con) (ack now : ℕ) (xmit : ℕ → Int) :
    recvDupAck c ack now xmit =
      if u32 (c.dupAcks + 1) ≠ 1 then duplicate c
      else rtxEnd id c.id (rtxqFullRtx (duplicate c) ack now xmit) := rfl

def leaveRecovery (c : Con) : Con :=
  if c.state = .recovery then { c with sending := true, state := .established } else c

def addCredit (c : Con) (credit : ℕ) : Con := { c with window := (c.window + credit) % 256 }

def growWindow (c : Con) : Con := if rtxqSize c < WINDOW_SIZE / 2 then minipUpdateCwnd c else c

def advanceAck (c : Con) (ack : ℕ) : Con := { c with dupAcks := 0, lastAcked := u32Sub ack 1 }

def newAckEnd (r : Con × ℕ) : Con :=
  wakeLsock (growWindow (addCredit (leaveRecovery r.1) r.2))

theorem recvNewAck_eq (c : Con) (ack : ℕ) :
    recvNewAck c ack = newAckEnd (rtxqAck (advanceAck c ack) ack) := rfl

def received (c : Con) : Con := { c with rx := none, nextRecv := u32 (c.nextRecv + 1) }

theorem minip2iFinish_eq (c : Con) (d : DataPdu) (sent : Int) :
    minip2iFinish c d sent =
      if sent < 0 then
        pepdnaConClose (transmit (pepdnaMinipSendAck { c with rx := none } d.ts) (.delete c.id))
      else if d.sduLen = 0 then
        pepdnaConClose (transmit (pepdnaMinipSendAck (received c) d.ts) (.delete c.id))
      else pepdnaMinipSendAck (received c) d.ts := rfl

end PepDna.Minip
