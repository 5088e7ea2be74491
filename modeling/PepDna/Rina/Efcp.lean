import PepDna.Basic
import PepDna.Lts

/-!
# A connection of the IPC process: DTP and DTCP
(dtp.c:298-377, 549-645, 1218-1484, 1486-1769, dtp-utils.c:178-328, 345-765, dtcp.c:188-712,
802-825, 1256-1325 and the default policies in dtp-ps-default.c and dtcp-ps-default.c)

One direction of a connection of the normal IPC process, under the RINA flow that the proxy reads
and writes: `dtp_write` numbers the PDUs, those beyond the right window edge wait in the closed
window queue, copies of the others in the retransmission queue; `dtp_receive` hands them over, or
puts those that come early into the sequencing queue.

DTCP is present, flow control is by window or there is none: connections with rate based flow
control, where `tf_rate_window` sends too, are not modelled. Of the round trip estimator there is
the estimate `tr`, which is an input, and the acknowledgements it makes the sender ignore. Timers
can be started and memory is there. A handler is one step. Time is in jiffies.
-/

namespace PepDna.Rina.Efcp

/-- A data transfer PDU; `drf` is `PDU_FLAGS_DATA_RUN`. -/
structure Pdu where
  seq : ℕ
  drf : Bool
  data : Bytes
  deriving Repr, DecidableEq

/-- The part of the QoS cube that the code reads; `a` is the initial A timer. -/
structure Config where
  a : ℕ
  maxSduGap : ℕ
  rtxCtrl : Bool
  windowBased : Bool
  initialCredit : ℕ
  dataRetransmitMax : ℕ
  deriving Repr, DecidableEq

/-- `dtcp_create` sets `max_closed_winq_length` to 1, whatever the cube has for it. -/
def Config.maxClosedWinq (cfg : Config) : ℕ := if cfg.windowBased then 1 else 0

inductive CtrlType where
  | ack
  | fc
  | ackAndFc
  | rendezvous
  deriving Repr, DecidableEq

/-- A control PDU: its own number, the acknowledged one, the receiver's right window edge and the
left edge of the sender (`ack_seq_num`, `new_rt_wind_edge`, `my_left_wind_edge`). -/
structure Ctrl where
  type : CtrlType
  sn : ℕ
  ack : ℕ
  newRt : ℕ
  myLft : ℕ
  deriving Repr, DecidableEq

def Ctrl.acks (c : Ctrl) : Bool := c.type = .ack ∨ c.type = .ackAndFc

/-! ### The sequencing queue -/

structure Entry where
  pdu : Pdu
  timeStamp : ℕ
  deriving Repr, DecidableEq

/-- What `seq_queue_push_ni` does with the new entry: `leaked` where it is in no list in the end. -/
inductive Push where
  | queued
  | destroyed
  | leaked
  deriving Repr, DecidableEq

/-- The loop from the head, which adds the entry behind the first one with a smaller number. -/
def pushMiddle (e : Entry) : List Entry → Push × List Entry
  | [] => (.leaked, [])
  | cur :: q =>
    if e.pdu.seq = cur.pdu.seq then (.destroyed, cur :: q)
    else if e.pdu.seq > cur.pdu.seq then (.queued, cur :: e :: q)
    else ((pushMiddle e q).1, cur :: (pushMiddle e q).2)

def seqQueuePushNi (q : List Entry) (e : Entry) : Push × List Entry :=
  match q.getLast? with
  | none => (.queued, [e])
  | some last =>
    if e.pdu.seq = last.pdu.seq then (.destroyed, q)
    else if e.pdu.seq > last.pdu.seq then (.queued, q ++ [e])
    else pushMiddle e q

/-- What a walk over the queue takes from it: the PDUs to post, the left window edge after them and
the rest of the queue. -/
structure Taken where
  post : List Pdu
  lwe : ℕ
  rest : List Entry
  deriving Repr, DecidableEq

def Taken.cons (e : Entry) (t : Taken) : Taken := { t with post := e.pdu :: t.post }

/-- `while (are_there_pdus(..)) seq_queue_pop(..)`. -/
def popRun (lwe : ℕ) : List Entry → Taken
  | [] => ⟨[], lwe, []⟩
  | e :: q => if e.pdu.seq = u32 (lwe + 1) then (popRun e.pdu.seq q).cons e else ⟨[], lwe, e :: q⟩

/-- The loop of `process_A_expiration`. -/
def expire (cfg : Config) (now lwe : ℕ) : List Entry → Taken
  | [] => ⟨[], lwe, []⟩
  | e :: q =>
    let expired := decide (e.timeStamp + cfg.a ≤ now)
    if expired || decide (u32Sub (u32Sub e.pdu.seq lwe) 1 ≤ cfg.maxSduGap) then
      if expired && cfg.rtxCtrl then expire cfg now lwe q
      else (expire cfg now e.pdu.seq q).cons e
    else ⟨[], lwe, e :: q⟩

/-! ### The receiver -/

/-- The places of the ring `to_post`. What it does not take is lost: nobody looks at what
`ringq_push` returns. -/
def TO_POST_LENGTH : ℕ := 1000

/-- The receiver's part of the two state vectors. The other fields are history: the PDUs that the
left edge has passed since the last PDU with the flag was awaited, and those of the data runs
before; what of them was handed over, and what a full `to_post` did not take; the PDUs the
sequencing queue has lost, those dropped for the flow control, whether a PDU was read after its
destruction, whether the A timer has dereferenced NULL, and the acknowledgements sent. -/
structure Rcv where
  lwe : ℕ
  rwe : ℕ
  drfRequired : Bool
  rendezvous : Bool
  seqq : List Entry
  nextCtl : ℕ
  lastAck : ℕ
  lastCtl : ℕ
  passed : List Pdu
  passedRuns : List (List Pdu)
  posted : List Pdu
  runs : List (List Pdu)
  unposted : List Pdu
  leaked : List Pdu
  overrun : List Pdu
  uaf : Bool
  oops : Bool
  acked : List ℕ
  deriving Repr, DecidableEq

/-- `default_sv` of both files, with `rcvr_rt_wind_edge` as `dtcp_sv_init` sets it. -/
def Rcv.init (cfg : Config) : Rcv where
  lwe := 0
  rwe := if cfg.windowBased then cfg.initialCredit else 100
  drfRequired := true
  rendezvous := false
  seqq := []
  nextCtl := 0
  lastAck := 0
  lastCtl := 0
  passed := []
  passedRuns := []
  posted := []
  runs := []
  unposted := []
  leaked := []
  overrun := []
  uaf := false
  oops := false
  acked := []

/-- The left edge and the queue after a walk. The PDUs it took go to `to_post`, which has `room` for
them, and are handed over from there before the handler ends. -/
def Rcv.takeIn (r : Rcv) (room : ℕ) (t : Taken) : Rcv :=
  { r with
    lwe := t.lwe
    seqq := t.rest
    passed := r.passed ++ t.post
    posted := r.posted ++ t.post.take room
    unposted := r.unposted ++ t.post.drop room }

def Rcv.take (r : Rcv) (t : Taken) : Rcv := r.takeIn TO_POST_LENGTH t

/-- `pdu_ctrl_generate` and its sending. -/
def Rcv.ctrl (r : Rcv) (type : CtrlType) : Rcv × Ctrl :=
  let r := { r with nextCtl := u32 (r.nextCtl + 1) }
  let c : Ctrl := ⟨type, r.nextCtl, r.lwe, r.rwe, 0⟩
  ({ r with acked := if c.acks then r.acked ++ [c.ack] else r.acked }, c)

/-- `default_rcvr_ack`: `pdu_ctrl_type_get` gives no type unless the left edge has moved. -/
def rcvrAck (cfg : Config) (r : Rcv) : Rcv × List Ctrl :=
  if r.lastAck < r.lwe then
    let r := { r with lastAck := r.lwe }
    let x := r.ctrl (if cfg.windowBased then .ackAndFc else .ack)
    (x.1, [x.2])
  else (r, [])

def dtcpSvUpdate (cfg : Config) (r : Rcv) : Rcv × List Ctrl :=
  -- default_rcvr_flow_control
  let r := if cfg.windowBased then { r with rwe := u32 (r.lwe + cfg.initialCredit) } else r
  if cfg.rtxCtrl then rcvrAck cfg r
  else if cfg.windowBased then
    let x := r.ctrl .fc
    (x.1, [x.2])
  else (r, [])

/-- The first PDU of a data run, in `dtp_receive`. -/
def startRun (cfg : Config) (r : Rcv) (du : Pdu) : Rcv × List Ctrl :=
  let r := { r with drfRequired := false, lwe := du.seq, seqq := [] }
  let x := dtcpSvUpdate cfg r
  ({ x.1 with
    passedRuns := x.1.passedRuns ++ [x.1.passed]
    passed := [du]
    runs := x.1.runs ++ [x.1.posted]
    posted := [du] }, x.2)

/-- `dtp_receive` of an acceptable PDU when there is no A timer. -/
def receiveNow (cfg : Config) (r : Rcv) (du : Pdu) : Rcv × List Ctrl :=
  let setLftWinEdge := !(cfg.rtxCtrl && decide (u32Sub du.seq r.lwe > u32 (cfg.maxSduGap + 1)))
  dtcpSvUpdate cfg (if setLftWinEdge then r.take ⟨[du], du.seq, r.seqq⟩ else r)

/-- The sequencing queue at `dtp_receive` of an acceptable PDU. -/
def sequence (now : ℕ) (r : Rcv) (du : Pdu) : Rcv :=
  if du.seq = u32 (r.lwe + 1) then r.take ⟨[du], du.seq, r.seqq⟩
  else
    let x := seqQueuePushNi r.seqq ⟨du, now⟩
    { r with
      seqq := x.2
      leaked := if x.1 = .leaked then r.leaked ++ [du] else r.leaked
      -- `du->pci` is read below unless a PDU popped from the queue has taken its place
      uaf := r.uaf || (decide (x.1 = .destroyed) && (popRun r.lwe x.2).post.isEmpty) }

def receiveSequenced (cfg : Config) (now : ℕ) (r : Rcv) (du : Pdu) : Rcv × List Ctrl :=
  let room := if du.seq = u32 (r.lwe + 1) then TO_POST_LENGTH - 1 else TO_POST_LENGTH
  let r := sequence now r du
  dtcpSvUpdate cfg (r.takeIn room (popRun r.lwe r.seqq))

def isFcOverrun (cfg : Config) (r : Rcv) (du : Pdu) : Bool := cfg.windowBased && du.seq > r.rwe

def dtpReceive (cfg : Config) (now : ℕ) (r : Rcv) (du : Pdu) : Rcv × List Ctrl :=
  if r.drfRequired then
    if du.drf then startRun cfg r du else (r, [])
  else if du.seq ≤ r.lwe then (r, [])
  else if isFcOverrun cfg r du then ({ r with overrun := r.overrun ++ [du] }, [])
  else
    let r := { r with rendezvous := false }
    if cfg.a = 0 then receiveNow cfg r du else receiveSequenced cfg now r du

/-- `tf_a`, by way of `default_sending_ack`. If nothing was posted, `process_A_expiration` calls
`pci_get` with NULL. -/
def aTimer (cfg : Config) (now : ℕ) (r : Rcv) : Rcv × List Ctrl :=
  let t := expire cfg now r.lwe r.seqq
  if t.post = [] then ({ r.take t with oops := true }, []) else dtcpSvUpdate cfg (r.take t)

def receiverInactivity (r : Rcv) : Rcv :=
  { r with rwe := 0, lwe := 0, seqq := [], rendezvous := false, drfRequired := true }

/-- `dtcp_common_rcv_control` and `default_rcvr_rendezvous`, for the sender's rendezvous PDU. -/
def rcvrRendezvous (cfg : Config) (r : Rcv) (c : Ctrl) : Rcv × List Ctrl :=
  if c.sn ≤ r.lastCtl then (r, [])
  else
    let r := { r with lastCtl := c.sn, rendezvous := true }
    let r := if cfg.windowBased then { r with rwe := u32 (c.myLft + cfg.initialCredit) } else r
    let x := r.ctrl .fc
    (x.1, [x.2])

/-- `tf_rendezvous_rcv`. -/
def rendezvousRcv (r : Rcv) : Rcv × List Ctrl :=
  if r.rendezvous then
    let x := r.ctrl .fc
    (x.1, [x.2])
  else (r, [])

/-! ### The sender -/

structure RtxEntry where
  pdu : Pdu
  timeStamp : ℕ
  retries : ℕ
  deriving Repr, DecidableEq

/-- The sender's part. `written` is history: all PDUs of `dtp_write`; so is `dropped`: those given
up after `data_retransmit_max` retransmissions or for want of a place in the retransmission
queue. -/
structure Snd where
  seqNrToSend : ℕ
  maxSeqNrSent : ℕ
  sndLftWin : ℕ
  sndRtWindEdge : ℕ
  drfFlag : Bool
  rendezvous : Bool
  writable : Bool
  cwq : List Pdu
  rtxq : List RtxEntry
  nextCtl : ℕ
  lastCtl : ℕ
  written : List Pdu
  dropped : List Pdu
  deriving Repr, DecidableEq

/-- With the initial sequence number `seq`, which is random. -/
def Snd.init (cfg : Config) (seq : ℕ) : Snd where
  seqNrToSend := seq
  maxSeqNrSent := seq
  sndLftWin := 0
  sndRtWindEdge := if cfg.windowBased then u32 (cfg.initialCredit + seq) else 100
  drfFlag := true
  rendezvous := false
  writable := true
  cwq := []
  rtxq := []
  nextCtl := 0
  lastCtl := 0
  written := []
  dropped := []

/-- The loop of `rtxqueue_push_ni`, `none` where it fails. -/
def rtxPushMiddle (e : RtxEntry) : List RtxEntry → Option (List RtxEntry)
  | [] => none
  | cur :: q =>
    if e.pdu.seq = cur.pdu.seq then none
    else if e.pdu.seq > cur.pdu.seq then some (cur :: e :: q)
    else (rtxPushMiddle e q).map (cur :: ·)

def rtxqueuePushNi (q : List RtxEntry) (e : RtxEntry) : Option (List RtxEntry) :=
  match q.getLast? with
  | none => some [e]
  | some last =>
    if e.pdu.seq = last.pdu.seq then none
    else if e.pdu.seq > last.pdu.seq then some (q ++ [e])
    else rtxPushMiddle e q

/-- `default_transmission_control` and the same lines in `cwq_deliver`, up to `dtp_pdu_send`. -/
def Snd.sent (s : Snd) (du : Pdu) : Snd := { s with maxSeqNrSent := du.seq, sndLftWin := du.seq }

/-- `default_closed_window` and `default_snd_flow_control_overrun`. -/
def closedWindow (cfg : Config) (s : Snd) (du : Pdu) : Snd :=
  if cfg.maxClosedWinq ≠ 0 ∧ s.cwq.length < cfg.maxClosedWinq - 1 then
    { s with cwq := s.cwq ++ [du] }
  else { s with cwq := s.cwq ++ [du], writable := false }

/-- The rendezvous state is entered unless there are PDUs to retransmit. -/
def awaitCredit (cfg : Config) (s : Snd) : Snd :=
  if cfg.rtxCtrl && !s.rtxq.isEmpty then s else { s with rendezvous := true }

/-- `dtp_write` where the window is open; what is in the list goes to the RMT. -/
def transmit (cfg : Config) (now : ℕ) (s : Snd) (du : Pdu) : Snd × List Pdu :=
  if cfg.rtxCtrl then
    match rtxqueuePushNi s.rtxq ⟨du, now, 0⟩ with
    | none => ({ s with dropped := s.dropped ++ [du] }, [])
    | some q => ({ s with rtxq := q }.sent du, [du])
  else (s.sent du, [du])

def dtpWrite (cfg : Config) (now : ℕ) (s : Snd) (data : Bytes) : Snd × List Pdu :=
  let csn := u32 (s.seqNrToSend + 1)
  let drf := s.drfFlag || (decide (s.sndLftWin = u32Sub csn 1) && cfg.rtxCtrl)
  let du : Pdu := ⟨csn, drf, data⟩
  let s := { s with seqNrToSend := csn, written := s.written ++ [du] }
  if cfg.windowBased && csn > s.sndRtWindEdge then (awaitCredit cfg (closedWindow cfg s du), [])
  else transmit cfg now s du

/-- The loop of `cwq_deliver`, which does not look at what `rtxq_push_ni` returns. -/
def cwqLoop (cfg : Config) (now : ℕ) (s : Snd) : List Pdu → Snd × List Pdu
  | [] => ({ s with cwq := [] }, [])
  | du :: q =>
    if cfg.windowBased && s.maxSeqNrSent < s.sndRtWindEdge then
      let rtxq :=
        if cfg.rtxCtrl then (rtxqueuePushNi s.rtxq ⟨du, now, 0⟩).getD s.rtxq else s.rtxq
      let x := cwqLoop cfg now ({ s with rtxq }.sent du) q
      (x.1, du :: x.2)
    else ({ s with cwq := du :: q }, [])

def cwqDeliver (cfg : Config) (now : ℕ) (s : Snd) : Snd × List Pdu :=
  let x := cwqLoop cfg now s s.cwq
  if x.1.cwq = [] ∧ 0 < cfg.maxClosedWinq then ({ x.1 with writable := true }, x.2) else x

/-- `MAX_RTX_WAIT_TIME`, for a clock of 1000 ticks a second. -/
def maxRtxWaitTime : ℕ := 60000

def timeToRtx (tr : ℕ) (e : RtxEntry) : ℕ :=
  e.timeStamp + min ((1 + e.retries * e.retries) * tr) maxRtxWaitTime

/-- The loop of `rtxqueue_rtx`: what stays in the queue, what is sent again and what is given up. -/
def rtxLoop (cfg : Config) (tr now : ℕ) : List RtxEntry → List RtxEntry × List Pdu × List Pdu
  | [] => ([], [], [])
  | e :: q =>
    if timeToRtx tr e ≤ now then
      let x := rtxLoop cfg tr now q
      if cfg.dataRetransmitMax ≤ e.retries + 1 then (x.1, x.2.1, e.pdu :: x.2.2)
      else ({ e with retries := e.retries + 1 } :: x.1, e.pdu :: x.2.1, x.2.2)
    else (e :: q, [], [])

/-- `rtx_timer_func`. -/
def rtxTimer (cfg : Config) (tr now : ℕ) (s : Snd) : Snd × List Pdu :=
  let x := rtxLoop cfg tr now s.rtxq
  let s := { s with rtxq := x.1, dropped := s.dropped ++ x.2.2 }
  if x.2.2 = [] then (s, x.2.1)
  else
    let s := { s with sndLftWin := max s.sndLftWin ((x.2.2.map Pdu.seq).foldl max 0) }
    if s.rtxq = [] ∧ s.cwq.length = cfg.maxClosedWinq then ({ s with rendezvous := true }, x.2.1)
    else (s, x.2.1)

/-- `rtxqueue_entry_timestamp` finds the PDU; if it does not, the estimator answers `-1`. -/
def rtxqFinds (sn : ℕ) : List RtxEntry → Bool
  | [] => false
  | e :: q => if e.pdu.seq > sn then false else if e.pdu.seq = sn then true else rtxqFinds sn q

/-- `default_sender_ack`. -/
def senderAck (cfg : Config) (s : Snd) (seq : ℕ) : Snd :=
  if cfg.rtxCtrl then
    { s with rtxq := s.rtxq.dropWhile (·.pdu.seq ≤ seq), sndLftWin := u32 (seq + 1) }
  else s

def updateWindow (cfg : Config) (now : ℕ) (s : Snd) (c : Ctrl) : Snd × List Pdu :=
  let s := if cfg.windowBased then { s with sndRtWindEdge := c.newRt } else s
  cwqDeliver cfg now { s with rendezvous := false }

/-- `dtcp_common_rcv_control` at the sender. -/
def rcvControl (cfg : Config) (now : ℕ) (s : Snd) (c : Ctrl) : Snd × List Pdu :=
  if c.sn ≤ s.lastCtl then (s, [])
  else
    let s := { s with lastCtl := c.sn }
    match c.type with
    | .ack =>
      if cfg.rtxCtrl && !rtxqFinds c.ack s.rtxq then (s, []) else (senderAck cfg s c.ack, [])
    | .ackAndFc =>
      if cfg.rtxCtrl && !rtxqFinds c.ack s.rtxq then (s, [])
      else updateWindow cfg now (senderAck cfg s c.ack) c
    | .fc => updateWindow cfg now s c
    -- the sender's side of a connection gets no rendezvous PDUs in this direction
    | .rendezvous => (s, [])

/-- `tf_rendezvous`. -/
def rendezvousSnd (s : Snd) : Snd × List Ctrl :=
  if s.rendezvous then
    let sn := u32 (s.nextCtl + 1)
    ({ s with nextCtl := sn }, [⟨.rendezvous, sn, 0, 0, s.sndLftWin⟩])
  else (s, [])

def senderInactivity (cfg : Config) (s : Snd) (seq : ℕ) : Snd :=
  { s with
    seqNrToSend := seq
    drfFlag := true
    sndRtWindEdge := u32 (seq + cfg.initialCredit)
    rendezvous := false
    rtxq := if cfg.rtxCtrl then [] else s.rtxq
    cwq := if cfg.windowBased then [] else s.cwq }

/-! ### Both ends and the network between them -/

/-- `wire`, `ctrls` and `rvs` are all that was ever sent: each may come, at any time and any number
of times, or never. -/
structure Peers where
  snd : Snd
  rcv : Rcv
  wire : List Pdu
  ctrls : List Ctrl
  rvs : List Ctrl
  deriving Repr, DecidableEq

def Peers.init (cfg : Config) (seq : ℕ) : Peers := ⟨Snd.init cfg seq, Rcv.init cfg, [], [], []⟩

inductive Act where
  | write (data : Bytes) (now : ℕ)
  | rtx (tr now : ℕ)
  | data (i now : ℕ)
  | ctrl (i now : ℕ)
  | a (now : ℕ)
  | rendezvousSnd
  | rendezvous (i : ℕ)
  | rendezvousRcv
  | receiverInactivity
  | senderInactivity (seq : ℕ)
  deriving Repr, DecidableEq

def Peers.sends (p : Peers) (x : Snd × List Pdu) : Peers :=
  { p with snd := x.1, wire := p.wire ++ x.2 }

def Peers.answers (p : Peers) (x : Rcv × List Ctrl) : Peers :=
  { p with rcv := x.1, ctrls := p.ctrls ++ x.2 }

def peersStep (cfg : Config) (p : Peers) : Act → Option Peers
  | .write data now => some (p.sends (dtpWrite cfg now p.snd data))
  | .rtx tr now => some (p.sends (rtxTimer cfg tr now p.snd))
  | .data i now => p.wire[i]?.map fun du => p.answers (dtpReceive cfg now p.rcv du)
  | .ctrl i now => p.ctrls[i]?.map fun c => p.sends (rcvControl cfg now p.snd c)
  | .a now => some (p.answers (aTimer cfg now p.rcv))
  | .rendezvousSnd =>
    let x := rendezvousSnd p.snd
    some { p with snd := x.1, rvs := p.rvs ++ x.2 }
  | .rendezvous i => p.rvs[i]?.map fun c => p.answers (rcvrRendezvous cfg p.rcv c)
  | .rendezvousRcv => some (p.answers (rendezvousRcv p.rcv))
  | .receiverInactivity => some { p with rcv := receiverInactivity p.rcv }
  | .senderInactivity seq => some { p with snd := senderInactivity cfg p.snd seq }

end PepDna.Rina.Efcp
