import PepDna.Minip.Session

/-!
# The payload is carried, not looked at

A connection counts the bytes of its payloads and copies them, and no decision is taken by their
values. If the bytes that a socket delivers are replaced, each by its image under an injection, the
session does the same with the new bytes: `f` acts on what the near socket delivers and `g` on what
the far sockets deliver, wherever these bytes have got to. Packets have to stay apart, since the
network picks them by their contents; hence the injections.
-/

namespace PepDna.Minip

variable (f g : Byte → Byte)

def relabelPdu (d : DataPdu) : DataPdu := { d with sdu := d.sdu.map f }

def relabelPacket : Packet → Packet
  | .data d => .data (relabelPdu f d)
  | p => p

def relabelEntry (e : RtxqEntry) : RtxqEntry := { e with skb := relabelPdu f e.skb }

def relabelQueue (q : Rtxqueue) : Rtxqueue :=
  ⟨q.head.map (relabelEntry f), q.len, by rw [List.length_map, q.len_eq]⟩

def relabelPc : WorkPc → WorkPc
  | .send left sent => .send (left.map f) sent
  | .advance left sent => .advance (left.map f) sent
  | pc => pc

def relabelWrite (w : SockWrite) : SockWrite :=
  { w with done := w.done.map g, rest := w.rest.map g }

def relabelRx (r : RxWrite) : RxWrite := ⟨relabelPdu g r.pdu, relabelWrite g r.w⟩

/-- `f` acts on the bytes that the connection has read from its socket, `g` on those that came over
the network. -/
def relabelCon (c : Con) : Con :=
  { c with
    rtxq := relabelQueue f c.rtxq
    pc := relabelPc f c.pc
    rx := c.rx.map (relabelRx g)
    tx := c.tx.map (relabelPacket f)
    rd := c.rd.map f
    wr := c.wr.map g
    sdus := c.sdus.map (List.map f) }

def relabelIn : WorkIn → WorkIn
  | .read bs => .read (bs.map f)
  | i => i

def relabelAct : Act → Act
  | .work i => .work (relabelIn f i)
  | .recv p now xmit => .recv (relabelPacket g p) now xmit
  | a => a

def relabelSession (s : Session) : Session := ⟨relabelCon f g s.near, s.far.map (relabelCon g f)⟩

def relabelSessionAct : SessionAct → SessionAct
  | .near a => .near (relabelAct f g a)
  | .far i a => .far i (relabelAct g f a)
  | .toNear i p keep now xmit => .toNear i (relabelPacket g p) keep now xmit
  | .toFar p keep now xmit => .toFar (relabelPacket f p) keep now xmit
  | .loseNear p => .loseNear (relabelPacket f p)
  | .loseFar i p => .loseFar i (relabelPacket g p)

variable {f g}

/- ### Packets -/

theorem relabelPacket_id (p : Packet) : (relabelPacket f p).id = p.id := by cases p <;> rfl

theorem relabelPacket_of_ne (p : Packet) (h : p.kind ≠ .data) : relabelPacket f p = p := by
  cases p with
  | data d => exact absurd rfl h
  | _ => rfl

theorem relabelPdu_injective (hf : Function.Injective f) : Function.Injective (relabelPdu f) := by
  intro d d' h
  cases d
  cases d'
  simpa [relabelPdu, hf.list_map.eq_iff] using h

theorem relabelPacket_injective (hf : Function.Injective f) :
    Function.Injective (relabelPacket f) := by
  intro p p' h
  cases p <;> cases p' <;> simp_all [relabelPacket, (relabelPdu_injective hf).eq_iff]

/- ### Operations that do not touch a payload -/

theorem relabelCon_transmit (c : Con) (p : Packet) :
    transmit (relabelCon f g c) (relabelPacket f p) = relabelCon f g (transmit c p) := by
  simp only [transmit, relabelCon, List.map_append, List.map_cons, List.map_nil]

theorem relabelCon_put (c : Con) :
    pepdnaConPut (relabelCon f g c) = relabelCon f g (pepdnaConPut c) := by
  rw [pepdnaConPut_eq, pepdnaConPut_eq]
  rfl

theorem relabelCon_close (c : Con) :
    pepdnaConClose (relabelCon f g c) = relabelCon f g (pepdnaConClose c) := by
  rw [pepdnaConClose_eq, pepdnaConClose_eq]
  have hfull : fullClose (relabelCon f g c) = fullClose c := rfl
  rw [hfull]
  cases fullClose c <;> rfl

theorem relabelCon_ready (c : Con) :
    pepdnaL2rConnDataReady (relabelCon f g c) = relabelCon f g (pepdnaL2rConnDataReady c) := by
  rw [pepdnaL2rConnDataReady_eq, pepdnaL2rConnDataReady_eq]
  rfl

theorem relabelCon_wake (c : Con) : wakeLsock (relabelCon f g c) = relabelCon f g (wakeLsock c) := by
  unfold wakeLsock
  rw [relabelCon_ready, apply_ite (relabelCon f g)]
  rfl

theorem delete_close_relabel (c : Con) (id : ℕ) :
    pepdnaConClose (transmit (relabelCon f g c) (.delete id)) =
      relabelCon f g (pepdnaConClose (transmit c (.delete id))) := by
  rw [← relabelCon_close, ← relabelCon_transmit]
  rfl

/- ### The queue -/

theorem entriesAck_relabel (ack : ℕ) (l : List RtxqEntry) :
    entriesAck ack (l.map (relabelEntry f)) =
      ((entriesAck ack l).1.map (relabelEntry f), (entriesAck ack l).2) := by
  induction l with
  | nil => rfl
  | cons cur n ih =>
    have hseq : (relabelEntry f cur).skb.seq = cur.skb.seq := rfl
    rw [List.map_cons, entriesAck, entriesAck, ih, hseq]
    split <;> rfl

theorem entriesRtx_relabel (ack now : ℕ) (xmit : ℕ → Int) (l : List RtxqEntry) :
    entriesRtx ack now xmit (l.map (relabelEntry f)) =
      ((entriesRtx ack now xmit l).1.map (relabelEntry f),
        (entriesRtx ack now xmit l).2.1.map (relabelPdu f), (entriesRtx ack now xmit l).2.2) := by
  induction l with
  | nil => rfl
  | cons cur n ih =>
    have hseq : (relabelEntry f cur).skb.seq = cur.skb.seq := rfl
    have hretries : (relabelEntry f cur).retries = cur.retries := rfl
    rw [List.map_cons, entriesRtx, entriesRtx, ih, hseq, hretries]
    split
    · split
      · split <;> rfl
      · rfl
    · rfl

theorem rtxqAck_relabel (c : Con) (ack : ℕ) :
    rtxqAck (relabelCon f g c) ack = (relabelCon f g (rtxqAck c ack).1, (rtxqAck c ack).2) := by
  have hq : rtxqueueEntriesAck (relabelQueue f c.rtxq) ack =
      (relabelQueue f (rtxqueueEntriesAck c.rtxq ack).1, (rtxqueueEntriesAck c.rtxq ack).2) := by
    simp only [rtxqueueEntriesAck, relabelQueue, entriesAck_relabel]
  simp only [rtxqAck]
  rw [show (relabelCon f g c).rtxq = relabelQueue f c.rtxq from rfl, hq]
  rfl

theorem rtxqFullRtx_relabel (c : Con) (ack now : ℕ) (xmit : ℕ → Int) :
    rtxqFullRtx (relabelCon f g c) ack now xmit =
      (relabelCon f g (rtxqFullRtx c ack now xmit).1, (rtxqFullRtx c ack now xmit).2) := by
  have hq : rtxqueueEntriesRtx (relabelQueue f c.rtxq) ack now xmit =
      (relabelQueue f (rtxqueueEntriesRtx c.rtxq ack now xmit).1,
        (rtxqueueEntriesRtx c.rtxq ack now xmit).2.1.map (relabelPdu f),
        (rtxqueueEntriesRtx c.rtxq ack now xmit).2.2) := by
    simp only [rtxqueueEntriesRtx, relabelQueue, entriesRtx_relabel]
  simp only [rtxqFullRtx]
  rw [show (relabelCon f g c).rtxq = relabelQueue f c.rtxq from rfl, hq]
  simp only [relabelCon, touchRtxq, List.map_append, List.map_map]
  rfl

theorem push_relabel (q : Rtxqueue) (d : DataPdu) :
    rtxqueuePush (relabelQueue f q) (relabelPdu f d) = relabelQueue f (rtxqueuePush q d) := by
  simp only [rtxqueuePush, relabelQueue, List.map_append]
  rfl

/- ### The handlers -/

theorem rtxEnd_relabel (ok : Con → Con) (hok : ∀ c, ok (relabelCon f g c) = relabelCon f g (ok c))
    (id : ℕ) (r : Con × Bool) :
    rtxEnd ok id (relabelCon f g r.1, r.2) = relabelCon f g (rtxEnd ok id r) := by
  unfold rtxEnd
  rw [apply_ite (relabelCon f g), hok, delete_close_relabel]

theorem timeout_relabel (c : Con) (now : ℕ) (xmit : ℕ → Int) :
    minipSenderTimeout (relabelCon f g c) now xmit =
      relabelCon f g (minipSenderTimeout c now xmit) := by
  rw [minipSenderTimeout_eq, minipSenderTimeout_eq, apply_ite (relabelCon f g),
    show recovering (relabelCon f g c) = relabelCon f g (recovering c) from rfl,
    rtxqFullRtx_relabel, rtxEnd_relabel rearm (fun _ => rfl)]
  rfl

theorem dupAck_relabel (c : Con) (ack now : ℕ) (xmit : ℕ → Int) :
    recvDupAck (relabelCon f g c) ack now xmit = relabelCon f g (recvDupAck c ack now xmit) := by
  rw [recvDupAck_eq, recvDupAck_eq, apply_ite (relabelCon f g),
    show duplicate (relabelCon f g c) = relabelCon f g (duplicate c) from rfl,
    rtxqFullRtx_relabel, rtxEnd_relabel id (fun _ => rfl)]
  rfl

theorem updateCwnd_relabel (c : Con) :
    minipUpdateCwnd (relabelCon f g c) = relabelCon f g (minipUpdateCwnd c) := by
  have hflight : u32Sub (relabelCon f g c).nextSeq (relabelCon f g c).lastAcked =
      u32Sub c.nextSeq c.lastAcked := rfl
  unfold minipUpdateCwnd
  dsimp only
  rw [hflight]
  rfl

theorem newAckEnd_relabel (r : Con × ℕ) :
    newAckEnd (relabelCon f g r.1, r.2) = relabelCon f g (newAckEnd r) := by
  have hleave (c : Con) : leaveRecovery (relabelCon f g c) = relabelCon f g (leaveRecovery c) := by
    unfold leaveRecovery
    rw [apply_ite (relabelCon f g)]
    rfl
  have hgrow (c : Con) : growWindow (relabelCon f g c) = relabelCon f g (growWindow c) := by
    unfold growWindow
    rw [apply_ite (relabelCon f g), ← updateCwnd_relabel]
    rfl
  unfold newAckEnd
  rw [hleave, ← relabelCon_wake, ← hgrow]
  rfl

theorem recvAck_relabel (c : Con) (ack ts now : ℕ) (xmit : ℕ → Int) :
    pepdnaMinipRecvAck (relabelCon f g c) ack ts now xmit =
      relabelCon f g (pepdnaMinipRecvAck c ack ts now xmit) := by
  have hsample : ackSample (relabelCon f g c) ts now = relabelCon f g (ackSample c ts now) := by
    unfold ackSample
    dsimp only
    split <;> rfl
  have hnew (c : Con) : recvNewAck (relabelCon f g c) ack = relabelCon f g (recvNewAck c ack) := by
    rw [recvNewAck_eq, recvNewAck_eq,
      show advanceAck (relabelCon f g c) ack = relabelCon f g (advanceAck c ack) from rfl,
      rtxqAck_relabel, newAckEnd_relabel]
  unfold pepdnaMinipRecvAck
  dsimp only
  rw [hsample, hnew, dupAck_relabel, apply_ite (relabelCon f g), apply_ite (relabelCon f g)]
  rfl

theorem sendAck_relabel (c : Con) (ts : ℕ) :
    pepdnaMinipSendAck (relabelCon f g c) ts = relabelCon f g (pepdnaMinipSendAck c ts) :=
  relabelCon_transmit c (.ack c.id c.nextRecv ts)

theorem finish_relabel (c : Con) (d : DataPdu) (sent : Int) :
    minip2iFinish (relabelCon f g c) (relabelPdu g d) sent =
      relabelCon f g (minip2iFinish c d sent) := by
  have hrx : ({ relabelCon f g c with rx := none } : Con) = relabelCon f g { c with rx := none } :=
    rfl
  have hrec : received (relabelCon f g c) = relabelCon f g (received c) := rfl
  rw [minip2iFinish_eq, minip2iFinish_eq, apply_ite (relabelCon f g), apply_ite (relabelCon f g),
    hrec, sendAck_relabel, delete_close_relabel, hrx, sendAck_relabel, delete_close_relabel]
  rfl

theorem minip2iFwd_relabel (c : Con) (d : DataPdu) :
    pepdnaConMinip2iFwd (relabelCon f g c) (relabelPdu g d) =
      relabelCon f g (pepdnaConMinip2iFwd c d) := by
  have hbuf : (relabelPdu g d).sdu.take (relabelPdu g d).sduLen = (d.sdu.take d.sduLen).map g :=
    List.map_take.symm
  unfold pepdnaConMinip2iFwd
  change (if d.seq = c.nextRecv then _ else _) = _
  split
  · change (if c.lsock then _ else _) = _
    split
    · simp only [hbuf, List.map_eq_nil_iff]
      split
      · exact finish_relabel c d 0
      · rfl
    · rfl
  · exact sendAck_relabel c d.ts

theorem iter_relabel (w : SockWrite) (rc : Int) :
    pepdnaSockWriteIter (relabelWrite g w) rc =
      match pepdnaSockWriteIter w rc with
      | .again w => .again (relabelWrite g w)
      | .ret v => .ret v := by
  have hdrop : (relabelWrite g w).rest.drop rc.toNat = (w.rest.drop rc.toNat).map g :=
    List.map_drop.symm
  have hdone : (relabelWrite g w).done ++ (relabelWrite g w).accepted rc =
      (w.done ++ w.accepted rc).map g := by
    simp only [relabelWrite, SockWrite.accepted, List.map_append, List.map_take]
  unfold pepdnaSockWriteIter
  simp only [hdrop, hdone, List.map_eq_nil_iff, List.length_map]
  split
  · change (if w.count + 1 < 2 then _ else _) = _
    split <;> rfl
  · split
    · split <;> rfl
    · split <;> rfl

theorem sendmsg_relabel (c : Con) (rc : Int) :
    minip2iSendmsg (relabelCon f g c) rc = (minip2iSendmsg c rc).map (relabelCon f g) := by
  unfold minip2iSendmsg
  cases hx : c.rx with
  | none => simp [relabelCon, hx]
  | some r =>
    have hrx : (relabelCon f g c).rx = some (relabelRx g r) := by simp [relabelCon, hx]
    have hlen : (relabelRx g r).w.rest.length = r.w.rest.length := List.length_map _
    have htook : sendmsgTook (relabelCon f g c) (relabelRx g r).w rc =
        relabelCon f g (sendmsgTook c r.w rc) := by
      simp only [sendmsgTook, relabelCon, relabelRx, relabelWrite, SockWrite.accepted,
        List.map_append, List.map_take]
    rw [hrx]
    dsimp only
    rw [hlen]
    change (if rc ≤ r.w.rest.length ∧ (c.shut ∨ c.sockErr → rc ≤ 0) then
      (match pepdnaSockWriteIter (relabelWrite g r.w) rc with
      | .again w => some { sendmsgTook (relabelCon f g c) (relabelRx g r).w rc with
          rx := some ⟨relabelPdu g r.pdu, w⟩ }
      | .ret v => some (minip2iFinish (sendmsgTook (relabelCon f g c) (relabelRx g r).w rc)
          (relabelPdu g r.pdu) v)) else none) = _
    rw [htook, iter_relabel]
    split
    · cases pepdnaSockWriteIter r.w rc with
      | again w => rfl
      | ret v => exact congrArg some (finish_relabel _ _ _)
    · rfl

theorem recvPacket_relabel (c : Con) (p : Packet) (now : ℕ) (xmit : ℕ → Int) :
    pepdnaMinipRecvPacket (relabelCon f g c) (relabelPacket g p) now xmit =
      relabelCon f g (pepdnaMinipRecvPacket c p now xmit) := by
  unfold pepdnaMinipRecvPacket
  rw [relabelPacket_id, apply_ite (relabelCon f g)]
  change (if c.hashed ∧ p.id = c.id then _ else _) = _
  split
  · cases p with
    | request => rfl
    | response => rfl
    | data d => exact minip2iFwd_relabel c d
    | ack id ack ts => exact recvAck_relabel c ack ts now xmit
    | delete id =>
      change pepdnaConClose _ = relabelCon f g (pepdnaConClose _)
      rw [← relabelCon_close]
      congr 1
      exact congrArg (fun c => { c with rflag := false }) (relabelCon_transmit c (.finished c.id))
    | finished id => exact relabelCon_close { c with rflag := false }
  · rfl

/- ### The work, the set-up and the accept -/

theorem skbSend_relabel (c : Con) (buf : Bytes) (o : SkbSend) (now : ℕ) :
    pepdnaMinipSkbSend (relabelCon f g c) (buf.map f) o now =
      (relabelCon f g (pepdnaMinipSkbSend c buf o now).1, (pepdnaMinipSkbSend c buf o now).2) := by
  have hpdu : dataPdu (relabelCon f g c) (buf.map f) now = relabelPdu f (dataPdu c buf now) := by
    simp only [dataPdu, relabelPdu, List.length_map]
    rfl
  cases o with
  | xmit rc =>
    have hpush : ({ touchRtxq (relabelCon f g c) with
          rtxq := rtxqueuePush (relabelCon f g c).rtxq (relabelPdu f (dataPdu c buf now)) } : Con) =
        relabelCon f g { touchRtxq c with rtxq := rtxqueuePush c.rtxq (dataPdu c buf now) } := by
      rw [show (relabelCon f g c).rtxq = relabelQueue f c.rtxq from rfl, push_relabel]
      rfl
    have hsend := @relabelCon_transmit f g
      { touchRtxq c with rtxq := rtxqueuePush c.rtxq (dataPdu c buf now) }
      (.data (dataPdu c buf now))
    rw [← hpush] at hsend
    simp only [pepdnaMinipSkbSend, hpdu]
    exact congrArg (fun c => (c, rc)) hsend
  | _ => rfl

theorem sndData_relabel (c : Con) (left : Bytes) (sent : ℕ) (o : SkbSend) (now : ℕ) :
    sndData (relabelCon f g c) (left.map f) sent o now =
      relabelCon f g (sndData c left sent o now) := by
  unfold sndData
  dsimp only
  rw [← List.map_take, ← List.map_drop, skbSend_relabel, List.length_map]
  dsimp only
  split
  · split <;> rfl
  · simp only [relabelCon, relabelPc, List.map_append, List.map_cons, List.map_nil]

theorem sndAdvance_relabel (c : Con) (left : Bytes) (sent : ℕ) :
    sndAdvance (relabelCon f g c) (left.map f) sent = relabelCon f g (sndAdvance c left sent) := by
  cases left <;> rfl

theorem workStep_relabel (c : Con) (i : WorkIn) :
    workStep (relabelCon f g c) (relabelIn f i) = (workStep c i).map (relabelCon f g) := by
  have hpc : (relabelCon f g c).pc = relabelPc f c.pc := rfl
  have hjump (b : Prop) [Decidable b] (pc pc' : WorkPc) (h : relabelPc f pc = pc)
      (h' : relabelPc f pc' = pc') :
      some { relabelCon f g c with pc := if b then pc else pc' } =
        some (relabelCon f g { c with pc := if b then pc else pc' }) := by
    simp only [relabelCon, apply_ite (relabelPc f), h, h']
  unfold workStep
  rw [hpc]
  cases c.pc with
  | idle =>
    cases i with
    | tau =>
      change (if c.pending then _ else _) = Option.map _ (if c.pending then _ else _)
      split <;> rfl
    | _ => rfl
  | test =>
    cases i with
    | tau => exact hjump (c.lflag = true) .canSend .put rfl rfl
    | _ => rfl
  | canSend =>
    cases i with
    | tau => exact hjump (canSend c = true) (.recvmsg (MINIP_MSS * c.window)) .put rfl rfl
    | _ => rfl
  | recvmsg howMuch =>
    cases i with
    | nomem => rfl
    | read bs =>
      simp only [relabelIn, relabelPc, ne_eq, List.map_eq_nil_iff, List.length_map]
      split
      · simp only [Option.map_some, relabelCon, relabelPc, List.map_append]
      · rfl
    | recvRet rc =>
      change (if rc ≤ 0 then _ else _) = Option.map _ (if rc ≤ 0 then _ else _)
      split
      · exact hjump (rc = -EAGAIN) .put (.delete rc) rfl rfl
      · rfl
    | _ => rfl
  | send left sent =>
    cases i with
    | skb o now => exact congrArg some (sndData_relabel c left sent o now)
    | _ => rfl
  | advance left sent =>
    cases i with
    | tau => exact congrArg some (sndAdvance_relabel c left sent)
    | _ => rfl
  | delete rc =>
    cases i with
    | tau =>
      exact congrArg (fun c => some { c with pc := .close }) (relabelCon_transmit c (.delete c.id))
    | _ => rfl
  | close =>
    cases i with
    | tau => exact congrArg (fun c => some { c with pc := .test }) (relabelCon_close c)
    | _ => rfl
  | put =>
    cases i with
    | tau => exact congrArg some (relabelCon_put { c with pc := .idle })
    | _ => rfl

theorem tcfaStep_relabel (c : Con) (rc : Int) (now : ℕ) :
    tcfaStep (relabelCon f g c) rc now = (tcfaStep c rc now).map (relabelCon f g) := by
  have hmode : (relabelCon f g c).mode = c.mode := rfl
  have htcfa : (relabelCon f g c).tcfa = c.tcfa := rfl
  have hclose (t : TcfaPc) : ({ pepdnaConClose (relabelCon f g c) with tcfa := t } : Con) =
      relabelCon f g { pepdnaConClose c with tcfa := t } :=
    congrArg (fun c => { c with tcfa := t }) (relabelCon_close c)
  have hsend (p : Packet) (t : TcfaPc) (hp : p.kind ≠ .data) :
      ({ transmit (relabelCon f g c) p with tcfa := t } : Con) =
        relabelCon f g { transmit c p with tcfa := t } := by
    have h := @relabelCon_transmit f g c p
    rw [relabelPacket_of_ne p hp] at h
    exact congrArg (fun c => { c with tcfa := t }) h
  unfold tcfaStep
  rw [hmode, htcfa]
  split
  · refine congrArg some ?_
    rw [apply_ite (relabelCon f g), hclose]
    exact congrArg _ (hsend _ _ (by simp [Packet.kind]))
  · rfl
  · refine congrArg some ?_
    rw [apply_ite (relabelCon f g), hclose]
    rfl
  · refine congrArg some ?_
    rw [apply_ite (relabelCon f g), hclose]
    exact congrArg _ (hsend _ _ (by simp [Packet.kind]))
  · rfl
  · rfl
  · rfl
  · exact congrArg (fun c => some { c with tcfa := .done }) (relabelCon_wake c)
  · rfl

theorem accept_relabel (c : Con) :
    pepdnaTcpAccept (relabelCon f g c) = (pepdnaTcpAccept c).map (relabelCon f g) := by
  unfold pepdnaTcpAccept
  change (if c.synPending then _ else _) = _
  split
  · refine congrArg some ?_
    change (if c.hashed then _ else _) = _
    rw [apply_ite (relabelCon f g), ← relabelCon_wake]
    rfl
  · rfl

/-- A step of a connection, and the step with other bytes. -/
theorem conStep_relabel (c : Con) (a : Act) :
    conStep (relabelCon f g c) (relabelAct f g a) = (conStep c a).map (relabelCon f g) := by
  cases a with
  | tcfa rc now => exact tcfaStep_relabel c rc now
  | accept => exact accept_relabel c
  | dataReady =>
    simp only [relabelAct, conStep]
    change (if c.lsock then _ else _) = _
    split
    · exact congrArg some (relabelCon_ready c)
    · rfl
  | work i => exact workStep_relabel c i
  | timeout now xmit =>
    simp only [relabelAct, conStep]
    change (if c.timer then _ else _) = _
    split
    · exact congrArg some (timeout_relabel c now xmit)
    · rfl
  | recv p now xmit =>
    have hrx : (relabelCon f g c).rx = none ↔ c.rx = none := Option.map_eq_none_iff
    simp only [relabelAct, conStep, hrx]
    split
    · exact congrArg some (recvPacket_relabel c p now xmit)
    · rfl
  | sendmsg rc => exact sendmsg_relabel c rc

/- ### The session -/

theorem conFind_relabel (cons : List Con) (key : ℕ) :
    pepdnaConFind (cons.map (relabelCon f g)) key = pepdnaConFind cons key := by
  unfold pepdnaConFind
  rw [List.findIdx?_map]
  rfl

theorem farRecvPacket_eq (cons : List Con) (p : Packet) (now : ℕ) (xmit : ℕ → Int)
    (hk : p.kind ≠ .request) :
    farRecvPacket cons p now xmit = (pepdnaConFind cons p.id).elim (some cons) fun i =>
      (cons[i]?).bind fun c => (conStep c (.recv p now xmit)).map (cons.set i) := by
  unfold farRecvPacket
  split
  · exact absurd rfl hk
  · cases pepdnaConFind cons p.id <;> rfl

theorem farRecvPacket_relabel (cons : List Con) (p : Packet) (now : ℕ) (xmit : ℕ → Int) :
    farRecvPacket (cons.map (relabelCon f g)) (relabelPacket g p) now xmit =
      (farRecvPacket cons p now xmit).map (List.map (relabelCon f g)) := by
  by_cases hk : p.kind = .request
  · cases p with
    | request => rfl
    | _ => cases hk
  · have hk' : (relabelPacket g p).kind ≠ .request := by
      cases p with
      | data => exact hk
      | _ => exact hk
    rw [farRecvPacket_eq cons p now xmit hk, farRecvPacket_eq _ _ now xmit hk', relabelPacket_id,
      conFind_relabel]
    cases pepdnaConFind cons p.id with
    | none => rfl
    | some i =>
      simp only [Option.elim_some, List.getElem?_map]
      cases cons[i]? with
      | none => rfl
      | some b =>
        have hstep := @conStep_relabel f g b (.recv p now xmit)
        simp only [relabelAct] at hstep
        simp only [Option.map_some, Option.bind_some, hstep, Option.map_map]
        congr 1
        funext c
        exact List.map_set.symm

section Network

variable (hf : Function.Injective f) (hg : Function.Injective g)

include hf in
theorem unsend_relabel (c : Con) (p : Packet) :
    unsend (relabelCon f g c) (relabelPacket f p) = relabelCon f g (unsend c p) := by
  simp only [unsend, relabelCon, List.map_erase (relabelPacket_injective hf)]

include hf in
theorem delivered_relabel (c : Con) (p : Packet) (keep : Bool) :
    delivered (relabelCon f g c) (relabelPacket f p) keep = relabelCon f g (delivered c p keep) := by
  unfold delivered
  rw [unsend_relabel hf, apply_ite (relabelCon f g)]

include hf in
theorem mem_tx_relabel (c : Con) (p : Packet) :
    relabelPacket f p ∈ (relabelCon f g c).tx ↔ p ∈ c.tx :=
  List.mem_map_of_injective (relabelPacket_injective hf)

theorem relabelAct_isRecv (a : Act) : (relabelAct f g a).isRecv = a.isRecv := by cases a <;> rfl

include hf hg in
theorem sessionStep_relabel (s : Session) (a : SessionAct) :
    sessionStep (relabelSession f g s) (relabelSessionAct f g a) =
      (sessionStep s a).map (relabelSession f g) := by
  have hfar (i : ℕ) : (relabelSession f g s).far[i]? = (s.far[i]?).map (relabelCon g f) :=
    List.getElem?_map ..
  have hset (i : ℕ) (c : Con) :
      (relabelSession f g s).far.set i (relabelCon g f c) = (s.far.set i c).map (relabelCon g f) :=
    List.map_set.symm
  cases a with
  | near a =>
    simp only [relabelSessionAct, sessionStep, relabelAct_isRecv]
    split
    · rfl
    · rw [show (relabelSession f g s).near = relabelCon f g s.near from rfl, conStep_relabel,
        Option.map_map, Option.map_map]
      rfl
  | far i a =>
    simp only [relabelSessionAct, sessionStep, relabelAct_isRecv, hfar]
    split
    · rfl
    · cases s.far[i]? with
      | none => rfl
      | some b =>
        simp only [Option.map_some, Option.bind_some, conStep_relabel, Option.map_map]
        congr 1
        funext c
        exact congrArg (Session.mk _) (hset i c)
  | toNear i p keep now xmit =>
    simp only [relabelSessionAct, sessionStep, hfar]
    cases s.far[i]? with
    | none => rfl
    | some b =>
      have hstep := @conStep_relabel f g s.near (.recv p now xmit)
      simp only [relabelAct] at hstep
      simp only [Option.map_some, Option.bind_some, mem_tx_relabel hg, delivered_relabel hg]
      split
      · rw [show (relabelSession f g s).near = relabelCon f g s.near from rfl, hstep,
          Option.map_map, Option.map_map, hset]
        rfl
      · rfl
  | toFar p keep now xmit =>
    simp only [relabelSessionAct, sessionStep, relabelSession, mem_tx_relabel hf]
    split
    · rw [farRecvPacket_relabel, delivered_relabel hf, Option.map_map, Option.map_map]
      rfl
    · rfl
  | loseNear p =>
    simp only [relabelSessionAct, sessionStep, relabelSession, mem_tx_relabel hf]
    split
    · rw [unsend_relabel hf]
      rfl
    · rfl
  | loseFar i p =>
    simp only [relabelSessionAct, sessionStep, hfar]
    cases s.far[i]? with
    | none => rfl
    | some b =>
      simp only [Option.map_some, Option.bind_some, mem_tx_relabel hg, unsend_relabel hg]
      split
      · rw [hset]
        rfl
      · rfl

end Network

end PepDna.Minip
