import PepDna.Minip.Handlers

/-!
# The forwarding work, connection set-up and the steps of one connection
(minip.c:571-822, 1084-1206, tcp_connect.c:155-185, tcp_listen.c:118-173)

`pepdna_con_i2m_work` runs in process context and is overtaken by handlers and
the timer, so it is a machine with a program counter. Its steps are not single
accesses: the test of `sending` and `window` is one with the computation of the
buffer size from `window`, and the two stores to `next_seq` and `window` behind a
packet are one. `conStep` is one step of everything that can happen to one
connection.
-/

namespace PepDna.Minip

/-- How far `pepdna_minip_skb_send` got. -/
inductive SkbSend where
  | allocFail
  | hardHeaderFail
  | cloneFail
  | pushFail
  | xmit (rc : Int)
  deriving Repr, DecidableEq

/-- What the kernel answers to the next call of the work. -/
inductive WorkIn where
  | tau
  | nomem
  | read (bs : Bytes)
  | recvRet (rc : Int)
  | skb (o : SkbSend) (now : ℕ)
  deriving Repr, DecidableEq

def canSend (c : Con) : Bool := c.sending && decide (0 < c.window)

/-- The skb `pepdna_minip_skb_send` builds. -/
def dataPdu (c : Con) (buf : Bytes) (now : ℕ) : DataPdu :=
  { id := c.id, seq := c.nextSeq, sduLen := buf.length % 65536, ts := now, sdu := buf }

/-- `pepdna_minip_skb_send` and its return value. -/
def pepdnaMinipSkbSend (c : Con) (buf : Bytes) (o : SkbSend) (now : ℕ) : Con × Int :=
  match o with
  | .allocFail => (c, -ENOMEM)
  | .hardHeaderFail => (c, -1)
  | .cloneFail => (c, -1)
  | .pushFail => (touchRtxq c, -1)
  | .xmit rc =>
    let d := dataPdu c buf now
    (transmit { touchRtxq c with rtxq := rtxqueuePush c.rtxq d } (.data d), rc)

/-- One turn of the loop of `pepdna_minip_conn_snd_data` up to the error check. A failure after
the first packet is reported as success by the byte count. -/
def sndData (c : Con) (left : Bytes) (sent : ℕ) (o : SkbSend) (now : ℕ) : Con :=
  let copy := left.take MINIP_MSS
  let r := pepdnaMinipSkbSend c copy o now
  if r.2 < 0 then
    if sent ≠ 0 then { r.1 with pc := .test } else { r.1 with pc := .delete (-1) }
  else
    { r.1 with
      pc := .advance (left.drop MINIP_MSS) (sent + copy.length)
      sdus := r.1.sdus ++ [copy] }

/-- The rest of that turn. -/
def sndAdvance (c : Con) (left : Bytes) (sent : ℕ) : Con :=
  { c with
    nextSeq := u32 (c.nextSeq + 1)
    window := if c.window > 0 then c.window - 1 else c.window
    pc := if left = [] then .test else .send left sent }

/-- One step of `pepdna_con_i2m_work`, `pepdna_con_i2minip_fwd` inlined. -/
def workStep (c : Con) (i : WorkIn) : Option Con :=
  match c.pc, i with
  | .idle, .tau => if c.pending then some { c with pending := false, pc := .test } else none
  | .test, .tau => some { c with pc := if c.lflag then .canSend else .put }
  | .canSend, .tau =>
    some { c with pc := if canSend c then .recvmsg (MINIP_MSS * c.window) else .put }
  | .recvmsg _, .nomem => some { c with pc := .delete (-ENOMEM) }
  | .recvmsg howMuch, .read bs =>
    if bs ≠ [] ∧ bs.length ≤ howMuch then some { c with rd := c.rd ++ bs, pc := .send bs 0 }
    else none
  | .recvmsg _, .recvRet rc =>
    if rc ≤ 0 then some { c with pc := if rc = -EAGAIN then .put else .delete rc } else none
  | .send left sent, .skb o now => some (sndData c left sent o now)
  | .advance left sent, .tau => some (sndAdvance c left sent)
  | .delete _, .tau => some { transmit c (.delete c.id) with pc := .close }
  | .close, .tau => some { pepdnaConClose c with pc := .test }
  | .put, .tau => some (pepdnaConPut { c with pc := .idle })
  | _, _ => none

/- The lines of `workStep`, one constructor each. -/
inductive WorkStep (c : Con) : WorkIn → Con → Prop
  | start (hpc : c.pc = .idle) (hp : c.pending = true) :
      WorkStep c .tau { c with pending := false, pc := .test }
  | test (hpc : c.pc = .test) :
      WorkStep c .tau { c with pc := if c.lflag then .canSend else .put }
  | canSend (hpc : c.pc = .canSend) :
      WorkStep c .tau { c with pc := if canSend c then .recvmsg (MINIP_MSS * c.window) else .put }
  | nomem (howMuch : ℕ) (hpc : c.pc = .recvmsg howMuch) :
      WorkStep c .nomem { c with pc := .delete (-ENOMEM) }
  | read (howMuch : ℕ) (bs : Bytes) (hpc : c.pc = .recvmsg howMuch) (hne : bs ≠ [])
      (hle : bs.length ≤ howMuch) :
      WorkStep c (.read bs) { c with rd := c.rd ++ bs, pc := .send bs 0 }
  | recvRet (howMuch : ℕ) (rc : Int) (hpc : c.pc = .recvmsg howMuch) (hrc : rc ≤ 0) :
      WorkStep c (.recvRet rc) { c with pc := if rc = -EAGAIN then .put else .delete rc }
  | send (left : Bytes) (sent : ℕ) (o : SkbSend) (now : ℕ) (hpc : c.pc = .send left sent) :
      WorkStep c (.skb o now) (sndData c left sent o now)
  | advance (left : Bytes) (sent : ℕ) (hpc : c.pc = .advance left sent) :
      WorkStep c .tau (sndAdvance c left sent)
  | delete (rc : Int) (hpc : c.pc = .delete rc) :
      WorkStep c .tau { transmit c (.delete c.id) with pc := .close }
  | close (hpc : c.pc = .close) : WorkStep c .tau { pepdnaConClose c with pc := .test }
  | put (hpc : c.pc = .put) : WorkStep c .tau (pepdnaConPut { c with pc := .idle })

theorem workStep_cases (c c' : Con) (i : WorkIn) (h : workStep c i = some c') :
    WorkStep c i c' := by
  unfold workStep at h
  split at h
  · next he =>
    split at h
    · next hp =>
      cases h
      exact .start he hp
    · cases h
  · next he => cases h; exact .test he
  · next he => cases h; exact .canSend he
  · next he => cases h; exact .nomem _ he
  · next he =>
    split at h
    · next hb =>
      cases h
      exact .read _ _ he hb.1 hb.2
    · cases h
  · next he =>
    split at h
    · next hrc =>
      cases h
      exact .recvRet _ _ he hrc
    · cases h
  · next he => cases h; exact .send _ _ _ _ he
  · next he => cases h; exact .advance _ _ he
  · next he => cases h; exact .delete _ he
  · next he => cases h; exact .close he
  · next he => cases h; exact .put he
  · cases h

/- The places between which the work goes without a store. -/
inductive Jump (c : Con) : WorkPc → WorkPc → Prop
  | enter : Jump c .test .canSend
  | leave : Jump c .test .put
  | recvmsg : Jump c .canSend (.recvmsg (MINIP_MSS * c.window))
  | blocked : Jump c .canSend .put
  | again (howMuch : ℕ) : Jump c (.recvmsg howMuch) .put
  | error (howMuch : ℕ) (rc : Int) : Jump c (.recvmsg howMuch) (.delete rc)

/- The lines of `workStep` again, with the jumps taken together. -/
inductive WorkLine (c : Con) : WorkIn → Con → Prop
  | start (hpc : c.pc = .idle) (hp : c.pending = true) :
      WorkLine c .tau { c with pending := false, pc := .test }
  | jump (i : WorkIn) (pc pc' : WorkPc) (hpc : c.pc = pc) (hj : Jump c pc pc') :
      WorkLine c i { c with pc := pc' }
  | read (howMuch : ℕ) (bs : Bytes) (hpc : c.pc = .recvmsg howMuch) (hne : bs ≠ [])
      (hle : bs.length ≤ howMuch) :
      WorkLine c (.read bs) { c with rd := c.rd ++ bs, pc := .send bs 0 }
  | send (left : Bytes) (sent : ℕ) (o : SkbSend) (now : ℕ) (hpc : c.pc = .send left sent) :
      WorkLine c (.skb o now) (sndData c left sent o now)
  | advance (left : Bytes) (sent : ℕ) (hpc : c.pc = .advance left sent) :
      WorkLine c .tau (sndAdvance c left sent)
  | delete (rc : Int) (hpc : c.pc = .delete rc) :
      WorkLine c .tau { transmit c (.delete c.id) with pc := .close }
  | close (hpc : c.pc = .close) : WorkLine c .tau { pepdnaConClose c with pc := .test }
  | put (hpc : c.pc = .put) : WorkLine c .tau (pepdnaConPut { c with pc := .idle })

theorem workStep_line (c c' : Con) (i : WorkIn) (h : WorkStep c i c') : WorkLine c i c' := by
  cases h with
  | start he hp => exact .start he hp
  | test he =>
    split
    · exact .jump _ _ _ he .enter
    · exact .jump _ _ _ he .leave
  | canSend he =>
    split
    · exact .jump _ _ _ he .recvmsg
    · exact .jump _ _ _ he .blocked
  | nomem howMuch he => exact .jump _ _ _ he (.error howMuch _)
  | read howMuch bs he hne hle => exact .read howMuch bs he hne hle
  | recvRet howMuch rc he =>
    split
    · exact .jump _ _ _ he (.again howMuch)
    · exact .jump _ _ _ he (.error howMuch rc)
  | send left sent o now he => exact .send left sent o now he
  | advance left sent he => exact .advance left sent he
  | delete rc he => exact .delete rc he
  | close he => exact .close he
  | put he => exact .put he

/-- The work that is not running can only start. -/
theorem workStep_idle (c c' : Con) (i : WorkIn) (h : WorkStep c i c') (hpc : c.pc = .idle) :
    c.pending = true := by
  cases h with
  | start _ hp => exact hp
  | _ => simp_all

/-- One step of `tcfa_work`; `rc` is the result of the call made in it, if there is one. -/
def tcfaStep (c : Con) (rc : Int) (now : ℕ) : Option Con :=
  match c.mode, c.tcfa with
  -- pepdna_minip_handshake: after a failed request the two stores are still done
  | .tcp2minip, .queued =>
    some (if rc < 0 then { pepdnaConClose c with tcfa := .assign }
      else { transmit c (.request c.id MINIP_FIRST_SEQ MINIP_FIRST_SEQ now c.tuple) with
        tcfa := .assign })
  | .tcp2minip, .assign =>
    some { c with state := .requestSent, nextSeq := u32 (c.nextSeq + 1), tcfa := .done }
  -- pepdna_tcp_connect
  | .minip2tcp, .queued =>
    some (if rc < 0 then { pepdnaConClose c with tcfa := .done } else { c with tcfa := .respond })
  | .minip2tcp, .respond =>
    some (if rc < 0 then { pepdnaConClose c with tcfa := .done }
      else { transmit c (.response c.id MINIP_FIRST_SEQ (MINIP_FIRST_SEQ + 1)) with
        tcfa := .assign })
  | .minip2tcp, .assign =>
    some { c with
      state := .established
      nextSeq := u32 (c.nextSeq + 1)
      lastAcked := u32 (c.lastAcked + 1)
      nextRecv := u32 (c.nextRecv + 1)
      tcfa := .register }
  | .minip2tcp, .register => some { c with lsock := true, userData := true, tcfa := .flag }
  | .minip2tcp, .flag => some { c with lflag := true, tcfa := .wake }
  | .minip2tcp, .wake => some { wakeLsock c with tcfa := .done }
  | _, _ => none

/-- `pepdna_tcp_accept` for the client of this connection, whose SYN was handed to the stack. If
the connection is not found any more the accepted socket is released. -/
def pepdnaTcpAccept (c : Con) : Option Con :=
  if c.synPending then
    let c := { c with synPending := false }
    some (if c.hashed then
      wakeLsock { c with lsock := true, userData := true, lflag := true, rflag := true }
    else c)
  else none

inductive Act where
  | tcfa (rc : Int) (now : ℕ)
  | accept
  | dataReady
  | work (i : WorkIn)
  | timeout (now : ℕ) (xmit : ℕ → Int)
  | recv (p : Packet) (now : ℕ) (xmit : ℕ → Int)
  | sendmsg (rc : Int)

/-- One step of a connection. Frames are handled one after the other, so none is taken while the
handler of a DATA packet is writing. -/
def conStep (c : Con) (a : Act) : Option Con :=
  match a with
  | .tcfa rc now => tcfaStep c rc now
  | .accept => pepdnaTcpAccept c
  | .dataReady => if c.lsock then some (pepdnaL2rConnDataReady c) else none
  | .work i => workStep c i
  | .timeout now xmit => if c.timer then some (minipSenderTimeout c now xmit) else none
  | .recv p now xmit => if c.rx = none then some (pepdnaMinipRecvPacket c p now xmit) else none
  | .sendmsg rc => minip2iSendmsg c rc

/- The lines of `conStep`. -/
inductive ConStep (c : Con) : Act → Con → Prop
  | tcfa (rc : Int) (now : ℕ) (c' : Con) (h : tcfaStep c rc now = some c') :
      ConStep c (.tcfa rc now) c'
  | accept (c' : Con) (hp : c.synPending = true) (h : pepdnaTcpAccept c = some c') :
      ConStep c .accept c'
  | dataReady (hl : c.lsock = true) : ConStep c .dataReady (pepdnaL2rConnDataReady c)
  | work (i : WorkIn) (c' : Con) (h : WorkStep c i c') : ConStep c (.work i) c'
  | timeout (now : ℕ) (xmit : ℕ → Int) (ht : c.timer = true) :
      ConStep c (.timeout now xmit) (minipSenderTimeout c now xmit)
  | recv (p : Packet) (now : ℕ) (xmit : ℕ → Int) (hx : c.rx = none) :
      ConStep c (.recv p now xmit) (pepdnaMinipRecvPacket c p now xmit)
  | sendmsg (rc : Int) (c' : Con) (h : minip2iSendmsg c rc = some c') : ConStep c (.sendmsg rc) c'

theorem conStep_lines (c c' : Con) (a : Act) (h : conStep c a = some c') : ConStep c a c' := by
  cases a with
  | tcfa rc now => exact .tcfa rc now c' h
  | accept =>
    have hp : c.synPending = true := by
      by_contra hp
      simp [conStep, pepdnaTcpAccept, hp] at h
    exact .accept c' hp h
  | dataReady =>
    simp only [conStep] at h
    split at h
    · next hl =>
      cases h
      exact .dataReady hl
    · cases h
  | work i => exact .work i c' (workStep_cases c c' i h)
  | timeout now xmit =>
    simp only [conStep] at h
    split at h
    · next ht =>
      cases h
      exact .timeout now xmit ht
    · cases h
  | recv p now xmit =>
    simp only [conStep] at h
    split at h
    · next hx =>
      cases h
      exact .recv p now xmit hx
    · cases h
  | sendmsg rc => exact .sendmsg rc c' h

theorem tcfaStep_done (c : Con) (rc : Int) (now : ℕ) (h : c.tcfa = .done) :
    tcfaStep c rc now = none := by
  unfold tcfaStep
  rw [h]
  cases c.mode <;> rfl

theorem conStep_recv_response (c : Con) (seq ack now : ℕ) (xmit : ℕ → Int) (hx : c.rx = none)
    (hh : c.hashed = true) :
    conStep c (.recv (.response c.id seq ack) now xmit) = some (pepdnaMinipRecvResponse c) := by
  simp [conStep, pepdnaMinipRecvPacket, Packet.id, hx, hh]

end PepDna.Minip
