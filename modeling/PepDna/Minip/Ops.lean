import PepDna.Minip.Peers

/-!
# The steps of a connection as sequences of four operations

Apart from the set-up, the work and the end of the peer, whatever a step does to
references, flags, work items and the wire is a sequence of: a store to other
fields, packets handed to the device, the `data_ready` callback, and a DELETE
followed by the close. An argument about these fields treats the four and never
goes through the handlers.
-/

namespace PepDna.Minip

inductive Kind where
  | request
  | response
  | data
  | ack
  | delete
  | finished
  deriving Repr, DecidableEq

def Packet.kind : Packet → Kind
  | .request .. => .request
  | .response .. => .response
  | .data _ => .data
  | .ack .. => .ack
  | .delete _ => .delete
  | .finished _ => .finished

/- The fields that a plain store leaves alone, but for the wire. -/
def corePart (c : Con) :=
  (c.mode, c.id, c.tuple, c.kref, c.lsock, c.lflag, c.hashed, c.userData, c.pending, c.pc, c.tcfa,
    c.synPending, c.syns, c.drops)

inductive Ops (ks : List Kind) : Con → Con → Prop
  | store (c c' : Con) (h : corePart c' = corePart c) (ht : c'.tx = c.tx) : Ops ks c c'
  | send (c c' : Con) (ps : List Packet) (h : corePart c' = corePart c) (ht : c'.tx = c.tx ++ ps)
      (hp : ∀ p ∈ ps, p.kind ∈ ks ∧ (p.kind = .data ∨ p.id = c.id)) : Ops ks c c'
  | ready (c : Con) (h : c.lsock = true) : Ops ks c (pepdnaL2rConnDataReady c)
  | notify (c : Con) (hk : .delete ∈ ks) : Ops ks c (pepdnaConClose (transmit c (.delete c.id)))
  | trans (c d e : Con) (h : Ops ks c d) (h' : Ops ks d e) : Ops ks c e

variable {ks : List Kind}

theorem ops_wake (c : Con) : Ops ks c (wakeLsock c) := by
  unfold wakeLsock
  split
  · next h => exact .ready c h
  · exact .store _ _ rfl rfl

theorem ops_fullRtx (c : Con) (ack now : ℕ) (xmit : ℕ → Int) (hd : .data ∈ ks) :
    Ops ks c (rtxqFullRtx c ack now xmit).1 := by
  refine .send _ _ _ rfl rfl ?_
  intro p hp
  obtain ⟨d, -, rfl⟩ := List.mem_map.mp hp
  exact ⟨hd, Or.inl rfl⟩

theorem ops_timeout (c : Con) (now : ℕ) (xmit : ℕ → Int) :
    Ops [.data, .delete] c (minipSenderTimeout c now xmit) := by
  unfold minipSenderTimeout
  dsimp only
  split
  · have hrtx : Ops [.data, .delete] c _ := .trans _ _ _ (.store c
        { touchRtxq { c with timer := false } with sending := false, state := .recovery } rfl rfl)
      (ops_fullRtx _ (u32 (c.lastAcked + 1)) now xmit (by simp))
    split
    · exact .trans _ _ _ hrtx (.store _ _ rfl rfl)
    · exact .trans _ _ _ hrtx (.notify _ (by simp))
  · exact .store _ _ rfl rfl

theorem ops_newAck (c : Con) (ack : ℕ) : Ops ks c (recvNewAck c ack) := by
  unfold recvNewAck
  dsimp only
  refine .trans _ _ _ (.store c _ ?_ ?_) (ops_wake _)
  · split <;> split <;> rfl
  · split <;> split <;> rfl

theorem ops_dupAck (c : Con) (ack now : ℕ) (xmit : ℕ → Int) :
    Ops [.data, .delete] c (recvDupAck c ack now xmit) := by
  unfold recvDupAck
  dsimp only
  have hset : Ops [.data, .delete] c { c with
      dupAcks := u32 (c.dupAcks + 1), state := .recovery, sending := false } := .store _ _ rfl rfl
  split
  · exact hset
  · have hrtx := Ops.trans _ _ _ hset (ops_fullRtx _ ack now xmit (by simp))
    split
    · exact hrtx
    · exact .trans _ _ _ hrtx (.notify _ (by simp))

theorem ops_recvAck (c : Con) (ack ts now : ℕ) (xmit : ℕ → Int) :
    Ops [.data, .delete] c (pepdnaMinipRecvAck c ack ts now xmit) := by
  have hsample : Ops [.data, .delete] c (ackSample c ts now) := by
    rw [ackSample_eq]
    exact .store _ _ rfl rfl
  unfold pepdnaMinipRecvAck
  split
  · exact .store _ _ rfl rfl
  · dsimp only
    split
    · exact .trans _ _ _ hsample (ops_newAck _ ack)
    · exact .trans _ _ _ hsample (ops_dupAck _ ack now xmit)

theorem ops_sendAck (c c' : Con) (ts : ℕ) (h : corePart c' = corePart c) (ht : c'.tx = c.tx)
    (ha : .ack ∈ ks) : Ops ks c (pepdnaMinipSendAck c' ts) := by
  refine .trans _ _ _ (.store c c' h ht) (.send c' _ [.ack c'.id c'.nextRecv ts] rfl rfl ?_)
  intro p hp
  rw [List.mem_singleton.mp hp]
  exact ⟨ha, Or.inr rfl⟩

theorem ops_finish (c : Con) (d : DataPdu) (sent : Int) :
    Ops [.ack, .delete] c (minip2iFinish c d sent) := by
  unfold minip2iFinish
  dsimp only
  split
  · have hack : Ops [.ack, .delete] c (pepdnaMinipSendAck { c with rx := none } d.ts) :=
      ops_sendAck c _ _ rfl rfl (by simp)
    exact .trans _ _ _ hack (.notify _ (by simp))
  · have hack : Ops [.ack, .delete] c
        (pepdnaMinipSendAck { c with rx := none, nextRecv := u32 (c.nextRecv + 1) } d.ts) :=
      ops_sendAck c _ _ rfl rfl (by simp)
    split
    · exact .trans _ _ _ hack (.notify _ (by simp))
    · exact hack

theorem ops_minip2iFwd (c : Con) (d : DataPdu) : Ops [.ack, .delete] c (pepdnaConMinip2iFwd c d) := by
  unfold pepdnaConMinip2iFwd
  split
  · split
    · dsimp only
      split
      · exact ops_finish c d 0
      · exact .store _ _ rfl rfl
    · exact .store _ _ rfl rfl
  · exact ops_sendAck c c d.ts rfl rfl (by simp)

theorem ops_sendmsg (c c' : Con) (rc : Int) (h : minip2iSendmsg c rc = some c') :
    Ops [.ack, .delete] c c' := by
  cases sendmsg_lines c c' rc h with
  | again r w => exact .store _ _ rfl rfl
  | ret r v => exact .trans _ _ _ (.store c (sendmsgTook c r.w rc) rfl rfl) (ops_finish _ _ _)

/- ### The set-up -/

/- The lines of `tcfaStep`, one constructor each. -/
inductive TcfaStep (c : Con) (rc : Int) (now : ℕ) : Con → Prop
  | requestFail (hm : c.mode = .tcp2minip) (ht : c.tcfa = .queued) (hrc : rc < 0) :
      TcfaStep c rc now { pepdnaConClose c with tcfa := .assign }
  | request (hm : c.mode = .tcp2minip) (ht : c.tcfa = .queued) (hrc : 0 ≤ rc) :
      TcfaStep c rc now
        { transmit c (.request c.id MINIP_FIRST_SEQ MINIP_FIRST_SEQ now c.tuple) with
          tcfa := .assign }
  | requestSent (hm : c.mode = .tcp2minip) (ht : c.tcfa = .assign) :
      TcfaStep c rc now
        { c with state := .requestSent, nextSeq := u32 (c.nextSeq + 1), tcfa := .done }
  | connectFail (hm : c.mode = .minip2tcp) (ht : c.tcfa = .queued) (hrc : rc < 0) :
      TcfaStep c rc now { pepdnaConClose c with tcfa := .done }
  | connect (hm : c.mode = .minip2tcp) (ht : c.tcfa = .queued) (hrc : 0 ≤ rc) :
      TcfaStep c rc now { c with tcfa := .respond }
  | responseFail (hm : c.mode = .minip2tcp) (ht : c.tcfa = .respond) (hrc : rc < 0) :
      TcfaStep c rc now { pepdnaConClose c with tcfa := .done }
  | response (hm : c.mode = .minip2tcp) (ht : c.tcfa = .respond) (hrc : 0 ≤ rc) :
      TcfaStep c rc now
        { transmit c (.response c.id MINIP_FIRST_SEQ (MINIP_FIRST_SEQ + 1)) with tcfa := .assign }
  | assign (hm : c.mode = .minip2tcp) (ht : c.tcfa = .assign) :
      TcfaStep c rc now
        { c with
          state := .established
          nextSeq := u32 (c.nextSeq + 1)
          lastAcked := u32 (c.lastAcked + 1)
          nextRecv := u32 (c.nextRecv + 1)
          tcfa := .register }
  | register (hm : c.mode = .minip2tcp) (ht : c.tcfa = .register) :
      TcfaStep c rc now { c with lsock := true, userData := true, tcfa := .flag }
  | flag (hm : c.mode = .minip2tcp) (ht : c.tcfa = .flag) :
      TcfaStep c rc now { c with lflag := true, tcfa := .wake }
  | wake (hm : c.mode = .minip2tcp) (ht : c.tcfa = .wake) :
      TcfaStep c rc now { wakeLsock c with tcfa := .done }

theorem tcfaStep_cases (c c' : Con) (rc : Int) (now : ℕ) (h : tcfaStep c rc now = some c') :
    TcfaStep c rc now c' := by
  unfold tcfaStep at h
  split at h
  · next hm ht =>
    cases h
    split
    · next hrc => exact .requestFail hm ht hrc
    · next hrc => exact .request hm ht (by omega)
  · next hm ht => cases h; exact .requestSent hm ht
  · next hm ht =>
    cases h
    split
    · next hrc => exact .connectFail hm ht hrc
    · next hrc => exact .connect hm ht (by omega)
  · next hm ht =>
    cases h
    split
    · next hrc => exact .responseFail hm ht hrc
    · next hrc => exact .response hm ht (by omega)
  · next hm ht => cases h; exact .assign hm ht
  · next hm ht => cases h; exact .register hm ht
  · next hm ht => cases h; exact .flag hm ht
  · next hm ht => cases h; exact .wake hm ht
  · cases h

/-- The RESPONSE is for this connection, which is in the table and free to handle it. -/
def takesResponse (c : Con) : Act → Bool
  | .recv (.response id _ _) _ _ => decide (c.hashed = true ∧ id = c.id ∧ c.rx = none)
  | _ => false

theorem takesResponse_own (c : Con) (a : Act) (ha : a.isRecv = false) :
    takesResponse c a = false := by
  cases a with
  | recv => cases ha
  | _ => rfl

/- ### All steps -/

def Act.kinds : Act → List Kind
  | .timeout _ _ => [.data, .delete]
  | .recv (.data _) _ _ => [.ack, .delete]
  | .recv (.ack ..) _ _ => [.data, .delete]
  | .sendmsg _ => [.ack, .delete]
  | _ => []

/- The packet is of this kind, and its connection is in the table. -/
def takes (c : Con) (k : Kind) : Act → Prop
  | .recv p _ _ => p.kind = k ∧ c.hashed = true ∧ p.id = c.id
  | _ => False

/- A step of the work other than these neither takes nor drops its reference. -/
inductive WorkCase (c : Con) : Con → Prop
  | start (hpc : c.pc = .idle) (hp : c.pending = true) :
      WorkCase c { c with pending := false, pc := .test }
  | move (c' : Con) (ps : List Packet) (h : corePart { c' with pc := c.pc } = corePart c)
      (ht : c'.tx = c.tx ++ ps) (hp : ∀ p ∈ ps, p.kind = .data) (hpc : c.pc ≠ .idle)
      (hpc' : c'.pc ≠ .idle ∧ c'.pc ≠ .close) : WorkCase c c'
  | delete (rc : Int) (hpc : c.pc = .delete rc) :
      WorkCase c { transmit c (.delete c.id) with pc := .close }
  | close (hpc : c.pc = .close) : WorkCase c { pepdnaConClose c with pc := .test }
  | put (hpc : c.pc = .put) : WorkCase c (pepdnaConPut { c with pc := .idle })

theorem workStep_case (c c' : Con) (i : WorkIn) (h : WorkStep c i c') : WorkCase c c' := by
  have hmove (c' : Con) (h : corePart { c' with pc := c.pc } = corePart c) (ht : c'.tx = c.tx)
      (hpc : c.pc ≠ .idle) (hpc' : c'.pc ≠ .idle ∧ c'.pc ≠ .close) : WorkCase c c' :=
    .move c' [] h (ht.trans (List.append_nil _).symm) nofun hpc hpc'
  cases workStep_line c c' i h with
  | start he hp => exact .start he hp
  | jump _ pc pc' he hj => cases hj <;> exact hmove _ rfl rfl (by rw [he]; nofun) (by simp)
  | read howMuch bs he => exact hmove _ rfl rfl (by rw [he]; nofun) (by simp)
  | send left sent o now he =>
    have hpc : c.pc ≠ .idle := by
      rw [he]
      nofun
    have hcore : corePart { sndData c left sent o now with pc := c.pc } = corePart c := by
      unfold sndData
      dsimp only
      split
      · split <;> cases o <;> rfl
      · cases o <;> rfl
    have hpc' : (sndData c left sent o now).pc ≠ .idle ∧ (sndData c left sent o now).pc ≠ .close := by
      unfold sndData
      dsimp only
      split
      · split <;> simp
      · simp
    have htx : (sndData c left sent o now).tx =
        (pepdnaMinipSkbSend c (left.take MINIP_MSS) o now).1.tx := by
      unfold sndData
      dsimp only
      split
      · split <;> rfl
      · rfl
    cases o with
    | xmit rc =>
      refine .move _ [.data (dataPdu c (left.take MINIP_MSS) now)] hcore htx ?_ hpc hpc'
      intro p hp
      rw [List.mem_singleton.mp hp]
      rfl
    | _ => exact hmove _ hcore htx hpc hpc'
  | advance left sent he =>
    refine hmove _ rfl rfl (by rw [he]; nofun) ?_
    unfold sndAdvance
    dsimp only
    split <;> simp
  | delete rc he => exact .delete rc he
  | close he => exact .close he
  | put he => exact .put he

theorem takes_own (c : Con) (k : Kind) (a : Act) (ha : a.isRecv = false) : ¬takes c k a := by
  cases a with
  | recv => cases ha
  | _ => exact id

inductive ConCase (c : Con) (a : Act) (c' : Con) : Prop
  | tcfa (rc : Int) (now : ℕ) (ha : a = .tcfa rc now) (h : TcfaStep c rc now c')
  | accept (ha : a = .accept) (hp : c.synPending = true)
      (hc' : c' = if c.hashed then wakeLsock { c with
          synPending := false, lsock := true, userData := true, lflag := true, rflag := true }
        else { c with synPending := false })
  | work (i : WorkIn) (ha : a = .work i) (h : WorkCase c c')
  | response (hr : takesResponse c a = true) (hc' : c' = pepdnaMinipRecvResponse c)
  | delete (ha : takes c .delete a) (hc' : c' = pepdnaMinipRecvDelete c)
  | finished (ha : takes c .finished a) (hc' : c' = pepdnaMinipRecvFinished c)
  | ops (hr : takesResponse c a = false) (hd : ¬takes c .delete a) (hf : ¬takes c .finished a)
      (h : Ops a.kinds c c')

theorem recvPacket_case (c : Con) (p : Packet) (now : ℕ) (xmit : ℕ → Int) (hx : c.rx = none) :
    ConCase c (.recv p now xmit) (pepdnaMinipRecvPacket c p now xmit) := by
  unfold pepdnaMinipRecvPacket
  split
  · next hfound =>
    have hops (p : Packet) (c' : Con) (hk : p.kind ≠ .response ∧ p.kind ≠ .delete ∧
        p.kind ≠ .finished) (ho : Ops (Act.recv p now xmit).kinds c c') :
        ConCase c (.recv p now xmit) c' := by
      refine .ops ?_ (fun ht => hk.2.1 ht.1) (fun ht => hk.2.2 ht.1) ho
      cases p with
      | response => exact absurd rfl hk.1
      | _ => rfl
    cases p with
    | request => exact hops _ _ (by simp [Packet.kind]) (.store _ _ rfl rfl)
    | response id seq ack => exact .response (decide_eq_true ⟨hfound.1, hfound.2, hx⟩) rfl
    | data d => exact hops _ _ (by simp [Packet.kind]) (ops_minip2iFwd c d)
    | ack id k ts => exact hops _ _ (by simp [Packet.kind]) (ops_recvAck c k ts now xmit)
    | delete id => exact .delete ⟨rfl, hfound⟩ rfl
    | finished id => exact .finished ⟨rfl, hfound⟩ rfl
  · next hfound =>
    refine .ops ?_ (fun ht => hfound ht.2) (fun ht => hfound ht.2) (.store _ _ rfl rfl)
    cases p with
    | response id seq ack => exact decide_eq_false fun hr => hfound ⟨hr.1, hr.2.1⟩
    | _ => rfl

theorem conStep_cases (c c' : Con) (a : Act) (h : conStep c a = some c') : ConCase c a c' := by
  cases conStep_lines c c' a h with
  | tcfa rc now c' ht => exact .tcfa rc now rfl (tcfaStep_cases c c' rc now ht)
  | accept c' hp ha =>
    unfold pepdnaTcpAccept at ha
    rw [if_pos hp] at ha
    cases ha
    exact .accept rfl hp rfl
  | dataReady hl => exact .ops rfl id id (.ready c hl)
  | work i c' hw => exact .work i rfl (workStep_case c c' i hw)
  | timeout now xmit => exact .ops rfl id id (ops_timeout c now xmit)
  | recv p now xmit hx => exact recvPacket_case c p now xmit hx
  | sendmsg rc c' hm => exact .ops rfl id id (ops_sendmsg c c' rc hm)

end PepDna.Minip
