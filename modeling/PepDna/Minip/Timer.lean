import PepDna.Minip.OrderlyClose

/-!
# The retransmission timer of a MINIP connection

`pepdna_con_alloc` sets the timer up but does not start it, and the send path
never does: only an ACK and the handler of the timer itself call `mod_timer`.
Once it is pending it stays so until the connection is closed.
-/

namespace PepDna.Minip

/-- The timer is pending, or the connection is not open. -/
def Armed (c : Con) : Prop := c.lflag = true → c.timer = true

theorem armed_store (c c' : Con) (h : (c'.lflag, c'.timer) = (c.lflag, c.timer)) (hc : Armed c) :
    Armed c' := by
  simp only [Prod.mk.injEq] at h
  intro hf
  rw [h.2]
  exact hc (h.1 ▸ hf)

theorem armed_timer (c : Con) (h : c.timer = true) : Armed c := fun _ => h

/- A close stops the timer, and it clears `lflag` with it. -/

theorem armed_close (c : Con) (hc : Armed c) : Armed (pepdnaConClose c) := by
  rw [pepdnaConClose_eq]
  intro hf
  have hf' : c.lflag = true ∧ c.lsock = false := by simpa using hf
  simp [hc hf'.1, hf'.2]

theorem armed_close_sock (c : Con) (hl : c.lsock = true) : Armed (pepdnaConClose c) := by
  rw [pepdnaConClose_eq]
  intro hf
  simp [hl] at hf

theorem armed_ready (c : Con) (hc : Armed c) : Armed (pepdnaL2rConnDataReady c) := by
  rw [pepdnaL2rConnDataReady_eq]
  exact armed_store c _ rfl hc

theorem armed_wake (c : Con) (hc : Armed c) : Armed (wakeLsock c) := by
  unfold wakeLsock
  split
  · exact armed_ready c hc
  · exact armed_store c _ rfl hc

theorem armed_timeout (c : Con) (now : ℕ) (xmit : ℕ → Int) (hl : c.lsock = true) :
    Armed (minipSenderTimeout c now xmit) := by
  unfold minipSenderTimeout
  dsimp only
  split
  · split
    · exact armed_timer _ rfl
    · exact armed_close_sock _ hl
  · exact armed_timer _ rfl

theorem armed_newAck (c : Con) (ack : ℕ) (hc : Armed c) : Armed (recvNewAck c ack) := by
  unfold recvNewAck
  refine armed_wake _ (armed_store c _ ?_ hc)
  split <;> split <;> rfl

theorem armed_dupAck (c : Con) (ack now : ℕ) (xmit : ℕ → Int) (hc : Armed c) :
    Armed (recvDupAck c ack now xmit) := by
  unfold recvDupAck
  dsimp only
  split
  · exact armed_store c _ rfl hc
  · split
    · exact armed_store c _ rfl hc
    · exact armed_close _ (armed_store c _ rfl hc)

theorem armed_recvAck (c : Con) (ack ts now : ℕ) (xmit : ℕ → Int) (hc : Armed c) :
    Armed (pepdnaMinipRecvAck c ack ts now xmit) := by
  have hs : Armed (ackSample c ts now) := armed_timer _ rfl
  unfold pepdnaMinipRecvAck
  dsimp only
  split
  · exact hc
  · split
    · exact armed_newAck _ ack hs
    · exact armed_dupAck _ ack now xmit hs

theorem armed_finish (c : Con) (d : DataPdu) (sent : Int) (hc : Armed c) :
    Armed (minip2iFinish c d sent) := by
  unfold minip2iFinish
  dsimp only
  split
  · exact armed_close _ (armed_store c _ rfl hc)
  · split
    · exact armed_close _ (armed_store c _ rfl hc)
    · exact armed_store c _ rfl hc

theorem armed_minip2iFwd (c : Con) (d : DataPdu) (hc : Armed c) :
    Armed (pepdnaConMinip2iFwd c d) := by
  unfold pepdnaConMinip2iFwd
  dsimp only
  split
  · split
    · split
      · exact armed_finish c d 0 hc
      · exact armed_store c _ rfl hc
    · exact armed_store c _ rfl hc
  · exact armed_store c _ rfl hc

theorem armed_recvPacket (c : Con) (p : Packet) (now : ℕ) (xmit : ℕ → Int) (hc : Armed c) :
    Armed (pepdnaMinipRecvPacket c p now xmit) := by
  unfold pepdnaMinipRecvPacket
  split
  · cases p with
    | request => exact hc
    | response => exact armed_store c _ rfl hc
    | data d => exact armed_minip2iFwd c d hc
    | ack id k ts => exact armed_recvAck c k ts now xmit hc
    | delete id => exact armed_close _ (armed_store c _ rfl hc)
    | finished id => exact armed_close _ (armed_store c _ rfl hc)
  · exact hc

theorem armed_sendmsg (c c' : Con) (rc : Int) (h : minip2iSendmsg c rc = some c') (hc : Armed c) :
    Armed c' := by
  cases sendmsg_lines c c' rc h with
  | again r w => exact armed_store c _ rfl hc
  | ret r v => exact armed_finish _ _ _ (armed_store c _ rfl hc)

theorem sndData_frame (c : Con) (left : Bytes) (sent : ℕ) (o : SkbSend) (now : ℕ) :
    ((sndData c left sent o now).lflag, (sndData c left sent o now).timer) =
      (c.lflag, c.timer) := by
  unfold sndData pepdnaMinipSkbSend
  cases o <;> dsimp only <;> split <;> try split
  all_goals rfl

theorem armed_work (c c' : Con) (i : WorkIn) (h : WorkStep c i c') (hc : Armed c) : Armed c' := by
  cases h with
  | send left sent o now => exact armed_store c _ (sndData_frame c left sent o now) hc
  | close => exact armed_store _ _ rfl (armed_close c hc)
  | put =>
    rw [pepdnaConPut_eq]
    exact armed_store c _ rfl hc
  | _ => exact armed_store c _ rfl hc

/-- Nothing but a close stops a pending timer. -/
theorem armed_step (c c' : Con) (a : Act) (he : Est c) (hl : Live c) (h : conStep c a = some c')
    (hc : Armed c) : Armed c' := by
  cases conStep_lines c c' a h with
  | tcfa rc now c' h =>
    rw [tcfaStep_done c rc now he.tcfa] at h
    cases h
  | accept c' hp =>
    rw [he.syn] at hp
    cases hp
  | dataReady => exact armed_ready c hc
  | work i c' hw => exact armed_work c c' i hw hc
  | timeout now xmit => exact armed_timeout c now xmit hl.lsock
  | recv p now xmit => exact armed_recvPacket c p now xmit hc
  | sendmsg rc c' hm => exact armed_sendmsg c c' rc hm hc

/- ### What is outstanding -/

/-- The timer of an open connection is pending while a packet is not acknowledged. The handler of
the timer is one step of the connection, so in no state is it executing. -/
def Covered (c : Con) : Prop := c.rtxq.head ≠ [] → Armed c

theorem queue_of_keeps (c c' : Con) (qs : List ℕ) (h : Keeps c c' qs) (hq : c'.rtxq.head ≠ []) :
    c.rtxq.head ≠ [] := by
  obtain ⟨e', he'⟩ := List.exists_mem_of_ne_nil _ hq
  obtain ⟨e, he, -⟩ := h.queue e' he'
  exact List.ne_nil_of_mem he

def isPush : Act → Bool
  | .work (.skb (.xmit _) _) => true
  | _ => false

/-- Only the send path adds to the queue. -/
theorem conStep_queue (c c' : Con) (a : Act) (he : Est c) (h : conStep c a = some c')
    (ha : isPush a = false) (hq : c'.rtxq.head ≠ []) : c.rtxq.head ≠ [] := by
  rcases conStep_keeps c c' a h he.tcfa he.syn with ⟨i, rfl, hw⟩ | hk | ⟨id, k, ts, now, xmit, -, hk⟩
  · cases hw with
    | send left sent o now hpc =>
      have hsame : (sndData c left sent o now).rtxq = c.rtxq := by
        unfold sndData pepdnaMinipSkbSend
        cases o with
        | xmit rc => cases ha
        | _ =>
          dsimp only
          split
          · split <;> rfl
          · rfl
      rw [hsame] at hq
      exact hq
    | close => exact queue_of_keeps c _ _ (keeps_close c) hq
    | put =>
      rw [pepdnaConPut_eq] at hq
      exact hq
    | _ => exact hq
  · exact queue_of_keeps c c' _ hk hq
  · exact queue_of_keeps c c' _ hk hq

theorem push_frame (c c' : Con) (a : Act) (h : conStep c a = some c') (ha : isPush a = true) :
    c'.rtxq.head ≠ [] ∧ (c'.lflag, c'.timer) = (c.lflag, c.timer) := by
  unfold isPush at ha
  split at ha
  · next rc now =>
    cases workStep_cases c c' _ h with
    | send left sent o now hpc =>
      refine ⟨?_, sndData_frame c left sent _ now⟩
      have hpush : (sndData c left sent (.xmit rc) now).rtxq =
          rtxqueuePush c.rtxq (dataPdu c (left.take MINIP_MSS) now) := by
        unfold sndData pepdnaMinipSkbSend
        dsimp only
        split
        · split <;> rfl
        · rfl
      rw [hpush]
      exact List.append_ne_nil_of_right_ne_nil _ (List.cons_ne_nil _ _)
  · cases ha

/- ### Runs -/

structure Tended (c : Con) : Prop where
  est : Est c
  live : Live c ∨ c.lflag = false
  covered : Covered c

def CoveredAfter (c : Con) (a : Act) : Prop := ∀ c', conStep c a = some c' → Covered c'

/-- A packet is sent on an open connection only while its timer is pending. -/
def ArmedSend (c : Con) (a : Act) : Prop := isPush a = true → Armed c

instance (c : Con) (a : Act) : Decidable (ArmedSend c a) :=
  inferInstanceAs (Decidable (isPush a = true → c.lflag = true → c.timer = true))

theorem covered_step (c c' : Con) (a : Act) (hc : Tended c) (hp : NoSetup a) (hs : ArmedSend c a)
    (h : conStep c a = some c') : Covered c' := by
  intro hq hf
  have hlive : Live c := by
    refine hc.live.resolve_right fun hf' => ?_
    rw [rcvStep_unflagged c c' a (conStep_rcv c c' a h hc.est hp) hf'] at hf
    cases hf
  refine armed_step c c' a hc.est hlive h ?_ hf
  cases ha : isPush a with
  | true => exact hs ha
  | false => exact hc.covered (conStep_queue c c' a hc.est h ha hq)

theorem tended_step (c : Con) (a : Act) (c' : Con) (hc : Tended c) (hp : NoSetup a)
    (hs : ArmedSend c a) (h : conStep c a = some c') : Tended c' := by
  have hr := conStep_rcv c c' a h hc.est hp
  exact ⟨est_rcv c c' a hc.est hr, unflagged_step c c' a hc.est hr h hc.live,
    covered_step c c' a hc hp hs h⟩

theorem coveredAfter_iff (c : Con) (a : Act) (c' : Con) (hc : Tended c) (hp : NoSetup a)
    (h : conStep c a = some c') : CoveredAfter c a ↔ ArmedSend c a := by
  constructor
  · intro hcov ha hf
    obtain ⟨hq, hframe⟩ := push_frame c c' a h ha
    simp only [Prod.mk.injEq] at hframe
    rw [← hframe.2]
    exact hcov c' h hq (hframe.1.trans hf)
  · intro hs d hd
    exact covered_step c d a hc hp hs hd

/-- The timer covers what is outstanding in exactly the runs that send only while it is pending. -/
theorem conRun_covered_iff (mode : Mode) (syn : SynTuple) (acts : List Act) (c : Con)
    (h : Lts.run conStep (openCon mode syn) acts = some c) (hp : ∀ a ∈ acts, NoSetup a) :
    Lts.Along conStep CoveredAfter (openCon mode syn) acts ↔
      Lts.Along conStep ArmedSend (openCon mode syn) acts := by
  have hstart : Tended (openCon mode syn) :=
    ⟨est_openCon mode syn, Or.inl (live_openCon mode syn), fun hq => absurd rfl hq⟩
  exact Lts.along_congr Tended (fun _ a => NoSetup a) CoveredAfter ArmedSend tended_step
    coveredAfter_iff _ c acts hstart (Lts.along_of_forall NoSetup _ acts hp) h

/- The first packet of the connection. -/
def firstSend : List Act :=
  [.work .tau, .work .tau, .work .tau, .work (.read [1]), .work (.skb (.xmit 0) 5)]

def conAfter (acts : List Act) : Con :=
  (Lts.run conStep (openCon .tcp2minip sampleSyn) acts).getD (openCon .tcp2minip sampleSyn)

/- An ACK comes in before it. -/
def ackedBefore : List Act := .recv (.ack sampleSyn.hashId 11 5) 6 (fun _ => 0) :: firstSend

theorem ackedBefore_covered :
    (conAfter ackedBefore).rtxq.head ≠ [] ∧
      Lts.Along conStep CoveredAfter (openCon .tcp2minip sampleSyn) ackedBefore :=
  ⟨by decide +kernel, (conRun_covered_iff .tcp2minip sampleSyn ackedBefore (conAfter ackedBefore)
    (by decide +kernel) (by decide +kernel)).mpr (by decide +kernel)⟩

theorem firstSend_uncovered :
    Lts.run conStep (openCon .tcp2minip sampleSyn) firstSend = some (conAfter firstSend) ∧
      (conAfter firstSend).state = .established ∧ (conAfter firstSend).lflag = true ∧
      (conAfter firstSend).rtxq.head ≠ [] ∧ (conAfter firstSend).timer = false := by
  decide +kernel

end PepDna.Minip
