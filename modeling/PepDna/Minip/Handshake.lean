import PepDna.Minip.Session
import PepDna.Minip.Window

/-!
# The handshake

`pepdna_minip_recv_response` increments `last_acked` and `next_recv` and hands
the SYN to the stack without looking at the state of the connection. Until the
first RESPONSE is handled the two counters are at their initial values, because
the far proxy has no data to acknowledge and numbers its own from
`MINIP_FIRST_SEQ + 1`; every RESPONSE after it is taken again.
-/

namespace PepDna.Minip

/- ### The side of the client before a RESPONSE -/

/-- What that side has on the wire. -/
def Unanswered.sent : Packet → Prop
  | .request .. => True
  | .finished _ => True
  | .ack _ k _ => k = MINIP_FIRST_SEQ
  | _ => False

structure Unanswered (c : Con) : Prop where
  mode : c.mode = .tcp2minip
  syn : c.synPending = false
  lsock : c.lsock = false
  pending : c.pending = false
  pc : c.pc = .idle
  rx : c.rx = none
  timer : c.timer = false
  nextRecv : c.nextRecv = MINIP_FIRST_SEQ
  lastAcked : c.lastAcked = MINIP_FIRST_SEQ
  tx : ∀ p ∈ c.tx, Unanswered.sent p

theorem unanswered_alloc (syn : SynTuple) :
    Unanswered (pepdnaConAlloc .tcp2minip syn syn.hashId) :=
  ⟨rfl, rfl, rfl, rfl, rfl, rfl, rfl, rfl, rfl, nofun⟩

def answerPart (c : Con) :=
  (c.mode, c.synPending, c.lsock, c.pending, c.pc, c.rx, c.timer, c.nextRecv, c.lastAcked)

/-- A step that touches nothing of this and sends only such packets. -/
theorem unanswered_store (c c' : Con) (hc : Unanswered c) (h : answerPart c' = answerPart c)
    (ht : ∀ p ∈ c'.tx, Unanswered.sent p) : Unanswered c' := by
  simp only [answerPart, Prod.mk.injEq] at h
  obtain ⟨h1, h2, h3, h4, h5, h6, h7, h8, h9⟩ := h
  exact ⟨h1.trans hc.mode, h2.trans hc.syn, h3.trans hc.lsock, h4.trans hc.pending, h5.trans hc.pc,
    h6.trans hc.rx, h7.trans hc.timer, h8.trans hc.nextRecv, h9.trans hc.lastAcked, ht⟩

theorem unanswered_transmit (c : Con) (p : Packet) (hc : Unanswered c) (h : Unanswered.sent p) :
    Unanswered (transmit c p) := by
  refine unanswered_store c _ hc rfl ?_
  intro q hq
  rcases List.mem_append.mp hq with hq | hq
  · exact hc.tx q hq
  · rw [List.mem_singleton.mp hq]
    exact h

theorem unanswered_close (c : Con) (hc : Unanswered c) : Unanswered (pepdnaConClose c) := by
  rw [pepdnaConClose_eq]
  exact ⟨hc.mode, hc.syn, by simp [hc.lsock], hc.pending, hc.pc, hc.rx, by simp [hc.timer],
    hc.nextRecv, hc.lastAcked, hc.tx⟩

/-- What the far proxy has on the wire for it by then. -/
def Unanswered.received : Packet → Prop
  | .data d => MINIP_FIRST_SEQ < d.seq
  | .ack .. => False
  | _ => True

theorem unanswered_recv (c : Con) (p : Packet) (now : ℕ) (xmit : ℕ → Int) (hc : Unanswered c)
    (hp : Unanswered.received p) (hr : takesResponse c (.recv p now xmit) = false) :
    Unanswered (pepdnaMinipRecvPacket c p now xmit) := by
  unfold pepdnaMinipRecvPacket
  split
  · next hfound =>
    cases p with
    | request => exact hc
    | response id seq ack =>
      exact absurd ⟨hfound.1, hfound.2, hc.rx⟩ (decide_eq_false_iff_not.mp hr)
    | data d =>
      have hne : d.seq ≠ c.nextRecv := by
        rw [hc.nextRecv]
        exact Nat.ne_of_gt hp
      dsimp only
      unfold pepdnaConMinip2iFwd
      rw [if_neg hne]
      exact unanswered_transmit c _ hc hc.nextRecv
    | ack => exact hp.elim
    | delete id =>
      have hsent := unanswered_transmit c (.finished c.id) hc trivial
      exact unanswered_close _ (unanswered_store _ _ hsent rfl hsent.tx)
    | finished id => exact unanswered_close _ (unanswered_store c _ hc rfl hc.tx)
  · exact hc

theorem unanswered_tcfa (c c' : Con) (rc : Int) (now : ℕ) (hc : Unanswered c)
    (h : TcfaStep c rc now c') : Unanswered c' := by
  have hfar (hm : c.mode = .minip2tcp) : Unanswered c' := by
    rw [hc.mode] at hm
    cases hm
  cases h with
  | requestFail hm ht hrc =>
    have hclosed := unanswered_close c hc
    exact unanswered_store _ _ hclosed rfl hclosed.tx
  | request hm ht hrc =>
    have hsent := unanswered_transmit c
      (.request c.id MINIP_FIRST_SEQ MINIP_FIRST_SEQ now c.tuple) hc trivial
    exact unanswered_store _ _ hsent rfl hsent.tx
  | requestSent hm ht => exact unanswered_store c _ hc rfl hc.tx
  | connectFail hm => exact hfar hm
  | connect hm => exact hfar hm
  | responseFail hm => exact hfar hm
  | response hm => exact hfar hm
  | assign hm => exact hfar hm
  | register hm => exact hfar hm
  | flag hm => exact hfar hm
  | wake hm => exact hfar hm

theorem unanswered_step (c c' : Con) (a : Act) (hc : Unanswered c) (h : conStep c a = some c')
    (hp : ∀ p now xmit, a = .recv p now xmit → Unanswered.received p)
    (hr : takesResponse c a = false) : Unanswered c' := by
  cases a with
  | tcfa rc now => exact unanswered_tcfa c c' rc now hc (tcfaStep_cases c c' rc now h)
  | accept => simp [conStep, pepdnaTcpAccept, hc.syn] at h
  | dataReady => simp [conStep, hc.lsock] at h
  | work i =>
    cases i <;> simp [conStep, workStep, hc.pc, hc.pending] at h
  | timeout now xmit => simp [conStep, hc.timer] at h
  | recv p now xmit =>
    simp only [conStep, hc.rx, if_true, Option.some.injEq] at h
    exact h ▸ unanswered_recv c p now xmit hc (hp p now xmit rfl) hr
  | sendmsg rc => simp [conStep, minip2iSendmsg, hc.rx] at h

/- ### The far proxy before the RESPONSE is handled -/

def lullPart (c : Con) := (c.nextSeq, c.window, c.lastAcked, c.pc, c.tcfa, c.rx, c.synPending)

/- The connection neither sends nor is acknowledged, and is woken up only if it is open. -/
structure Lull (c c' : Con) : Prop where
  part : lullPart c' = lullPart c
  lflag : c'.lflag = true → c.lflag = true
  pending : c'.pending = true → c.pending = true ∨ c.lflag = true

theorem lull_store (c c' : Con)
    (h : (lullPart c', c'.lflag, c'.pending) = (lullPart c, c.lflag, c.pending)) : Lull c c' := by
  simp only [Prod.mk.injEq] at h
  obtain ⟨h1, h2, h3⟩ := h
  exact ⟨h1, fun hf => h2 ▸ hf, fun hp => Or.inl (h3 ▸ hp)⟩

theorem lull_trans (c d e : Con) (h : Lull c d) (h' : Lull d e) : Lull c e := by
  refine ⟨h'.part.trans h.part, fun hf => h.lflag (h'.lflag hf), fun hp => ?_⟩
  rcases h'.pending hp with hp | hf
  · exact h.pending hp
  · exact Or.inr (h.lflag hf)

theorem lull_close (c : Con) : Lull c (pepdnaConClose c) := by
  rw [pepdnaConClose_eq]
  exact ⟨rfl, fun hf => (Bool.and_eq_true_iff.mp hf).1, Or.inl⟩

theorem lull_delete_close (c : Con) (id : ℕ) :
    Lull c (pepdnaConClose (transmit c (.delete id))) :=
  lull_trans _ _ _ (lull_store c (transmit c _) rfl) (lull_close _)

theorem lull_dataReady (c : Con) : Lull c (pepdnaL2rConnDataReady c) := by
  rw [pepdnaL2rConnDataReady_eq]
  refine ⟨rfl, id, fun hp => ?_⟩
  rcases Bool.or_eq_true_iff.mp hp with hp | hf
  · exact Or.inl hp
  · exact Or.inr (Bool.and_eq_true_iff.mp hf).2

theorem lull_fullRtx (c : Con) (ack now : ℕ) (xmit : ℕ → Int) :
    Lull c (rtxqFullRtx c ack now xmit).1 := lull_store _ _ rfl

theorem lull_timeout (c : Con) (now : ℕ) (xmit : ℕ → Int) :
    Lull c (minipSenderTimeout c now xmit) := by
  unfold minipSenderTimeout
  dsimp only
  split
  · have hrtx := lull_trans c _ _ (lull_store c
        { touchRtxq { c with timer := false } with sending := false, state := .recovery } rfl)
      (lull_fullRtx _ (u32 (c.lastAcked + 1)) now xmit)
    split
    · exact lull_trans _ _ _ hrtx (lull_store _ _ rfl)
    · exact lull_trans _ _ _ hrtx (lull_delete_close _ _)
  · exact lull_store _ _ rfl

theorem lull_dupAck (c : Con) (ack now : ℕ) (xmit : ℕ → Int) :
    Lull c (recvDupAck c ack now xmit) := by
  have hset : Lull c { c with
      dupAcks := u32 (c.dupAcks + 1), state := .recovery, sending := false } := lull_store _ _ rfl
  unfold recvDupAck
  dsimp only
  split
  · exact hset
  · have hrtx := lull_trans _ _ _ hset (lull_fullRtx _ ack now xmit)
    split
    · exact hrtx
    · exact lull_trans _ _ _ hrtx (lull_delete_close _ _)

/-- An ACK that is not above `last_acked`. -/
theorem lull_recvAck (c : Con) (ack ts now : ℕ) (xmit : ℕ → Int) (h : ack ≤ c.lastAcked) :
    Lull c (pepdnaMinipRecvAck c ack ts now xmit) := by
  have hpart : (lullPart (ackSample c ts now), (ackSample c ts now).lflag,
      (ackSample c ts now).pending) = (lullPart c, c.lflag, c.pending) := by
    rw [ackSample_eq]
    rfl
  have hsample := lull_store _ _ hpart
  have hle : ¬ack > (ackSample c ts now).lastAcked := by
    have hl := hsample.part
    simp only [lullPart, Prod.mk.injEq] at hl
    omega
  unfold pepdnaMinipRecvAck
  split
  · exact lull_store _ _ rfl
  · dsimp only
    rw [if_neg hle]
    exact lull_trans _ _ _ hsample (lull_dupAck _ ack now xmit)

theorem lull_recvFinished (c : Con) : Lull c (pepdnaMinipRecvFinished c) :=
  lull_trans _ _ _ (lull_store c { c with rflag := false } rfl) (lull_close _)

/- The connection has not assigned its numbers, or never will. -/
structure Dormant (c : Con) : Prop where
  tcfa : c.tcfa = .queued ∨ c.tcfa = .respond ∨ c.tcfa = .assign ∨ c.tcfa = .done
  lflag : c.lflag = false
  pending : c.pending = false
  pc : c.pc = .idle
  nextSeq : c.nextSeq = MINIP_FIRST_SEQ
  lastAcked : c.lastAcked = MINIP_FIRST_SEQ
  window : c.window = WINDOW_SIZE

/- Nothing is acknowledged, so every number used is a packet less in the window. -/
structure Active (c : Con) : Prop where
  tcfa : c.tcfa ≠ .queued ∧ c.tcfa ≠ .respond ∧ c.tcfa ≠ .assign
  count : c.nextSeq + c.window = MINIP_FIRST_SEQ + 1 + WINDOW_SIZE
  window : c.window ≤ WINDOW_SIZE
  batch : batchFits c.pc c.window
  left : ∀ left sent, c.pc = .send left sent → left ≠ []

structure Waiting (c : Con) : Prop where
  mode : c.mode = .minip2tcp
  syn : c.synPending = false
  rx : c.rx = none
  last : MINIP_FIRST_SEQ ≤ c.lastAcked
  wire : ∀ p ∈ c.tx, Unanswered.received p
  queue : ∀ e ∈ c.rtxq.head, MINIP_FIRST_SEQ < e.skb.seq
  phase : Dormant c ∨ Active c

theorem waiting_alloc (syn : SynTuple) (id : ℕ) : Waiting (pepdnaConAlloc .minip2tcp syn id) :=
  ⟨rfl, rfl, rfl, le_rfl, nofun, nofun, Or.inl ⟨Or.inl rfl, rfl, rfl, rfl, rfl, rfl, rfl⟩⟩

theorem sameData_seq (d p : DataPdu) (h : SameData d p) : d.seq = p.seq := by
  unfold SameData at h
  rw [h]

/-- The handlers that can run by then. -/
theorem waiting_lull (c c' : Con) (qs : List ℕ) (hc : Waiting c) (hl : Lull c c')
    (hk : Keeps c c' qs) (hm : c'.mode = c.mode)
    (hack : ∀ p ∈ c'.tx, p.kind = .ack → p ∈ c.tx) : Waiting c' := by
  have hpart := hl.part
  simp only [lullPart, Prod.mk.injEq] at hpart
  obtain ⟨h1, h2, h3, h4, h5, h6, h7⟩ := hpart
  refine ⟨hm.trans hc.mode, h7.trans hc.syn, h6.trans hc.rx, h3 ▸ hc.last, ?_, ?_, ?_⟩
  · intro p hp
    cases p with
    | data d =>
      rcases hk.data d hp with hp | ⟨e, he, hsd⟩
      · exact hc.wire _ hp
      · show MINIP_FIRST_SEQ < d.seq
        rw [sameData_seq d e.skb hsd]
        exact hc.queue e he
    | ack id k ts => exact hc.wire _ (hack _ hp rfl)
    | _ => trivial
  · intro e he
    obtain ⟨x, hx, hsd⟩ := hk.queue e he
    rw [sameData_seq e.skb x.skb hsd]
    exact hc.queue x hx
  · rcases hc.phase with hd | ha
    · left
      have hflag : c'.lflag = false := by
        by_contra hf
        have hf' := hl.lflag (Bool.eq_true_of_not_eq_false hf)
        rw [hd.lflag] at hf'
        cases hf'
      have hpend : c'.pending = false := by
        by_contra hp
        rcases hl.pending (Bool.eq_true_of_not_eq_false hp) with hp' | hf'
        · rw [hd.pending] at hp'
          cases hp'
        · rw [hd.lflag] at hf'
          cases hf'
      exact ⟨h5 ▸ hd.tcfa, hflag, hpend, h4 ▸ hd.pc, h1 ▸ hd.nextSeq, h3 ▸ hd.lastAcked,
        h2 ▸ hd.window⟩
    · right
      refine ⟨h5 ▸ ha.tcfa, ?_, h2 ▸ ha.window, ?_, h4 ▸ ha.left⟩
      · rw [h1, h2]
        exact ha.count
      · rw [h4, h2]
        exact ha.batch

theorem waiting_ops (c c' : Con) (qs : List ℕ) (hc : Waiting c) (hl : Lull c c')
    (hk : Keeps c c' qs) (ho : Ops [.data, .delete] c c') : Waiting c' := by
  have hfixed := ops_fixed c c' ho
  simp only [fixedPart, Prod.mk.injEq] at hfixed
  obtain ⟨ps, hps, hkind⟩ := ops_tx c c' ho
  refine waiting_lull c c' qs hc hl hk hfixed.1 ?_
  intro p hp ha
  rw [hps] at hp
  rcases List.mem_append.mp hp with hp | hp
  · exact hp
  · exact absurd (hkind p hp).1 (by simp [ha])

/- ### The work of the far proxy -/

/-- A step of an active connection that sends no data and leaves its numbers. -/
theorem waiting_move (c c' : Con) (hc : Waiting c) (ha : Active c)
    (h : (c'.mode, c'.synPending, c'.rx, c'.lastAcked, c'.nextSeq, c'.window) =
      (c.mode, c.synPending, c.rx, c.lastAcked, c.nextSeq, c.window))
    (ht : c'.tcfa ≠ .queued ∧ c'.tcfa ≠ .respond ∧ c'.tcfa ≠ .assign)
    (hq : ∀ e ∈ c'.rtxq.head, e ∈ c.rtxq.head) (hw : ∀ p ∈ c'.tx, Unanswered.received p)
    (hb : batchFits c'.pc c'.window) (hl : ∀ left sent, c'.pc = .send left sent → left ≠ []) :
    Waiting c' := by
  simp only [Prod.mk.injEq] at h
  obtain ⟨h1, h2, h3, h4, h5, h6⟩ := h
  refine ⟨h1.trans hc.mode, h2.trans hc.syn, h3.trans hc.rx, h4 ▸ hc.last, hw,
    fun e he => hc.queue e (hq e he), Or.inr ⟨ht, ?_, h6 ▸ ha.window, hb, hl⟩⟩
  rw [h5, h6]
  exact ha.count

/-- A step of a dormant connection that does not assign the numbers. -/
theorem waiting_rest (c c' : Con) (hc : Waiting c) (hd : Dormant c)
    (h : (c'.mode, c'.synPending, c'.rx, c'.lastAcked, c'.nextSeq, c'.window, c'.pending, c'.pc) =
      (c.mode, c.synPending, c.rx, c.lastAcked, c.nextSeq, c.window, c.pending, c.pc))
    (ht : c'.tcfa = .respond ∨ c'.tcfa = .assign ∨ c'.tcfa = .done) (hf : c'.lflag = false)
    (hq : ∀ e ∈ c'.rtxq.head, e ∈ c.rtxq.head) (hw : ∀ p ∈ c'.tx, Unanswered.received p) :
    Waiting c' := by
  simp only [Prod.mk.injEq] at h
  obtain ⟨h1, h2, h3, h4, h5, h6, h7, h8⟩ := h
  exact ⟨h1.trans hc.mode, h2.trans hc.syn, h3.trans hc.rx, h4 ▸ hc.last, hw,
    fun e he => hc.queue e (hq e he), Or.inl ⟨Or.inr ht, hf, h7.trans hd.pending, h8.trans hd.pc,
      h5.trans hd.nextSeq, h4.trans hd.lastAcked, h6.trans hd.window⟩⟩

/-- Another frame without data. -/
theorem received_append (c : Con) (hc : Waiting c) (p : Packet) (hp : Unanswered.received p) :
    ∀ q ∈ c.tx ++ [p], Unanswered.received q := by
  intro q hq
  rcases List.mem_append.mp hq with hq | hq
  · exact hc.wire q hq
  · rw [List.mem_singleton.mp hq]
    exact hp

/- A close keeps the queue or empties it. -/
theorem mem_close_rtxq (c : Con) (e : RtxqEntry) (h : e ∈ (pepdnaConClose c).rtxq.head) :
    e ∈ c.rtxq.head := by
  rw [pepdnaConClose_eq] at h
  dsimp only at h
  split at h
  · cases h
  · exact h

/-- A packet is numbered above `MINIP_FIRST_SEQ`. -/
theorem active_nextSeq (c : Con) (ha : Active c) : MINIP_FIRST_SEQ < c.nextSeq := by
  have hcount := ha.count
  have hw := ha.window
  omega

theorem waiting_skbSend (c : Con) (buf : Bytes) (o : SkbSend) (now : ℕ) (hc : Waiting c)
    (ha : Active c) (pc : WorkPc) (sdus : List Bytes) (hb : batchFits pc c.window)
    (hl : ∀ left sent, pc = .send left sent → left ≠ []) :
    Waiting { (pepdnaMinipSkbSend c buf o now).1 with pc := pc, sdus := sdus } := by
  cases o with
  | xmit rc =>
    have hseq := active_nextSeq c ha
    refine ⟨hc.mode, hc.syn, hc.rx, hc.last, ?_, ?_,
      Or.inr ⟨ha.tcfa, ha.count, ha.window, hb, hl⟩⟩
    · intro p hp
      rcases List.mem_append.mp hp with hp | hp
      · exact hc.wire p hp
      · rw [List.mem_singleton.mp hp]
        exact hseq
    · intro e he
      rcases List.mem_append.mp he with he | he
      · exact hc.queue e he
      · rw [List.mem_singleton.mp he]
        exact hseq
  | _ => exact waiting_move c _ hc ha rfl ha.tcfa (fun _ => id) hc.wire hb hl

theorem waiting_send (c : Con) (left : Bytes) (sent : ℕ) (o : SkbSend) (now : ℕ) (hc : Waiting c)
    (ha : Active c) (hpc : c.pc = .send left sent) : Waiting (sndData c left sent o now) := by
  have hne := ha.left left sent hpc
  have hfit : left.length ≤ MINIP_MSS * c.window := by
    have hb := ha.batch
    rw [hpc] at hb
    exact hb
  unfold sndData
  dsimp only
  split
  · split
    · exact waiting_skbSend c _ o now hc ha .test _ trivial nofun
    · exact waiting_skbSend c _ o now hc ha (.delete (-1)) _ trivial nofun
  · refine waiting_skbSend c _ o now hc ha (.advance (left.drop MINIP_MSS) _) _ ?_ nofun
    have hpos : 0 < left.length := List.length_pos_iff.mpr hne
    have hw : 0 < c.window := by
      by_contra h0
      rw [Nat.eq_zero_of_not_pos h0] at hfit
      omega
    have hmss : MINIP_MSS ≤ MINIP_MSS * c.window := Nat.le_mul_of_pos_right _ hw
    simp only [batchFits, List.length_drop]
    omega

theorem waiting_advance (c : Con) (left : Bytes) (sent : ℕ) (hc : Waiting c) (ha : Active c)
    (hpc : c.pc = .advance left sent) : Waiting (sndAdvance c left sent) := by
  have hfit : left.length + MINIP_MSS ≤ MINIP_MSS * c.window := by
    have hb := ha.batch
    rw [hpc] at hb
    exact hb
  have hmss : MINIP_MSS = 1481 := rfl
  have hW : WINDOW_SIZE = 12 := rfl
  have h9 : MINIP_FIRST_SEQ = 9 := rfl
  have hcount := ha.count
  have hwin := ha.window
  have hw : 0 < c.window := by
    by_contra h0
    rw [Nat.eq_zero_of_not_pos h0] at hfit
    omega
  have hseq : u32 (c.nextSeq + 1) = c.nextSeq + 1 := u32_of_lt _ (by omega)
  refine ⟨hc.mode, hc.syn, hc.rx, hc.last, hc.wire, hc.queue, Or.inr ⟨ha.tcfa, ?_, ?_, ?_, ?_⟩⟩
  · simp only [sndAdvance, hseq, hw, if_true]
    omega
  · simp only [sndAdvance, hw, if_true]
    omega
  · simp only [sndAdvance, hw, if_true]
    split
    · trivial
    · simp only [batchFits]
      rw [hmss] at hfit ⊢
      omega
  · intro l n hp
    simp only [sndAdvance] at hp
    split at hp
    · cases hp
    · next hne =>
      cases hp
      exact hne

theorem waiting_work (c c' : Con) (i : WorkIn) (hc : Waiting c) (h : WorkStep c i c') :
    Waiting c' := by
  rcases hc.phase with hd | ha
  · -- its work is neither queued nor running
    have hp := workStep_idle c c' i h hd.pc
    rw [hd.pending] at hp
    cases hp
  · have hmove (c' : Con)
        (h : (c'.mode, c'.synPending, c'.rx, c'.lastAcked, c'.nextSeq, c'.window) =
          (c.mode, c.synPending, c.rx, c.lastAcked, c.nextSeq, c.window))
        (ht : (c'.tcfa, c'.rtxq, c'.tx) = (c.tcfa, c.rtxq, c.tx))
        (hb : batchFits c'.pc c'.window)
        (hl : ∀ left sent, c'.pc = .send left sent → left ≠ []) : Waiting c' := by
      simp only [Prod.mk.injEq] at ht
      obtain ⟨h1, h2, h3⟩ := ht
      exact waiting_move c c' hc ha h (h1 ▸ ha.tcfa) (fun e he => h2 ▸ he) (h3 ▸ hc.wire) hb hl
    have hfit (pc : WorkPc) (he : c.pc = pc) : batchFits pc c.window := he ▸ ha.batch
    cases workStep_line c c' i h with
    | start he hp => exact hmove _ rfl rfl trivial (by simp)
    | jump _ pc pc' he hj =>
      cases hj with
      | recvmsg => exact hmove _ rfl rfl (le_refl (MINIP_MSS * c.window)) (by simp)
      | _ => exact hmove _ rfl rfl trivial (by simp)
    | read howMuch bs he hne hle =>
      refine hmove _ rfl rfl (hle.trans (hfit _ he)) ?_
      intro l n hp
      cases hp
      exact hne
    | send left sent o now he => exact waiting_send c left sent o now hc ha he
    | advance left sent he => exact waiting_advance c left sent hc ha he
    | delete rc he =>
      exact waiting_move c _ hc ha rfl ha.tcfa (fun _ => id) (received_append c hc _ trivial)
        trivial (by simp)
    | close he =>
      have hq := mem_close_rtxq c
      rw [pepdnaConClose_eq] at hq ⊢
      exact waiting_move c _ hc ha rfl ha.tcfa hq hc.wire trivial (by simp)
    | put he =>
      rw [pepdnaConPut_eq]
      exact hmove _ rfl rfl trivial (by simp)

/- The registration work stands before the assignment of the numbers, or behind it. -/
theorem dormant_at (c : Con) (hc : Waiting c)
    (ht : c.tcfa = .queued ∨ c.tcfa = .respond ∨ c.tcfa = .assign) : Dormant c := by
  rcases hc.phase with hd | ha
  · exact hd
  · obtain ⟨h1, h2, h3⟩ := ha.tcfa
    rcases ht with ht | ht | ht
    · exact absurd ht h1
    · exact absurd ht h2
    · exact absurd ht h3

theorem active_at (c : Con) (hc : Waiting c)
    (ht : c.tcfa = .register ∨ c.tcfa = .flag ∨ c.tcfa = .wake) : Active c := by
  rcases hc.phase with hd | ha
  · have hne := hd.tcfa
    rcases ht with ht | ht | ht <;> simp [ht] at hne
  · exact ha

theorem waiting_tcfa (c c' : Con) (rc : Int) (now : ℕ) (hc : Waiting c)
    (h : TcfaStep c rc now c') : Waiting c' := by
  have hnear (hm : c.mode = .tcp2minip) : Waiting c' := by
    rw [hc.mode] at hm
    cases hm
  have hclose (hd : Dormant c) : Waiting { pepdnaConClose c with tcfa := .done } := by
    have hq := mem_close_rtxq c
    rw [pepdnaConClose_eq] at hq ⊢
    exact waiting_rest c _ hc hd rfl (by simp) (by simp [hd.lflag]) hq hc.wire
  cases h with
  | requestFail hm => exact hnear hm
  | request hm => exact hnear hm
  | requestSent hm => exact hnear hm
  | connectFail hm ht => exact hclose (dormant_at c hc (by simp [ht]))
  | responseFail hm ht => exact hclose (dormant_at c hc (by simp [ht]))
  | connect hm ht =>
    have hd := dormant_at c hc (by simp [ht])
    exact waiting_rest c _ hc hd rfl (by simp) hd.lflag (fun _ => id) hc.wire
  | response hm ht =>
    have hd := dormant_at c hc (by simp [ht])
    exact waiting_rest c _ hc hd rfl (by simp) hd.lflag (fun _ => id)
      (received_append c hc _ trivial)
  | assign hm ht =>
    have hd := dormant_at c hc (by simp [ht])
    refine ⟨hc.mode, hc.syn, hc.rx, ?_, hc.wire, hc.queue, Or.inr ⟨by simp, ?_, ?_, ?_, ?_⟩⟩
    · dsimp only
      rw [hd.lastAcked]
      decide
    · dsimp only
      rw [hd.nextSeq, hd.window]
      decide
    · exact le_of_eq hd.window
    · simp only [hd.pc, batchFits]
    · simp [hd.pc]
  | register hm ht =>
    have ha := active_at c hc (by simp [ht])
    exact waiting_move c _ hc ha rfl (by simp) (fun _ => id) hc.wire ha.batch ha.left
  | flag hm ht =>
    have ha := active_at c hc (by simp [ht])
    exact waiting_move c _ hc ha rfl (by simp) (fun _ => id) hc.wire ha.batch ha.left
  | wake hm ht =>
    have ha := active_at c hc (by simp [ht])
    unfold wakeLsock
    split
    · rw [pepdnaL2rConnDataReady_eq]
      exact waiting_move c _ hc ha rfl (by simp) (fun _ => id) hc.wire ha.batch ha.left
    · exact waiting_move c _ hc ha rfl (by simp) (fun _ => id) hc.wire ha.batch ha.left

theorem waiting_step (c c' : Con) (a : Act) (hc : Waiting c) (h : conStep c a = some c')
    (hp : ∀ p now xmit, a = .recv p now xmit → Unanswered.sent p) : Waiting c' := by
  cases conStep_lines c c' a h with
  | tcfa rc now c' ht => exact waiting_tcfa c c' rc now hc (tcfaStep_cases c c' rc now ht)
  | accept c' hs =>
    rw [hc.syn] at hs
    cases hs
  | dataReady hl =>
    have hk : Keeps c (pepdnaL2rConnDataReady c) (seqs c) := by
      rw [pepdnaL2rConnDataReady_eq]
      exact keeps_store _ _ rfl
    exact waiting_ops c _ _ hc (lull_dataReady c) hk (.ready c hl)
  | work i c' hw => exact waiting_work c c' i hc hw
  | timeout now xmit =>
    exact waiting_ops c _ _ hc (lull_timeout c now xmit) (keeps_timeout c now xmit)
      (ops_timeout c now xmit)
  | recv p now xmit =>
    have hsent := hp p now xmit rfl
    unfold pepdnaMinipRecvPacket
    split
    · cases p with
      | request => exact hc
      | ack id k ts =>
        have hl := lull_recvAck c k ts now xmit (le_of_eq_of_le hsent hc.last)
        have hs := ops_recvAck c k ts now xmit
        rcases keeps_recvAck c k ts now xmit with hk | hk
        · exact waiting_ops c _ _ hc hl hk hs
        · exact waiting_ops c _ _ hc hl hk hs
      | finished id =>
        have hfixed := close_fixed { c with rflag := false }
        simp only [fixedPart, Prod.mk.injEq] at hfixed
        refine waiting_lull c _ _ hc (lull_recvFinished c) (keeps_recvFinished c) hfixed.1 ?_
        intro p hp _
        exact close_tx { c with rflag := false } ▸ hp
      | response => exact hsent.elim
      | data d => exact hsent.elim
      | delete id => exact hsent.elim
    · exact hc
  | sendmsg rc c' hm => simp [minip2iSendmsg, hc.rx] at hm

/- ### The session -/

theorem unanswered_delivered (c : Con) (p : Packet) (keep : Bool) (hc : Unanswered c) :
    Unanswered (delivered c p keep) := by
  refine unanswered_store c _ hc ?_ fun q hq => hc.tx q (delivered_tx c p q keep hq)
  unfold delivered
  split <;> rfl

theorem waiting_delivered (c : Con) (p : Packet) (keep : Bool) (hc : Waiting c) :
    Waiting (delivered c p keep) := by
  cases keep with
  | true => exact hc
  | false =>
    have hw (q : Packet) (hq : q ∈ (unsend c p).tx) : Unanswered.received q :=
      hc.wire q (List.mem_of_mem_erase hq)
    refine ⟨hc.mode, hc.syn, hc.rx, hc.last, hw, hc.queue, ?_⟩
    rcases hc.phase with hd | ha
    · exact Or.inl ⟨hd.tcfa, hd.lflag, hd.pending, hd.pc, hd.nextSeq, hd.lastAcked, hd.window⟩
    · exact Or.inr ⟨ha.tcfa, ha.count, ha.window, ha.batch, ha.left⟩

/- Until the first RESPONSE is handled nothing of the transfer has started. -/
structure Hello (s : Session) : Prop where
  near : Unanswered s.near
  far : ∀ b ∈ s.far, Waiting b

def sessionTakes (s : Session) : SessionAct → Bool
  | .toNear _ p _ now xmit => takesResponse s.near (.recv p now xmit)
  | _ => false

theorem hello_step (s t : Session) (a : SessionAct) (hs : Hello s) (h : SessionStep s a t)
    (hr : sessionTakes s a = false) : Hello t := by
  have hmem (i : ℕ) (b : Con) (hb : s.far[i]? = some b) : Waiting b :=
    hs.far b (List.mem_of_getElem? hb)
  have hrecv (a : Act) (ha : a.isRecv = false) (p : Packet) (now : ℕ) (xmit : ℕ → Int)
      (he : a = .recv p now xmit) (Q : Prop) : Q := by
    rw [he] at ha
    cases ha
  cases h with
  | near a c ha hstep =>
    exact ⟨unanswered_step _ c a hs.near hstep (fun p now xmit he => hrecv a ha p now xmit he _)
      (takesResponse_own _ a ha), hs.far⟩
  | far i a b c ha hb hstep =>
    exact ⟨hs.near, forall_mem_set Waiting _ i c hs.far (waiting_step b c a (hmem i b hb) hstep
      fun p now xmit he => hrecv a ha p now xmit he _)⟩
  | toNear i p keep now xmit b c hb hp hstep =>
    have hw := hmem i b hb
    refine ⟨unanswered_step _ c _ hs.near hstep ?_ hr,
      forall_mem_set Waiting _ i _ hs.far (waiting_delivered b p keep hw)⟩
    intro q _ _ he
    cases he
    exact hw.wire p hp
  | request id seq ack ts syn keep now xmit hp =>
    refine ⟨unanswered_delivered _ _ keep hs.near, ?_⟩
    intro b hb
    rcases List.mem_cons.mp hb with rfl | hb
    · exact waiting_alloc syn _
    · exact hs.far b hb
  | unknown p keep now xmit hp hk hf => exact ⟨unanswered_delivered _ p keep hs.near, hs.far⟩
  | toFar p keep now xmit i b c hp hk hf hb hstep =>
    refine ⟨unanswered_delivered _ p keep hs.near,
      forall_mem_set Waiting _ i c hs.far (waiting_step b c _ (hmem i b hb) hstep ?_)⟩
    intro q _ _ he
    cases he
    exact hs.near.tx p hp
  | loseNear p hp => exact ⟨unanswered_delivered _ p false hs.near, hs.far⟩
  | loseFar i p b hb hp =>
    exact ⟨hs.near, forall_mem_set Waiting _ i _ hs.far (waiting_delivered b p false (hmem i b hb))⟩

theorem sessionStep_syns (s t : Session) (a : SessionAct) (h : SessionStep s a t) :
    t.near.syns = s.near.syns + (sessionTakes s a).toNat := by
  have hdel (p : Packet) (keep : Bool) : (delivered s.near p keep).syns = s.near.syns := by
    unfold delivered
    split <;> rfl
  cases h with
  | near a c ha hstep => exact conStep_syns_own _ c a hstep ha
  | toNear i p keep now xmit b c hb hp hstep => exact conStep_syns _ c _ hstep
  | request => exact hdel _ _
  | unknown => exact hdel _ _
  | toFar => exact hdel _ _
  | far => rfl
  | loseNear => rfl
  | loseFar => rfl

def Opening (s : Session) : Prop := s.near.syns = 0 → Hello s

theorem opening_step (s : Session) (a : SessionAct) (t : Session) (hs : Opening s)
    (hstep : SessionStep s a t) : Opening t := by
  intro h0
  have hsyns := sessionStep_syns s t a hstep
  cases hr : sessionTakes s a with
  | true =>
    rw [hr, h0, Bool.toNat_true] at hsyns
    omega
  | false =>
    rw [hr, h0] at hsyns
    exact hello_step s t a (hs hsyns.symm) hstep hr

/- What a RESPONSE may change. -/
def handshakePart (c : Con) := (c.nextRecv, c.lastAcked, c.state, c.sending, c.syns)

/-- The first RESPONSE that is handled completes the handshake, and a later one has no effect. -/
def EffectOnce (s : Session) (a : SessionAct) : Prop :=
  sessionTakes s a = true → ∀ t, sessionStep s a = some t →
    handshakePart t.near =
      if s.near.syns = 0 then
        (MINIP_FIRST_SEQ + 1, MINIP_FIRST_SEQ + 1, .established, s.near.sending, 1)
      else handshakePart s.near

/-- A RESPONSE is handled by the connection only if none was before. -/
def FirstResponse (s : Session) (a : SessionAct) : Prop := sessionTakes s a = true → s.near.syns = 0

instance (s : Session) (a : SessionAct) : Decidable (FirstResponse s a) :=
  inferInstanceAs (Decidable (sessionTakes s a = true → s.near.syns = 0))

theorem sessionTakes_near (s t : Session) (a : SessionAct) (h : SessionStep s a t)
    (hr : sessionTakes s a = true) : t.near = pepdnaMinipRecvResponse s.near := by
  cases h with
  | toNear i p keep now xmit b c hb hp hstep =>
    have hr' : takesResponse s.near (.recv p now xmit) = true := hr
    cases conStep_cases _ c _ hstep with
    | response _ hc' => exact hc'
    | ops hno =>
      rw [hr'] at hno
      cases hno
    | delete ha =>
      cases p with
      | delete => cases hr'
      | _ => cases ha.1
    | finished ha =>
      cases p with
      | finished => cases hr'
      | _ => cases ha.1
    | tcfa rc now ha => cases ha
    | accept ha => cases ha
    | work i ha => cases ha
  | _ => cases hr

theorem effectOnce_iff (s : Session) (a : SessionAct) (t : Session) (hs : Opening s)
    (h : sessionStep s a = some t) : EffectOnce s a ↔ FirstResponse s a := by
  have hstep := sessionStep_cases s t a h
  constructor
  · intro honce hr
    by_contra h0
    have hpart := honce hr t h
    rw [if_neg h0, sessionTakes_near s t a hstep hr] at hpart
    simp only [handshakePart, pepdnaMinipRecvResponse, Prod.mk.injEq] at hpart
    omega
  · intro hfirst hr u hu
    cases h.symm.trans hu
    have h0 := hfirst hr
    have hnear := (hs h0).near
    rw [if_pos h0, sessionTakes_near s t a hstep hr]
    simp only [handshakePart, pepdnaMinipRecvResponse, hnear.nextRecv, hnear.lastAcked, h0]
    rfl

/-- The handshake takes effect exactly once, with one SYN handed to the stack, in the runs in which
no RESPONSE is handled after the first, and in no others. -/
theorem sessionRun_handshake_once_iff (syn : SynTuple) (acts : List SessionAct) (s : Session)
    (h : Lts.run sessionStep (newSession syn) acts = some s) :
    (Lts.Along sessionStep EffectOnce (newSession syn) acts ∧ s.near.syns ≤ 1) ↔
      Lts.Along sessionStep FirstResponse (newSession syn) acts := by
  have hstart : Opening (newSession syn) :=
    fun _ => ⟨unanswered_alloc syn, fun _ hb => absurd hb List.not_mem_nil⟩
  have hiff := Lts.along_congr Opening (fun _ _ => True) EffectOnce FirstResponse
    (fun s a t hs _ _ hstep => opening_step s a t hs (sessionStep_cases s t a hstep))
    (fun s a t hs _ => effectOnce_iff s a t hs) _ s acts hstart
    (Lts.along_of_forall (fun _ => True) _ acts fun _ _ => trivial) h
  refine ⟨fun ha => hiff.mp ha.1, fun ha => ⟨hiff.mpr ha, ?_⟩⟩
  refine Lts.run_invariant_along (fun s => s.near.syns ≤ 1) FirstResponse ?_ _ s acts
    (Nat.zero_le 1) ha h
  intro s a t hle hfirst hstep
  have hsyns := sessionStep_syns s t a (sessionStep_cases s t a hstep)
  cases hr : sessionTakes s a with
  | true =>
    rw [hr, hfirst hr] at hsyns
    exact le_of_eq hsyns
  | false =>
    rw [hr] at hsyns
    exact hsyns.trans_le hle

/- A handshake in which the network keeps a copy of the RESPONSE. -/
def oneResponse : List SessionAct :=
  [.near (.tcfa 0 5), .near (.tcfa 0 5),
    .toFar (.request sampleSyn.hashId 9 9 5 sampleSyn) false 6 fun _ => 0,
    .far 0 (.tcfa 0 6), .far 0 (.tcfa 0 6), .far 0 (.tcfa 0 6), .far 0 (.tcfa 0 6),
    .far 0 (.tcfa 0 6), .far 0 (.tcfa 0 6),
    .toNear 0 (.response sampleSyn.hashId 9 10) true 7 fun _ => 0, .near .accept]

def sessionAfter (acts : List SessionAct) : Session :=
  (Lts.run sessionStep (newSession sampleSyn) acts).getD (newSession sampleSyn)

theorem oneResponse_once :
    Lts.Along sessionStep EffectOnce (newSession sampleSyn) oneResponse ∧
      (sessionAfter oneResponse).near.syns ≤ 1 :=
  (sessionRun_handshake_once_iff sampleSyn oneResponse (sessionAfter oneResponse)
    (by decide +kernel)).mpr (by decide +kernel)

/- The copy comes in after the connection is open. -/
def lateResponse : List SessionAct :=
  oneResponse ++ [.toNear 0 (.response sampleSyn.hashId 9 10) false 8 fun _ => 0]

theorem lateResponse_taken_again :
    Lts.run sessionStep (newSession sampleSyn) lateResponse = some (sessionAfter lateResponse) ∧
      (sessionAfter oneResponse).near.nextRecv = MINIP_FIRST_SEQ + 1 ∧
      (sessionAfter oneResponse).near.syns = 1 ∧
      (sessionAfter lateResponse).near.nextRecv = MINIP_FIRST_SEQ + 2 ∧
      (sessionAfter lateResponse).near.lastAcked = MINIP_FIRST_SEQ + 2 ∧
      (sessionAfter lateResponse).near.syns = 2 := by
  decide +kernel

end PepDna.Minip
