import PepDna.Minip.Peers

/-!
# What one step does to the sending and to the receiving half

Every safety argument about the data path reads a connection as a sender
(`sdus`, `nextSeq`, the queue, the DATA packets in flight) and as a receiver
(`nextRecv`, `wr`, `rx`, the ACKs in flight). This module says once, for every
step of an established connection, what happens to the two halves.
-/

namespace PepDna.Minip

/- ### The sending half -/

def seqs (c : Con) : List ℕ := c.rtxq.head.map fun e => e.skb.seq

def SameData (d p : DataPdu) : Prop := d = { p with ts := d.ts }

theorem sameData_trans (d p q : DataPdu) (h : SameData d p) (h' : SameData p q) : SameData d q := by
  unfold SameData at *
  rw [h, h']

/- The sender numbers no new packet: what it has on the wire and in the queue are packets it had in
one of the two before, up to timestamps. `qs` are the numbers left in a queue that is not
destroyed. -/
structure Keeps (c c' : Con) (qs : List ℕ) : Prop where
  sdus : c'.sdus = c.sdus
  nextSeq : c'.nextSeq = c.nextSeq
  pc : c'.pc = c.pc
  rd : c'.rd = c.rd
  data : ∀ d, Packet.data d ∈ c'.tx → Packet.data d ∈ c.tx ∨ ∃ e ∈ c.rtxq.head, SameData d e.skb
  queue : ∀ e' ∈ c'.rtxq.head, ∃ e ∈ c.rtxq.head, SameData e'.skb e.skb
  seqs : c'.destroys = 0 → c.destroys = 0 ∧ seqs c' = qs

theorem keeps_trans (c d e : Con) (qs qs' : List ℕ) (h : Keeps c d qs) (h' : Keeps d e qs') :
    Keeps c e qs' := by
  refine ⟨h'.sdus.trans h.sdus, h'.nextSeq.trans h.nextSeq, h'.pc.trans h.pc,
    h'.rd.trans h.rd, ?_, ?_, ?_⟩
  · intro p hp
    rcases h'.data p hp with hp | ⟨x, hx, hs⟩
    · exact h.data p hp
    · obtain ⟨y, hy, hs'⟩ := h.queue x hx
      exact Or.inr ⟨y, hy, sameData_trans _ _ _ hs hs'⟩
  · intro x hx
    obtain ⟨y, hy, hs⟩ := h'.queue x hx
    obtain ⟨z, hz, hs'⟩ := h.queue y hy
    exact ⟨z, hz, sameData_trans _ _ _ hs hs'⟩
  · intro h0
    obtain ⟨h1, h2⟩ := h'.seqs h0
    exact ⟨(h.seqs h1).1, h2⟩

theorem keeps_then (c d e : Con) (qs : List ℕ) (h : Keeps c d qs) (h' : Keeps d e (seqs d)) :
    Keeps c e qs := by
  have ht := keeps_trans c d e _ _ h h'
  refine ⟨ht.sdus, ht.nextSeq, ht.pc, ht.rd, ht.data, ht.queue, ?_⟩
  intro h0
  obtain ⟨h1, h2⟩ := h'.seqs h0
  exact ⟨(h.seqs h1).1, h2.trans (h.seqs h1).2⟩

/- The fields `Keeps` speaks of. -/
def sndPart (c : Con) := (c.sdus, c.nextSeq, c.pc, c.rd, c.rtxq, c.destroys, c.tx)

theorem keeps_store (c c' : Con) (h : sndPart c' = sndPart c) : Keeps c c' (seqs c) := by
  simp only [sndPart, Prod.mk.injEq] at h
  obtain ⟨hs, hn, hp, hr, hq, hd, ht⟩ := h
  refine ⟨hs, hn, hp, hr, fun d h => Or.inl (ht ▸ h), ?_, ?_⟩
  · intro e he
    rw [hq] at he
    exact ⟨e, he, rfl⟩
  · intro h0
    exact ⟨hd ▸ h0, by rw [seqs, hq, seqs]⟩

theorem keeps_transmit (c : Con) (p : Packet) (hp : ∀ d, p ≠ .data d) :
    Keeps c (transmit c p) (seqs c) := by
  refine ⟨rfl, rfl, rfl, rfl, ?_, fun e he => ⟨e, he, rfl⟩, fun h0 => ⟨h0, rfl⟩⟩
  intro d hd
  simp only [transmit, List.mem_append, List.mem_singleton] at hd
  rcases hd with hd | hd
  · exact Or.inl hd
  · exact absurd hd.symm (hp d)

theorem keeps_close (c : Con) : Keeps c (pepdnaConClose c) (seqs c) := by
  rw [pepdnaConClose_eq]
  refine ⟨rfl, rfl, rfl, rfl, fun d h => Or.inl h, ?_, ?_⟩
  · intro e he
    dsimp only at he
    split at he
    · simp [rtxqueueCreate] at he
    · exact ⟨e, he, rfl⟩
  · intro h0
    dsimp only at h0
    split at h0
    · omega
    · next hf => exact ⟨h0, by simp only [seqs, hf, Bool.false_eq_true, if_false]⟩

theorem keeps_wake (c : Con) : Keeps c (wakeLsock c) (seqs c) := by
  unfold wakeLsock
  split
  · rw [pepdnaL2rConnDataReady_eq]
    exact keeps_store _ _ rfl
  · exact keeps_store _ _ rfl

theorem keeps_fullRtx (c : Con) (ack now : ℕ) (xmit : ℕ → Int) :
    Keeps c (rtxqFullRtx c ack now xmit).1 (seqs c) := by
  refine ⟨rfl, rfl, rfl, rfl, ?_, ?_, ?_⟩
  · intro d hd
    simp only [rtxqFullRtx, rtxqueueEntriesRtx, List.mem_append, List.mem_map,
      Packet.data.injEq, exists_eq_right] at hd
    rcases hd with hd | hd
    · exact Or.inl hd
    · obtain ⟨e, he, hs⟩ := entriesRtx_sent _ _ _ _ _ hd
      exact Or.inr ⟨e, he, by rw [SameData, hs]⟩
  · intro e he
    exact samePayload_mem _ _ (entriesRtx_samePayload ack now xmit c.rtxq.head) e he
  · intro h0
    exact ⟨h0, samePayload_seqs _ _ (entriesRtx_samePayload ack now xmit c.rtxq.head)⟩

theorem keeps_delete_close (c : Con) :
    Keeps c (pepdnaConClose (transmit c (.delete c.id))) (seqs c) :=
  keeps_then _ _ _ _ (keeps_transmit c _ (by simp)) (keeps_close _)

theorem keeps_timeout (c : Con) (now : ℕ) (xmit : ℕ → Int) :
    Keeps c (minipSenderTimeout c now xmit) (seqs c) := by
  unfold minipSenderTimeout
  dsimp only
  split
  · have hrtx := keeps_then _ _ _ _
      (keeps_store c { touchRtxq { c with timer := false } with sending := false, state := .recovery }
        rfl)
      (keeps_fullRtx _ (u32 (c.lastAcked + 1)) now xmit)
    split
    · exact keeps_then _ _ _ _ hrtx (keeps_store _ _ rfl)
    · exact keeps_then _ _ _ _ hrtx (keeps_delete_close _)
  · exact keeps_store _ _ rfl

/-- The release of an ACK above `last_acked`, and what is left in the queue. -/
theorem keeps_newAck (c : Con) (ack : ℕ) :
    Keeps c (recvNewAck c ack) ((entriesAck ack c.rtxq.head).1.map fun e => e.skb.seq) := by
  have hrel : Keeps c (rtxqAck c ack).1 ((entriesAck ack c.rtxq.head).1.map fun e => e.skb.seq) :=
    ⟨rfl, rfl, rfl, rfl, fun d h => Or.inl h,
      fun e he => ⟨e, (entriesAck_suffix ack c.rtxq.head).subset he, rfl⟩, fun h0 => ⟨h0, rfl⟩⟩
  unfold recvNewAck
  dsimp only
  refine keeps_then _ _ _ _ (keeps_then _ _ _ _ hrel (keeps_store _ _ ?_)) (keeps_wake _)
  split <;> split <;> rfl

theorem keeps_dupAck (c : Con) (ack now : ℕ) (xmit : ℕ → Int) :
    Keeps c (recvDupAck c ack now xmit) (seqs c) := by
  unfold recvDupAck
  dsimp only
  have hset : Keeps c { c with
      dupAcks := u32 (c.dupAcks + 1), state := .recovery, sending := false } (seqs c) :=
    keeps_store _ _ rfl
  split
  · exact hset
  · have hrtx := keeps_then _ _ _ _ hset (keeps_fullRtx _ ack now xmit)
    split
    · exact hrtx
    · exact keeps_then _ _ _ _ hrtx (keeps_delete_close _)

theorem keeps_ackSample (c : Con) (ts now : ℕ) : Keeps c (ackSample c ts now) (seqs c) := by
  rw [ackSample_eq]
  exact keeps_store _ _ rfl

/- An ACK either leaves the queue as it is or releases what is below its number. -/
theorem keeps_recvAck (c : Con) (ack ts now : ℕ) (xmit : ℕ → Int) :
    Keeps c (pepdnaMinipRecvAck c ack ts now xmit) (seqs c) ∨
      Keeps c (pepdnaMinipRecvAck c ack ts now xmit)
        ((entriesAck ack c.rtxq.head).1.map fun e => e.skb.seq) := by
  unfold pepdnaMinipRecvAck
  split
  · exact Or.inl (keeps_store _ _ rfl)
  · have hs := keeps_ackSample c ts now
    dsimp only
    split
    · have hn := keeps_newAck (ackSample c ts now) ack
      rw [ackSample_rtxq] at hn
      exact Or.inr (keeps_trans _ _ _ _ _ hs hn)
    · exact Or.inl (keeps_then _ _ _ _ hs (keeps_dupAck _ ack now xmit))

theorem keeps_sendAck (c : Con) (ts : ℕ) : Keeps c (pepdnaMinipSendAck c ts) (seqs c) :=
  keeps_transmit c _ (by simp)

theorem keeps_finish (c : Con) (d : DataPdu) (sent : Int) :
    Keeps c (minip2iFinish c d sent) (seqs c) := by
  unfold minip2iFinish
  dsimp only
  split
  · have hrx : Keeps c { c with rx := none } (seqs c) :=
      keeps_store _ _ rfl
    exact keeps_then _ _ _ _ (keeps_then _ _ _ _ hrx (keeps_sendAck _ d.ts)) (keeps_delete_close _)
  · have hrx : Keeps c { c with rx := none, nextRecv := u32 (c.nextRecv + 1) } (seqs c) :=
      keeps_store _ _ rfl
    have hack := keeps_then _ _ _ _ hrx (keeps_sendAck _ d.ts)
    split
    · exact keeps_then _ _ _ _ hack (keeps_delete_close _)
    · exact hack

theorem keeps_sendmsg (c c' : Con) (rc : Int) (h : minip2iSendmsg c rc = some c') :
    Keeps c c' (seqs c) := by
  cases sendmsg_lines c c' rc h with
  | again r w => exact keeps_store _ _ rfl
  | ret r v => exact keeps_then _ (sendmsgTook c r.w rc) _ _ (keeps_store _ _ rfl) (keeps_finish _ _ _)

theorem keeps_minip2iFwd (c : Con) (d : DataPdu) :
    Keeps c (pepdnaConMinip2iFwd c d) (seqs c) := by
  unfold pepdnaConMinip2iFwd
  split
  · split
    · dsimp only
      split
      · exact keeps_finish c d 0
      · exact keeps_store _ _ rfl
    · exact keeps_store _ _ rfl
  · exact keeps_sendAck c d.ts

theorem keeps_recvFinished (c : Con) : Keeps c (pepdnaMinipRecvFinished c) (seqs c) := by
  have hflag : Keeps c { c with rflag := false } (seqs c) :=
    keeps_store _ _ rfl
  exact keeps_then _ _ _ _ hflag (keeps_close _)

theorem keeps_recvDelete (c : Con) : Keeps c (pepdnaMinipRecvDelete c) (seqs c) :=
  keeps_then _ _ _ _ (keeps_transmit c (.finished c.id) (by simp)) (keeps_recvFinished _)

/-- Any frame but an ACK leaves the numbers in the queue alone. -/
theorem keeps_recvPacket (c : Con) (p : Packet) (now : ℕ) (xmit : ℕ → Int) :
    Keeps c (pepdnaMinipRecvPacket c p now xmit) (seqs c) ∨
      ∃ id k ts, p = .ack id k ts ∧ Keeps c (pepdnaMinipRecvPacket c p now xmit)
        ((entriesAck k c.rtxq.head).1.map fun e => e.skb.seq) := by
  unfold pepdnaMinipRecvPacket
  split
  · cases p with
    | request id seq ack ts syn => exact Or.inl (keeps_store _ _ rfl)
    | response id seq ack => exact Or.inl (keeps_store _ _ rfl)
    | data d => exact Or.inl (keeps_minip2iFwd c d)
    | ack id k ts =>
      rcases keeps_recvAck c k ts now xmit with h | h
      · exact Or.inl h
      · exact Or.inr ⟨id, k, ts, rfl, h⟩
    | delete id => exact Or.inl (keeps_recvDelete c)
    | finished id => exact Or.inl (keeps_recvFinished c)
  · exact Or.inl (keeps_store _ _ rfl)

/- What a step other than one of the work does to the sending half. -/
theorem conStep_keeps (c c' : Con) (a : Act) (h : conStep c a = some c') (ht : c.tcfa = .done)
    (hs : c.synPending = false) :
    (∃ i, a = .work i ∧ WorkStep c i c') ∨ Keeps c c' (seqs c) ∨
      ∃ id k ts now xmit, a = .recv (.ack id k ts) now xmit ∧
        Keeps c c' ((entriesAck k c.rtxq.head).1.map fun e => e.skb.seq) := by
  cases conStep_lines c c' a h with
  | tcfa rc now c' h =>
    rw [tcfaStep_done c rc now ht] at h
    cases h
  | accept c' hp =>
    rw [hs] at hp
    cases hp
  | dataReady =>
    rw [pepdnaL2rConnDataReady_eq]
    exact Or.inr (Or.inl (keeps_store _ _ rfl))
  | work i c' hw => exact Or.inl ⟨i, rfl, hw⟩
  | timeout now xmit => exact Or.inr (Or.inl (keeps_timeout c now xmit))
  | recv p now xmit =>
    rcases keeps_recvPacket c p now xmit with hk | ⟨id, k, ts, rfl, hk⟩
    · exact Or.inr (Or.inl hk)
    · exact Or.inr (Or.inr ⟨id, k, ts, now, xmit, rfl, hk⟩)
  | sendmsg rc c' hm => exact Or.inr (Or.inl (keeps_sendmsg c c' rc hm))

/-- `1` while the packet of the current turn is sent and `next_seq` not yet advanced. -/
def unbumped : WorkPc → ℕ
  | .advance .. => 1
  | _ => 0

/- The sending half of a step of an established connection all of whose sends succeed. In `keep`
the work may have moved and read, but neither sent a packet nor advanced `next_seq`. -/
inductive SndStep (c : Con) (a : Act) (c' : Con) : Prop
  | keep (h : Keeps c { c' with pc := c.pc, rd := c.rd } (seqs c))
      (hu : unbumped c'.pc = unbumped c.pc)
  | ack (id k ts now : ℕ) (xmit : ℕ → Int) (ha : a = .recv (.ack id k ts) now xmit)
      (h : Keeps c c' ((entriesAck k c.rtxq.head).1.map fun e => e.skb.seq))
  | send (left : Bytes) (sent now : ℕ) (hpc : c.pc = .send left sent)
      (hu : unbumped c'.pc = 1)
      (hs : c'.sdus = c.sdus ++ [left.take MINIP_MSS])
      (hn : c'.nextSeq = c.nextSeq)
      (hq : c'.rtxq = rtxqueuePush c.rtxq (dataPdu c (left.take MINIP_MSS) now))
      (hd : c'.destroys = c.destroys)
      (ht : c'.tx = c.tx ++ [.data (dataPdu c (left.take MINIP_MSS) now)])
  | advance (left : Bytes) (sent : ℕ) (hpc : c.pc = .advance left sent)
      (hc' : c' = sndAdvance c left sent)

theorem keeps_pin (c c' : Con) (qs : List ℕ) (h : Keeps c c' qs) :
    Keeps c { c' with pc := c.pc, rd := c.rd } qs := by
  rw [← h.pc, ← h.rd]
  exact h

theorem workStep_snd (c c' : Con) (i : WorkIn) (h : WorkStep c i c')
    (hok : SendSucceeds (.work i)) : SndStep c (.work i) c' := by
  have hpc (c' : Con) (hs : sndPart { c' with pc := c.pc, rd := c.rd } = sndPart c)
      (hu : unbumped c'.pc = unbumped c.pc) : SndStep c (.work i) c' :=
    .keep (keeps_store _ _ hs) hu
  cases workStep_line c c' i h with
  | start he => exact hpc _ rfl (by rw [he]; rfl)
  | jump _ pc pc' he hj => cases hj <;> exact hpc _ rfl (by rw [he]; rfl)
  | read howMuch bs he => exact hpc _ rfl (by rw [he]; rfl)
  | send left sent o now he =>
    obtain ⟨rc, rfl, hrc⟩ := hok
    have hneg : ¬rc < 0 := by omega
    simp only [sndData, pepdnaMinipSkbSend, hneg, if_false]
    exact .send left sent now he rfl rfl rfl rfl rfl rfl
  | advance left sent he => exact .advance left sent he rfl
  | delete rc he => exact .keep (keeps_transmit c (.delete c.id) (by simp)) (by rw [he]; rfl)
  | close he =>
    have hcl := keeps_close c
    refine .keep ?_ (by rw [he]; rfl)
    rw [pepdnaConClose_eq] at hcl ⊢
    exact hcl
  | put he =>
    rw [pepdnaConPut_eq]
    exact hpc _ rfl (by rw [he]; rfl)

theorem conStep_snd (c c' : Con) (a : Act) (h : conStep c a = some c') (ht : c.tcfa = .done)
    (hs : c.synPending = false) (hok : SendSucceeds a) : SndStep c a c' := by
  rcases conStep_keeps c c' a h ht hs with ⟨i, rfl, hw⟩ | hk | ⟨id, k, ts, now, xmit, rfl, hk⟩
  · exact workStep_snd c c' i hw hok
  · exact .keep (keeps_pin c c' _ hk) (by rw [hk.pc])
  · exact .ack id k ts now xmit rfl hk

/- The bytes read and not yet put into a packet. -/
def buffered : WorkPc → Bytes
  | .send left _ => left
  | .advance left _ => left
  | _ => []

/- The packets and the buffer of the work partition what was read. -/
structure Packetised (c : Con) : Prop where
  rd : c.rd = c.sdus.flatten ++ buffered c.pc
  left : ∀ left sent, c.pc = .send left sent → left ≠ []

theorem packetised_work (c c' : Con) (i : WorkIn) (hc : Packetised c) (h : WorkStep c i c')
    (hok : SendSucceeds (.work i)) : Packetised c' := by
  -- away from the two send positions the buffer is empty before and after
  have hpc (c' : Con) (hr : c'.rd = c.rd) (hs : c'.sdus = c.sdus) (hb : buffered c.pc = [])
      (hb' : buffered c'.pc = []) (hl : ∀ left sent, c'.pc ≠ .send left sent) : Packetised c' :=
    ⟨by rw [hr, hs, hc.rd, hb, hb'], fun left sent he => absurd he (hl left sent)⟩
  cases workStep_line c c' i h with
  | start he => exact hpc _ rfl rfl (by rw [he]; rfl) rfl (by simp)
  | jump _ pc pc' he hj => cases hj <;> exact hpc _ rfl rfl (by rw [he]; rfl) rfl (by simp)
  | read howMuch bs he hne hle =>
    constructor
    · have hr := hc.rd
      rw [he] at hr
      simp only [hr, buffered, List.append_nil]
    · intro left sent hp
      cases hp
      exact hne
  | send left sent o now he =>
    obtain ⟨rc, rfl, hrc⟩ := hok
    have hneg : ¬rc < 0 := by omega
    simp only [sndData, pepdnaMinipSkbSend, hneg, if_false]
    constructor
    · have hr := hc.rd
      rw [he] at hr
      simp only [transmit, touchRtxq, hr, buffered, List.flatten_append, List.flatten_cons,
        List.flatten_nil, List.append_nil, List.append_assoc, List.take_append_drop]
    · intro l n hp
      cases hp
  | advance left sent he =>
    have hr := hc.rd
    rw [he] at hr
    unfold sndAdvance
    constructor
    · dsimp only
      rw [hr]
      split
      · next hl => rw [hl]; rfl
      · rfl
    · intro l n hp
      dsimp only at hp
      split at hp
      · cases hp
      · next hl =>
        cases hp
        exact hl
  | delete rc he => exact hpc _ rfl rfl (by rw [he]; rfl) rfl (by simp)
  | close he =>
    rw [pepdnaConClose_eq]
    exact hpc _ rfl rfl (by rw [he]; rfl) rfl (by simp)
  | put he =>
    rw [pepdnaConPut_eq]
    exact hpc _ rfl rfl (by rw [he]; rfl) rfl (by simp)

theorem packetised_step (c c' : Con) (a : Act) (hc : Packetised c) (h : conStep c a = some c')
    (ht : c.tcfa = .done) (hs : c.synPending = false) (hok : SendSucceeds a) : Packetised c' := by
  have hkeep (qs : List ℕ) (hk : Keeps c c' qs) : Packetised c' :=
    ⟨by rw [hk.rd, hk.sdus, hk.pc, hc.rd], by rw [hk.pc]; exact hc.left⟩
  rcases conStep_keeps c c' a h ht hs with ⟨i, rfl, hw⟩ | hk | ⟨id, k, ts, now, xmit, rfl, hk⟩
  · exact packetised_work c c' i hc hw hok
  · exact hkeep _ hk
  · exact hkeep _ hk

/- ### The receiving half -/

/-- The left socket takes no more bytes. -/
def Dead (c : Con) : Prop := c.shut = true ∨ c.sockErr = true

def Packet.isSetup : Packet → Bool
  | .request .. => true
  | .response .. => true
  | _ => false

/- Nothing is received or written between `c` and `c'`; every new ACK carries the number expected
in `c`, and a closed or released socket was shut. -/
structure Calm (c c' : Con) : Prop where
  nextRecv : c'.nextRecv = c.nextRecv
  wr : c'.wr = c.wr
  rx : c'.rx = c.rx
  acks : ∀ id k ts, Packet.ack id k ts ∈ c'.tx → Packet.ack id k ts ∈ c.tx ∨ k = c.nextRecv
  setup : ∀ p ∈ c'.tx, p.isSetup = true → p ∈ c.tx
  tcfa : c'.tcfa = c.tcfa
  syn : c'.synPending = c.synPending
  shut : c.shut = true → c'.shut = true
  err : c.sockErr = true → c'.sockErr = true
  flag : c'.lflag = true ∨ c'.shut = true ∨ c.lflag = false
  sock : c'.lsock = true ∨ c'.shut = true ∨ c.lsock = false
  live : c'.lflag = true → c.lflag = true ∧ c'.destroys = c.destroys

theorem calm_refl (c : Con) : Calm c c := by
  refine ⟨rfl, rfl, rfl, fun _ _ _ h => Or.inl h, fun _ h _ => h, rfl, rfl, id, id, ?_, ?_,
    fun h => ⟨h, rfl⟩⟩
  · cases c.lflag <;> simp
  · cases c.lsock <;> simp

theorem calm_trans (c d e : Con) (h : Calm c d) (h' : Calm d e) : Calm c e where
  nextRecv := h'.nextRecv.trans h.nextRecv
  wr := h'.wr.trans h.wr
  rx := h'.rx.trans h.rx
  acks id k ts hk := by
    rcases h'.acks id k ts hk with hk | hk
    · exact h.acks id k ts hk
    · exact Or.inr (hk.trans h.nextRecv)
  setup p hp hs := h.setup p (h'.setup p hp hs) hs
  tcfa := h'.tcfa.trans h.tcfa
  syn := h'.syn.trans h.syn
  shut hs := h'.shut (h.shut hs)
  err hs := h'.err (h.err hs)
  flag := by
    rcases h'.flag with hf | hf | hf
    · exact Or.inl hf
    · exact Or.inr (Or.inl hf)
    · rcases h.flag with hg | hg | hg
      · rw [hf] at hg
        cases hg
      · exact Or.inr (Or.inl (h'.shut hg))
      · exact Or.inr (Or.inr hg)
  sock := by
    rcases h'.sock with hf | hf | hf
    · exact Or.inl hf
    · exact Or.inr (Or.inl hf)
    · rcases h.sock with hg | hg | hg
      · rw [hf] at hg
        cases hg
      · exact Or.inr (Or.inl (h'.shut hg))
      · exact Or.inr (Or.inr hg)
  live hl := by
    obtain ⟨hd, hed⟩ := h'.live hl
    obtain ⟨hc, hdc⟩ := h.live hd
    exact ⟨hc, hed.trans hdc⟩

theorem calm_transmit (c : Con) (p : Packet) (hs : p.isSetup = false)
    (ha : ∀ id k ts, p = .ack id k ts → k = c.nextRecv) : Calm c (transmit c p) := by
  have hc := calm_refl c
  refine ⟨rfl, rfl, rfl, ?_, ?_, rfl, rfl, id, id, hc.flag, hc.sock, hc.live⟩
  · intro id k ts hk
    rcases List.mem_append.mp hk with hk | hk
    · exact Or.inl hk
    · exact Or.inr (ha id k ts (List.mem_singleton.mp hk).symm)
  · intro q hq hqs
    rcases List.mem_append.mp hq with hq | hq
    · exact hq
    · rw [List.mem_singleton.mp hq, hs] at hqs
      cases hqs

theorem calm_close (c : Con) : Calm c (pepdnaConClose c) := by
  rw [pepdnaConClose_eq]
  refine ⟨rfl, rfl, rfl, fun _ _ _ h => Or.inl h, fun _ h _ => h, rfl, rfl, ?_, id, ?_, ?_, ?_⟩
  · intro hs
    simp [hs]
  · cases c.lflag <;> cases c.lsock <;> simp
  · dsimp only
    cases c.lsock <;> cases hd : dropClose c <;> cases hk : decide (c.kref = 1) <;> simp
  · intro hl
    simp only [Bool.and_eq_true, Bool.not_eq_true'] at hl
    simp [hl, fullClose]

theorem calm_dataReady (c : Con) : Calm c (pepdnaL2rConnDataReady c) := by
  rw [pepdnaL2rConnDataReady_eq]
  refine ⟨rfl, rfl, rfl, fun _ _ _ h => Or.inl h, fun _ h _ => h, rfl, rfl, ?_, id, ?_, ?_,
    fun h => ⟨h, rfl⟩⟩
  · intro hs
    simp [hs]
  · cases c.lflag <;> simp
  · dsimp only
    cases c.lsock <;> cases c.userData <;> cases c.lflag <;> cases c.pending <;>
      cases decide (c.kref = 0) <;> simp

theorem calm_put (c : Con) : Calm c (pepdnaConPut c) := by
  rw [pepdnaConPut_eq]
  refine ⟨rfl, rfl, rfl, fun _ _ _ h => Or.inl h, fun _ h _ => h, rfl, rfl, ?_, id, ?_, ?_,
    fun h => ⟨h, rfl⟩⟩
  · intro hs
    simp [hs]
  · cases c.lflag <;> simp
  · dsimp only
    by_cases hk : c.kref = 1 <;> cases c.lsock <;> simp [hk]

/- The fields `Calm` speaks of. -/
def rcvPart (c : Con) :=
  (c.nextRecv, c.wr, c.rx, c.tx, c.tcfa, c.synPending, c.shut, c.sockErr, c.lflag, c.lsock,
    c.destroys)

theorem calm_store (c c' : Con) (h : rcvPart c' = rcvPart c) : Calm c c' := by
  simp only [rcvPart, Prod.mk.injEq] at h
  obtain ⟨hn, hw, hx, ht, hf, hsyn, hs, he, hl, hsock, hd⟩ := h
  have hc := calm_refl c
  refine ⟨hn, hw, hx, ?_, ?_, hf, hsyn, fun h => hs.trans h, fun h => he.trans h, ?_, ?_,
    fun h => ⟨hl ▸ h, hd⟩⟩
  · rw [ht]
    exact hc.acks
  · rw [ht]
    exact hc.setup
  · rw [hl, hs]
    exact hc.flag
  · rw [hsock, hs]
    exact hc.sock

theorem calm_delete_close (c : Con) : Calm c (pepdnaConClose (transmit c (.delete c.id))) :=
  calm_trans _ _ _ (calm_transmit c _ rfl (by simp)) (calm_close _)

theorem calm_wake (c : Con) : Calm c (wakeLsock c) := by
  unfold wakeLsock
  split
  · exact calm_dataReady c
  · exact calm_store _ _ rfl

theorem calm_fullRtx (c : Con) (ack now : ℕ) (xmit : ℕ → Int) :
    Calm c (rtxqFullRtx c ack now xmit).1 := by
  have hc := calm_refl c
  refine ⟨rfl, rfl, rfl, ?_, ?_, rfl, rfl, id, id, hc.flag, hc.sock, hc.live⟩
  · intro id k ts hk
    rcases List.mem_append.mp hk with hk | hk
    · exact Or.inl hk
    · simp at hk
  · intro p hp hs
    rcases List.mem_append.mp hp with hp | hp
    · exact hp
    · obtain ⟨d, -, rfl⟩ := List.mem_map.mp hp
      cases hs

theorem calm_timeout (c : Con) (now : ℕ) (xmit : ℕ → Int) :
    Calm c (minipSenderTimeout c now xmit) := by
  unfold minipSenderTimeout
  dsimp only
  split
  · have hrtx := calm_trans _ _ _
      (calm_store c { touchRtxq { c with timer := false } with sending := false, state := .recovery }
        rfl)
      (calm_fullRtx _ (u32 (c.lastAcked + 1)) now xmit)
    split
    · exact calm_trans _ _ _ hrtx (calm_store _ _ rfl)
    · exact calm_trans _ _ _ hrtx (calm_delete_close _)
  · exact calm_store _ _ rfl

theorem calm_recvAck (c : Con) (ack ts now : ℕ) (xmit : ℕ → Int) :
    Calm c (pepdnaMinipRecvAck c ack ts now xmit) := by
  unfold pepdnaMinipRecvAck
  split
  · exact calm_refl c
  · have hs : Calm c (ackSample c ts now) := by
      rw [ackSample_eq]
      exact calm_store _ _ rfl
    dsimp only
    refine calm_trans _ _ _ hs ?_
    generalize ackSample c ts now = d
    split
    · unfold recvNewAck
      dsimp only
      refine calm_trans _ _ _ (calm_store d _ ?_) (calm_wake _)
      split <;> split <;> rfl
    · unfold recvDupAck
      dsimp only
      have hset : Calm d { d with
          dupAcks := u32 (d.dupAcks + 1), state := .recovery, sending := false } :=
        calm_store _ _ rfl
      split
      · exact hset
      · have hrtx := calm_trans _ _ _ hset (calm_fullRtx _ ack now xmit)
        split
        · exact hrtx
        · exact calm_trans _ _ _ hrtx (calm_delete_close _)

theorem calm_sendAck (c : Con) (ts : ℕ) : Calm c (pepdnaMinipSendAck c ts) := by
  apply calm_transmit c _ rfl
  intro id k ts' h
  cases h
  rfl

theorem calm_finish_neg (c : Con) (d : DataPdu) (sent : Int) (h : sent < 0) :
    Calm { c with rx := none } (minip2iFinish c d sent) := by
  simp only [minip2iFinish, h, if_true]
  exact calm_trans _ _ _ (calm_sendAck _ d.ts) (calm_delete_close _)

theorem calm_finish_nonneg (c : Con) (d : DataPdu) (sent : Int) (h : 0 ≤ sent) :
    Calm { c with rx := none, nextRecv := u32 (c.nextRecv + 1) } (minip2iFinish c d sent) := by
  have hn : ¬sent < 0 := by omega
  simp only [minip2iFinish, hn, if_false]
  split
  · exact calm_trans _ _ _ (calm_sendAck _ d.ts) (calm_delete_close _)
  · exact calm_sendAck _ d.ts

theorem calm_recvFinished (c : Con) : Calm c (pepdnaMinipRecvFinished c) := by
  have hflag : Calm c { c with rflag := false } :=
    calm_store _ _ rfl
  exact calm_trans _ _ _ hflag (calm_close _)

theorem calm_recvDelete (c : Con) : Calm c (pepdnaMinipRecvDelete c) :=
  calm_trans _ _ _ (calm_transmit c (.finished c.id) rfl (by simp)) (calm_recvFinished _)

/- A connection whose handshake is over: no set-up packet of it is on the wire any more, and its
socket is shut as soon as `lflag` is cleared. -/
structure Est (c : Con) : Prop where
  tcfa : c.tcfa = .done
  syn : c.synPending = false
  setup : ∀ p ∈ c.tx, p.isSetup = false
  flag : c.lflag = true ∨ c.shut = true
  sock : c.lsock = true ∨ c.shut = true
  live : c.lflag = true → c.destroys = 0

theorem est_openCon (mode : Mode) (syn : SynTuple) : Est (openCon mode syn) :=
  ⟨rfl, rfl, nofun, Or.inl rfl, Or.inl rfl, fun _ => rfl⟩

theorem est_calm (c c' : Con) (hc : Est c) (h : Calm c c') : Est c' := by
  refine ⟨h.tcfa.trans hc.tcfa, h.syn.trans hc.syn, ?_, ?_, ?_, ?_⟩
  · intro p hp
    cases hs : p.isSetup with
    | false => rfl
    | true =>
      have ho := hc.setup p (h.setup p hp hs)
      rw [hs] at ho
      cases ho
  · rcases h.flag with hf | hf | hf
    · exact Or.inl hf
    · exact Or.inr hf
    · rcases hc.flag with hg | hg
      · rw [hf] at hg
        cases hg
      · exact Or.inr (h.shut hg)
  · rcases h.sock with hf | hf | hf
    · exact Or.inl hf
    · exact Or.inr hf
    · rcases hc.sock with hg | hg
      · rw [hf] at hg
        cases hg
      · exact Or.inr (h.shut hg)
  · intro hl
    obtain ⟨ho, hd⟩ := h.live hl
    exact hd.trans (hc.live ho)

/- The receiving half of a step of an established connection. -/
inductive RcvStep (c : Con) (a : Act) (c' : Con) : Prop
  | calm (h : Calm c c')
  | begin (d : DataPdu) (now : ℕ) (xmit : ℕ → Int) (ha : a = .recv (.data d) now xmit)
      (hseq : d.seq = c.nextRecv) (hx : c.rx = none) (hne : d.sdu.take d.sduLen ≠ [])
      (hc' : c' = { c with rx := some ⟨d, SockWrite.start (d.sdu.take d.sduLen)⟩ })
  | empty (d : DataPdu) (now : ℕ) (xmit : ℕ → Int) (ha : a = .recv (.data d) now xmit)
      (he : d.sdu.take d.sduLen = []) (hc' : c' = minip2iFinish c d 0)
  | again (r : RxWrite) (w : SockWrite) (rc : Int) (hx : c.rx = some r) (hd : Dead c → rc ≤ 0)
      (hi : pepdnaSockWriteIter r.w rc = .again w)
      (hc' : c' = { sendmsgTook c r.w rc with rx := some ⟨r.pdu, w⟩ })
  | ret (r : RxWrite) (v rc : Int) (hx : c.rx = some r) (hd : Dead c → rc ≤ 0)
      (hi : pepdnaSockWriteIter r.w rc = .ret v)
      (hc' : c' = minip2iFinish (sendmsgTook c r.w rc) r.pdu v)

theorem calm_skbSend (c : Con) (buf : Bytes) (o : SkbSend) (now : ℕ) :
    Calm c (pepdnaMinipSkbSend c buf o now).1 := by
  cases o with
  | xmit rc =>
    have hpush : Calm c { touchRtxq c with rtxq := rtxqueuePush c.rtxq (dataPdu c buf now) } :=
      calm_store _ _ rfl
    exact calm_trans _ _ _ hpush (calm_transmit _ _ rfl (by simp))
  | _ => exact calm_store _ _ rfl

theorem calm_workStep (c c' : Con) (i : WorkIn) (h : workStep c i = some c') : Calm c c' := by
  cases workStep_cases c c' i h with
  | send left sent o now he =>
    refine calm_trans _ _ _ (calm_skbSend c (left.take MINIP_MSS) o now) ?_
    unfold sndData
    dsimp only
    split
    · split <;> exact calm_store _ _ rfl
    · exact calm_store _ _ rfl
  | delete rc he =>
    exact calm_trans _ _ _ (calm_transmit c (.delete c.id) rfl (by simp))
      (calm_store _ _ rfl)
  | close he =>
    exact calm_trans _ _ _ (calm_close c) (calm_store _ _ rfl)
  | put he =>
    have hpc : Calm c { c with pc := .idle } :=
      calm_store _ _ rfl
    exact calm_trans _ _ _ hpc (calm_put _)
  | _ => exact calm_store _ _ rfl

theorem recvPacket_rcv (c : Con) (p : Packet) (now : ℕ) (xmit : ℕ → Int) (hx : c.rx = none)
    (hp : p.isSetup = false) :
    RcvStep c (.recv p now xmit) (pepdnaMinipRecvPacket c p now xmit) := by
  unfold pepdnaMinipRecvPacket
  split
  · cases p with
    | request => cases hp
    | response => cases hp
    | data d =>
      dsimp only
      unfold pepdnaConMinip2iFwd
      split
      · next hseq =>
        split
        · dsimp only
          split
          · next he => exact .empty d now xmit rfl he rfl
          · next hne => exact .begin d now xmit rfl hseq hx hne rfl
        · exact .calm (calm_store _ _ rfl)
      · exact .calm (calm_sendAck c d.ts)
    | ack id k ts => exact .calm (calm_recvAck c k ts now xmit)
    | delete id => exact .calm (calm_recvDelete c)
    | finished id => exact .calm (calm_recvFinished c)
  · exact .calm (calm_refl c)

theorem conStep_rcv (c c' : Con) (a : Act) (h : conStep c a = some c') (hc : Est c)
    (hp : ∀ p now xmit, a = .recv p now xmit → p.isSetup = false) : RcvStep c a c' := by
  cases conStep_lines c c' a h with
  | tcfa rc now c' h =>
    rw [tcfaStep_done c rc now hc.tcfa] at h
    cases h
  | accept c' hs =>
    rw [hc.syn] at hs
    cases hs
  | dataReady => exact .calm (calm_dataReady c)
  | work i => exact .calm (calm_workStep c c' i h)
  | timeout now xmit => exact .calm (calm_timeout c now xmit)
  | recv p now xmit hx => exact recvPacket_rcv c p now xmit hx (hp p now xmit rfl)
  | sendmsg rc c' hm =>
    cases sendmsg_lines c c' rc hm with
    | again r w hx hd hi => exact .again r w rc hx hd hi rfl
    | ret r v hx hd hi => exact .ret r v rc hx hd hi rfl

theorem est_rcv (c c' : Con) (a : Act) (hc : Est c) (h : RcvStep c a c') : Est c' := by
  have hstore (c' : Con) (h : (c'.tcfa, c'.synPending, c'.tx, c'.lflag, c'.lsock, c'.shut,
      c'.destroys) = (c.tcfa, c.synPending, c.tx, c.lflag, c.lsock, c.shut, c.destroys)) :
      Est c' := by
    simp only [Prod.mk.injEq] at h
    obtain ⟨h1, h2, h3, h4, h5, h6, h7⟩ := h
    exact ⟨h1.trans hc.tcfa, h2.trans hc.syn, h3 ▸ hc.setup, by rw [h4, h6]; exact hc.flag,
      by rw [h5, h6]; exact hc.sock, by rw [h4, h7]; exact hc.live⟩
  cases h with
  | calm h => exact est_calm c c' hc h
  | begin d now xmit ha hseq hx hne hc' =>
    subst hc'
    exact hstore _ rfl
  | empty d now xmit ha he hc' =>
    subst hc'
    have hn : (0 : Int) ≤ 0 := by omega
    exact est_calm _ _ (hstore { c with rx := none, nextRecv := _ } rfl)
      (calm_finish_nonneg c d 0 hn)
  | again r w rc hx hd hi hc' =>
    subst hc'
    exact hstore _ rfl
  | ret r v rc hx hd hi hc' =>
    subst hc'
    by_cases hv : v < 0
    · exact est_calm _ _
        (hstore { sendmsgTook c r.w rc with rx := none } rfl)
        (calm_finish_neg _ _ v hv)
    · exact est_calm _ _
        (hstore { sendmsgTook c r.w rc with rx := none, nextRecv := _ } rfl)
        (calm_finish_nonneg _ _ v (by omega))

end PepDna.Minip
