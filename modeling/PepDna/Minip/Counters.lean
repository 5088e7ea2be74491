import PepDna.Minip.Effects
import PepDna.Minip.Rto

/-!
# What received ACKs do to the counters of the sender (minip.c:356-384, 862-953)

An ACK is not authenticated and `pepdna_minip_recv_ack` does not compare its
number with `next_seq`, nor the RTT sample with anything. This module follows
`last_acked` and the RTT estimate of one connection through arbitrary frames.
-/

namespace PepDna.Minip

/- ### Only ACKs change these counters -/

def ackPart (c : Con) := (c.lastAcked, c.srtt, c.rttvar, c.rto)

theorem ackPart_close (c : Con) : ackPart (pepdnaConClose c) = ackPart c := by
  rw [pepdnaConClose_eq]
  rfl

theorem ackPart_put (c : Con) : ackPart (pepdnaConPut c) = ackPart c := by
  rw [pepdnaConPut_eq]
  rfl

theorem ackPart_wake (c : Con) : ackPart (wakeLsock c) = ackPart c := by
  unfold wakeLsock
  split
  · rw [pepdnaL2rConnDataReady_eq]
    rfl
  · rfl

theorem ackPart_timeout (c : Con) (now : ℕ) (xmit : ℕ → Int) :
    ackPart (minipSenderTimeout c now xmit) = ackPart c := by
  unfold minipSenderTimeout
  dsimp only
  split
  · split
    · rfl
    · exact ackPart_close _
  · rfl

theorem ackPart_finish (c : Con) (d : DataPdu) (sent : Int) :
    ackPart (minip2iFinish c d sent) = ackPart c := by
  unfold minip2iFinish
  dsimp only
  split
  · exact ackPart_close _
  · split
    · exact ackPart_close _
    · rfl

theorem ackPart_minip2iFwd (c : Con) (d : DataPdu) :
    ackPart (pepdnaConMinip2iFwd c d) = ackPart c := by
  unfold pepdnaConMinip2iFwd
  split
  · split
    · dsimp only
      split
      · exact ackPart_finish c d 0
      · rfl
    · rfl
  · rfl

theorem ackPart_sndData (c : Con) (left : Bytes) (sent : ℕ) (o : SkbSend) (now : ℕ) :
    ackPart (sndData c left sent o now) = ackPart c := by
  have hskb : ackPart (pepdnaMinipSkbSend c (left.take MINIP_MSS) o now).1 = ackPart c := by
    cases o <;> rfl
  unfold sndData
  dsimp only
  split
  · split <;> exact hskb
  · exact hskb

theorem ackPart_work (c c' : Con) (i : WorkIn) (h : WorkStep c i c') : ackPart c' = ackPart c := by
  cases h with
  | send left sent o now he => exact ackPart_sndData c left sent o now
  | close he => exact ackPart_close c
  | put he => exact ackPart_put _
  | _ => rfl

theorem conStep_ackPart (c c' : Con) (a : Act) (h : conStep c a = some c') (ht : c.tcfa = .done)
    (hs : c.synPending = false) (hp : ∀ p now xmit, a = .recv p now xmit → p.isSetup = false) :
    ackPart c' = ackPart c ∨
      ∃ id k ts now xmit, a = .recv (.ack id k ts) now xmit ∧ (c.hashed = true ∧ id = c.id) ∧
        c' = pepdnaMinipRecvAck c k ts now xmit := by
  cases conStep_lines c c' a h with
  | tcfa rc now c' h =>
    rw [tcfaStep_done c rc now ht] at h
    cases h
  | accept c' hpend =>
    rw [hs] at hpend
    cases hpend
  | dataReady =>
    rw [pepdnaL2rConnDataReady_eq]
    exact Or.inl rfl
  | work i c' hw => exact Or.inl (ackPart_work c c' i hw)
  | timeout now xmit => exact Or.inl (ackPart_timeout c now xmit)
  | recv p now xmit =>
    unfold pepdnaMinipRecvPacket
    split
    · next hid =>
      cases p with
      | request => exact absurd (hp _ _ _ rfl) (by simp [Packet.isSetup])
      | response => exact absurd (hp _ _ _ rfl) (by simp [Packet.isSetup])
      | data d => exact Or.inl (ackPart_minip2iFwd c d)
      | ack id k ts => exact Or.inr ⟨id, k, ts, now, xmit, rfl, hid, rfl⟩
      | delete id => exact Or.inl (ackPart_close _)
      | finished id => exact Or.inl (ackPart_close _)
    · exact Or.inl rfl
  | sendmsg rc c' hm =>
    cases sendmsg_lines c c' rc hm with
    | again r w => exact Or.inl rfl
    | ret r v => exact Or.inl (ackPart_finish _ r.pdu v)

/- `next_seq` moves only where the work advances it. -/
theorem conStep_nextSeq (c c' : Con) (a : Act) (h : conStep c a = some c') (ht : c.tcfa = .done)
    (hs : c.synPending = false) : c'.nextSeq = c.nextSeq ∨ c'.nextSeq = u32 (c.nextSeq + 1) := by
  rcases conStep_keeps c c' a h ht hs with ⟨i, -, hw⟩ | hk | ⟨_, _, _, _, _, _, hk⟩
  · cases hw with
    | send left sent o now he =>
      left
      unfold sndData
      dsimp only
      split
      · split <;> cases o <;> rfl
      · cases o <;> rfl
    | advance left sent he => exact Or.inr rfl
    | close he =>
      left
      rw [pepdnaConClose_eq]
    | put he =>
      left
      rw [pepdnaConPut_eq]
    | _ => exact Or.inl rfl
  · exact Or.inl hk.nextSeq
  · exact Or.inl hk.nextSeq

theorem recvDupAck_ackPart (c : Con) (k now : ℕ) (xmit : ℕ → Int) :
    ackPart (recvDupAck c k now xmit) = ackPart c := by
  unfold recvDupAck
  dsimp only
  split
  · rfl
  · split
    · rfl
    · exact ackPart_close _

theorem recvNewAck_ackPart (c : Con) (k : ℕ) :
    ackPart (recvNewAck c k) = (u32Sub k 1, c.srtt, c.rttvar, c.rto) := by
  unfold recvNewAck
  dsimp only
  rw [ackPart_wake]
  split <;> split <;> rfl

/- The three ways an ACK is handled. -/
theorem recvAck_ackPart (c : Con) (k ts now : ℕ) (xmit : ℕ → Int) :
    ackPart (pepdnaMinipRecvAck c k ts now xmit) =
      if k < c.lastAcked then ackPart c
      else (if c.lastAcked < k then u32Sub k 1 else c.lastAcked, (ackSample c ts now).srtt,
        (ackSample c ts now).rttvar, (ackSample c ts now).rto) := by
  rcases Nat.lt_trichotomy k c.lastAcked with hk | hk | hk
  · rw [recvAck_old c k ts now xmit hk, if_pos hk]
  · rw [recvAck_dup c k ts now xmit hk, if_neg (by omega), if_neg (by omega), recvDupAck_ackPart,
      ackPart, ackSample_lastAcked]
  · rw [recvAck_new c k ts now xmit hk, if_neg (by omega), if_pos hk, recvNewAck_ackPart]

/- ### The RTT estimate -/

/- `srtt` is scaled by 8 and `rttvar` by 4. Below these bounds no sum of `minip_update_rto`
leaves its 32 bits. -/
def RttBounded (c : Con) : Prop :=
  (c.srtt = 0 ∧ 1 ≤ c.rto) ∨
    (8 ≤ c.srtt ∧ c.srtt < 2147483648 ∧ c.rttvar ≤ 1073741824 ∧ 1 ≤ c.rto)

theorem updateRto_bounded (c : Con) (rtt : ℕ) (hc : RttBounded c) (h1 : 1 ≤ rtt)
    (h2 : rtt < 268435456) : RttBounded (minipUpdateRto c rtt) := by
  right
  rcases hc with ⟨h0, -⟩ | ⟨hlo, hhi, hvar, -⟩
  · rw [updateRto_first c rtt h0 (by omega)]
    dsimp only
    omega
  · have herr := rttError_le c rtt 268435456 (by omega) (by omega)
    rw [updateRto_next c rtt 268435456 hlo (by omega) (by omega) (by omega) (by omega)]
    dsimp only
    omega

theorem ackSample_bounded (c : Con) (ts now : ℕ) (hc : RttBounded c)
    (hrtt : ts ≠ 0 → u32Sub now ts < 268435456) : RttBounded (ackSample c ts now) := by
  unfold ackSample
  dsimp only
  split
  · next h => exact updateRto_bounded c _ hc (Nat.pos_of_ne_zero h.2) (hrtt h.1)
  · exact hc

/- ### Runs -/

/-- `next_seq` has not come to the end of its range, and an ACK that is not old is for packets
that were sent, with a round trip of less than 2^28 ms. -/
def ackInRange (c : Con) : Act → Bool
  | .recv (.ack id k ts) now _ => decide (c.nextSeq < 4294967295 ∧
      ((c.hashed = true ∧ id = c.id) → c.lastAcked ≤ k →
        k ≤ c.nextSeq + 1 ∧ (ts ≠ 0 → u32Sub now ts < 268435456)))
  | _ => decide (c.nextSeq < 4294967295)

theorem ackInRange_nextSeq (c : Con) (a : Act) (h : ackInRange c a = true) :
    c.nextSeq < 4294967295 := by
  unfold ackInRange at h
  split at h
  · exact (of_decide_eq_true h).1
  · exact of_decide_eq_true h

def Act.isSetup : Act → Bool
  | .recv p _ _ => p.isSetup
  | _ => false

structure InRange (c : Con) : Prop where
  est : Est c
  last : c.lastAcked ≤ c.nextSeq
  rtt : RttBounded c

theorem inRange_openCon (mode : Mode) (syn : SynTuple) : InRange (openCon mode syn) :=
  ⟨est_openCon mode syn, le_rfl, Or.inl ⟨rfl, (by decide : 1 ≤ 3000)⟩⟩

theorem inRange_recvAck (c : Con) (k ts now : ℕ) (xmit : ℕ → Int) (hc : InRange c)
    (hn : c.nextSeq < 4294967295)
    (hk : c.lastAcked ≤ k → k ≤ c.nextSeq + 1 ∧ (ts ≠ 0 → u32Sub now ts < 268435456)) :
    (pepdnaMinipRecvAck c k ts now xmit).lastAcked ≤ c.nextSeq ∧
      RttBounded (pepdnaMinipRecvAck c k ts now xmit) := by
  have hpart := recvAck_ackPart c k ts now xmit
  by_cases hold : k < c.lastAcked
  · rw [if_pos hold] at hpart
    simp only [ackPart, Prod.mk.injEq] at hpart
    obtain ⟨h1, h2, h3, h4⟩ := hpart
    rw [RttBounded, h1, h2, h3, h4]
    exact ⟨hc.last, hc.rtt⟩
  · obtain ⟨hle, hrtt⟩ := hk (by omega)
    have hb := ackSample_bounded c ts now hc.rtt hrtt
    rw [if_neg hold] at hpart
    simp only [ackPart, Prod.mk.injEq] at hpart
    obtain ⟨h1, h2, h3, h4⟩ := hpart
    rw [RttBounded, h1, h2, h3, h4]
    refine ⟨?_, hb⟩
    split
    · unfold u32Sub
      omega
    · exact hc.last

theorem inRange_step (c : Con) (a : Act) (c' : Con) (hc : InRange c)
    (hok : ackInRange c a = true ∧ a.isSetup = false) (h : conStep c a = some c') :
    InRange c' := by
  have hp : ∀ p now xmit, a = .recv p now xmit → p.isSetup = false := by
    rintro p now xmit rfl
    exact hok.2
  have hest := est_rcv c c' a hc.est (conStep_rcv c c' a h hc.est hp)
  have hnext := conStep_nextSeq c c' a h hc.est.tcfa hc.est.syn
  have hn := ackInRange_nextSeq c a hok.1
  have hgrow : c.nextSeq ≤ c'.nextSeq := by
    unfold u32 at hnext
    omega
  rcases conStep_ackPart c c' a h hc.est.tcfa hc.est.syn hp with
    hpart | ⟨id, k, ts, now, xmit, rfl, hid, rfl⟩
  · simp only [ackPart, Prod.mk.injEq] at hpart
    obtain ⟨h1, h2, h3, h4⟩ := hpart
    refine ⟨hest, h1.trans_le (hc.last.trans hgrow), ?_⟩
    rw [RttBounded, h2, h3, h4]
    exact hc.rtt
  · obtain ⟨hlast, hrtt⟩ := inRange_recvAck c k ts now xmit hc hn
      ((of_decide_eq_true hok.1).2 hid)
    exact ⟨hest, hlast.trans hgrow, hrtt⟩

/-- ACKs for packets that were sent, with a believable round trip, keep the counters in range. -/
theorem conRun_counters_inRange (mode : Mode) (syn : SynTuple) (acts : List Act) (c : Con)
    (h : Lts.run conStep (openCon mode syn) acts = some c)
    (hset : ∀ a ∈ acts, a.isSetup = false)
    (hok : Lts.Along conStep (fun c a => ackInRange c a = true) (openCon mode syn) acts) :
    c.lastAcked ≤ c.nextSeq ∧ 1 ≤ c.rto := by
  have hc := Lts.run_invariant_along InRange _ inRange_step _ c acts (inRange_openCon mode syn)
    (Lts.along_and _ _ _ acts hok (Lts.along_of_forall (fun a => a.isSetup = false) _ acts hset)) h
  refine ⟨hc.last, ?_⟩
  rcases hc.rtt with hr | hr
  · exact hr.2
  · exact hr.2.2.2

/- One packet is sent and acknowledged after 20 ms. -/
def ackedOnce : List Act :=
  [.work .tau, .work .tau, .work .tau, .work (.read [1]), .work (.skb (.xmit 0) 5), .work .tau,
    .recv (.ack sampleSyn.hashId 11 5) 25 fun _ => 0]

def ackedOnceCon : Con :=
  (Lts.run conStep (openCon .tcp2minip sampleSyn) ackedOnce).getD (openCon .tcp2minip sampleSyn)

theorem ackedOnce_inRange :
    ackedOnceCon.rto = 60 ∧ ackedOnceCon.lastAcked ≤ ackedOnceCon.nextSeq ∧ 1 ≤ ackedOnceCon.rto :=
  ⟨by decide +kernel, conRun_counters_inRange .tcp2minip sampleSyn ackedOnce ackedOnceCon
    (by decide +kernel) (by decide +kernel) (by decide +kernel)⟩

/- One ACK numbered 2^32 - 1 with a timestamp 2^31 ms away. -/
def forgedAck : List Act := [.recv (.ack sampleSyn.hashId 4294967295 1) 2147483649 fun _ => 0]

def forgedAckCon : Con :=
  (Lts.run conStep (openCon .tcp2minip sampleSyn) forgedAck).getD (openCon .tcp2minip sampleSyn)

theorem forgedAck_counters :
    Lts.run conStep (openCon .tcp2minip sampleSyn) forgedAck = some forgedAckCon ∧
      forgedAckCon.lflag = true ∧ forgedAckCon.nextSeq = 10 ∧
      forgedAckCon.lastAcked = 4294967294 ∧ forgedAckCon.rto = 0 := by
  refine ⟨by decide +kernel, by decide +kernel, by decide +kernel, by decide +kernel,
    by decide +kernel⟩

end PepDna.Minip
