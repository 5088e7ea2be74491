import PepDna.Minip.Delivery

/-!
# The send window and the blocking of a sender

`window` credits and the packets in the retransmission queue add up to the window
size, give or take what `minip_update_cwnd` adds while the queue is short. An ACK
that is not old moves `last_acked` to one below its number, so a second copy of
the last ACK still counts as new, while a copy of the one before is taken for a
duplicate ACK even when nothing is outstanding any more.
-/

namespace PepDna.Minip

/- The step sends nothing and takes no new ACK: the window and the queue stay as they are, and the
sender is blocked only with packets outstanding. A destroyed queue is not spoken of. -/
def Paces (c c' : Con) : Prop :=
  c'.destroys = 0 → c.destroys = 0 ∧
    (c'.rtxq.len, c'.lastAcked, c'.window) = (c.rtxq.len, c.lastAcked, c.window) ∧
    ((c'.sending, c'.state) = (c.sending, c.state) ∨
      (c.rtxq.len ≠ 0 ∧ c'.sending = false ∧ c'.state = .recovery))

/- The fields `Paces` speaks of. -/
def pacePart (c : Con) :=
  (c.destroys, c.rtxq.len, c.lastAcked, c.window, c.sending, c.state)

theorem paces_store (c c' : Con) (h : pacePart c' = pacePart c) : Paces c c' := by
  simp only [pacePart, Prod.mk.injEq] at h
  obtain ⟨h1, h2, h3, h4, h5, h6⟩ := h
  intro h0
  rw [h2, h3, h4, h5, h6]
  exact ⟨h1 ▸ h0, rfl, Or.inl rfl⟩

theorem paces_trans (c d e : Con) (h : Paces c d) (h' : Paces d e) : Paces c e := by
  intro h0
  obtain ⟨hd, heq, hb⟩ := h' h0
  obtain ⟨hc, heq', hb'⟩ := h hd
  simp only [Prod.mk.injEq] at heq heq' hb hb'
  refine ⟨hc, ?_, ?_⟩
  · simp only [heq, heq']
  · rcases hb with hb | hb
    · rcases hb' with hb' | hb'
      · left
        simp only [hb, hb']
      · right
        exact ⟨hb'.1, hb.1.trans hb'.2.1, hb.2.trans hb'.2.2⟩
    · right
      exact ⟨heq'.1 ▸ hb.1, hb.2⟩

theorem paces_close (c : Con) : Paces c (pepdnaConClose c) := by
  rw [pepdnaConClose_eq]
  intro h0
  dsimp only at h0 ⊢
  split at h0
  · omega
  · next hf =>
    rw [if_neg hf]
    exact ⟨h0, rfl, Or.inl rfl⟩

theorem paces_delete_close (c : Con) : Paces c (pepdnaConClose (transmit c (.delete c.id))) :=
  paces_trans _ _ _ (paces_store c (transmit c _) rfl) (paces_close _)

theorem paces_fullRtx (c : Con) (ack now : ℕ) (xmit : ℕ → Int) :
    Paces c (rtxqFullRtx c ack now xmit).1 := paces_store _ _ rfl

theorem paces_timeout (c : Con) (now : ℕ) (xmit : ℕ → Int) :
    Paces c (minipSenderTimeout c now xmit) := by
  unfold minipSenderTimeout
  dsimp only
  split
  · next hq =>
    have hblock : Paces c
        { touchRtxq { c with timer := false } with sending := false, state := .recovery } :=
      fun h0 => ⟨h0, rfl, Or.inr ⟨hq, rfl, rfl⟩⟩
    have hrtx := paces_trans _ _ _ hblock (paces_fullRtx _ (u32 (c.lastAcked + 1)) now xmit)
    split
    · exact paces_trans _ _ _ hrtx (paces_store _ _ rfl)
    · exact paces_trans _ _ _ hrtx (paces_delete_close _)
  · exact paces_store _ _ rfl

theorem paces_dupAck (c : Con) (ack now : ℕ) (xmit : ℕ → Int) (hq : c.rtxq.len ≠ 0) :
    Paces c (recvDupAck c ack now xmit) := by
  unfold recvDupAck
  dsimp only
  have hblock : Paces c { c with
      dupAcks := u32 (c.dupAcks + 1), state := .recovery, sending := false } :=
    fun h0 => ⟨h0, rfl, Or.inr ⟨hq, rfl, rfl⟩⟩
  split
  · exact hblock
  · have hrtx := paces_trans _ _ _ hblock (paces_fullRtx _ ack now xmit)
    split
    · exact hrtx
    · exact paces_trans _ _ _ hrtx (paces_delete_close _)

theorem paces_ackSample (c : Con) (ts now : ℕ) : Paces c (ackSample c ts now) := by
  rw [ackSample_eq]
  exact paces_store _ _ rfl

theorem paces_finish (c : Con) (d : DataPdu) (sent : Int) : Paces c (minip2iFinish c d sent) := by
  unfold minip2iFinish
  dsimp only
  split
  · exact paces_trans _ _ _ (paces_store c _ rfl) (paces_close _)
  · split
    · exact paces_trans _ _ _ (paces_store c _ rfl) (paces_close _)
    · exact paces_store _ _ rfl

theorem paces_minip2iFwd (c : Con) (d : DataPdu) : Paces c (pepdnaConMinip2iFwd c d) := by
  unfold pepdnaConMinip2iFwd
  split
  · split
    · dsimp only
      split
      · exact paces_finish c d 0
      · exact paces_store _ _ rfl
    · exact paces_store _ _ rfl
  · exact paces_store _ _ rfl

theorem paces_recvFinished (c : Con) : Paces c (pepdnaMinipRecvFinished c) :=
  paces_trans _ _ _ (paces_store c _ rfl) (paces_close _)

theorem paces_recvDelete (c : Con) : Paces c (pepdnaMinipRecvDelete c) :=
  paces_trans _ _ _ (paces_store c _ rfl) (paces_close _)

/-- An ACK with the number `last_acked` is handled with nothing outstanding. -/
def emptyDupAck (c : Con) : Act → Bool
  | .recv (.ack id k _) _ _ =>
    decide (c.hashed = true ∧ id = c.id ∧ k = c.lastAcked ∧ c.rtxq.len = 0)
  | _ => false

/- The three kinds of steps: the work, a new ACK, everything else. -/
theorem conStep_paces (c c' : Con) (a : Act) (h : conStep c a = some c') (ht : c.tcfa = .done)
    (hs : c.synPending = false) (hp : ∀ p now xmit, a = .recv p now xmit → p.isSetup = false)
    (hdup : emptyDupAck c a = false) :
    (∃ i, a = .work i ∧ WorkStep c i c') ∨ Paces c c' ∨
      ∃ id k ts now xmit, a = .recv (.ack id k ts) now xmit ∧ (c.hashed = true ∧ id = c.id) ∧
        c.lastAcked < k ∧ c' = recvNewAck (ackSample c ts now) k := by
  cases conStep_lines c c' a h with
  | tcfa rc now c' h =>
    rw [tcfaStep_done c rc now ht] at h
    cases h
  | accept c' hpend =>
    rw [hs] at hpend
    cases hpend
  | dataReady =>
    rw [pepdnaL2rConnDataReady_eq]
    exact Or.inr (Or.inl (paces_store _ _ rfl))
  | work i c' hw => exact Or.inl ⟨i, rfl, hw⟩
  | timeout now xmit => exact Or.inr (Or.inl (paces_timeout c now xmit))
  | recv p now xmit =>
    right
    unfold pepdnaMinipRecvPacket
    split
    · next hid =>
      cases p with
      | request => exact absurd (hp _ _ _ rfl) (by simp [Packet.isSetup])
      | response => exact absurd (hp _ _ _ rfl) (by simp [Packet.isSetup])
      | data d => exact Or.inl (paces_minip2iFwd c d)
      | delete id => exact Or.inl (paces_recvDelete c)
      | finished id => exact Or.inl (paces_recvFinished c)
      | ack id k ts =>
        dsimp only
        unfold pepdnaMinipRecvAck
        have hsample := paces_ackSample c ts now
        have hlast := ackSample_lastAcked c ts now
        split
        · exact Or.inl (paces_store _ _ rfl)
        · next hold =>
          dsimp only
          split
          · next hnew => exact Or.inr ⟨id, k, ts, now, xmit, rfl, hid, hlast ▸ hnew, rfl⟩
          · next hnew =>
            left
            refine paces_trans _ _ _ hsample (paces_dupAck _ k now xmit ?_)
            rw [ackSample_rtxq]
            intro hq
            have hk : k = c.lastAcked := by omega
            exact decide_eq_false_iff_not.mp hdup ⟨hid.1, hid.2, hk, hq⟩
    · exact Or.inl (paces_store _ _ rfl)
  | sendmsg rc c' hm =>
    right
    left
    cases sendmsg_lines c c' rc hm with
    | again r w => exact paces_store _ _ rfl
    | ret r v =>
      exact paces_trans _ (sendmsgTook c r.w rc) _ (paces_store _ _ rfl) (paces_finish _ r.pdu v)

/- The packets a batch of the work has still to send fit into the window. -/
def batchFits : WorkPc → ℕ → Prop
  | .recvmsg howMuch, window => howMuch ≤ MINIP_MSS * window
  | .send left _, window => left.length ≤ MINIP_MSS * window
  | .advance left _, window => left.length + MINIP_MSS ≤ MINIP_MSS * window
  | _, _ => True

/- The window and the queue add up to the window size, less one when the ACK of a packet overtakes
the decrement for it, and to `top` at most with what `minip_update_cwnd` has added. -/
structure Credits (top : ℕ) (c : Con) : Prop where
  window : c.window ≤ WINDOW_SIZE
  low : WINDOW_SIZE - 1 + unbumped c.pc ≤ c.window + c.rtxq.len
  high : c.window + c.rtxq.len ≤ top + unbumped c.pc
  batch : batchFits c.pc c.window

theorem unbumped_le (pc : WorkPc) : unbumped pc ≤ 1 := by
  unfold unbumped
  split <;> omega

theorem credits_openCon (top : ℕ) (mode : Mode) (syn : SynTuple) (ht : WINDOW_SIZE ≤ top) :
    Credits top (openCon mode syn) := by
  refine ⟨le_refl WINDOW_SIZE, ?_, ht, trivial⟩
  show 12 - 1 + 0 ≤ 12 + 0
  omega

/-- A step that sends no packet and takes no new ACK. -/
theorem credits_move (top : ℕ) (c c' : Con) (hc : Credits top c) (hw : c'.window = c.window)
    (hq : c'.rtxq.len = c.rtxq.len) (hu : unbumped c'.pc = unbumped c.pc)
    (hb : batchFits c'.pc c.window) : Credits top c' := by
  refine ⟨hw ▸ hc.window, ?_, ?_, hw ▸ hb⟩
  · rw [hw, hq, hu]
    exact hc.low
  · rw [hw, hq, hu]
    exact hc.high

theorem credits_pos_send (top : ℕ) (c : Con) (left : Bytes) (sent : ℕ) (hc : Credits top c)
    (hpc : c.pc = .send left sent) (hl : left ≠ []) : 0 < c.window := by
  have hbatch := hc.batch
  rw [hpc] at hbatch
  have hpos := List.length_pos_of_ne_nil hl
  by_contra h0
  have hz : c.window = 0 := by omega
  simp only [batchFits, hz, Nat.mul_zero] at hbatch
  omega

theorem credits_send (top : ℕ) (c : Con) (left : Bytes) (sent : ℕ) (rc : Int) (now : ℕ) (hc : Credits top c)
    (hpc : c.pc = .send left sent) (hl : left ≠ []) (hrc : 0 ≤ rc) :
    Credits top (sndData c left sent (.xmit rc) now) := by
  have hneg : ¬rc < 0 := by omega
  have hlow := hc.low
  have hhigh := hc.high
  have hbatch := hc.batch
  rw [hpc] at hlow hhigh hbatch
  simp only [sndData, pepdnaMinipSkbSend, hneg, if_false]
  refine ⟨hc.window, ?_, ?_, ?_⟩
  · simp only [unbumped, transmit, touchRtxq, rtxqueuePush] at hlow ⊢
    omega
  · simp only [unbumped, transmit, touchRtxq, rtxqueuePush] at hhigh ⊢
    omega
  · simp only [batchFits, transmit, touchRtxq, List.length_drop] at hbatch ⊢
    have hw := credits_pos_send _ c left sent hc hpc hl
    have hm : MINIP_MSS * 1 ≤ MINIP_MSS * c.window := Nat.mul_le_mul_left _ hw
    omega

theorem credits_pos_advance (top : ℕ) (c : Con) (left : Bytes) (sent : ℕ) (hc : Credits top c)
    (hpc : c.pc = .advance left sent) : 0 < c.window := by
  have hbatch := hc.batch
  rw [hpc] at hbatch
  have hM : MINIP_MSS = 1481 := rfl
  by_contra h0
  have hz : c.window = 0 := by omega
  simp only [batchFits, hz, Nat.mul_zero] at hbatch
  omega

theorem credits_advance (top : ℕ) (c : Con) (left : Bytes) (sent : ℕ) (hc : Credits top c)
    (hpc : c.pc = .advance left sent) : Credits top (sndAdvance c left sent) := by
  have hlow := hc.low
  have hhigh := hc.high
  have hwin := hc.window
  have hbatch := hc.batch
  have hw := credits_pos_advance _ c left sent hc hpc
  rw [hpc] at hlow hhigh hbatch
  simp only [unbumped, batchFits] at hlow hhigh hbatch
  have hmul : MINIP_MSS * c.window = MINIP_MSS * (c.window - 1) + MINIP_MSS := by
    rw [Nat.mul_sub, Nat.mul_one]
    have := Nat.le_mul_of_pos_right MINIP_MSS hw
    omega
  unfold sndAdvance
  simp only [gt_iff_lt, hw, if_true]
  have hu : unbumped (if left = [] then WorkPc.test else .send left sent) = 0 := by
    split <;> rfl
  refine ⟨?_, ?_, ?_, ?_⟩
  · dsimp only
    omega
  · dsimp only
    rw [hu]
    omega
  · dsimp only
    rw [hu]
    omega
  · dsimp only
    split
    · trivial
    · simp only [batchFits]
      omega

/-- The work, away from its sends. -/
theorem credits_work (top : ℕ) (c c' : Con) (i : WorkIn) (hc : Credits top c)
    (hleft : ∀ left sent, c.pc = .send left sent → left ≠ []) (h : WorkStep c i c')
    (h0 : c'.destroys = 0) (hok : SendSucceeds (.work i)) : Credits top c' := by
  cases workStep_line c c' i h with
  | start he hp => exact credits_move _ c _ hc rfl rfl (by rw [he]; rfl) trivial
  | jump _ pc pc' he hj =>
    cases hj with
    | recvmsg =>
      exact credits_move _ c _ hc rfl rfl (by rw [he]; rfl) (le_refl (MINIP_MSS * c.window))
    | _ => exact credits_move _ c _ hc rfl rfl (by rw [he]; rfl) trivial
  | read howMuch bs he hne hle =>
    refine credits_move _ c _ hc rfl rfl (by rw [he]; rfl) ?_
    have hb := hc.batch
    rw [he] at hb
    exact le_trans hle hb
  | send left sent o now he =>
    obtain ⟨rc, rfl, hrc⟩ := hok
    exact credits_send _ c left sent rc now hc he (hleft left sent he) hrc
  | advance left sent he => exact credits_advance _ c left sent hc he
  | delete rc he => exact credits_move _ c _ hc rfl rfl (by rw [he]; rfl) trivial
  | close he =>
    obtain ⟨-, heq, -⟩ := paces_close c h0
    simp only [Prod.mk.injEq] at heq
    exact credits_move _ c _ hc heq.2.2 heq.1 (by rw [he]; rfl) trivial
  | put he =>
    rw [pepdnaConPut_eq]
    exact credits_move _ c _ hc rfl rfl (by rw [he]; rfl) trivial

structure Paced (c : Con) : Prop where
  window : c.window ≤ WINDOW_SIZE
  low : WINDOW_SIZE - 1 + unbumped c.pc ≤ c.window + c.rtxq.len
  high : c.window + c.rtxq.len ≤ WINDOW_SIZE + 5 + unbumped c.pc
  last : (c.lastAcked = MINIP_FIRST_SEQ + 1 ∧ c.rtxq.len = c.sdus.length) ∨
    c.lastAcked + c.rtxq.len = MINIP_FIRST_SEQ + c.sdus.length
  batch : batchFits c.pc c.window
  block : c.sending = false → c.state = .recovery
  free : c.rtxq.len = 0 → c.sending = true

theorem paced_credits (c : Con) (h : Paced c) : Credits (WINDOW_SIZE + 5) c := ⟨h.window, h.low, h.high, h.batch⟩

theorem paced_of_credits (c : Con) (hc : Credits (WINDOW_SIZE + 5) c)
    (last : (c.lastAcked = MINIP_FIRST_SEQ + 1 ∧ c.rtxq.len = c.sdus.length) ∨
      c.lastAcked + c.rtxq.len = MINIP_FIRST_SEQ + c.sdus.length)
    (block : c.sending = false → c.state = .recovery) (free : c.rtxq.len = 0 → c.sending = true) :
    Paced c := ⟨hc.window, hc.low, hc.high, last, hc.batch, block, free⟩

theorem paced_openCon (mode : Mode) (syn : SynTuple) : Paced (openCon mode syn) :=
  paced_of_credits _ (credits_openCon _ mode syn (Nat.le_add_right _ _)) (Or.inl ⟨rfl, rfl⟩) (by intro h; cases h)
    fun _ => rfl

theorem paced_paces (c c' : Con) (hc : Paced c) (h : Paces c c') (h0 : c'.destroys = 0)
    (hs : c'.sdus = c.sdus) (hpc : c'.pc = c.pc) : Paced c' := by
  obtain ⟨-, heq, hb⟩ := h h0
  simp only [Prod.mk.injEq] at heq hb
  obtain ⟨hq, hl, hw⟩ := heq
  have hcr := credits_move _ c c' (paced_credits c hc) hw hq (by rw [hpc]) (hpc ▸ hc.batch)
  refine paced_of_credits c' hcr ?_ ?_ ?_
  · rw [hl, hq, hs]
    exact hc.last
  · intro hf
    rcases hb with hb | hb
    · rw [hb.2]
      exact hc.block (hb.1 ▸ hf)
    · exact hb.2.2
  · intro hz
    rw [hq] at hz
    rcases hb with hb | hb
    · rw [hb.1]
      exact hc.free hz
    · exact absurd hz hb.1

theorem batchFits_mono (pc : WorkPc) (w w' : ℕ) (h : batchFits pc w) (hw : w ≤ w') :
    batchFits pc w' := by
  have hm : MINIP_MSS * w ≤ MINIP_MSS * w' := Nat.mul_le_mul_left _ hw
  cases pc with
  | recvmsg howMuch => exact le_trans h hm
  | send left sent => exact le_trans h hm
  | advance left sent => exact le_trans h hm
  | _ => trivial

/-- `con->window` after the credit and `minip_update_cwnd`. -/
def ackWindow (c : Con) (ack : ℕ) : ℕ :=
  let r := rtxqueueEntriesAck c.rtxq ack
  let w := (c.window + r.2) % 256
  if r.1.len < WINDOW_SIZE / 2 then
    let w' := if WINDOW_SIZE ≥ u32Sub c.nextSeq (u32Sub ack 1) then (w + 1) % 256
      else if w > 0 then w - 1 else w
    if w' > WINDOW_SIZE then WINDOW_SIZE else w'
  else w

theorem wake_pacePart (c : Con) : pacePart (wakeLsock c) = pacePart c := by
  unfold wakeLsock
  split
  · rw [pepdnaL2rConnDataReady_eq]
    rfl
  · rfl

theorem recvNewAck_pacePart (c : Con) (ack : ℕ) :
    pacePart (recvNewAck c ack) =
      (c.destroys, (rtxqueueEntriesAck c.rtxq ack).1.len, u32Sub ack 1, ackWindow c ack,
        c.sending || decide (c.state = .recovery),
        if c.state = .recovery then .established else c.state) := by
  unfold recvNewAck ackWindow rtxqAck minipUpdateCwnd rtxqSize touchRtxq
  dsimp only
  rw [wake_pacePart]
  by_cases hr : c.state = .recovery
  · simp only [hr, if_true, decide_true, Bool.or_true]
    split <;> simp only [pacePart]
  · simp only [hr, if_false, decide_false, Bool.or_false]
    split <;> simp only [pacePart]

/-- What the release loop leaves of a queue of consecutive numbers. -/
theorem entriesAck_left (q : Rtxqueue) (lo ack : ℕ)
    (h : q.head.map (fun e => e.skb.seq) = List.range' lo q.len) (hlo : lo ≤ ack)
    (hhi : ack ≤ lo + q.len) :
    (rtxqueueEntriesAck q ack).1.len = lo + q.len - ack ∧
      (rtxqueueEntriesAck q ack).2 = ack - lo := by
  have hc := congrArg List.length (entriesAck_consecutive ack lo q.len q.head h hhi)
  have hl := entriesAck_length ack q.head
  have hq := q.len_eq
  have hm : max lo ack = ack := max_eq_right hlo
  rw [List.length_map, List.length_range', hm] at hc
  simp only [rtxqueueEntriesAck]
  omega

theorem u32Sub_of_le (a b : ℕ) (h : b ≤ a) (ha : a < 4294967296) : u32Sub a b = a - b := by
  unfold u32Sub
  omega

/-- With fewer than six packets left the flight is short, so the window is never reduced. -/
theorem ackWindow_bounds (c : Con) (ack u : ℕ) (hu : u ≤ 1) (hwin : c.window ≤ WINDOW_SIZE)
    (hlow : WINDOW_SIZE - 1 + u ≤ c.window + c.rtxq.len)
    (hhigh : c.window + c.rtxq.len ≤ WINDOW_SIZE + 5 + u)
    (hlen : (rtxqueueEntriesAck c.rtxq ack).1.len + (rtxqueueEntriesAck c.rtxq ack).2 = c.rtxq.len)
    (hflight : u32Sub c.nextSeq (u32Sub ack 1) ≤ (rtxqueueEntriesAck c.rtxq ack).1.len + 1) :
    c.window ≤ ackWindow c ack ∧ ackWindow c ack ≤ WINDOW_SIZE ∧
      WINDOW_SIZE - 1 + u ≤ ackWindow c ack + (rtxqueueEntriesAck c.rtxq ack).1.len ∧
      ackWindow c ack + (rtxqueueEntriesAck c.rtxq ack).1.len ≤ WINDOW_SIZE + 5 + u := by
  have hW : WINDOW_SIZE = 12 := rfl
  unfold ackWindow
  generalize rtxqueueEntriesAck c.rtxq ack = r at *
  generalize u32Sub c.nextSeq (u32Sub ack 1) = flight at *
  dsimp only
  rw [Nat.mod_eq_of_lt (by omega : c.window + r.2 < 256)]
  split
  · have hfits : WINDOW_SIZE ≥ flight := by omega
    rw [if_pos hfits, Nat.mod_eq_of_lt (by omega : c.window + r.2 + 1 < 256)]
    split <;> omega
  · omega

theorem paced_newAck (c c' : Con) (i : ℕ) (hc : Paced c) (hb : Short c)
    (hseq : c.nextSeq + unbumped c.pc = MINIP_FIRST_SEQ + 1 + c.sdus.length)
    (hheld : seqs c = List.range' (MINIP_FIRST_SEQ + 1 + (c.sdus.length - c.rtxq.len)) c.rtxq.len)
    (hq : c.rtxq.len ≤ c.sdus.length) (hi : i ≤ c.sdus.length)
    (hnew : c.lastAcked < MINIP_FIRST_SEQ + 1 + i)
    (hp : pacePart c' = pacePart (recvNewAck c (MINIP_FIRST_SEQ + 1 + i)))
    (hs : c'.sdus = c.sdus) (hpc : c'.pc = c.pc) : Paced c' := by
  have h9 : MINIP_FIRST_SEQ = 9 := rfl
  have hW : WINDOW_SIZE = 12 := rfl
  have hu := unbumped_le c.pc
  have hlast := hc.last
  have hshort : c.sdus.length < 4294967286 := hb
  obtain ⟨hleft, hcredit⟩ := entriesAck_left c.rtxq _ (MINIP_FIRST_SEQ + 1 + i) hheld
    (by omega) (by omega)
  have hack : u32Sub (MINIP_FIRST_SEQ + 1 + i) 1 = MINIP_FIRST_SEQ + i := by
    rw [u32Sub_of_le _ _ (by omega) (by omega)]
    omega
  have hflight : u32Sub c.nextSeq (MINIP_FIRST_SEQ + i) = c.nextSeq - (MINIP_FIRST_SEQ + i) :=
    u32Sub_of_le _ _ (by omega) (by omega)
  rw [recvNewAck_pacePart, hack] at hp
  simp only [pacePart, Prod.mk.injEq] at hp
  obtain ⟨-, hlen, hla, hw, hsend, hstate⟩ := hp
  have hbound := ackWindow_bounds c (MINIP_FIRST_SEQ + 1 + i) _ hu hc.window hc.low hc.high
    (by omega) (by rw [hack, hflight]; omega)
  rw [← hw, ← hlen] at hbound
  refine ⟨hbound.2.1, ?_, ?_, ?_, ?_, ?_, ?_⟩
  · rw [hpc]
    exact hbound.2.2.1
  · rw [hpc]
    exact hbound.2.2.2
  · right
    rw [hla, hlen, hleft, hs]
    omega
  · rw [hpc]
    exact batchFits_mono _ _ _ hc.batch hbound.1
  · intro hf
    rw [hsend, Bool.or_eq_false_iff] at hf
    have hst := hc.block hf.1
    rw [hst] at hf
    cases hf.2
  · intro _
    rw [hsend]
    cases hb : c.sending
    · rw [hc.block hb]
      rfl
    · rfl

theorem paced_send (c : Con) (left : Bytes) (sent : ℕ) (rc : Int) (now : ℕ) (hc : Paced c)
    (hpc : c.pc = .send left sent) (hl : left ≠ []) (hrc : 0 ≤ rc) :
    Paced (sndData c left sent (.xmit rc) now) := by
  have hcr := credits_send _ c left sent rc now (paced_credits c hc) hpc hl hrc
  have hneg : ¬rc < 0 := by omega
  have hlast := hc.last
  simp only [sndData, pepdnaMinipSkbSend, hneg, if_false] at hcr ⊢
  refine paced_of_credits _ hcr ?_ hc.block ?_
  · simp only [transmit, touchRtxq, rtxqueuePush, List.length_append, List.length_singleton]
    omega
  · intro hz
    simp only [transmit, touchRtxq, rtxqueuePush] at hz
    omega

theorem paced_work (c c' : Con) (i : WorkIn) (hc : Paced c) (hx : Packetised c)
    (h : WorkStep c i c') (h0 : c'.destroys = 0) (hok : SendSucceeds (.work i)) : Paced c' := by
  have hcr := credits_work _ c c' i (paced_credits c hc) hx.left h h0 hok
  cases h with
  | send left sent o now he =>
    obtain ⟨rc, rfl, hrc⟩ := hok
    exact paced_send c left sent rc now hc he (hx.left left sent he) hrc
  | close he =>
    have hk := keeps_close c
    have hclosed := paced_paces c _ hc (paces_close c) h0 hk.sdus hk.pc
    exact paced_of_credits _ hcr hclosed.last hclosed.block hclosed.free
  | put he =>
    rw [pepdnaConPut_eq] at hcr ⊢
    exact paced_of_credits _ hcr hc.last hc.block hc.free
  | _ => exact paced_of_credits _ hcr hc.last hc.block hc.free

theorem ackSample_pacePart (c : Con) (ts now k : ℕ) :
    pacePart (recvNewAck (ackSample c ts now) k) = pacePart (recvNewAck c k) := by
  rw [recvNewAck_pacePart, recvNewAck_pacePart, ackSample_eq]
  rfl

theorem sndStep_destroys (c c' : Con) (a : Act) (h : SndStep c a c') (h0 : c'.destroys = 0) :
    c.destroys = 0 := by
  cases h with
  | keep hk hu => exact (hk.seqs h0).1
  | ack id k ts now xmit ha hk => exact (hk.seqs h0).1
  | send left sent now hpc hu hs hn hq hd ht => exact hd ▸ h0
  | advance left sent hpc hc' =>
    subst hc'
    exact h0

theorem paced_conStep (x x' y : Con) (a : Act) (h : conStep x a = some x') (he : Est x)
    (hpk : Packetised x) (hdir : Dir x y) (hb : Short x) (hok : SendSucceeds a)
    (hp : ∀ p now xmit, a = .recv p now xmit → p ∈ y.tx)
    (hset : ∀ p ∈ y.tx, p.isSetup = false) (hdup : emptyDupAck x a = false)
    (hx : x.destroys = 0 → Paced x) (h0 : x'.destroys = 0) : Paced x' := by
  have hx0 := sndStep_destroys x x' a (conStep_snd x x' a h he.tcfa he.syn hok) h0
  have hpaced := hx hx0
  have hsame : (∃ i, a = .work i) ∨ (x'.sdus = x.sdus ∧ x'.pc = x.pc) := by
    rcases conStep_keeps x x' a h he.tcfa he.syn with ⟨i, hi, -⟩ | hk | ⟨_, _, _, _, _, _, hk⟩
    · exact Or.inl ⟨i, hi⟩
    · exact Or.inr ⟨hk.sdus, hk.pc⟩
    · exact Or.inr ⟨hk.sdus, hk.pc⟩
  rcases hsame with ⟨i, rfl⟩ | ⟨hs, hpc⟩
  · exact paced_work x x' i hpaced hpk (workStep_cases x x' i h) h0 hok
  · rcases conStep_paces x x' a h he.tcfa he.syn
      (fun p now xmit ha => hset p (hp p now xmit ha)) hdup with
      ⟨i, rfl, hw⟩ | hpa | ⟨id, k, ts, now, xmit, rfl, -, hnew, hx'⟩
    · exact paced_work x x' i hpaced hpk hw h0 hok
    · exact paced_paces x x' hpaced hpa h0 hs hpc
    · obtain ⟨g, hg, hsnd, hrcv⟩ := hdir
      have hi := GoBackN.steps_inv _ _ GoBackN.init_inv hg
      obtain ⟨i, hia, rfl⟩ := hrcv.acks id k ts (hp _ now xmit rfl)
      have hle : i ≤ g.sent.length := (hi.acks_le i hia).trans hi.delivered_le
      have hu : g.una ≤ g.sent.length := hi.una_le.trans hi.delivered_le
      have hheld := hsnd.held hx0
      have hlen : x.rtxq.len = g.sent.length - g.una := by
        have hl := congrArg List.length hheld
        rw [seqs, List.length_map, List.length_range', ← x.rtxq.len_eq] at hl
        exact hl
      rw [hsnd.sent] at hle hu hlen
      have huna : x.sdus.length - x.rtxq.len = g.una := by omega
      refine paced_newAck x x' i hpaced hb hsnd.nextSeq ?_ (by omega) hle hnew ?_ hs hpc
      · rw [huna, hlen, ← hsnd.sent]
        exact hheld
      · rw [hx', ackSample_pacePart]

def netEmptyDupAck (s : Peers) (a : NetAct) : Bool :=
  match a.atSide with
  | some (x, act) => emptyDupAck (s.get x) act
  | none => false

structure Flowing (s : Peers) : Prop where
  linked : Linked s
  paced : (∀ x, Short (s.get x)) → ∀ x, (s.get x).destroys = 0 → Paced (s.get x)

theorem flowing_openPeers (syn : SynTuple) : Flowing (openPeers syn) := by
  refine ⟨linked_openPeers syn, fun _ x _ => ?_⟩
  cases x
  · exact paced_openCon _ syn
  · exact paced_openCon _ syn

theorem paced_unsend (c : Con) (p : Packet) (h : Paced c) : Paced (unsend c p) :=
  ⟨h.window, h.low, h.high, h.last, h.batch, h.block, h.free⟩

theorem flowing_step (s : Peers) (a : NetAct) (t : Peers) (hs : Flowing s)
    (hok : netEmptyDupAck s a = false ∧ NetSendSucceeds a) (h : peersStep s a = some t) :
    Flowing t := by
  refine peersStep_rule Flowing s t a h hs ?_ ?_
  · intro z act c' ha hc' hp
    have hsend := netSendSucceeds_atSide a z act hok.2 ha
    have hlink := linked_conStep s z act c' hs.linked hc' hsend hp
    refine ⟨hlink, fun hb x h0 => ?_⟩
    have hdup : emptyDupAck (s.get z) act = false := by
      have hd := hok.1
      rw [netEmptyDupAck, ha] at hd
      exact hd
    have hold := short_before s z act c' hs.linked hc' hsend hb
    rcases side_cases z x with rfl | rfl
    · rw [get_set] at h0 ⊢
      exact paced_conStep _ _ _ act hc' (hs.linked.est x) (hs.linked.packetised x)
        (hs.linked.dir hold x) (hold x) hsend hp (hs.linked.est x.other).setup hdup
        (hs.paced hold x) h0
    · rw [get_set_other] at h0 ⊢
      exact hs.paced hold _ h0
  · intro u z p hu
    refine ⟨linked_unsend u z p hu.linked, fun hb x h0 => ?_⟩
    have hold := short_unsend u z p hb
    rcases side_cases z x with rfl | rfl
    · rw [get_set] at h0 ⊢
      exact paced_unsend _ p (hu.paced hold x h0)
    · rw [get_set_other] at h0 ⊢
      exact hu.paced hold _ h0

/-- As long as no ACK numbered `last_acked` is handled with nothing outstanding, a sender of an
open connection with an empty queue can send. -/
theorem peersRun_unblocked (syn : SynTuple) (acts : List NetAct) (s : Peers)
    (h : Lts.run peersStep (openPeers syn) acts = some s)
    (hdup : Lts.Along peersStep (fun s a => netEmptyDupAck s a = false) (openPeers syn) acts)
    (hok : ∀ a ∈ acts, NetSendSucceeds a) (hb : ∀ x, Short (s.get x)) (x : Side)
    (hopen : (s.get x).lflag = true ∨ (s.get x).destroys = 0)
    (hq : (s.get x).rtxq.head = []) : canSend (s.get x) = true := by
  have hf := Lts.run_invariant_along Flowing _ flowing_step _ s acts (flowing_openPeers syn)
    (Lts.along_and _ _ _ acts hdup (Lts.along_of_forall NetSendSucceeds _ acts hok)) h
  have h0 : (s.get x).destroys = 0 := hopen.elim (hf.linked.est x).live id
  have hp := hf.paced hb x h0
  have hlen : (s.get x).rtxq.len = 0 := by rw [(s.get x).rtxq.len_eq, hq, List.length_nil]
  have hlow := hp.low
  have hW : WINDOW_SIZE = 12 := rfl
  have hw : 0 < (s.get x).window := by omega
  simp only [canSend, hp.free hlen, hw, decide_true, Bool.and_self]

/- Two DATA packets are sent, written and acknowledged; the first ACK stays on the wire. -/
def twoAcked : List NetAct :=
  [.own .a (.work .tau), .own .a (.work .tau), .own .a (.work .tau), .own .a (.work (.read [1])),
    .own .a (.work (.skb (.xmit 0) 5)), .own .a (.work .tau), .own .a (.work .tau),
    .own .a (.work .tau), .own .a (.work (.read [2])), .own .a (.work (.skb (.xmit 0) 5)),
    .own .a (.work .tau),
    .deliver .b (.data ⟨sampleSyn.hashId, 10, 1, 5, [1]⟩) false 6 fun _ => 0, .own .b (.sendmsg 1),
    .deliver .b (.data ⟨sampleSyn.hashId, 11, 1, 5, [2]⟩) false 6 fun _ => 0, .own .b (.sendmsg 1),
    .deliver .a (.ack sampleSyn.hashId 11 5) true 7 fun _ => 0,
    .deliver .a (.ack sampleSyn.hashId 12 5) false 7 fun _ => 0]

def twoAckedPeers : Peers := ranFrom (openPeers sampleSyn) twoAcked

theorem twoAcked_unblocked :
    (twoAckedPeers.get .a).nextSeq = 12 ∧ canSend (twoAckedPeers.get .a) = true := by
  refine ⟨by decide +kernel, peersRun_unblocked sampleSyn twoAcked _ (by decide +kernel)
    (by decide +kernel) (by decide +kernel) ?_ .a (Or.inl (by decide +kernel)) (by decide +kernel)⟩
  intro x
  unfold Short
  cases x <;> decide +kernel

/- The second copy of the first ACK then equals `last_acked`. -/
def staleAck : List NetAct :=
  twoAcked ++ [.deliver .a (.ack sampleSyn.hashId 11 5) false 8 fun _ => 0]

def staleAckPeers : Peers := ranFrom (openPeers sampleSyn) staleAck

theorem staleAck_blocked :
    Lts.run peersStep (openPeers sampleSyn) staleAck = some staleAckPeers ∧
      (staleAckPeers.get .a).lflag = true ∧
      (staleAckPeers.get .a).rtxq.head = [] ∧
      canSend (staleAckPeers.get .a) = false ∧
      ∀ x, (staleAckPeers.get x).tx = [] := by
  refine ⟨by decide +kernel, by decide +kernel, by decide +kernel, by decide +kernel, ?_⟩
  intro x
  cases x <;> decide +kernel

end PepDna.Minip
