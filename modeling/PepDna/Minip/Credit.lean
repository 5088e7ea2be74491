import PepDna.Minip.Window

/-!
# The window counter over runs of any length

The refinement of `PepDna.Minip.Delivery` speaks of runs in which `next_seq` has
not wrapped. The window counter is sane without that bound: the numbers on the
wire, in the queue and in the ACKs stay below the count of the packets sent, an
ACK number is a 32-bit word, and so an ACK above `last_acked` acknowledges
packets that were sent and have not been released. Once a number has wrapped the
ACKs of the peer are all old to the sender, and the window stays as it is.
-/

namespace PepDna.Minip

/-- The number of the next packet, not reduced to 32 bits. -/
def sentUpTo (c : Con) : ℕ := MINIP_FIRST_SEQ + 1 + c.sdus.length

/- A DATA packet numbered below `n` that carries something. -/
def Below (n : ℕ) (d : DataPdu) : Prop := d.seq < n ∧ d.sdu.take d.sduLen ≠ []

theorem below_mono (n m : ℕ) (d : DataPdu) (h : Below n d) (hle : n ≤ m) : Below m d :=
  ⟨lt_of_lt_of_le h.1 hle, h.2⟩

theorem below_sameData (n : ℕ) (d p : DataPdu) (h : Below n p) (hs : SameData d p) :
    Below n d := by
  unfold SameData at hs
  rw [hs]
  exact h

/- ### The sending half -/

structure Numbers (c : Con) : Prop where
  word : c.nextSeq < 4294967296
  next : u32 (c.nextSeq + unbumped c.pc) = u32 (sentUpTo c)
  wire : ∀ d, Packet.data d ∈ c.tx → Below (sentUpTo c) d
  queue : ∀ e ∈ c.rtxq.head, Below (sentUpTo c) e.skb

theorem numbers_openCon (mode : Mode) (syn : SynTuple) : Numbers (openCon mode syn) :=
  ⟨(by decide : 10 < 4294967296), rfl, by simp [openCon, pepdnaConAlloc],
    by simp [openCon, pepdnaConAlloc, rtxqueueCreate]⟩

theorem numbers_keep (c c' : Con) (qs : List ℕ) (hc : Numbers c)
    (hk : Keeps c { c' with pc := c.pc, rd := c.rd } qs) (hu : unbumped c'.pc = unbumped c.pc) :
    Numbers c' := by
  have hs : sentUpTo c' = sentUpTo c := by
    have hs : c'.sdus = c.sdus := hk.sdus
    rw [sentUpTo, hs, sentUpTo]
  have hn : c'.nextSeq = c.nextSeq := hk.nextSeq
  have hsame (d : DataPdu) (he : ∃ e ∈ c.rtxq.head, SameData d e.skb) : Below (sentUpTo c) d := by
    obtain ⟨e, he, hsd⟩ := he
    exact below_sameData _ d e.skb (hc.queue e he) hsd
  refine ⟨hn ▸ hc.word, ?_, ?_, ?_⟩
  · rw [hn, hu, hs]
    exact hc.next
  · intro d hd
    rw [hs]
    rcases hk.data d hd with hd | hd
    · exact hc.wire d hd
    · exact hsame d hd
  · intro e he
    rw [hs]
    exact hsame e.skb (hk.queue e he)

/-- Before the send the number is that of the next packet. -/
theorem numbers_nextSeq (c : Con) (hc : Numbers c) (hu : unbumped c.pc = 0) :
    c.nextSeq = u32 (sentUpTo c) := by
  have hn := hc.next
  rw [hu, Nat.add_zero, u32_of_lt _ hc.word] at hn
  exact hn

theorem dataPdu_below (c : Con) (left : Bytes) (now : ℕ) (hc : Numbers c)
    (hu : unbumped c.pc = 0) (hl : left ≠ []) :
    Below (sentUpTo c + 1) (dataPdu c (left.take MINIP_MSS) now) := by
  constructor
  · have hn := numbers_nextSeq c hc hu
    have hle : u32 (sentUpTo c) ≤ sentUpTo c := Nat.mod_le _ _
    show c.nextSeq < sentUpTo c + 1
    omega
  · have hle : (left.take MINIP_MSS).length ≤ 1481 := List.length_take_le _ _
    have hmod : (left.take MINIP_MSS).length % 65536 = (left.take MINIP_MSS).length :=
      Nat.mod_eq_of_lt (by omega)
    simp only [dataPdu, hmod, List.take_length]
    cases left with
    | nil => exact absurd rfl hl
    | cons b bs => simp [MINIP_MSS]

theorem numbers_snd (c c' : Con) (a : Act) (hc : Numbers c) (hx : Packetised c)
    (h : SndStep c a c') : Numbers c' := by
  cases h with
  | keep hk hu => exact numbers_keep c c' _ hc hk hu
  | ack id k ts now xmit ha hk =>
    exact numbers_keep c c' _ hc (keeps_pin c c' _ hk) (by rw [hk.pc])
  | send left sent now hpc hu hs hn hq hd ht =>
    have h0 : unbumped c.pc = 0 := by rw [hpc]; rfl
    have hnew := dataPdu_below c left now hc h0 (hx.left left sent hpc)
    have hup : sentUpTo c' = sentUpTo c + 1 := by
      rw [sentUpTo, hs, List.length_append, List.length_singleton]
      rfl
    have hold (d : DataPdu) (hb : Below (sentUpTo c) d) : Below (sentUpTo c + 1) d :=
      below_mono _ _ d hb (Nat.le_succ _)
    refine ⟨hn ▸ hc.word, ?_, ?_, ?_⟩
    · have hseq := numbers_nextSeq c hc h0
      rw [hn, hu, hup, hseq]
      exact Nat.mod_add_mod _ _ _
    · intro d hm
      rw [ht] at hm
      rw [hup]
      rcases List.mem_append.mp hm with hm | hm
      · exact hold d (hc.wire d hm)
      · cases List.mem_singleton.mp hm
        exact hnew
    · intro e he
      rw [hq] at he
      rw [hup]
      rcases List.mem_append.mp he with he | he
      · exact hold e.skb (hc.queue e he)
      · rw [List.mem_singleton.mp he]
        exact hnew
  | advance left sent hpc hc' =>
    subst hc'
    have hn := hc.next
    rw [hpc] at hn
    refine ⟨Nat.mod_lt _ (by decide), ?_, hc.wire, hc.queue⟩
    have hu : unbumped (sndAdvance c left sent).pc = 0 := by
      simp only [sndAdvance]
      split <;> rfl
    rw [hu]
    exact (Nat.mod_mod _ _).trans hn

/- ### The receiving half -/

/- The receiver expects and acknowledges nothing beyond the first `n` numbers. -/
structure Heard (c : Con) (n : ℕ) : Prop where
  word : c.nextRecv < 4294967296
  next : c.nextRecv ≤ n
  rx : ∀ r, c.rx = some r → c.nextRecv < n
  acks : ∀ id k ts, Packet.ack id k ts ∈ c.tx → k ≤ n ∧ k < 4294967296

theorem heard_openCon (mode : Mode) (syn : SynTuple) :
    Heard (openCon mode syn) (MINIP_FIRST_SEQ + 1) :=
  ⟨(by decide : 10 < 4294967296), le_rfl, by simp [openCon, pepdnaConAlloc], by simp [openCon, pepdnaConAlloc]⟩

theorem heard_mono (c : Con) (n m : ℕ) (h : Heard c n) (hle : n ≤ m) : Heard c m :=
  ⟨h.word, h.next.trans hle, fun r hr => lt_of_lt_of_le (h.rx r hr) hle,
    fun id k ts hk => ⟨(h.acks id k ts hk).1.trans hle, (h.acks id k ts hk).2⟩⟩

theorem heard_calm (c c' : Con) (n : ℕ) (h : Heard c n) (hc : Calm c c') : Heard c' n := by
  refine ⟨hc.nextRecv ▸ h.word, hc.nextRecv ▸ h.next, ?_, ?_⟩
  · intro r hr
    rw [hc.rx] at hr
    rw [hc.nextRecv]
    exact h.rx r hr
  · intro id k ts hk
    rcases hc.acks id k ts hk with hk | rfl
    · exact h.acks id k ts hk
    · exact ⟨h.next, h.word⟩

theorem heard_rcv (c c' : Con) (a : Act) (n : ℕ) (h : Heard c n) (hst : RcvStep c a c')
    (hdata : ∀ d now xmit, a = .recv (.data d) now xmit → Below n d) : Heard c' n := by
  cases hst with
  | calm hc => exact heard_calm c c' n h hc
  | begin d now xmit ha hseq hx hne hc' =>
    subst hc'
    exact ⟨h.word, h.next, fun r _ => hseq ▸ (hdata d now xmit ha).1, h.acks⟩
  | empty d now xmit ha he hc' => exact absurd he (hdata d now xmit ha).2
  | again r w rc hx hd hi hc' =>
    subst hc'
    exact ⟨h.word, h.next, fun _ _ => h.rx r hx, h.acks⟩
  | ret r v rc hx hd hi hc' =>
    subst hc'
    have hlt := h.rx r hx
    by_cases hv : v < 0
    · refine heard_calm _ _ n ?_ (calm_finish_neg (sendmsgTook c r.w rc) r.pdu v hv)
      exact ⟨h.word, h.next, by simp, h.acks⟩
    · refine heard_calm _ _ n ?_ (calm_finish_nonneg (sendmsgTook c r.w rc) r.pdu v (by omega))
      refine ⟨Nat.mod_lt _ (by decide), ?_, by simp, h.acks⟩
      exact (Nat.mod_le _ _).trans hlt

/- ### The queue and the window -/

/- Nothing is sent and no new ACK is taken. -/
def Steady (c c' : Con) : Prop :=
  c'.destroys = 0 → c.destroys = 0 ∧
    (c'.rtxq.len, c'.lastAcked, c'.window) = (c.rtxq.len, c.lastAcked, c.window)

theorem steady_of_paces (c c' : Con) (h : Paces c c') : Steady c c' :=
  fun h0 => ⟨(h h0).1, (h h0).2.1⟩

theorem steady_trans (c d e : Con) (h : Steady c d) (h' : Steady d e) : Steady c e := by
  intro h0
  obtain ⟨hd, hed⟩ := h' h0
  obtain ⟨hc, hdc⟩ := h hd
  exact ⟨hc, hed.trans hdc⟩

/-- A duplicate ACK, with packets outstanding or not. -/
theorem steady_dupAck (c : Con) (ack now : ℕ) (xmit : ℕ → Int) :
    Steady c (recvDupAck c ack now xmit) := by
  unfold recvDupAck
  dsimp only
  split
  · exact fun h0 => ⟨h0, rfl⟩
  · split
    · exact fun h0 => ⟨h0, rfl⟩
    · exact fun h0 => ⟨(paces_close _ h0).1, (paces_close _ h0).2.1⟩

/- The window and the queue in one step: the work, everything that leaves them alone, and an ACK
above `last_acked`. -/
inductive PaceStep (c : Con) (a : Act) (c' : Con) : Prop
  | work (i : WorkIn) (ha : a = .work i) (h : WorkStep c i c')
  | steady (h : Steady c c') (hs : c'.sdus = c.sdus) (hpc : c'.pc = c.pc)
  | newAck (id k ts now : ℕ) (xmit : ℕ → Int) (ha : a = .recv (.ack id k ts) now xmit)
      (hid : c.hashed = true ∧ id = c.id) (hnew : c.lastAcked < k)
      (hp : pacePart c' = pacePart (recvNewAck c k))
      (hk : Keeps c c' ((entriesAck k c.rtxq.head).1.map fun e => e.skb.seq))

theorem paceStep_steady (c c' : Con) (a : Act) (h : conStep c a = some c') (ht : c.tcfa = .done)
    (hs : c.synPending = false) (hst : Steady c c') : PaceStep c a c' := by
  rcases conStep_keeps c c' a h ht hs with ⟨i, hi, hw⟩ | hk | ⟨_, _, _, _, _, _, hk⟩
  · exact .work i hi hw
  · exact .steady hst hk.sdus hk.pc
  · exact .steady hst hk.sdus hk.pc

theorem conStep_pace (c c' : Con) (a : Act) (h : conStep c a = some c') (ht : c.tcfa = .done)
    (hs : c.synPending = false) (hp : ∀ p now xmit, a = .recv p now xmit → p.isSetup = false) :
    PaceStep c a c' := by
  cases hdup : emptyDupAck c a with
  | false =>
    rcases conStep_paces c c' a h ht hs hp hdup with
      ⟨i, hi, hw⟩ | hpa | ⟨id, k, ts, now, xmit, ha, hid, hnew, rfl⟩
    · exact .work i hi hw
    · exact paceStep_steady c c' a h ht hs (steady_of_paces c c' hpa)
    · refine .newAck id k ts now xmit ha hid hnew (ackSample_pacePart c ts now k) ?_
      have hk := keeps_newAck (ackSample c ts now) k
      rw [ackSample_rtxq] at hk
      exact keeps_trans _ _ _ _ _ (keeps_ackSample c ts now) hk
  | true =>
    -- `Paces` says nothing here: the sender is blocked with an empty queue
    refine paceStep_steady c c' a h ht hs ?_
    unfold emptyDupAck at hdup
    split at hdup
    · next id k ts now xmit =>
      obtain ⟨hh, hid, hk, -⟩ := of_decide_eq_true hdup
      cases conStep_lines c c' _ h with
      | recv =>
        simp only [pepdnaMinipRecvPacket, Packet.id, hh, hid, and_self, if_true]
        rw [recvAck_dup c k ts now xmit hk]
        exact steady_trans _ _ _ (steady_of_paces _ _ (paces_ackSample c ts now))
          (steady_dupAck _ k now xmit)
    · cases hdup

/- The numbers in a queue that is not destroyed, what was acknowledged last, and the credits. -/
structure Outstanding (c : Con) : Prop where
  len : c.rtxq.len ≤ c.sdus.length
  seqs : seqs c = (List.range' (sentUpTo c - c.rtxq.len) c.rtxq.len).map u32
  first : MINIP_FIRST_SEQ + 1 ≤ c.lastAcked
  last : (c.lastAcked = MINIP_FIRST_SEQ + 1 ∧ c.rtxq.len = c.sdus.length) ∨
    c.lastAcked + c.rtxq.len = MINIP_FIRST_SEQ + c.sdus.length
  credits : Credits (WINDOW_SIZE + 5) c

theorem outstanding_openCon (mode : Mode) (syn : SynTuple) : Outstanding (openCon mode syn) :=
  ⟨le_rfl, rfl, le_rfl, Or.inl ⟨rfl, rfl⟩, credits_openCon _ mode syn (Nat.le_add_right _ _)⟩

theorem seqs_length (c : Con) : (seqs c).length = c.rtxq.len := by
  rw [seqs, List.length_map, c.rtxq.len_eq]

/-- What an ACK leaves of the numbers is all of them if it leaves as many. -/
theorem snd_seqs_of_len (c c' : Con) (a : Act) (h : SndStep c a c') (h0 : c'.destroys = 0)
    (hs : c'.sdus = c.sdus) (hl : c'.rtxq.len = c.rtxq.len) : seqs c' = seqs c := by
  cases h with
  | keep hk hu => exact (hk.seqs h0).2
  | ack id k ts now xmit ha hk =>
    have hsuf := (entriesAck_suffix k c.rtxq.head).map fun e => e.skb.seq
    rw [← (hk.seqs h0).2] at hsuf
    exact hsuf.eq_of_length (by rw [seqs_length, hl]; exact (seqs_length c).symm)
  | send left sent now hpc hu hsd hn hq hd ht =>
    have hlen := congrArg List.length (hs.symm.trans hsd)
    simp at hlen
  | advance left sent hpc hc' =>
    subst hc'
    rfl

theorem outstanding_steady (c c' : Con) (a : Act) (hc : Outstanding c) (hst : Steady c c') (h : SndStep c a c')
    (h0 : c'.destroys = 0) (hs : c'.sdus = c.sdus) (hpc : c'.pc = c.pc) : Outstanding c' := by
  obtain ⟨-, heq⟩ := hst h0
  simp only [Prod.mk.injEq] at heq
  obtain ⟨hq, hl, hw⟩ := heq
  have hup : sentUpTo c' = sentUpTo c := by rw [sentUpTo, hs, sentUpTo]
  refine ⟨by rw [hq, hs]; exact hc.len, ?_, hl ▸ hc.first, by rw [hl, hq, hs]; exact hc.last, ?_⟩
  · rw [snd_seqs_of_len c c' a h h0 hs hq, hq, hup]
    exact hc.seqs
  · exact credits_move _ c c' hc.credits hw hq (by rw [hpc]) (hpc ▸ hc.credits.batch)

theorem outstanding_send (c : Con) (left : Bytes) (sent : ℕ) (rc : Int) (now : ℕ) (hc : Outstanding c)
    (hn : Numbers c) (hpc : c.pc = .send left sent) (hl : left ≠ []) (hrc : 0 ≤ rc) :
    Outstanding (sndData c left sent (.xmit rc) now) := by
  have hcr := credits_send _ c left sent rc now hc.credits hpc hl hrc
  have hneg : ¬rc < 0 := by omega
  have hlast := hc.last
  have hlen := hc.len
  have hnext := numbers_nextSeq c hn (by rw [hpc]; rfl)
  simp only [sndData, pepdnaMinipSkbSend, hneg, if_false] at hcr ⊢
  refine ⟨?_, ?_, hc.first, ?_, hcr⟩
  · simp only [transmit, touchRtxq, rtxqueuePush, List.length_append, List.length_singleton]
    omega
  · have hseqs := hc.seqs
    simp only [seqs, sentUpTo, transmit, touchRtxq, rtxqueuePush, List.length_append,
      List.length_singleton, List.map_append, List.map_cons, List.map_nil, dataPdu] at hseqs hnext ⊢
    have hfrom : MINIP_FIRST_SEQ + 1 + (c.sdus.length + 1) - (c.rtxq.len + 1) =
        MINIP_FIRST_SEQ + 1 + c.sdus.length - c.rtxq.len := by omega
    have hto : MINIP_FIRST_SEQ + 1 + c.sdus.length - c.rtxq.len + c.rtxq.len =
        MINIP_FIRST_SEQ + 1 + c.sdus.length := by omega
    rw [hfrom, List.range'_1_concat, List.map_append, hto, hseqs, hnext]
    rfl
  · simp only [transmit, touchRtxq, rtxqueuePush, List.length_append, List.length_singleton]
    omega

theorem outstanding_work (c c' : Con) (i : WorkIn) (hc : Outstanding c) (hn : Numbers c) (hx : Packetised c)
    (h : WorkStep c i c') (h0 : c'.destroys = 0) (hok : SendSucceeds (.work i)) : Outstanding c' := by
  have hcr := credits_work _ c c' i hc.credits hx.left h h0 hok
  cases h with
  | send left sent o now he =>
    obtain ⟨rc, rfl, hrc⟩ := hok
    exact outstanding_send c left sent rc now hc hn he (hx.left left sent he) hrc
  | close he =>
    have hsnd : SndStep c (.work .tau) (pepdnaConClose c) :=
      .keep (keeps_pin _ _ _ (keeps_close c)) (by rw [(keeps_close c).pc])
    have hclosed := outstanding_steady c _ _ hc (steady_of_paces _ _ (paces_close c)) hsnd h0
      (keeps_close c).sdus (keeps_close c).pc
    exact ⟨hclosed.len, hclosed.seqs, hclosed.first, hclosed.last, hcr⟩
  | put he =>
    rw [pepdnaConPut_eq] at hcr ⊢
    exact ⟨hc.len, hc.seqs, hc.first, hc.last, hcr⟩
  | _ => exact ⟨hc.len, hc.seqs, hc.first, hc.last, hcr⟩

/-- An ACK number that is a word and lies among the numbers of the queue or right above them
releases what is below it, whether or not the numbers behind it have wrapped. -/
theorem outstanding_release (c : Con) (k : ℕ) (hc : Outstanding c) (hlo : sentUpTo c - c.rtxq.len ≤ k)
    (hhi : k ≤ sentUpTo c) (hw : k < 4294967296) :
    entriesAck k c.rtxq.head = (c.rtxq.head.drop (k - (sentUpTo c - c.rtxq.len)),
      k - (sentUpTo c - c.rtxq.len)) := by
  have hlen := c.rtxq.len_eq
  have hseqs := hc.seqs
  obtain ⟨lo, hlo'⟩ : ∃ lo, lo = sentUpTo c - c.rtxq.len := ⟨_, rfl⟩
  rw [← hlo'] at hlo hseqs ⊢
  obtain ⟨m, hm⟩ := Nat.exists_eq_add_of_le hlo
  have hml : m ≤ c.rtxq.len := by omega
  have hkm : k - lo = m := by omega
  rw [hkm]
  have hbelow : ∀ e ∈ c.rtxq.head.take m, e.skb.seq < k := by
    intro e he
    have hmem : e.skb.seq ∈ (seqs c).take m := by
      rw [seqs, ← List.map_take]
      exact List.mem_map_of_mem he
    rw [hseqs, ← List.map_take, List.take_range'_of_length_ge hml] at hmem
    obtain ⟨j, hj, hje⟩ := List.mem_map.mp hmem
    have hjk := (List.mem_range'_1.mp hj).2
    rw [← hje, u32_of_lt j (by omega)]
    omega
  have hstop : ∀ e ∈ (c.rtxq.head.drop m).head?, k ≤ e.skb.seq := by
    intro e he
    have hhead : ((seqs c).drop m).head? = some e.skb.seq := by
      rw [seqs, ← List.map_drop, List.head?_map, he]
      rfl
    rw [hseqs, ← List.map_drop, List.head?_map, List.drop_range', List.head?_range'] at hhead
    split at hhead
    · cases hhead
    · rw [← Option.some.inj hhead, u32_of_lt _ (by omega)]
      omega
  have hsplit := entriesAck_append k _ _ hbelow hstop
  rw [List.take_append_drop, List.length_take, ← hlen, Nat.min_eq_left hml] at hsplit
  exact hsplit

theorem outstanding_newAck (c c' : Con) (k : ℕ) (hc : Outstanding c) (hn : Numbers c) (hnew : c.lastAcked < k)
    (hk : k ≤ sentUpTo c) (hw : k < 4294967296) (hp : pacePart c' = pacePart (recvNewAck c k))
    (hseqs : seqs c' = (entriesAck k c.rtxq.head).1.map fun e => e.skb.seq)
    (hs : c'.sdus = c.sdus) (hpc : c'.pc = c.pc) : Outstanding c' := by
  have hup : sentUpTo c' = sentUpTo c := by rw [sentUpTo, hs, sentUpTo]
  have h9 : MINIP_FIRST_SEQ = 9 := rfl
  have hS : sentUpTo c = MINIP_FIRST_SEQ + 1 + c.sdus.length := rfl
  have hlast := hc.last
  have hlen := hc.len
  have hu := unbumped_le c.pc
  have hcr := hc.credits
  have hrel := outstanding_release c k hc (by omega) hk hw
  rw [hrel] at hseqs
  have hack : u32Sub k 1 = k - 1 := u32Sub_of_le _ _ (by omega) hw
  have hleft : (rtxqueueEntriesAck c.rtxq k).1.len = sentUpTo c - k := by
    simp only [rtxqueueEntriesAck, hrel]
    omega
  have hcredit : (rtxqueueEntriesAck c.rtxq k).2 = k - (sentUpTo c - c.rtxq.len) := by
    simp only [rtxqueueEntriesAck, hrel]
  have hflight : u32Sub c.nextSeq (k - 1) ≤ sentUpTo c - k + 1 := by
    have hword := hn.word
    have hnext := hn.next
    have hhigh := hcr.high
    have hW : WINDOW_SIZE = 12 := rfl
    unfold u32 at hnext
    unfold u32Sub
    omega
  rw [recvNewAck_pacePart, hack] at hp
  simp only [pacePart, Prod.mk.injEq] at hp
  obtain ⟨-, hlen', hla, hw', -, -⟩ := hp
  have hbound := ackWindow_bounds c k _ hu hcr.window hcr.low hcr.high
    (by rw [hleft, hcredit]; omega) (by rw [hack, hleft]; exact hflight)
  rw [← hw', ← hlen', ← hpc] at hbound
  rw [hleft] at hlen'
  have hfirst := hc.first
  refine ⟨?_, ?_, ?_, ?_, hbound.2.1, hbound.2.2.1, hbound.2.2.2, ?_⟩
  · rw [hlen', hs]
    omega
  · have hmap := congrArg (List.drop (k - (sentUpTo c - c.rtxq.len))) hc.seqs
    rw [seqs, ← List.map_drop, ← List.map_drop, List.drop_range'] at hmap
    have hfrom : sentUpTo c - c.rtxq.len + (k - (sentUpTo c - c.rtxq.len)) * 1 =
        sentUpTo c - (sentUpTo c - k) := by omega
    have hcount : c.rtxq.len - (k - (sentUpTo c - c.rtxq.len)) = sentUpTo c - k := by omega
    rw [hfrom, hcount] at hmap
    rw [hseqs, hmap, hup, hlen']
  · rw [hla]
    omega
  · right
    rw [hla, hlen', hs]
    omega
  · rw [hpc]
    exact batchFits_mono _ _ _ hcr.batch hbound.1

theorem outstanding_conStep (x x' y : Con) (a : Act) (h : conStep x a = some x') (he : Est x)
    (hpk : Packetised x) (hn : Numbers x) (hy : Heard y (sentUpTo x)) (hok : SendSucceeds a)
    (hp : ∀ p now xmit, a = .recv p now xmit → p ∈ y.tx)
    (hset : ∀ p ∈ y.tx, p.isSetup = false) (hx : x.destroys = 0 → Outstanding x)
    (h0 : x'.destroys = 0) : Outstanding x' := by
  have hsnd := conStep_snd x x' a h he.tcfa he.syn hok
  have hold := hx (sndStep_destroys x x' a hsnd h0)
  cases conStep_pace x x' a h he.tcfa he.syn fun p now xmit ha => hset p (hp p now xmit ha) with
  | work i ha hw =>
    subst ha
    exact outstanding_work x x' i hold hn hpk hw h0 hok
  | steady hst hs hpc => exact outstanding_steady x x' a hold hst hsnd h0 hs hpc
  | newAck id k ts now xmit ha hid hnew hpp hk =>
    obtain ⟨hle, hw⟩ := hy.acks id k ts (hp _ now xmit ha)
    exact outstanding_newAck x x' k hold hn hnew hle hw hpp (hk.seqs h0).2 hk.sdus hk.pc

/- ### Runs of the two peers -/

structure Sane (s : Peers) : Prop where
  linked : Linked s
  numbers : ∀ x, Numbers (s.get x)
  heard : ∀ x, Heard (s.get x.other) (sentUpTo (s.get x))
  outstanding : ∀ x, (s.get x).destroys = 0 → Outstanding (s.get x)

theorem sane_openPeers (syn : SynTuple) : Sane (openPeers syn) := by
  refine ⟨linked_openPeers syn, ?_, ?_, ?_⟩
  · intro x
    cases x <;> exact numbers_openCon _ syn
  · intro x
    cases x <;> exact heard_openCon _ syn
  · intro x _
    cases x <;> exact outstanding_openCon _ syn

theorem sane_conStep (s : Peers) (z : Side) (a : Act) (c' : Con) (hs : Sane s)
    (h : conStep (s.get z) a = some c') (hok : SendSucceeds a)
    (hp : ∀ p now xmit, a = .recv p now xmit → p ∈ (s.get z.other).tx) : Sane (s.set z c') := by
  have he := hs.linked.est z
  have hset := (hs.linked.est z.other).setup
  have hsnd := conStep_snd _ _ a h he.tcfa he.syn hok
  have hrcv := conStep_rcv _ _ a h he fun p now xmit ha => hset p (hp p now xmit ha)
  refine ⟨linked_conStep s z a c' hs.linked h hok hp, ?_, ?_, ?_⟩
  · exact forall_get_set (fun _ c => Numbers c) s z c'
      (numbers_snd _ _ a (hs.numbers z) (hs.linked.packetised z) hsnd) (hs.numbers _)
  · intro x
    rcases side_cases z x with rfl | rfl
    · rw [get_set, get_set_other]
      exact heard_mono _ _ _ (hs.heard x) (Nat.add_le_add_left (sndStep_sdus _ _ a hsnd) _)
    · have hz := hs.heard z.other
      rw [other_other] at hz ⊢
      rw [get_set, get_set_other]
      exact heard_rcv _ _ a _ hz hrcv fun d now xmit ha =>
        (hs.numbers z.other).wire d (hp _ now xmit ha)
  · exact forall_get_set (fun _ c => c.destroys = 0 → Outstanding c) s z c'
      (outstanding_conStep _ _ _ a h he (hs.linked.packetised z) (hs.numbers z) (hs.heard z) hok hp
        hset (hs.outstanding z)) (hs.outstanding _)

theorem sane_unsend (s : Peers) (z : Side) (p : Packet) (hs : Sane s) :
    Sane (s.set z (unsend (s.get z) p)) := by
  have hn := hs.numbers z
  refine ⟨linked_unsend s z p hs.linked, ?_, ?_, ?_⟩
  · exact forall_get_set (fun _ c => Numbers c) s z _
      ⟨hn.word, hn.next, fun d hd => hn.wire d (List.mem_of_mem_erase hd), hn.queue⟩ (hs.numbers _)
  · intro x
    rcases side_cases z x with rfl | rfl
    · rw [get_set, get_set_other]
      exact hs.heard x
    · have hz := hs.heard z.other
      rw [other_other] at hz ⊢
      rw [get_set, get_set_other]
      exact ⟨hz.word, hz.next, hz.rx, fun id k ts hk => hz.acks id k ts (List.mem_of_mem_erase hk)⟩
  · refine forall_get_set (fun _ c => c.destroys = 0 → Outstanding c) s z _ ?_ (hs.outstanding _)
    intro h0
    obtain ⟨hlen, hseqs, hfirst, hlast, hcr⟩ := hs.outstanding z h0
    exact ⟨hlen, hseqs, hfirst, hlast, hcr.window, hcr.low, hcr.high, hcr.batch⟩

theorem sane_step (s : Peers) (a : NetAct) (t : Peers) (hs : Sane s) (hok : NetSendSucceeds a)
    (h : peersStep s a = some t) : Sane t :=
  peersStep_rule Sane s t a h hs
    (fun z act c' ha hc' hp =>
      sane_conStep s z act c' hs hc' (netSendSucceeds_atSide a z act hok ha) hp)
    fun u z p hu => sane_unsend u z p hu

theorem sane_run (syn : SynTuple) (acts : List NetAct) (s : Peers)
    (h : Lts.run peersStep (openPeers syn) acts = some s)
    (hok : ∀ a ∈ acts, NetSendSucceeds a) : Sane s :=
  Lts.run_invariant_along Sane _ sane_step _ s acts (sane_openPeers syn)
    (Lts.along_of_forall NetSendSucceeds _ acts hok) h

/-- The sums formed for the 8-bit `con->window` in the step: the credit, and one more from
`minip_update_cwnd`. -/
def AddsFit (c : Con) : Act → Prop
  | .recv (.ack id k _) _ _ => (c.hashed = true ∧ id = c.id) → c.lastAcked < k →
      c.window + (rtxqueueEntriesAck c.rtxq k).2 + 1 < 256
  | _ => True

/-- `pepdna_minip_skb_send` is called with a positive window. -/
def SendsOpen (c : Con) : Act → Prop
  | .work (.skb _ _) => ∀ left sent, c.pc = .send left sent → 0 < c.window
  | _ => True

theorem rtxqueueEntriesAck_len (q : Rtxqueue) (ack : ℕ) :
    (rtxqueueEntriesAck q ack).1.len + (rtxqueueEntriesAck q ack).2 = q.len := by
  have hl := entriesAck_length ack q.head
  have hq := q.len_eq
  simp only [rtxqueueEntriesAck]
  omega

theorem credits_addsFit (c : Con) (a : Act) (hc : Credits (WINDOW_SIZE + 5) c) : AddsFit c a := by
  unfold AddsFit
  split
  · next id k ts now xmit =>
    intro _ _
    have hhigh := hc.high
    have hu := unbumped_le c.pc
    have hlen := rtxqueueEntriesAck_len c.rtxq k
    have hW : WINDOW_SIZE = 12 := rfl
    omega
  · trivial

theorem credits_sendsOpen (top : ℕ) (c : Con) (a : Act) (hc : Credits top c) (hx : Packetised c) :
    SendsOpen c a := by
  unfold SendsOpen
  split
  · intro left sent hpc
    exact credits_pos_send top c left sent hc hpc (hx.left left sent hpc)
  · trivial

/-- As long as its queue exists, a sender's window is within bounds and closed only with packets
outstanding, and no step that can follow wraps it or sends a packet on a closed window. -/
theorem peersRun_window_sane (syn : SynTuple) (acts : List NetAct) (s : Peers)
    (h : Lts.run peersStep (openPeers syn) acts = some s)
    (hok : ∀ a ∈ acts, NetSendSucceeds a) (x : Side) (hopen : (s.get x).destroys = 0) :
    (s.get x).window ≤ WINDOW_SIZE ∧
      ((s.get x).window = 0 → (s.get x).rtxq.head ≠ []) ∧
      ∀ a act t, peersStep s a = some t → a.atSide = some (x, act) →
        AddsFit (s.get x) act ∧ SendsOpen (s.get x) act := by
  have hs := sane_run syn acts s h hok
  have hc := (hs.outstanding x hopen).credits
  refine ⟨hc.window, ?_, ?_⟩
  · intro hw hq
    have hlow := hc.low
    have hlen := (s.get x).rtxq.len_eq
    have hW : WINDOW_SIZE = 12 := rfl
    rw [hq, List.length_nil] at hlen
    omega
  · intro a act t _ _
    exact ⟨credits_addsFit _ act hc, credits_sendsOpen _ _ act hc (hs.linked.packetised x)⟩

/- One turn of the work of side `a`: a byte is read and sent. -/
def sendByte : List NetAct :=
  [.own .a (.work .tau), .own .a (.work .tau), .own .a (.work (.read [1])),
    .own .a (.work (.skb (.xmit 0) 5)), .own .a (.work .tau)]

/- Side `b` takes the packet numbered `seq` and writes its byte. -/
def takeByte (seq : ℕ) : List NetAct :=
  [.deliver .b (.data ⟨sampleSyn.hashId, seq, 1, 5, [1]⟩) false 6 fun _ => 0, .own .b (.sendmsg 1)]

/- Twelve packets close the window, and the work ends. -/
def windowFull : List NetAct :=
  .own .a (.work .tau) :: (List.replicate 12 sendByte).flatten ++ List.replicate 3 (.own .a (.work .tau))

def windowFullPeers : Peers := ranFrom (openPeers sampleSyn) windowFull

theorem windowFull_sane :
    (windowFullPeers.get .a).window = 0 ∧ (windowFullPeers.get .a).rtxq.head ≠ [] := by
  have hsane := peersRun_window_sane sampleSyn windowFull windowFullPeers (by decide +kernel)
    (by decide +kernel) .a (by decide +kernel)
  have h0 : (windowFullPeers.get .a).window = 0 := by decide +kernel
  exact ⟨h0, hsane.2.1 h0⟩

/- ### Packets in flight -/

theorem credits_len (top : ℕ) (c : Con) (hc : Credits top c) : c.rtxq.len ≤ top := by
  have hhigh := hc.high
  cases hpc : c.pc with
  | advance left sent =>
    have hw := credits_pos_advance top c left sent hc hpc
    rw [hpc] at hhigh
    simp only [unbumped] at hhigh
    omega
  | _ =>
    rw [hpc] at hhigh
    simp only [unbumped] at hhigh
    omega

/-- The credits of `minip_update_cwnd` let the queue grow past the window, but not far. -/
theorem peersRun_inFlight_bound (syn : SynTuple) (acts : List NetAct) (s : Peers)
    (h : Lts.run peersStep (openPeers syn) acts = some s)
    (hok : ∀ a ∈ acts, NetSendSucceeds a) (x : Side) (hopen : (s.get x).destroys = 0) :
    (s.get x).rtxq.len ≤ WINDOW_SIZE + WINDOW_SIZE / 2 - 1 :=
  credits_len _ _ ((sane_run syn acts s h hok).outstanding x hopen).credits

/-- A new ACK that leaves fewer than half a window of packets, but some, although the window and
the queue add up to the window size already: `minip_update_cwnd` adds a credit to them. -/
def overcredits (c : Con) : Act → Bool
  | .recv (.ack id k _) _ _ =>
    let left := (rtxqueueEntriesAck c.rtxq k).1.len
    decide ((c.hashed = true ∧ id = c.id) ∧ c.lastAcked < k ∧ 0 < left ∧ left < WINDOW_SIZE / 2 ∧
      WINDOW_SIZE + unbumped c.pc ≤ c.window + c.rtxq.len)
  | _ => false

theorem ackWindow_top (c : Con) (k u : ℕ) (hu : u ≤ 1)
    (hcap : c.window + c.rtxq.len ≤ WINDOW_SIZE + u)
    (hover : ¬(0 < (rtxqueueEntriesAck c.rtxq k).1.len ∧
      (rtxqueueEntriesAck c.rtxq k).1.len < WINDOW_SIZE / 2 ∧
      WINDOW_SIZE + u ≤ c.window + c.rtxq.len)) :
    ackWindow c k + (rtxqueueEntriesAck c.rtxq k).1.len ≤ WINDOW_SIZE + u := by
  have hW : WINDOW_SIZE = 12 := rfl
  have hlen := rtxqueueEntriesAck_len c.rtxq k
  unfold ackWindow
  generalize rtxqueueEntriesAck c.rtxq k = r at *
  generalize u32Sub c.nextSeq (u32Sub k 1) = flight
  dsimp only
  rw [Nat.mod_eq_of_lt (by omega : c.window + r.2 < 256)]
  split
  · rw [Nat.mod_eq_of_lt (by omega : c.window + r.2 + 1 < 256)]
    -- whatever `minip_update_cwnd` chooses is at most one more credit
    have hw' : (if WINDOW_SIZE ≥ flight then c.window + r.2 + 1
        else if c.window + r.2 > 0 then c.window + r.2 - 1 else c.window + r.2) ≤
        c.window + r.2 + 1 := by
      split
      · exact le_rfl
      · split <;> omega
    generalize (if WINDOW_SIZE ≥ flight then c.window + r.2 + 1
        else if c.window + r.2 > 0 then c.window + r.2 - 1 else c.window + r.2) = w' at *
    split <;> omega
  · omega

theorem capped_conStep (c c' : Con) (a : Act) (hc : Credits WINDOW_SIZE c) (hx : Packetised c)
    (h : PaceStep c a c') (h0 : c'.destroys = 0) (hok : SendSucceeds a)
    (hnew : Credits (WINDOW_SIZE + 5) c') (hover : overcredits c a = false) :
    Credits WINDOW_SIZE c' := by
  cases h with
  | work i ha hw =>
    subst ha
    exact credits_work _ c c' i hc hx.left hw h0 hok
  | steady hst hs hpc =>
    obtain ⟨-, heq⟩ := hst h0
    simp only [Prod.mk.injEq] at heq
    exact credits_move _ c c' hc heq.2.2 heq.1 (by rw [hpc]) (hpc ▸ hc.batch)
  | newAck id k ts now xmit ha hid hlast hp hk =>
    subst ha
    refine ⟨hnew.window, hnew.low, ?_, hnew.batch⟩
    have hno := of_decide_eq_false hover
    rw [recvNewAck_pacePart] at hp
    simp only [pacePart, Prod.mk.injEq] at hp
    rw [hp.2.1, hp.2.2.2.1, hk.pc]
    exact ackWindow_top c k _ (unbumped_le c.pc) hc.high fun hl => hno ⟨hid, hlast, hl⟩

def netOvercredits (s : Peers) (a : NetAct) : Bool :=
  match a.atSide with
  | some (x, act) => overcredits (s.get x) act
  | none => false

structure Capped (s : Peers) : Prop where
  sane : Sane s
  capped : ∀ x, (s.get x).destroys = 0 → Credits WINDOW_SIZE (s.get x)

theorem capped_step (s : Peers) (a : NetAct) (t : Peers) (hs : Capped s)
    (hok : netOvercredits s a = false ∧ NetSendSucceeds a) (h : peersStep s a = some t) :
    Capped t := by
  refine peersStep_rule Capped s t a h hs ?_ ?_
  · intro z act c' ha hc' hp
    have hsend := netSendSucceeds_atSide a z act hok.2 ha
    have hsane := sane_conStep s z act c' hs.sane hc' hsend hp
    have he := hs.sane.linked.est z
    have hover : overcredits (s.get z) act = false := by
      have ho := hok.1
      rw [netOvercredits, ha] at ho
      exact ho
    refine ⟨hsane, forall_get_set (fun _ c => c.destroys = 0 → Credits WINDOW_SIZE c) s z c' ?_
      (hs.capped _)⟩
    intro h0
    have hnew := hsane.outstanding z
    rw [get_set] at hnew
    have hpace := conStep_pace _ _ act hc' he.tcfa he.syn fun p now xmit hact =>
      (hs.sane.linked.est z.other).setup p (hp p now xmit hact)
    have hx0 := sndStep_destroys _ _ act (conStep_snd _ _ act hc' he.tcfa he.syn hsend) h0
    exact capped_conStep _ _ act (hs.capped z hx0) (hs.sane.linked.packetised z) hpace h0 hsend
      (hnew h0).credits hover
  · intro u z p hu
    refine ⟨sane_unsend u z p hu.sane,
      forall_get_set (fun _ c => c.destroys = 0 → Credits WINDOW_SIZE c) u z _ ?_ (hu.capped _)⟩
    intro h0
    have hc := hu.capped z h0
    exact ⟨hc.window, hc.low, hc.high, hc.batch⟩

theorem capped_openPeers (syn : SynTuple) : Capped (openPeers syn) := by
  refine ⟨sane_openPeers syn, fun x _ => ?_⟩
  cases x <;> exact credits_openCon _ _ syn le_rfl

/-- Without such an ACK the window bounds the packets in flight. -/
theorem peersRun_inFlight_le_window (syn : SynTuple) (acts : List NetAct) (s : Peers)
    (h : Lts.run peersStep (openPeers syn) acts = some s)
    (hover : Lts.Along peersStep (fun s a => netOvercredits s a = false) (openPeers syn) acts)
    (hok : ∀ a ∈ acts, NetSendSucceeds a) (x : Side) (hopen : (s.get x).destroys = 0) :
    (s.get x).rtxq.head.length ≤ WINDOW_SIZE := by
  have hc := Lts.run_invariant_along Capped _ capped_step _ s acts (capped_openPeers syn)
    (Lts.along_and _ _ _ acts hover (Lts.along_of_forall NetSendSucceeds _ acts hok)) h
  rw [← (s.get x).rtxq.len_eq]
  exact credits_len _ _ (hc.capped x hopen)

theorem windowFull_inFlight :
    (windowFullPeers.get .a).rtxq.head.length = 12 ∧
      (windowFullPeers.get .a).rtxq.head.length ≤ WINDOW_SIZE :=
  ⟨by decide +kernel, peersRun_inFlight_le_window sampleSyn windowFull windowFullPeers
    (by decide +kernel) (by decide +kernel) (by decide +kernel) .a (by decide +kernel)⟩

/- Eight of the twelve packets are acknowledged at once. The four left are fewer than half a
window, so there are nine credits for eight free places. -/
def ninthCredit : List NetAct :=
  windowFull ++ (List.range' 10 8).flatMap takeByte ++
    [.deliver .a (.ack sampleSyn.hashId 18 5) false 7 fun _ => 0, .own .a (.work .tau)] ++
    (List.replicate 9 sendByte).flatten

def ninthCreditPeers : Peers := ranFrom (openPeers sampleSyn) ninthCredit

theorem ninthCredit_inFlight :
    Lts.run peersStep (openPeers sampleSyn) ninthCredit = some ninthCreditPeers ∧
      (ninthCreditPeers.get .a).lflag = true ∧
      (ninthCreditPeers.get .a).rtxq.head.length = WINDOW_SIZE + 1 := by
  refine ⟨by decide +kernel, by decide +kernel, by decide +kernel⟩

end PepDna.Minip
