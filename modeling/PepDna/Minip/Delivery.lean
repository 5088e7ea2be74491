import PepDna.GoBackN
import PepDna.Minip.Effects

/-!
# MINIP data transfer refines go-back-N

Each direction of an open connection is related to a reachable state of the
abstract protocol of `PepDna.GoBackN`: item `i` is the payload of the packet
numbered `MINIP_FIRST_SEQ + 1 + i`. Every step of either peer is matched by steps
of the abstract protocol, so the invariant proved there holds of the two
connections, and what the receiver wrote is read off from it.
-/

namespace PepDna.Minip

open GoBackN (Steps)

/-- The packet carries an item of the abstract sender under its number. -/
structure Numbered (g : GoBackN.State Bytes) (d : DataPdu) : Prop where
  len : d.sduLen = d.sdu.length
  ne : d.sdu ≠ []
  item : ∃ i, d.seq = MINIP_FIRST_SEQ + 1 + i ∧ (i, d.sdu) ∈ g.data

/- The sending half of a connection against the abstract state. A destroyed queue holds nothing,
so `held` is about the queue before its destruction. -/
structure Snd (c : Con) (g : GoBackN.State Bytes) : Prop where
  sent : g.sent = c.sdus
  nextSeq : c.nextSeq + unbumped c.pc = MINIP_FIRST_SEQ + 1 + c.sdus.length
  wire : ∀ d, Packet.data d ∈ c.tx → Numbered g d
  queue : ∀ e ∈ c.rtxq.head, Numbered g e.skb
  held : c.destroys = 0 →
    seqs c = List.range' (MINIP_FIRST_SEQ + 1 + g.una) (g.sent.length - g.una)

/-- What the handler under way has written of its packet. -/
def inWrite : Option RxWrite → Bytes
  | none => []
  | some r => r.w.done

/- The bytes written are the delivered items and a part of the rest, which is what the handler
under way has written; on a dead socket that part is what a failed handler left behind. -/
def Written (c : Con) (g : GoBackN.State Bytes) : Prop :=
  ∃ part, c.wr = (g.sent.take g.delivered).flatten ++ part ∧
    part <+: (g.sent.drop g.delivered).flatten ∧ (Dead c ∨ part = inWrite c.rx)

structure Rcv (c : Con) (g : GoBackN.State Bytes) : Prop where
  nextRecv : c.nextRecv = MINIP_FIRST_SEQ + 1 + g.delivered
  acks : ∀ id k ts, Packet.ack id k ts ∈ c.tx → ∃ i ∈ g.acks, k = MINIP_FIRST_SEQ + 1 + i
  rx : ∀ r, c.rx = some r → Numbered g r.pdu ∧ r.pdu.seq = c.nextRecv ∧
    r.w.done ++ r.w.rest = r.pdu.sdu ∧ r.w.rest ≠ []
  written : Written c g

theorem numbered_mono (g g' : GoBackN.State Bytes) (d : DataPdu) (h : Numbered g d)
    (hd : g.data ⊆ g'.data) : Numbered g' d := by
  obtain ⟨i, hi, hm⟩ := h.item
  exact ⟨h.len, h.ne, i, hi, hd hm⟩

theorem numbered_sameData (g : GoBackN.State Bytes) (d p : DataPdu) (h : Numbered g p)
    (hs : SameData d p) : Numbered g d := by
  unfold SameData at hs
  rw [hs]
  exact ⟨h.len, h.ne, h.item⟩

/- A step of the receiver leaves the abstract sender alone, a step of the sender only appends to
what the abstract receiver will see. -/

theorem snd_mono (c : Con) (g g' : GoBackN.State Bytes) (h : Snd c g) (hs : g'.sent = g.sent)
    (hu : g'.una = g.una) (hd : g'.data = g.data) : Snd c g' := by
  have hn (d : DataPdu) (hn : Numbered g d) : Numbered g' d := numbered_mono g g' d hn hd.ge
  refine ⟨hs.trans h.sent, h.nextSeq, fun d hd => hn d (h.wire d hd),
    fun e he => hn _ (h.queue e he), ?_⟩
  rw [hs, hu]
  exact h.held

theorem rcv_mono (c : Con) (g g' : GoBackN.State Bytes) (h : Rcv c g) (hi : GoBackN.Inv g)
    (hs : g.sent <+: g'.sent) (hd : g'.delivered = g.delivered) (hdata : g.data ⊆ g'.data)
    (ha : g'.acks = g.acks) : Rcv c g' := by
  obtain ⟨rest, hrest⟩ := hs
  refine ⟨hd ▸ h.nextRecv, ha ▸ h.acks, ?_, ?_⟩
  · intro r hr
    obtain ⟨hn, h'⟩ := h.rx r hr
    exact ⟨numbered_mono g g' _ hn hdata, h'⟩
  · obtain ⟨part, hw, hp, hdone⟩ := h.written
    refine ⟨part, ?_, ?_, hdone⟩
    · rw [← hrest, hd, List.take_append_of_le_length hi.delivered_le, hw]
    · rw [← hrest, hd, List.drop_append_of_le_length hi.delivered_le, List.flatten_append]
      exact hp.trans (List.prefix_append _ _)

/-- Fewer than `2^32 - 10` data packets. -/
def Short (c : Con) : Prop := c.sdus.length < 4294967286

/- One direction of the two connections, `x` sending and `y` receiving. -/
def Dir (x y : Con) : Prop := ∃ g, Steps GoBackN.init g ∧ Snd x g ∧ Rcv y g

/- No packet is sent: only the numbers left in the queue may change, and `una` with them. -/
theorem snd_keep (x x' : Con) (g g' : GoBackN.State Bytes) (h : Snd x g) (qs : List ℕ)
    (hk : Keeps x { x' with pc := x.pc, rd := x.rd } qs) (hu : unbumped x'.pc = unbumped x.pc)
    (hs : g'.sent = g.sent) (hd : g'.data = g.data)
    (hq : x.destroys = 0 → qs =
      List.range' (MINIP_FIRST_SEQ + 1 + g'.una) (g'.sent.length - g'.una)) : Snd x' g' := by
  have hsame (d : DataPdu) (he : ∃ e ∈ x.rtxq.head, SameData d e.skb) : Numbered g' d := by
    obtain ⟨e, he, hsd⟩ := he
    exact numbered_mono g g' d (numbered_sameData g d e.skb (h.queue e he) hsd) hd.ge
  have hsdus : x'.sdus = x.sdus := hk.sdus
  refine ⟨by rw [hs, h.sent, hsdus], ?_, ?_, fun e he => hsame e.skb (hk.queue e he), ?_⟩
  · have hn : x'.nextSeq = x.nextSeq := hk.nextSeq
    rw [hn, hu, hsdus]
    exact h.nextSeq
  · intro d hw
    rcases hk.data d hw with hw | hw
    · exact numbered_mono g g' d (h.wire d hw) hd.ge
    · exact hsame d hw
  · intro h0
    obtain ⟨hx, hqs⟩ := hk.seqs h0
    exact hqs.trans (hq hx)

/-- An ACK of the peer is an ACK of the abstract receiver. -/
theorem snd_ack (x x' : Con) (g : GoBackN.State Bytes) (h : Snd x g) (hi : GoBackN.Inv g) (i : ℕ)
    (ha : i ∈ g.acks)
    (hk : Keeps x x' ((entriesAck (MINIP_FIRST_SEQ + 1 + i) x.rtxq.head).1.map
      fun e => e.skb.seq)) : Snd x' { g with una := max g.una i } := by
  have hle : i ≤ g.sent.length := (hi.acks_le i ha).trans hi.delivered_le
  have hu : g.una ≤ g.sent.length := hi.una_le.trans hi.delivered_le
  refine snd_keep x x' g _ h _ (keeps_pin x x' _ hk) (by rw [hk.pc]) rfl rfl ?_
  intro hx
  rw [entriesAck_consecutive _ _ _ _ (h.held hx) (by omega)]
  dsimp only
  congr 1 <;> omega

theorem dataPdu_numbered (x : Con) (g : GoBackN.State Bytes) (left : Bytes) (now : ℕ) (h : Snd x g)
    (hu : unbumped x.pc = 0) (hl : left ≠ []) :
    Numbered (g.push (left.take MINIP_MSS)) (dataPdu x (left.take MINIP_MSS) now) := by
  refine ⟨?_, ?_, g.sent.length, ?_, Set.mem_insert _ _⟩
  · have hle : (left.take MINIP_MSS).length ≤ 1481 := List.length_take_le _ _
    simp only [dataPdu]
    omega
  · cases left with
    | nil => exact absurd rfl hl
    | cons b bs => simp [dataPdu, MINIP_MSS]
  · have hn := h.nextSeq
    rw [hu] at hn
    rw [h.sent]
    exact hn

theorem snd_send (x x' : Con) (g : GoBackN.State Bytes) (left : Bytes) (sent now : ℕ) (h : Snd x g)
    (hi : GoBackN.Inv g) (hpc : x.pc = .send left sent) (hl : left ≠ [])
    (hu : unbumped x'.pc = 1) (hs : x'.sdus = x.sdus ++ [left.take MINIP_MSS])
    (hn : x'.nextSeq = x.nextSeq)
    (hq : x'.rtxq = rtxqueuePush x.rtxq (dataPdu x (left.take MINIP_MSS) now))
    (hd : x'.destroys = x.destroys)
    (ht : x'.tx = x.tx ++ [.data (dataPdu x (left.take MINIP_MSS) now)]) :
    Snd x' (g.push (left.take MINIP_MSS)) := by
  have hu0 : unbumped x.pc = 0 := by rw [hpc]; rfl
  have hnum := dataPdu_numbered x g left now h hu0 hl
  have hseq : x.nextSeq = MINIP_FIRST_SEQ + 1 + g.sent.length := by
    have hx := h.nextSeq
    rw [hu0] at hx
    rw [h.sent]
    exact hx
  have hmono (d : DataPdu) (hd : Numbered g d) : Numbered (g.push (left.take MINIP_MSS)) d :=
    numbered_mono g _ d hd (Set.subset_insert _ _)
  refine ⟨by simp only [GoBackN.State.push, h.sent, hs], ?_, ?_, ?_, ?_⟩
  · have hlen := congrArg List.length h.sent
    simp only [hn, hu, hs, hseq, List.length_append, List.length_singleton]
    omega
  · intro d hd
    rw [ht] at hd
    rcases List.mem_append.mp hd with hd | hd
    · exact hmono d (h.wire d hd)
    · cases List.mem_singleton.mp hd
      exact hnum
  · intro e he
    rw [hq] at he
    rcases List.mem_append.mp he with he | he
    · exact hmono e.skb (h.queue e he)
    · cases List.mem_singleton.mp he
      exact hnum
  · intro h0
    have hle : g.una ≤ g.sent.length := hi.una_le.trans hi.delivered_le
    have hk : (g.sent ++ [left.take MINIP_MSS]).length - g.una = g.sent.length - g.una + 1 := by
      simp only [List.length_append, List.length_singleton]
      omega
    have hlast : MINIP_FIRST_SEQ + 1 + g.una + (g.sent.length - g.una) = x.nextSeq := by omega
    have hx := h.held (hd ▸ h0)
    simp only [GoBackN.State.push, hk, List.range'_1_concat, hlast, ← hx, seqs, hq, rtxqueuePush,
      List.map_append]
    rfl

theorem snd_advance (x : Con) (g : GoBackN.State Bytes) (left : Bytes) (sent : ℕ) (h : Snd x g)
    (hpc : x.pc = .advance left sent) (hb : Short x) : Snd (sndAdvance x left sent) g := by
  refine ⟨h.sent, ?_, h.wire, h.queue, h.held⟩
  have hn := h.nextSeq
  have h9 : MINIP_FIRST_SEQ = 9 := rfl
  unfold Short at hb
  rw [hpc] at hn
  simp only [unbumped] at hn
  unfold sndAdvance
  dsimp only
  rw [hn, u32_of_lt _ (by omega)]
  split <;> rfl

/-- A step of the sender, matched by the abstract sender. -/
theorem dir_snd (x x' y : Con) (a : Act) (h : Dir x y) (hst : SndStep x a x') (hx : Packetised x)
    (hb : Short x')
    (hack : ∀ id k ts now xmit, a = .recv (.ack id k ts) now xmit → Packet.ack id k ts ∈ y.tx) :
    Dir x' y := by
  obtain ⟨g, hg, hsnd, hrcv⟩ := h
  have hi := GoBackN.steps_inv _ _ GoBackN.init_inv hg
  cases hst with
  | keep hk hu =>
    exact ⟨g, hg, snd_keep x x' g g hsnd _ hk hu rfl rfl hsnd.held, hrcv⟩
  | ack id k ts now xmit ha hk =>
    obtain ⟨i, hia, rfl⟩ := hrcv.acks id k ts (hack id k ts now xmit ha)
    exact ⟨_, hg.tail (.ack g i hia), snd_ack x x' g hsnd hi i hia hk,
      rcv_mono y g _ hrcv hi List.prefix_rfl rfl subset_rfl rfl⟩
  | send left sent now hpc hu hs hn hq hd ht =>
    exact ⟨_, hg.tail (.send g (left.take MINIP_MSS)),
      snd_send x x' g left sent now hsnd hi hpc (hx.left left sent hpc) hu hs hn hq hd ht,
      rcv_mono y g _ hrcv hi (List.prefix_append _ _) rfl (Set.subset_insert _ _) rfl⟩
  | advance left sent hpc hc' =>
    subst hc'
    exact ⟨g, hg, snd_advance x g left sent hsnd hpc hb, hrcv⟩

/- ### The receiver -/

/-- Whatever ACKs a step of the receiver sends carry the number it expects. -/
theorem rcv_calm (y y' : Con) (g : GoBackN.State Bytes) (h : Rcv y g) (hc : Calm y y') :
    Rcv y' { g with acks := insert g.delivered g.acks } := by
  refine ⟨hc.nextRecv.trans h.nextRecv, ?_, ?_, ?_⟩
  · intro id k ts hk
    rcases hc.acks id k ts hk with hk | hk
    · obtain ⟨i, hi, rfl⟩ := h.acks id k ts hk
      exact ⟨i, Set.mem_insert_of_mem _ hi, rfl⟩
    · exact ⟨g.delivered, Set.mem_insert _ _, hk.trans h.nextRecv⟩
  · intro r hr
    rw [hc.rx] at hr
    obtain ⟨hn, hseq, hw⟩ := h.rx r hr
    exact ⟨numbered_mono g _ _ hn subset_rfl, hseq.trans hc.nextRecv.symm, hw⟩
  · obtain ⟨part, hw, hp, hdone⟩ := h.written
    refine ⟨part, hc.wr.trans hw, hp, ?_⟩
    rcases hdone with (hs | he) | hd
    · exact Or.inl (Or.inl (hc.shut hs))
    · exact Or.inl (Or.inr (hc.err he))
    · exact Or.inr (hc.rx ▸ hd)

/-- The item whose packet the handler is writing is the next one of the abstract receiver. -/
theorem rcv_next (y : Con) (g : GoBackN.State Bytes) (r : RxWrite) (h : Rcv y g)
    (hx : y.rx = some r) : (g.delivered, r.pdu.sdu) ∈ g.data := by
  obtain ⟨hn, hseq, -⟩ := h.rx r hx
  obtain ⟨i, hi, hm⟩ := hn.item
  have hd : i = g.delivered := by
    have hr := h.nextRecv
    omega
  exact hd ▸ hm

theorem drop_delivered (g : GoBackN.State Bytes) (hi : GoBackN.Inv g) (b : Bytes)
    (h : (g.delivered, b) ∈ g.data) : b <+: (g.sent.drop g.delivered).flatten := by
  obtain ⟨hlt, hb⟩ := List.getElem?_eq_some_iff.mp (hi.data_sent _ _ h)
  rw [List.drop_eq_getElem_cons hlt, hb, List.flatten_cons]
  exact List.prefix_append _ _

/-- A handler that is offered nothing by a dead socket leaves what was written as it is. -/
theorem rcv_again (y : Con) (g : GoBackN.State Bytes) (r : RxWrite) (w : SockWrite) (rc : Int)
    (h : Rcv y g) (hi : GoBackN.Inv g) (hx : y.rx = some r) (hd : Dead y → rc ≤ 0)
    (hit : pepdnaSockWriteIter r.w rc = .again w) :
    Rcv { sendmsgTook y r.w rc with rx := some ⟨r.pdu, w⟩ } g := by
  obtain ⟨hn, hseq, hsplit, hne⟩ := h.rx r hx
  obtain ⟨hdone, hrest, hne'⟩ := iter_again r.w w rc hit hne
  have hsdu : w.done ++ w.rest = r.pdu.sdu := by
    rw [hdone, List.append_assoc, hrest, hsplit]
  refine ⟨h.nextRecv, h.acks, ?_, ?_⟩
  · intro r' hr'
    cases hr'
    exact ⟨hn, hseq, hsdu, hne'⟩
  · obtain ⟨part, hw, hp, hpart⟩ := h.written
    rcases hpart with hdead | hpart
    · refine ⟨part, ?_, hp, Or.inl ?_⟩
      · simp only [sendmsgTook, accepted_of_nonpos r.w rc (hd hdead), List.append_nil, hw]
      · rcases hdead with hs | he
        · exact Or.inl hs
        · exact Or.inr (by simp only [sendmsgTook, he, Bool.true_or])
    · rw [hx, inWrite] at hpart
      refine ⟨w.done, ?_, ?_, Or.inr rfl⟩
      · simp only [sendmsgTook, hw, hpart, hdone, List.append_assoc]
      · have hpre : w.done <+: r.pdu.sdu := ⟨w.rest, hsdu⟩
        exact hpre.trans (drop_delivered g hi _ (rcv_next y g r h hx))

/-- The handler wrote all of its packet. -/
theorem rcv_taken (y : Con) (g : GoBackN.State Bytes) (r : RxWrite) (v rc : Int) (h : Rcv y g)
    (hi : GoBackN.Inv g) (hx : y.rx = some r) (hd : Dead y → rc ≤ 0)
    (hit : pepdnaSockWriteIter r.w rc = .ret v) (hv : 0 ≤ v)
    (hb : g.sent.length < 4294967286) :
    Rcv { sendmsgTook y r.w rc with rx := none, nextRecv := u32 (y.nextRecv + 1) }
      { g with delivered := g.delivered + 1, acks := insert (g.delivered + 1) g.acks } := by
  obtain ⟨hn, hseq, hsplit, hne⟩ := h.rx r hx
  obtain ⟨hacc, -⟩ := iter_ret_nonneg r.w rc v hit hv
  have halive : ¬Dead y := by
    intro hdead
    rw [accepted_of_nonpos r.w rc (hd hdead)] at hacc
    exact hne hacc.symm
  have hnext := rcv_next y g r h hx
  obtain ⟨hlt, -⟩ := List.getElem?_eq_some_iff.mp (hi.data_sent _ _ hnext)
  have h9 : MINIP_FIRST_SEQ = 9 := rfl
  have hrecv := h.nextRecv
  refine ⟨?_, ?_, nofun, [], ?_, List.nil_prefix, Or.inr rfl⟩
  · dsimp only
    rw [u32_of_lt _ (by omega)]
    omega
  · intro id k ts hk
    obtain ⟨i, hia, rfl⟩ := h.acks id k ts hk
    exact ⟨i, Set.mem_insert_of_mem _ hia, rfl⟩
  · obtain ⟨part, hw, -, hpart⟩ := h.written
    have hdone := hpart.resolve_left halive
    rw [hx, inWrite] at hdone
    dsimp only [sendmsgTook]
    rw [GoBackN.take_succ_delivered g hi _ hnext, hw, hdone, hacc, List.append_assoc, hsplit]
    simp

theorem close_shut (c : Con) (hf : c.lflag = true ∨ c.shut = true)
    (hs : c.lsock = true ∨ c.shut = true) : (pepdnaConClose c).shut = true := by
  rw [pepdnaConClose_eq]
  rcases hf with hf | hf
  · rcases hs with hs | hs
    · simp [hf, hs]
    · simp [hs]
  · simp [hf]

/- A write that failed midway is followed by the close of the connection. The state compared with
is the one before the close, its socket already shut. -/
theorem rcv_failed (y : Con) (g : GoBackN.State Bytes) (r : RxWrite) (v rc : Int) (h : Rcv y g)
    (he : Est y) (hit : pepdnaSockWriteIter r.w rc = .ret v) (hv : v < 0) :
    Rcv (minip2iFinish (sendmsgTook y r.w rc) r.pdu v)
      { g with acks := insert g.delivered g.acks } := by
  let y₁ : Con := { sendmsgTook y r.w rc with rx := none, shut := true }
  have hcalm := calm_finish_neg (sendmsgTook y r.w rc) r.pdu v hv
  have hshut : (minip2iFinish (sendmsgTook y r.w rc) r.pdu v).shut = true := by
    simp only [minip2iFinish, hv, if_true]
    exact close_shut _ he.flag he.sock
  have hcalm' : Calm y₁ (minip2iFinish (sendmsgTook y r.w rc) r.pdu v) :=
    ⟨hcalm.nextRecv, hcalm.wr, hcalm.rx, hcalm.acks, hcalm.setup, hcalm.tcfa, hcalm.syn,
      fun _ => hshut, hcalm.err, Or.inr (Or.inl hshut), Or.inr (Or.inl hshut), hcalm.live⟩
  refine rcv_calm y₁ _ g ⟨h.nextRecv, h.acks, fun _ hr => (by cases hr), ?_⟩ hcalm'
  obtain ⟨part, hw, hp, -⟩ := h.written
  refine ⟨part, ?_, hp, Or.inl (Or.inl rfl)⟩
  show y.wr ++ r.w.accepted rc = _
  rw [iter_ret_neg r.w rc v hit hv, List.append_nil, hw]

theorem rcv_begin (y : Con) (g : GoBackN.State Bytes) (d : DataPdu) (h : Rcv y g)
    (hn : Numbered g d) (hseq : d.seq = y.nextRecv) (hx : y.rx = none) :
    Rcv { y with rx := some ⟨d, SockWrite.start (d.sdu.take d.sduLen)⟩ } g := by
  have hbuf : d.sdu.take d.sduLen = d.sdu := by rw [hn.len, List.take_length]
  refine ⟨h.nextRecv, h.acks, ?_, ?_⟩
  · intro r hr
    cases hr
    exact ⟨hn, hseq, hbuf, hbuf.symm ▸ hn.ne⟩
  · obtain ⟨part, hw, hp, hpart⟩ := h.written
    rw [hx] at hpart
    exact ⟨part, hw, hp, hpart⟩

/-- A step of the receiver, matched by the abstract receiver. -/
theorem dir_rcv (x y y' : Con) (a : Act) (h : Dir x y) (hst : RcvStep y a y') (he : Est y)
    (hb : Short x)
    (hdata : ∀ d now xmit, a = .recv (.data d) now xmit → Packet.data d ∈ x.tx) : Dir x y' := by
  obtain ⟨g, hg, hsnd, hrcv⟩ := h
  have hi := GoBackN.steps_inv _ _ GoBackN.init_inv hg
  cases hst with
  | calm hc =>
    exact ⟨_, hg.tail (.reject g), snd_mono x g _ hsnd rfl rfl rfl, rcv_calm y y' g hrcv hc⟩
  | begin d now xmit ha hseq hx hne hc' =>
    subst hc'
    exact ⟨g, hg, hsnd, rcv_begin y g d hrcv (hsnd.wire d (hdata d now xmit ha)) hseq hx⟩
  | empty d now xmit ha hemp hc' =>
    have hn := hsnd.wire d (hdata d now xmit ha)
    rw [hn.len, List.take_length] at hemp
    exact absurd hemp hn.ne
  | again r w rc hx hd hit hc' =>
    subst hc'
    exact ⟨g, hg, hsnd, rcv_again y g r w rc hrcv hi hx hd hit⟩
  | ret r v rc hx hd hit hc' =>
    subst hc'
    by_cases hv : v < 0
    · exact ⟨_, hg.tail (.reject g), snd_mono x g _ hsnd rfl rfl rfl,
        rcv_failed y g r v rc hrcv he hit hv⟩
    · have hv0 : 0 ≤ v := by omega
      have hlen : g.sent.length < 4294967286 := hsnd.sent ▸ hb
      have htaken := rcv_taken y g r v rc hrcv hi hx hd hit hv0 hlen
      have hcalm := calm_finish_nonneg (sendmsgTook y r.w rc) r.pdu v hv0
      exact ⟨_, (hg.tail (.deliver g _ (rcv_next y g r hrcv hx))).tail (.reject _),
        snd_mono x g _ hsnd rfl rfl rfl, rcv_calm _ _ _ htaken hcalm⟩

/- ### The two connections -/

theorem snd_unsend (c : Con) (p : Packet) (g : GoBackN.State Bytes) (h : Snd c g) :
    Snd (unsend c p) g :=
  ⟨h.sent, h.nextSeq, fun d hd => h.wire d (List.mem_of_mem_erase hd), h.queue, h.held⟩

theorem rcv_unsend (c : Con) (p : Packet) (g : GoBackN.State Bytes) (h : Rcv c g) :
    Rcv (unsend c p) g :=
  ⟨h.nextRecv, fun id k ts hk => h.acks id k ts (List.mem_of_mem_erase hk), h.rx, h.written⟩

theorem sndStep_sdus (c c' : Con) (a : Act) (h : SndStep c a c') :
    c.sdus.length ≤ c'.sdus.length := by
  cases h with
  | keep hk hu => exact le_of_eq (congrArg List.length hk.sdus.symm)
  | ack id k ts now xmit ha hk => exact le_of_eq (congrArg List.length hk.sdus.symm)
  | send left sent now hpc hu hs hn hq hd ht =>
    rw [hs, List.length_append]
    omega
  | advance left sent hpc hc' =>
    subst hc'
    exact le_rfl

structure Linked (s : Peers) : Prop where
  est : ∀ x, Est (s.get x)
  packetised : ∀ x, Packetised (s.get x)
  dir : (∀ x, Short (s.get x)) → ∀ x, Dir (s.get x) (s.get x.other)

theorem linked_openPeers (syn : SynTuple) : Linked (openPeers syn) := by
  have hsnd (m : Mode) : Snd (openCon m syn) GoBackN.init :=
    ⟨rfl, rfl, nofun, nofun, fun _ => rfl⟩
  have hrcv (m : Mode) : Rcv (openCon m syn) GoBackN.init :=
    ⟨rfl, nofun, nofun, [], rfl, List.nil_prefix, Or.inr rfl⟩
  have hpk (m : Mode) : Packetised (openCon m syn) := ⟨rfl, nofun⟩
  refine ⟨?_, ?_, ?_⟩
  · intro x
    cases x
    · exact est_openCon _ syn
    · exact est_openCon _ syn
  · intro x
    cases x
    · exact hpk _
    · exact hpk _
  · intro _ x
    cases x
    · exact ⟨_, .refl, hsnd _, hrcv _⟩
    · exact ⟨_, .refl, hsnd _, hrcv _⟩

/-- The number of packets only grows. -/
theorem short_before (s : Peers) (z : Side) (a : Act) (c' : Con) (hs : Linked s)
    (h : conStep (s.get z) a = some c') (hok : SendSucceeds a)
    (hb : ∀ x, Short ((s.set z c').get x)) (x : Side) : Short (s.get x) := by
  have he := hs.est z
  have hx := hb x
  rcases side_cases z x with rfl | rfl
  · rw [get_set] at hx
    exact lt_of_le_of_lt (sndStep_sdus _ _ a (conStep_snd _ _ a h he.tcfa he.syn hok)) hx
  · rw [get_set_other] at hx
    exact hx

theorem short_unsend (s : Peers) (z : Side) (p : Packet)
    (hb : ∀ x, Short ((s.set z (unsend (s.get z) p)).get x)) (x : Side) : Short (s.get x) := by
  have hx := hb x
  rcases side_cases z x with rfl | rfl
  · rw [get_set] at hx
    exact hx
  · rw [get_set_other] at hx
    exact hx

theorem linked_conStep (s : Peers) (z : Side) (a : Act) (c' : Con) (hs : Linked s)
    (h : conStep (s.get z) a = some c') (hok : SendSucceeds a)
    (hp : ∀ p now xmit, a = .recv p now xmit → p ∈ (s.get z.other).tx) :
    Linked (s.set z c') := by
  have he := hs.est z
  have hsnd := conStep_snd _ _ a h he.tcfa he.syn hok
  have hrcv := conStep_rcv _ _ a h he fun p now xmit ha =>
    (hs.est z.other).setup p (hp p now xmit ha)
  have hpk := packetised_step _ _ a (hs.packetised z) h he.tcfa he.syn hok
  refine ⟨?_, ?_, ?_⟩
  · intro x
    rcases side_cases z x with rfl | rfl
    · rw [get_set]
      exact est_rcv _ _ a he hrcv
    · rw [get_set_other]
      exact hs.est _
  · intro x
    rcases side_cases z x with rfl | rfl
    · rw [get_set]
      exact hpk
    · rw [get_set_other]
      exact hs.packetised _
  · intro hb x
    have hz : Short c' := get_set s z c' ▸ hb z
    have hold := short_before s z a c' hs h hok hb
    rcases side_cases z x with rfl | rfl
    · rw [get_set, get_set_other]
      exact dir_snd _ _ _ a (hs.dir hold x) hsnd (hs.packetised x) hz
        fun id k ts now xmit ha => hp _ now xmit ha
    · have hd := hs.dir hold z.other
      rw [other_other] at hd ⊢
      rw [get_set, get_set_other]
      exact dir_rcv _ _ _ a hd hrcv he (hold _) fun d now xmit ha => hp _ now xmit ha

theorem linked_unsend (s : Peers) (z : Side) (p : Packet) (hs : Linked s) :
    Linked (s.set z (unsend (s.get z) p)) := by
  refine ⟨?_, ?_, ?_⟩
  · intro x
    rcases side_cases z x with rfl | rfl
    · rw [get_set]
      have he := hs.est x
      exact ⟨he.tcfa, he.syn, fun q hq => he.setup q (List.mem_of_mem_erase hq), he.flag, he.sock,
        he.live⟩
    · rw [get_set_other]
      exact hs.est _
  · intro x
    rcases side_cases z x with rfl | rfl
    · rw [get_set]
      exact ⟨(hs.packetised x).rd, (hs.packetised x).left⟩
    · rw [get_set_other]
      exact hs.packetised _
  · intro hb x
    have hold := short_unsend s z p hb
    rcases side_cases z x with rfl | rfl
    · rw [get_set, get_set_other]
      obtain ⟨g, hg, hsnd, hrcv⟩ := hs.dir hold x
      exact ⟨g, hg, snd_unsend _ p g hsnd, hrcv⟩
    · obtain ⟨g, hg, hsnd, hrcv⟩ := hs.dir hold z.other
      rw [other_other] at hrcv ⊢
      rw [get_set, get_set_other]
      exact ⟨g, hg, hsnd, rcv_unsend _ p g hrcv⟩

theorem linked_step (s : Peers) (a : NetAct) (t : Peers) (hs : Linked s) (hok : NetSendSucceeds a)
    (h : peersStep s a = some t) : Linked t := by
  refine peersStep_rule Linked s t a h hs ?_ linked_unsend
  intro x act c' ha hc' hp
  exact linked_conStep s x act c' hs hc' (netSendSucceeds_atSide a x act hok ha) hp

theorem linked_run (syn : SynTuple) (acts : List NetAct) (s : Peers)
    (hok : ∀ a ∈ acts, NetSendSucceeds a)
    (h : Lts.run peersStep (openPeers syn) acts = some s) : Linked s :=
  Lts.run_invariant_along Linked (fun _ a => NetSendSucceeds a) linked_step _ s acts
    (linked_openPeers syn) (Lts.along_of_forall NetSendSucceeds _ acts hok) h

theorem dir_written (x y : Con) (h : Dir x y) : y.wr <+: x.sdus.flatten := by
  obtain ⟨g, -, hsnd, hrcv⟩ := h
  obtain ⟨part, hw, hp, -⟩ := hrcv.written
  rw [← hsnd.sent, hw]
  conv_rhs => rw [← List.take_append_drop g.delivered g.sent, List.flatten_append]
  exact (List.prefix_append_right_inj _).mpr hp

theorem packetised_sdus (c : Con) (h : Packetised c) : c.sdus.flatten <+: c.rd := by
  rw [h.rd]
  exact List.prefix_append _ _

/-- In each direction the receiver's TCP socket was given a prefix of what the sender's delivered. -/
theorem peersRun_written_prefix (syn : SynTuple) (acts : List NetAct) (s : Peers)
    (h : Lts.run peersStep (openPeers syn) acts = some s)
    (hok : ∀ a ∈ acts, NetSendSucceeds a) (hb : ∀ x, Short (s.get x)) (x : Side) :
    (s.get x.other).wr <+: (s.get x).rd := by
  have hl := linked_run syn acts s hok h
  exact (dir_written _ _ (hl.dir hb x)).trans (packetised_sdus _ (hl.packetised x))

/- A run in which a packet of two bytes is sent, delivered, and half written. -/
def halfWritten : List NetAct :=
  [.own .a (.work .tau), .own .a (.work .tau), .own .a (.work .tau), .own .a (.work (.read [1, 2])),
    .own .a (.work (.skb (.xmit 0) 5)), .own .a (.work .tau),
    .deliver .b (.data ⟨sampleSyn.hashId, 10, 2, 5, [1, 2]⟩) true 7 fun _ => 0,
    .own .b (.sendmsg 1)]

def halfWrittenPeers : Peers :=
  (Lts.run peersStep (openPeers sampleSyn) halfWritten).getD (openPeers sampleSyn)

theorem halfWritten_run :
    Lts.run peersStep (openPeers sampleSyn) halfWritten = some halfWrittenPeers := by
  decide +kernel

theorem halfWritten_ok : ∀ a ∈ halfWritten, NetSendSucceeds a := by decide +kernel

theorem halfWritten_short (x : Side) : Short (halfWrittenPeers.get x) := by
  unfold Short
  cases x <;> decide +kernel

theorem halfWritten_written_prefix :
    (halfWrittenPeers.get .b).wr = [1] ∧
      (halfWrittenPeers.get .b).wr <+: (halfWrittenPeers.get .a).rd :=
  ⟨by decide +kernel, peersRun_written_prefix sampleSyn halfWritten halfWrittenPeers
    halfWritten_run halfWritten_ok halfWritten_short .a⟩

/-- A number below `next_recv` is an item the receiver has written, all of the earlier ones
included. -/
theorem rcv_delivered (y : Con) (g : GoBackN.State Bytes) (n : ℕ) (h : Rcv y g)
    (hn : n < y.nextRecv) :
    (g.sent.take (n - MINIP_FIRST_SEQ)).flatten <+: y.wr := by
  obtain ⟨part, hw, -, -⟩ := h.written
  have hr := h.nextRecv
  have hle : n - MINIP_FIRST_SEQ ≤ g.delivered := by omega
  obtain ⟨rest, hrest⟩ := List.take_prefix_take_left hle (l := g.sent)
  rw [hw, ← hrest, List.flatten_append, List.append_assoc]
  exact List.prefix_append _ _

theorem snd_held (x : Con) (g : GoBackN.State Bytes) (n : ℕ) (h : Snd x g) (hi : GoBackN.Inv g)
    (h0 : x.destroys = 0) (hlo : MINIP_FIRST_SEQ + 1 + g.una ≤ n) (hhi : n < x.nextSeq) :
    ∃ e ∈ x.rtxq.head, e.skb.seq = n ∧
      x.sdus[n - (MINIP_FIRST_SEQ + 1)]? = some e.skb.sdu := by
  have hlen := congrArg List.length h.sent
  have hseq := h.nextSeq
  have hmem : n ∈ seqs x := by
    rw [h.held h0, List.mem_range'_1]
    omega
  obtain ⟨e, he, rfl⟩ := List.mem_map.mp hmem
  obtain ⟨i, hs, hm⟩ := (h.queue e he).item
  refine ⟨e, he, rfl, ?_⟩
  have hidx : e.skb.seq - (MINIP_FIRST_SEQ + 1) = i := by omega
  rw [hidx, ← h.sent]
  exact hi.data_sent i _ hm

/-- A packet of an open connection, or of one whose queue is not destroyed yet, is written by the
peer or is still held for retransmission. -/
theorem peersRun_written_or_held (syn : SynTuple) (acts : List NetAct) (s : Peers)
    (h : Lts.run peersStep (openPeers syn) acts = some s)
    (hok : ∀ a ∈ acts, NetSendSucceeds a) (hb : ∀ x, Short (s.get x)) (x : Side)
    (hopen : (s.get x).lflag = true ∨ (s.get x).destroys = 0) (n : ℕ)
    (hhi : n < (s.get x).nextSeq) :
    (n < (s.get x.other).nextRecv ∧
      ((s.get x).sdus.take (n - MINIP_FIRST_SEQ)).flatten <+: (s.get x.other).wr) ∨
    ∃ e ∈ (s.get x).rtxq.head, e.skb.seq = n ∧
      (s.get x).sdus[n - (MINIP_FIRST_SEQ + 1)]? = some e.skb.sdu := by
  have hl := linked_run syn acts s hok h
  obtain ⟨g, hg, hsnd, hrcv⟩ := hl.dir hb x
  have hi := GoBackN.steps_inv _ _ GoBackN.init_inv hg
  have h0 : (s.get x).destroys = 0 := hopen.elim (hl.est x).live id
  by_cases hn : n < (s.get x.other).nextRecv
  · left
    exact ⟨hn, hsnd.sent ▸ rcv_delivered _ g n hrcv hn⟩
  · right
    have hr := hrcv.nextRecv
    have hu := hi.una_le
    exact snd_held _ g n hsnd hi h0 (by omega) hhi

theorem halfWritten_held :
    ∃ e ∈ (halfWrittenPeers.get .a).rtxq.head, e.skb.seq = 10 ∧
      (halfWrittenPeers.get .a).sdus[0]? = some e.skb.sdu := by
  have h := peersRun_written_or_held sampleSyn halfWritten halfWrittenPeers halfWritten_run
    halfWritten_ok halfWritten_short .a (Or.inl (by decide +kernel)) 10 (by decide +kernel)
  refine h.resolve_left ?_
  rintro ⟨hlt, -⟩
  exact absurd hlt (by decide +kernel)

end PepDna.Minip
