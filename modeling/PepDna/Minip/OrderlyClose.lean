import PepDna.Minip.Delivery
import PepDna.Minip.Teardown

/-!
# What an orderly close delivers

End-of-file makes `pepdna_con_i2m_work` send MINIP_CONN_DELETE and close. The
DELETE has no number and nothing waits for the retransmission queue to empty, so
the peer may take it up before the last packets. What is acknowledged when the
end of the stream is read is written whatever happens afterwards; what is still
in the queue at that moment may be lost.
-/

namespace PepDna.Minip

/-- The queue holds the payloads of the packets that are not acknowledged. -/
theorem snd_queue_sdus (x : Con) (g : GoBackN.State Bytes) (h : Snd x g) (hi : GoBackN.Inv g)
    (h0 : x.destroys = 0) : (x.rtxq.head.map fun e => e.skb.sdu) = g.sent.drop g.una := by
  have hheld := h.held h0
  have hlen : x.rtxq.head.length = g.sent.length - g.una := by
    have hl := congrArg List.length hheld
    rw [seqs, List.length_map, List.length_range'] at hl
    exact hl
  refine List.ext_getElem (by rw [List.length_map, List.length_drop, hlen]) ?_
  intro i hi1 hi2
  rw [List.length_map] at hi1
  rw [List.getElem_map, List.getElem_drop]
  -- the entry at position `i` has the number, and so carries the item, at `una + i`
  obtain ⟨j, hj, hm⟩ := (h.queue _ (List.getElem_mem hi1)).item
  have hseq : x.rtxq.head[i].skb.seq = MINIP_FIRST_SEQ + 1 + g.una + i := by
    have hr : (seqs x)[i]? = some (MINIP_FIRST_SEQ + 1 + g.una + i) := by
      rw [hheld, List.getElem?_range' (hlen ▸ hi1), Nat.one_mul]
    rw [seqs, List.getElem?_map, List.getElem?_eq_getElem hi1] at hr
    exact Option.some.inj hr
  have hji : j = g.una + i := by omega
  obtain ⟨hlt, hb⟩ := List.getElem?_eq_some_iff.mp (hi.data_sent _ _ hm)
  subst hji
  exact hb.symm

theorem rcvStep_wr (y y' : Con) (a : Act) (h : RcvStep y a y') : y.wr <+: y'.wr := by
  have hfinish (c : Con) (d : DataPdu) (v : Int) : (minip2iFinish c d v).wr = c.wr := by
    by_cases hv : v < 0
    · exact (calm_finish_neg c d v hv).wr
    · exact (calm_finish_nonneg c d v (by omega)).wr
  cases h with
  | calm hc => rw [hc.wr]
  | begin d now xmit ha hseq hx hne hc' => subst hc'; exact List.prefix_rfl
  | empty d now xmit ha he hc' => rw [hc', hfinish]
  | again r w rc hx hd hit hc' => subst hc'; exact List.prefix_append _ _
  | ret r v rc hx hd hit hc' =>
    rw [hc', hfinish]
    exact List.prefix_append _ _

theorem rcvStep_unflagged (y y' : Con) (a : Act) (h : RcvStep y a y') (hf : y.lflag = false) :
    y'.lflag = false := by
  have hcalm (c c' : Con) (hc : Calm c c') (hf : c.lflag = false) : c'.lflag = false := by
    cases hf' : c'.lflag with
    | false => rfl
    | true => exact absurd (hc.live hf').1 (by rw [hf]; nofun)
  have hfinish (c : Con) (d : DataPdu) (v : Int) (hf : c.lflag = false) :
      (minip2iFinish c d v).lflag = false := by
    by_cases hv : v < 0
    · exact hcalm _ _ (calm_finish_neg c d v hv) hf
    · exact hcalm _ _ (calm_finish_nonneg c d v (by omega)) hf
  cases h with
  | calm hc => exact hcalm y y' hc hf
  | begin d now xmit ha hseq hx hne hc' => subst hc'; exact hf
  | empty d now xmit ha he hc' => subst hc'; exact hfinish y d 0 hf
  | again r w rc hx hd hit hc' => subst hc'; exact hf
  | ret r v rc hx hd hit hc' => subst hc'; exact hfinish _ _ _ hf

/-- Until `lflag` is cleared the connection is live. -/
theorem unflagged_step (c c' : Con) (a : Act) (he : Est c) (hr : RcvStep c a c')
    (h : conStep c a = some c') (hl : Live c ∨ c.lflag = false) : Live c' ∨ c'.lflag = false := by
  rcases hl with hl | hf
  · rcases live_step c c' a hl he.tcfa he.syn h with hl' | ht
    · exact Or.inl hl'
    · exact Or.inr ht.lflag
  · exact Or.inr (rcvStep_unflagged c c' a hr hf)

/- ### The connection that has read the end of its stream -/

/-- End-of-file was read after the bytes `rd`, sent as the packets `sdus`. -/
structure Closing (rd : Bytes) (sdus : List Bytes) (c : Con) : Prop where
  rd : c.rd = rd
  sdus : c.sdus = sdus
  pc : c.pc = .delete 0 ∨ c.pc = .close ∨ (c.lflag = false ∧ outsideLoop c.pc = true)

theorem closing_work (rd : Bytes) (sdus : List Bytes) (c c' : Con) (i : WorkIn)
    (hc : Closing rd sdus c) (hl : Live c ∨ c.lflag = false) (h : WorkStep c i c') :
    Closing rd sdus c' := by
  have hflag (pc : WorkPc) (he : c.pc = pc) (hd : pc ≠ .delete 0) (hcl : pc ≠ .close) :
      c.lflag = false ∧ outsideLoop pc = true := by
    rcases hc.pc with hp | hp | hp
    · exact absurd (he.symm.trans hp) hd
    · exact absurd (he.symm.trans hp) hcl
    · exact he ▸ hp
  have hno (pc : WorkPc) (he : c.pc = pc) (hd : pc ≠ .delete 0) (hcl : pc ≠ .close)
      (ho : outsideLoop pc = false) : Closing rd sdus c' := by
    rw [(hflag pc he hd hcl).2] at ho
    cases ho
  cases h with
  | start he => exact ⟨hc.rd, hc.sdus, Or.inr (Or.inr ⟨(hflag _ he nofun nofun).1, rfl⟩)⟩
  | test he =>
    have hf := (hflag _ he nofun nofun).1
    rw [hf]
    exact ⟨hc.rd, hc.sdus, Or.inr (Or.inr ⟨rfl, rfl⟩)⟩
  | canSend he => exact hno _ he nofun nofun rfl
  | nomem howMuch he => exact hno _ he nofun nofun rfl
  | read howMuch bs he => exact hno _ he nofun nofun rfl
  | recvRet howMuch rc he => exact hno _ he nofun nofun rfl
  | send left sent o now he => exact hno _ he nofun nofun rfl
  | advance left sent he => exact hno _ he nofun nofun rfl
  | delete rc he => exact ⟨hc.rd, hc.sdus, Or.inr (Or.inl rfl)⟩
  | close he =>
    have hk := keeps_close c
    refine ⟨hk.rd.trans hc.rd, hk.sdus.trans hc.sdus, Or.inr (Or.inr ⟨?_, rfl⟩)⟩
    rw [pepdnaConClose_eq]
    rcases hl with hl | hf
    · simp [hl.lsock]
    · simp [hf]
  | put he =>
    rw [pepdnaConPut_eq]
    exact ⟨hc.rd, hc.sdus, Or.inr (Or.inr ⟨(hflag _ he nofun nofun).1, rfl⟩)⟩

theorem closing_conStep (rd : Bytes) (sdus : List Bytes) (c c' : Con) (a : Act) (he : Est c)
    (hr : RcvStep c a c') (hc : Closing rd sdus c) (hl : Live c ∨ c.lflag = false)
    (h : conStep c a = some c') : Closing rd sdus c' := by
  have hkeep (qs : List ℕ) (hk : Keeps c c' qs) : Closing rd sdus c' := by
    refine ⟨hk.rd.trans hc.rd, hk.sdus.trans hc.sdus, ?_⟩
    rw [hk.pc]
    rcases hc.pc with hp | hp | ⟨hf, hp⟩
    · exact Or.inl hp
    · exact Or.inr (Or.inl hp)
    · exact Or.inr (Or.inr ⟨rcvStep_unflagged c c' a hr hf, hp⟩)
  rcases conStep_keeps c c' a h he.tcfa he.syn with ⟨i, -, hw⟩ | hk | ⟨_, _, _, _, _, _, hk⟩
  · exact closing_work rd sdus c c' i hc hl hw
  · exact hkeep _ hk
  · exact hkeep _ hk

/- ### The two connections -/

structure Settled (s : Peers) : Prop where
  linked : Linked s
  live : ∀ x, Live (s.get x) ∨ (s.get x).lflag = false

theorem settled_openPeers (syn : SynTuple) : Settled (openPeers syn) := by
  refine ⟨linked_openPeers syn, fun x => Or.inl ?_⟩
  cases x
  · exact live_openCon _ syn
  · exact live_openCon _ syn

theorem linked_rcv (s : Peers) (z : Side) (a : Act) (c' : Con) (hs : Linked s)
    (h : conStep (s.get z) a = some c')
    (hp : ∀ p now xmit, a = .recv p now xmit → p ∈ (s.get z.other).tx) :
    RcvStep (s.get z) a c' :=
  conStep_rcv _ _ a h (hs.est z) fun p now xmit ha => (hs.est z.other).setup p (hp p now xmit ha)

theorem settled_conStep (s : Peers) (z : Side) (a : Act) (c' : Con) (hs : Settled s)
    (h : conStep (s.get z) a = some c') (hok : SendSucceeds a)
    (hp : ∀ p now xmit, a = .recv p now xmit → p ∈ (s.get z.other).tx) :
    Settled (s.set z c') := by
  have hz := unflagged_step _ _ a (hs.linked.est z) (linked_rcv s z a c' hs.linked h hp) h
    (hs.live z)
  exact ⟨linked_conStep s z a c' hs.linked h hok hp,
    forall_get_set (fun _ c => Live c ∨ c.lflag = false) s z c' hz (hs.live _)⟩

theorem settled_unsend (s : Peers) (z : Side) (p : Packet) (hs : Settled s) :
    Settled (s.set z (unsend (s.get z) p)) := by
  have hz : Live (unsend (s.get z) p) ∨ (s.get z).lflag = false :=
    (hs.live z).imp (fun hl => live_store (s.get z) _ hl rfl) id
  exact ⟨linked_unsend s z p hs.linked,
    forall_get_set (fun _ c => Live c ∨ c.lflag = false) s z _ hz (hs.live _)⟩

theorem settled_step (s : Peers) (a : NetAct) (t : Peers) (hs : Settled s)
    (hok : NetSendSucceeds a) (h : peersStep s a = some t) : Settled t := by
  refine peersStep_rule Settled s t a h hs ?_ settled_unsend
  intro z act c' ha hc' hp
  exact settled_conStep s z act c' hs hc' (netSendSucceeds_atSide a z act hok ha) hp

/- What only grows in a run: the packets of a sender and the bytes written by a receiver. -/
structure Grown (c c' : Con) : Prop where
  sdus : c.sdus.length ≤ c'.sdus.length
  wr : c.wr <+: c'.wr

/- `x` has read the end of its stream in `s`, and the run has gone on to `t`. -/
structure Ended (s : Peers) (x : Side) (t : Peers) : Prop where
  settled : Settled t
  grown : ∀ y, Grown (s.get y) (t.get y)
  closing : Closing (s.get x).rd (s.get x).sdus (t.get x)

theorem ended_step (s : Peers) (x : Side) (t : Peers) (a : NetAct) (u : Peers)
    (ht : Ended s x t) (hok : NetSendSucceeds a) (h : peersStep t a = some u) : Ended s x u := by
  refine peersStep_rule (Ended s x) t u a h ht ?_ ?_
  · intro z act c' ha hc' hp
    have hsend := netSendSucceeds_atSide a z act hok ha
    have hl := ht.settled.linked
    have he := hl.est z
    have hr := linked_rcv t z act c' hl hc' hp
    have hsnd := conStep_snd _ _ act hc' he.tcfa he.syn hsend
    have hgz : Grown (s.get z) c' :=
      ⟨(ht.grown z).sdus.trans (sndStep_sdus _ _ act hsnd),
        (ht.grown z).wr.trans (rcvStep_wr _ _ act hr)⟩
    refine ⟨settled_conStep t z act c' ht.settled hc' hsend hp,
      forall_get_set (fun y => Grown (s.get y)) t z c' hgz (ht.grown _), ?_⟩
    rcases side_cases z x with rfl | rfl
    · rw [get_set]
      exact closing_conStep _ _ _ _ act he hr ht.closing (ht.settled.live x) hc'
    · rw [get_set_other]
      exact ht.closing
  · intro v z p hv
    refine ⟨settled_unsend v z p hv.settled, forall_get_set (fun y => Grown (s.get y)) v z _
      ⟨(hv.grown z).sdus, (hv.grown z).wr⟩ (hv.grown _), ?_⟩
    rcases side_cases z x with rfl | rfl
    · rw [get_set]
      exact ⟨hv.closing.rd, hv.closing.sdus, hv.closing.pc⟩
    · rw [get_set_other]
      exact hv.closing

/-- The bytes the peer has acknowledged are in front of those in the queue, and are written. -/
theorem dir_acked (x y : Con) (h : Dir x y) (h0 : x.destroys = 0) :
    ∃ acked, acked ++ (x.rtxq.head.map fun e => e.skb.sdu).flatten = x.sdus.flatten ∧
      acked <+: y.wr := by
  obtain ⟨g, hg, hsnd, hrcv⟩ := h
  have hi := GoBackN.steps_inv _ _ GoBackN.init_inv hg
  refine ⟨(g.sent.take g.una).flatten, ?_, ?_⟩
  · rw [snd_queue_sdus x g hsnd hi h0, ← List.flatten_append, List.take_append_drop, hsnd.sent]
  · obtain ⟨part, hw, -, -⟩ := hrcv.written
    obtain ⟨rest, hrest⟩ := List.take_prefix_take_left hi.una_le (l := g.sent)
    rw [hw, ← hrest, List.flatten_append, List.append_assoc]
    exact List.prefix_append _ _

/-- Once a side has read end-of-file, the peer writes a prefix of its stream that holds at least
what was acknowledged by then; it is the whole stream if the queue was empty. -/
theorem peersRun_eof_written (syn : SynTuple) (acts later : List NetAct) (s t : Peers)
    (h : Lts.run peersStep (openPeers syn) acts = some s)
    (hlater : Lts.run peersStep s later = some t)
    (hok : ∀ a ∈ acts ++ later, NetSendSucceeds a) (hb : ∀ x, Short (t.get x)) (x : Side)
    (heof : (s.get x).pc = .delete 0) :
    (t.get x.other).wr <+: (s.get x).rd ∧
    ((s.get x).destroys = 0 →
      (∃ acked, acked ++ ((s.get x).rtxq.head.map fun e => e.skb.sdu).flatten = (s.get x).rd ∧
        acked <+: (t.get x.other).wr) ∧
      ((s.get x).rtxq.head = [] → (t.get x.other).wr = (s.get x).rd)) := by
  rw [List.forall_mem_append] at hok
  have hs : Settled s := Lts.run_invariant_along Settled (fun _ a => NetSendSucceeds a)
    settled_step _ s acts (settled_openPeers syn) (Lts.along_of_forall _ _ acts hok.1) h
  have hstart : Ended s x s :=
    ⟨hs, fun _ => ⟨le_rfl, List.prefix_rfl⟩, rfl, rfl, Or.inl heof⟩
  have ht : Ended s x t := Lts.run_invariant_along (Ended s x) (fun _ a => NetSendSucceeds a)
    (ended_step s x) s t later hstart (Lts.along_of_forall _ _ later hok.2) hlater
  have hrd : (s.get x).rd = (s.get x).sdus.flatten := by
    rw [(hs.linked.packetised x).rd, heof]
    exact List.append_nil _
  have hpre : (t.get x.other).wr <+: (s.get x).rd := by
    rw [hrd, ← ht.closing.sdus]
    exact dir_written _ _ (ht.settled.linked.dir hb x)
  refine ⟨hpre, fun h0 => ?_⟩
  have hbs : ∀ y, Short (s.get y) := fun y => lt_of_le_of_lt (ht.grown y).sdus (hb y)
  obtain ⟨acked, hsplit, hacked⟩ := dir_acked _ _ (hs.linked.dir hbs x) h0
  rw [← hrd] at hsplit
  have hkept := hacked.trans (ht.grown x.other).wr
  refine ⟨⟨acked, hsplit, hkept⟩, fun hq => ?_⟩
  rw [hq, List.map_nil, List.flatten_nil, List.append_nil] at hsplit
  exact hpre.eq_of_length_le (hsplit ▸ hkept.length_le)

/- One packet is sent, written and acknowledged, then the end of the stream is read. -/
def ackedEof : List NetAct :=
  [.own .a (.work .tau), .own .a (.work .tau), .own .a (.work .tau), .own .a (.work (.read [1])),
    .own .a (.work (.skb (.xmit 0) 5)), .own .a (.work .tau),
    .deliver .b (.data ⟨sampleSyn.hashId, 10, 1, 5, [1]⟩) false 6 fun _ => 0, .own .b (.sendmsg 1),
    .deliver .a (.ack sampleSyn.hashId 11 5) false 7 fun _ => 0,
    .own .a (.work .tau), .own .a (.work .tau), .own .a (.work (.recvRet 0))]

/- The work sends the DELETE, and the peer closes. -/
def deleteTaken : List NetAct :=
  [.own .a (.work .tau), .deliver .b (.delete sampleSyn.hashId) false 9 fun _ => 0]

theorem ackedEof_written :
    ((ranFrom (ranFrom (openPeers sampleSyn) ackedEof) deleteTaken).get .b).wr =
      ((ranFrom (openPeers sampleSyn) ackedEof).get .a).rd := by
  have hmain := peersRun_eof_written sampleSyn ackedEof deleteTaken
    (ranFrom (openPeers sampleSyn) ackedEof)
    (ranFrom (ranFrom (openPeers sampleSyn) ackedEof) deleteTaken)
    (by decide +kernel) (by decide +kernel) (by decide +kernel) ?_ .a (by decide +kernel)
  · exact (hmain.2 (by decide +kernel)).2 (by decide +kernel)
  · intro x
    unfold Short
    cases x <;> decide +kernel

/- The only packet of the stream is lost before the end of the stream is read. -/
def lostTail : List NetAct :=
  [.own .a (.work .tau), .own .a (.work .tau), .own .a (.work .tau), .own .a (.work (.read [1])),
    .own .a (.work (.skb (.xmit 0) 5)), .own .a (.work .tau),
    .lose .a (.data ⟨sampleSyn.hashId, 10, 1, 5, [1]⟩),
    .own .a (.work .tau), .own .a (.work .tau), .own .a (.work (.recvRet 0))]

theorem lostTail_unwritten :
    ∃ s t, Lts.run peersStep (openPeers sampleSyn) lostTail = some s ∧ (s.get .a).pc = .delete 0 ∧
      (s.get .a).rd = [1] ∧ Lts.run peersStep s deleteTaken = some t ∧
      (t.get .b).shut = true ∧ (t.get .b).lflag = false ∧ (t.get .b).wr = [] :=
  ⟨ranFrom (openPeers sampleSyn) lostTail,
    ranFrom (ranFrom (openPeers sampleSyn) lostTail) deleteTaken, by decide +kernel⟩

end PepDna.Minip
