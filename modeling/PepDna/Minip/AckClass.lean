import PepDna.Minip.Counters
import PepDna.Minip.Window

/-!
# Old, duplicate and new ACKs (minip.c:862-953)

`pepdna_minip_recv_ack` compares the number of an ACK with `last_acked`. The
handshake leaves `last_acked` at the number the peer expects, every later ACK
leaves it one below. So the comparison that tells a duplicate from a new ACK is
right up to the first new ACK and off by one from then on.
-/

namespace PepDna.Minip

/- ### The queue is in order -/

structure Ordered (c : Con) : Prop where
  le : ∀ n ∈ seqs c, n ≤ c.nextSeq
  sorted : (seqs c).Pairwise (· ≤ ·)

theorem ordered_openCon (mode : Mode) (syn : SynTuple) : Ordered (openCon mode syn) :=
  ⟨by simp [seqs, openCon, pepdnaConAlloc, rtxqueueCreate], List.Pairwise.nil⟩

theorem ordered_sublist (c c' : Con) (hc : Ordered c) (hq : (seqs c').Sublist (seqs c))
    (hn : c.nextSeq ≤ c'.nextSeq) : Ordered c' :=
  ⟨fun n hm => (hc.le n (hq.subset hm)).trans hn, hc.sorted.sublist hq⟩

/- A failed send may leave its packet in the queue; its number is then used again. -/
theorem sndData_queue (c : Con) (left : Bytes) (sent : ℕ) (o : SkbSend) (now : ℕ) :
    (sndData c left sent o now).nextSeq = c.nextSeq ∧
      (sndData c left sent o now).destroys = c.destroys ∧
      (seqs (sndData c left sent o now) = seqs c ∨
        seqs (sndData c left sent o now) = seqs c ++ [c.nextSeq]) := by
  have hpush : (rtxqueuePush c.rtxq (dataPdu c (left.take MINIP_MSS) now)).head.map
      (fun e => e.skb.seq) = seqs c ++ [c.nextSeq] := List.map_append
  unfold sndData
  dsimp only
  split
  · split <;> cases o <;>
      first | exact ⟨rfl, rfl, Or.inl rfl⟩ | exact ⟨rfl, rfl, Or.inr hpush⟩
  · cases o <;> first | exact ⟨rfl, rfl, Or.inl rfl⟩ | exact ⟨rfl, rfl, Or.inr hpush⟩

theorem ordered_work (c c' : Con) (i : WorkIn) (h : WorkStep c i c') (hn : c.nextSeq < 4294967295)
    (hc : c.destroys = 0 → Ordered c) (h0 : c'.destroys = 0) : Ordered c' := by
  cases h with
  | send left sent o now he =>
    obtain ⟨hnext, hdes, hq⟩ := sndData_queue c left sent o now
    have hold := hc (hdes ▸ h0)
    rcases hq with hq | hq
    · exact ordered_sublist c _ hold (hq ▸ List.Sublist.refl _) hnext.ge
    · refine ⟨?_, ?_⟩
      · rw [hq, hnext]
        intro n hm
        rcases List.mem_append.mp hm with hm | hm
        · exact hold.le n hm
        · exact (List.mem_singleton.mp hm).le
      · rw [hq, List.pairwise_append]
        refine ⟨hold.sorted, List.pairwise_singleton _ _, ?_⟩
        intro n hm m hm'
        rw [List.mem_singleton.mp hm']
        exact hold.le n hm
  | advance left sent he =>
    refine ordered_sublist c _ (hc h0) (List.Sublist.refl _) ?_
    show c.nextSeq ≤ u32 (c.nextSeq + 1)
    rw [u32_of_lt _ (by omega)]
    omega
  | close he =>
    have hk := keeps_close c
    obtain ⟨hc0, hq⟩ := hk.seqs h0
    exact ordered_sublist c _ (hc hc0) (hq ▸ List.Sublist.refl _) hk.nextSeq.ge
  | put he =>
    rw [pepdnaConPut_eq] at h0 ⊢
    exact ordered_sublist c _ (hc h0) (List.Sublist.refl _) le_rfl
  | _ => exact ordered_sublist c _ (hc h0) (List.Sublist.refl _) le_rfl

theorem ordered_conStep (c c' : Con) (a : Act) (h : conStep c a = some c') (ht : c.tcfa = .done)
    (hs : c.synPending = false) (hn : c.nextSeq < 4294967295) (hc : c.destroys = 0 → Ordered c)
    (h0 : c'.destroys = 0) : Ordered c' := by
  rcases conStep_keeps c c' a h ht hs with ⟨i, -, hw⟩ | hk | ⟨_, k, _, _, _, _, hk⟩
  · exact ordered_work c c' i hw hn hc h0
  · obtain ⟨hc0, hq⟩ := hk.seqs h0
    exact ordered_sublist c c' (hc hc0) (hq ▸ List.Sublist.refl _) hk.nextSeq.ge
  · obtain ⟨hc0, hq⟩ := hk.seqs h0
    refine ordered_sublist c c' (hc hc0) ?_ hk.nextSeq.ge
    rw [hq]
    exact ((entriesAck_suffix k c.rtxq.head).sublist).map _

/- ### ACK numbers are words -/

structure AckWords (c : Con) : Prop where
  next : c.nextRecv < 4294967296
  acks : ∀ id k ts, Packet.ack id k ts ∈ c.tx → k < 4294967296

theorem ackWords_calm (c c' : Con) (h : AckWords c) (hc : Calm c c') : AckWords c' := by
  refine ⟨hc.nextRecv ▸ h.next, ?_⟩
  intro id k ts hk
  rcases hc.acks id k ts hk with hk | rfl
  · exact h.acks id k ts hk
  · exact h.next

theorem ackWords_rcv (c c' : Con) (a : Act) (h : AckWords c) (hst : RcvStep c a c') :
    AckWords c' := by
  have hmod (n : ℕ) : u32 n < 4294967296 := Nat.mod_lt _ (by decide)
  cases hst with
  | calm hc => exact ackWords_calm c c' h hc
  | begin d now xmit ha hseq hx hne hc' =>
    subst hc'
    exact ⟨h.next, h.acks⟩
  | empty d now xmit ha he hc' =>
    subst hc'
    refine ackWords_calm _ _ ?_ (calm_finish_nonneg c d 0 (by decide))
    exact ⟨hmod _, h.acks⟩
  | again r w rc hx hd hi hc' =>
    subst hc'
    exact ⟨h.next, h.acks⟩
  | ret r v rc hx hd hi hc' =>
    subst hc'
    by_cases hv : v < 0
    · refine ackWords_calm _ _ ?_ (calm_finish_neg (sendmsgTook c r.w rc) r.pdu v hv)
      exact ⟨h.next, h.acks⟩
    · refine ackWords_calm _ _ ?_ (calm_finish_nonneg (sendmsgTook c r.w rc) r.pdu v (by omega))
      exact ⟨hmod _, h.acks⟩

/- ### The largest ACK number processed -/

/-- `h` after the step, if it was the largest ACK number the connection processed before. -/
def ackHigh (c : Con) (h : ℕ) : Act → ℕ
  | .recv (.ack id k _) _ _ => if c.hashed = true ∧ id = c.id then max h k else h
  | _ => h

/- `last_acked` against the largest ACK number processed. -/
def LastOf (c : Con) (h : ℕ) : Prop :=
  (h = MINIP_FIRST_SEQ + 1 ∧ c.lastAcked = h) ∨ (MINIP_FIRST_SEQ + 1 < h ∧ c.lastAcked + 1 = h)

theorem lastOf_recvAck (c : Con) (h k ts now : ℕ) (xmit : ℕ → Int) (hc : LastOf c h)
    (hk : k < 4294967296) : LastOf (pepdnaMinipRecvAck c k ts now xmit) (max h k) := by
  have hpart := congrArg Prod.fst (recvAck_ackPart c k ts now xmit)
  have hsub (hpos : 0 < k) : u32Sub k 1 = k - 1 := by
    unfold u32Sub
    omega
  unfold LastOf at hc ⊢
  simp only [ackPart] at hpart
  split at hpart
  · simp only at hpart
    omega
  · simp only at hpart
    split at hpart
    · rw [hsub (by omega)] at hpart
      omega
    · omega

theorem lastOf_conStep (c c' : Con) (a : Act) (h : ℕ) (hst : conStep c a = some c')
    (ht : c.tcfa = .done) (hs : c.synPending = false)
    (hp : ∀ p now xmit, a = .recv p now xmit → p.isSetup = false)
    (hk : ∀ id k ts now xmit, a = .recv (.ack id k ts) now xmit → k < 4294967296)
    (hc : LastOf c h) : LastOf c' (ackHigh c h a) := by
  unfold ackHigh
  split
  · next id k ts now xmit =>
    cases conStep_lines c c' _ hst with
    | recv =>
      unfold pepdnaMinipRecvPacket
      by_cases hid : c.hashed = true ∧ (Packet.ack id k ts).id = c.id
      · have hown : c.hashed = true ∧ id = c.id := hid
        rw [if_pos hid, if_pos hown]
        exact lastOf_recvAck c h k ts now xmit hc (hk _ _ _ _ _ rfl)
      · have hother : ¬(c.hashed = true ∧ id = c.id) := hid
        rw [if_neg hid, if_neg hother]
        exact hc
  · next hnot =>
    rcases conStep_ackPart c c' a hst ht hs hp with hpart | ⟨id, k, ts, now, xmit, ha, -⟩
    · have hl : c'.lastAcked = c.lastAcked := congrArg Prod.fst hpart
      unfold LastOf
      rw [hl]
      exact hc
    · exact absurd ha (hnot id k ts now xmit)

/-- The two peers, and the largest ACK number side `x` has processed. -/
def trackStep (x : Side) (s : Peers × ℕ) (a : NetAct) : Option (Peers × ℕ) :=
  (peersStep s.1 a).map fun t => (t,
    match a.atSide with
    | some (z, act) => if z = x then ackHigh (s.1.get x) s.2 act else s.2
    | none => s.2)

structure Heeds (x : Side) (s : Peers) (h : ℕ) : Prop where
  est : ∀ z, Est (s.get z)
  words : AckWords (s.get x.other)
  ordered : (s.get x).destroys = 0 → Ordered (s.get x)
  last : LastOf (s.get x) h

theorem heeds_openPeers (x : Side) (syn : SynTuple) :
    Heeds x (openPeers syn) (MINIP_FIRST_SEQ + 1) := by
  have hw (m : Mode) : AckWords (openCon m syn) :=
    ⟨(by decide : 10 < 4294967296), by simp [openCon, pepdnaConAlloc]⟩
  refine ⟨?_, ?_, fun _ => ?_, Or.inl ⟨rfl, ?_⟩⟩
  · intro z
    cases z <;> exact est_openCon _ syn
  · cases x <;> exact hw _
  · cases x <;> exact ordered_openCon _ syn
  · cases x <;> rfl

theorem heeds_conStep (x z : Side) (s : Peers) (h : ℕ) (a : Act) (c' : Con) (hs : Heeds x s h)
    (hst : conStep (s.get z) a = some c') (hn : (s.get x).nextSeq < 4294967295)
    (hp : ∀ p now xmit, a = .recv p now xmit → p ∈ (s.get z.other).tx) :
    Heeds x (s.set z c') (if z = x then ackHigh (s.get x) h a else h) := by
  have he := hs.est z
  have hset (p : Packet) (now : ℕ) (xmit : ℕ → Int) (ha : a = .recv p now xmit) :=
    (hs.est z.other).setup p (hp p now xmit ha)
  have hrcv := conStep_rcv _ _ a hst he hset
  have hest := forall_get_set (fun _ c => Est c) s z c' (est_rcv _ _ a he hrcv) (hs.est _)
  rcases side_cases x z with rfl | rfl
  · rw [if_pos rfl]
    refine ⟨hest, ?_, ?_, ?_⟩
    · rw [get_set_other]
      exact hs.words
    · rw [get_set]
      exact ordered_conStep _ _ a hst he.tcfa he.syn hn hs.ordered
    · rw [get_set]
      exact lastOf_conStep _ _ a h hst he.tcfa he.syn hset
        (fun id k ts now xmit ha => hs.words.acks id k ts (hp _ now xmit ha)) hs.last
  · have hne : x.other ≠ x := by cases x <;> simp [Side.other]
    rw [if_neg hne]
    refine ⟨hest, ?_, ?_, ?_⟩
    · rw [get_set]
      exact ackWords_rcv _ _ a hs.words hrcv
    · rw [get_other_set]
      exact hs.ordered
    · rw [get_other_set]
      exact hs.last

theorem heeds_unsend (x z : Side) (s : Peers) (h : ℕ) (p : Packet) (hs : Heeds x s h) :
    Heeds x (s.set z (unsend (s.get z) p)) h := by
  have he := hs.est z
  have hest := forall_get_set (fun _ c => Est c) s z (unsend (s.get z) p)
    ⟨he.tcfa, he.syn, fun q hq => he.setup q (List.mem_of_mem_erase hq), he.flag, he.sock, he.live⟩
    (hs.est _)
  rcases side_cases x z with rfl | rfl
  · refine ⟨hest, ?_, ?_, ?_⟩
    · rw [get_set_other]
      exact hs.words
    · rw [get_set]
      exact fun h0 => ⟨(hs.ordered h0).le, (hs.ordered h0).sorted⟩
    · rw [get_set]
      exact hs.last
  · refine ⟨hest, ?_, ?_, ?_⟩
    · rw [get_set]
      exact ⟨hs.words.next, fun id k ts hk => hs.words.acks id k ts (List.mem_of_mem_erase hk)⟩
    · rw [get_other_set]
      exact hs.ordered
    · rw [get_other_set]
      exact hs.last

theorem heeds_step (x : Side) (s : Peers × ℕ) (a : NetAct) (t : Peers × ℕ) (hs : Heeds x s.1 s.2)
    (hn : (s.1.get x).nextSeq < 4294967295) (h : trackStep x s a = some t) :
    Heeds x t.1 t.2 := by
  obtain ⟨u, hu, rfl⟩ := Option.map_eq_some_iff.mp h
  refine peersStep_sides (fun u => Heeds x u _) s.1 u a hu ?_ ?_ ?_
  · intro ha
    rw [ha]
    exact hs
  · intro z act c' ha hc' hp
    rw [ha]
    exact heeds_conStep x z s.1 s.2 act c' hs hc' hn hp
  · exact fun u z p hu => heeds_unsend x z u _ p hu

/- ### The three classes -/

/-- An ACK numbered `k`, handled when `h` was the largest number processed, is treated as old,
as a duplicate or as new by comparison with `h`. -/
structure Classified (c : Con) (h k now : ℕ) (c' : Con) : Prop where
  old : k < h → c' = c
  dup : k = h → c.rtxq.head ≠ [] →
    c'.dupAcks = u32 (c.dupAcks + 1) ∧ c'.state = .recovery ∧ c'.sending = false ∧
      c'.window = c.window ∧ SamePayload c.rtxq.head c'.rtxq.head ∧
      (c.dupAcks = 0 → ∀ e ∈ c.rtxq.head, h ≤ e.skb.seq →
        Packet.data { e.skb with ts := now } ∈ c'.tx.drop c.tx.length)
  new : h < k →
    c'.rtxq.head = c.rtxq.head.filter (fun e => decide (k ≤ e.skb.seq)) ∧ c'.dupAcks = 0 ∧
      (c.state = .recovery → c'.sending = true ∧ c'.state = .established)

theorem wake_queue (c : Con) :
    ((wakeLsock c).rtxq, (wakeLsock c).dupAcks) = (c.rtxq, c.dupAcks) := by
  unfold wakeLsock
  split
  · rw [pepdnaL2rConnDataReady_eq]
  · rfl

theorem recvNewAck_queue (c : Con) (k : ℕ) :
    ((recvNewAck c k).rtxq, (recvNewAck c k).dupAcks) = ((rtxqueueEntriesAck c.rtxq k).1, 0) := by
  unfold recvNewAck
  dsimp only
  rw [wake_queue]
  split <;> split <;> rfl

theorem newAck_classified (c : Con) (k : ℕ) (hc : Ordered c) :
    (recvNewAck c k).rtxq.head = c.rtxq.head.filter (fun e => decide (k ≤ e.skb.seq)) ∧
      (recvNewAck c k).dupAcks = 0 ∧
      (c.state = .recovery →
        (recvNewAck c k).sending = true ∧ (recvNewAck c k).state = .established) := by
  have hq := recvNewAck_queue c k
  have hp := recvNewAck_pacePart c k
  simp only [Prod.mk.injEq] at hq
  simp only [pacePart, Prod.mk.injEq] at hp
  refine ⟨?_, hq.2, ?_⟩
  · rw [hq.1]
    exact entriesAck_sorted k c.rtxq.head hc.sorted
  · intro hr
    rw [hp.2.2.2.2.1, hp.2.2.2.2.2, hr]
    simp

theorem newAck_state (c : Con) (k : ℕ) : (recvNewAck c k).state ≠ .recovery := by
  have hp := recvNewAck_pacePart c k
  simp only [pacePart, Prod.mk.injEq] at hp
  rw [hp.2.2.2.2.2]
  split
  · simp
  · assumption

theorem dupAck_dupAcks (c : Con) (k now : ℕ) (xmit : ℕ → Int) :
    (recvDupAck c k now xmit).dupAcks = u32 (c.dupAcks + 1) := by
  unfold recvDupAck
  dsimp only
  split
  · rfl
  · split
    · rfl
    · rw [pepdnaConClose_eq]
      rfl

theorem dupAck_classified (c : Con) (k now : ℕ) (xmit : ℕ → Int)
    (hrtx : u32 (c.dupAcks + 1) = 1 → (entriesRtx k now xmit c.rtxq.head).2.2 = true) :
    (recvDupAck c k now xmit).state = .recovery ∧ (recvDupAck c k now xmit).sending = false ∧
      (recvDupAck c k now xmit).window = c.window ∧
      SamePayload c.rtxq.head (recvDupAck c k now xmit).rtxq.head ∧
      (c.dupAcks = 0 → ∀ e ∈ c.rtxq.head, k ≤ e.skb.seq →
        Packet.data { e.skb with ts := now } ∈ (recvDupAck c k now xmit).tx.drop c.tx.length) := by
  unfold recvDupAck
  by_cases hfirst : u32 (c.dupAcks + 1) = 1
  · have hr := hrtx hfirst
    simp only [hfirst, ne_eq, not_true_eq_false, if_false, rtxqFullRtx, rtxqueueEntriesRtx, hr,
      if_true, touchRtxq]
    refine ⟨trivial, trivial, trivial, entriesRtx_samePayload k now xmit c.rtxq.head, ?_⟩
    intro _ e he hk
    rw [List.drop_left, entriesRtx_all k now xmit _ hr]
    refine List.mem_map_of_mem (List.mem_map.mpr ⟨e, List.mem_filter.mpr ⟨he, ?_⟩, rfl⟩)
    exact decide_eq_true hk
  · simp only [hfirst, ne_eq, not_false_eq_true, if_true]
    refine ⟨trivial, trivial, trivial, samePayload_refl _, ?_⟩
    intro h0
    rw [h0] at hfirst
    exact absurd rfl hfirst

/-- An ACK above `last_acked` is treated as new. -/
theorem recvAck_above (c : Con) (k ts now : ℕ) (xmit : ℕ → Int) (hord : Ordered c)
    (hk : c.lastAcked < k) :
    (pepdnaMinipRecvAck c k ts now xmit).rtxq.head =
        c.rtxq.head.filter (fun e => decide (k ≤ e.skb.seq)) ∧
      (pepdnaMinipRecvAck c k ts now xmit).dupAcks = 0 ∧
      (c.state = .recovery → (pepdnaMinipRecvAck c k ts now xmit).sending = true ∧
        (pepdnaMinipRecvAck c k ts now xmit).state = .established) := by
  have hordS : Ordered (ackSample c ts now) := by
    rw [ackSample_eq]
    exact ⟨hord.le, hord.sorted⟩
  have hn := newAck_classified (ackSample c ts now) k hordS
  have hstate : (ackSample c ts now).state = c.state := by rw [ackSample_eq]
  rw [ackSample_rtxq, hstate] at hn
  rw [recvAck_new c k ts now xmit hk]
  exact hn

/-- An ACK equal to `last_acked` is treated as a duplicate. -/
theorem recvAck_equal (c : Con) (k ts now : ℕ) (xmit : ℕ → Int) (hk : k = c.lastAcked) :
    (pepdnaMinipRecvAck c k ts now xmit).dupAcks = u32 (c.dupAcks + 1) ∧
      ((u32 (c.dupAcks + 1) = 1 → (entriesRtx k now xmit c.rtxq.head).2.2 = true) →
        (pepdnaMinipRecvAck c k ts now xmit).state = .recovery ∧
          (pepdnaMinipRecvAck c k ts now xmit).sending = false ∧
          (pepdnaMinipRecvAck c k ts now xmit).window = c.window ∧
          SamePayload c.rtxq.head (pepdnaMinipRecvAck c k ts now xmit).rtxq.head ∧
          (c.dupAcks = 0 → ∀ e ∈ c.rtxq.head, k ≤ e.skb.seq →
            Packet.data { e.skb with ts := now } ∈
              (pepdnaMinipRecvAck c k ts now xmit).tx.drop c.tx.length)) := by
  have hdups : (ackSample c ts now).dupAcks = c.dupAcks := by rw [ackSample_eq]
  have htx : (ackSample c ts now).tx = c.tx := by rw [ackSample_eq]
  have hwin : (ackSample c ts now).window = c.window := by rw [ackSample_eq]
  have hd := dupAck_classified (ackSample c ts now) k now xmit
  rw [ackSample_rtxq, hdups, htx, hwin] at hd
  rw [recvAck_dup c k ts now xmit hk, dupAck_dupAcks, hdups]
  exact ⟨rfl, hd⟩

theorem recvAck_classified_iff (c : Con) (h k ts now : ℕ) (xmit : ℕ → Int) (hlast : LastOf c h)
    (hord : Ordered c)
    (hrtx : k = h → u32 (c.dupAcks + 1) = 1 → (entriesRtx k now xmit c.rtxq.head).2.2 = true) :
    Classified c h k now (pepdnaMinipRecvAck c k ts now xmit) ↔
      h = MINIP_FIRST_SEQ + 1 ∨ (k + 1 ≠ h ∧ (k = h → c.rtxq.head = [])) := by
  have hold := recvAck_old c k ts now xmit
  have habove := recvAck_above c k ts now xmit hord
  rcases hlast with ⟨hh, hl⟩ | ⟨hh, hl⟩
  · -- no new ACK yet: `last_acked` is the largest number processed
    refine iff_of_true ⟨fun hk => hold (by omega), ?_, fun hk => habove (by omega)⟩ (Or.inl hh)
    intro hk hq
    obtain ⟨hdup, hrest⟩ := recvAck_equal c k ts now xmit (by omega)
    rw [← hk]
    exact ⟨hdup, hrest (hrtx hk)⟩
  · -- from then on it is one below
    constructor
    · intro hcl
      refine Or.inr ⟨?_, ?_⟩
      · intro hk
        have hsame := congrArg Con.dupAcks (hcl.old (by omega))
        rw [(recvAck_equal c k ts now xmit (by omega)).1] at hsame
        unfold u32 at hsame
        omega
      · intro hk
        by_contra hq
        have hrec := (hcl.dup hk hq).2.1
        rw [recvAck_new c k ts now xmit (by omega)] at hrec
        exact newAck_state _ k hrec
    · rintro (h9 | ⟨hk1, hk2⟩)
      · omega
      · exact ⟨fun hk => hold (by omega), fun hk hq => absurd (hk2 hk) hq,
          fun hk => habove (by omega)⟩

/-- An ACK is classified by the largest number processed exactly when no ACK above the
first number has been processed, or it is neither the one before the last nor, with packets
outstanding, a repetition of the last. A first duplicate must find its retransmissions possible. -/
theorem trackRun_ack_classified_iff (x : Side) (syn : SynTuple) (acts : List NetAct) (s : Peers)
    (h : ℕ) (hrun : Lts.run (trackStep x) (openPeers syn, MINIP_FIRST_SEQ + 1) acts = some (s, h))
    (hn : Lts.Along (trackStep x) (fun s _ => (s.1.get x).nextSeq < 4294967295)
      (openPeers syn, MINIP_FIRST_SEQ + 1) acts) (hopen : (s.get x).destroys = 0)
    (k ts now : ℕ) (xmit : ℕ → Int)
    (hrtx : k = h → u32 ((s.get x).dupAcks + 1) = 1 →
      (entriesRtx k now xmit (s.get x).rtxq.head).2.2 = true) :
    Classified (s.get x) h k now (pepdnaMinipRecvAck (s.get x) k ts now xmit) ↔
      h = MINIP_FIRST_SEQ + 1 ∨ (k + 1 ≠ h ∧ (k = h → (s.get x).rtxq.head = [])) := by
  have hs := Lts.run_invariant_along (fun s : Peers × ℕ => Heeds x s.1 s.2) _ (heeds_step x) _
    (s, h) acts (heeds_openPeers x syn) hn hrun
  exact recvAck_classified_iff _ h k ts now xmit hs.last (hs.ordered hopen) hrtx

/- The run of the two peers, with the largest ACK number side `a` has processed. -/
def tracked (acts : List NetAct) : Peers × ℕ :=
  (Lts.run (trackStep .a) (openPeers sampleSyn, MINIP_FIRST_SEQ + 1) acts).getD (openPeers sampleSyn, 0)

/- Two packets are sent and received in order; both ACKs are on the wire. -/
def twoSent : List NetAct := twoAcked.take 15

theorem twoSent_classified :
    (tracked twoSent).2 = 10 ∧
      Classified ((tracked twoSent).1.get .a) 10 12 7
        (pepdnaMinipRecvAck ((tracked twoSent).1.get .a) 12 5 7 fun _ => 0) := by
  refine ⟨by decide +kernel, ?_⟩
  refine (trackRun_ack_classified_iff .a sampleSyn twoSent (tracked twoSent).1 10 (by decide +kernel)
    (by decide +kernel) (by decide +kernel) 12 5 7 (fun _ => 0)
    fun hk => absurd hk (by decide)).mpr (Or.inl rfl)

/- A third packet is sent after the ACK numbered 12, and then a copy of the ACK numbered 11, which
is below it, arrives. -/
def ackBefore : List NetAct :=
  twoAcked ++ [.own .a (.work .tau), .own .a (.work .tau), .own .a (.work (.read [3])),
    .own .a (.work (.skb (.xmit 0) 8)), .own .a (.work .tau)]

theorem ackBefore_misclassified :
    Lts.run (trackStep .a) (openPeers sampleSyn, MINIP_FIRST_SEQ + 1) ackBefore =
        some (tracked ackBefore) ∧
      (tracked ackBefore).2 = 12 ∧
      Packet.ack sampleSyn.hashId 11 5 ∈ ((tracked ackBefore).1.get .b).tx ∧
      ((tracked ackBefore).1.get .a).state = .established ∧
      canSend ((tracked ackBefore).1.get .a) = true ∧
      (pepdnaMinipRecvAck ((tracked ackBefore).1.get .a) 11 5 9 fun _ => 0).state = .recovery ∧
      canSend (pepdnaMinipRecvAck ((tracked ackBefore).1.get .a) 11 5 9 fun _ => 0) = false ∧
      (pepdnaMinipRecvAck ((tracked ackBefore).1.get .a) 11 5 9 fun _ => 0).dupAcks = 1 := by
  refine ⟨by decide +kernel, by decide +kernel, by decide +kernel, by decide +kernel,
    by decide +kernel, by decide +kernel, by decide +kernel, by decide +kernel⟩

end PepDna.Minip
