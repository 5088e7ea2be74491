import PepDna.Minip.Credit

/-!
# What a retransmission timeout sends (minip.c:83-128, 323-350)

`minip_sender_timeout` retransmits from `last_acked + 1` on. After an ACK that is
the number of the oldest packet in the queue. Before the first one `last_acked`
is the number of the oldest packet itself: the handshake has counted it up, and
only `pepdna_minip_recv_ack` stores the number below an ACK.
-/

namespace PepDna.Minip

/-- The frames the timeout handler puts on the wire. -/
def timeoutFrames (c : Con) (now : ℕ) (xmit : ℕ → Int) : List Packet :=
  (minipSenderTimeout c now xmit).tx.drop c.tx.length

theorem pepdnaConClose_tx (c : Con) : (pepdnaConClose c).tx = c.tx := by
  rw [pepdnaConClose_eq]

/- The retransmissions, and a DELETE when they are cut short. -/
theorem timeoutFrames_rtx (c : Con) (now : ℕ) (xmit : ℕ → Int) (hq : c.rtxq.head ≠ []) :
    timeoutFrames c now xmit =
      (entriesRtx (u32 (c.lastAcked + 1)) now xmit c.rtxq.head).2.1.map Packet.data ++
        if (entriesRtx (u32 (c.lastAcked + 1)) now xmit c.rtxq.head).2.2 then []
        else [Packet.delete c.id] := by
  have hlen : c.rtxq.len ≠ 0 := by
    rw [c.rtxq.len_eq]
    exact fun h => hq (List.length_eq_zero_iff.mp h)
  unfold timeoutFrames minipSenderTimeout
  simp only [rtxqSize, touchRtxq, rtxqFullRtx, rtxqueueEntriesRtx, ne_eq, hlen, not_false_eq_true,
    if_true]
  by_cases hr : (entriesRtx (u32 (c.lastAcked + 1)) now xmit c.rtxq.head).2.2 = true
  · simp only [hr, if_true, List.drop_left, List.append_nil]
  · simp only [hr, Bool.false_eq_true, if_false, pepdnaConClose_tx, transmit, List.append_assoc,
      List.drop_left]

/-- A handler that sends no DELETE has retransmitted every packet from `last_acked + 1` on. -/
theorem timeoutFrames_eq (c : Con) (now : ℕ) (xmit : ℕ → Int) (hq : c.rtxq.head ≠ [])
    (hup : Packet.delete c.id ∉ timeoutFrames c now xmit) :
    timeoutFrames c now xmit =
      ((c.rtxq.head.filter fun e => decide (u32 (c.lastAcked + 1) ≤ e.skb.seq)).map
        fun e => { e.skb with ts := now }).map Packet.data := by
  rw [timeoutFrames_rtx c now xmit hq] at hup ⊢
  by_cases hr : (entriesRtx (u32 (c.lastAcked + 1)) now xmit c.rtxq.head).2.2 = true
  · rw [if_pos hr, List.append_nil, entriesRtx_all _ _ _ _ hr]
  · rw [if_neg hr] at hup
    exact absurd (List.mem_append_right _ (List.mem_singleton_self _)) hup

theorem timeoutFrames_mem (c : Con) (now : ℕ) (xmit : ℕ → Int) (hq : c.rtxq.head ≠ [])
    (hup : Packet.delete c.id ∉ timeoutFrames c now xmit) (e : RtxqEntry) (he : e ∈ c.rtxq.head) :
    Packet.data { e.skb with ts := now } ∈ timeoutFrames c now xmit ↔
      u32 (c.lastAcked + 1) ≤ e.skb.seq := by
  rw [timeoutFrames_eq c now xmit hq hup]
  constructor
  · intro h
    obtain ⟨d, hd, hde⟩ := List.mem_map.mp h
    obtain ⟨e', he', rfl⟩ := List.mem_map.mp hd
    simp only [Packet.data.injEq, DataPdu.mk.injEq] at hde
    rw [← hde.2.1]
    exact of_decide_eq_true (List.mem_filter.mp he').2
  · intro h
    refine List.mem_map_of_mem (List.mem_map.mpr ⟨e, List.mem_filter.mpr ⟨he, ?_⟩, rfl⟩)
    exact decide_eq_true h

/- The numbers of the queue against `last_acked`. -/
theorem outstanding_above (c : Con) (hc : Outstanding c) (hb : Short c) (hq : c.rtxq.head ≠ []) :
    (∀ e ∈ c.rtxq.head, u32 (c.lastAcked + 1) ≤ e.skb.seq) ↔
      c.rtxq.head.length < c.sdus.length := by
  have h9 : MINIP_FIRST_SEQ = 9 := rfl
  have hshort : c.sdus.length < 4294967286 := hb
  have hS : sentUpTo c = MINIP_FIRST_SEQ + 1 + c.sdus.length := rfl
  have hlen := c.rtxq.len_eq
  have hle := hc.len
  have hfirst := hc.first
  have hlast := hc.last
  have hpos := List.length_pos_of_ne_nil hq
  have hword : u32 (c.lastAcked + 1) = c.lastAcked + 1 := u32_of_lt _ (by omega)
  rw [hword]
  have hnum (n : ℕ) : (∃ e ∈ c.rtxq.head, e.skb.seq = n) ↔
      sentUpTo c - c.rtxq.len ≤ n ∧ n < sentUpTo c := by
    have hmem : (∃ e ∈ c.rtxq.head, e.skb.seq = n) ↔ n ∈ seqs c := by
      rw [seqs, List.mem_map]
    rw [hmem, hc.seqs, List.mem_map]
    constructor
    · rintro ⟨j, hj, rfl⟩
      have hj' := List.mem_range'_1.mp hj
      rw [u32_of_lt j (by omega)]
      omega
    · intro hn
      exact ⟨n, List.mem_range'_1.mpr (by omega), u32_of_lt n (by omega)⟩
  constructor
  · intro hall
    obtain ⟨e, he, hseq⟩ := (hnum (sentUpTo c - c.rtxq.len)).mpr (by omega)
    have hge := hall e he
    omega
  · intro hlt e he
    have hn := (hnum e.skb.seq).mp ⟨e, he, rfl⟩
    omega

/-- A timeout that does not give the connection up retransmits the whole queue exactly when some
packet has been acknowledged before. -/
theorem peersRun_timeout_resends_iff (syn : SynTuple) (acts : List NetAct) (s : Peers)
    (h : Lts.run peersStep (openPeers syn) acts = some s) (hok : ∀ a ∈ acts, NetSendSucceeds a)
    (x : Side) (hopen : (s.get x).destroys = 0) (hb : Short (s.get x))
    (hq : (s.get x).rtxq.head ≠ []) (now : ℕ) (xmit : ℕ → Int)
    (hup : Packet.delete (s.get x).id ∉ timeoutFrames (s.get x) now xmit) :
    (∀ e ∈ (s.get x).rtxq.head,
        Packet.data { e.skb with ts := now } ∈ timeoutFrames (s.get x) now xmit) ↔
      (s.get x).rtxq.head.length < (s.get x).sdus.length := by
  have hs := sane_run syn acts s h hok
  rw [← outstanding_above _ (hs.outstanding x hopen) hb hq]
  exact forall₂_congr fun e he => timeoutFrames_mem _ now xmit hq hup e he

/- Two packets are sent; the first arrives and is acknowledged. -/
def firstAcked : List NetAct :=
  .own .a (.work .tau) :: (List.replicate 2 sendByte).flatten ++ takeByte 10 ++
    [.deliver .a (.ack sampleSyn.hashId 11 5) false 7 fun _ => 0]

def firstAckedPeers : Peers := ranFrom (openPeers sampleSyn) firstAcked

theorem firstAcked_timeout :
    (firstAckedPeers.get .a).rtxq.head.length = 1 ∧
      ∀ e ∈ (firstAckedPeers.get .a).rtxq.head,
        Packet.data { e.skb with ts := 9 } ∈ timeoutFrames (firstAckedPeers.get .a) 9 fun _ => 0 := by
  refine ⟨by decide +kernel, ?_⟩
  refine (peersRun_timeout_resends_iff sampleSyn firstAcked firstAckedPeers (by decide +kernel)
    (by decide +kernel) .a (by decide +kernel) ?_ (by decide +kernel) 9 (fun _ => 0)
    (by decide +kernel)).mpr (by decide +kernel)
  unfold Short
  decide +kernel

/- The first of two packets is lost. The ACK for the second starts the timer, and when it expires
the first packet is not sent. -/
def firstLost : List NetAct :=
  .own .a (.work .tau) :: (List.replicate 2 sendByte).flatten ++
    [.lose .a (.data ⟨sampleSyn.hashId, 10, 1, 5, [1]⟩),
      .deliver .b (.data ⟨sampleSyn.hashId, 11, 1, 5, [1]⟩) false 6 fun _ => 0,
      .deliver .a (.ack sampleSyn.hashId 10 5) false 7 fun _ => 0]

def firstLostPeers : Peers := ranFrom (openPeers sampleSyn) firstLost

theorem firstLost_timeout :
    Lts.run peersStep (openPeers sampleSyn) firstLost = some firstLostPeers ∧
      (firstLostPeers.get .a).timer = true ∧
      (firstLostPeers.get .a).lflag = true ∧
      (firstLostPeers.get .a).rtxq.head.map (fun e => e.skb.seq) = [10, 11] ∧
      timeoutFrames (firstLostPeers.get .a) 3007 (fun _ => 0) =
        [.data ⟨sampleSyn.hashId, 11, 1, 3007, [1]⟩] := by
  refine ⟨by decide +kernel, by decide +kernel, by decide +kernel, by decide +kernel,
    by decide +kernel⟩

end PepDna.Minip
