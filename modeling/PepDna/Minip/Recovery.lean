import PepDna.Minip.AckClass
import PepDna.Minip.Ending
import PepDna.Minip.Timeout
import PepDna.Minip.Timer

/-!
# One timeout repairs a loss (minip.c:83-128, 323-350, 824-1082)

Packets and ACKs may have been lost, duplicated and reordered in any way. If the peer has
acknowledged a packet before and no packet has used up its retries, one timeout, the delivery of what
it sends and of one ACK empty the queue and leave recovery, and all bytes sent are then written.
-/

namespace PepDna.Minip

/- ### What every run keeps -/

/- `armed`: it is the first ACK that starts the timer. -/
structure Poised (key : ℕ) (c : Con) : Prop where
  id : c.id = key
  queue : ∀ e ∈ c.rtxq.head, e.skb.id = key
  armed : c.rtxq.len = c.sdus.length ∨ Armed c

theorem poised_openCon (mode : Mode) (syn : SynTuple) : Poised syn.hashId (openCon mode syn) :=
  ⟨rfl, fun _ he => absurd he List.not_mem_nil, .inl rfl⟩

theorem recvAck_armed (c : Con) (k ts now : ℕ) (xmit : ℕ → Int) :
    pepdnaMinipRecvAck c k ts now xmit = c ∨ Armed (pepdnaMinipRecvAck c k ts now xmit) := by
  have hs : Armed (ackSample c ts now) := armed_timer _ rfl
  rcases Nat.lt_trichotomy k c.lastAcked with hlt | heq | hgt
  · exact .inl (recvAck_old c k ts now xmit hlt)
  · rw [recvAck_dup c k ts now xmit heq]
    exact .inr (armed_dupAck _ k now xmit hs)
  · rw [recvAck_new c k ts now xmit hgt]
    exact .inr (armed_newAck _ k hs)

theorem recvPacket_ack_armed (c : Con) (id k ts now : ℕ) (xmit : ℕ → Int) :
    pepdnaMinipRecvPacket c (.ack id k ts) now xmit = c ∨
      Armed (pepdnaMinipRecvPacket c (.ack id k ts) now xmit) := by
  unfold pepdnaMinipRecvPacket
  split
  · exact recvAck_armed c k ts now xmit
  · exact .inl rfl

/- The counts change together until an ACK is taken. -/
theorem uncounted_step (c c' : Con) (a : Act) (he' : Est c') (h : conStep c a = some c')
    (hst : SndStep c a c') (hc : c.rtxq.len = c.sdus.length) :
    c'.rtxq.len = c'.sdus.length ∨ Armed c' := by
  cases hst with
  | keep hk hu =>
    by_cases h0 : c'.destroys = 0
    · left
      have hs : seqs c' = seqs c := (hk.seqs h0).2
      have hsdus : c'.sdus = c.sdus := hk.sdus
      rw [← seqs_length, hs, seqs_length, hsdus]
      exact hc
    · exact .inr fun hf => absurd (he'.live hf) h0
  | ack id k ts now xmit ha hk =>
    subst ha
    cases conStep_lines c c' _ h with
    | recv p now xmit hx =>
      rcases recvPacket_ack_armed c id k ts now xmit with heq | harm
      · rw [heq]
        exact .inl hc
      · exact .inr harm
  | send left sent now hpc hu hs hn hq hd ht =>
    left
    rw [hq, hs, List.length_append, List.length_singleton, ← hc]
    rfl
  | advance left sent hpc hc' =>
    subst hc'
    exact .inl hc

theorem poised_queue (key : ℕ) (c c' : Con) (a : Act) (hst : SndStep c a c') (hid : c.id = key)
    (hq : ∀ e ∈ c.rtxq.head, e.skb.id = key) : ∀ e ∈ c'.rtxq.head, e.skb.id = key := by
  have hsame (hk : ∀ e' ∈ c'.rtxq.head, ∃ e ∈ c.rtxq.head, SameData e'.skb e.skb) :
      ∀ e ∈ c'.rtxq.head, e.skb.id = key := by
    intro e' he'
    obtain ⟨e, he, hs⟩ := hk e' he'
    rw [hs]
    exact hq e he
  cases hst with
  | keep hk hu => exact hsame hk.queue
  | ack id k ts now xmit ha hk => exact hsame hk.queue
  | send left sent now hpc hu hs hn hq' hd ht =>
    intro e he
    rw [hq'] at he
    rcases List.mem_append.mp he with he | he
    · exact hq e he
    · rw [List.mem_singleton.mp he]
      exact hid
  | advance left sent hpc hc' =>
    subst hc'
    exact hq

theorem poised_step (key : ℕ) (c c' : Con) (a : Act) (he : Est c)
    (hl : Live c ∨ c.lflag = false) (hr : RcvStep c a c') (hok : SendSucceeds a)
    (h : conStep c a = some c') (hc : Poised key c) : Poised key c' := by
  have hid := conStep_identity c c' a h
  simp only [Prod.mk.injEq] at hid
  have hst := conStep_snd c c' a h he.tcfa he.syn hok
  refine ⟨hid.2.1.trans hc.id, poised_queue key c c' a hst hc.id hc.queue, ?_⟩
  rcases hc.armed with hcount | harm
  · exact uncounted_step c c' a (est_rcv c c' a he hr) h hst hcount
  · right
    rcases hl with hl | hf
    · exact armed_step c c' a he hl h harm
    · intro hf'
      rw [rcvStep_unflagged c c' a hr hf] at hf'
      cases hf'

structure Mending (key : ℕ) (s : Peers) : Prop where
  settled : Settled s
  poised : ∀ x, Poised key (s.get x)

theorem mending_step (key : ℕ) (s : Peers) (a : NetAct) (t : Peers) (hs : Mending key s)
    (hok : NetSendSucceeds a) (h : peersStep s a = some t) : Mending key t := by
  refine peersStep_rule (Mending key) s t a h hs ?_ ?_
  · intro z act c' ha hc' hp
    have hsend := netSendSucceeds_atSide a z act hok ha
    have hl := hs.settled.linked
    have hz := poised_step key _ c' act (hl.est z) (hs.settled.live z)
      (linked_rcv s z act c' hl hc' hp) hsend hc' (hs.poised z)
    exact ⟨settled_conStep s z act c' hs.settled hc' hsend hp,
      forall_get_set (fun _ => Poised key) s z c' hz (hs.poised _)⟩
  · intro u z p hu
    have hz : Poised key (unsend (u.get z) p) :=
      ⟨(hu.poised z).id, (hu.poised z).queue, (hu.poised z).armed⟩
    exact ⟨settled_unsend u z p hu.settled,
      forall_get_set (fun _ => Poised key) u z _ hz (hu.poised _)⟩

theorem mending_run (syn : SynTuple) (acts : List NetAct) (s : Peers)
    (hok : ∀ a ∈ acts, NetSendSucceeds a)
    (h : Lts.run peersStep (openPeers syn) acts = some s) : Mending syn.hashId s := by
  refine Lts.run_invariant_along (Mending syn.hashId) (fun _ a => NetSendSucceeds a)
    (mending_step syn.hashId) _ s acts ⟨settled_openPeers syn, fun x => ?_⟩
    (Lts.along_of_forall NetSendSucceeds _ acts hok) h
  cases x
  · exact poised_openCon _ syn
  · exact poised_openCon _ syn

/- ### The receiver takes what is retransmitted -/

/-- The receiver is between two frames and its socket takes bytes. -/
structure Ready (key : ℕ) (y : Con) : Prop where
  hashed : y.hashed = true
  id : y.id = key
  lsock : y.lsock = true
  shut : y.shut = false
  err : y.sockErr = false
  rx : y.rx = none

/-- `y` after it has written the packet, or acknowledged one it had. -/
def taken (y : Con) (d : DataPdu) : Con :=
  if d.seq = y.nextRecv then
    transmit { y with nextRecv := y.nextRecv + 1, wr := y.wr ++ d.sdu }
      (.ack y.id (y.nextRecv + 1) d.ts)
  else transmit y (.ack y.id y.nextRecv d.ts)

theorem ready_taken (key : ℕ) (y : Con) (d : DataPdu) (hy : Ready key y) : Ready key (taken y d) := by
  unfold taken
  split
  · exact ⟨hy.hashed, hy.id, hy.lsock, hy.shut, hy.err, hy.rx⟩
  · exact ⟨hy.hashed, hy.id, hy.lsock, hy.shut, hy.err, hy.rx⟩

theorem recv_old (key : ℕ) (y : Con) (d : DataPdu) (now : ℕ) (xmit : ℕ → Int) (hy : Ready key y)
    (hid : d.id = key) (hseq : d.seq ≠ y.nextRecv) :
    conStep y (.recv (.data d) now xmit) = some (taken y d) := by
  have hmine : y.hashed = true ∧ (Packet.data d).id = y.id := ⟨hy.hashed, hid.trans hy.id.symm⟩
  simp only [conStep, hy.rx, if_true, pepdnaMinipRecvPacket, hmine, and_self, pepdnaConMinip2iFwd,
    hseq, if_false, taken]
  rfl

theorem recv_next (key : ℕ) (y : Con) (d : DataPdu) (now : ℕ) (xmit : ℕ → Int) (hy : Ready key y)
    (hid : d.id = key) (hlen : d.sduLen = d.sdu.length) (hne : d.sdu ≠ [])
    (hseq : d.seq = y.nextRecv) :
    conStep y (.recv (.data d) now xmit) =
      some { y with rx := some ⟨d, SockWrite.start d.sdu⟩ } := by
  have hmine : y.hashed = true ∧ (Packet.data d).id = y.id := ⟨hy.hashed, hid.trans hy.id.symm⟩
  have hall : d.sdu.take d.sduLen = d.sdu := by rw [hlen, List.take_length]
  simp only [conStep, hy.rx, if_true, pepdnaMinipRecvPacket, hmine, and_self, pepdnaConMinip2iFwd,
    hseq, hy.lsock, hall, hne, if_false]

theorem iter_whole (bs : Bytes) (hne : bs ≠ []) :
    pepdnaSockWriteIter (SockWrite.start bs) bs.length = .ret bs.length := by
  have hpos : 0 < bs.length := List.length_pos_of_ne_nil hne
  have h0 : ¬(bs.length : Int) = 0 := by omega
  have h1 : (0 : Int) < bs.length := by omega
  simp only [pepdnaSockWriteIter, h0, h1, if_true, if_false, SockWrite.start, SockWrite.accepted,
    Int.toNat_natCast, List.drop_length, List.take_length, List.nil_append]

theorem sendmsg_whole (key : ℕ) (y : Con) (d : DataPdu) (hy : Ready key y)
    (hlen : d.sduLen = d.sdu.length) (hne : d.sdu ≠ []) (hseq : d.seq = y.nextRecv)
    (hlt : y.nextRecv + 1 < 4294967296) :
    conStep { y with rx := some ⟨d, SockWrite.start d.sdu⟩ } (.sendmsg d.sdu.length) =
      some (taken y d) := by
  have hpos : 0 < d.sdu.length := List.length_pos_of_ne_nil hne
  have hnn : ¬(d.sdu.length : Int) < 0 := by omega
  have h0 : ¬d.sduLen = 0 := by omega
  have hacc : (SockWrite.start d.sdu).accepted d.sdu.length = d.sdu := by
    simp only [SockWrite.accepted, SockWrite.start, Int.toNat_natCast, List.take_length]
  have hrest : (d.sdu.length : Int) ≤ (SockWrite.start d.sdu).rest.length := le_rfl
  simp only [conStep, minip2iSendmsg, hrest, hy.shut, hy.err, Bool.false_eq_true, or_self,
    false_implies, and_self, if_true, iter_whole d.sdu hne, hacc, minip2iFinish, hnn, if_false, h0,
    taken, hseq, pepdnaMinipSendAck, u32_of_lt _ hlt, false_and, decide_false, Bool.or_false,
    hy.rx.symm]

/- ### The run -/

/- A frame may stay on the wire when it is delivered. -/
theorem peersStep_deliver (s : Peers) (y : Side) (p : Packet) (keep : Bool) (now : ℕ)
    (xmit : ℕ → Int) (c' : Con) (hp : p ∈ (s.get y.other).tx)
    (h : conStep (s.get y) (.recv p now xmit) = some c') :
    ∃ t, peersStep s (.deliver y p keep now xmit) = some t ∧ t.get y = c' ∧
      t.get y.other = { s.get y.other with tx := (t.get y.other).tx } ∧
      ∀ q ∈ (s.get y.other).tx, q ≠ p → q ∈ (t.get y.other).tx := by
  cases keep with
  | true =>
    refine ⟨s.set y c', ?_, get_set s y c', ?_, ?_⟩
    · simp only [peersStep, hp, if_true, h, Option.map_some]
    · rw [get_set_other]
    · rw [get_set_other]
      exact fun q hq _ => hq
  | false =>
    have hsame : (s.set y.other (unsend (s.get y.other) p)).get y = s.get y := get_other_set s y _
    refine ⟨(s.set y.other (unsend (s.get y.other) p)).set y c', ?_, get_set _ y c', ?_, ?_⟩
    · simp only [peersStep, hp, if_true, Bool.false_eq_true, if_false, hsame, h, Option.map_some]
    · rw [get_set_other, get_set]
      rfl
    · rw [get_set_other, get_set]
      exact fun q hq hne => (List.mem_erase_of_ne hne).mpr hq

/-- `y` is given the packet; if it is one that it has not had, the socket takes the payload whole. -/
def takeActs (y : Side) (keep : Bool) (next : ℕ) (d : DataPdu) : List NetAct :=
  .deliver y (.data d) keep d.ts (fun _ => 0) ::
    if next ≤ d.seq then [.own y (.sendmsg d.sdu.length)] else []

/-- A packet that `pepdna_minip_skb_send` built for the connection. -/
structure Sound (key : ℕ) (d : DataPdu) : Prop where
  id : d.id = key
  len : d.sduLen = d.sdu.length
  ne : d.sdu ≠ []

theorem run_takeActs (key : ℕ) (y : Side) (keep : Bool) (next : ℕ) (d : DataPdu) (s : Peers)
    (hy : Ready key (s.get y)) (hd : Sound key d) (hw : .data d ∈ (s.get y.other).tx)
    (hnext : (s.get y).nextRecv = max next d.seq) (hlt : d.seq + 1 < 4294967296) :
    ∃ t, Lts.run peersStep s (takeActs y keep next d) = some t ∧ t.get y = taken (s.get y) d ∧
      t.get y.other = { s.get y.other with tx := (t.get y.other).tx } ∧
      ∀ q ∈ (s.get y.other).tx, q ≠ .data d → q ∈ (t.get y.other).tx := by
  by_cases hle : next ≤ d.seq
  · have hseq : d.seq = (s.get y).nextRecv := by omega
    have hrecv := recv_next key _ d d.ts (fun _ => 0) hy hd.id hd.len hd.ne hseq
    obtain ⟨u, hu, huy, hux, hut⟩ := peersStep_deliver s y (.data d) keep d.ts _ _ hw hrecv
    have hmsg := sendmsg_whole key _ d hy hd.len hd.ne hseq (by omega)
    rw [← huy] at hmsg
    refine ⟨u.set y (taken (s.get y) d), ?_, get_set u y _, ?_, ?_⟩
    · rw [takeActs, if_pos hle, Lts.run_cons, hu, Option.bind_some, Lts.run_cons]
      simp only [peersStep, Act.isRecv, Bool.false_eq_true, if_false, hmsg, Option.map_some,
        Option.bind_some, Lts.run]
    · rw [get_set_other]
      exact hux
    · rw [get_set_other]
      exact hut
  · have hseq : d.seq ≠ (s.get y).nextRecv := by omega
    have hrecv := recv_old key _ d d.ts (fun _ => 0) hy hd.id hseq
    obtain ⟨u, hu, huy, hux, hut⟩ := peersStep_deliver s y (.data d) keep d.ts _ _ hw hrecv
    refine ⟨u, ?_, huy, hux, hut⟩
    rw [takeActs, if_neg hle, Lts.run_cons, hu]
    rfl

theorem taken_nextRecv (y : Con) (d : DataPdu) (next : ℕ) (h : y.nextRecv = max next d.seq) :
    (taken y d).nextRecv = max next (d.seq + 1) ∧
      .ack y.id (max next (d.seq + 1)) d.ts ∈ (taken y d).tx := by
  unfold taken
  split
  · have hn : y.nextRecv + 1 = max next (d.seq + 1) := by omega
    rw [hn]
    exact ⟨rfl, List.mem_append_right _ (List.mem_singleton_self _)⟩
  · have hn : y.nextRecv = max next (d.seq + 1) := by omega
    rw [hn]
    exact ⟨hn, List.mem_append_right _ (List.mem_singleton_self _)⟩

theorem taken_sdus (y : Con) (d : DataPdu) : (taken y d).sdus = y.sdus := by
  unfold taken
  split <;> rfl

/- The packets are consecutive; the receiver has had those below `next`. -/
theorem run_takeAll (key : ℕ) (y : Side) (keep : Bool) (next n : ℕ) (ds : List DataPdu) (s : Peers)
    (hy : Ready key (s.get y)) (hds : ∀ d ∈ ds, Sound key d ∧ .data d ∈ (s.get y.other).tx)
    (hseqs : ds.map DataPdu.seq = List.range' n ds.length)
    (hnext : (s.get y).nextRecv = max next n) (hlt : n + ds.length < 4294967296) :
    ∃ t, Lts.run peersStep s (ds.flatMap (takeActs y keep next)) = some t ∧ Ready key (t.get y) ∧
      (t.get y).nextRecv = max next (n + ds.length) ∧ (t.get y).sdus = (s.get y).sdus ∧
      t.get y.other = { s.get y.other with tx := (t.get y.other).tx } ∧
      ∀ d ∈ ds.getLast?, .ack key (max next (n + ds.length)) d.ts ∈ (t.get y).tx := by
  induction ds generalizing n s with
  | nil => exact ⟨s, rfl, hy, hnext, rfl, rfl, fun _ h => (nomatch h)⟩
  | cons d ds ih =>
    rw [List.length_cons] at hlt ⊢
    rw [List.map_cons, List.length_cons, List.range'_succ, List.cons.injEq] at hseqs
    obtain ⟨hn, hseqs⟩ := hseqs
    obtain ⟨⟨hd, hw⟩, hds⟩ := List.forall_mem_cons.mp hds
    obtain ⟨u, hu, huy, hux, hut⟩ := run_takeActs key y keep next d s hy hd hw (by omega) (by omega)
    obtain ⟨hun, hua⟩ := taken_nextRecv (s.get y) d next (by omega)
    have hready : Ready key (u.get y) := huy ▸ ready_taken key _ d hy
    -- the others stay on the wire: their numbers differ from that of the one delivered
    have hrest : ∀ e ∈ ds, Sound key e ∧ .data e ∈ (u.get y.other).tx := by
      intro e he
      refine ⟨(hds e he).1, hut _ (hds e he).2 ?_⟩
      have hmem := List.mem_map_of_mem (f := DataPdu.seq) he
      rw [hseqs, List.mem_range'_1] at hmem
      intro heq
      rw [Packet.data.inj heq] at hmem
      omega
    obtain ⟨t, ht, hty, htn, hts, htx, hack⟩ := ih (n + 1) u hready hrest hseqs
      (by rw [huy, hun, hn]) (by omega)
    have hsum : n + 1 + ds.length = n + (ds.length + 1) := by omega
    rw [hsum] at htn hack
    refine ⟨t, ?_, hty, htn, hts.trans (huy ▸ taken_sdus _ d), ?_, ?_⟩
    · rw [List.flatMap_cons, Lts.run_append, hu]
      exact ht
    · rw [htx, hux]
    · cases ds with
      | nil =>
        cases ht
        intro e he
        cases he
        rw [huy, ← hn, ← hy.id]
        exact hua
      | cons e ds =>
        rw [List.getLast?_cons_cons]
        exact hack

/- ### The sender before and after -/

theorem entriesRtx_whole (ack now : ℕ) (l : List RtxqEntry) (hge : ∀ e ∈ l, ack ≤ e.skb.seq)
    (hretry : ∀ e ∈ l, e.retries < MAX_MINIP_RETRY) :
    entriesRtx ack now (fun _ => 0) l =
      (l.map (rtxqEntryBump now), l.map fun e => { e.skb with ts := now }, true) := by
  induction l with
  | nil => rfl
  | cons e l ih =>
    rw [List.forall_mem_cons] at hge hretry
    have hge' : e.skb.seq ≥ ack := hge.1
    have hnn : ¬(0 : Int) < 0 := by omega
    simp only [entriesRtx, hge', hretry.1, if_true, hnn, if_false, ih hge.2 hretry.2, List.map_cons,
      rtxqEntryBump]

theorem timeout_whole (c : Con) (now : ℕ) (h0 : c.destroys = 0) (hq : c.rtxq.head ≠ [])
    (hge : ∀ e ∈ c.rtxq.head, u32 (c.lastAcked + 1) ≤ e.skb.seq)
    (hretry : ∀ e ∈ c.rtxq.head, e.retries < MAX_MINIP_RETRY) :
    ∃ q : Rtxqueue, q.head = c.rtxq.head.map (rtxqEntryBump now) ∧
      minipSenderTimeout c now (fun _ => 0) = { c with
        sending := false
        state := .recovery
        rtxq := q
        tx := c.tx ++ (c.rtxq.head.map fun e => { e.skb with ts := now }).map Packet.data
        timer := true } := by
  have hlen : c.rtxq.len ≠ 0 := by
    rw [c.rtxq.len_eq]
    exact fun h => hq (List.length_eq_zero_iff.mp h)
  have hrtx := entriesRtx_whole (u32 (c.lastAcked + 1)) now c.rtxq.head hge hretry
  refine ⟨(rtxqueueEntriesRtx c.rtxq (u32 (c.lastAcked + 1)) now fun _ => 0).1, ?_, ?_⟩
  · exact congrArg Prod.fst hrtx
  · simp only [minipSenderTimeout, rtxqSize, touchRtxq, rtxqFullRtx, ne_eq, hlen, not_false_eq_true,
      if_true, h0, Nat.lt_irrefl, decide_false, Bool.or_false]
    have h2 : (rtxqueueEntriesRtx c.rtxq (u32 (c.lastAcked + 1)) now fun _ => 0).2 =
        (c.rtxq.head.map fun e => { e.skb with ts := now }, true) := congrArg Prod.snd hrtx
    simp only [h2, if_true]

theorem newAck_lflag (c : Con) (k : ℕ) : (recvNewAck c k).lflag = c.lflag := by
  have hwake (c : Con) : (wakeLsock c).lflag = c.lflag := by
    unfold wakeLsock
    split
    · rw [pepdnaL2rConnDataReady_eq]
    · rfl
  unfold recvNewAck
  dsimp only
  rw [hwake]
  split <;> split <;> rfl

/-- A sender in recovery that an ACK of `k` will release. -/
structure AwaitsAck (key k : ℕ) (x : Con) : Prop where
  hashed : x.hashed = true
  id : x.id = key
  rx : x.rx = none
  state : x.state = .recovery
  last : x.lastAcked < k
  queue : ∀ e ∈ x.rtxq.head, e.skb.seq < k

/-- `x'` has left recovery with nothing outstanding, and nothing was sent meanwhile. -/
structure Repaired (x x' : Con) : Prop where
  queue : x'.rtxq.head = []
  sending : x'.sending = true
  state : x'.state = .established
  lflag : x'.lflag = x.lflag
  sdus : x'.sdus = x.sdus

theorem timeout_waits (key k : ℕ) (x : Con) (now : ℕ) (hl : Live x) (hid : x.id = key)
    (hrx : x.rx = none) (ht : x.timer = true) (hq : x.rtxq.head ≠ [])
    (hge : ∀ e ∈ x.rtxq.head, u32 (x.lastAcked + 1) ≤ e.skb.seq)
    (hretry : ∀ e ∈ x.rtxq.head, e.retries < MAX_MINIP_RETRY) (hlast : x.lastAcked < k)
    (hlt : ∀ e ∈ x.rtxq.head, e.skb.seq < k) :
    ∃ x', conStep x (.timeout now fun _ => 0) = some x' ∧ AwaitsAck key k x' ∧
      (∀ e ∈ x.rtxq.head, .data { e.skb with ts := now } ∈ x'.tx) ∧ x'.lflag = x.lflag ∧
      x'.sdus = x.sdus := by
  obtain ⟨q, hqhead, htimeout⟩ := timeout_whole x now hl.destroys hq hge hretry
  have hstep : conStep x (.timeout now fun _ => 0) = some _ :=
    (if_pos ht).trans (congrArg some htimeout)
  refine ⟨_, hstep, ⟨hl.hashed, hid, hrx, rfl, hlast, ?_⟩, ?_, rfl, rfl⟩
  · intro e he
    rw [hqhead] at he
    obtain ⟨e₀, he₀, rfl⟩ := List.mem_map.mp he
    exact hlt e₀ he₀
  · intro e he
    exact List.mem_append_right _ (List.mem_map_of_mem (List.mem_map_of_mem he))

theorem recvAck_repairs (key k : ℕ) (x : Con) (ts now : ℕ) (xmit : ℕ → Int)
    (hx : AwaitsAck key k x) :
    ∃ x', conStep x (.recv (.ack key k ts) now xmit) = some x' ∧ Repaired x x' := by
  let c := ackSample x ts now
  have hc : c = ackSample x ts now := rfl
  have hstep : conStep x (.recv (.ack key k ts) now xmit) = some (recvNewAck c k) := by
    have hmine : x.hashed = true ∧ (Packet.ack key k ts).id = x.id := ⟨hx.hashed, hx.id.symm⟩
    simp only [conStep, hx.rx, if_true, pepdnaMinipRecvPacket, hmine, and_self]
    rw [recvAck_new x k ts now xmit hx.last]
  have hst : c.state = .recovery := by rw [hc, ackSample_eq]; exact hx.state
  have hpace := recvNewAck_pacePart c k
  simp only [pacePart, Prod.mk.injEq, hst, if_true, decide_true, Bool.or_true] at hpace
  obtain ⟨-, -, -, -, hsend, hstate⟩ := hpace
  refine ⟨_, hstep, ?_, hsend, hstate, ?_, ?_⟩
  · have hq := recvNewAck_queue c k
    simp only [Prod.mk.injEq] at hq
    have happ := entriesAck_append k x.rtxq.head [] hx.queue fun _ h => absurd h (by simp)
    rw [List.append_nil] at happ
    rw [hq.1, hc, ackSample_rtxq]
    exact congrArg Prod.fst happ
  · rw [newAck_lflag, hc, ackSample_eq]
  · rw [(keeps_newAck c k).sdus, hc, ackSample_eq]

/- What is left of the run once the timeout has put the packets `ds` on the wire. -/
theorem run_repair (key : ℕ) (y : Side) (keep : Bool) (n now : ℕ) (ds : List DataPdu) (s : Peers)
    (hy : Ready key (s.get y)) (hds : ∀ d ∈ ds, Sound key d ∧ .data d ∈ (s.get y.other).tx)
    (hts : ∀ d ∈ ds, d.ts = now) (hne : ds ≠ [])
    (hseqs : ds.map DataPdu.seq = List.range' n ds.length) (hlo : n ≤ (s.get y).nextRecv)
    (hhi : (s.get y).nextRecv ≤ n + ds.length) (hlt : n + ds.length < 4294967296)
    (hx : AwaitsAck key (n + ds.length) (s.get y.other)) :
    ∃ t, Lts.run peersStep s (ds.flatMap (takeActs y keep (s.get y).nextRecv) ++
          [.deliver y.other (.ack key (n + ds.length) now) keep now fun _ => 0]) = some t ∧
      (t.get y).nextRecv = n + ds.length ∧ (t.get y).sdus = (s.get y).sdus ∧
      Repaired (s.get y.other) (t.get y.other) := by
  obtain ⟨u, hu, -, hun, hus, hux, hack⟩ := run_takeAll key y keep (s.get y).nextRecv n ds s hy hds
    hseqs (Nat.max_eq_left hlo).symm hlt
  rw [Nat.max_eq_right hhi] at hun hack
  have hlast := hack _ (List.getLast?_eq_getLast_of_ne_nil hne)
  rw [hts _ (List.getLast_mem hne)] at hlast
  have hux' : AwaitsAck key (n + ds.length) (u.get y.other) := by
    rw [hux]
    exact ⟨hx.hashed, hx.id, hx.rx, hx.state, hx.last, hx.queue⟩
  obtain ⟨x', hx', hrep⟩ := recvAck_repairs key (n + ds.length) _ now now (fun _ => 0) hux'
  obtain ⟨t, ht, htx, hty, -⟩ := peersStep_deliver u y.other (.ack key (n + ds.length) now) keep now
    (fun _ => 0) x' (by rw [other_other]; exact hlast) hx'
  rw [other_other] at hty
  refine ⟨t, ?_, ?_, ?_, ?_⟩
  · rw [Lts.run_append, hu, Option.bind_some, Lts.run_cons, ht]
    rfl
  · rw [hty]
    exact hun
  · rw [hty]
    exact hus
  · rw [htx]
    rw [hux] at hrep
    exact ⟨hrep.queue, hrep.sending, hrep.state, hrep.lflag, hrep.sdus⟩

/- ### Recovery -/

/-- The timeout of the sender `y.other`, its retransmissions to `y` in order, and the last ACK. -/
def recoveryActs (s : Peers) (y : Side) (keep : Bool) (now : ℕ) : List NetAct :=
  let x := s.get y.other
  .own y.other (.timeout now fun _ => 0) ::
    ((x.rtxq.head.map fun e => { e.skb with ts := now }).flatMap
        (takeActs y keep (s.get y).nextRecv) ++
      [.deliver y.other (.ack x.id (sentUpTo x) now) keep now fun _ => 0])

theorem recoveryActs_ok (s : Peers) (y : Side) (keep : Bool) (now : ℕ) :
    ∀ a ∈ recoveryActs s y keep now, NetSendSucceeds a := by
  have htake (next : ℕ) (d : DataPdu) : ∀ a ∈ takeActs y keep next d, NetSendSucceeds a := by
    intro a ha
    rcases List.mem_cons.mp ha with rfl | ha
    · trivial
    · split at ha
      · rw [List.mem_singleton.mp ha]
        trivial
      · exact absurd ha List.not_mem_nil
  intro a ha
  rcases List.mem_cons.mp ha with rfl | ha
  · trivial
  · rcases List.mem_append.mp ha with ha | ha
    · obtain ⟨d, -, ha⟩ := List.mem_flatMap.mp ha
      exact htake _ d a ha
    · rw [List.mem_singleton.mp ha]
      trivial

/- With every number delivered the receiver has written all that was sent. -/
theorem dir_all (x y : Con) (h : Dir x y) (hn : y.nextRecv = sentUpTo x) :
    y.wr = x.sdus.flatten := by
  obtain ⟨g, -, hsnd, hrcv⟩ := h
  obtain ⟨part, hw, hp, -⟩ := hrcv.written
  have hd : g.delivered = g.sent.length := by
    have h1 := hrcv.nextRecv
    have h2 := congrArg List.length hsnd.sent
    have h3 : sentUpTo x = MINIP_FIRST_SEQ + 1 + x.sdus.length := rfl
    omega
  rw [hd, List.drop_length, List.flatten_nil, List.prefix_nil] at hp
  rw [hw, hp, hd, List.take_length, List.append_nil, hsnd.sent]

/-- The numbers in the queue, against those sent and those expected. -/
theorem dir_queue (x y : Con) (h : Dir x y) (h0 : x.destroys = 0) :
    ∃ n, seqs x = List.range' n x.rtxq.head.length ∧ n + x.rtxq.head.length = sentUpTo x ∧
      n ≤ y.nextRecv ∧ y.nextRecv ≤ sentUpTo x ∧
      ∀ e ∈ x.rtxq.head, e.skb.sduLen = e.skb.sdu.length ∧ e.skb.sdu ≠ [] := by
  obtain ⟨g, hg, hsnd, hrcv⟩ := h
  have hi := GoBackN.steps_inv _ _ GoBackN.init_inv hg
  have hu := hi.una_le
  have hd := hi.delivered_le
  have hr := hrcv.nextRecv
  have hs := congrArg List.length hsnd.sent
  have hseqs := hsnd.held h0
  have hlen := congrArg List.length hseqs
  rw [seqs, List.length_map, List.length_range'] at hlen
  have hup : sentUpTo x = MINIP_FIRST_SEQ + 1 + x.sdus.length := rfl
  refine ⟨MINIP_FIRST_SEQ + 1 + g.una, ?_, by omega, by omega, by omega, ?_⟩
  · rw [hlen]
    exact hseqs
  · exact fun e he => ⟨(hsnd.queue e he).len, (hsnd.queue e he).ne⟩

theorem peersRun_recovers (syn : SynTuple) (acts : List NetAct) (s : Peers)
    (h : Lts.run peersStep (openPeers syn) acts = some s) (hok : ∀ a ∈ acts, NetSendSucceeds a)
    (hb : ∀ x, Short (s.get x)) (y : Side) (hopen : ∀ x, (s.get x).lflag = true)
    (hidle : ∀ x, (s.get x).rx = none) (hsock : ¬Dead (s.get y))
    (hq : (s.get y.other).rtxq.head ≠ [])
    (hacked : (s.get y.other).rtxq.head.length < (s.get y.other).sdus.length)
    (hretry : ∀ e ∈ (s.get y.other).rtxq.head, e.retries < MAX_MINIP_RETRY) (keep : Bool)
    (now : ℕ) :
    ∃ t, Lts.run peersStep s (recoveryActs s y keep now) = some t ∧
      (t.get y.other).rtxq.head = [] ∧ (t.get y.other).sending = true ∧
      (t.get y.other).state = .established ∧ (t.get y.other).lflag = true ∧
      (t.get y.other).sdus = (s.get y.other).sdus ∧
      (t.get y).wr = (s.get y.other).sdus.flatten := by
  have hm := mending_run syn acts s hok h
  have hlink := hm.settled.linked
  have hlive (x : Side) : Live (s.get x) := by
    refine (hm.settled.live x).resolve_right fun hf => ?_
    rw [hopen x] at hf
    cases hf
  have hx := hlive y.other
  have hout := (sane_run syn acts s h hok).outstanding y.other hx.destroys
  have hdir := hlink.dir hb y.other
  rw [other_other] at hdir
  obtain ⟨n, hseqs, hsum, hlo, hhi, hsound⟩ := dir_queue _ _ hdir hx.destroys
  have hword : sentUpTo (s.get y.other) < 4294967296 := by
    have hshort : (s.get y.other).sdus.length < 4294967286 := hb y.other
    have h9 : MINIP_FIRST_SEQ = 9 := rfl
    have hup : sentUpTo (s.get y.other) = MINIP_FIRST_SEQ + 1 + (s.get y.other).sdus.length := rfl
    omega
  have hlast : (s.get y.other).lastAcked < sentUpTo (s.get y.other) := by
    have hup : sentUpTo (s.get y.other) = MINIP_FIRST_SEQ + 1 + (s.get y.other).sdus.length := rfl
    rcases hout.last with hl | hl <;> omega
  have hnum : ∀ e ∈ (s.get y.other).rtxq.head, e.skb.seq < sentUpTo (s.get y.other) := by
    intro e he
    have hmem : e.skb.seq ∈ seqs (s.get y.other) := List.mem_map_of_mem he
    rw [hseqs, List.mem_range'_1] at hmem
    omega
  have htimer : (s.get y.other).timer = true := by
    refine (hm.poised y.other).armed.resolve_left ?_ (hopen y.other)
    rw [(s.get y.other).rtxq.len_eq]
    omega
  obtain ⟨x', hx', hwait, hwire, hflag, hsdus⟩ := timeout_waits syn.hashId _ _ now hx
    (hm.poised y.other).id (hidle y.other) htimer hq
    ((outstanding_above _ hout (hb y.other) hq).mpr hacked) hretry hlast hnum
  -- what the timeout sends, and the state after it
  let ds := (s.get y.other).rtxq.head.map fun e => { e.skb with ts := now }
  have hlen : ds.length = (s.get y.other).rtxq.head.length := List.length_map _
  have hseqs' : ds.map DataPdu.seq = List.range' n ds.length := by
    rw [hlen, ← hseqs, List.map_map]
    rfl
  have hy : (s.set y.other x').get y = s.get y := get_other_set s y x'
  have hxo : (s.set y.other x').get y.other = x' := get_set s y.other x'
  rw [← hsum, ← hlen] at hwait hword hhi
  obtain ⟨t, ht, htn, hts, hrep⟩ := run_repair syn.hashId y keep n now ds (s.set y.other x')
    (by
      rw [hy]
      exact ⟨(hlive y).hashed, (hm.poised y).id, (hlive y).lsock,
        Bool.eq_false_iff.mpr fun h => hsock (.inl h), Bool.eq_false_iff.mpr fun h => hsock (.inr h),
        hidle y⟩)
    (by
      intro d hd
      obtain ⟨e, he, rfl⟩ := List.mem_map.mp hd
      rw [hxo]
      exact ⟨⟨(hm.poised y.other).queue e he, (hsound e he).1, (hsound e he).2⟩, hwire e he⟩)
    (by
      intro d hd
      obtain ⟨e, he, rfl⟩ := List.mem_map.mp hd
      rfl)
    (fun hnil => hq (List.map_eq_nil_iff.mp hnil)) hseqs' (by rw [hy]; exact hlo)
    (by rw [hy]; exact hhi) hword (by rw [hxo]; exact hwait)
  rw [hy] at ht hts
  rw [hxo] at hrep
  have hrun : Lts.run peersStep s (recoveryActs s y keep now) = some t := by
    have hown : peersStep s (.own y.other (.timeout now fun _ => 0)) = some (s.set y.other x') := by
      simp only [peersStep, Act.isRecv, Bool.false_eq_true, if_false, hx', Option.map_some]
    rw [recoveryActs, Lts.run_cons, hown, Option.bind_some, (hm.poised y.other).id, ← hsum, ← hlen]
    exact ht
  have hlink' : Linked t := Lts.run_invariant_along Linked (fun _ a => NetSendSucceeds a) linked_step
    s t _ hlink (Lts.along_of_forall _ s _ (recoveryActs_ok s y keep now)) hrun
  have hb' : ∀ x, Short (t.get x) := by
    intro x
    unfold Short
    rcases side_cases y x with rfl | rfl
    · rw [hts]
      exact hb _
    · rw [hrep.sdus, hsdus]
      exact hb _
  have hdir' := hlink'.dir hb' y.other
  rw [other_other] at hdir'
  have hall := dir_all _ _ hdir' (by
    rw [htn, hlen, hsum, sentUpTo, sentUpTo, hrep.sdus, hsdus])
  exact ⟨t, hrun, hrep.queue, hrep.sending, hrep.state, hrep.lflag.trans (hflag.trans (hopen _)),
    hrep.sdus.trans hsdus, by rw [hall, hrep.sdus, hsdus]⟩

/- The second of two packets is lost. -/
def secondLost : List NetAct :=
  firstAcked ++ [.lose .a (.data ⟨sampleSyn.hashId, 11, 1, 5, [1]⟩)]

def secondLostPeers : Peers := ranFrom (openPeers sampleSyn) secondLost

theorem secondLost_short (x : Side) : Short (secondLostPeers.get x) := by
  unfold Short
  cases x <;> decide +kernel

theorem secondLost_open (x : Side) : (secondLostPeers.get x).lflag = true := by
  cases x <;> decide +kernel

theorem secondLost_idle (x : Side) : (secondLostPeers.get x).rx = none := by
  cases x <;> decide +kernel

theorem secondLost_recovers :
    (secondLostPeers.get .a).tx = [] ∧ (secondLostPeers.get .b).wr = [1] ∧
      ∃ t, Lts.run peersStep secondLostPeers (recoveryActs secondLostPeers .b false 3007) = some t ∧
        (t.get Side.b.other).rtxq.head = [] ∧ (t.get Side.b.other).sending = true ∧
        (t.get Side.b.other).state = .established ∧ (t.get Side.b.other).lflag = true ∧
        (t.get Side.b.other).sdus = (secondLostPeers.get Side.b.other).sdus ∧
        (t.get .b).wr = (secondLostPeers.get Side.b.other).sdus.flatten := by
  refine ⟨by decide +kernel, by decide +kernel, ?_⟩
  refine peersRun_recovers sampleSyn secondLost secondLostPeers (by decide +kernel)
    (by decide +kernel) secondLost_short .b secondLost_open secondLost_idle ?_ (by decide +kernel)
    (by decide +kernel) (by decide +kernel) false 3007
  unfold Dead
  decide +kernel

end PepDna.Minip
