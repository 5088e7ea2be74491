import PepDna.Rina.EfcpOrder
import PepDna.Rina.EfcpSender

/-!
# What comes across

Both ends of a connection and the network between them, which may lose, repeat, delay and reorder
data and control PDUs. The sender's inactivity timer starts the numbers anew while PDUs with the
old ones may still be on their way; the results are about the time until it fires.
-/

open PepDna.Numbering (From)

namespace PepDna.Rina.Efcp

/-! ### What a step can do -/

/-- The SDUs an action hands to the sender. -/
def Act.sdus : Act → List Bytes
  | .write sdu _ => [sdu]
  | _ => []

/-- The sender's inactivity timer fires. -/
def Act.restarts : Act → Bool
  | .senderInactivity _ => true
  | _ => false

/-- The receiver's inactivity timer fires. -/
def Act.forgets : Act → Bool
  | .receiverInactivity => true
  | _ => false

/-- A rendezvous PDU comes. -/
def Act.meets : Act → Bool
  | .rendezvous _ => true
  | _ => false

def RcvAct.forgets : RcvAct → Bool
  | .inactivity => true
  | _ => false

def RcvAct.meets : RcvAct → Bool
  | .rendezvous _ => true
  | _ => false

/-- The sender sends something, for the first time or again, or the receiver does something. -/
inductive PeersEffect (cfg : Config) (p : Peers) (a : Act) (q : Peers) : Prop where
  | flow (now ack : ℕ) (new out : List Pdu) (h : Flow cfg now p.snd new ack q.snd out)
      (hnew : From Pdu.seq p.snd.seqNrToSend new) (hdata : new.map Pdu.data = a.sdus)
      (hack : ack = 0 ∨ ∃ c ∈ p.ctrls, c.acks = true ∧ c.ack = ack)
      (hedge : q.snd.sndRtWindEdge = p.snd.sndRtWindEdge ∨
        ∃ c ∈ p.ctrls, q.snd.sndRtWindEdge = c.newRt)
      (hwire : q.wire = p.wire ++ out) (hrcv : q.rcv = p.rcv) (hctrls : q.ctrls = p.ctrls)
  | again (tr now : ℕ) (hsdus : a.sdus = []) (hsnd : q.snd = (rtxTimer cfg tr now p.snd).1)
      (hwire : q.wire = p.wire ++ (rtxTimer cfg tr now p.snd).2) (hrcv : q.rcv = p.rcv)
      (hctrls : q.ctrls = p.ctrls)
  | rcv (x : RcvAct) (hsdus : a.sdus = []) (hsrc : ∀ du ∈ x.pdus, du ∈ p.wire)
      (hforgets : x.forgets = a.forgets) (hmeets : x.meets = a.meets) (hsnd : q.snd = p.snd)
      (hwire : q.wire = p.wire) (hrcv : q.rcv = (rcvStep cfg p.rcv x).1)
      (hctrls : q.ctrls = p.ctrls ++ (rcvStep cfg p.rcv x).2)

theorem peersStep_effect {cfg : Config} {n : ℕ} {p q : Peers} {a : Act}
    (hs : Windowed cfg n p.snd) (hroom : p.snd.seqNrToSend + a.sdus.length < 4294967296)
    (ha : a.restarts = false) (h : peersStep cfg p a = some q) : PeersEffect cfg p a q := by
  have hnone : ∀ du ∈ ([] : List Pdu), du ∈ p.wire := fun du hdu => absurd hdu List.not_mem_nil
  cases a with
  | write data now =>
    cases h
    obtain ⟨du, hseq, hdata, hflow, hedge⟩ := dtpWrite_flow now data hs hroom
    exact .flow now 0 [du] _ hflow ⟨hseq, trivial⟩ (congrArg (fun d => [d]) hdata) (.inl rfl)
      (.inl hedge) rfl rfl rfl
  | rtx tr now =>
    cases h
    exact .again tr now rfl rfl rfl rfl rfl
  | data i now =>
    obtain ⟨du, hdu, rfl⟩ := Option.map_eq_some_iff.mp h
    refine .rcv (.receive du now) rfl ?_ rfl rfl rfl rfl rfl rfl
    intro d hd
    rw [List.mem_singleton.mp hd]
    exact List.mem_of_getElem? hdu
  | ctrl i now =>
    obtain ⟨c, hc, rfl⟩ := Option.map_eq_some_iff.mp h
    have hmem := List.mem_of_getElem? hc
    obtain ⟨ack, hack, hflow, hedge⟩ := rcvControl_flow now c hs
    refine .flow now ack [] _ hflow trivial rfl ?_ ?_ rfl rfl rfl
    · exact hack.imp_right fun hack => ⟨c, hmem, hack.1, hack.2.symm⟩
    · exact hedge.imp_right fun hedge => ⟨c, hmem, hedge⟩
  | a now =>
    cases h
    exact .rcv (.a now) rfl hnone rfl rfl rfl rfl rfl rfl
  | rendezvousSnd =>
    cases h
    have hself := hs.flow_self 0
    refine .flow 0 0 [] [] ?_ trivial rfl (.inl rfl) (.inl ?_) (List.append_nil _).symm rfl rfl
    · unfold rendezvousSnd
      split
      · exact ⟨hself.written, hself.next, hself.cwq, hself.sent, hself.rtxq, hself.dropped,
          hself.closed, hself.edge⟩
      · exact hself
    · unfold rendezvousSnd
      split <;> rfl
  | rendezvous i =>
    obtain ⟨c, hc, rfl⟩ := Option.map_eq_some_iff.mp h
    exact .rcv (.rendezvous c) rfl hnone rfl rfl rfl rfl rfl rfl
  | rendezvousRcv =>
    cases h
    exact .rcv .rendezvousRcv rfl hnone rfl rfl rfl rfl rfl rfl
  | receiverInactivity =>
    cases h
    exact .rcv .inactivity rfl hnone rfl rfl rfl rfl rfl (List.append_nil _).symm
  | senderInactivity seq => exact absurd ha.symm Bool.false_ne_true

/-! ### In order, and nothing else -/

/-- What the receiver has is of the sender. -/
structure Delivered (cfg : Config) (n : ℕ) (p : Peers) : Prop where
  snd : Windowed cfg n p.snd
  rcv : Ordered cfg p.rcv
  wire : ∀ du ∈ p.wire, du ∈ p.snd.written
  queue : ∀ e ∈ p.rcv.seqq, e.pdu ∈ p.snd.written
  passed : ∀ run ∈ p.rcv.passedRuns ++ [p.rcv.passed], ∀ du ∈ run, du ∈ p.snd.written
  sifted : Sifted p.rcv

theorem delivered_init (cfg : Config) (n : ℕ) (hgap : cfg.maxSduGap < 4294967296) :
    Delivered cfg n (Peers.init cfg n) := by
  refine ⟨windowed_init cfg n, ordered_init cfg hgap, fun du hdu => absurd hdu List.not_mem_nil,
    fun e he => absurd he List.not_mem_nil, fun run hrun du hdu => ?_, sifted_init cfg⟩
  rw [List.mem_singleton.mp hrun] at hdu
  exact absurd hdu List.not_mem_nil

/-- The receiver keeps to what has come. -/
theorem Effect.from_written {cfg : Config} {src written : List Pdu} {r r' : Rcv}
    (h : Effect cfg src r r') (hsrc : ∀ du ∈ src, du ∈ written)
    (hqueue : ∀ e ∈ r.seqq, e.pdu ∈ written)
    (hruns : ∀ run ∈ r.passedRuns ++ [r.passed], ∀ du ∈ run, du ∈ written) :
    (∀ e ∈ r'.seqq, e.pdu ∈ written) ∧
      ∀ run ∈ r'.passedRuns ++ [r'.passed], ∀ du ∈ run, du ∈ written := by
  cases h with
  | advance ps h hq hd =>
    refine ⟨fun e he => ?_, fun run hrun du hdu => ?_⟩
    · rcases h.queue e he with he | ⟨he, -⟩
      · exact hqueue e he
      · exact hsrc e.pdu he
    · rw [h.passedRuns, h.passed] at hrun
      rcases List.mem_append.mp hrun with hrun | hrun
      · exact hruns run (List.mem_append_left _ hrun) du hdu
      · rw [List.mem_singleton.mp hrun] at hdu
        rcases List.mem_append.mp hdu with hdu | hdu
        · exact hruns _ (List.mem_append_right _ List.mem_cons_self) du hdu
        · rcases h.source du hdu with hdu | ⟨e, he, rfl⟩
          · exact hsrc du hdu
          · exact hqueue e he
  | restart du hmem hwas hlwe hpassed hrs hdrf hseqq =>
    rw [hseqq, hrs, hpassed]
    refine ⟨fun e he => absurd he List.not_mem_nil, fun run hrun d hd => ?_⟩
    rcases List.mem_append.mp hrun with hrun | hrun
    · exact hruns run hrun d hd
    · rw [List.mem_singleton.mp hrun] at hd
      rw [List.mem_singleton.mp hd]
      exact hsrc du hmem
  | inactive hlwe hpassed hrs hdrf hseqq =>
    rw [hseqq, hrs, hpassed]
    exact ⟨fun e he => absurd he List.not_mem_nil, hruns⟩

/-- What the sender sends is of what was written, and that only grows. -/
theorem PeersEffect.sender {cfg : Config} {n : ℕ} {p q : Peers} {a : Act}
    (h : PeersEffect cfg p a q) (hs : Windowed cfg n p.snd) :
    Windowed cfg n q.snd ∧ (∃ new, q.snd.written = p.snd.written ++ new ∧
      new.map Pdu.data = a.sdus ∧ q.snd.seqNrToSend = p.snd.seqNrToSend + new.length) ∧
      ∃ out, q.wire = p.wire ++ out ∧ ∀ du ∈ out, du ∈ q.snd.written := by
  cases h with
  | flow now ack new out h hnew hdata hack hedge hwire hrcv hctrls =>
    exact ⟨h.windowed hs hnew, ⟨new, h.written, hdata, h.next⟩, out, hwire, (h.out_mem hs).1⟩
  | again tr now hsdus hsnd hwire hrcv hctrls =>
    obtain ⟨lost, h, -, hwritten, hnext, -⟩ := rtxTimer_again cfg tr now p.snd
    rw [hsnd, hsdus, hwritten]
    refine ⟨rtxTimer_windowed tr now hs, ⟨[], (List.append_nil _).symm, rfl, hnext⟩, _, hwire, ?_⟩
    intro du hdu
    obtain ⟨e, he, rfl⟩ := h.source du hdu
    exact (hs.copies e he).1
  | rcv x hsdus hsrc hforgets hmeets hsnd hwire hrcv hctrls =>
    rw [hsnd, hsdus]
    exact ⟨hs, ⟨[], (List.append_nil _).symm, rfl, rfl⟩, [], by rw [hwire, List.append_nil],
      fun du hdu => absurd hdu List.not_mem_nil⟩

/-- The numbers in use leave room for the gap. -/
theorem Delivered.fits {cfg : Config} {n : ℕ} {p : Peers} (hp : Delivered cfg n p)
    (hroom : p.snd.seqNrToSend + cfg.maxSduGap < 4294967296) {x : RcvAct}
    (hsrc : ∀ du ∈ x.pdus, du ∈ p.wire) : x.Fits cfg := by
  intro du hdu
  have := (hp.snd.numbered.bounds (hp.wire du (hsrc du hdu))).2
  have := hp.snd.next
  omega

theorem delivered_step {cfg : Config} {n : ℕ} {p q : Peers} {a : Act}
    (hord : cfg.rtxCtrl = true ∨ cfg.a = 0) (hp : Delivered cfg n p)
    (hroom : p.snd.seqNrToSend + cfg.maxSduGap < 4294967296) (h : PeersEffect cfg p a q) :
    Delivered cfg n q := by
  obtain ⟨hsnd, ⟨new, hnew, -⟩, out, hout, hwritten⟩ := h.sender hp.snd
  have hgrow : ∀ du ∈ p.snd.written, du ∈ q.snd.written := fun du hdu =>
    hnew ▸ List.mem_append_left _ hdu
  have hwire : ∀ du ∈ q.wire, du ∈ q.snd.written := by
    intro du hdu
    rw [hout] at hdu
    exact (List.mem_append.mp hdu).elim (fun hdu => hgrow du (hp.wire du hdu)) (hwritten du)
  have hsame (hrcv : q.rcv = p.rcv) : Delivered cfg n q := by
    refine ⟨hsnd, hrcv ▸ hp.rcv, hwire, ?_, ?_, hrcv ▸ hp.sifted⟩
    · rw [hrcv]
      exact fun e he => hgrow _ (hp.queue e he)
    · rw [hrcv]
      exact fun run hrun du hdu => hgrow du (hp.passed run hrun du hdu)
  cases h with
  | flow now ack new out h hnew hdata hack hedge hwire hrcv hctrls => exact hsame hrcv
  | again tr now hsdus hsnd hwire hrcv hctrls => exact hsame hrcv
  | rcv x hsdus hsrc hforgets hmeets hsnd' hwire' hrcv hctrls =>
    have hfits := hp.fits hroom hsrc
    have hgap : cfg.maxSduGap < 4294967296 := by omega
    have hmem := (rcvStep_effect hord hp.rcv.bounded hfits).from_written
      (fun du hdu => hp.wire du (hsrc du hdu)) hp.queue hp.passed
    rw [← hrcv, ← hsnd'] at hmem
    exact ⟨hsnd, hrcv ▸ ordered_step hord hp.rcv hgap hfits, hwire, hmem.1, hmem.2,
      hrcv ▸ sifted_step cfg x hp.sifted⟩

/-- The invariant rule for the system, until the sender's numbers start anew. -/
theorem peersRun_invariant {cfg : Config} {n : ℕ} {acts : List Act} {q : Peers}
    (inv : Peers → Prop) (ok : Act → Prop) (hord : cfg.rtxCtrl = true ∨ cfg.a = 0)
    (hroom : n + (acts.flatMap Act.sdus).length + cfg.maxSduGap < 4294967296)
    (hinit : inv (Peers.init cfg n))
    (hstep : ∀ p a q, Delivered cfg n p →
      p.snd.seqNrToSend ≤ n + (acts.flatMap Act.sdus).length → inv p → ok a →
      PeersEffect cfg p a q → inv q)
    (hacts : ∀ a ∈ acts, a.restarts = false ∧ ok a)
    (hrun : Lts.run (peersStep cfg) (Peers.init cfg n) acts = some q) :
    Delivered cfg n q ∧ inv q ∧ q.snd.written.map Pdu.data = acts.flatMap Act.sdus := by
  have h := Lts.run_invariant_history
    (fun pre p => Delivered cfg n p ∧ inv p ∧
      p.snd.seqNrToSend = n + (pre.flatMap Act.sdus).length ∧
      p.snd.written.map Pdu.data = pre.flatMap Act.sdus)
    acts ?_ [] (Peers.init cfg n) q acts rfl
    ⟨delivered_init cfg n (by omega), hinit, rfl, rfl⟩ hrun
  · exact ⟨h.1, h.2.1, h.2.2.2⟩
  · rintro pre p a post r hall ⟨hp, hi, hnext, hdata⟩ hr
    obtain ⟨hrestarts, ha⟩ := hacts a (hall ▸ List.mem_append_right _ List.mem_cons_self)
    -- the writes before this step and that of the step itself are among all of them
    have hwrites : (pre.flatMap Act.sdus).length + a.sdus.length ≤
        (acts.flatMap Act.sdus).length := by
      rw [hall, List.flatMap_append, List.flatMap_cons, List.length_append, List.length_append]
      omega
    have heff := peersStep_effect hp.snd (by omega) hrestarts hr
    obtain ⟨-, ⟨new, hwritten, hnew, hnext'⟩, -⟩ := heff.sender hp.snd
    refine ⟨delivered_step hord hp (by omega) heff, hstep p a r hp (by omega) hi ha heff, ?_, ?_⟩
    · have hlen := congrArg List.length hnew
      rw [List.length_map] at hlen
      rw [hnext', hnext, hlen, List.flatMap_append, List.flatMap_singleton, List.length_append,
        Nat.add_assoc]
    · rw [hwritten, List.map_append, hdata, hnew, List.flatMap_append, List.flatMap_singleton]

/-- With retransmission and no gap allowed the PDUs of a run have consecutive numbers. -/
theorem InOrder.consecutive {cfg : Config} {run : List Pdu} {m : ℕ} (h : InOrder cfg run)
    (hrtx : cfg.rtxCtrl = true) (hgap : cfg.maxSduGap = 0)
    (hfirst : ∀ p ∈ run.head?, p.seq = m + 1) : From Pdu.seq m run := by
  induction run generalizing m with
  | nil => trivial
  | cons p ps ih =>
    have hp : p.seq = m + 1 := hfirst p rfl
    refine ⟨hp, ih h.tail fun q hq => ?_⟩
    have hafter : After cfg p.seq q := h.rel_head? hq
    have := hafter.1
    have := hafter.2 hrtx
    omega

/-- Whatever the network does, until the sender's inactivity timer fires or the numbers come to the
wraparound: the SDUs of each data run that the receiver hands over are SDUs that were written, in
their order, provided there is retransmission control or no A timer; with retransmission control
and no gap allowed they are a part of the SDUs written with nothing missing inside, as long as
`to_post` has taken every PDU. -/
theorem peersRun_delivers (cfg : Config) (n : ℕ) (acts : List Act) (q : Peers)
    (hord : cfg.rtxCtrl = true ∨ cfg.a = 0)
    (hroom : n + (acts.flatMap Act.sdus).length + cfg.maxSduGap < 4294967296)
    (hacts : ∀ a ∈ acts, a.restarts = false)
    (hrun : Lts.run (peersStep cfg) (Peers.init cfg n) acts = some q) :
    ∀ run ∈ q.rcv.handedOver, (run.map Pdu.data).Sublist (acts.flatMap Act.sdus) ∧
      (cfg.rtxCtrl = true → cfg.maxSduGap = 0 → q.rcv.unposted = [] →
        run.map Pdu.data <:+: acts.flatMap Act.sdus) := by
  obtain ⟨h, -, hdata⟩ := peersRun_invariant (fun _ => True) (fun _ => True) hord hroom trivial
    (fun _ _ _ _ _ _ _ _ => trivial) (fun a ha => ⟨hacts a ha, trivial⟩) hrun
  intro run hrun
  rw [← hdata]
  refine ⟨?_, fun hrtx hgap hnone => ?_⟩
  · obtain ⟨run', hrun', hsub⟩ := h.sifted.sublist run hrun
    have hwritten := h.snd.numbered.sublist (h.rcv.inOrder run' hrun').increasing
      (h.passed run' hrun')
    exact (hsub.trans hwritten).map _
  · rw [h.sifted.all_posted hnone] at hrun
    have hmem := h.passed run hrun
    cases run with
    | nil => exact ⟨[], q.snd.written.map Pdu.data, rfl⟩
    | cons p ps =>
      have hpos := (h.snd.numbered.bounds (hmem p List.mem_cons_self)).1
      have hfrom : From Pdu.seq (p.seq - 1) (p :: ps) := by
        refine (h.rcv.inOrder _ hrun).consecutive hrtx hgap fun r hr => ?_
        cases hr
        omega
      exact (h.snd.numbered.isInfix hfrom hmem).map _

/-- Three SDUs are written, and the first of the PDUs comes last. -/
def lateFirst : List Act :=
  [.write [1] 0, .write [2] 0, .write [3] 0, .data 1 5, .data 2 6, .ctrl 1 7, .data 0 8]

def lateFirstPeers : Peers :=
  (Lts.run (peersStep reliable) (Peers.init reliable 99) lateFirst).getD (Peers.init reliable 99)

theorem lateFirst_run : Lts.run (peersStep reliable) (Peers.init reliable 99) lateFirst =
    some lateFirstPeers := Lts.run_getD _ _ _ (by decide +kernel)

theorem lateFirst_delivers :
    (lateFirstPeers.rcv.handedOver.map (·.map Pdu.data) = [[], [[2], [3]]] ∧
      lateFirstPeers.rcv.unposted = []) ∧
    ∀ run ∈ lateFirstPeers.rcv.handedOver,
      (run.map Pdu.data).Sublist (lateFirst.flatMap Act.sdus) ∧
        (reliable.rtxCtrl = true → reliable.maxSduGap = 0 → lateFirstPeers.rcv.unposted = [] →
          run.map Pdu.data <:+: lateFirst.flatMap Act.sdus) :=
  ⟨by decide +kernel, peersRun_delivers reliable 99 lateFirst lateFirstPeers (.inl rfl) (by decide)
    (by decide) lateFirst_run⟩

/-! ### Nothing lost in silence -/

/-- The control PDUs have the edges the receiver has after the step. -/
def Stamped (x : Rcv × List Ctrl) : Prop := ∀ c ∈ x.2, c.ack = x.1.lwe ∧ c.newRt = x.1.rwe

theorem stamped_nil (r : Rcv) : Stamped (r, []) := fun _ hc => absurd hc List.not_mem_nil

theorem stamped_ctrl (r : Rcv) (type : CtrlType) :
    Stamped ((r.ctrl type).1, [(r.ctrl type).2]) := by
  intro c hc
  rw [List.mem_singleton.mp hc]
  exact ⟨rfl, rfl⟩

theorem rcvrAck_stamped (cfg : Config) (r : Rcv) : Stamped (rcvrAck cfg r) := by
  unfold rcvrAck
  split
  · exact stamped_ctrl _ _
  · exact stamped_nil _

theorem dtcpSvUpdate_stamped (cfg : Config) (r : Rcv) : Stamped (dtcpSvUpdate cfg r) := by
  unfold dtcpSvUpdate
  dsimp only
  generalize (if cfg.windowBased then { r with rwe := u32 (r.lwe + cfg.initialCredit) } else r) = s
  split
  · exact rcvrAck_stamped cfg s
  · split
    · exact stamped_ctrl _ _
    · exact stamped_nil _

theorem rcvStep_stamped (cfg : Config) (r : Rcv) (x : RcvAct) : Stamped (rcvStep cfg r x) := by
  have h := rcvStep_handled cfg r x
  generalize rcvStep cfg r x = y at h ⊢
  cases h with
  | started | direct | sequenced | expired => exact dtcpSvUpdate_stamped cfg _
  | met | asked => exact stamped_ctrl _ _
  | refused | overrun | kept | forgot | ignored => exact stamped_nil _

/-- Only the inactivity timer ends a data run. -/
theorem rcvStep_stays {cfg : Config} {r : Rcv} {x : RcvAct} (hx : x.forgets = false)
    (hr : r.drfRequired = false) : (rcvStep cfg r x).1.drfRequired = false := by
  have hupdate (s : Rcv) (hs : s.drfRequired = false) :
      (dtcpSvUpdate cfg s).1.drfRequired = false := (dtcpSvUpdate_same cfg s).drfRequired.trans hs
  have h := rcvStep_handled cfg r x
  generalize rcvStep cfg r x = y at h ⊢
  cases h with
  | started du now hd => exact absurd (hr.symm.trans hd) Bool.false_ne_true
  | direct =>
    refine hupdate _ ?_
    split <;> exact hr
  | sequenced =>
    refine hupdate _ ?_
    unfold Rcv.takeIn sequence
    dsimp only
    split <;> exact hr
  | expired now => exact hupdate _ hr
  | forgot => exact absurd hx.symm Bool.false_ne_true
  | refused | overrun | kept | ignored | met | asked => exact hr

theorem rcvStep_lwe_le {cfg : Config} {r : Rcv} {x : RcvAct} (hx : x.forgets = false)
    (hidle : r.drfRequired = true → r.lwe = 0) (heff : Effect cfg x.pdus r (rcvStep cfg r x).1) :
    r.lwe ≤ (rcvStep cfg r x).1.lwe := by
  cases hdrf : r.drfRequired with
  | true =>
    rw [hidle hdrf]
    exact Nat.zero_le _
  | false =>
    have hstays := @rcvStep_stays cfg r x hx hdrf
    cases heff with
    | advance ps h hq hd => exact h.follows.le
    | restart du hsrc hwas hlwe hpassed hruns hdrf' hqueue =>
      exact absurd (hdrf.symm.trans hwas) Bool.false_ne_true
    | inactive hlwe hpassed hruns hdrf' hqueue =>
      exact absurd (hstays.symm.trans hdrf') Bool.false_ne_true

/-- A PDU is within the receiver's left edge, in one of the sender's queues or given up. -/
def Settled (p : Peers) (w : Pdu) : Prop :=
  w.seq ≤ p.rcv.lwe ∨ w ∈ p.snd.cwq ∨ (∃ e ∈ p.snd.rtxq, e.pdu = w) ∨ w ∈ p.snd.dropped

structure Kept (cfg : Config) (p : Peers) : Prop where
  settled : ∀ w ∈ p.snd.written, Settled p w
  acks : ∀ c ∈ p.ctrls, c.ack ≤ p.rcv.lwe
  tries : ∀ e ∈ p.snd.rtxq, e.retries + 1 ≤ p.wire.count e.pdu
  given : ∀ w ∈ p.snd.dropped, cfg.dataRetransmitMax ≤ p.wire.count w
  idle : p.rcv.drfRequired = true → p.rcv.lwe = 0

theorem kept_init (cfg : Config) (n : ℕ) : Kept cfg (Peers.init cfg n) :=
  ⟨fun _ h => absurd h List.not_mem_nil, fun _ h => absurd h List.not_mem_nil,
    fun _ h => absurd h List.not_mem_nil, fun _ h => absurd h List.not_mem_nil, fun _ => rfl⟩

theorem count_le_append (l l' : List Pdu) (w : Pdu) : l.count w ≤ (l ++ l').count w := by
  rw [List.count_append]
  exact Nat.le_add_right _ _

theorem count_lt_append {l l' : List Pdu} {w : Pdu} (h : w ∈ l') :
    l.count w + 1 ≤ (l ++ l').count w := by
  rw [List.count_append]
  exact Nat.add_le_add_left (List.one_le_count_iff.mpr h) _

section Kept

variable {cfg : Config} {n : ℕ} {p q : Peers}

theorem kept_flow {now ack : ℕ} {new out : List Pdu} (hrtx : cfg.rtxCtrl = true)
    (hp : Kept cfg p) (h : Flow cfg now p.snd new ack q.snd out)
    (hack : ack = 0 ∨ ∃ c ∈ p.ctrls, c.acks = true ∧ c.ack = ack) (hwire : q.wire = p.wire ++ out)
    (hrcv : q.rcv = p.rcv) (hctrls : q.ctrls = p.ctrls) : Kept cfg q := by
  obtain ⟨gone, keep, hq, hle, hq'⟩ := h.rtxq
  have hlwe : ack ≤ p.rcv.lwe := by
    rcases hack with rfl | ⟨c, hc, -, rfl⟩
    · exact Nat.zero_le _
    · exact hp.acks c hc
  -- a PDU that is sent has its copy in the retransmission queue
  have hahead : ∀ w ∈ p.snd.cwq ++ new, w ∈ q.snd.cwq ∨ ∃ e ∈ q.snd.rtxq, e.pdu = w := by
    intro w hw
    rw [h.cwq] at hw
    rcases List.mem_append.mp hw with hw | hw
    · refine .inr ⟨⟨w, now, 0⟩, ?_, rfl⟩
      rw [hq']
      unfold copiesOf
      rw [hrtx, if_pos rfl]
      exact List.mem_append_right _ (List.mem_map_of_mem hw)
    · exact .inl hw
  have hsettled : ∀ w ∈ p.snd.cwq ++ new, Settled q w := fun w hw =>
    (hahead w hw).elim (fun hw => .inr (.inl hw)) fun hw => .inr (.inr (.inl hw))
  refine ⟨fun w hw => ?_, ?_, fun e he => ?_, ?_, ?_⟩
  · rw [h.written] at hw
    rcases List.mem_append.mp hw with hw | hw
    · rcases hp.settled w hw with hw | hw | ⟨e, he, rfl⟩ | hw
      · exact .inl (hrcv ▸ hw)
      · exact hsettled w (List.mem_append_left _ hw)
      · rw [hq] at he
        rcases List.mem_append.mp he with he | he
        · exact .inl (hrcv ▸ (hle e he).trans hlwe)
        · exact .inr (.inr (.inl ⟨e, hq' ▸ List.mem_append_left _ he, rfl⟩))
      · exact .inr (.inr (.inr (h.dropped ▸ hw)))
    · exact hsettled w (List.mem_append_right _ hw)
  · rw [hctrls, hrcv]
    exact hp.acks
  · rw [hwire]
    rw [hq'] at he
    rcases List.mem_append.mp he with he | he
    · exact (hp.tries e (hq ▸ List.mem_append_right _ he)).trans (count_le_append _ _ _)
    · obtain ⟨hmem, hretries⟩ := copiesOf_mem he
      rw [hretries]
      exact (Nat.succ_le_succ (Nat.zero_le _)).trans (count_lt_append hmem)
  · rw [h.dropped, hwire]
    exact fun w hw => (hp.given w hw).trans (count_le_append _ _ _)
  · rw [hrcv]
    exact hp.idle

theorem kept_again {tr now : ℕ} (hp : Kept cfg p) (hsnd : q.snd = (rtxTimer cfg tr now p.snd).1)
    (hwire : q.wire = p.wire ++ (rtxTimer cfg tr now p.snd).2) (hrcv : q.rcv = p.rcv)
    (hctrls : q.ctrls = p.ctrls) : Kept cfg q := by
  obtain ⟨lost, h, hdropped, hwritten, -, hcwq, -⟩ := rtxTimer_again cfg tr now p.snd
  rw [← hsnd] at h hdropped hwritten hcwq
  refine ⟨fun w hw => ?_, ?_, fun e he => ?_, fun w hw => ?_, ?_⟩
  · rw [hwritten] at hw
    rcases hp.settled w hw with hw | hw | ⟨e, he, rfl⟩ | hw
    · exact .inl (hrcv ▸ hw)
    · exact .inr (.inl (hcwq ▸ hw))
    · rcases h.kept e he with he | he
      · exact .inr (.inr (.inr (hdropped ▸ List.mem_append_right _ he)))
      · exact .inr (.inr (.inl he))
    · exact .inr (.inr (.inr (hdropped ▸ List.mem_append_left _ hw)))
  · rw [hctrls, hrcv]
    exact hp.acks
  · rw [hwire]
    rcases h.retries e he with he | ⟨e', he', heq, hretries, hout⟩
    · exact (hp.tries e he).trans (count_le_append _ _ _)
    · rw [hretries, ← heq]
      exact (Nat.succ_le_succ (hp.tries e' he')).trans (count_lt_append hout)
  · rw [hwire]
    refine Nat.le_trans ?_ (count_le_append _ _ _)
    rw [hdropped] at hw
    rcases List.mem_append.mp hw with hw | hw
    · exact hp.given w hw
    · obtain ⟨e, he, rfl, hmax⟩ := h.lost w hw
      exact hmax.trans (hp.tries e he)
  · rw [hrcv]
    exact hp.idle

theorem kept_rcv {x : RcvAct} (hx : x.forgets = false) (hp : Kept cfg p)
    (heff : Effect cfg x.pdus p.rcv (rcvStep cfg p.rcv x).1) (hsnd : q.snd = p.snd)
    (hwire : q.wire = p.wire) (hrcv : q.rcv = (rcvStep cfg p.rcv x).1)
    (hctrls : q.ctrls = p.ctrls ++ (rcvStep cfg p.rcv x).2) : Kept cfg q := by
  have hle := rcvStep_lwe_le hx hp.idle heff
  refine ⟨fun w hw => ?_, fun c hc => ?_, ?_, ?_, ?_⟩
  · rw [hsnd] at hw
    rcases hp.settled w hw with hw | hw
    · refine .inl (hw.trans ?_)
      rwa [hrcv]
    · refine .inr ?_
      rwa [hsnd]
  · rw [hrcv]
    rw [hctrls] at hc
    rcases List.mem_append.mp hc with hc | hc
    · exact (hp.acks c hc).trans hle
    · exact (rcvStep_stamped cfg p.rcv x c hc).1.le
  · rw [hsnd, hwire]
    exact hp.tries
  · rw [hsnd, hwire]
    exact hp.given
  · rw [hrcv]
    exact heff.idle hp.idle

end Kept

/-- A PDU within the receiver's left edge is of the data run, or came before it. -/
theorem written_passed {cfg : Config} {n : ℕ} {p : Peers} {w : Pdu} (hrtx : cfg.rtxCtrl = true)
    (hgap : cfg.maxSduGap = 0) (hp : Delivered cfg n p)
    (hidle : p.rcv.drfRequired = true → p.rcv.lwe = 0) (hw : w ∈ p.snd.written)
    (hle : w.seq ≤ p.rcv.lwe) :
    w ∈ p.rcv.passed ∨ ∃ f, p.rcv.passed.head? = some f ∧ w.seq < f.seq := by
  have hpos := (hp.snd.numbered.bounds hw).1
  have hdrf : p.rcv.drfRequired = false := by
    refine Bool.eq_false_iff.mpr fun hd => ?_
    have := hidle hd
    omega
  obtain ⟨l, hl, hlast⟩ := hp.rcv.last hdrf
  have hmem := hp.passed _ (List.mem_append_right _ List.mem_cons_self)
  cases hpassed : p.rcv.passed with
  | nil =>
    rw [hpassed] at hl
    exact absurd hl.symm (Option.some_ne_none l)
  | cons f ps =>
    rcases Nat.lt_or_ge w.seq f.seq with hlt | hge
    · exact .inr ⟨f, rfl, hlt⟩
    · refine .inl ?_
      rw [hpassed] at hl hmem
      have hfirst := (hp.snd.numbered.bounds (hmem f List.mem_cons_self)).1
      have horder := hp.rcv.passed
      rw [hpassed] at horder
      have hfrom : From Pdu.seq (f.seq - 1) (f :: ps) := by
        refine horder.consecutive hrtx hgap fun r hr => ?_
        cases hr
        omega
      have hend := (hfrom.bounds (List.mem_of_getLast? hl)).2
      obtain ⟨v, hv, hseq⟩ := hfrom.exists_key (k := w.seq) (by omega) (by omega)
      exact hp.snd.numbered.key_inj (hmem v hv) hw hseq ▸ hv

/-- Reliable connections with no gap allowed, until an inactivity timer fires: every PDU that was
written has been handed over, waits for the window, waits for its acknowledgement or was given up
after it had been sent `data_retransmit_max` times, or `to_post` did not take it, or its number is
below that of the first PDU that came: since each PDU has the flag, the first to come starts the
data run, and those before it are lost. -/
theorem peersRun_kept (cfg : Config) (n : ℕ) (acts : List Act) (q : Peers)
    (hrtx : cfg.rtxCtrl = true) (hgap : cfg.maxSduGap = 0)
    (hroom : n + (acts.flatMap Act.sdus).length < 4294967296)
    (hacts : ∀ a ∈ acts, a.restarts = false ∧ a.forgets = false)
    (hrun : Lts.run (peersStep cfg) (Peers.init cfg n) acts = some q) :
    ∀ w ∈ q.snd.written, w ∈ q.rcv.posted ∨ w ∈ q.snd.cwq ∨ (∃ e ∈ q.snd.rtxq, e.pdu = w) ∨
      (w ∈ q.snd.dropped ∧ cfg.dataRetransmitMax ≤ q.wire.count w) ∨ w ∈ q.rcv.unposted ∨
      ∃ f, q.rcv.passed.head? = some f ∧ w.seq < f.seq := by
  have hstep : ∀ p a r, Delivered cfg n p →
      p.snd.seqNrToSend ≤ n + (acts.flatMap Act.sdus).length → Kept cfg p →
      a.forgets = false → PeersEffect cfg p a r → Kept cfg r := by
    intro p a r hp hnext hk ha heff
    cases heff with
    | flow now ack new out h hnew hdata hack hedge hwire hrcv hctrls =>
      exact kept_flow hrtx hk h hack hwire hrcv hctrls
    | again tr now hsdus hsnd hwire hrcv hctrls => exact kept_again hk hsnd hwire hrcv hctrls
    | rcv x hsdus hsrc hforgets hmeets hsnd hwire hrcv hctrls =>
      have hfits := hp.fits (by omega) hsrc
      exact kept_rcv (hforgets.trans ha) hk (rcvStep_effect (.inl hrtx) hp.rcv.bounded hfits) hsnd
        hwire hrcv hctrls
  obtain ⟨hd, hk, -⟩ := peersRun_invariant (Kept cfg) (fun a => a.forgets = false) (.inl hrtx)
    (by omega) (kept_init cfg n) hstep hacts hrun
  intro w hw
  rcases hk.settled w hw with hle | hcwq | hrtxq | hdropped
  · rcases written_passed hrtx hgap hd hk.idle hw hle with h | h
    · rcases hd.sifted.kept w h with h | h
      · exact .inl h
      · exact .inr (.inr (.inr (.inr (.inl h))))
    · exact .inr (.inr (.inr (.inr (.inr h))))
  · exact .inr (.inl hcwq)
  · exact .inr (.inr (.inl hrtxq))
  · exact .inr (.inr (.inr (.inl ⟨hdropped, hk.given w hdropped⟩)))

theorem lateFirst_kept :
    (lateFirstPeers.snd.rtxq = [] ∧ lateFirstPeers.snd.cwq = [] ∧
      lateFirstPeers.rcv.posted.map Pdu.seq = [101, 102]) ∧
    ∀ w ∈ lateFirstPeers.snd.written, w ∈ lateFirstPeers.rcv.posted ∨ w ∈ lateFirstPeers.snd.cwq ∨
      (∃ e ∈ lateFirstPeers.snd.rtxq, e.pdu = w) ∨
      (w ∈ lateFirstPeers.snd.dropped ∧ reliable.dataRetransmitMax ≤ lateFirstPeers.wire.count w) ∨
      w ∈ lateFirstPeers.rcv.unposted ∨
      ∃ f, lateFirstPeers.rcv.passed.head? = some f ∧ w.seq < f.seq :=
  ⟨by decide +kernel, peersRun_kept reliable 99 lateFirst lateFirstPeers rfl rfl (by decide)
    (by decide) lateFirst_run⟩

end PepDna.Rina.Efcp
