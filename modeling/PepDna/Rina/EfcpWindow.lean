import PepDna.Rina.EfcpPeers

/-!
# The window across the network

What the sender may send is what the receiver has credit for, whatever control PDUs are lost, late
or repeated, as long as no rendezvous PDU takes credit back. And the other way round: where the
window reopens only by a control PDU that is not sent again, the sender may wait for good.
-/

open PepDna.Numbering (From)

namespace PepDna.Rina.Efcp

/-! ### The receiver's right edge -/

theorem expire_lwe_of_nil {cfg : Config} {now lwe : ℕ} {q : List Entry}
    (h : (expire cfg now lwe q).post = []) : (expire cfg now lwe q).lwe = lwe := by
  induction q with
  | nil => rfl
  | cons e q ih =>
    unfold expire at h ⊢
    dsimp only at h ⊢
    split at h
    · next hout =>
      rw [if_pos hout]
      split at h
      · next hdrop =>
        rw [if_pos hdrop]
        exact ih h
      · exact absurd h (List.cons_ne_nil _ _)
    · next hout =>
      rw [if_neg hout]

/-- What `dtcp_sv_update` does to the right edge. -/
theorem dtcpSvUpdate_rwe {cfg : Config} (hwin : cfg.windowBased = true) (r : Rcv) :
    (dtcpSvUpdate cfg r).1.rwe = u32 ((dtcpSvUpdate cfg r).1.lwe + cfg.initialCredit) ∧
      (dtcpSvUpdate cfg r).1.overrun = r.overrun := by
  unfold dtcpSvUpdate
  dsimp only
  rw [hwin, if_pos rfl]
  split
  · unfold rcvrAck
    split
    · exact ⟨rfl, rfl⟩
    · exact ⟨rfl, rfl⟩
  · exact ⟨rfl, rfl⟩

/-- A step leaves the edges as they are, or the right edge is the credit from the left one on. -/
def Moves (cfg : Config) (r r' : Rcv) : Prop :=
  (r'.lwe = r.lwe ∧ r'.rwe = r.rwe ∧ r'.drfRequired = r.drfRequired) ∨
    r'.rwe = u32 (r'.lwe + cfg.initialCredit)

/-- A step that brings no PDU beyond the right edge drops none. -/
theorem rcvStep_moves {cfg : Config} {r : Rcv} {x : RcvAct} (hwin : cfg.windowBased = true)
    (hforgets : x.forgets = false) (hmeets : x.meets = false)
    (hwithin : r.drfRequired = false → ∀ du ∈ x.pdus, du.seq ≤ r.rwe) :
    Moves cfg r (rcvStep cfg r x).1 ∧ (rcvStep cfg r x).1.overrun = r.overrun := by
  have hstill (s : Rcv) (hl : s.lwe = r.lwe) (hw : s.rwe = r.rwe)
      (hd : s.drfRequired = r.drfRequired) (ho : s.overrun = r.overrun) :
      Moves cfg r s ∧ s.overrun = r.overrun := ⟨.inl ⟨hl, hw, hd⟩, ho⟩
  have hupdate (s : Rcv) (hs : s.overrun = r.overrun) :
      Moves cfg r (dtcpSvUpdate cfg s).1 ∧ (dtcpSvUpdate cfg s).1.overrun = r.overrun :=
    ⟨.inr (dtcpSvUpdate_rwe hwin s).1, (dtcpSvUpdate_rwe hwin s).2.trans hs⟩
  have h := rcvStep_handled cfg r x
  generalize rcvStep cfg r x = y at h ⊢
  cases h with
  | started du now hd =>
    exact hupdate { r with drfRequired := false, lwe := du.seq, seqq := [] } rfl
  | overrun du now hd hover =>
    have hle := hwithin hd du List.mem_cons_self
    unfold isFcOverrun at hover
    rw [decide_eq_false (Nat.not_lt.mpr hle), Bool.and_false] at hover
    exact absurd hover Bool.false_ne_true
  | direct du now hd hgt hover ha =>
    refine hupdate _ ?_
    split <;> rfl
  | sequenced du now hd hgt hover ha =>
    refine hupdate _ ?_
    unfold Rcv.takeIn sequence
    dsimp only
    split <;> rfl
  | kept now hpost => exact hstill (r.take _) (expire_lwe_of_nil hpost) rfl rfl rfl
  | expired now => exact hupdate (r.take _) rfl
  | forgot => exact absurd hforgets.symm Bool.false_ne_true
  | met c hnew rwe => exact absurd hmeets.symm Bool.false_ne_true
  | asked hrv => exact hstill (r.ctrl .fc).1 rfl rfl rfl rfl
  | refused | ignored => exact hstill r rfl rfl rfl rfl

/-! ### The room in the ring -/

/-- What waits in the sequencing queue is within the credit from the left edge on, and `to_post` has
taken every PDU. -/
structure WithinCredit (cfg : Config) (r : Rcv) : Prop where
  edge : r.rwe ≤ r.lwe + cfg.initialCredit
  queue : ∀ e ∈ r.seqq, e.pdu.seq ≤ r.lwe + cfg.initialCredit
  taken : r.unposted = []

theorem Follows.length_le {cfg : Config} {l l' : ℕ} {ps : List Pdu} (h : Follows cfg l ps l') :
    l + ps.length ≤ l' := by
  induction ps generalizing l with
  | nil => exact Nat.le_of_eq h
  | cons p ps ih =>
    have := ih h.2
    have := h.1.1
    rw [List.length_cons]
    omega

/-- The numbers posted are beyond the left edge and increase, so that they are not more than there
is room for. -/
theorem takeIn_within {cfg : Config} {r : Rcv} {t : Taken} {room bound : ℕ}
    (h : Advance cfg [] r t.post (r.takeIn room t)) (hq : ∀ e ∈ r.seqq, e.pdu.seq ≤ bound)
    (hbound : r.lwe ≤ bound) (hroom : bound ≤ r.lwe + room) (hnone : r.unposted = []) :
    (∀ e ∈ (r.takeIn room t).seqq, e.pdu.seq ≤ bound) ∧ (r.takeIn room t).unposted = [] := by
  refine ⟨fun e he => ?_, ?_⟩
  · rcases h.queue e he with he | ⟨hsrc, -⟩
    · exact hq e he
    · exact absurd hsrc List.not_mem_nil
  · have hend : t.lwe ≤ bound := by
      rcases h.follows.edge with heq | ⟨p, hp, heq⟩
      · exact heq.le.trans hbound
      · rcases h.source p hp with hsrc | ⟨e, he, rfl⟩
        · exact absurd hsrc List.not_mem_nil
        · exact heq.symm.le.trans (hq e he)
    have hlen := h.follows.length_le
    have hdrop : t.post.drop room = [] := by
      refine List.drop_eq_nil_of_le ?_
      change r.lwe + t.post.length ≤ t.lwe at hlen
      omega
    exact List.append_eq_nil_iff.mpr ⟨hnone, hdrop⟩

section WithinCredit

variable {cfg : Config} {r : Rcv}

theorem update_within (hwin : cfg.windowBased = true)
    (hq : ∀ e ∈ r.seqq, e.pdu.seq ≤ r.lwe + cfg.initialCredit) (hnone : r.unposted = []) :
    WithinCredit cfg (dtcpSvUpdate cfg r).1 := by
  have hsame := dtcpSvUpdate_same cfg r
  refine ⟨?_, ?_, hsame.unposted.trans hnone⟩
  · rw [(dtcpSvUpdate_rwe hwin r).1]
    exact Nat.mod_le _ _
  · rw [hsame.seqq, hsame.lwe]
    exact hq

/-- The PDU itself takes a place of the ring where it moves the left edge. -/
theorem sequence_within {du : Pdu} (now : ℕ) (hcredit : cfg.initialCredit ≤ TO_POST_LENGTH)
    (hw : WithinCredit cfg r) (hgt : r.lwe < du.seq) (hle : du.seq ≤ r.lwe + cfg.initialCredit) :
    (sequence now r du).lwe ≤ r.lwe + cfg.initialCredit ∧
      r.lwe + cfg.initialCredit ≤ (sequence now r du).lwe +
        (if du.seq = u32 (r.lwe + 1) then TO_POST_LENGTH - 1 else TO_POST_LENGTH) ∧
      (sequence now r du).unposted = [] := by
  unfold sequence
  unfold TO_POST_LENGTH at hcredit ⊢
  split
  · refine ⟨hle, ?_, List.append_eq_nil_iff.mpr ⟨hw.taken, rfl⟩⟩
    change r.lwe + cfg.initialCredit ≤ du.seq + (1000 - 1)
    omega
  · exact ⟨Nat.le_add_right _ _, Nat.add_le_add_left hcredit _, hw.taken⟩

theorem receiveSequenced_within {du : Pdu} (now : ℕ) (hwin : cfg.windowBased = true)
    (hcredit : cfg.initialCredit ≤ TO_POST_LENGTH) (hr : Bounded cfg r) (hw : WithinCredit cfg r)
    (hd : r.drfRequired = false) (ha : cfg.a ≠ 0) (hgt : r.lwe < du.seq)
    (hdu : du.seq + cfg.maxSduGap < 4294967296) (hover : isFcOverrun cfg r du = false) :
    WithinCredit cfg (receiveSequenced cfg now r du).1 := by
  have hle : du.seq ≤ r.lwe + cfg.initialCredit := by
    unfold isFcOverrun at hover
    rw [hwin, Bool.true_and, decide_eq_false_iff_not] at hover
    exact (Nat.le_of_not_lt hover).trans hw.edge
  obtain ⟨ps, hseq⟩ := sequence_advance cfg now hgt
  have hb := sequence_bounded now hr hgt hdu hd ha
  have hq : ∀ e ∈ (sequence now r du).seqq, e.pdu.seq ≤ r.lwe + cfg.initialCredit := by
    intro e he
    rcases hseq.queue e he with he | ⟨hsrc, -⟩
    · exact hw.queue e he
    · exact List.mem_singleton.mp hsrc ▸ hle
  obtain ⟨hend, hroom, hnone⟩ := sequence_within now hcredit hw hgt hle
  have htake := takeIn_within (popRun_advance hb _) hq hend hroom hnone
  refine update_within hwin (fun e he => (htake.1 e he).trans ?_) htake.2
  have hedge := hseq.follows.le
  have hpop := (popRun_follows cfg hb.edge hb.queue).le
  exact Nat.add_le_add_right (hedge.trans hpop) _

theorem within_step {x : RcvAct} (hwin : cfg.windowBased = true)
    (hcredit : cfg.initialCredit ≤ TO_POST_LENGTH) (hord : cfg.rtxCtrl = true ∨ cfg.a = 0)
    (hr : Bounded cfg r) (hw : WithinCredit cfg r) (hfits : x.Fits cfg) (hmeets : x.meets = false) :
    WithinCredit cfg (rcvStep cfg r x).1 := by
  have hnil (P : Entry → Prop) : ∀ e ∈ ([] : List Entry), P e :=
    fun e he => absurd he List.not_mem_nil
  have hgrow (now : ℕ) : r.lwe + cfg.initialCredit ≤
      (expire cfg now r.lwe r.seqq).lwe + cfg.initialCredit :=
    Nat.add_le_add_right (expire_advance now hord hr).follows.le _
  have hexp (now : ℕ) := takeIn_within (expire_advance now hord hr) hw.queue
    (Nat.le_add_right _ _) (Nat.add_le_add_left hcredit _) hw.taken
  have h := rcvStep_handled cfg r x
  generalize rcvStep cfg r x = y at h ⊢
  cases h with
  | started du now hd =>
    have h := update_within (r := { r with drfRequired := false, lwe := du.seq, seqq := [] }) hwin
      (hnil _) hw.taken
    exact ⟨h.edge, h.queue, h.taken⟩
  | direct du now hd hgt hover ha =>
    unfold receiveNow
    dsimp only
    split
    · refine update_within hwin ?_ (List.append_eq_nil_iff.mpr ⟨hw.taken, rfl⟩)
      exact fun e he => absurd ((hr.direct ha) ▸ he) List.not_mem_nil
    · exact update_within hwin hw.queue hw.taken
  | sequenced du now hd hgt hover ha =>
    exact receiveSequenced_within now hwin hcredit ⟨hr.edge, hr.queue, hr.flushed, hr.direct⟩
      ⟨hw.edge, hw.queue, hw.taken⟩ hd ha hgt (hfits du List.mem_cons_self) hover
  | kept now hpost =>
    refine ⟨hw.edge.trans (hgrow now), fun e he => ?_, (hexp now).2⟩
    exact ((hexp now).1 e he).trans (hgrow now)
  | expired now =>
    refine update_within hwin (fun e he => ?_) (hexp now).2
    exact ((hexp now).1 e he).trans (hgrow now)
  | forgot => exact ⟨Nat.zero_le _, hnil _, hw.taken⟩
  | met c hnew rwe => exact absurd hmeets.symm Bool.false_ne_true
  | refused | overrun | ignored | asked => exact ⟨hw.edge, hw.queue, hw.taken⟩

end WithinCredit

/-- Window based flow control with credit for at most as many PDUs as `to_post` has places: unless a
rendezvous PDU moves the window, every PDU that the left edge passes is handed over. -/
theorem rcvRun_all_posted (cfg : Config) (acts : List RcvAct) (hwin : cfg.windowBased = true)
    (hcredit : cfg.initialCredit ≤ TO_POST_LENGTH) (hord : cfg.rtxCtrl = true ∨ cfg.a = 0)
    (hgap : cfg.maxSduGap < 4294967296)
    (hacts : ∀ a ∈ acts, a.Fits cfg ∧ a.meets = false) :
    (rcvRun cfg acts).handedOver = (rcvRun cfg acts).passedRuns ++ [(rcvRun cfg acts).passed] := by
  have hinit : Ordered cfg (Rcv.init cfg) ∧ WithinCredit cfg (Rcv.init cfg) := by
    refine ⟨ordered_init cfg hgap, ?_, fun e he => absurd he List.not_mem_nil, rfl⟩
    unfold Rcv.init
    rw [hwin, if_pos rfl]
    exact Nat.le_add_left _ _
  have h := @rcvRun_invariant cfg (fun r => Ordered cfg r ∧ WithinCredit cfg r) _ hinit
    (fun r a hr ha => ⟨ordered_step hord hr.1 hgap ha.1,
      within_step hwin hcredit hord hr.1.bounded hr.2 ha.1 ha.2⟩) _ hacts
  exact (rcvRun_sifted cfg acts).all_posted h.2.taken

theorem early_all_posted :
    (rcvRun reliable early).passed = [pdu 1, pdu 2, pdu 3, pdu 4] ∧
      (rcvRun reliable early).handedOver =
        (rcvRun reliable early).passedRuns ++ [(rcvRun reliable early).passed] :=
  ⟨by decide +kernel,
    rcvRun_all_posted reliable early rfl (by decide) (.inl rfl) (by decide) (by decide)⟩

/-! ### The credit -/

/-- What the receiver has credit for, or will have from the first PDU on. -/
def Peers.limit (cfg : Config) (n : ℕ) (p : Peers) : ℕ :=
  if p.rcv.drfRequired then n + cfg.initialCredit else p.rcv.rwe

structure Credited (cfg : Config) (n : ℕ) (p : Peers) : Prop where
  run : p.rcv.drfRequired = false → p.rcv.rwe = p.rcv.lwe + cfg.initialCredit ∧ n < p.rcv.lwe
  idle : p.rcv.drfRequired = true → p.rcv.lwe = 0
  edge : p.rcv.rwe ≤ p.limit cfg n
  ctrls : ∀ c ∈ p.ctrls, c.newRt ≤ p.limit cfg n
  window : p.snd.sndRtWindEdge ≤ p.limit cfg n
  sent : p.snd.maxSeqNrSent ≤ p.limit cfg n
  wire : ∀ du ∈ p.wire, du.seq ≤ p.snd.maxSeqNrSent
  none : p.rcv.overrun = []

theorem credited_init {cfg : Config} (n : ℕ) (hwin : cfg.windowBased = true) :
    Credited cfg n (Peers.init cfg n) := by
  have hlimit : (Peers.init cfg n).limit cfg n = n + cfg.initialCredit := rfl
  refine ⟨fun h => absurd h.symm Bool.false_ne_true, fun _ => rfl, ?_,
    fun _ h => absurd h List.not_mem_nil, ?_, Nat.le_add_right _ _,
    fun _ h => absurd h List.not_mem_nil, rfl⟩
  · rw [hlimit]
    unfold Peers.init Rcv.init
    dsimp only
    rw [hwin, if_pos rfl]
    exact Nat.le_add_left _ _
  · rw [hlimit]
    unfold Peers.init Snd.init
    dsimp only
    rw [hwin, if_pos rfl, Nat.add_comm n]
    exact Nat.mod_le _ _

section Credited

variable {cfg : Config} {n : ℕ} {p q : Peers}

theorem limit_of_rcv (cfg : Config) (n : ℕ) (hrcv : q.rcv = p.rcv) :
    q.limit cfg n = p.limit cfg n := by
  unfold Peers.limit
  rw [hrcv]

theorem credited_flow {now ack : ℕ} {new out : List Pdu} (hwin : cfg.windowBased = true)
    (hs : Windowed cfg n p.snd) (hp : Credited cfg n p) (h : Flow cfg now p.snd new ack q.snd out)
    (hnew : From Pdu.seq p.snd.seqNrToSend new)
    (hedge : q.snd.sndRtWindEdge = p.snd.sndRtWindEdge ∨
      ∃ c ∈ p.ctrls, q.snd.sndRtWindEdge = c.newRt)
    (hwire : q.wire = p.wire ++ out) (hrcv : q.rcv = p.rcv) (hctrls : q.ctrls = p.ctrls) :
    Credited cfg n q := by
  have hlimit := limit_of_rcv cfg n hrcv
  have hwindow : q.snd.sndRtWindEdge ≤ p.limit cfg n := by
    rcases hedge with h | ⟨c, hc, h⟩
    · rw [h]
      exact hp.window
    · rw [h]
      exact hp.ctrls c hc
  refine ⟨hrcv ▸ hp.run, hrcv ▸ hp.idle, ?_, ?_, ?_, ?_, ?_, hrcv ▸ hp.none⟩
  · rw [hlimit, hrcv]
    exact hp.edge
  · rw [hlimit, hctrls]
    exact hp.ctrls
  · rw [hlimit]
    exact hwindow
  · rw [hlimit]
    by_cases hout : out = []
    · rw [h.sent, hout]
      exact hp.sent
    · exact (h.edge hout hwin).trans hwindow
  · intro du hdu
    rw [hwire] at hdu
    rcases List.mem_append.mp hdu with hdu | hdu
    · rw [h.sent]
      exact (hp.wire du hdu).trans (Nat.le_add_right _ _)
    · rw [h.sent]
      exact ((h.ahead hs hnew).1.bounds hdu).2

theorem credited_again {tr now : ℕ} (hs : Windowed cfg n p.snd) (hp : Credited cfg n p)
    (hsnd : q.snd = (rtxTimer cfg tr now p.snd).1)
    (hwire : q.wire = p.wire ++ (rtxTimer cfg tr now p.snd).2) (hrcv : q.rcv = p.rcv)
    (hctrls : q.ctrls = p.ctrls) : Credited cfg n q := by
  obtain ⟨lost, h, -, -, -, -, hmax, hedge⟩ := rtxTimer_again cfg tr now p.snd
  rw [← hsnd] at hmax hedge
  have hlimit := limit_of_rcv cfg n hrcv
  refine ⟨hrcv ▸ hp.run, hrcv ▸ hp.idle, ?_, ?_, ?_, ?_, ?_, hrcv ▸ hp.none⟩
  · rw [hlimit, hrcv]
    exact hp.edge
  · rw [hlimit, hctrls]
    exact hp.ctrls
  · rw [hlimit, hedge]
    exact hp.window
  · rw [hlimit, hmax]
    exact hp.sent
  · intro du hdu
    rw [hmax]
    rw [hwire] at hdu
    rcases List.mem_append.mp hdu with hdu | hdu
    · exact hp.wire du hdu
    · obtain ⟨e, he, rfl⟩ := h.source du hdu
      exact (hs.copies e he).2

/-- The left edge of a data run is a number in use. -/
theorem Delivered.lwe_le (hp : Delivered cfg n p) (hd : p.rcv.drfRequired = false) :
    n < p.rcv.lwe ∧ p.rcv.lwe ≤ p.snd.seqNrToSend := by
  obtain ⟨l, hl, hlast⟩ := hp.rcv.last hd
  have hmem := hp.passed _ (List.mem_append_right _ List.mem_cons_self) l (List.mem_of_getLast? hl)
  have := hp.snd.numbered.bounds hmem
  have := hp.snd.next
  omega

/-- The limit does not shrink where the left edge does not go back. -/
theorem limit_grows (hp : Credited cfg n p) (hmoves : Moves cfg p.rcv q.rcv)
    (hlwe : p.rcv.lwe ≤ q.rcv.lwe) (hidle : q.rcv.drfRequired = true → q.rcv.lwe = 0)
    (hstays : p.rcv.drfRequired = false → q.rcv.drfRequired = false)
    (hrun : q.rcv.drfRequired = false →
      q.rcv.rwe = q.rcv.lwe + cfg.initialCredit ∧ n < q.rcv.lwe) :
    p.limit cfg n ≤ q.limit cfg n ∧ q.rcv.rwe ≤ q.limit cfg n := by
  have hmod : u32 (q.rcv.lwe + cfg.initialCredit) ≤ q.rcv.lwe + cfg.initialCredit :=
    Nat.mod_le _ _
  unfold Peers.limit
  cases hd : q.rcv.drfRequired with
  | false =>
    rw [if_neg Bool.false_ne_true]
    refine ⟨?_, Nat.le_refl _⟩
    obtain ⟨hrwe, hn⟩ := hrun hd
    split
    · omega
    · next hd' =>
      have := (hp.run (Bool.eq_false_iff.mpr hd')).1
      omega
  | true =>
    have hd' : p.rcv.drfRequired = true := by
      by_contra hne
      exact absurd ((hstays (Bool.eq_false_iff.mpr hne)).symm.trans hd) Bool.false_ne_true
    have hedge := hp.edge
    unfold Peers.limit at hedge
    rw [hd', if_pos rfl] at hedge
    rw [hd', if_pos rfl, if_pos rfl]
    refine ⟨Nat.le_refl _, ?_⟩
    rcases hmoves with ⟨-, hr, -⟩ | hr
    · rw [hr]
      exact hedge
    · have := hidle hd
      omega

theorem credited_rcv {x : RcvAct} (hwin : cfg.windowBased = true)
    (hroom : q.snd.seqNrToSend + cfg.initialCredit < 4294967296) (hq : Delivered cfg n q)
    (hp : Credited cfg n p) (heff : Effect cfg x.pdus p.rcv (rcvStep cfg p.rcv x).1)
    (hsrc : ∀ du ∈ x.pdus, du ∈ p.wire) (hforgets : x.forgets = false) (hmeets : x.meets = false)
    (hsnd : q.snd = p.snd) (hwire : q.wire = p.wire) (hrcv : q.rcv = (rcvStep cfg p.rcv x).1)
    (hctrls : q.ctrls = p.ctrls ++ (rcvStep cfg p.rcv x).2) : Credited cfg n q := by
  have hwithin : p.rcv.drfRequired = false → ∀ du ∈ x.pdus, du.seq ≤ p.rcv.rwe := by
    intro hd du hdu
    have hlimit : p.limit cfg n = p.rcv.rwe := by
      unfold Peers.limit
      rw [if_neg (Bool.eq_false_iff.mp hd)]
    exact ((hp.wire du (hsrc du hdu)).trans hp.sent).trans_eq hlimit
  obtain ⟨hmoves, hover⟩ := rcvStep_moves hwin hforgets hmeets hwithin
  have hlwe := rcvStep_lwe_le hforgets hp.idle heff
  have hidle := heff.idle hp.idle
  have hstays := @rcvStep_stays cfg p.rcv x hforgets
  rw [← hrcv] at hmoves hover hlwe hidle hstays
  -- where a data run has started the right edge is the credit from the left edge on
  have hrun : q.rcv.drfRequired = false →
      q.rcv.rwe = q.rcv.lwe + cfg.initialCredit ∧ n < q.rcv.lwe := by
    intro hd
    have hin := hq.lwe_le hd
    refine ⟨?_, hin.1⟩
    rcases hmoves with ⟨hl, hr, hd'⟩ | hr
    · rw [hl, hr]
      exact (hp.run (hd'.symm.trans hd)).1
    · rw [hr]
      exact Nat.mod_eq_of_lt (by omega)
  have hgrow := limit_grows hp hmoves hlwe hidle hstays hrun
  refine ⟨hrun, hidle, hgrow.2, fun c hc => ?_, ?_, ?_, ?_, hover.trans hp.none⟩
  · rw [hctrls] at hc
    rcases List.mem_append.mp hc with hc | hc
    · exact (hp.ctrls c hc).trans hgrow.1
    · refine Nat.le_trans (Nat.le_of_eq ?_) hgrow.2
      rw [hrcv]
      exact (rcvStep_stamped cfg p.rcv x c hc).2
  · rw [hsnd]
    exact hp.window.trans hgrow.1
  · rw [hsnd]
    exact hp.sent.trans hgrow.1
  · rw [hwire, hsnd]
    exact hp.wire

end Credited

/-- Window based flow control without rendezvous PDUs, with retransmission control or without an A
timer, until an inactivity timer fires: the sender keeps within the receiver's credit and the
receiver never drops a PDU for it. -/
theorem peersRun_no_overrun (cfg : Config) (n : ℕ) (acts : List Act) (q : Peers)
    (hord : cfg.rtxCtrl = true ∨ cfg.a = 0) (hwin : cfg.windowBased = true)
    (hroom : n + (acts.flatMap Act.sdus).length + cfg.maxSduGap + cfg.initialCredit < 4294967296)
    (hacts : ∀ a ∈ acts, a.restarts = false ∧ a.forgets = false ∧ a.meets = false)
    (hrun : Lts.run (peersStep cfg) (Peers.init cfg n) acts = some q) :
    q.rcv.overrun = [] ∧ (q.rcv.drfRequired = false →
      ∀ du ∈ q.wire, du.seq ≤ q.rcv.lwe + cfg.initialCredit) := by
  have hstep : ∀ p a r, Delivered cfg n p →
      p.snd.seqNrToSend ≤ n + (acts.flatMap Act.sdus).length → Credited cfg n p →
      a.forgets = false ∧ a.meets = false → PeersEffect cfg p a r → Credited cfg n r := by
    rintro p a r hp hnext hc ⟨hforgets', hmeets'⟩ heff
    have hr := delivered_step hord hp (by omega) heff
    cases heff with
    | flow now ack new out h hnew hdata hack hedge hwire hrcv hctrls =>
      exact credited_flow hwin hp.snd hc h hnew hedge hwire hrcv hctrls
    | again tr now hsdus hsnd hwire hrcv hctrls =>
      exact credited_again hp.snd hc hsnd hwire hrcv hctrls
    | rcv x hsdus hsrc hforgets hmeets hsnd hwire hrcv hctrls =>
      have hfits := hp.fits (by omega) hsrc
      have hroom' : r.snd.seqNrToSend + cfg.initialCredit < 4294967296 := by
        rw [hsnd]
        omega
      exact credited_rcv hwin hroom' hr hc (rcvStep_effect hord hp.rcv.bounded hfits) hsrc
        (hforgets.trans hforgets') (hmeets.trans hmeets') hsnd hwire hrcv hctrls
  obtain ⟨-, hc, -⟩ := peersRun_invariant (Credited cfg n)
    (fun a => a.forgets = false ∧ a.meets = false) hord (by omega) (credited_init n hwin) hstep
    hacts hrun
  refine ⟨hc.none, fun hd du hdu => ?_⟩
  have hsent := hc.sent
  unfold Peers.limit at hsent
  rw [if_neg (Bool.eq_false_iff.mp hd), (hc.run hd).1] at hsent
  exact (hc.wire du hdu).trans hsent

/-- A connection with credit for one PDU, which is sent once and not again. -/
def narrow : Config := { reliable with initialCredit := 1, dataRetransmitMax := 1 }

/-- The second PDU waits until the first is acknowledged, and is sent then. -/
def oneByOne : List Act :=
  [.write [1] 0, .write [2] 0, .data 0 5, .ctrl 0 7, .data 1 8, .data 0 9]

def oneByOnePeers : Peers :=
  (Lts.run (peersStep narrow) (Peers.init narrow 99) oneByOne).getD (Peers.init narrow 99)

theorem oneByOne_no_overrun :
    (oneByOnePeers.wire.map Pdu.seq = [100, 101] ∧
      oneByOnePeers.rcv.posted.map Pdu.seq = [100, 101]) ∧
    (oneByOnePeers.rcv.overrun = [] ∧ (oneByOnePeers.rcv.drfRequired = false →
      ∀ du ∈ oneByOnePeers.wire, du.seq ≤ oneByOnePeers.rcv.lwe + narrow.initialCredit)) :=
  ⟨by decide +kernel, peersRun_no_overrun narrow 99 oneByOne oneByOnePeers (.inl rfl) rfl
    (by decide) (by decide) (Lts.run_getD _ _ _ (by decide +kernel))⟩

/-! ### Waiting for good -/

/-- Nothing is left that could make the sender send: no copy to send again, no rendezvous at either
end, and neither a flow control PDU nor a rendezvous PDU that would still be heeded. -/
structure Stalled (p : Peers) : Prop where
  rtxq : p.snd.rtxq = []
  snd : p.snd.rendezvous = false
  rcv : p.rcv.rendezvous = false
  ctrls : ∀ c ∈ p.ctrls, c.acks = true ∨ c.sn ≤ p.snd.lastCtl
  rvs : ∀ c ∈ p.rvs, c.sn ≤ p.rcv.lastCtl

/-- The receiver's step without a rendezvous. -/
structure Plain (r : Rcv) (x : Rcv × List Ctrl) : Prop where
  rendezvous : r.rendezvous = false → x.1.rendezvous = false
  lastCtl : x.1.lastCtl = r.lastCtl
  acks : r.rendezvous = false → ∀ c ∈ x.2, c.acks = true

theorem plain_self (r : Rcv) : Plain r (r, []) :=
  ⟨id, rfl, fun _ _ hc => absurd hc List.not_mem_nil⟩

theorem rcvrAck_plain (cfg : Config) (r : Rcv) : Plain r (rcvrAck cfg r) := by
  unfold rcvrAck
  split
  · refine ⟨id, rfl, fun _ c hc => ?_⟩
    rw [List.mem_singleton.mp hc]
    cases cfg.windowBased <;> rfl
  · exact plain_self r

theorem dtcpSvUpdate_plain {cfg : Config} (hrtx : cfg.rtxCtrl = true) {r s : Rcv}
    (hrv : r.rendezvous = false → s.rendezvous = false) (hctl : s.lastCtl = r.lastCtl) :
    Plain r (dtcpSvUpdate cfg s) := by
  unfold dtcpSvUpdate
  dsimp only
  rw [hrtx, if_pos rfl]
  generalize hs : (if cfg.windowBased then
    { s with rwe := u32 (s.lwe + cfg.initialCredit) } else s) = s'
  have hrv' : s'.rendezvous = s.rendezvous := by
    rw [← hs]
    split <;> rfl
  have hctl' : s'.lastCtl = s.lastCtl := by
    rw [← hs]
    split <;> rfl
  have h := rcvrAck_plain cfg s'
  rw [← hrv'] at hrv
  exact ⟨fun hr => h.rendezvous (hrv hr), h.lastCtl.trans (hctl'.trans hctl),
    fun hr => h.acks (hrv hr)⟩

theorem rcvStep_plain {cfg : Config} (hrtx : cfg.rtxCtrl = true) (r : Rcv) {x : RcvAct}
    (hx : x.meets = false) : Plain r (rcvStep cfg r x) := by
  have h := rcvStep_handled cfg r x
  generalize rcvStep cfg r x = y at h ⊢
  cases h with
  | started du now hd =>
    have h := @dtcpSvUpdate_plain cfg hrtx r
      { r with drfRequired := false, lwe := du.seq, seqq := [] } id rfl
    exact ⟨h.rendezvous, h.lastCtl, h.acks⟩
  | direct =>
    refine dtcpSvUpdate_plain hrtx ?_ ?_
    · split <;> exact fun _ => rfl
    · split <;> rfl
  | sequenced =>
    refine dtcpSvUpdate_plain hrtx ?_ ?_
    · unfold Rcv.takeIn sequence
      dsimp only
      split <;> exact fun _ => rfl
    · unfold Rcv.takeIn sequence
      dsimp only
      split <;> rfl
  | expired now => exact dtcpSvUpdate_plain hrtx id rfl
  | forgot => exact ⟨fun _ => rfl, rfl, fun _ _ hc => absurd hc List.not_mem_nil⟩
  | met c hnew rwe => exact absurd hx.symm Bool.false_ne_true
  | asked hrv => exact ⟨id, rfl, fun h => absurd (h.symm.trans hrv) Bool.false_ne_true⟩
  | refused | overrun | kept | ignored =>
    exact ⟨id, rfl, fun _ _ hc => absurd hc List.not_mem_nil⟩

/-- An action of the user. -/
def Act.writes : Act → Bool
  | .write _ _ => true
  | _ => false

theorem Stalled.answers {p : Peers} {x : Rcv × List Ctrl} (hp : Stalled p) (hx : Plain p.rcv x) :
    Stalled (p.answers x) ∧ (p.answers x).wire = p.wire := by
  refine ⟨⟨hp.rtxq, hp.snd, hx.rendezvous hp.rcv, ?_, ?_⟩, rfl⟩
  · intro c hc
    rcases List.mem_append.mp hc with hc | hc
    · exact hp.ctrls c hc
    · exact .inl (hx.acks hp.rcv c hc)
  · intro c hc
    exact (hp.rvs c hc).trans_eq hx.lastCtl.symm

/-- The sender's step that sends nothing. -/
structure Silent (s : Snd) (x : Snd × List Pdu) : Prop where
  out : x.2 = []
  rtxq : x.1.rtxq = []
  rendezvous : x.1.rendezvous = s.rendezvous
  lastCtl : s.lastCtl ≤ x.1.lastCtl

theorem rtxTimer_silent (cfg : Config) (tr now : ℕ) {s : Snd} (hq : s.rtxq = []) :
    Silent s (rtxTimer cfg tr now s) := by
  unfold rtxTimer
  rw [hq]
  exact ⟨rfl, rfl, rfl, Nat.le_refl _⟩

/-- An acknowledgement of what is no longer in the retransmission queue is ignored, with the window
edge it has. -/
theorem rcvControl_silent {cfg : Config} (hrtx : cfg.rtxCtrl = true) (now : ℕ) {s : Snd} {c : Ctrl}
    (hq : s.rtxq = []) (hc : c.acks = true ∨ c.sn ≤ s.lastCtl) :
    Silent s (rcvControl cfg now s c) := by
  have hfinds : (cfg.rtxCtrl && !rtxqFinds c.ack s.rtxq) = true := by
    rw [hrtx, hq]
    rfl
  unfold rcvControl
  dsimp only
  rw [hfinds]
  split
  · exact ⟨rfl, hq, rfl, Nat.le_refl _⟩
  · next hlt =>
    have hacks := of_decide_eq_true (hc.resolve_right hlt)
    have hle : s.lastCtl ≤ c.sn := Nat.le_of_lt (Nat.lt_of_not_le hlt)
    rcases hacks with htype | htype
    · rw [htype]
      exact ⟨rfl, hq, rfl, hle⟩
    · rw [htype]
      exact ⟨rfl, hq, rfl, hle⟩

theorem Stalled.sends {p : Peers} {x : Snd × List Pdu} (hp : Stalled p) (hx : Silent p.snd x) :
    Stalled (p.sends x) ∧ (p.sends x).wire = p.wire := by
  refine ⟨⟨hx.rtxq, hx.rendezvous.trans hp.snd, hp.rcv, ?_, hp.rvs⟩, ?_⟩
  · intro c hc
    exact (hp.ctrls c hc).imp_right fun hle => hle.trans hx.lastCtl
  · unfold Peers.sends
    rw [hx.out]
    exact List.append_nil _

theorem stalled_step {cfg : Config} (hrtx : cfg.rtxCtrl = true) {p q : Peers} {a : Act}
    (hp : Stalled p) (ha : a.writes = false) (h : peersStep cfg p a = some q) :
    Stalled q ∧ q.wire = p.wire := by
  cases a with
  | write data now => exact absurd ha.symm Bool.false_ne_true
  | rtx tr now =>
    cases h
    exact hp.sends (rtxTimer_silent cfg tr now hp.rtxq)
  | data i now =>
    obtain ⟨du, -, rfl⟩ := Option.map_eq_some_iff.mp h
    exact hp.answers (@rcvStep_plain cfg hrtx p.rcv (.receive du now) rfl)
  | ctrl i now =>
    obtain ⟨c, hc, rfl⟩ := Option.map_eq_some_iff.mp h
    exact hp.sends (rcvControl_silent hrtx now hp.rtxq (hp.ctrls c (List.mem_of_getElem? hc)))
  | a now =>
    cases h
    exact hp.answers (@rcvStep_plain cfg hrtx p.rcv (.a now) rfl)
  | rendezvousSnd =>
    cases h
    have hnone : rendezvousSnd p.snd = (p.snd, []) := by
      unfold rendezvousSnd
      rw [if_neg (Bool.eq_false_iff.mp hp.snd)]
    rw [hnone, List.append_nil]
    exact ⟨hp, rfl⟩
  | rendezvous i =>
    obtain ⟨c, hc, rfl⟩ := Option.map_eq_some_iff.mp h
    have hold : rcvrRendezvous cfg p.rcv c = (p.rcv, []) := by
      unfold rcvrRendezvous
      rw [if_pos (hp.rvs c (List.mem_of_getElem? hc))]
    rw [hold]
    exact hp.answers (plain_self p.rcv)
  | rendezvousRcv =>
    cases h
    exact hp.answers (@rcvStep_plain cfg hrtx p.rcv .rendezvousRcv rfl)
  | receiverInactivity =>
    cases h
    exact ⟨⟨hp.rtxq, hp.snd, rfl, hp.ctrls, hp.rvs⟩, rfl⟩
  | senderInactivity seq =>
    cases h
    refine ⟨⟨?_, rfl, hp.rcv, hp.ctrls, hp.rvs⟩, rfl⟩
    unfold senderInactivity
    rw [hrtx]
    rfl

/-- With retransmission control, once the copies are acknowledged or given up and nobody asks for a
rendezvous, only a new write makes the sender send again: whatever else happens, what waits in the
closed window queue stays unsent. -/
theorem peersRun_stalled (cfg : Config) (p q : Peers) (acts : List Act)
    (hrtx : cfg.rtxCtrl = true) (hp : Stalled p) (hacts : ∀ a ∈ acts, a.writes = false)
    (hrun : Lts.run (peersStep cfg) p acts = some q) : q.wire = p.wire := by
  have hstep : ∀ r a t, (Stalled r ∧ r.wire = p.wire) → a.writes = false →
      peersStep cfg r a = some t → Stalled t ∧ t.wire = p.wire := by
    rintro r a t ⟨hr, hwire⟩ ha ht
    obtain ⟨hr', hwire'⟩ := stalled_step hrtx hr ha ht
    exact ⟨hr', hwire'.trans hwire⟩
  exact (Lts.run_invariant_along (fun r => Stalled r ∧ r.wire = p.wire)
    (fun _ a => a.writes = false) hstep p q acts ⟨hp, rfl⟩ (Lts.along_of_forall _ p acts hacts)
    hrun).2

instance (p : Peers) : Decidable (Stalled p) :=
  decidable_of_iff (p.snd.rtxq = [] ∧ p.snd.rendezvous = false ∧ p.rcv.rendezvous = false ∧
      (∀ c ∈ p.ctrls, c.acks = true ∨ c.sn ≤ p.snd.lastCtl) ∧ ∀ c ∈ p.rvs, c.sn ≤ p.rcv.lastCtl)
    ⟨fun h => ⟨h.1, h.2.1, h.2.2.1, h.2.2.2.1, h.2.2.2.2⟩,
      fun h => ⟨h.rtxq, h.snd, h.rcv, h.ctrls, h.rvs⟩⟩

/-- Ten writes on a connection with credit for ten and one SDU in two fragments: all that is sent
comes across, and no acknowledgement comes back in time. -/
def unheard : List Act :=
  List.replicate 12 (.write [1] 0) ++ (List.range 10).map (.data · 5) ++
    List.replicate 5 (.rtx 1 1000)

def unheardPeers : Peers :=
  (Lts.run (peersStep reliable) (Peers.init reliable 99) unheard).getD (Peers.init reliable 99)

/-- The acknowledgement comes after all. -/
def tooLate : List Act := [.ctrl 9 2000, .rtx 1 3000, .rendezvousSnd, .data 0 3000]

theorem unheard_stalled :
    (unheardPeers.rcv.posted.map Pdu.seq = List.range' 100 10 ∧
      unheardPeers.snd.cwq.map Pdu.seq = [110, 111]) ∧
    ((Lts.run (peersStep reliable) unheardPeers tooLate).getD unheardPeers).wire =
      unheardPeers.wire :=
  ⟨by decide +kernel, peersRun_stalled reliable unheardPeers _ tooLate rfl (by decide +kernel)
    (by decide) (Lts.run_getD _ _ _ (by decide +kernel))⟩

end PepDna.Rina.Efcp
