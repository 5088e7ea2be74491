import Mathlib.Data.List.Chain
import PepDna.Rina.Efcp

/-!
# What the receiver hands over

The receiver alone, for whatever PDUs, timer events and rendezvous PDUs come, in whatever order.
-/

namespace PepDna.Rina.Efcp

inductive RcvAct where
  | receive (du : Pdu) (now : ℕ)
  | a (now : ℕ)
  | inactivity
  | rendezvous (c : Ctrl)
  | rendezvousRcv
  deriving Repr, DecidableEq

def rcvStep (cfg : Config) (r : Rcv) : RcvAct → Rcv × List Ctrl
  | .receive du now => dtpReceive cfg now r du
  | .a now => aTimer cfg now r
  | .inactivity => (receiverInactivity r, [])
  | .rendezvous c => rcvrRendezvous cfg r c
  | .rendezvousRcv => rendezvousRcv r

/-! ### What the control PDUs leave alone -/

/-- The state that DTP has, without the counters of DTCP. -/
structure SameDtp (r r' : Rcv) : Prop where
  lwe : r'.lwe = r.lwe
  drfRequired : r'.drfRequired = r.drfRequired
  seqq : r'.seqq = r.seqq
  passed : r'.passed = r.passed
  passedRuns : r'.passedRuns = r.passedRuns
  posted : r'.posted = r.posted
  runs : r'.runs = r.runs
  unposted : r'.unposted = r.unposted

theorem SameDtp.refl (r : Rcv) : SameDtp r r := ⟨rfl, rfl, rfl, rfl, rfl, rfl, rfl, rfl⟩

theorem SameDtp.trans {r s t : Rcv} (h : SameDtp r s) (h' : SameDtp s t) : SameDtp r t :=
  ⟨h'.lwe.trans h.lwe, h'.drfRequired.trans h.drfRequired, h'.seqq.trans h.seqq,
    h'.passed.trans h.passed, h'.passedRuns.trans h.passedRuns, h'.posted.trans h.posted,
    h'.runs.trans h.runs, h'.unposted.trans h.unposted⟩

theorem rcvrAck_same (cfg : Config) (r : Rcv) : SameDtp r (rcvrAck cfg r).1 := by
  unfold rcvrAck
  split
  · exact ⟨rfl, rfl, rfl, rfl, rfl, rfl, rfl, rfl⟩
  · exact SameDtp.refl r

theorem dtcpSvUpdate_same (cfg : Config) (r : Rcv) : SameDtp r (dtcpSvUpdate cfg r).1 := by
  have hflow : SameDtp r
      (if cfg.windowBased then { r with rwe := u32 (r.lwe + cfg.initialCredit) } else r) := by
    split
    · exact ⟨rfl, rfl, rfl, rfl, rfl, rfl, rfl, rfl⟩
    · exact SameDtp.refl r
  unfold dtcpSvUpdate
  dsimp only
  split
  · exact hflow.trans (rcvrAck_same cfg _)
  · split
    · exact ⟨rfl, rfl, rfl, rfl, rfl, rfl, rfl, rfl⟩
    · exact SameDtp.refl r

/-! ### What the walks over the queue take -/

/-- One PDU posted after another: beyond it and, with retransmission, by the allowed gap at most. -/
def After (cfg : Config) (l : ℕ) (p : Pdu) : Prop :=
  l < p.seq ∧ (cfg.rtxCtrl = true → p.seq ≤ l + cfg.maxSduGap + 1)

/-- `ps` posted from the left edge `l` on lead to the left edge `l'`. -/
def Follows (cfg : Config) : ℕ → List Pdu → ℕ → Prop
  | l, [], l' => l = l'
  | l, p :: ps, l' => After cfg l p ∧ Follows cfg p.seq ps l'

theorem follows_append {cfg : Config} {l l' l'' : ℕ} {ps qs : List Pdu} (h : Follows cfg l ps l')
    (h' : Follows cfg l' qs l'') : Follows cfg l (ps ++ qs) l'' := by
  induction ps generalizing l with
  | nil =>
    cases h
    exact h'
  | cons p ps ih => exact ⟨h.1, ih h.2⟩

/-- The numbers that come: none is `0`, and none can be passed by a gap around the end. -/
def Numbered (cfg : Config) (du : Pdu) : Prop := 0 < du.seq ∧ du.seq + cfg.maxSduGap < 4294967296

theorem popRun_follows (cfg : Config) {lwe : ℕ} {q : List Entry}
    (hl : lwe + cfg.maxSduGap < 4294967296) (hq : ∀ e ∈ q, Numbered cfg e.pdu) :
    Follows cfg lwe (popRun lwe q).post (popRun lwe q).lwe := by
  induction q generalizing lwe with
  | nil => rfl
  | cons e q ih =>
    have he := hq e List.mem_cons_self
    unfold popRun
    split
    · next heq =>
      have hnext : e.pdu.seq = lwe + 1 := by
        unfold u32 at heq
        have := he.1
        omega
      refine ⟨⟨by omega, fun _ => by omega⟩, ih he.2 fun e' he' => ?_⟩
      exact hq e' (List.mem_cons_of_mem _ he')
    · rfl

theorem popRun_mem (lwe : ℕ) (q : List Entry) :
    (∀ p ∈ (popRun lwe q).post, ∃ e ∈ q, e.pdu = p) ∧ ∀ e ∈ (popRun lwe q).rest, e ∈ q := by
  induction q generalizing lwe with
  | nil => exact ⟨fun p hp => absurd hp List.not_mem_nil, fun e he => he⟩
  | cons e q ih =>
    unfold popRun
    split
    · obtain ⟨hpost, hrest⟩ := ih e.pdu.seq
      refine ⟨fun p hp => ?_, fun e' he' => List.mem_cons_of_mem _ (hrest e' he')⟩
      rcases List.mem_cons.mp hp with rfl | hp
      · exact ⟨e, List.mem_cons_self, rfl⟩
      · obtain ⟨e', he', rfl⟩ := hpost p hp
        exact ⟨e', List.mem_cons_of_mem _ he', rfl⟩
    · exact ⟨fun p hp => absurd hp List.not_mem_nil, fun e' he' => he'⟩

theorem within_gap {cfg : Config} {lwe : ℕ} {du : Pdu} (hl : lwe + cfg.maxSduGap < 4294967296)
    (hdu : Numbered cfg du) (h : u32Sub (u32Sub du.seq lwe) 1 ≤ cfg.maxSduGap) :
    lwe < du.seq ∧ du.seq ≤ lwe + cfg.maxSduGap + 1 := by
  obtain ⟨hpos, hdu⟩ := hdu
  unfold u32Sub at h
  omega

/-- With retransmission the A timer posts only what is within the gap: an expired PDU is dropped. -/
theorem expire_follows {cfg : Config} (hrtx : cfg.rtxCtrl = true) {now lwe : ℕ} {q : List Entry}
    (hl : lwe + cfg.maxSduGap < 4294967296) (hq : ∀ e ∈ q, Numbered cfg e.pdu) :
    Follows cfg lwe (expire cfg now lwe q).post (expire cfg now lwe q).lwe := by
  induction q generalizing lwe with
  | nil => rfl
  | cons e q ih =>
    have he := hq e List.mem_cons_self
    have hq' : ∀ e' ∈ q, Numbered cfg e'.pdu := fun e' he' => hq e' (List.mem_cons_of_mem _ he')
    unfold expire
    dsimp only
    rw [hrtx]
    by_cases hexp : e.timeStamp + cfg.a ≤ now
    · rw [decide_eq_true hexp, Bool.true_or, Bool.true_and, if_pos rfl, if_pos rfl]
      exact ih hl hq'
    · rw [decide_eq_false hexp, Bool.false_or, Bool.false_and]
      cases hgap : decide (u32Sub (u32Sub e.pdu.seq lwe) 1 ≤ cfg.maxSduGap) with
      | true =>
        rw [if_pos rfl, if_neg Bool.false_ne_true]
        have hafter := within_gap hl he (of_decide_eq_true hgap)
        exact ⟨⟨hafter.1, fun _ => hafter.2⟩, ih he.2 hq'⟩
      | false =>
        rw [if_neg Bool.false_ne_true]
        rfl

theorem expire_mem (cfg : Config) (now lwe : ℕ) (q : List Entry) :
    (∀ p ∈ (expire cfg now lwe q).post, ∃ e ∈ q, e.pdu = p) ∧
      ∀ e ∈ (expire cfg now lwe q).rest, e ∈ q := by
  induction q generalizing lwe with
  | nil => exact ⟨fun p hp => absurd hp List.not_mem_nil, fun e he => he⟩
  | cons e q ih =>
    unfold expire
    dsimp only
    split
    · split
      · obtain ⟨hpost, hrest⟩ := ih lwe
        refine ⟨fun p hp => ?_, fun e' he' => List.mem_cons_of_mem _ (hrest e' he')⟩
        obtain ⟨e', he', rfl⟩ := hpost p hp
        exact ⟨e', List.mem_cons_of_mem _ he', rfl⟩
      · obtain ⟨hpost, hrest⟩ := ih e.pdu.seq
        refine ⟨fun p hp => ?_, fun e' he' => List.mem_cons_of_mem _ (hrest e' he')⟩
        rcases List.mem_cons.mp hp with rfl | hp
        · exact ⟨e, List.mem_cons_self, rfl⟩
        · obtain ⟨e', he', rfl⟩ := hpost p hp
          exact ⟨e', List.mem_cons_of_mem _ he', rfl⟩
    · exact ⟨fun p hp => absurd hp List.not_mem_nil, fun e' he' => he'⟩

theorem pushMiddle_mem {e : Entry} {q : List Entry} :
    ∀ e' ∈ (pushMiddle e q).2, e' ∈ q ∨ e' = e := by
  induction q with
  | nil => exact fun e' he' => absurd he' List.not_mem_nil
  | cons cur q ih =>
    intro e' he'
    unfold pushMiddle at he'
    split at he'
    · exact .inl he'
    · split at he'
      · rcases List.mem_cons.mp he' with rfl | he'
        · exact .inl List.mem_cons_self
        · rcases List.mem_cons.mp he' with rfl | he'
          · exact .inr rfl
          · exact .inl (List.mem_cons_of_mem _ he')
      · rcases List.mem_cons.mp he' with rfl | he'
        · exact .inl List.mem_cons_self
        · exact (ih e' he').imp_left (List.mem_cons_of_mem _)

theorem seqQueuePushNi_mem {q : List Entry} {e : Entry} :
    ∀ e' ∈ (seqQueuePushNi q e).2, e' ∈ q ∨ e' = e := by
  intro e' he'
  unfold seqQueuePushNi at he'
  split at he'
  · exact .inr (List.mem_singleton.mp he')
  · split at he'
    · exact .inl he'
    · split at he'
      · exact (List.mem_append.mp he').imp_right List.mem_singleton.mp
      · exact pushMiddle_mem e' he'

/-! ### What a step can do -/

/-- `ps` are posted; they, and what is new in the queue, have just come (`src`) or were queued. -/
structure Advance (cfg : Config) (src : List Pdu) (r : Rcv) (ps : List Pdu) (r' : Rcv) : Prop where
  follows : Follows cfg r.lwe ps r'.lwe
  passed : r'.passed = r.passed ++ ps
  passedRuns : r'.passedRuns = r.passedRuns
  drfRequired : r'.drfRequired = r.drfRequired
  queue : ∀ e ∈ r'.seqq, e ∈ r.seqq ∨ (e.pdu ∈ src ∧ r.lwe < e.pdu.seq)
  source : ∀ p ∈ ps, p ∈ src ∨ ∃ e ∈ r.seqq, e.pdu = p

theorem Follows.le {cfg : Config} {l l' : ℕ} {ps : List Pdu} (h : Follows cfg l ps l') :
    l ≤ l' := by
  induction ps generalizing l with
  | nil => exact Nat.le_of_eq h
  | cons p ps ih => exact (Nat.le_of_lt h.1.1).trans (ih h.2)

theorem SameDtp.advance {cfg : Config} {src : List Pdu} {r r' : Rcv} (h : SameDtp r r') :
    Advance cfg src r [] r' where
  follows := h.lwe.symm
  passed := by rw [List.append_nil, h.passed]
  passedRuns := h.passedRuns
  drfRequired := h.drfRequired
  queue := fun e he => .inl (h.seqq ▸ he)
  source := fun p hp => absurd hp List.not_mem_nil

theorem Advance.trans {cfg : Config} {src : List Pdu} {r s t : Rcv} {ps qs : List Pdu}
    (h : Advance cfg src r ps s) (h' : Advance cfg src s qs t) :
    Advance cfg src r (ps ++ qs) t where
  follows := follows_append h.follows h'.follows
  passed := by rw [h'.passed, h.passed, List.append_assoc]
  passedRuns := h'.passedRuns.trans h.passedRuns
  drfRequired := h'.drfRequired.trans h.drfRequired
  queue := by
    intro e he
    rcases h'.queue e he with he | ⟨hsrc, hlt⟩
    · exact h.queue e he
    · exact .inr ⟨hsrc, h.follows.le.trans_lt hlt⟩
  source := by
    intro p hp
    rcases List.mem_append.mp hp with hp | hp
    · exact h.source p hp
    · rcases h'.source p hp with hp | ⟨e, he, rfl⟩
      · exact .inl hp
      · exact (h.queue e he).elim (fun he => .inr ⟨e, he, rfl⟩) fun he => .inl he.1

/-- What a walk over a part of the queue takes. -/
theorem take_advance {cfg : Config} {src : List Pdu} {r : Rcv} {t : Taken}
    (hf : Follows cfg r.lwe t.post t.lwe) (hpost : ∀ p ∈ t.post, p ∈ src ∨ ∃ e ∈ r.seqq, e.pdu = p)
    (hrest : ∀ e ∈ t.rest, e ∈ r.seqq) (room : ℕ) : Advance cfg src r t.post (r.takeIn room t) :=
  ⟨hf, rfl, rfl, rfl, fun e he => .inl (hrest e he), hpost⟩

/-- What carries the order: the numbers leave room for the gap, and the queue is in use only in a
data run and with an A timer. -/
structure Bounded (cfg : Config) (r : Rcv) : Prop where
  edge : r.lwe + cfg.maxSduGap < 4294967296
  queue : ∀ e ∈ r.seqq, Numbered cfg e.pdu
  flushed : r.drfRequired = true → r.seqq = []
  direct : cfg.a = 0 → r.seqq = []

section Steps

variable {cfg : Config} {r : Rcv} {du : Pdu}

theorem self_advance (h : After cfg r.lwe du) :
    Advance cfg [du] r [du] (r.take ⟨[du], du.seq, r.seqq⟩) := by
  have hf : Follows cfg r.lwe [du] du.seq := ⟨h, rfl⟩
  exact take_advance (t := ⟨[du], du.seq, r.seqq⟩) hf (fun p hp => .inl hp) (fun e he => he) _

/-- The PDU goes out at once, or with retransmission not at all. -/
theorem receiveNow_advance (hgt : r.lwe < du.seq) (hdu : du.seq + cfg.maxSduGap < 4294967296) :
    ∃ ps, Advance cfg [du] r ps (receiveNow cfg r du).1 ∧
      (receiveNow cfg r du).1.seqq = r.seqq := by
  unfold receiveNow
  dsimp only
  split
  · next hset =>
    have hafter : After cfg r.lwe du := by
      refine ⟨hgt, fun hrtx => ?_⟩
      rw [hrtx, Bool.true_and, Bool.not_eq_true', decide_eq_false_iff_not] at hset
      unfold u32Sub u32 at hset
      omega
    have hsame := dtcpSvUpdate_same cfg (r.take ⟨[du], du.seq, r.seqq⟩)
    exact ⟨_, (self_advance hafter).trans hsame.advance, hsame.seqq⟩
  · exact ⟨_, (dtcpSvUpdate_same cfg r).advance, (dtcpSvUpdate_same cfg r).seqq⟩

theorem sequence_advance (cfg : Config) (now : ℕ) (hgt : r.lwe < du.seq) :
    ∃ ps, Advance cfg [du] r ps (sequence now r du) := by
  unfold sequence
  split
  · next heq =>
    have hafter : After cfg r.lwe du := by
      unfold u32 at heq
      exact ⟨hgt, fun _ => by omega⟩
    exact ⟨[du], self_advance hafter⟩
  · refine ⟨[], rfl, (List.append_nil _).symm, rfl, rfl, fun e he => ?_, fun p hp => ?_⟩
    · rcases seqQueuePushNi_mem e he with he | rfl
      · exact .inl he
      · exact .inr ⟨List.mem_cons_self, hgt⟩
    · exact absurd hp List.not_mem_nil

theorem Follows.edge {l l' : ℕ} {ps : List Pdu} (h : Follows cfg l ps l') :
    l' = l ∨ ∃ p ∈ ps, p.seq = l' := by
  induction ps generalizing l with
  | nil => exact .inl h.symm
  | cons p ps ih =>
    rcases ih h.2 with heq | ⟨q, hq, heq⟩
    · exact .inr ⟨p, List.mem_cons_self, heq.symm⟩
    · exact .inr ⟨q, List.mem_cons_of_mem _ hq, heq⟩

/-- The numbers stay within bounds, except that a queue may come into use. -/
theorem Advance.bounded {src : List Pdu} {s : Rcv} {ps : List Pdu} (h : Advance cfg src r ps s)
    (hr : Bounded cfg r) (hsrc : ∀ p ∈ src, p.seq + cfg.maxSduGap < 4294967296)
    (hq : s.drfRequired = true ∨ cfg.a = 0 → s.seqq = []) : Bounded cfg s where
  edge := by
    rcases h.follows.edge with heq | ⟨p, hp, heq⟩
    · rw [heq]
      exact hr.edge
    · rw [← heq]
      rcases h.source p hp with hp | ⟨e, he, rfl⟩
      · exact hsrc p hp
      · exact (hr.queue e he).2
  queue := by
    intro e he
    rcases h.queue e he with he | ⟨hmem, hlt⟩
    · exact hr.queue e he
    · exact ⟨by omega, hsrc e.pdu hmem⟩
  flushed := fun hd => hq (.inl hd)
  direct := fun ha => hq (.inr ha)

theorem sequence_bounded (now : ℕ) (hr : Bounded cfg r) (hgt : r.lwe < du.seq)
    (hdu : du.seq + cfg.maxSduGap < 4294967296) (hd : r.drfRequired = false) (ha : cfg.a ≠ 0) :
    Bounded cfg (sequence now r du) := by
  obtain ⟨ps, hseq⟩ := sequence_advance cfg now hgt
  refine hseq.bounded hr (fun p hp => List.mem_singleton.mp hp ▸ hdu) ?_
  rintro (h | h)
  · rw [hseq.drfRequired, hd] at h
    exact absurd h Bool.false_ne_true
  · exact absurd h ha

theorem popRun_advance {src : List Pdu} (hr : Bounded cfg r) (room : ℕ) :
    Advance cfg src r (popRun r.lwe r.seqq).post (r.takeIn room (popRun r.lwe r.seqq)) :=
  take_advance (popRun_follows cfg hr.edge hr.queue)
    (fun p hp => .inr ((popRun_mem _ _).1 p hp)) (popRun_mem _ _).2 room

/-- The PDU itself, or none, and then what the queue has to follow it. -/
theorem receiveSequenced_advance (now : ℕ) (hr : Bounded cfg r) (hgt : r.lwe < du.seq)
    (hdu : du.seq + cfg.maxSduGap < 4294967296) (hd : r.drfRequired = false) (ha : cfg.a ≠ 0) :
    ∃ ps, Advance cfg [du] r ps (receiveSequenced cfg now r du).1 := by
  obtain ⟨ps, hseq⟩ := sequence_advance cfg now hgt
  have hpop (room : ℕ) : Advance cfg [du] (sequence now r du) _ _ :=
    popRun_advance (sequence_bounded now hr hgt hdu hd ha) room
  exact ⟨_, (hseq.trans (hpop _)).trans (dtcpSvUpdate_same cfg _).advance⟩

theorem expire_advance (now : ℕ) (hord : cfg.rtxCtrl = true ∨ cfg.a = 0) (hr : Bounded cfg r) :
    Advance cfg [] r (expire cfg now r.lwe r.seqq).post (r.take (expire cfg now r.lwe r.seqq)) := by
  have hf : Follows cfg r.lwe (expire cfg now r.lwe r.seqq).post
      (expire cfg now r.lwe r.seqq).lwe := by
    rcases hord with hrtx | ha
    · exact expire_follows hrtx hr.edge hr.queue
    · rw [hr.direct ha]
      rfl
  exact take_advance hf (fun p hp => .inr ((expire_mem _ _ _ _).1 p hp)) (expire_mem _ _ _ _).2 _

end Steps

/-- A step posts some PDUs, starts a data run or ends one. -/
inductive Effect (cfg : Config) (src : List Pdu) (r r' : Rcv) : Prop where
  | advance (ps : List Pdu) (h : Advance cfg src r ps r')
      (hq : r.drfRequired = true ∨ cfg.a = 0 → r'.seqq = [])
      (hd : r.drfRequired = true → ps = [])
  | restart (du : Pdu) (hsrc : du ∈ src) (hwas : r.drfRequired = true) (hlwe : r'.lwe = du.seq)
      (hpassed : r'.passed = [du])
      (hruns : r'.passedRuns = r.passedRuns ++ [r.passed]) (hdrf : r'.drfRequired = false)
      (hqueue : r'.seqq = [])
  | inactive (hlwe : r'.lwe = 0) (hpassed : r'.passed = r.passed)
      (hruns : r'.passedRuns = r.passedRuns) (hdrf : r'.drfRequired = true) (hqueue : r'.seqq = [])

/-- The PDUs an action brings. -/
def RcvAct.pdus : RcvAct → List Pdu
  | .receive du _ => [du]
  | _ => []

theorem SameDtp.effect {cfg : Config} {src : List Pdu} {r r' : Rcv} (hr : Bounded cfg r)
    (h : SameDtp r r') : Effect cfg src r r' := by
  refine .advance [] h.advance ?_ fun _ => rfl
  rw [h.seqq]
  exact fun h => h.elim hr.flushed hr.direct

theorem startRun_effect (cfg : Config) {r : Rcv} (du : Pdu) (hwas : r.drfRequired = true) :
    Effect cfg [du] r (startRun cfg r du).1 := by
  have hsame := dtcpSvUpdate_same cfg { r with drfRequired := false, lwe := du.seq, seqq := [] }
  refine .restart du List.mem_cons_self hwas hsame.lwe rfl ?_ hsame.drfRequired hsame.seqq
  unfold startRun
  dsimp only
  rw [hsame.passedRuns, hsame.passed]

theorem SameDtp.bounded {cfg : Config} {r r' : Rcv} (h : SameDtp r r') (hr : Bounded cfg r) :
    Bounded cfg r' := by
  refine ⟨?_, ?_, ?_, ?_⟩
  · rw [h.lwe]
    exact hr.edge
  · rw [h.seqq]
    exact hr.queue
  · rw [h.seqq, h.drfRequired]
    exact hr.flushed
  · rw [h.seqq]
    exact hr.direct

/-- A step that brings no PDU hands over what was in the queue. -/
theorem Advance.effect {cfg : Config} {r r' : Rcv} {ps : List Pdu} (hr : Bounded cfg r)
    (h : Advance cfg [] r ps r') : Effect cfg [] r r' := by
  refine .advance ps h (fun hor => ?_) fun hd => ?_
  · refine List.eq_nil_iff_forall_not_mem.mpr fun e he => ?_
    rcases h.queue e he with he | ⟨hsrc, -⟩
    · rw [hor.elim hr.flushed hr.direct] at he
      exact absurd he List.not_mem_nil
    · exact absurd hsrc List.not_mem_nil
  · refine List.eq_nil_iff_forall_not_mem.mpr fun p hp => ?_
    rcases h.source p hp with hsrc | ⟨e, he, -⟩
    · exact absurd hsrc List.not_mem_nil
    · rw [hr.flushed hd] at he
      exact absurd he List.not_mem_nil

section Accept

variable {cfg : Config} {r s : Rcv} {du : Pdu}

theorem receiveNow_effect (hr : Bounded cfg r) (hs : SameDtp r s) (hd : r.drfRequired = false)
    (hgt : r.lwe < du.seq) (hdu : du.seq + cfg.maxSduGap < 4294967296) (ha : cfg.a = 0) :
    Effect cfg [du] r (receiveNow cfg s du).1 := by
  obtain ⟨ps, h, hq⟩ := receiveNow_advance (hs.lwe ▸ hgt) hdu
  refine .advance _ (hs.advance.trans h) (fun _ => ?_) fun h =>
    absurd (hd.symm.trans h) Bool.false_ne_true
  rw [hq, hs.seqq, hr.direct ha]

theorem receiveSequenced_effect (now : ℕ) (hr : Bounded cfg r) (hs : SameDtp r s)
    (hd : r.drfRequired = false) (hgt : r.lwe < du.seq)
    (hdu : du.seq + cfg.maxSduGap < 4294967296) (ha : cfg.a ≠ 0) :
    Effect cfg [du] r (receiveSequenced cfg now s du).1 := by
  have hnot (h : r.drfRequired = true) : False := Bool.false_ne_true (hd.symm.trans h)
  obtain ⟨ps, h⟩ := receiveSequenced_advance now (hs.bounded hr) (hs.lwe ▸ hgt) hdu
    (hs.drfRequired.trans hd) ha
  exact .advance _ (hs.advance.trans h) (fun h => (h.elim hnot ha).elim) fun h => (hnot h).elim

end Accept

/-- The ways of a step through the handlers. -/
inductive Handled (cfg : Config) (r : Rcv) : RcvAct → Rcv × List Ctrl → Prop where
  | refused (du : Pdu) (now : ℕ) (h : r.drfRequired = true ∨ du.seq ≤ r.lwe) :
      Handled cfg r (.receive du now) (r, [])
  | started (du : Pdu) (now : ℕ) (hd : r.drfRequired = true) :
      Handled cfg r (.receive du now) (startRun cfg r du)
  | overrun (du : Pdu) (now : ℕ) (hd : r.drfRequired = false)
      (hover : isFcOverrun cfg r du = true) :
      Handled cfg r (.receive du now) ({ r with overrun := r.overrun ++ [du] }, [])
  | direct (du : Pdu) (now : ℕ) (hd : r.drfRequired = false) (hgt : r.lwe < du.seq)
      (hover : isFcOverrun cfg r du = false) (ha : cfg.a = 0) :
      Handled cfg r (.receive du now) (receiveNow cfg { r with rendezvous := false } du)
  | sequenced (du : Pdu) (now : ℕ) (hd : r.drfRequired = false) (hgt : r.lwe < du.seq)
      (hover : isFcOverrun cfg r du = false) (ha : cfg.a ≠ 0) :
      Handled cfg r (.receive du now) (receiveSequenced cfg now { r with rendezvous := false } du)
  | kept (now : ℕ) (hpost : (expire cfg now r.lwe r.seqq).post = []) :
      Handled cfg r (.a now) ({ r.take (expire cfg now r.lwe r.seqq) with oops := true }, [])
  | expired (now : ℕ) :
      Handled cfg r (.a now) (dtcpSvUpdate cfg (r.take (expire cfg now r.lwe r.seqq)))
  | forgot : Handled cfg r .inactivity (receiverInactivity r, [])
  | ignored (a : RcvAct) (ha : a.pdus = []) : Handled cfg r a (r, [])
  | met (c : Ctrl) (hnew : r.lastCtl < c.sn) (rwe : ℕ) : Handled cfg r (.rendezvous c)
      (({ r with lastCtl := c.sn, rendezvous := true, rwe := rwe }.ctrl .fc).1,
        [({ r with lastCtl := c.sn, rendezvous := true, rwe := rwe }.ctrl .fc).2])
  | asked (hrv : r.rendezvous = true) :
      Handled cfg r .rendezvousRcv ((r.ctrl .fc).1, [(r.ctrl .fc).2])

theorem rcvStep_handled (cfg : Config) (r : Rcv) (a : RcvAct) :
    Handled cfg r a (rcvStep cfg r a) := by
  cases a with
  | receive du now =>
    unfold rcvStep dtpReceive
    dsimp only
    by_cases hd : r.drfRequired = true
    · rw [if_pos hd]
      split
      · exact .started du now hd
      · exact .refused du now (.inl hd)
    · rw [if_neg hd]
      have hd' : r.drfRequired = false := Bool.eq_false_iff.mpr hd
      split
      · next hle => exact .refused du now (.inr hle)
      · next hle =>
        split
        · next hover => exact .overrun du now hd' hover
        · next hover =>
          have hover' : isFcOverrun cfg r du = false := Bool.eq_false_iff.mpr hover
          split
          · next ha => exact .direct du now hd' (Nat.lt_of_not_le hle) hover' ha
          · next ha => exact .sequenced du now hd' (Nat.lt_of_not_le hle) hover' ha
  | a now =>
    unfold rcvStep aTimer
    dsimp only
    split
    · next hpost => exact .kept now hpost
    · exact .expired now
  | inactivity => exact .forgot
  | rendezvous c =>
    unfold rcvStep rcvrRendezvous
    dsimp only
    split
    · exact .ignored _ rfl
    · next hnew =>
      have hlt : r.lastCtl < c.sn := Nat.lt_of_not_le hnew
      cases cfg.windowBased with
      | false => exact .met c hlt r.rwe
      | true => exact .met c hlt (u32 (c.myLft + cfg.initialCredit))
  | rendezvousRcv =>
    unfold rcvStep rendezvousRcv
    dsimp only
    split
    · next hrv => exact .asked hrv
    · exact .ignored _ rfl

theorem rcvStep_effect {cfg : Config} {r : Rcv} {a : RcvAct} (hord : cfg.rtxCtrl = true ∨ cfg.a = 0)
    (hr : Bounded cfg r) (ha : ∀ du ∈ a.pdus, du.seq + cfg.maxSduGap < 4294967296) :
    Effect cfg a.pdus r (rcvStep cfg r a).1 := by
  have h := rcvStep_handled cfg r a
  generalize rcvStep cfg r a = x at h ⊢
  cases h with
  | started du now hd => exact startRun_effect cfg du hd
  | direct du now hd hgt hover ha' =>
    exact receiveNow_effect hr ⟨rfl, rfl, rfl, rfl, rfl, rfl, rfl, rfl⟩ hd hgt
      (ha du List.mem_cons_self) ha'
  | sequenced du now hd hgt hover ha' =>
    exact receiveSequenced_effect now hr ⟨rfl, rfl, rfl, rfl, rfl, rfl, rfl, rfl⟩ hd hgt
      (ha du List.mem_cons_self) ha'
  | kept now hpost =>
    have hadv := expire_advance now hord hr
    have hsame : SameDtp (r.take (expire cfg now r.lwe r.seqq))
        { r.take (expire cfg now r.lwe r.seqq) with oops := true } :=
      ⟨rfl, rfl, rfl, rfl, rfl, rfl, rfl, rfl⟩
    exact (hadv.trans hsame.advance).effect hr
  | expired now =>
    exact ((expire_advance now hord hr).trans (dtcpSvUpdate_same cfg _).advance).effect hr
  | forgot => exact .inactive rfl rfl rfl rfl rfl
  | refused | overrun | ignored | met | asked =>
    exact SameDtp.effect hr ⟨rfl, rfl, rfl, rfl, rfl, rfl, rfl, rfl⟩

/-! ### Whole runs -/

/-- The PDUs of a data run: each beyond the one before it and, with retransmission, by the allowed
gap at most. -/
def InOrder (cfg : Config) (run : List Pdu) : Prop := run.IsChain fun p q => After cfg p.seq q

structure Ordered (cfg : Config) (r : Rcv) : Prop where
  bounded : Bounded cfg r
  passedRuns : ∀ run ∈ r.passedRuns, InOrder cfg run
  passed : InOrder cfg r.passed
  last : r.drfRequired = false → ∃ p, r.passed.getLast? = some p ∧ p.seq = r.lwe

/-- What is posted goes on from the last PDU of the run. -/
theorem inOrder_append {cfg : Config} {run ps : List Pdu} {p : Pdu} {l' : ℕ}
    (hrun : InOrder cfg run) (hlast : run.getLast? = some p) (hps : Follows cfg p.seq ps l') :
    InOrder cfg (run ++ ps) ∧ ∃ q, (run ++ ps).getLast? = some q ∧ q.seq = l' := by
  induction ps generalizing run p with
  | nil =>
    rw [List.append_nil]
    exact ⟨hrun, p, hlast, hps⟩
  | cons q ps ih =>
    have hq : InOrder cfg (run ++ [q]) := by
      refine List.isChain_append.mpr ⟨hrun, List.isChain_singleton q, ?_⟩
      intro x hx y hy
      cases hlast.symm.trans hx
      cases hy
      exact hps.1
    have := ih hq List.getLast?_concat hps.2
    rwa [List.append_assoc] at this

theorem ordered_init (cfg : Config) (hgap : cfg.maxSduGap < 4294967296) :
    Ordered cfg (Rcv.init cfg) := by
  refine ⟨⟨?_, fun e he => absurd he List.not_mem_nil, fun _ => rfl, fun _ => rfl⟩,
    fun run hrun => absurd hrun List.not_mem_nil, List.isChain_nil, fun h => ?_⟩
  · exact (Nat.zero_add _).symm ▸ hgap
  · exact absurd h.symm Bool.false_ne_true

theorem ordered_step {cfg : Config} {r : Rcv} {a : RcvAct} (hord : cfg.rtxCtrl = true ∨ cfg.a = 0)
    (hr : Ordered cfg r) (hgap : cfg.maxSduGap < 4294967296)
    (ha : ∀ du ∈ a.pdus, du.seq + cfg.maxSduGap < 4294967296) :
    Ordered cfg (rcvStep cfg r a).1 := by
  cases rcvStep_effect hord hr.bounded ha with
  | advance ps h hq hd =>
    have hb := h.bounded hr.bounded ha (h.drfRequired ▸ hq)
    refine ⟨hb, h.passedRuns ▸ hr.passedRuns, ?_, ?_⟩
    · rw [h.passed]
      cases hdrf : r.drfRequired with
      | true =>
        rw [hd hdrf, List.append_nil]
        exact hr.passed
      | false =>
        obtain ⟨p, hp, hseq⟩ := hr.last hdrf
        exact (inOrder_append hr.passed hp (hseq ▸ h.follows)).1
    · intro hdrf
      rw [h.drfRequired] at hdrf
      obtain ⟨p, hp, hseq⟩ := hr.last hdrf
      rw [h.passed]
      exact (inOrder_append hr.passed hp (hseq ▸ h.follows)).2
  | restart du hsrc hwas hlwe hpassed hruns hdrf hqueue =>
    refine ⟨⟨?_, ?_, fun _ => hqueue, fun _ => hqueue⟩, ?_, ?_, fun _ => ⟨du, ?_, hlwe.symm⟩⟩
    · rw [hlwe]
      exact ha du hsrc
    · rw [hqueue]
      exact fun e he => absurd he List.not_mem_nil
    · rw [hruns]
      intro run hrun
      rcases List.mem_append.mp hrun with hrun | hrun
      · exact hr.passedRuns run hrun
      · exact List.mem_singleton.mp hrun ▸ hr.passed
    · rw [hpassed]
      exact List.isChain_singleton du
    · rw [hpassed]
      rfl
  | inactive hlwe hpassed hruns hdrf hqueue =>
    refine ⟨⟨?_, ?_, fun _ => hqueue, fun _ => hqueue⟩, hruns ▸ hr.passedRuns,
      hpassed ▸ hr.passed, ?_⟩
    · rw [hlwe, Nat.zero_add]
      exact hgap
    · rw [hqueue]
      exact fun e he => absurd he List.not_mem_nil
    · intro h
      exact absurd (h.symm.trans hdrf) Bool.false_ne_true

/-! ### What the ring does not take -/

/-- The PDUs handed over, by data runs. -/
def Rcv.handedOver (r : Rcv) : List (List Pdu) := r.runs ++ [r.posted]

/-- What is handed over is what the left edge passes, without what a full `to_post` did not take. -/
structure Sifted (r : Rcv) : Prop where
  posted : r.posted.Sublist r.passed
  runs : List.Forall₂ List.Sublist r.runs r.passedRuns
  kept : ∀ p ∈ r.passed, p ∈ r.posted ∨ p ∈ r.unposted
  keptRuns : ∀ run ∈ r.passedRuns, ∀ p ∈ run, (∃ run' ∈ r.runs, p ∈ run') ∨ p ∈ r.unposted
  whole : r.unposted = [] → r.posted = r.passed ∧ r.runs = r.passedRuns

theorem sifted_init (cfg : Config) : Sifted (Rcv.init cfg) :=
  ⟨List.Sublist.refl _, .nil, fun _ h => absurd h List.not_mem_nil,
    fun _ h => absurd h List.not_mem_nil, fun _ => ⟨rfl, rfl⟩⟩

theorem Sifted.forall₂ {r : Rcv} (h : Sifted r) :
    List.Forall₂ List.Sublist r.handedOver (r.passedRuns ++ [r.passed]) :=
  List.rel_append h.runs (.cons h.posted .nil)

/-- Each run handed over is a part of one that the left edge has passed. -/
theorem Sifted.sublist {r : Rcv} (h : Sifted r) :
    ∀ run ∈ r.handedOver, ∃ run' ∈ r.passedRuns ++ [r.passed], run.Sublist run' := by
  intro run hrun
  obtain ⟨i, hi, rfl⟩ := List.getElem_of_mem hrun
  obtain ⟨hlen, hget⟩ := List.forall₂_iff_get.mp h.forall₂
  exact ⟨_, List.get_mem _ ⟨i, hlen ▸ hi⟩, hget i hi (hlen ▸ hi)⟩

theorem Sifted.mem {r : Rcv} (h : Sifted r) {p : Pdu}
    (hp : ∃ run ∈ r.passedRuns ++ [r.passed], p ∈ run) :
    (∃ run ∈ r.handedOver, p ∈ run) ∨ p ∈ r.unposted := by
  obtain ⟨run, hrun, hp⟩ := hp
  rcases List.mem_append.mp hrun with hrun | hrun
  · refine (h.keptRuns run hrun p hp).imp_left ?_
    rintro ⟨run', hrun', hp'⟩
    exact ⟨run', List.mem_append_left _ hrun', hp'⟩
  · rw [List.mem_singleton.mp hrun] at hp
    refine (h.kept p hp).imp_left fun hp' => ?_
    exact ⟨_, List.mem_append_right _ List.mem_cons_self, hp'⟩

theorem Sifted.all_posted {r : Rcv} (h : Sifted r) (hnone : r.unposted = []) :
    r.handedOver = r.passedRuns ++ [r.passed] := by
  obtain ⟨hposted, hruns⟩ := h.whole hnone
  unfold Rcv.handedOver
  rw [hposted, hruns]

theorem SameDtp.sifted {r r' : Rcv} (h : SameDtp r r') (hr : Sifted r) : Sifted r' := by
  obtain ⟨hposted, hruns, hkept, hkeptRuns, hwhole⟩ := hr
  rw [← h.posted, ← h.passed] at hposted hwhole
  rw [← h.runs, ← h.passedRuns] at hruns hwhole
  rw [← h.passed, ← h.posted, ← h.unposted] at hkept
  rw [← h.passedRuns, ← h.runs, ← h.unposted] at hkeptRuns
  rw [← h.unposted] at hwhole
  exact ⟨hposted, hruns, hkept, hkeptRuns, hwhole⟩

theorem sifted_takeIn {r : Rcv} (hr : Sifted r) (room : ℕ) (t : Taken) :
    Sifted (r.takeIn room t) := by
  have hcut : t.post.take room ++ t.post.drop room = t.post := List.take_append_drop room t.post
  refine ⟨?_, hr.runs, fun p hp => ?_, fun run hrun p hp => ?_, fun h => ?_⟩
  · exact hr.posted.append (List.take_sublist room t.post)
  · rcases List.mem_append.mp hp with hp | hp
    · exact (hr.kept p hp).imp (List.mem_append_left _) (List.mem_append_left _)
    · rw [← hcut] at hp
      exact (List.mem_append.mp hp).imp (List.mem_append_right _) (List.mem_append_right _)
  · exact (hr.keptRuns run hrun p hp).imp_right (List.mem_append_left _)
  · obtain ⟨hnone, hdrop⟩ := List.append_eq_nil_iff.mp h
    obtain ⟨hposted, hruns⟩ := hr.whole hnone
    refine ⟨?_, hruns⟩
    rw [hdrop, List.append_nil] at hcut
    exact congrArg₂ (· ++ ·) hposted hcut

theorem startRun_sifted {cfg : Config} {r : Rcv} (du : Pdu) (hr : Sifted r) :
    Sifted (startRun cfg r du).1 := by
  -- the run that has ended joins the earlier ones, and the new one is handed over as it is
  have h : Sifted (dtcpSvUpdate cfg { r with drfRequired := false, lwe := du.seq, seqq := [] }).1 :=
    (dtcpSvUpdate_same cfg _).sifted ⟨hr.posted, hr.runs, hr.kept, hr.keptRuns, hr.whole⟩
  refine ⟨List.Sublist.refl _, h.forall₂, fun p hp => .inl hp, ?_, ?_⟩
  · intro run hrun p hp
    exact h.mem ⟨run, hrun, hp⟩
  · intro hnone
    exact ⟨rfl, h.all_posted hnone⟩

theorem sequence_sifted {r : Rcv} (now : ℕ) (du : Pdu) (hr : Sifted r) :
    Sifted (sequence now r du) := by
  unfold sequence
  split
  · exact sifted_takeIn hr _ _
  · exact ⟨hr.posted, hr.runs, hr.kept, hr.keptRuns, hr.whole⟩

theorem sifted_step (cfg : Config) {r : Rcv} (a : RcvAct) (hr : Sifted r) :
    Sifted (rcvStep cfg r a).1 := by
  have hupdate (s : Rcv) (hs : Sifted s) : Sifted (dtcpSvUpdate cfg s).1 :=
    (dtcpSvUpdate_same cfg s).sifted hs
  have hawake : Sifted { r with rendezvous := false } :=
    ⟨hr.posted, hr.runs, hr.kept, hr.keptRuns, hr.whole⟩
  have h := rcvStep_handled cfg r a
  generalize rcvStep cfg r a = x at h ⊢
  cases h with
  | started du now hd => exact startRun_sifted du hr
  | direct du now hd hgt hover ha =>
    refine hupdate _ ?_
    split
    · exact sifted_takeIn hawake _ _
    · exact hawake
  | sequenced du now hd hgt hover ha =>
    exact hupdate _ (sifted_takeIn (sequence_sifted now du hawake) _ _)
  | kept now hpost =>
    have h := sifted_takeIn hr TO_POST_LENGTH (expire cfg now r.lwe r.seqq)
    exact ⟨h.posted, h.runs, h.kept, h.keptRuns, h.whole⟩
  | expired now => exact hupdate _ (sifted_takeIn hr _ _)
  | refused | overrun | forgot | ignored | met | asked =>
    exact ⟨hr.posted, hr.runs, hr.kept, hr.keptRuns, hr.whole⟩

/-- The state after the actions. -/
def rcvRun (cfg : Config) (acts : List RcvAct) : Rcv :=
  acts.foldl (fun r a => (rcvStep cfg r a).1) (Rcv.init cfg)

/-- The invariant rule for the receiver. -/
theorem rcvRun_invariant {cfg : Config} {inv : Rcv → Prop} {ok : RcvAct → Prop}
    (hinit : inv (Rcv.init cfg)) (hstep : ∀ r a, inv r → ok a → inv (rcvStep cfg r a).1)
    {acts : List RcvAct} (hacts : ∀ a ∈ acts, ok a) : inv (rcvRun cfg acts) := by
  unfold rcvRun
  generalize Rcv.init cfg = r at hinit ⊢
  induction acts generalizing r with
  | nil => exact hinit
  | cons a acts ih =>
    rw [List.forall_mem_cons] at hacts
    exact ih hacts.2 _ (hstep r a hinit hacts.1)

/-- The numbers that come leave room for the gap. -/
def RcvAct.Fits (cfg : Config) (a : RcvAct) : Prop :=
  ∀ du ∈ a.pdus, du.seq + cfg.maxSduGap < 4294967296

instance (cfg : Config) (a : RcvAct) : Decidable (a.Fits cfg) := List.decidableBAll _ _

theorem rcvRun_sifted (cfg : Config) (acts : List RcvAct) : Sifted (rcvRun cfg acts) :=
  @rcvRun_invariant cfg Sifted (fun _ => True) (sifted_init cfg)
    (fun _ a hr _ => sifted_step cfg a hr) acts fun _ _ => trivial

theorem InOrder.increasing {cfg : Config} {run : List Pdu} (h : InOrder cfg run) :
    run.Pairwise fun p q => p.seq < q.seq := by
  have hchain : run.IsChain fun p q => p.seq < q.seq := h.imp fun p q hpq => hpq.1
  exact List.isChain_iff_pairwise.mp hchain

theorem Ordered.inOrder {cfg : Config} {r : Rcv} (h : Ordered cfg r) :
    ∀ run ∈ r.passedRuns ++ [r.passed], InOrder cfg run := by
  intro run hmem
  rcases List.mem_append.mp hmem with hmem | hmem
  · exact h.passedRuns run hmem
  · exact List.mem_singleton.mp hmem ▸ h.passed

/-- Whatever comes, in whatever order: the PDUs of every data run are handed over in the order of
their numbers and none of them twice, provided there is retransmission control or no A timer and
the numbers do not come within the gap of the wraparound. As long as `to_post` has taken every PDU,
no gap between two of them is greater than the allowed one, with retransmission control. -/
theorem rcvRun_inOrder (cfg : Config) (acts : List RcvAct)
    (hord : cfg.rtxCtrl = true ∨ cfg.a = 0) (hgap : cfg.maxSduGap < 4294967296)
    (hacts : ∀ a ∈ acts, a.Fits cfg) :
    ∀ run ∈ (rcvRun cfg acts).handedOver, run.Pairwise (fun p q => p.seq < q.seq) ∧
      ((rcvRun cfg acts).unposted = [] → InOrder cfg run) := by
  have h : Ordered cfg (rcvRun cfg acts) :=
    rcvRun_invariant (ordered_init cfg hgap) (fun r a hr ha => ordered_step hord hr hgap ha) hacts
  have hsifted := rcvRun_sifted cfg acts
  intro run hmem
  refine ⟨?_, fun hnone => ?_⟩
  · obtain ⟨run', hrun', hsub⟩ := hsifted.sublist run hmem
    exact (h.inOrder run' hrun').increasing.sublist hsub
  · rw [hsifted.all_posted hnone] at hmem
    exact h.inOrder run hmem

instance (cfg : Config) (l : ℕ) (p : Pdu) : Decidable (After cfg l p) :=
  inferInstanceAs (Decidable (l < p.seq ∧ (cfg.rtxCtrl = true → p.seq ≤ l + cfg.maxSduGap + 1)))

instance (cfg : Config) (run : List Pdu) : Decidable (InOrder cfg run) :=
  inferInstanceAs (Decidable (run.IsChain fun p q => After cfg p.seq q))

/-- The QoS cubes `reliablewithflowcontrol` and `unreliablewithflowcontrol` of `default.dif`. -/
def reliable : Config := ⟨300, 0, true, true, 10, 5⟩

def unreliable : Config := { reliable with rtxCtrl := false }

def pdu (seq : ℕ) : Pdu := ⟨seq, true, []⟩

/-- Four PDUs come early, the last of them between two others, and then two that were missing. -/
def early : List RcvAct :=
  [.receive (pdu 1) 0, .receive (pdu 3) 0, .receive (pdu 5) 0, .receive (pdu 8) 0,
    .receive (pdu 6) 0, .receive (pdu 2) 0, .receive (pdu 4) 0]

theorem early_inOrder :
    (rcvRun reliable early).handedOver = [[], [pdu 1, pdu 2, pdu 3, pdu 4]] ∧
      ∀ run ∈ (rcvRun reliable early).handedOver, run.Pairwise (fun p q => p.seq < q.seq) ∧
        ((rcvRun reliable early).unposted = [] → InOrder reliable run) :=
  ⟨by decide +kernel, rcvRun_inOrder reliable early (.inl rfl) (by decide) (by decide)⟩

-- without retransmission the A timer posts what is in the queue as it stands
example : (rcvRun unreliable (early ++ [.a 300])).posted =
    [pdu 1, pdu 2, pdu 3, pdu 4, pdu 6, pdu 5, pdu 8] := by decide +kernel

/-! ### Acknowledgements -/

/-- A step sends no acknowledgement, or one of the left edge, which is beyond the last one. -/
def AckStep (r r' : Rcv) : Prop :=
  (r'.acked = r.acked ∧ r'.lastAck = r.lastAck) ∨
    (r.lastAck < r'.lwe ∧ r'.acked = r.acked ++ [r'.lwe] ∧ r'.lastAck = r'.lwe)

theorem AckStep.of_eq {r s t : Rcv} (hs : s.acked = r.acked ∧ s.lastAck = r.lastAck)
    (h : AckStep s t) : AckStep r t := by
  unfold AckStep at h ⊢
  rwa [hs.1, hs.2] at h

theorem rcvrAck_ackStep (cfg : Config) (r : Rcv) : AckStep r (rcvrAck cfg r).1 := by
  unfold rcvrAck
  split
  · next hlt =>
    refine .inr ⟨hlt, ?_, rfl⟩
    cases cfg.windowBased <;> rfl
  · exact .inl ⟨rfl, rfl⟩

theorem dtcpSvUpdate_ackStep (cfg : Config) (r : Rcv) : AckStep r (dtcpSvUpdate cfg r).1 := by
  unfold dtcpSvUpdate
  dsimp only
  split
  · refine AckStep.of_eq ?_ (rcvrAck_ackStep cfg _)
    split <;> exact ⟨rfl, rfl⟩
  · split <;> exact .inl ⟨rfl, rfl⟩

theorem receiveNow_ackStep (cfg : Config) (r : Rcv) (du : Pdu) :
    AckStep r (receiveNow cfg r du).1 := by
  refine AckStep.of_eq ?_ (dtcpSvUpdate_ackStep cfg _)
  split <;> exact ⟨rfl, rfl⟩

theorem receiveSequenced_ackStep (cfg : Config) (now : ℕ) (r : Rcv) (du : Pdu) :
    AckStep r (receiveSequenced cfg now r du).1 := by
  have hseq : (sequence now r du).acked = r.acked ∧ (sequence now r du).lastAck = r.lastAck := by
    unfold sequence
    split <;> exact ⟨rfl, rfl⟩
  exact AckStep.of_eq hseq (dtcpSvUpdate_ackStep cfg _)

theorem rcvStep_ackStep (cfg : Config) (r : Rcv) (a : RcvAct) : AckStep r (rcvStep cfg r a).1 := by
  have h := rcvStep_handled cfg r a
  generalize rcvStep cfg r a = x at h ⊢
  cases h with
  | started du now hd =>
    exact dtcpSvUpdate_ackStep cfg { r with drfRequired := false, lwe := du.seq, seqq := [] }
  | direct du now hd hgt hover ha =>
    exact receiveNow_ackStep cfg { r with rendezvous := false } du
  | sequenced du now hd hgt hover ha =>
    exact receiveSequenced_ackStep cfg now { r with rendezvous := false } du
  | expired now => exact dtcpSvUpdate_ackStep cfg (r.take _)
  | refused | overrun | kept | forgot | ignored | met | asked => exact .inl ⟨rfl, rfl⟩

/-- The acknowledged numbers grow, over all data runs together, and each is that of a PDU that the
left edge has passed. -/
structure Acknowledges (r : Rcv) : Prop where
  idle : r.drfRequired = true → r.lwe = 0
  sorted : r.acked.Pairwise (· < ·)
  below : ∀ x ∈ r.acked, x ≤ r.lastAck
  passed : ∀ x ∈ r.acked, ∃ run ∈ r.passedRuns ++ [r.passed], ∃ p ∈ run, p.seq = x

/-- What was posted stays in the history. -/
theorem Effect.history {cfg : Config} {src : List Pdu} {r r' : Rcv} (h : Effect cfg src r r')
    {p : Pdu} (hp : ∃ run ∈ r.passedRuns ++ [r.passed], p ∈ run) :
    ∃ run ∈ r'.passedRuns ++ [r'.passed], p ∈ run := by
  obtain ⟨run, hrun, hp⟩ := hp
  cases h with
  | advance ps h hq hd =>
    rw [h.passedRuns, h.passed]
    rcases List.mem_append.mp hrun with hrun | hrun
    · exact ⟨run, List.mem_append_left _ hrun, hp⟩
    · rw [List.mem_singleton.mp hrun] at hp
      exact ⟨_, List.mem_append_right _ List.mem_cons_self, List.mem_append_left _ hp⟩
  | restart du hsrc hwas hlwe hpassed hruns hdrf hqueue =>
    rw [hruns]
    exact ⟨run, List.mem_append_left _ hrun, hp⟩
  | inactive hlwe hpassed hruns hdrf hqueue =>
    rw [hruns, hpassed]
    exact ⟨run, hrun, hp⟩

theorem Effect.idle {cfg : Config} {src : List Pdu} {r r' : Rcv} (h : Effect cfg src r r')
    (hr : r.drfRequired = true → r.lwe = 0) : r'.drfRequired = true → r'.lwe = 0 := by
  intro hd
  cases h with
  | advance ps h hq hps =>
    rw [h.drfRequired] at hd
    have hf := h.follows
    rw [hps hd] at hf
    exact hf.symm.trans (hr hd)
  | restart du hsrc hwas hlwe hpassed hruns hdrf hqueue =>
    exact absurd (hdrf.symm.trans hd) Bool.false_ne_true
  | inactive hlwe hpassed hruns hdrf hqueue => exact hlwe

theorem acknowledges_step {cfg : Config} {r : Rcv} {a : RcvAct}
    (hord : cfg.rtxCtrl = true ∨ cfg.a = 0) (hgap : cfg.maxSduGap < 4294967296)
    (hr : Ordered cfg r ∧ Acknowledges r) (ha : a.Fits cfg) :
    Ordered cfg (rcvStep cfg r a).1 ∧ Acknowledges (rcvStep cfg r a).1 := by
  obtain ⟨ho, hk⟩ := hr
  have heff := rcvStep_effect hord ho.bounded ha
  have ho' := ordered_step hord ho hgap ha
  have hidle := heff.idle hk.idle
  have hold : ∀ x ∈ r.acked, ∃ run ∈ (rcvStep cfg r a).1.passedRuns ++ [(rcvStep cfg r a).1.passed],
      ∃ p ∈ run, p.seq = x := by
    intro x hx
    obtain ⟨run, hrun, p, hp, hseq⟩ := hk.passed x hx
    obtain ⟨run', hrun', hp'⟩ := heff.history ⟨run, hrun, hp⟩
    exact ⟨run', hrun', p, hp', hseq⟩
  refine ⟨ho', ?_⟩
  rcases rcvStep_ackStep cfg r a with ⟨hacked, hlast⟩ | ⟨hlt, hacked, hlast⟩
  · refine ⟨hidle, ?_, ?_, ?_⟩
    · rw [hacked]
      exact hk.sorted
    · rw [hacked, hlast]
      exact hk.below
    · rw [hacked]
      exact hold
  · -- the acknowledged number is that of the PDU posted last
    have hdrf : (rcvStep cfg r a).1.drfRequired = false := by
      refine Bool.eq_false_iff.mpr fun hd => ?_
      rw [hidle hd] at hlt
      exact Nat.not_lt_zero _ hlt
    obtain ⟨p, hp, hseq⟩ := ho'.last hdrf
    refine ⟨hidle, ?_, ?_, ?_⟩
    · rw [hacked]
      refine List.pairwise_append.mpr ⟨hk.sorted, List.pairwise_singleton _ _, ?_⟩
      intro x hx y hy
      rw [List.mem_singleton.mp hy]
      exact (hk.below x hx).trans_lt hlt
    · rw [hacked, hlast]
      intro x hx
      rcases List.mem_append.mp hx with hx | hx
      · exact (hk.below x hx).trans hlt.le
      · exact Nat.le_of_eq (List.mem_singleton.mp hx)
    · rw [hacked]
      intro x hx
      rcases List.mem_append.mp hx with hx | hx
      · exact hold x hx
      · rw [List.mem_singleton.mp hx]
        exact ⟨_, List.mem_append_right _ List.mem_cons_self, p, List.mem_of_getLast? hp, hseq⟩

/-- The receiver acknowledges only numbers of PDUs that it has handed over or that `to_post` did not
take, and each only once, also when the numbers start again: in a data run that starts below the
last acknowledgement of the runs before it, nothing is acknowledged until it has passed that
number. -/
theorem rcvRun_acks (cfg : Config) (acts : List RcvAct)
    (hord : cfg.rtxCtrl = true ∨ cfg.a = 0) (hgap : cfg.maxSduGap < 4294967296)
    (hacts : ∀ a ∈ acts, a.Fits cfg) :
    (rcvRun cfg acts).acked.Pairwise (· < ·) ∧ ∀ x ∈ (rcvRun cfg acts).acked, ∃ p : Pdu,
      p.seq = x ∧ ((∃ run ∈ (rcvRun cfg acts).handedOver, p ∈ run) ∨
        p ∈ (rcvRun cfg acts).unposted) := by
  have hinit : Ordered cfg (Rcv.init cfg) ∧ Acknowledges (Rcv.init cfg) :=
    ⟨ordered_init cfg hgap, fun _ => rfl, List.Pairwise.nil,
      fun x hx => absurd hx List.not_mem_nil, fun x hx => absurd hx List.not_mem_nil⟩
  have h : Ordered cfg (rcvRun cfg acts) ∧ Acknowledges (rcvRun cfg acts) :=
    @rcvRun_invariant cfg (fun r => Ordered cfg r ∧ Acknowledges r) _ hinit
      (fun r a hr ha => acknowledges_step hord hgap hr ha) _ hacts
  refine ⟨h.2.sorted, fun x hx => ?_⟩
  obtain ⟨run, hrun, p, hp, hseq⟩ := h.2.passed x hx
  exact ⟨p, hseq, (rcvRun_sifted cfg acts).mem ⟨run, hrun, hp⟩⟩

/-- Two data runs, the second with lower numbers. -/
def restarted : List RcvAct :=
  [.receive (pdu 900) 0, .receive (pdu 901) 0, .inactivity, .receive (pdu 7) 0, .receive (pdu 8) 0]

theorem restarted_acks :
    ((rcvRun reliable restarted).acked = [900, 901] ∧
      (rcvRun reliable restarted).posted = [pdu 7, pdu 8]) ∧
    ((rcvRun reliable restarted).acked.Pairwise (· < ·) ∧ ∀ x ∈ (rcvRun reliable restarted).acked,
      ∃ p : Pdu, p.seq = x ∧ ((∃ run ∈ (rcvRun reliable restarted).handedOver, p ∈ run) ∨
        p ∈ (rcvRun reliable restarted).unposted)) :=
  ⟨by decide +kernel, rcvRun_acks reliable restarted (.inl rfl) (by decide) (by decide)⟩

end PepDna.Rina.Efcp
