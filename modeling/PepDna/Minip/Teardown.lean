import PepDna.Minip.Effects

/-!
# Teardown of a MINIP connection

A connection is live until `rtxq_destroy` runs, and torn down from then on. While
it is live every reference of the work is counted on top of the one of
`kref_init`; once it is torn down only the references of the work are left, its
timer is stopped and nothing arms it again, and the work finds `lflag` cleared.
-/

namespace PepDna.Minip

def running : WorkPc → ℕ
  | .idle => 0
  | _ => 1

/-- The references held by `l2r_work`, pending or executing. -/
def workRefs (c : Con) : ℕ := (if c.pending then 1 else 0) + running c.pc

structure Live (c : Con) : Prop where
  destroys : c.destroys = 0
  drops : c.drops = 0
  uaf : c.uaf = false
  lsock : c.lsock = true
  hashed : c.hashed = true
  kref : c.kref = 1 + workRefs c

structure Torn (c : Con) : Prop where
  destroys : c.destroys = 1
  drops : c.drops = 1
  uaf : c.uaf = false
  kref : c.kref = workRefs c
  lflag : c.lflag = false
  timer : c.timer = false

theorem live_openCon (mode : Mode) (syn : SynTuple) : Live (openCon mode syn) :=
  ⟨rfl, rfl, rfl, rfl, rfl, rfl⟩

/- The fields `Live` speaks of. -/
def livePart (c : Con) :=
  (c.destroys, c.drops, c.uaf, c.lsock, c.hashed, c.kref, c.pending, c.pc)

theorem live_store (c c' : Con) (hc : Live c) (h : livePart c' = livePart c) : Live c' := by
  simp only [livePart, Prod.mk.injEq] at h
  obtain ⟨h1, h2, h3, h4, h5, h6, h7, h8⟩ := h
  refine ⟨h1.trans hc.destroys, h2.trans hc.drops, h3.trans hc.uaf, h4.trans hc.lsock,
    h5.trans hc.hashed, ?_⟩
  rw [h6, workRefs, h7, h8]
  exact hc.kref

/-- The work moves without taking or dropping its reference. -/
theorem live_move (c c' : Con) (hc : Live c) (h : livePart { c' with pc := c.pc } = livePart c)
    (hr : running c'.pc = running c.pc) : Live c' := by
  have hl := live_store c { c' with pc := c.pc } hc h
  refine ⟨hl.destroys, hl.drops, hl.uaf, hl.lsock, hl.hashed, ?_⟩
  have hk := hl.kref
  rw [workRefs, ← hr] at hk
  exact hk

theorem live_touch (c : Con) (hc : Live c) : touchRtxq c = c := by
  have hd := hc.destroys
  cases c
  simp_all [touchRtxq]

theorem live_dataReady (c : Con) (hc : Live c) : Live (pepdnaL2rConnDataReady c) := by
  have hk := hc.kref
  have h0 : c.kref ≠ 0 := by omega
  rw [pepdnaL2rConnDataReady_eq]
  refine ⟨hc.destroys, hc.drops, hc.uaf, ?_, ?_, ?_⟩
  · simp [h0, hc.lsock]
  · simp [h0, hc.hashed]
  · simp only [workRefs] at hk ⊢
    cases hp : c.pending <;> cases hu : c.userData && c.lflag <;> simp [hp, hk, Nat.add_comm]

theorem live_wake (c : Con) (hc : Live c) : Live (wakeLsock c) := by
  unfold wakeLsock
  rw [if_pos hc.lsock]
  exact live_dataReady c hc

/- What a step of a live connection makes of it. -/
def LiveOrTorn (c : Con) : Prop := Live c ∨ Torn c

/-- A close is deferred while `rflag` is set, and tears the connection down otherwise. -/
theorem live_close (c : Con) (hc : Live c) : LiveOrTorn (pepdnaConClose c) := by
  have hk := hc.kref
  rw [pepdnaConClose_eq]
  cases hr : c.rflag with
  | true =>
    left
    have hf : fullClose c = false := by simp [fullClose, hr]
    have hd : dropClose c = false := by simp [dropClose, hr, hc.lsock]
    refine ⟨?_, ?_, ?_, ?_, ?_, ?_⟩
    · simp only [hf, Bool.false_eq_true, if_false, hc.destroys]
    · simp only [hd, Bool.false_eq_true, if_false, hc.drops]
    · simp only [hf, hc.uaf, Bool.false_and, Bool.or_false]
    · simp only [hd, hc.lsock, Bool.false_and, Bool.not_false, Bool.and_true]
    · simp only [hd, hc.hashed, Bool.false_and, Bool.not_false, Bool.and_true]
    · simp only [hd, Bool.false_eq_true, if_false]
      exact hk
  | false =>
    right
    have hf : fullClose c = true := by simp [fullClose, hr, hc.lsock]
    have hd : dropClose c = true := by simp [dropClose, hr]
    refine ⟨?_, ?_, ?_, ?_, ?_, ?_⟩
    · simp only [hf, if_true, hc.destroys]
    · simp only [hd, if_true, hc.drops]
    · simp only [hc.destroys, hc.uaf, Bool.false_or, lt_irrefl, decide_false, Bool.and_false]
    · simp only [hd, if_true, workRefs] at hk ⊢
      omega
    · simp [hc.lsock]
    · simp [hc.lsock]

theorem live_delete_close (c : Con) (hc : Live c) :
    LiveOrTorn (pepdnaConClose (transmit c (.delete c.id))) :=
  live_close _ (live_store c _ hc rfl)

theorem live_fullRtx (c : Con) (ack now : ℕ) (xmit : ℕ → Int) (hc : Live c) :
    Live (rtxqFullRtx c ack now xmit).1 := by
  unfold rtxqFullRtx
  rw [live_touch c hc]
  exact live_store c _ hc rfl

theorem live_timeout (c : Con) (now : ℕ) (xmit : ℕ → Int) (hc : Live c) :
    LiveOrTorn (minipSenderTimeout c now xmit) := by
  have hoff : Live { c with timer := false } := live_store c _ hc rfl
  unfold minipSenderTimeout
  rw [live_touch _ hoff]
  dsimp only
  split
  · have hrtx := live_fullRtx { c with timer := false, sending := false, state := .recovery }
      (u32 (c.lastAcked + 1)) now xmit (live_store c _ hc rfl)
    split
    · exact Or.inl (live_store _ _ hrtx rfl)
    · exact live_delete_close _ hrtx
  · exact Or.inl (live_store c _ hc rfl)

theorem live_newAck (c : Con) (ack : ℕ) (hc : Live c) : Live (recvNewAck c ack) := by
  have hack : Live (rtxqAck c ack).1 := by
    unfold rtxqAck
    rw [live_touch c hc]
    exact live_store c _ hc rfl
  unfold recvNewAck
  dsimp only
  refine live_wake _ (live_store _ _ hack ?_)
  split <;> split <;> rfl

theorem live_dupAck (c : Con) (ack now : ℕ) (xmit : ℕ → Int) (hc : Live c) :
    LiveOrTorn (recvDupAck c ack now xmit) := by
  unfold recvDupAck
  dsimp only
  have hset : Live { c with
      dupAcks := u32 (c.dupAcks + 1), state := .recovery, sending := false } :=
    live_store c _ hc rfl
  split
  · exact Or.inl hset
  · have hrtx := live_fullRtx _ ack now xmit hset
    split
    · exact Or.inl hrtx
    · exact live_delete_close _ hrtx

theorem live_recvAck (c : Con) (ack ts now : ℕ) (xmit : ℕ → Int) (hc : Live c) :
    LiveOrTorn (pepdnaMinipRecvAck c ack ts now xmit) := by
  unfold pepdnaMinipRecvAck
  split
  · exact Or.inl hc
  · have hs : Live (ackSample c ts now) := by
      rw [ackSample_eq]
      exact live_store c _ hc rfl
    dsimp only
    split
    · exact Or.inl (live_newAck _ ack hs)
    · exact live_dupAck _ ack now xmit hs

theorem live_finish (c : Con) (d : DataPdu) (sent : Int) (hc : Live c) :
    LiveOrTorn (minip2iFinish c d sent) := by
  unfold minip2iFinish
  dsimp only
  split
  · exact live_close _ (live_store c _ hc rfl)
  · split
    · exact live_close _ (live_store c _ hc rfl)
    · exact Or.inl (live_store c _ hc rfl)

theorem live_recvPacket (c : Con) (p : Packet) (now : ℕ) (xmit : ℕ → Int) (hc : Live c) :
    LiveOrTorn (pepdnaMinipRecvPacket c p now xmit) := by
  unfold pepdnaMinipRecvPacket
  split
  · cases p with
    | request => exact Or.inl hc
    | response => exact Or.inl (live_store c _ hc rfl)
    | data d =>
      dsimp only
      unfold pepdnaConMinip2iFwd
      split
      · split
        · dsimp only
          split
          · exact live_finish c d 0 hc
          · exact Or.inl (live_store c _ hc rfl)
        · exact Or.inl (live_store c _ hc rfl)
      · exact Or.inl (live_store c _ hc rfl)
    | ack id k ts => exact live_recvAck c k ts now xmit hc
    | delete id => exact live_close _ (live_store c _ hc rfl)
    | finished id => exact live_close _ (live_store c _ hc rfl)
  · exact Or.inl hc

theorem live_work (c c' : Con) (i : WorkIn) (hc : Live c) (h : WorkStep c i c') :
    LiveOrTorn c' := by
  have hk := hc.kref
  have hpc (c' : Con) (h : livePart { c' with pc := c.pc } = livePart c)
      (hr : running c.pc = 1) (hr' : running c'.pc = 1) : LiveOrTorn c' :=
    Or.inl (live_move c c' hc h (hr'.trans hr.symm))
  cases workStep_line c c' i h with
  | start he hp =>
    refine Or.inl ⟨hc.destroys, hc.drops, hc.uaf, hc.lsock, hc.hashed, ?_⟩
    simp only [workRefs, he, hp, running] at hk ⊢
    exact hk
  | jump _ pc pc' he hj => cases hj <;> exact hpc _ rfl (by rw [he]; rfl) rfl
  | read howMuch bs he => exact hpc _ rfl (by rw [he]; rfl) rfl
  | send left sent o now he =>
    have hs : livePart { (pepdnaMinipSkbSend c (left.take MINIP_MSS) o now).1 with pc := c.pc } =
        livePart c := by
      unfold pepdnaMinipSkbSend
      rw [live_touch c hc]
      cases o <;> rfl
    unfold sndData
    dsimp only
    split
    · split
      · exact hpc _ hs (by rw [he]; rfl) rfl
      · exact hpc _ hs (by rw [he]; rfl) rfl
    · exact hpc _ hs (by rw [he]; rfl) rfl
  | advance left sent he =>
    refine hpc _ rfl (by rw [he]; rfl) ?_
    unfold sndAdvance
    dsimp only
    split <;> rfl
  | delete rc he => exact hpc _ rfl (by rw [he]; rfl) rfl
  | close he =>
    have hrun : running (pepdnaConClose c).pc = 1 := by
      rw [(keeps_close c).pc, he]
      rfl
    rcases live_close c hc with hl | ht
    · exact Or.inl (live_move _ _ hl rfl hrun.symm)
    · refine Or.inr ⟨ht.destroys, ht.drops, ht.uaf, ?_, ht.lflag, ht.timer⟩
      have htk := ht.kref
      rw [workRefs, hrun] at htk
      exact htk
  | put he =>
    rw [pepdnaConPut_eq]
    simp only [workRefs, he, running] at hk
    have h1 : c.kref ≠ 1 := by omega
    refine Or.inl ⟨hc.destroys, hc.drops, hc.uaf, ?_, ?_, ?_⟩
    · simp [hc.lsock, h1]
    · simp [hc.hashed, h1]
    · simp only [workRefs, running]
      omega

theorem live_step (c c' : Con) (a : Act) (hc : Live c) (ht : c.tcfa = .done)
    (hs : c.synPending = false) (h : conStep c a = some c') : LiveOrTorn c' := by
  cases conStep_lines c c' a h with
  | tcfa rc now c' h =>
    rw [tcfaStep_done c rc now ht] at h
    cases h
  | accept c' hp =>
    rw [hs] at hp
    cases hp
  | dataReady => exact Or.inl (live_dataReady c hc)
  | work i c' hw => exact live_work c c' i hc hw
  | timeout now xmit => exact live_timeout c now xmit hc
  | recv p now xmit => exact live_recvPacket c p now xmit hc
  | sendmsg rc c' hm =>
    cases sendmsg_lines c c' rc hm with
    | again r w => exact Or.inl (live_store c _ hc rfl)
    | ret r v => exact live_finish _ _ _ (live_store c _ hc rfl)

/- ### The condition under which nothing goes wrong -/

/-- The work is not between its test of `lflag` and the end of the loop body. -/
def outsideLoop : WorkPc → Bool
  | .idle => true
  | .test => true
  | .put => true
  | _ => false

/-- The handler of a packet of the connection starts after `rtxq_destroy`. -/
def latePacket (c : Con) : Act → Bool
  | .recv p _ _ => decide (0 < c.destroys ∧ c.hashed = true ∧ p.id = c.id)
  | _ => false

/-- No other thread than the one of the step is in the middle of using the connection. -/
def alone (c : Con) : Act → Bool
  | .work _ => c.rx.isNone
  | .sendmsg _ => outsideLoop c.pc
  | _ => outsideLoop c.pc && c.rx.isNone

/-- No late packet, and a step that executes `rtxq_destroy` is alone. -/
def TeardownOk (c : Con) (a : Act) : Prop :=
  latePacket c a = false ∧
    ∀ c', conStep c a = some c' → c.destroys < c'.destroys → alone c a = true

instance (c : Con) (a : Act) : Decidable (TeardownOk c a) :=
  decidable_of_iff (latePacket c a = false ∧
    ∀ c' ∈ (conStep c a).toList, c.destroys < c'.destroys → alone c a = true)
    (by simp only [TeardownOk, Option.mem_toList])

/- Between `rtxq_destroy` and the release nothing but the work is left, and it only runs out. -/
structure TornDown (c : Con) : Prop where
  torn : Torn c
  pc : outsideLoop c.pc = true
  rx : c.rx = none

theorem tornDown_work (c c' : Con) (i : WorkIn) (hc : TornDown c) (h : WorkStep c i c') :
    TornDown c' := by
  obtain ⟨ht, hpc, hx⟩ := hc
  have hk := ht.kref
  have hno (pc : WorkPc) (he : c.pc = pc) (ho : outsideLoop pc = false) : TornDown c' := by
    rw [he, ho] at hpc
    cases hpc
  cases h with
  | start he hp =>
    refine ⟨⟨ht.destroys, ht.drops, ht.uaf, ?_, ht.lflag, ht.timer⟩, rfl, hx⟩
    simp only [workRefs, he, hp, running] at hk ⊢
    exact hk
  | test he =>
    rw [ht.lflag]
    refine ⟨⟨ht.destroys, ht.drops, ht.uaf, ?_, rfl, ht.timer⟩, rfl, hx⟩
    simp only [workRefs, he, running] at hk ⊢
    exact hk
  | put he =>
    rw [pepdnaConPut_eq]
    refine ⟨⟨ht.destroys, ht.drops, ht.uaf, ?_, ht.lflag, ht.timer⟩, rfl, hx⟩
    simp only [workRefs, he, running] at hk ⊢
    omega
  | canSend he => exact hno _ he rfl
  | nomem howMuch he => exact hno _ he rfl
  | read howMuch bs he => exact hno _ he rfl
  | recvRet howMuch rc he => exact hno _ he rfl
  | send left sent o now he => exact hno _ he rfl
  | advance left sent he => exact hno _ he rfl
  | delete rc he => exact hno _ he rfl
  | close he => exact hno _ he rfl

theorem tornDown_step (c c' : Con) (a : Act) (hc : TornDown c) (he : Est c)
    (hlate : latePacket c a = false) (h : conStep c a = some c') : TornDown c' := by
  cases conStep_lines c c' a h with
  | tcfa rc now c' h =>
    rw [tcfaStep_done c rc now he.tcfa] at h
    cases h
  | accept c' hp =>
    rw [he.syn] at hp
    cases hp
  | dataReady =>
    simp only [pepdnaL2rConnDataReady, hc.torn.lflag, Bool.and_false, Bool.false_eq_true, if_false]
    exact hc
  | work i c' hw => exact tornDown_work c c' i hc hw
  | timeout now xmit ht =>
    rw [hc.torn.timer] at ht
    cases ht
  | recv p now xmit =>
    have hd := hc.torn.destroys
    have hskip : ¬(c.hashed = true ∧ p.id = c.id) :=
      fun hp => decide_eq_false_iff_not.mp hlate ⟨by omega, hp⟩
    unfold pepdnaMinipRecvPacket
    rw [if_neg hskip]
    exact hc
  | sendmsg rc c' hm => simp [minip2iSendmsg, hc.rx] at hm

theorem finish_rx (c : Con) (d : DataPdu) (sent : Int) : (minip2iFinish c d sent).rx = none := by
  by_cases hv : sent < 0
  · exact (calm_finish_neg c d sent hv).rx
  · exact (calm_finish_nonneg c d sent (by omega)).rx

/-- The queue is destroyed by the last line of the close of the work. -/
theorem work_destroys (c c' : Con) (i : WorkIn) (h : WorkStep c i c')
    (hd : c.destroys < c'.destroys) : c'.pc = .test := by
  cases h with
  | close he => rfl
  | send left sent o now he =>
    have hs : (sndData c left sent o now).destroys = c.destroys := by
      unfold sndData
      dsimp only
      cases o <;> split <;> first | rfl | (split <;> rfl)
    omega
  | put he =>
    rw [pepdnaConPut_eq] at hd
    exact absurd hd (lt_irrefl _)
  | _ => exact absurd hd (lt_irrefl _)

/-- A handler that destroys the queue has returned from its write. -/
theorem sendmsg_destroys (c c' : Con) (rc : Int) (h : minip2iSendmsg c rc = some c')
    (hd : c.destroys < c'.destroys) : c'.rx = none := by
  cases sendmsg_lines c c' rc h with
  | again r w => exact absurd hd (lt_irrefl _)
  | ret r v => exact finish_rx _ _ _

theorem tornDown_of_alone (c c' : Con) (a : Act) (he : Est c) (h : conStep c a = some c')
    (hd : c.destroys < c'.destroys) (ht : Torn c') (ha : alone c a = true)
    (hp : ∀ p now xmit, a = .recv p now xmit → p.isSetup = false) : TornDown c' := by
  have hpc : (∃ i, a = .work i) ∨ c'.pc = c.pc := by
    rcases conStep_keeps c c' a h he.tcfa he.syn with ⟨i, hi, -⟩ | hk | ⟨_, _, _, _, _, _, hk⟩
    · exact Or.inl ⟨i, hi⟩
    · exact Or.inr hk.pc
    · exact Or.inr hk.pc
  have hrx : (∃ rc, a = .sendmsg rc) ∨ c'.rx = c.rx ∨ c'.rx = none := by
    cases conStep_rcv c c' a h he hp with
    | calm hcalm => exact Or.inr (Or.inl hcalm.rx)
    | begin d now xmit ha' hseq hx hne hc' =>
      subst hc'
      exact absurd hd (lt_irrefl _)
    | empty d now xmit ha' hemp hc' => exact Or.inr (Or.inr (hc' ▸ finish_rx c d 0))
    | again r w rc hx hdead hit hc' =>
      subst hc'
      exact absurd hd (lt_irrefl _)
    | ret r v rc hx hdead hit hc' => exact Or.inr (Or.inr (hc' ▸ finish_rx _ _ _))
  refine ⟨ht, ?_, ?_⟩
  · rcases hpc with ⟨i, rfl⟩ | hpc
    · rw [work_destroys c c' i (workStep_cases c c' i h) hd]
      rfl
    · rw [hpc]
      cases a with
      | work i => rw [← hpc, work_destroys c c' i (workStep_cases c c' i h) hd]; rfl
      | sendmsg rc => exact ha
      | _ => exact (Bool.and_eq_true_iff.mp ha).1
  · cases a with
    | sendmsg rc => exact sendmsg_destroys c c' rc h hd
    | work i =>
      rcases hrx with ⟨rc, hr⟩ | hr | hr
      · cases hr
      · exact hr.trans (Option.isNone_iff_eq_none.mp ha)
      · exact hr
    | _ =>
      rcases hrx with ⟨rc, hr⟩ | hr | hr
      · cases hr
      · exact hr.trans (Option.isNone_iff_eq_none.mp (Bool.and_eq_true_iff.mp ha).2)
      · exact hr

structure Teardown (c : Con) : Prop where
  est : Est c
  phase : Live c ∨ TornDown c

theorem teardown_step (c : Con) (a : Act) (c' : Con) (hc : Teardown c)
    (hok : TeardownOk c a ∧ ∀ p now xmit, a = .recv p now xmit → p.isSetup = false)
    (h : conStep c a = some c') : Teardown c' := by
  obtain ⟨⟨hlate, hdes⟩, hp⟩ := hok
  refine ⟨est_rcv c c' a hc.est (conStep_rcv c c' a h hc.est hp), ?_⟩
  rcases hc.phase with hl | ht
  · rcases live_step c c' a hl hc.est.tcfa hc.est.syn h with hl' | ht'
    · exact Or.inl hl'
    · have hd : c.destroys < c'.destroys := by
        rw [hl.destroys, ht'.destroys]
        omega
      exact Or.inr (tornDown_of_alone c c' a hc.est h hd ht' (hdes c' h hd) hp)
  · exact Or.inr (tornDown_step c c' a ht hc.est hlate h)

/-- No packet that the peer sends to set up a connection. -/
def NoSetup (a : Act) : Prop := ∀ p now xmit, a = .recv p now xmit → p.isSetup = false

instance : DecidablePred NoSetup
  | .recv p now xmit => decidable_of_iff (p.isSetup = false)
      ⟨fun h _ _ _ he => by cases he; exact h, fun h => h p now xmit rfl⟩
  | .tcfa .. => isTrue nofun
  | .accept => isTrue nofun
  | .dataReady => isTrue nofun
  | .work _ => isTrue nofun
  | .timeout .. => isTrue nofun
  | .sendmsg _ => isTrue nofun

theorem teardown_run (mode : Mode) (syn : SynTuple) (acts : List Act) (c : Con)
    (h : Lts.run conStep (openCon mode syn) acts = some c) (hp : ∀ a ∈ acts, NoSetup a)
    (hok : Lts.Along conStep TeardownOk (openCon mode syn) acts) : Teardown c :=
  Lts.run_invariant_along Teardown _ teardown_step _ c acts
    ⟨est_openCon mode syn, Or.inl (live_openCon mode syn)⟩
    (Lts.along_and _ _ _ acts hok (Lts.along_of_forall NoSetup _ acts hp)) h

/-- When no packet is handled after `rtxq_destroy` and `rtxq_destroy` meets no other thread, the
queue is destroyed once and not used afterwards, and the release finds work and timer at rest. -/
theorem teardownRun_safe (mode : Mode) (syn : SynTuple) (acts : List Act) (c : Con)
    (h : Lts.run conStep (openCon mode syn) acts = some c) (hp : ∀ a ∈ acts, NoSetup a)
    (hok : Lts.Along conStep TeardownOk (openCon mode syn) acts) :
    c.destroys ≤ 1 ∧ c.uaf = false ∧
      (c.kref = 0 → c.pending = false ∧ c.pc = .idle ∧ c.timer = false) := by
  rcases (teardown_run mode syn acts c h hp hok).phase with hl | ht
  · refine ⟨le_of_eq_of_le hl.destroys (Nat.zero_le 1), hl.uaf, fun h0 => ?_⟩
    have hk := hl.kref
    omega
  · refine ⟨le_of_eq ht.torn.destroys, ht.torn.uaf, fun h0 => ?_⟩
    have hk := ht.torn.kref
    rw [h0, workRefs] at hk
    refine ⟨?_, ?_, ht.torn.timer⟩
    · cases hp : c.pending
      · rfl
      · rw [hp] at hk
        simp only [if_true] at hk
        omega
    · cases hpc : c.pc <;> rw [hpc] at hk <;> simp only [running] at hk <;> first | rfl | omega

/- The work runs out of data and returns, then the DELETE of the peer comes in. -/
def orderlyTeardown : List Act :=
  [.work .tau, .work .tau, .work .tau, .work (.recvRet (-EAGAIN)), .work .tau,
    .recv (.delete sampleSyn.hashId) 0 fun _ => 0]

theorem orderlyTeardown_released :
    ∃ c, Lts.run conStep (openCon .minip2tcp sampleSyn) orderlyTeardown = some c ∧ c.kref = 0 ∧
      c.destroys = 1 ∧ c.uaf = false ∧ c.pc = .idle ∧ c.timer = false := by
  have hrun : Lts.run conStep (openCon .minip2tcp sampleSyn) orderlyTeardown =
      some ((Lts.run conStep (openCon .minip2tcp sampleSyn) orderlyTeardown).getD
        (openCon .minip2tcp sampleSyn)) := by decide +kernel
  obtain ⟨-, hu, h0⟩ := teardownRun_safe .minip2tcp sampleSyn orderlyTeardown _ hrun
    (by decide +kernel) (by decide +kernel)
  have hk := h0 (by decide +kernel)
  exact ⟨_, hrun, by decide +kernel, by decide +kernel, hu, hk.2.1, hk.2.2⟩

/- Two copies of the DELETE of the peer while the work is queued. -/
def twoDeletes : List Act :=
  [.recv (.delete sampleSyn.hashId) 0 fun _ => 0, .recv (.delete sampleSyn.hashId) 0 fun _ => 0]

def twoDeletesCon : Con :=
  (Lts.run conStep (openCon .tcp2minip sampleSyn) twoDeletes).getD (openCon .tcp2minip sampleSyn)

theorem twoDeletes_destroyed_twice :
    Lts.run conStep (openCon .tcp2minip sampleSyn) twoDeletes = some twoDeletesCon ∧
      twoDeletesCon.destroys = 2 ∧ twoDeletesCon.uaf = true ∧ twoDeletesCon.kref = 0 ∧
      twoDeletesCon.pending = true := by
  decide +kernel

end PepDna.Minip
