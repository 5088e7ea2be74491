import PepDna.Minip.Session
import PepDna.Minip.Teardown

/-!
# How a connection ends

The references of a connection from its allocation on, the packets that each step
puts on the wire, and how a step closes: a handler closes only after a DELETE, the
work closes one step after its own, and the peer's DELETE or FINISHED drops the
reference of `kref_init`.
-/

namespace PepDna.Minip

variable {ks : List Kind}

/- ### References from the allocation on -/

structure Held (c : Con) : Prop where
  kept : c.drops = 0 → c.kref = 1 + workRefs c ∧ c.hashed = true
  dropped : 0 < c.drops → c.kref ≤ workRefs c
  hashed : c.hashed = true → 0 < c.kref

theorem held_alloc (mode : Mode) (syn : SynTuple) (id : ℕ) : Held (pepdnaConAlloc mode syn id) :=
  ⟨fun _ => ⟨rfl, rfl⟩, fun h => absurd h (lt_irrefl 0), fun _ => Nat.zero_lt_one⟩

theorem held_store (c c' : Con) (hc : Held c)
    (h : (c'.drops, c'.kref, c'.hashed, workRefs c') = (c.drops, c.kref, c.hashed, workRefs c)) :
    Held c' := by
  simp only [Prod.mk.injEq] at h
  obtain ⟨h1, h2, h3, h4⟩ := h
  refine ⟨?_, ?_, ?_⟩
  · rw [h1, h2, h3, h4]
    exact hc.kept
  · rw [h1, h2, h4]
    exact hc.dropped
  · rw [h2, h3]
    exact hc.hashed

theorem held_core (c c' : Con) (hc : Held c) (h : corePart c' = corePart c) : Held c' := by
  simp only [corePart, Prod.mk.injEq] at h
  obtain ⟨-, -, -, h1, -, -, h2, -, h3, h4, -, -, -, h5⟩ := h
  refine held_store c c' hc ?_
  simp only [workRefs, h1, h2, h3, h4, h5]

/-- One reference is given back, that of `kref_init` or that of the work. -/
theorem held_put (kref refs refs' drops drops' : ℕ) (hashed : Bool)
    (kept : drops = 0 → kref = 1 + refs ∧ hashed = true) (dropped : 0 < drops → kref ≤ refs)
    (hhashed : hashed = true → 0 < kref)
    (h : (drops' = drops + 1 ∧ refs' = refs) ∨ (drops' = drops ∧ refs = refs' + 1)) :
    (drops' = 0 → kref - 1 = 1 + refs' ∧ (hashed && decide (kref ≠ 1)) = true) ∧
      (0 < drops' → kref - 1 ≤ refs') ∧
      ((hashed && decide (kref ≠ 1)) = true → 0 < kref - 1) := by
  refine ⟨?_, ?_, ?_⟩
  · intro h0
    have hk := kept (by omega)
    have h1 : kref ≠ 1 := by omega
    simp only [hk.2, h1, ne_eq, not_false_eq_true, decide_true, Bool.and_self, and_true]
    omega
  · intro hpos
    rcases Nat.eq_zero_or_pos drops with h0 | h0
    · have hk := kept h0
      omega
    · have hk := dropped h0
      omega
  · intro hh
    simp only [Bool.and_eq_true, decide_eq_true_eq] at hh
    have hk := hhashed hh.1
    omega

theorem held_close (c : Con) (hc : Held c) : Held (pepdnaConClose c) := by
  rw [pepdnaConClose_eq]
  cases hd : dropClose c with
  | false =>
    refine held_store c _ hc ?_
    simp only [workRefs, Bool.false_eq_true, if_false, Bool.false_and, Bool.not_false,
      Bool.and_true]
  | true =>
    obtain ⟨h1, h2, h3⟩ := held_put c.kref (workRefs c) (workRefs c) c.drops (c.drops + 1) c.hashed
      hc.kept hc.dropped hc.hashed (Or.inl ⟨rfl, rfl⟩)
    simp only [if_true, Bool.true_and]
    rw [← decide_not]
    exact ⟨h1, h2, h3⟩

theorem held_ready (c : Con) (hc : Held c) : Held (pepdnaL2rConnDataReady c) := by
  have hrefs : workRefs (pepdnaL2rConnDataReady c) =
      workRefs c + if (c.userData && c.lflag) && !c.pending then 1 else 0 := by
    rw [pepdnaL2rConnDataReady_eq]
    cases hp : c.pending <;> cases hu : c.userData && c.lflag <;>
      simp [workRefs, hp, Nat.add_comm]
  have hkref : (pepdnaL2rConnDataReady c).kref =
      c.kref + if (c.userData && c.lflag) && !c.pending then 1 else 0 := by
    rw [pepdnaL2rConnDataReady_eq]
    dsimp only
    split <;> rfl
  have hdrops : (pepdnaL2rConnDataReady c).drops = c.drops := by
    rw [pepdnaL2rConnDataReady_eq]
  have hhashed : (pepdnaL2rConnDataReady c).hashed =
      (c.hashed && !(c.userData && c.lflag && c.pending && decide (c.kref = 0))) := by
    rw [pepdnaL2rConnDataReady_eq]
  refine ⟨?_, ?_, ?_⟩
  · intro h0
    have hk := hc.kept (hdrops ▸ h0)
    have hne : c.kref ≠ 0 := by omega
    rw [hrefs, hkref, hhashed]
    exact ⟨by omega, by simp [hk.2, hne]⟩
  · intro h0
    have hk := hc.dropped (hdrops ▸ h0)
    omega
  · intro hh
    rw [hhashed] at hh
    have hk := hc.hashed (Bool.and_eq_true_iff.mp hh).1
    omega

theorem held_wake (c : Con) (hc : Held c) : Held (wakeLsock c) := by
  unfold wakeLsock
  split
  · exact held_ready c hc
  · exact held_core c _ hc rfl

theorem held_ops (c c' : Con) (h : Ops ks c c') (hc : Held c) : Held c' := by
  induction h with
  | store c c' h ht => exact held_core c c' hc h
  | send c c' ps h ht hp => exact held_core c c' hc h
  | ready c h => exact held_ready c hc
  | notify c hk => exact held_close _ (held_core c _ hc rfl)
  | trans c d e h h' ih ih' => exact ih' (ih hc)

theorem held_work (c c' : Con) (h : WorkCase c c') (hc : Held c) : Held c' := by
  have hrun (pc : WorkPc) (hpc : pc ≠ .idle) : running pc = 1 := by
    cases pc with
    | idle => exact absurd rfl hpc
    | _ => rfl
  cases h with
  | start hpc hp =>
    refine held_store c _ hc ?_
    simp [workRefs, hpc, hp, running]
  | move c' ps h ht hp hpc hpc' =>
    have hm := held_core c { c' with pc := c.pc } hc h
    refine held_store _ c' hm ?_
    simp only [workRefs, hrun c.pc hpc, hrun c'.pc hpc'.1]
  | delete rc hpc =>
    refine held_store c _ hc ?_
    simp only [workRefs, transmit, hpc, running]
  | close hpc =>
    have hcl := held_close c hc
    refine held_store _ _ hcl ?_
    have hpc' : (pepdnaConClose c).pc = .close := by
      rw [pepdnaConClose_eq]
      exact hpc
    simp only [workRefs, hpc', running]
  | put hpc =>
    rw [pepdnaConPut_eq]
    have hrefs : workRefs c = workRefs { c with pc := .idle } + 1 := by
      simp only [workRefs, hpc, running]
    obtain ⟨h1, h2, h3⟩ := held_put c.kref (workRefs c) (workRefs { c with pc := .idle }) c.drops
      c.drops c.hashed hc.kept hc.dropped hc.hashed (Or.inr ⟨rfl, hrefs⟩)
    exact ⟨h1, h2, h3⟩

theorem held_tcfa (c c' : Con) (rc : Int) (now : ℕ) (h : TcfaStep c rc now c') (hc : Held c) :
    Held c' := by
  cases h with
  | requestFail => exact held_store _ _ (held_close c hc) rfl
  | connectFail => exact held_store _ _ (held_close c hc) rfl
  | responseFail => exact held_store _ _ (held_close c hc) rfl
  | wake => exact held_store _ _ (held_wake c hc) rfl
  | _ => exact held_store c _ hc rfl

theorem held_step (c c' : Con) (a : Act) (h : conStep c a = some c') (hc : Held c) : Held c' := by
  cases conStep_cases c c' a h with
  | tcfa rc now ha ht => exact held_tcfa c c' rc now ht hc
  | accept ha hp hc' =>
    subst hc'
    split
    · exact held_wake _ (held_store c _ hc rfl)
    · exact held_store c _ hc rfl
  | work i ha hw => exact held_work c c' hw hc
  | response hr hc' =>
    subst hc'
    exact held_store c _ hc rfl
  | delete ha hc' =>
    subst hc'
    exact held_close _ (held_store c _ hc rfl)
  | finished ha hc' =>
    subst hc'
    exact held_close _ (held_store c _ hc rfl)
  | ops hr hd hf ho => exact held_ops c c' ho hc

/- ### The wire -/

def Sent (k : Kind) (c : Con) : Prop := ∃ p ∈ c.tx, p.kind = k

/-- What a step may put on the wire. -/
def Emitted (c : Con) (a : Act) : Packet → Prop
  | .request _ _ _ _ syn => syn = c.tuple
  | .data _ => True
  | .finished id => id = c.id ∧ takes c .delete a
  | p => p.id = c.id

theorem emitted_of_ops (c : Con) (a : Act) (p : Packet) (hk : p.kind ∈ a.kinds)
    (hid : p.kind = .data ∨ p.id = c.id) : Emitted c a p := by
  have hkinds : p.kind = .data ∨ p.kind = .ack ∨ p.kind = .delete := by
    unfold Act.kinds at hk
    split at hk <;> simp only [List.mem_cons, List.not_mem_nil, or_false] at hk <;>
      rcases hk with hk | hk <;> simp [hk]
  cases p with
  | data d => trivial
  | ack id k ts => exact hid.resolve_left nofun
  | delete id => exact hid.resolve_left nofun
  | request => simp [Packet.kind] at hkinds
  | response => simp [Packet.kind] at hkinds
  | finished => simp [Packet.kind] at hkinds

theorem conStep_wire (c c' : Con) (a : Act) (h : conStep c a = some c') :
    ∃ ps, c'.tx = c.tx ++ ps ∧ ∀ p ∈ ps, Emitted c a p := by
  have hnone (d : Con) (h : d.tx = c.tx) : ∃ ps, d.tx = c.tx ++ ps ∧ ∀ p ∈ ps, Emitted c a p :=
    ⟨[], h.trans (List.append_nil _).symm, nofun⟩
  have hone (d : Con) (p : Packet) (h : d.tx = c.tx ++ [p]) (hp : Emitted c a p) :
      ∃ ps, d.tx = c.tx ++ ps ∧ ∀ p ∈ ps, Emitted c a p := by
    refine ⟨[p], h, fun q hq => ?_⟩
    rw [List.mem_singleton.mp hq]
    exact hp
  cases conStep_cases c c' a h with
  | tcfa rc now ha ht =>
    cases ht with
    | requestFail => exact hnone _ (close_tx c)
    | connectFail => exact hnone _ (close_tx c)
    | responseFail => exact hnone _ (close_tx c)
    | wake => exact hnone _ (wake_tx c)
    | request => exact hone _ (.request c.id MINIP_FIRST_SEQ MINIP_FIRST_SEQ now c.tuple) rfl rfl
    | response => exact hone _ (.response c.id MINIP_FIRST_SEQ (MINIP_FIRST_SEQ + 1)) rfl rfl
    | _ => exact hnone _ rfl
  | accept ha hp hc' =>
    subst hc'
    split
    · exact hnone _ (wake_tx _)
    · exact hnone _ rfl
  | work i ha hw =>
    cases hw with
    | start => exact hnone _ rfl
    | move c' ps h ht hp =>
      refine ⟨ps, ht, fun p hmem => ?_⟩
      have hk := hp p hmem
      cases p with
      | data d => trivial
      | _ => cases hk
    | delete => exact hone _ (.delete c.id) rfl rfl
    | close => exact hnone _ (close_tx c)
    | put => exact hnone _ (by rw [pepdnaConPut_eq])
  | response hr hc' =>
    subst hc'
    exact hnone _ rfl
  | delete ha hc' =>
    subst hc'
    exact hone _ (.finished c.id) (close_tx _) ⟨rfl, ha⟩
  | finished ha hc' =>
    subst hc'
    exact hnone _ (close_tx _)
  | ops hr hd hf ho =>
    obtain ⟨ps, hps, hk⟩ := ops_tx c c' ho
    exact ⟨ps, hps, fun p hp => emitted_of_ops c a p (hk p hp).1 (hk p hp).2⟩

theorem sent_step (k : Kind) (c c' : Con) (a : Act) (h : conStep c a = some c') (hs : Sent k c) :
    Sent k c' := by
  obtain ⟨ps, hps, -⟩ := conStep_wire c c' a h
  obtain ⟨p, hp, hk⟩ := hs
  exact ⟨p, hps ▸ List.mem_append_left ps hp, hk⟩

/-- Only the packet that is delivered leaves the wire. -/
theorem sent_delivered (k : Kind) (c : Con) (p : Packet) (keep : Bool) (hk : p.kind ≠ k)
    (hs : Sent k c) : Sent k (delivered c p keep) := by
  obtain ⟨q, hq, hqk⟩ := hs
  refine ⟨q, ?_, hqk⟩
  have hne : q ≠ p := by
    rintro rfl
    exact hk hqk
  cases keep with
  | true => exact hq
  | false => exact (List.mem_erase_of_ne hne).mpr hq

/- All packets of a session are about the same connection. DATA is left out: what a queue holds is
of no interest here. -/
def Packet.keyed (key : ℕ) : Packet → Prop
  | .request _ _ _ _ syn => syn.hashId = key
  | .data _ => True
  | p => p.id = key

structure Keyed (mode : Mode) (key : ℕ) (c : Con) : Prop where
  mode : c.mode = mode
  id : c.id = key
  tuple : c.tuple.hashId = key
  tx : ∀ p ∈ c.tx, p.keyed key

theorem keyed_alloc (mode : Mode) (syn : SynTuple) :
    Keyed mode syn.hashId (pepdnaConAlloc mode syn syn.hashId) :=
  ⟨rfl, rfl, rfl, nofun⟩

theorem keyed_delivered (mode : Mode) (key : ℕ) (c : Con) (p : Packet) (keep : Bool)
    (hc : Keyed mode key c) : Keyed mode key (delivered c p keep) := by
  refine ⟨?_, ?_, ?_, fun q hq => hc.tx q (delivered_tx c p q keep hq)⟩
  all_goals rw [delivered_eq]
  · exact hc.mode
  · exact hc.id
  · exact hc.tuple

theorem keyed_step (mode : Mode) (key : ℕ) (c c' : Con) (a : Act) (h : conStep c a = some c')
    (hc : Keyed mode key c) : Keyed mode key c' := by
  have hid := conStep_identity c c' a h
  simp only [Prod.mk.injEq] at hid
  obtain ⟨h1, h2, h3⟩ := hid
  refine ⟨h1.trans hc.mode, h2.trans hc.id, h3 ▸ hc.tuple, ?_⟩
  intro p hp
  obtain ⟨ps, hps, he⟩ := conStep_wire c c' a h
  rw [hps] at hp
  rcases List.mem_append.mp hp with hp | hp
  · exact hc.tx p hp
  · have hem := he p hp
    cases p with
    | request id seq ack ts syn => exact (congrArg SynTuple.hashId hem).trans hc.tuple
    | data d => trivial
    | response id seq ack => exact hem.trans hc.id
    | ack id k ts => exact hem.trans hc.id
    | delete id => exact hem.trans hc.id
    | finished id => exact hem.1.trans hc.id

/- ### How a step ends a connection -/

/- The connection is not closed by the step. -/
structure Unclosed (c c' : Con) : Prop where
  drops : c'.drops = c.drops
  pc : c'.pc = .close → c.pc = .close
  sock : c'.lsock = true → c'.lflag = false → c.lsock = true ∧ c.lflag = false

theorem unclosed_store (c c' : Con)
    (h : (c'.drops, c'.pc, c'.lsock, c'.lflag) = (c.drops, c.pc, c.lsock, c.lflag)) :
    Unclosed c c' := by
  simp only [Prod.mk.injEq] at h
  obtain ⟨h1, h2, h3, h4⟩ := h
  exact ⟨h1, fun hp => h2 ▸ hp, fun hs hf => ⟨h3 ▸ hs, h4 ▸ hf⟩⟩

theorem unclosed_core (c c' : Con) (h : corePart c' = corePart c) : Unclosed c c' := by
  simp only [corePart, Prod.mk.injEq] at h
  obtain ⟨-, -, -, -, h1, h2, -, -, -, h3, -, -, -, h4⟩ := h
  refine unclosed_store c c' ?_
  simp only [h1, h2, h3, h4]

theorem unclosed_trans (c d e : Con) (h : Unclosed c d) (h' : Unclosed d e) : Unclosed c e := by
  refine ⟨h'.drops.trans h.drops, fun hp => h.pc (h'.pc hp), fun hs hf => ?_⟩
  obtain ⟨hs', hf'⟩ := h'.sock hs hf
  exact h.sock hs' hf'

theorem unclosed_ready (c : Con) : Unclosed c (pepdnaL2rConnDataReady c) := by
  rw [pepdnaL2rConnDataReady_eq]
  exact ⟨rfl, id, fun hs hf => ⟨(Bool.and_eq_true_iff.mp hs).1, hf⟩⟩

theorem unclosed_wake (c : Con) : Unclosed c (wakeLsock c) := by
  unfold wakeLsock
  split
  · exact unclosed_ready c
  · exact unclosed_core c _ rfl

/-- A handler closes the connection only after a DELETE. -/
theorem ops_ends (c c' : Con) (h : Ops ks c c') : Sent .delete c' ∨ Unclosed c c' := by
  induction h with
  | store c c' h ht => exact Or.inr (unclosed_core c c' h)
  | send c c' ps h ht hp => exact Or.inr (unclosed_core c c' h)
  | ready c h => exact Or.inr (unclosed_ready c)
  | notify c hk =>
    refine Or.inl ⟨.delete c.id, ?_, rfl⟩
    rw [close_tx]
    exact List.mem_append_right _ (List.mem_singleton.mpr rfl)
  | trans c d e h h' ih ih' =>
    rcases ih' with hs | hu'
    · exact Or.inl hs
    · rcases ih with ⟨p, hp, hk⟩ | hu
      · obtain ⟨ps, hps, -⟩ := ops_tx d e h'
        exact Or.inl ⟨p, hps ▸ List.mem_append_left ps hp, hk⟩
      · exact Or.inr (unclosed_trans c d e hu hu')

/- What a step is to the end of the connection. The close of the work comes one step after its
DELETE, a failed set-up has none. -/
inductive EndStep (c : Con) (a : Act) (c' : Con) : Prop
  | quiet (h : Unclosed c c')
  | notified (h : Sent .delete c')
  | closing (hpc : c.pc = .close) (hpc' : c'.pc ≠ .close)
  | taken (hd : 0 < c'.drops) (h : takes c .finished a ∨ (takes c .delete a ∧ Sent .finished c'))
  | failed (rc : Int) (now : ℕ) (ha : a = .tcfa rc now) (hrc : rc < 0)
      (hd : c.lsock = false → 0 < c'.drops) (hq : c.mode = .tcp2minip → c.tcfa = .queued)
  | registered (hm : c.mode = .minip2tcp) (hd : c'.drops = c.drops) (hpc : c'.pc = c.pc)

/-- A close that finds `rflag` clear, or no socket, drops the first reference. -/
theorem close_drops (c : Con) (h : c.rflag = false ∨ c.lsock = false) :
    0 < (pepdnaConClose c).drops := by
  have hd : dropClose c = true := by
    rcases h with h | h <;> simp [dropClose, h]
  rw [pepdnaConClose_eq]
  simp only [hd, if_true]
  omega

theorem conStep_ends (c c' : Con) (a : Act) (h : conStep c a = some c') : EndStep c a c' := by
  cases conStep_cases c c' a h with
  | tcfa rc now ha ht =>
    cases ht with
    | requestFail hm hq hrc =>
      exact .failed rc now ha hrc (fun hl => close_drops c (Or.inr hl)) fun _ => hq
    | connectFail hm hq hrc =>
      refine .failed rc now ha hrc (fun hl => close_drops c (Or.inr hl)) fun hm' => ?_
      rw [hm] at hm'
      cases hm'
    | responseFail hm hq hrc =>
      refine .failed rc now ha hrc (fun hl => close_drops c (Or.inr hl)) fun hm' => ?_
      rw [hm] at hm'
      cases hm'
    | register hm => exact .registered hm rfl rfl
    | flag hm => exact .registered hm rfl rfl
    | wake =>
      have hu := unclosed_wake c
      exact .quiet ⟨hu.drops, hu.pc, hu.sock⟩
    | _ => exact .quiet (unclosed_store c _ rfl)
  | accept ha hp hc' =>
    subst hc'
    split
    · -- the socket is new and the flag is set with it
      have hu := unclosed_wake { c with
        synPending := false, lsock := true, userData := true, lflag := true, rflag := true }
      refine .quiet ⟨hu.drops, hu.pc, fun hs hf => ?_⟩
      cases (hu.sock hs hf).2
    · exact .quiet (unclosed_store c _ rfl)
  | work i ha hw =>
    cases hw with
    | start hpc hp => exact .quiet ⟨rfl, nofun, fun hs hf => ⟨hs, hf⟩⟩
    | move c' ps h ht hp hpc hpc' =>
      have hu := unclosed_core c { c' with pc := c.pc } h
      exact .quiet ⟨hu.drops, fun hcl => absurd hcl hpc'.2, hu.sock⟩
    | delete rc hpc =>
      exact .notified ⟨.delete c.id, List.mem_append_right _ (List.mem_singleton.mpr rfl), rfl⟩
    | close hpc => exact .closing hpc nofun
    | put hpc =>
      rw [pepdnaConPut_eq]
      exact .quiet ⟨rfl, nofun, fun hs hf => ⟨(Bool.and_eq_true_iff.mp hs).1, hf⟩⟩
  | response hr hc' =>
    subst hc'
    exact .quiet (unclosed_store c _ rfl)
  | delete ha hc' =>
    subst hc'
    refine .taken (close_drops _ (Or.inl rfl)) (Or.inr ⟨ha, .finished c.id, ?_, rfl⟩)
    rw [pepdnaMinipRecvDelete, close_tx]
    exact List.mem_append_right _ (List.mem_singleton.mpr rfl)
  | finished ha hc' =>
    subst hc'
    exact .taken (close_drops _ (Or.inl rfl)) (Or.inl ha)
  | ops hr hd hf ho =>
    rcases ops_ends c c' ho with hs | hu
    · exact .notified hs
    · exact .quiet hu

/- The first reference is dropped for good. -/

theorem close_drops_le (c : Con) : c.drops ≤ (pepdnaConClose c).drops := by
  rw [pepdnaConClose_eq]
  dsimp only
  split <;> omega

theorem ops_drops (c c' : Con) (h : Ops ks c c') : c.drops ≤ c'.drops := by
  induction h with
  | store c c' h ht => exact le_of_eq (unclosed_core c c' h).drops.symm
  | send c c' ps h ht hp => exact le_of_eq (unclosed_core c c' h).drops.symm
  | ready c h => exact le_of_eq (unclosed_ready c).drops.symm
  | notify c hk => exact close_drops_le (transmit c (.delete c.id))
  | trans c d e h h' ih ih' => exact ih.trans ih'

theorem conStep_drops (c c' : Con) (a : Act) (h : conStep c a = some c') : c.drops ≤ c'.drops := by
  cases conStep_cases c c' a h with
  | tcfa rc now ha ht =>
    cases ht with
    | requestFail => exact close_drops_le c
    | connectFail => exact close_drops_le c
    | responseFail => exact close_drops_le c
    | wake => exact le_of_eq (unclosed_wake c).drops.symm
    | _ => exact le_rfl
  | accept ha hp hc' =>
    subst hc'
    split
    · have hu := unclosed_wake { c with
        synPending := false, lsock := true, userData := true, lflag := true, rflag := true }
      exact hu.drops.ge
    · exact le_rfl
  | work i ha hw =>
    cases hw with
    | start => exact le_rfl
    | move c' ps h => exact le_of_eq (unclosed_core c { c' with pc := c.pc } h).drops.symm
    | delete => exact le_rfl
    | close => exact close_drops_le c
    | put => rw [pepdnaConPut_eq]
  | response hr hc' =>
    subst hc'
    exact le_rfl
  | delete ha hc' =>
    subst hc'
    exact close_drops_le { transmit c (.finished c.id) with rflag := false }
  | finished ha hc' =>
    subst hc'
    exact close_drops_le { c with rflag := false }
  | ops hr hd hf ho => exact ops_drops c c' ho

theorem conStep_undropped (c c' : Con) (a : Act) (h : conStep c a = some c')
    (h0 : c'.drops = 0) : c.drops = 0 :=
  Nat.eq_zero_of_le_zero (h0 ▸ conStep_drops c c' a h)

/- Until then the socket, once it is there, stays. -/

theorem close_lsock (c : Con) (h0 : (pepdnaConClose c).drops = 0) (hl : c.lsock = true) :
    (pepdnaConClose c).lsock = true := by
  have hd : dropClose c = false := by
    by_contra hd
    rw [Bool.not_eq_false] at hd
    rw [pepdnaConClose_eq] at h0
    simp [hd] at h0
  rw [pepdnaConClose_eq]
  simp [hd, hl]

theorem ready_lsock (c : Con) (hc : Held c) (h0 : c.drops = 0) (hl : c.lsock = true) :
    (pepdnaL2rConnDataReady c).lsock = true := by
  have hne : c.kref ≠ 0 := by
    have hk := (hc.kept h0).1
    omega
  rw [pepdnaL2rConnDataReady_eq]
  simp [hl, hne]

theorem wake_lsock (c : Con) (hc : Held c) (h0 : c.drops = 0) (hl : c.lsock = true) :
    (wakeLsock c).lsock = true := by
  unfold wakeLsock
  rw [if_pos hl]
  exact ready_lsock c hc h0 hl

theorem ops_lsock (c c' : Con) (h : Ops ks c c') (hc : Held c) (h0 : c'.drops = 0)
    (hl : c.lsock = true) : c'.lsock = true := by
  have hcore (c c' : Con) (h : corePart c' = corePart c) (hl : c.lsock = true) :
      c'.lsock = true := by
    simp only [corePart, Prod.mk.injEq] at h
    exact h.2.2.2.2.1.trans hl
  induction h with
  | store c c' h ht => exact hcore c c' h hl
  | send c c' ps h ht hp => exact hcore c c' h hl
  | ready c h => exact ready_lsock c hc ((unclosed_ready c).drops ▸ h0) hl
  | notify c hk => exact close_lsock (transmit c (.delete c.id)) h0 hl
  | trans c d e h h' ih ih' =>
    have hd : d.drops = 0 := Nat.eq_zero_of_le_zero (h0 ▸ ops_drops d e h')
    exact ih' (held_ops c d h hc) h0 (ih hc hd hl)

theorem conStep_lsock (c c' : Con) (a : Act) (h : conStep c a = some c') (hc : Held c)
    (h0 : c'.drops = 0) (hl : c.lsock = true) : c'.lsock = true := by
  have hz := conStep_undropped c c' a h h0
  cases conStep_cases c c' a h with
  | tcfa rc now ha ht =>
    cases ht with
    | requestFail => exact close_lsock c h0 hl
    | connectFail => exact close_lsock c h0 hl
    | responseFail => exact close_lsock c h0 hl
    | wake => exact wake_lsock c hc hz hl
    | register => rfl
    | _ => exact hl
  | accept ha hp hc' =>
    subst hc'
    split
    · exact wake_lsock _ (held_store c _ hc rfl) hz rfl
    · exact hl
  | work i ha hw =>
    cases hw with
    | start => exact hl
    | move c' ps h =>
      simp only [corePart, Prod.mk.injEq] at h
      exact h.2.2.2.2.1.trans hl
    | delete => exact hl
    | close => exact close_lsock c h0 hl
    | put hpc =>
      have hk := (hc.kept hz).1
      have hne : c.kref ≠ 1 := by
        simp only [workRefs, hpc, running] at hk
        omega
      rw [pepdnaConPut_eq]
      simp [hl, hne]
  | response hr hc' =>
    subst hc'
    exact hl
  | delete ha hc' =>
    subst hc'
    exact close_lsock { transmit c (.finished c.id) with rflag := false } h0 hl
  | finished ha hc' =>
    subst hc'
    exact close_lsock { c with rflag := false } h0 hl
  | ops hr hd hf ho => exact ops_lsock c c' ho hc h0 hl

end PepDna.Minip
