import PepDna.Minip.Ending
import PepDna.Minip.Handshake

/-!
# Entries that stay in the hash table

An entry leaves the table with its last reference, and the reference of
`kref_init` is dropped only by a close that is not deferred. On the side of the
client every such close is the answer to a packet: a DELETE or a FINISHED of the
far proxy. None of the packets of the set-up and of the close is ever sent again,
so a lost one leaves an entry behind for good; if none of them is lost and the
far proxy can connect, then no entry is left behind.
-/

namespace PepDna.Minip

/- ### One step of either side -/

/-- The far connection is on its way to a RESPONSE, or has sent it. -/
def Asks (b : Con) : Prop := b.tcfa = .queued ∨ b.tcfa = .respond ∨ Sent .response b

/-- The far connection has told the client's side that it is gone. -/
def Bye (b : Con) : Prop := Sent .delete b ∨ Sent .finished b

theorem bye_step (b c : Con) (a : Act) (h : conStep b a = some c) (hb : Bye b) : Bye c :=
  hb.imp (sent_step .delete b c a h) (sent_step .finished b c a h)

theorem bye_delivered (b : Con) (p : Packet) (keep : Bool) (hd : p.kind ≠ .delete)
    (hf : p.kind ≠ .finished) (hb : Bye b) : Bye (delivered b p keep) :=
  hb.imp (sent_delivered .delete b p keep hd) (sent_delivered .finished b p keep hf)

theorem asks_delivered (b : Con) (p : Packet) (keep : Bool) (hk : p.kind ≠ .response)
    (hb : Asks b) : Asks (delivered b p keep) := by
  have htcfa : (delivered b p keep).tcfa = b.tcfa := by rw [delivered_eq]
  rcases hb with hb | hb | hb
  · exact Or.inl (htcfa.trans hb)
  · exact Or.inr (Or.inl (htcfa.trans hb))
  · exact Or.inr (Or.inr (sent_delivered .response b p keep hk hb))

theorem asks_step (key : ℕ) (b c : Con) (a : Act) (h : conStep b a = some c)
    (hk : Keyed .minip2tcp key b) (hrc : ∀ rc now, a = .tcfa rc now → 0 ≤ rc) (hb : Asks b) :
    Asks c := by
  have hnear (hm : b.mode = .tcp2minip) : Asks c := by
    rw [hk.mode] at hm
    cases hm
  by_cases hs : Sent .response b
  · exact Or.inr (Or.inr (sent_step .response b c a h hs))
  rcases conStep_tcfa b c a h with ⟨rc, now, ha, ht⟩ | ht
  · have hpos := hrc rc now ha
    have hpc : b.tcfa = .queued ∨ b.tcfa = .respond := by
      rcases hb with hb | hb | hb
      · exact Or.inl hb
      · exact Or.inr hb
      · exact absurd hb hs
    have hno (pc : TcfaPc) (hb' : b.tcfa = pc) (hq : pc ≠ .queued) (hr : pc ≠ .respond) : Asks c := by
      rcases hpc with hpc | hpc
      · exact absurd (hb'.symm.trans hpc) hq
      · exact absurd (hb'.symm.trans hpc) hr
    cases ht with
    | requestFail hm => exact hnear hm
    | request hm => exact hnear hm
    | requestSent hm => exact hnear hm
    | connectFail hm hq hneg => omega
    | responseFail hm hq hneg => omega
    | connect => exact Or.inr (Or.inl rfl)
    | response =>
      exact Or.inr (Or.inr ⟨.response b.id MINIP_FIRST_SEQ (MINIP_FIRST_SEQ + 1),
        List.mem_append_right _ (List.mem_singleton.mpr rfl), rfl⟩)
    | assign hm hq => exact hno _ hq nofun nofun
    | register hm hq => exact hno _ hq nofun nofun
    | flag hm hq => exact hno _ hq nofun nofun
    | wake hm hq => exact hno _ hq nofun nofun
  · rcases hb with hb | hb | hb
    · exact Or.inl (ht.trans hb)
    · exact Or.inr (Or.inl (ht.trans hb))
    · exact absurd hb hs

/-- A DELETE or FINISHED of the peer that is taken up. -/
theorem conStep_takes (c c' : Con) (a : Act) (h : conStep c a = some c')
    (ha : takes c .delete a ∨ takes c .finished a) :
    0 < c'.drops ∧ (takes c .delete a → Sent .finished c') := by
  have hkind (k k' : Kind) (hk : takes c k a) (hk' : takes c k' a) : k = k' := by
    cases a with
    | recv p now xmit => exact hk.1.symm.trans hk'.1
    | _ => cases hk
  have hown (b : Act) (hb : b.isRecv = false) (he : a = b) : False := by
    subst he
    exact ha.elim (takes_own c _ a hb) (takes_own c _ a hb)
  cases conStep_cases c c' a h with
  | tcfa rc now he => exact (hown _ rfl he).elim
  | accept he => exact (hown _ rfl he).elim
  | work i he => exact (hown _ rfl he).elim
  | response hr =>
    rcases ha with ha | ha
    · rw [takesResponse_takes c a .delete nofun ha] at hr
      cases hr
    · rw [takesResponse_takes c a .finished nofun ha] at hr
      cases hr
  | delete hd hc' =>
    subst hc'
    refine ⟨close_drops _ (Or.inl rfl), fun _ => ⟨.finished c.id, ?_, rfl⟩⟩
    rw [pepdnaMinipRecvDelete, close_tx]
    exact List.mem_append_right _ (List.mem_singleton.mpr rfl)
  | finished hf hc' =>
    subst hc'
    exact ⟨close_drops _ (Or.inl rfl), fun hd => (by cases hkind _ _ hd hf)⟩
  | ops hr hd hf ho =>
    rcases ha with ha | ha
    · exact absurd ha hd
    · exact absurd ha hf

/-- A step of a far connection that ends it tells the other side, or is told by it. -/
theorem ended_far (b c : Con) (a : Act) (gone : Prop) (h : conStep b a = some c)
    (hrc : ∀ rc now, a = .tcfa rc now → 0 ≤ rc) (hf : takes b .finished a → gone)
    (hb : 0 < b.drops ∨ b.pc = .close → gone ∨ Bye b) (hc : 0 < c.drops ∨ c.pc = .close) :
    gone ∨ Bye c := by
  have hold (hb' : 0 < b.drops ∨ b.pc = .close) : gone ∨ Bye c := (hb hb').imp id (bye_step b c a h)
  cases conStep_ends b c a h with
  | quiet hu => exact hold (hc.imp (fun hd => hu.drops ▸ hd) hu.pc)
  | notified hs => exact Or.inr (Or.inl hs)
  | closing hpc => exact hold (Or.inr hpc)
  | taken hd ht =>
    rcases ht with ht | ⟨-, ht⟩
    · exact Or.inl (hf ht)
    · exact Or.inr (Or.inr ht)
  | failed rc now ha hneg =>
    have hpos := hrc rc now ha
    omega
  | registered hm hd hpc => exact hold (hc.imp (fun h => hd ▸ h) fun h => hpc ▸ h)

/- ### The session -/

/-- The client's side has closed, or is about to, and waits for the far proxy. -/
def Ending (c : Con) : Prop := c.pc = .close ∨ (c.lsock = true ∧ c.lflag = false)

structure Tied (key : ℕ) (s : Session) : Prop where
  opening : Opening s
  nearHeld : Held s.near
  farHeld : ∀ b ∈ s.far, Held b
  nearKeyed : Keyed .tcp2minip key s.near
  farKeyed : ∀ b ∈ s.far, Keyed .minip2tcp key b
  start : s.near.tcfa = .queued → s.near.syns = 0 ∧ s.near.tx = [] ∧ s.far = []
  asked : s.near.drops = 0 → s.near.syns = 0 →
    s.near.tcfa = .queued ∨ Sent .request s.near ∨ ∃ b ∈ s.far, Asks b
  answered : 0 < s.near.syns → s.far ≠ []
  accepted : s.near.drops = 0 → 0 < s.near.syns →
    s.near.synPending = true ∨ s.near.lsock = true
  ending : s.near.drops = 0 → Ending s.near → Sent .delete s.near ∨ ∃ b ∈ s.far, Bye b
  ended : ∀ b ∈ s.far, 0 < b.drops ∨ b.pc = .close → 0 < s.near.drops ∨ Bye b
  finished : Sent .finished s.near → 0 < s.near.drops

theorem tied_newSession (syn : SynTuple) : Tied syn.hashId (newSession syn) where
  opening _ := ⟨unanswered_alloc syn, fun _ hb => absurd hb List.not_mem_nil⟩
  nearHeld := held_alloc _ syn _
  farHeld _ hb := absurd hb List.not_mem_nil
  nearKeyed := keyed_alloc _ syn
  farKeyed _ hb := absurd hb List.not_mem_nil
  start _ := ⟨rfl, rfl, rfl⟩
  asked _ _ := Or.inl rfl
  answered h := absurd h (lt_irrefl 0)
  accepted _ h := absurd h (lt_irrefl 0)
  ending _ h := by
    rcases h with h | h
    · cases h
    · cases h.1
  ended _ hb := absurd hb List.not_mem_nil
  finished h := by
    obtain ⟨p, hp, -⟩ := h
    cases hp

section Near

variable (key : ℕ) (s : Session) (a : Act) (c : Con) (hs : Tied key s)
  (h : conStep s.near a = some c)

include hs h

theorem near_ending (h0 : c.drops = 0) (he : Ending c) :
    Sent .delete c ∨ ∃ b ∈ s.far, Bye b := by
  have hold (he : Ending s.near) : Sent .delete c ∨ ∃ b ∈ s.far, Bye b :=
    (hs.ending (conStep_undropped _ c a h h0) he).imp (sent_step .delete _ c a h) id
  cases conStep_ends s.near c a h with
  | quiet hu => exact hold (he.imp hu.pc fun hl => hu.sock hl.1 hl.2)
  | notified hd => exact Or.inl hd
  | closing hpc => exact hold (Or.inl hpc)
  | taken hd => omega
  | failed rc now ha hneg hd hq =>
    have hsyns := (hs.start (hq hs.nearKeyed.mode)).1
    have hpos := hd (hs.opening hsyns).near.lsock
    omega
  | registered hm =>
    rw [hs.nearKeyed.mode] at hm
    cases hm

theorem near_asked (h0 : c.drops = 0) (hy : c.syns = 0) :
    c.tcfa = .queued ∨ Sent .request c ∨ ∃ b ∈ s.far, Asks b := by
  have hsyns := conStep_syns s.near c a h
  have hfar (hm : s.near.mode = .minip2tcp) :
      c.tcfa = .queued ∨ Sent .request c ∨ ∃ b ∈ s.far, Asks b := by
    rw [hs.nearKeyed.mode] at hm
    cases hm
  rcases hs.asked (conStep_undropped _ c a h h0) (by omega) with hq | hr | hb
  · rcases conStep_tcfa s.near c a h with ⟨rc, now, ha, ht⟩ | ht
    · cases ht with
      | requestFail =>
        have hpos := close_drops s.near (Or.inr (hs.opening (hs.start hq).1).near.lsock)
        rw [pepdnaConClose_eq] at hpos h0
        dsimp only at hpos h0
        omega
      | request =>
        exact Or.inr (Or.inl ⟨_, List.mem_append_right _ (List.mem_singleton.mpr rfl), rfl⟩)
      | requestSent hm ht =>
        rw [hq] at ht
        cases ht
      | connectFail hm => exact hfar hm
      | connect hm => exact hfar hm
      | responseFail hm => exact hfar hm
      | response hm => exact hfar hm
      | assign hm => exact hfar hm
      | register hm => exact hfar hm
      | flag hm => exact hfar hm
      | wake hm => exact hfar hm
    · exact Or.inl (ht.trans hq)
  · exact Or.inr (Or.inl (sent_step .request _ c a h hr))
  · exact Or.inr (Or.inr hb)

/-- The set-up of the client's side is never queued again. -/
theorem near_start (hq : c.tcfa = .queued) : s.near.tcfa = .queued ∧ a.isRecv = true := by
  rcases conStep_tcfa s.near c a h with ⟨rc, now, ha, ht⟩ | ht
  · cases ht <;> cases hq
  · have hq' : s.near.tcfa = .queued := ht.symm.trans hq
    refine ⟨hq', ?_⟩
    have hu := (hs.opening (hs.start hq').1).near
    cases a with
    | recv => rfl
    | tcfa rc now =>
      cases tcfaStep_cases s.near c rc now h <;> cases hq
    | accept => simp [conStep, pepdnaTcpAccept, hu.syn] at h
    | dataReady => simp [conStep, hu.lsock] at h
    | work i => cases i <;> simp [conStep, workStep, hu.pc, hu.pending] at h
    | timeout now xmit => simp [conStep, hu.timer] at h
    | sendmsg rc => simp [conStep, minip2iSendmsg, hu.rx] at h

theorem near_accepted (h0 : c.drops = 0) (hy : 0 < c.syns) :
    c.synPending = true ∨ c.lsock = true := by
  have hz := conStep_undropped _ c a h h0
  have hsyns := conStep_syns s.near c a h
  have hold (hp : c.synPending = s.near.synPending) (hr : takesResponse s.near a = false) :
      c.synPending = true ∨ c.lsock = true := by
    rw [hr, Bool.toNat_false] at hsyns
    rw [hp]
    exact (hs.accepted hz (by omega)).imp id (conStep_lsock _ c a h hs.nearHeld h0)
  cases conStep_fixed s.near c a h with
  | tcfa rc now ha hf =>
    subst ha
    simp only [fixedPart, Prod.mk.injEq] at hf
    exact hold hf.2.2.2.2.1 rfl
  | response hr hf =>
    simp only [fixedPart, Prod.mk.injEq] at hf
    exact Or.inl hf.2.2.2.2.1
  | same hr hf =>
    simp only [fixedPart, Prod.mk.injEq] at hf
    exact hold hf.2.2.2.2.1 hr
  | accept ha =>
    right
    subst ha
    simp only [conStep, pepdnaTcpAccept] at h
    split at h
    · rw [if_pos (hs.nearHeld.kept hz).2] at h
      cases h
      exact wake_lsock _ (held_store s.near _ hs.nearHeld rfl) hz rfl
    · cases h

theorem near_finished (hf : Sent .finished c) : 0 < c.drops := by
  obtain ⟨ps, hps, he⟩ := conStep_wire s.near c a h
  obtain ⟨p, hp, hk⟩ := hf
  rw [hps] at hp
  rcases List.mem_append.mp hp with hp | hp
  · exact (hs.finished ⟨p, hp, hk⟩).trans_le (conStep_drops _ c a h)
  · have hem := he p hp
    cases p with
    | finished id => exact (conStep_takes _ c a h (Or.inl hem.2)).1
    | _ => cases hk

end Near

/-- No packet of the set-up or of the close is lost, and the far proxy can connect and answer. -/
def SessionOk : SessionAct → Prop
  | .far _ (.tcfa rc _) => 0 ≤ rc
  | .loseNear p => p.kind = .data ∨ p.kind = .ack
  | .loseFar _ p => p.kind = .data ∨ p.kind = .ack
  | _ => True

instance (a : SessionAct) : Decidable (SessionOk a) := by
  unfold SessionOk
  split <;> infer_instance

theorem keyed_id (key : ℕ) (p : Packet) (h : p.keyed key) (hd : p.kind ≠ .data)
    (hr : p.kind ≠ .request) : p.id = key := by
  cases p with
  | data => exact absurd rfl hd
  | request => exact absurd rfl hr
  | _ => exact h

theorem tied_near (key : ℕ) (s : Session) (a : Act) (c : Con) (hs : Tied key s)
    (h : conStep s.near a = some c) (ha : a.isRecv = true → s.far ≠ [])
    (hopen : Opening { s with near := c }) : Tied key { s with near := c } where
  opening := hopen
  nearHeld := held_step _ c a h hs.nearHeld
  farHeld := hs.farHeld
  nearKeyed := keyed_step _ key _ c a h hs.nearKeyed
  farKeyed := hs.farKeyed
  start hq := by
    obtain ⟨hq', hr⟩ := near_start key s a c hs h hq
    exact absurd (hs.start hq').2.2 (ha hr)
  asked := near_asked key s a c hs h
  answered hy := by
    cases hr : a.isRecv with
    | true => exact ha hr
    | false => exact hs.answered (conStep_syns_own _ c a h hr ▸ hy)
  accepted := near_accepted key s a c hs h
  ending := near_ending key s a c hs h
  ended b hb hd := (hs.ended b hb hd).imp (fun hz => hz.trans_le (conStep_drops _ c a h)) id
  finished := near_finished key s a c hs h

theorem tied_far (key : ℕ) (s : Session) (i : ℕ) (a : Act) (b c : Con) (hs : Tied key s)
    (hb : s.far[i]? = some b) (h : conStep b a = some c) (ha : a.isRecv = false)
    (hrc : ∀ rc now, a = .tcfa rc now → 0 ≤ rc) (hopen : Opening { s with far := s.far.set i c }) :
    Tied key { s with far := s.far.set i c } := by
  have hmem := List.mem_of_getElem? hb
  have hk := hs.farKeyed b hmem
  refine ⟨hopen, hs.nearHeld, forall_mem_set Held _ i c hs.farHeld (held_step b c a h
    (hs.farHeld b hmem)), hs.nearKeyed, forall_mem_set _ _ i c hs.farKeyed (keyed_step _ key b c a h hk),
    ?_, ?_, ?_, hs.accepted, ?_, ?_, hs.finished⟩
  · intro hq
    exact absurd (hs.start hq).2.2 (List.ne_nil_of_mem hmem)
  · intro h0 hy
    exact (hs.asked h0 hy).imp id (Or.imp id
      (exists_mem_set Asks _ i b c hb (asks_step key b c a h hk hrc)))
  · exact fun _ => set_ne_nil _ i b c hb
  · intro h0 he
    exact (hs.ending h0 he).imp id (exists_mem_set Bye _ i b c hb (bye_step b c a h))
  · refine forall_mem_set (fun x => 0 < x.drops ∨ x.pc = .close → _ ∨ Bye x) _ i c hs.ended ?_
    exact ended_far b c a _ h hrc (fun ht => absurd ht (takes_own b _ a ha)) (hs.ended b hmem)

/- A packet of the far proxy comes in. If it is a DELETE or a FINISHED the client's side is gone
after it, or was before. -/
theorem toNear_gone (key : ℕ) (s : Session) (p : Packet) (now : ℕ) (xmit : ℕ → Int) (c : Con)
    (hs : Tied key s) (h : conStep s.near (.recv p now xmit) = some c) (hp : p.keyed key)
    (hk : p.kind = .delete ∨ p.kind = .finished) : 0 < c.drops := by
  rcases Nat.eq_zero_or_pos s.near.drops with h0 | h0
  · have hid : p.id = s.near.id := by
      rw [hs.nearKeyed.id]
      rcases hk with hk | hk
      · exact keyed_id key p hp (by simp [hk]) (by simp [hk])
      · exact keyed_id key p hp (by simp [hk]) (by simp [hk])
    have hfound := (hs.nearHeld.kept h0).2
    refine (conStep_takes _ c _ h ?_).1
    exact hk.imp (fun hk => ⟨hk, hfound, hid⟩) fun hk => ⟨hk, hfound, hid⟩
  · exact h0.trans_le (conStep_drops _ c _ h)

/-- A RESPONSE is taken by a connection that is in the table. -/
theorem toNear_response (key : ℕ) (s : Session) (p : Packet) (now : ℕ) (xmit : ℕ → Int) (c : Con)
    (hs : Tied key s) (h : conStep s.near (.recv p now xmit) = some c) (hp : p.keyed key)
    (h0 : s.near.drops = 0) (hk : p.kind = .response) : c.syns = s.near.syns + 1 := by
  have hsyns := conStep_syns _ c _ h
  have hx : s.near.rx = none := by
    simp only [conStep] at h
    split at h
    · next hx => exact hx
    · cases h
  have hid : p.id = s.near.id := by
    rw [hs.nearKeyed.id]
    exact keyed_id key p hp (by simp [hk]) (by simp [hk])
  cases p with
  | response id seq ack =>
    rw [show takesResponse s.near (.recv (.response id seq ack) now xmit) = true from
      decide_eq_true ⟨(hs.nearHeld.kept h0).2, hid, hx⟩] at hsyns
    exact hsyns
  | _ => cases hk

/-- A packet of the far proxy leaves the wire when it is not needed any more. -/
theorem tied_shed (key : ℕ) (s : Session) (i : ℕ) (p : Packet) (keep : Bool) (b : Con)
    (hs : Tied key s) (hb : s.far[i]? = some b)
    (hr : p.kind = .response → s.near.drops = 0 → 0 < s.near.syns)
    (hd : p.kind = .delete ∨ p.kind = .finished → 0 < s.near.drops)
    (hopen : Opening { s with far := s.far.set i (delivered b p keep) }) :
    Tied key { s with far := s.far.set i (delivered b p keep) } := by
  have hmem := List.mem_of_getElem? hb
  have hbye (h0 : s.near.drops = 0) : Bye b → Bye (delivered b p keep) := by
    refine bye_delivered b p keep ?_ ?_
    · intro hk
      have hpos := hd (Or.inl hk)
      omega
    · intro hk
      have hpos := hd (Or.inr hk)
      omega
  have hheld : Held (delivered b p keep) := by
    rw [delivered_eq]
    exact held_store b _ (hs.farHeld b hmem) rfl
  refine ⟨hopen, hs.nearHeld, forall_mem_set Held _ i _ hs.farHeld hheld, hs.nearKeyed,
    forall_mem_set _ _ i _ hs.farKeyed (keyed_delivered _ key b p keep (hs.farKeyed b hmem)),
    ?_, ?_, ?_, hs.accepted, ?_, ?_, hs.finished⟩
  · intro hq
    exact absurd (hs.start hq).2.2 (List.ne_nil_of_mem hmem)
  · intro h0 hy
    refine (hs.asked h0 hy).imp id (Or.imp id
      (exists_mem_set Asks _ i b _ hb (asks_delivered b p keep ?_)))
    intro hk
    exact absurd hy (hr hk h0).ne'
  · exact fun _ => set_ne_nil _ i b _ hb
  · intro h0 he
    exact (hs.ending h0 he).imp id (exists_mem_set Bye _ i b _ hb (hbye h0))
  · refine forall_mem_set (fun x => 0 < x.drops ∨ x.pc = .close → 0 < s.near.drops ∨ Bye x) _ i _
      hs.ended ?_
    intro hgone
    rcases Nat.eq_zero_or_pos s.near.drops with h0 | h0
    · refine (hs.ended b hmem ?_).imp id (hbye h0)
      rw [delivered_eq] at hgone
      exact hgone
    · exact Or.inl h0

theorem tied_toNear (key : ℕ) (s : Session) (i : ℕ) (p : Packet) (keep : Bool) (now : ℕ)
    (xmit : ℕ → Int) (b c : Con) (hs : Tied key s) (hb : s.far[i]? = some b) (hp : p ∈ b.tx)
    (h : conStep s.near (.recv p now xmit) = some c) (hmid : Opening { s with near := c })
    (hopen : Opening ⟨c, s.far.set i (delivered b p keep)⟩) :
    Tied key ⟨c, s.far.set i (delivered b p keep)⟩ := by
  have hmem := List.mem_of_getElem? hb
  have hpk := (hs.farKeyed b hmem).tx p hp
  have hnear := tied_near key s _ c hs h (fun _ => List.ne_nil_of_mem hmem) hmid
  refine tied_shed key _ i p keep b hnear hb ?_ (toNear_gone key s p now xmit c hs h hpk) hopen
  intro hk h0
  have hz := conStep_undropped _ c _ h h0
  exact toNear_response key s p now xmit c hs h hpk hz hk ▸ Nat.succ_pos _

/-- What the far proxy does with a packet of the client's side. -/
structure Met (key : ℕ) (s : Session) (p : Packet) (far : List Con) : Prop where
  held : ∀ b ∈ far, Held b
  keyed : ∀ b ∈ far, Keyed .minip2tcp key b
  request : p.kind = .request → ∃ b ∈ far, Asks b
  asks : (∃ b ∈ s.far, Asks b) → ∃ b ∈ far, Asks b
  nonempty : s.far ≠ [] → far ≠ []
  delete : p.kind = .delete → s.near.drops = 0 → 0 < s.near.syns → ∃ b ∈ far, Bye b
  bye : (∃ b ∈ s.far, Bye b) → ∃ b ∈ far, Bye b
  ended : ∀ b ∈ far, 0 < b.drops ∨ b.pc = .close → 0 < s.near.drops ∨ Bye b

/-- No side closes before the RESPONSE. -/
theorem ending_answered (key : ℕ) (s : Session) (hs : Tied key s) (he : Ending s.near) :
    0 < s.near.syns := by
  by_contra hy
  have hu := (hs.opening (Nat.eq_zero_of_not_pos hy)).near
  rcases he with he | ⟨he, -⟩
  · rw [hu.pc] at he
    cases he
  · rw [hu.lsock] at he
    cases he

theorem tied_met (key : ℕ) (s : Session) (p : Packet) (keep : Bool) (far : List Con)
    (hs : Tied key s) (hp : p ∈ s.near.tx) (hm : Met key s p far)
    (hopen : Opening ⟨delivered s.near p keep, far⟩) :
    Tied key ⟨delivered s.near p keep, far⟩ := by
  have hnk := keyed_delivered _ key _ p keep hs.nearKeyed
  have hsent (k : Kind) : Sent k s.near → p.kind = k ∨ Sent k (delivered s.near p keep) := by
    intro hk
    by_cases hpk : p.kind = k
    · exact Or.inl hpk
    · exact Or.inr (sent_delivered k _ p keep hpk hk)
  have hback (k : Kind) : Sent k (delivered s.near p keep) → Sent k s.near :=
    fun ⟨q, hq, hk⟩ => ⟨q, delivered_tx _ p q keep hq, hk⟩
  rw [delivered_eq] at hnk hsent hback hopen ⊢
  refine ⟨hopen, held_store s.near _ hs.nearHeld rfl, hm.held, hnk, hm.keyed, ?_, ?_, ?_,
    hs.accepted, ?_, hm.ended, fun hf => hs.finished (hback _ hf)⟩
  · intro hq
    exact absurd (hs.start hq).2.1 (List.ne_nil_of_mem hp)
  · intro h0 hy
    rcases hs.asked h0 hy with hq | hr | hb
    · exact Or.inl hq
    · rcases hsent _ hr with hk | hr
      · exact Or.inr (Or.inr (hm.request hk))
      · exact Or.inr (Or.inl hr)
    · exact Or.inr (Or.inr (hm.asks hb))
  · exact fun hy => hm.nonempty (hs.answered hy)
  · intro h0 he
    rcases hs.ending h0 he with hd | hb
    · rcases hsent _ hd with hk | hd
      · exact Or.inr (hm.delete hk h0 (ending_answered key s hs he))
      · exact Or.inl hd
    · exact Or.inr (hm.bye hb)

/-- Nothing changes at the far proxy. -/
theorem met_same (key : ℕ) (s : Session) (p : Packet) (hs : Tied key s) (hr : p.kind ≠ .request)
    (hd : p.kind = .delete → 0 < s.near.syns → ∃ b ∈ s.far, 0 < b.drops) : Met key s p s.far where
  held := hs.farHeld
  keyed := hs.farKeyed
  request hk := absurd hk hr
  asks := id
  nonempty := id
  delete hk h0 hy := by
    obtain ⟨b, hb, hpos⟩ := hd hk hy
    exact ⟨b, hb, (hs.ended b hb (Or.inl hpos)).resolve_left h0.not_gt⟩
  bye := id
  ended := hs.ended

theorem pepdnaConFind_none (cons : List Con) (key : ℕ) (h : pepdnaConFind cons key = none) (c : Con)
    (hc : c ∈ cons) (hid : c.id = key) : c.hashed = false := by
  have hnot := List.findIdx?_eq_none_iff.mp h c hc
  simpa [hid] using hnot

theorem pepdnaConFind_some (cons : List Con) (key i : ℕ) (h : pepdnaConFind cons key = some i)
    (c : Con) (hc : cons[i]? = some c) : c.hashed = true ∧ c.id = key := by
  obtain ⟨hi, hp, -⟩ := List.findIdx?_eq_some_iff_getElem.mp h
  rw [List.getElem?_eq_getElem hi, Option.some.injEq] at hc
  rw [hc] at hp
  simpa using hp

/-- A DELETE that finds no entry: the far connection has been closed and has said so. -/
theorem met_unknown (key : ℕ) (s : Session) (p : Packet) (hs : Tied key s) (hp : p ∈ s.near.tx)
    (hr : p.kind ≠ .request) (hf : pepdnaConFind s.far p.id = none) : Met key s p s.far := by
  refine met_same key s p hs hr ?_
  intro hk hy
  obtain ⟨b, hb⟩ := List.exists_mem_of_ne_nil _ (hs.answered hy)
  have hid : p.id = key := keyed_id key p (hs.nearKeyed.tx p hp) (by simp [hk]) hr
  have hout := pepdnaConFind_none _ _ hf b hb ((hs.farKeyed b hb).id.trans hid.symm)
  refine ⟨b, hb, Nat.pos_of_ne_zero fun h0 => ?_⟩
  rw [((hs.farHeld b hb).kept h0).2] at hout
  cases hout

theorem met_request (key id seq ack ts : ℕ) (s : Session) (syn : SynTuple) (hs : Tied key s)
    (hp : .request id seq ack ts syn ∈ s.near.tx) :
    Met key s (.request id seq ack ts syn) (pepdnaMinipRecvRequest s.far syn) where
  held := List.forall_mem_cons.mpr ⟨held_alloc _ syn _, hs.farHeld⟩
  keyed := by
    have hkey : syn.hashId = key := hs.nearKeyed.tx _ hp
    exact List.forall_mem_cons.mpr ⟨hkey ▸ keyed_alloc _ syn, hs.farKeyed⟩
  request _ := ⟨_, List.mem_cons_self, Or.inl rfl⟩
  asks h := h.imp fun b hb => ⟨List.mem_cons_of_mem _ hb.1, hb.2⟩
  nonempty _ := List.cons_ne_nil _ _
  delete hk := nomatch hk
  bye h := h.imp fun b hb => ⟨List.mem_cons_of_mem _ hb.1, hb.2⟩
  ended := by
    refine List.forall_mem_cons.mpr ⟨fun hd => ?_, hs.ended⟩
    rcases hd with hd | hd
    · exact absurd hd (lt_irrefl 0)
    · cases hd

theorem met_recv (key : ℕ) (s : Session) (p : Packet) (now : ℕ) (xmit : ℕ → Int) (i : ℕ) (b c : Con)
    (hs : Tied key s) (hp : p ∈ s.near.tx) (hr : p.kind ≠ .request)
    (hf : pepdnaConFind s.far p.id = some i) (hb : s.far[i]? = some b)
    (h : conStep b (.recv p now xmit) = some c) : Met key s p (s.far.set i c) := by
  have hmem := List.mem_of_getElem? hb
  have hk := hs.farKeyed b hmem
  obtain ⟨hhashed, hid⟩ := pepdnaConFind_some _ _ i hf b hb
  refine ⟨forall_mem_set _ _ i c hs.farHeld (held_step b c _ h (hs.farHeld b hmem)),
    forall_mem_set _ _ i c hs.farKeyed (keyed_step _ key b c _ h hk), fun hq => absurd hq hr,
    exists_mem_set Asks _ i b c hb (asks_step key b c _ h hk nofun),
    fun _ => set_ne_nil _ i b c hb, ?_, exists_mem_set Bye _ i b c hb (bye_step b c _ h), ?_⟩
  · intro hd _ _
    have ht : takes b .delete (.recv p now xmit) := ⟨hd, hhashed, hid.symm⟩
    obtain ⟨hi, -⟩ := List.getElem?_eq_some_iff.mp hb
    exact ⟨c, List.mem_set hi c, Or.inr ((conStep_takes b c _ h (Or.inl ht)).2 ht)⟩
  · refine forall_mem_set (fun x => 0 < x.drops ∨ x.pc = .close → _ ∨ Bye x) _ i c hs.ended ?_
    exact ended_far b c _ _ h nofun (fun ht => hs.finished ⟨p, hp, ht.1⟩) (hs.ended b hmem)

theorem tied_step (key : ℕ) (s : Session) (a : SessionAct) (t : Session) (hs : Tied key s)
    (hok : SessionOk a) (h : sessionStep s a = some t) : Tied key t := by
  have hstep := sessionStep_cases s t a h
  have hopen := opening_step s a t hs.opening hstep
  cases hstep with
  | near a c ha hc => exact tied_near key s a c hs hc (fun hr => by rw [ha] at hr; cases hr) hopen
  | far i a b c ha hb hc =>
    refine tied_far key s i a b c hs hb hc ha ?_ hopen
    rintro rc now rfl
    exact hok
  | toNear i p keep now xmit b c hb hp hc =>
    -- the same step with the packet left on the wire
    have hmid := opening_step s _ _ hs.opening (.toNear i p true now xmit b c hb hp hc)
    have hset : s.far.set i b = s.far := by
      obtain ⟨hi, rfl⟩ := List.getElem?_eq_some_iff.mp hb
      exact List.set_getElem_self hi
    rw [show delivered b p true = b from rfl, hset] at hmid
    exact tied_toNear key s i p keep now xmit b c hs hb hp hc hmid hopen
  | request id seq ack ts syn keep now xmit hp =>
    exact tied_met key s _ keep _ hs hp (met_request key id seq ack ts s syn hs hp) hopen
  | unknown p keep now xmit hp hk hf =>
    exact tied_met key s p keep _ hs hp (met_unknown key s p hs hp hk hf) hopen
  | toFar p keep now xmit i b c hp hk hf hb hc =>
    exact tied_met key s p keep _ hs hp (met_recv key s p now xmit i b c hs hp hk hf hb hc) hopen
  | loseNear p hp =>
    have hlost : p.kind = .data ∨ p.kind = .ack := hok
    refine tied_met key s p false s.far hs hp (met_same key s p hs ?_ ?_) hopen
    · rcases hlost with hk | hk <;> simp [hk]
    · rcases hlost with hk | hk <;> simp [hk]
  | loseFar i p b hb hp =>
    have hlost : p.kind = .data ∨ p.kind = .ack := hok
    refine tied_shed key s i p false b hs hb ?_ ?_ hopen
    · rcases hlost with hk | hk <;> simp [hk]
    · rcases hlost with hk | hk <;> simp [hk]

end PepDna.Minip
