import PepDna.Minip.Ops

/-!
# A session: one client connection and what the far proxy allocates for it

The two peers of `PepDna.Minip.Peers` are past their handshake. Here the client
side starts from `pepdna_con_alloc`, and the far proxy allocates a connection for
every REQUEST it receives, also for a repeated one: `pepdna_minip_recv_request`
does not look for an existing entry, and `hash_add` puts the new one in front.
-/

namespace PepDna.Minip

variable {ks : List Kind}

/- ### What a connection keeps and what it sends -/

def fixedPart (c : Con) := (c.mode, c.id, c.tuple, c.syns, c.synPending, c.tcfa)

theorem close_fixed (c : Con) : fixedPart (pepdnaConClose c) = fixedPart c := by
  rw [pepdnaConClose_eq]
  rfl

theorem close_tx (c : Con) : (pepdnaConClose c).tx = c.tx := by rw [pepdnaConClose_eq]

theorem dataReady_fixed (c : Con) : fixedPart (pepdnaL2rConnDataReady c) = fixedPart c := by
  rw [pepdnaL2rConnDataReady_eq]
  rfl

theorem wake_tx (c : Con) : (wakeLsock c).tx = c.tx := by
  unfold wakeLsock
  split
  · rw [pepdnaL2rConnDataReady_eq]
  · rfl

theorem core_fixed (c c' : Con) (h : corePart c' = corePart c) : fixedPart c' = fixedPart c := by
  simp only [corePart, Prod.mk.injEq] at h
  obtain ⟨h1, h2, h3, -, -, -, -, -, -, -, h4, h5, h6, -⟩ := h
  simp only [fixedPart, h1, h2, h3, h4, h5, h6]

theorem work_fixed (c c' : Con) (h : WorkCase c c') : fixedPart c' = fixedPart c := by
  cases h with
  | start => rfl
  | move c' ps h => exact core_fixed c { c' with pc := c.pc } h
  | delete => rfl
  | close => exact close_fixed c
  | put =>
    rw [pepdnaConPut_eq]
    rfl

theorem ops_fixed (c c' : Con) (h : Ops ks c c') : fixedPart c' = fixedPart c := by
  induction h with
  | store c c' h ht => exact core_fixed c c' h
  | send c c' ps h ht hp => exact core_fixed c c' h
  | ready c h => exact dataReady_fixed c
  | notify c hk => exact close_fixed _
  | trans c d e h h' ih ih' => exact ih'.trans ih

theorem ops_tx (c c' : Con) (h : Ops ks c c') :
    ∃ ps, c'.tx = c.tx ++ ps ∧ ∀ p ∈ ps, p.kind ∈ ks ∧ (p.kind = .data ∨ p.id = c.id) := by
  have hnone (c c' : Con) (h : c'.tx = c.tx) :
      ∃ ps, c'.tx = c.tx ++ ps ∧ ∀ p ∈ ps, p.kind ∈ ks ∧ (p.kind = .data ∨ p.id = c.id) :=
    ⟨[], h.trans (List.append_nil _).symm, nofun⟩
  induction h with
  | store c c' h ht => exact hnone c c' ht
  | send c c' ps h ht hp => exact ⟨ps, ht, hp⟩
  | ready c h => exact hnone c _ (by rw [pepdnaL2rConnDataReady_eq])
  | notify c hk =>
    refine ⟨[.delete c.id], close_tx _, ?_⟩
    intro p hp
    rw [List.mem_singleton.mp hp]
    exact ⟨hk, Or.inr rfl⟩
  | trans c d e h h' ih ih' =>
    obtain ⟨ps, hps, hk⟩ := ih
    obtain ⟨qs, hqs, hk'⟩ := ih'
    have hid : d.id = c.id := by
      have hf := ops_fixed c d h
      simp only [fixedPart, Prod.mk.injEq] at hf
      exact hf.2.1
    refine ⟨ps ++ qs, by rw [hqs, hps, List.append_assoc], ?_⟩
    intro p hp
    rcases List.mem_append.mp hp with hp | hp
    · exact hk p hp
    · exact hid ▸ hk' p hp

/- The fields of the set-up are changed by the set-up only. -/
inductive FixedStep (c : Con) (a : Act) (c' : Con) : Prop
  | tcfa (rc : Int) (now : ℕ) (ha : a = .tcfa rc now)
      (h : fixedPart { c' with tcfa := c.tcfa } = fixedPart c)
  | accept (ha : a = .accept) (h : fixedPart { c' with synPending := c.synPending } = fixedPart c)
  | response (hr : takesResponse c a = true)
      (h : fixedPart c' = fixedPart { c with syns := c.syns + 1, synPending := true })
  | same (hr : takesResponse c a = false) (h : fixedPart c' = fixedPart c)

theorem takesResponse_takes (c : Con) (a : Act) (k : Kind) (hk : k ≠ .response) (ha : takes c k a) :
    takesResponse c a = false := by
  cases a with
  | recv p now xmit =>
    cases p with
    | response => exact absurd ha.1.symm hk
    | _ => rfl
  | _ => rfl

theorem conStep_fixed (c c' : Con) (a : Act) (h : conStep c a = some c') : FixedStep c a c' := by
  cases conStep_cases c c' a h with
  | tcfa rc now ha ht =>
    refine .tcfa rc now ha ?_
    cases ht with
    | requestFail =>
      rw [pepdnaConClose_eq]
      rfl
    | connectFail =>
      rw [pepdnaConClose_eq]
      rfl
    | responseFail =>
      rw [pepdnaConClose_eq]
      rfl
    | wake =>
      unfold wakeLsock
      split
      · rw [pepdnaL2rConnDataReady_eq]
        rfl
      · rfl
    | _ => rfl
  | accept ha hp hc' =>
    refine .accept ha ?_
    subst hc'
    split
    · unfold wakeLsock
      rw [if_pos rfl, pepdnaL2rConnDataReady_eq]
      rfl
    · rfl
  | work i ha hw =>
    subst ha
    exact .same rfl (work_fixed c c' hw)
  | response hr hc' =>
    subst hc'
    exact .response hr rfl
  | delete ha hc' =>
    subst hc'
    exact .same (takesResponse_takes c a .delete nofun ha) (close_fixed _)
  | finished ha hc' =>
    subst hc'
    exact .same (takesResponse_takes c a .finished nofun ha) (close_fixed _)
  | ops hr hd hf ho => exact .same hr (ops_fixed c c' ho)

/-- The SYN is handed to the stack once for every RESPONSE that is handled. -/
theorem conStep_syns (c c' : Con) (a : Act) (h : conStep c a = some c') :
    c'.syns = c.syns + (takesResponse c a).toNat := by
  cases conStep_fixed c c' a h with
  | tcfa rc now ha hf =>
    subst ha
    simp only [fixedPart, Prod.mk.injEq] at hf
    exact hf.2.2.2.1
  | accept ha hf =>
    subst ha
    simp only [fixedPart, Prod.mk.injEq] at hf
    exact hf.2.2.2.1
  | response hr hf =>
    simp only [fixedPart, Prod.mk.injEq] at hf
    rw [hr]
    exact hf.2.2.2.1
  | same hr hf =>
    simp only [fixedPart, Prod.mk.injEq] at hf
    rw [hr]
    exact hf.2.2.2.1

theorem conStep_syns_own (c c' : Con) (a : Act) (h : conStep c a = some c')
    (ha : a.isRecv = false) : c'.syns = c.syns := by
  have hsyns := conStep_syns c c' a h
  rw [takesResponse_own c a ha] at hsyns
  exact hsyns

/-- The three fields of the connection that never change. -/
theorem conStep_identity (c c' : Con) (a : Act) (h : conStep c a = some c') :
    (c'.mode, c'.id, c'.tuple) = (c.mode, c.id, c.tuple) := by
  cases conStep_fixed c c' a h with
  | tcfa rc now ha hf =>
    simp only [fixedPart, Prod.mk.injEq] at hf
    simp only [hf.1, hf.2.1, hf.2.2.1]
  | accept ha hf =>
    simp only [fixedPart, Prod.mk.injEq] at hf
    simp only [hf.1, hf.2.1, hf.2.2.1]
  | response hr hf =>
    simp only [fixedPart, Prod.mk.injEq] at hf
    simp only [hf.1, hf.2.1, hf.2.2.1]
  | same hr hf =>
    simp only [fixedPart, Prod.mk.injEq] at hf
    simp only [hf.1, hf.2.1, hf.2.2.1]

theorem conStep_tcfa (c c' : Con) (a : Act) (h : conStep c a = some c') :
    (∃ rc now, a = .tcfa rc now ∧ TcfaStep c rc now c') ∨ c'.tcfa = c.tcfa := by
  cases conStep_fixed c c' a h with
  | tcfa rc now ha _ =>
    subst ha
    exact Or.inl ⟨rc, now, rfl, tcfaStep_cases c c' rc now h⟩
  | accept ha hf =>
    simp only [fixedPart, Prod.mk.injEq] at hf
    exact Or.inr hf.2.2.2.2.2
  | response hr hf =>
    simp only [fixedPart, Prod.mk.injEq] at hf
    exact Or.inr hf.2.2.2.2.2
  | same hr hf =>
    simp only [fixedPart, Prod.mk.injEq] at hf
    exact Or.inr hf.2.2.2.2.2

/- ### The session -/

/-- `near` is the connection of the client, `far` the connections of the far proxy with the hash
of the client, the latest first. -/
structure Session where
  near : Con
  far : List Con
  deriving Repr, DecidableEq

/-- `pepdna_con_find`: the first entry of the chain that is still in the table. -/
def pepdnaConFind (cons : List Con) (key : ℕ) : Option ℕ :=
  cons.findIdx? fun c => c.hashed && decide (c.id = key)

/-- `pepdna_minip_recv_request`. -/
def pepdnaMinipRecvRequest (cons : List Con) (syn : SynTuple) : List Con :=
  pepdnaConAlloc .minip2tcp syn syn.hashId :: cons

/-- `pepdna_minip_recv_packet` at the far proxy. -/
def farRecvPacket (cons : List Con) (p : Packet) (now : ℕ) (xmit : ℕ → Int) : Option (List Con) :=
  match p with
  | .request _ _ _ _ syn => some (pepdnaMinipRecvRequest cons syn)
  | p =>
    match pepdnaConFind cons p.id with
    | none => some cons
    | some i => (cons[i]?).bind fun c => (conStep c (.recv p now xmit)).map (cons.set i)

inductive SessionAct where
  | near (a : Act)
  | far (i : ℕ) (a : Act)
  | toNear (i : ℕ) (p : Packet) (keep : Bool) (now : ℕ) (xmit : ℕ → Int)
  | toFar (p : Packet) (keep : Bool) (now : ℕ) (xmit : ℕ → Int)
  | loseNear (p : Packet)
  | loseFar (i : ℕ) (p : Packet)

/-- The packet stays on the wire if the network keeps a copy. -/
def delivered (c : Con) (p : Packet) (keep : Bool) : Con := if keep then c else unsend c p

theorem delivered_eq (c : Con) (p : Packet) (keep : Bool) :
    delivered c p keep = { c with tx := if keep then c.tx else c.tx.erase p } := by
  cases keep <;> rfl

theorem delivered_tx (c : Con) (p q : Packet) (keep : Bool) (h : q ∈ (delivered c p keep).tx) :
    q ∈ c.tx := by
  unfold delivered at h
  split at h
  · exact h
  · exact List.mem_of_mem_erase h

def sessionStep (s : Session) : SessionAct → Option Session
  | .near a =>
    if a.isRecv then none else (conStep s.near a).map fun c => { s with near := c }
  | .far i a =>
    if a.isRecv then none
    else (s.far[i]?).bind fun b => (conStep b a).map fun c => { s with far := s.far.set i c }
  | .toNear i p keep now xmit =>
    (s.far[i]?).bind fun b =>
      if p ∈ b.tx then
        (conStep s.near (.recv p now xmit)).map fun c => ⟨c, s.far.set i (delivered b p keep)⟩
      else none
  | .toFar p keep now xmit =>
    if p ∈ s.near.tx then
      (farRecvPacket s.far p now xmit).map fun cons => ⟨delivered s.near p keep, cons⟩
    else none
  | .loseNear p => if p ∈ s.near.tx then some { s with near := unsend s.near p } else none
  | .loseFar i p =>
    (s.far[i]?).bind fun b =>
      if p ∈ b.tx then some { s with far := s.far.set i (unsend b p) } else none

/-- The client's SYN was stolen by the hook and its connection allocated. -/
def newSession (syn : SynTuple) : Session := ⟨pepdnaConAlloc .tcp2minip syn syn.hashId, []⟩

/- The lines of `farRecvPacket`. -/
inductive FarRecv (cons : List Con) (now : ℕ) (xmit : ℕ → Int) : Packet → List Con → Prop
  | request (id seq ack ts : ℕ) (syn : SynTuple) :
      FarRecv cons now xmit (.request id seq ack ts syn) (pepdnaMinipRecvRequest cons syn)
  | unknown (p : Packet) (hk : p.kind ≠ .request) (hf : pepdnaConFind cons p.id = none) :
      FarRecv cons now xmit p cons
  | found (p : Packet) (i : ℕ) (b c : Con) (hk : p.kind ≠ .request)
      (hf : pepdnaConFind cons p.id = some i) (hb : cons[i]? = some b)
      (h : conStep b (.recv p now xmit) = some c) : FarRecv cons now xmit p (cons.set i c)

theorem farRecvPacket_cases (cons : List Con) (p : Packet) (now : ℕ) (xmit : ℕ → Int)
    (cons' : List Con) (h : farRecvPacket cons p now xmit = some cons') :
    FarRecv cons now xmit p cons' := by
  unfold farRecvPacket at h
  split at h
  · cases h
    exact .request ..
  · next hp =>
    have hk : p.kind ≠ .request := by
      cases p with
      | request id seq ack ts syn => exact absurd rfl (hp id seq ack ts syn)
      | response | data | ack | delete | finished => simp [Packet.kind]
    split at h
    · next hf =>
      cases h
      exact .unknown p hk hf
    · next i hf =>
      obtain ⟨b, hb, h⟩ := Option.bind_eq_some_iff.mp h
      obtain ⟨c, hc, rfl⟩ := Option.map_eq_some_iff.mp h
      exact .found p i b c hk hf hb hc

/- The lines of `sessionStep`, a packet to the far proxy split by what it finds there. -/
inductive SessionStep (s : Session) : SessionAct → Session → Prop
  | near (a : Act) (c : Con) (ha : a.isRecv = false) (h : conStep s.near a = some c) :
      SessionStep s (.near a) { s with near := c }
  | far (i : ℕ) (a : Act) (b c : Con) (ha : a.isRecv = false) (hb : s.far[i]? = some b)
      (h : conStep b a = some c) : SessionStep s (.far i a) { s with far := s.far.set i c }
  | toNear (i : ℕ) (p : Packet) (keep : Bool) (now : ℕ) (xmit : ℕ → Int) (b c : Con)
      (hb : s.far[i]? = some b) (hp : p ∈ b.tx) (h : conStep s.near (.recv p now xmit) = some c) :
      SessionStep s (.toNear i p keep now xmit) ⟨c, s.far.set i (delivered b p keep)⟩
  | request (id seq ack ts : ℕ) (syn : SynTuple) (keep : Bool) (now : ℕ) (xmit : ℕ → Int)
      (hp : .request id seq ack ts syn ∈ s.near.tx) :
      SessionStep s (.toFar (.request id seq ack ts syn) keep now xmit)
        ⟨delivered s.near (.request id seq ack ts syn) keep, pepdnaMinipRecvRequest s.far syn⟩
  | unknown (p : Packet) (keep : Bool) (now : ℕ) (xmit : ℕ → Int) (hp : p ∈ s.near.tx)
      (hk : p.kind ≠ .request) (hf : pepdnaConFind s.far p.id = none) :
      SessionStep s (.toFar p keep now xmit) ⟨delivered s.near p keep, s.far⟩
  | toFar (p : Packet) (keep : Bool) (now : ℕ) (xmit : ℕ → Int) (i : ℕ) (b c : Con)
      (hp : p ∈ s.near.tx) (hk : p.kind ≠ .request) (hf : pepdnaConFind s.far p.id = some i)
      (hb : s.far[i]? = some b) (h : conStep b (.recv p now xmit) = some c) :
      SessionStep s (.toFar p keep now xmit) ⟨delivered s.near p keep, s.far.set i c⟩
  | loseNear (p : Packet) (hp : p ∈ s.near.tx) :
      SessionStep s (.loseNear p) { s with near := unsend s.near p }
  | loseFar (i : ℕ) (p : Packet) (b : Con) (hb : s.far[i]? = some b) (hp : p ∈ b.tx) :
      SessionStep s (.loseFar i p) { s with far := s.far.set i (unsend b p) }

theorem sessionStep_toFar (s t : Session) (p : Packet) (keep : Bool) (now : ℕ) (xmit : ℕ → Int)
    (h : sessionStep s (.toFar p keep now xmit) = some t) :
    SessionStep s (.toFar p keep now xmit) t := by
  simp only [sessionStep] at h
  split at h
  · next hp =>
    obtain ⟨cons, hc, rfl⟩ := Option.map_eq_some_iff.mp h
    cases farRecvPacket_cases s.far p now xmit cons hc with
    | request id seq ack ts syn => exact .request id seq ack ts syn keep now xmit hp
    | unknown _ hk hf => exact .unknown p keep now xmit hp hk hf
    | found _ i b c hk hf hb hstep => exact .toFar p keep now xmit i b c hp hk hf hb hstep
  · cases h

theorem sessionStep_cases (s t : Session) (a : SessionAct) (h : sessionStep s a = some t) :
    SessionStep s a t := by
  cases a with
  | near a =>
    simp only [sessionStep] at h
    split at h
    · cases h
    · next ha =>
      obtain ⟨c, hc, rfl⟩ := Option.map_eq_some_iff.mp h
      exact .near a c (Bool.not_eq_true _ ▸ ha) hc
  | far i a =>
    simp only [sessionStep] at h
    split at h
    · cases h
    · next ha =>
      obtain ⟨b, hb, h⟩ := Option.bind_eq_some_iff.mp h
      obtain ⟨c, hc, rfl⟩ := Option.map_eq_some_iff.mp h
      exact .far i a b c (Bool.not_eq_true _ ▸ ha) hb hc
  | toNear i p keep now xmit =>
    simp only [sessionStep] at h
    obtain ⟨b, hb, h⟩ := Option.bind_eq_some_iff.mp h
    split at h
    · next hp =>
      obtain ⟨c, hc, rfl⟩ := Option.map_eq_some_iff.mp h
      exact .toNear i p keep now xmit b c hb hp hc
    · cases h
  | toFar p keep now xmit => exact sessionStep_toFar s t p keep now xmit h
  | loseNear p =>
    simp only [sessionStep] at h
    split at h
    · next hp =>
      cases h
      exact .loseNear p hp
    · cases h
  | loseFar i p =>
    simp only [sessionStep] at h
    obtain ⟨b, hb, h⟩ := Option.bind_eq_some_iff.mp h
    split at h
    · next hp =>
      cases h
      exact .loseFar i p b hb hp
    · cases h

/- One member of a list has changed. -/

section Member

variable {α : Type} (P : α → Prop) (l : List α) (i : ℕ) (x y : α)

theorem forall_mem_set (h : ∀ z ∈ l, P z) (hy : P y) : ∀ z ∈ l.set i y, P z := by
  intro z hz
  rcases List.mem_or_eq_of_mem_set hz with hz | rfl
  · exact h z hz
  · exact hy

theorem set_ne_nil (hx : l[i]? = some x) : l.set i y ≠ [] := by
  have hne : l ≠ [] := List.ne_nil_of_mem (List.mem_of_getElem? hx)
  simpa using hne

theorem exists_mem_set (hx : l[i]? = some x) (hP : P x → P y) (h : ∃ z ∈ l, P z) :
    ∃ z ∈ l.set i y, P z := by
  obtain ⟨hi, hxi⟩ := List.getElem?_eq_some_iff.mp hx
  obtain ⟨z, hz, hPz⟩ := h
  obtain ⟨j, hj, rfl⟩ := List.getElem_of_mem hz
  by_cases hij : i = j
  · subst hij
    exact ⟨y, List.mem_set hi y, hP (hxi ▸ hPz)⟩
  · refine ⟨l[j], List.mem_of_getElem? (i := j) ?_, hPz⟩
    rw [List.getElem?_set_ne hij, List.getElem?_eq_getElem hj]

end Member

end PepDna.Minip
