import PepDna.Buckets
import PepDna.Minip.PreHook
import PepDna.Rina.Tuple

/-!
# The connection table (connection.c, server.c)

`pepdna_srv->htable` is filled from three places: the netfilter hook (the TCP2x modes), a MINIP
REQUEST and the netlink message with `alloc = 1` (RINA2TCP). Each handler is one step.
`pepdna_con_close` does not touch the table; the release of the last reference unlinks the
connection, and here it can come at any time. `hash_min`, which selects the list of an id, is the
kernel's and stays a parameter.
-/

namespace PepDna.Table
open PepDna.Minip (SSH_PORT ntohs Verdict)

def IPPROTO_TCP : ℕ := 6
def PEPDNA_SOCK_MARK : ℕ := 333

/-- `enum server_mode`; the modes whose start functions are not implemented are left out. -/
inductive ServerMode where
  | tcp2tcp
  | tcp2rina
  | tcp2minip
  | tcp2ccn
  | rina2tcp
  | minip2tcp
  deriving Repr, DecidableEq

/-- The start function registers `pepdna_inet_nf_ops`. -/
def ServerMode.hooked : ServerMode → Bool
  | .tcp2tcp | .tcp2rina | .tcp2minip | .tcp2ccn => true
  | .rina2tcp | .minip2tcp => false

/-- The start function registers `pepdna_minip_skb_recv`. -/
def ServerMode.minip : ServerMode → Bool
  | .tcp2minip | .minip2tcp => true
  | _ => false

/-- The fields of `struct pepdna_con` that are set before it enters the table and stay. -/
structure Conn where
  id : ℕ
  ts : ℕ
  tuple : SynTuple
  portId : Int
  deriving Repr, DecidableEq

/-- What the hook reads of a packet. -/
structure Skb where
  protocol : ℕ
  syn : Bool
  ack : Bool
  rst : Bool
  mark : ℕ
  tuple : SynTuple
  tstamp : ℕ
  deriving Repr, DecidableEq

section Handlers

variable {n : ℕ} {hashMin : ℕ → Fin n}

abbrev HTable (hashMin : ℕ → Fin n) := Buckets Conn Conn.id hashMin

def pepdnaConFind (t : HTable hashMin) (key : ℕ) : Option Conn := t.find key

/-- `pepdna_con_alloc`; `mem` says whether its allocations succeed. -/
def pepdnaConAlloc (t : HTable hashMin) (syn : SynTuple) (hashId ts : ℕ) (portId : Int)
    (mem : Bool) : Option (HTable hashMin) :=
  if mem then some (t.add ⟨hashId, ts, syn, portId⟩) else none

/-- The ways out of `pepdna_pre_hook`. -/
inductive SynFate where
  | passed
  | noMemory
  | duplicate
  | allocated
  deriving Repr, DecidableEq

def SynFate.verdict : SynFate → Verdict
  | .passed => .accept
  | .noMemory => .drop
  | .duplicate => .drop
  | .allocated => .stolen

/-- `pepdna_pre_hook` at time `now`. `localHost` is the build for the host of an end system;
`synMem` and `conMem` are the results of the two allocations. -/
def pepdnaPreHook (localHost : Bool) (t : HTable hashMin) (skb : Skb) (now : ℕ)
    (synMem conMem : Bool) : SynFate × HTable hashMin :=
  if skb.protocol = IPPROTO_TCP then
    if skb.syn = true ∧ skb.ack = false ∧ skb.rst = false then
      if localHost = true ∧ skb.mark = PEPDNA_SOCK_MARK then (.passed, t)
      else if ntohs skb.tuple.dest = SSH_PORT then (.passed, t)
      else
        match pepdnaConFind t skb.tuple.hashId with
        | none =>
          if synMem then
            match pepdnaConAlloc t skb.tuple skb.tuple.hashId now 0 conMem with
            | none => (.noMemory, t)
            | some t' => (.allocated, t')
          else (.noMemory, t)
        | some con =>
          -- the time stamp tells the SYN that the proxy itself puts back
          if skb.tstamp ≠ con.ts then (.duplicate, t) else (.passed, t)
    else (.passed, t)
  else (.passed, t)

/-- `pepdna_minip_recv_request`: no lookup before the allocation. -/
def pepdnaMinipRecvRequest (t : HTable hashMin) (syn : SynTuple) (mem : Bool) : HTable hashMin :=
  (pepdnaConAlloc t syn syn.hashId 0 0 mem).getD t

/-- `nl_r2i_callback`: no lookup before the allocation. With `alloc = 0` it works on one
connection and leaves the table. -/
def nlR2iCallback (t : HTable hashMin) (m : Rina.NlMsg) (mem : Bool) : HTable hashMin :=
  if m.alloc then (pepdnaConAlloc t m.syn m.syn.hashId 0 m.portId mem).getD t else t

end Handlers

/-! ### The server -/

section Server

variable {n : ℕ} (hashMin : ℕ → Fin n)

structure Server where
  mode : ServerMode
  nlPortId : Int
  htable : HTable hashMin

/-- `init_pepdna_server`. -/
def initPepdnaServer (mode : ServerMode) : Server hashMin := ⟨mode, -1, .empty⟩

inductive Act (n : ℕ) where
  | syn (skb : Skb) (now : ℕ) (synMem conMem : Bool)
  | request (syn : SynTuple) (mem : Bool)
  | netlink (pid : Int) (m : Rina.NlMsg) (mem : Bool)
  | release (b : Fin n) (i : ℕ)

variable {hashMin}

/-- `pepdna_nl_recv_msg`: the first message only says who sends them. -/
def pepdnaNlRecvMsg (s : Server hashMin) (pid : Int) (m : Rina.NlMsg) (mem : Bool) :
    Option (Server hashMin) :=
  match s.mode with
  | .tcp2rina => some (if s.nlPortId = -1 then { s with nlPortId := pid } else s)
  | .rina2tcp =>
    some (if s.nlPortId = -1 then { s with nlPortId := pid }
      else { s with htable := nlR2iCallback s.htable m mem })
  | _ => none

def step (localHost : Bool) (s : Server hashMin) : Act n → Option (Server hashMin)
  | .syn skb now synMem conMem =>
    if s.mode.hooked then
      some { s with htable := (pepdnaPreHook localHost s.htable skb now synMem conMem).2 }
    else none
  | .request syn mem =>
    if s.mode.minip then some { s with htable := pepdnaMinipRecvRequest s.htable syn mem }
    else none
  | .netlink pid m mem => pepdnaNlRecvMsg s pid m mem
  -- `pepdna_con_kref_release`
  | .release b i =>
    if i < (s.htable.heads b).length then some { s with htable := s.htable.del b i } else none

/-! ### Identifiers -/

/-- No two connections in the table have the same id, so a lookup by id finds the one that has
it. -/
structure IdsUnique (t : HTable hashMin) : Prop where
  unique : t.Unique
  found : ∀ c ∈ t.entries, pepdnaConFind t c.id = some c

theorem idsUnique_iff (t : HTable hashMin) : IdsUnique t ↔ t.Unique :=
  ⟨fun h => h.unique, fun h => ⟨h, t.find_of_unique h⟩⟩

/-- The two handlers that do not look for the id before they allocate meet only new ones. -/
def NewId (s : Server hashMin) : Act n → Prop
  | .request syn mem => mem = true → pepdnaConFind s.htable syn.hashId = none
  | .netlink _ m mem =>
    s.mode = .rina2tcp → s.nlPortId ≠ -1 → m.alloc = true → mem = true →
      pepdnaConFind s.htable m.syn.hashId = none
  | _ => True

theorem pepdnaConAlloc_unique_iff (t : HTable hashMin) (syn : SynTuple) (hashId ts : ℕ)
    (portId : Int) (mem : Bool) (ht : t.Unique) :
    ((pepdnaConAlloc t syn hashId ts portId mem).getD t).Unique ↔
      (mem = true → pepdnaConFind t hashId = none) := by
  unfold pepdnaConAlloc
  cases mem with
  | false => simp [ht]
  | true =>
    simp only [if_true, Option.getD_some, forall_const]
    exact t.unique_add_iff ⟨hashId, ts, syn, portId⟩ ht

theorem nlR2iCallback_unique_iff (t : HTable hashMin) (m : Rina.NlMsg) (mem : Bool)
    (ht : t.Unique) :
    (nlR2iCallback t m mem).Unique ↔
      (m.alloc = true → mem = true → pepdnaConFind t m.syn.hashId = none) := by
  unfold nlR2iCallback
  split
  · next ha => simp only [ha, forall_const, pepdnaConAlloc_unique_iff t _ _ _ _ _ ht]
  · next ha => simp [ha, ht]

/-- The hook allocates only for an id that it has not found. -/
theorem pepdnaPreHook_unique (localHost : Bool) (t : HTable hashMin) (skb : Skb) (now : ℕ)
    (synMem conMem : Bool) (ht : t.Unique) :
    (pepdnaPreHook localHost t skb now synMem conMem).2.Unique := by
  unfold pepdnaPreHook
  split <;> try exact ht
  split <;> try exact ht
  split <;> try exact ht
  split <;> try exact ht
  split
  · next hnone =>
    split <;> try exact ht
    have h := (pepdnaConAlloc_unique_iff t skb.tuple skb.tuple.hashId now 0 conMem ht).mpr
      fun _ => hnone
    split
    · exact ht
    · next t' hsome =>
      rw [hsome] at h
      exact h
  · split <;> exact ht

/-- One step keeps the ids distinct exactly when it meets the condition. -/
theorem step_unique_iff (localHost : Bool) (s : Server hashMin) (a : Act n) (t : Server hashMin)
    (hs : s.htable.Unique) (h : step localHost s a = some t) : t.htable.Unique ↔ NewId s a := by
  cases a with
  | syn skb now synMem conMem =>
    simp only [step] at h
    split at h
    · cases h
      exact iff_of_true (pepdnaPreHook_unique localHost s.htable skb now synMem conMem hs) trivial
    · cases h
  | request syn mem =>
    simp only [step] at h
    split at h
    · cases h
      exact pepdnaConAlloc_unique_iff s.htable syn _ 0 0 mem hs
    · cases h
  | netlink pid m mem =>
    simp only [step, pepdnaNlRecvMsg] at h
    split at h
    · next hm =>
      cases h
      have hne : s.mode ≠ .rina2tcp := by simp [hm]
      refine iff_of_true ?_ fun h => absurd h hne
      split <;> exact hs
    · next hm =>
      cases h
      simp only [NewId, hm, forall_const]
      split
      · next hp => simp [hp, hs]
      · next hp =>
        simp only [ne_eq, hp, not_false_eq_true, forall_const]
        exact nlR2iCallback_unique_iff s.htable m mem hs
    · cases h
  | release b i =>
    simp only [step] at h
    split at h
    · cases h
      exact iff_of_true (s.htable.unique_del b i hs) trivial
    · cases h

/-- After the step no two connections in the table have the same id. -/
def UniqueAfter (localHost : Bool) (s : Server hashMin) (a : Act n) : Prop :=
  ∀ t, step localHost s a = some t → IdsUnique t.htable

/-- Whatever the mode, the ids in the table are distinct after every step of a run exactly when
every REQUEST and every `alloc = 1` message that allocates is for an id that is not in the
table. -/
theorem tableRun_unique_iff (localHost : Bool) (mode : ServerMode) (acts : List (Act n))
    (s : Server hashMin)
    (h : Lts.run (step localHost) (initPepdnaServer hashMin mode) acts = some s) :
    Lts.Along (step localHost) (UniqueAfter localHost) (initPepdnaServer hashMin mode) acts ↔
      Lts.Along (step localHost) NewId (initPepdnaServer hashMin mode) acts := by
  refine Lts.along_congr (fun s => s.htable.Unique) (fun _ _ => True) (UniqueAfter localHost)
    NewId ?_ ?_ _ s acts Buckets.unique_empty (Lts.along_of_forall _ _ _ fun _ _ => trivial) h
  · intro s a t hs _ ha ht
    exact (step_unique_iff localHost s a t hs ht).mpr ha
  · intro s a t hs _ ht
    rw [← step_unique_iff localHost s a t hs ht, ← idsUnique_iff]
    constructor
    · intro hafter
      exact hafter t ht
    · intro ht' u hu
      cases ht.symm.trans hu
      exact ht'

end Server

/- The nine lists of `PEPDNA_HASH_BITS`, with some placement. -/
def someHash (k : ℕ) : Fin 9 := Fin.ofNat 9 k

def serverAfter (mode : ServerMode) (acts : List (Act 9)) : Server someHash :=
  (Lts.run (step false) (initPepdnaServer someHash mode) acts).getD
    (initPepdnaServer someHash mode)

instance (s : Server someHash) (a : Act 9) : Decidable (NewId s a) := by
  cases a <;> unfold NewId <;> infer_instance

/- A client comes, leaves and comes back. -/
def requestsInTurn : List (Act 9) :=
  [.request Minip.sampleSyn true, .release (someHash Minip.sampleSyn.hashId) 0,
    .request Minip.sampleSyn true]

theorem requestsInTurn_unique :
    Lts.Along (step false) (UniqueAfter false) (initPepdnaServer someHash .minip2tcp)
      requestsInTurn :=
  (tableRun_unique_iff false .minip2tcp requestsInTurn (serverAfter .minip2tcp requestsInTurn)
    (Lts.run_getD _ _ _ (by decide +kernel))).mpr (by decide +kernel)

/- The network delivers the REQUEST twice; the flow allocator reports two flows for one client. -/
def requestTwice : List (Act 9) := [.request Minip.sampleSyn true, .request Minip.sampleSyn true]

def flowTwice : List (Act 9) :=
  [.netlink 7 ⟨0, 0, 0, 0, 0, 0, true⟩ true, .netlink 7 ⟨1, 2, 3, 4, 0, 5, true⟩ true,
    .netlink 7 ⟨1, 2, 3, 4, 0, 6, true⟩ true]

theorem requestTwice_not_unique :
    (Lts.run (step false) (initPepdnaServer someHash .minip2tcp) requestTwice).isSome ∧
      ¬ IdsUnique (serverAfter .minip2tcp requestTwice).htable ∧
      (Lts.run (step false) (initPepdnaServer someHash .rina2tcp) flowTwice).isSome ∧
      ¬ IdsUnique (serverAfter .rina2tcp flowTwice).htable := by
  rw [idsUnique_iff, idsUnique_iff]
  decide +kernel

/-! ### Which SYN gets a connection -/

section Hook

variable {n : ℕ} {hashMin : ℕ → Fin n}

/-- A SYN that is not let through before the table is looked at. -/
structure Intercepted (localHost : Bool) (skb : Skb) : Prop where
  tcp : skb.protocol = IPPROTO_TCP
  syn : skb.syn = true ∧ skb.ack = false ∧ skb.rst = false
  unmarked : ¬ (localHost = true ∧ skb.mark = PEPDNA_SOCK_MARK)
  notSsh : ntohs skb.tuple.dest ≠ SSH_PORT

instance (localHost : Bool) (skb : Skb) : Decidable (Intercepted localHost skb) :=
  decidable_of_iff (skb.protocol = IPPROTO_TCP ∧
      (skb.syn = true ∧ skb.ack = false ∧ skb.rst = false) ∧
      ¬ (localHost = true ∧ skb.mark = PEPDNA_SOCK_MARK) ∧ ntohs skb.tuple.dest ≠ SSH_PORT)
    ⟨fun ⟨h1, h2, h3, h4⟩ => ⟨h1, h2, h3, h4⟩, fun h => ⟨h.tcp, h.syn, h.unmarked, h.notSsh⟩⟩

theorem pepdnaPreHook_of_intercepted (localHost : Bool) (t : HTable hashMin) (skb : Skb)
    (now : ℕ) (synMem conMem : Bool) (hi : Intercepted localHost skb) :
    pepdnaPreHook localHost t skb now synMem conMem =
      match pepdnaConFind t skb.tuple.hashId with
      | none =>
        if synMem = true ∧ conMem = true then
          (.allocated, t.add ⟨skb.tuple.hashId, now, skb.tuple, 0⟩)
        else (.noMemory, t)
      | some con => if skb.tstamp ≠ con.ts then (.duplicate, t) else (.passed, t) := by
  rw [pepdnaPreHook, if_pos hi.tcp, if_pos hi.syn, if_neg hi.unmarked, if_neg hi.notSsh]
  cases pepdnaConFind t skb.tuple.hashId with
  | some con => rfl
  | none => cases synMem <;> cases conMem <;> rfl

/-- The SYN gets a connection of its own: one with its tuple is allocated, unless memory is
lacking. -/
def Admitted (t : HTable hashMin) (skb : Skb) (now : ℕ) (synMem conMem : Bool)
    (r : SynFate × HTable hashMin) : Prop :=
  r = (.allocated, t.add ⟨skb.tuple.hashId, now, skb.tuple, 0⟩) ∨
    r = (.noMemory, t) ∧ ¬ (synMem = true ∧ conMem = true)

/-- A SYN gets a connection of its own exactly when no connection in the table has the hash of
its source address and port; it is taken for a duplicate only of one that has. -/
theorem preHook_admitted_iff (localHost : Bool) (t : HTable hashMin) (skb : Skb) (now : ℕ)
    (synMem conMem : Bool) (hi : Intercepted localHost skb) :
    (Admitted t skb now synMem conMem (pepdnaPreHook localHost t skb now synMem conMem) ↔
      ∀ c ∈ t.entries, c.id ≠ skb.tuple.hashId) ∧
    ((pepdnaPreHook localHost t skb now synMem conMem).1 = .duplicate →
      ∃ c ∈ t.entries, c.id = skb.tuple.hashId ∧ skb.tstamp ≠ c.ts) := by
  have hfind := t.find_eq_none_iff skb.tuple.hashId
  rw [pepdnaPreHook_of_intercepted localHost t skb now synMem conMem hi]
  cases hc : pepdnaConFind t skb.tuple.hashId with
  | none =>
    refine ⟨iff_of_true ?_ (hfind.mp hc), ?_⟩
    · by_cases hm : synMem = true ∧ conMem = true
      · exact Or.inl (if_pos hm)
      · exact Or.inr ⟨if_neg hm, hm⟩
    · intro hd
      dsimp only at hd
      split at hd <;> cases hd
  | some con =>
    obtain ⟨hmem, hid⟩ := t.find_eq_some _ con hc
    refine ⟨iff_of_false ?_ fun h => h con hmem hid, ?_⟩
    · rintro (h | ⟨h, -⟩) <;> dsimp only at h <;> split at h <;> cases h
    · intro hd
      dsimp only at hd
      split at hd
      · next hts => exact ⟨con, hmem, hid, hts⟩
      · cases hd

/-- The hook of the session model is this one for a SYN that the proxy has not put back itself,
when the table holds the ids of the hashed sessions. -/
theorem preHook_session_verdict (localHost alloc : Bool) (t : HTable hashMin) (skb : Skb)
    (now : ℕ) (ss : List Minip.Session) (htcp : skb.protocol = IPPROTO_TCP)
    (hsyn : skb.syn = true ∧ skb.ack = false ∧ skb.rst = false)
    (hmark : ¬ (localHost = true ∧ skb.mark = PEPDNA_SOCK_MARK))
    (hnew : ∀ c ∈ t.entries, skb.tstamp ≠ c.ts)
    (hids : ∀ k, pepdnaConFind t k = none ↔
      Minip.pepdnaConFind (ss.map Minip.Session.near) k = none) :
    (pepdnaPreHook localHost t skb now alloc alloc).1.verdict =
      (Minip.pepdnaPreHook skb.tuple alloc ss).1 := by
  by_cases hssh : ntohs skb.tuple.dest = SSH_PORT
  · rw [pepdnaPreHook, if_pos htcp, if_pos hsyn, if_neg hmark, if_pos hssh, Minip.pepdnaPreHook,
      if_pos hssh]
    rfl
  rw [pepdnaPreHook_of_intercepted localHost t skb now alloc alloc ⟨htcp, hsyn, hmark, hssh⟩,
    Minip.pepdnaPreHook, if_neg hssh]
  have hid := hids skb.tuple.hashId
  cases hc : pepdnaConFind t skb.tuple.hashId with
  | none =>
    rw [hid.mp hc]
    cases alloc <;> rfl
  | some con =>
    have hts := hnew con (t.find_eq_some _ con hc).1
    cases hm : Minip.pepdnaConFind (ss.map Minip.Session.near) skb.tuple.hashId with
    | none =>
      rw [hid.mpr hm] at hc
      cases hc
    | some i =>
      dsimp only
      rw [if_pos hts]
      rfl

end Hook

/- A SYN from the wire. -/
def synSkb (syn : SynTuple) : Skb := ⟨IPPROTO_TCP, true, false, false, 0, syn, 0⟩

/- The table after one client has connected. -/
def oneClient : HTable someHash :=
  (serverAfter .tcp2tcp [.syn (synSkb Minip.sampleSyn) 100 true true]).htable

theorem otherPort_admitted :
    Admitted oneClient (synSkb ⟨1, 7, 3, 4⟩) 200 true true
      (pepdnaPreHook false oneClient (synSkb ⟨1, 7, 3, 4⟩) 200 true true) :=
  (preHook_admitted_iff false oneClient (synSkb ⟨1, 7, 3, 4⟩) 200 true true
    (by decide +kernel)).1.mpr (by decide +kernel)

/-- The client opens a second connection from the same port, to another server. -/
theorem otherServer_dropped :
    (Lts.run (step false) (initPepdnaServer someHash .tcp2tcp)
        [.syn (synSkb Minip.sampleSyn) 100 true true]).isSome ∧
      Intercepted false (synSkb ⟨1, 2, 5, 4⟩) ∧
      (∀ c ∈ oneClient.entries, c.tuple ≠ ⟨1, 2, 5, 4⟩) ∧
      (pepdnaPreHook false oneClient (synSkb ⟨1, 2, 5, 4⟩) 200 true true).1 = .duplicate := by
  decide +kernel

end PepDna.Table
