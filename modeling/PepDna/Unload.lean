import PepDna.Table

/-!
# Module unload (server.c:627-668, connection.c:161, 310)

`pepdna_server_stop` tests the counter of connections and then walks the table with
`hlist_for_each_entry_safe`, to which it gives the array `htable` for a list head: the walk goes
through the first of the nine lists. What is in the others is neither closed nor unlinked when
`pepdna_srv` is freed.
-/

namespace PepDna.Table

/-- `PEPDNA_HASH_BITS` is the number of lists. -/
abbrev PEPDNA_HASH_BITS : ℕ := 9

theorem hash_bits_pos : 0 < PEPDNA_HASH_BITS := by decide

section Stop

variable {hashMin : ℕ → Fin PEPDNA_HASH_BITS}

/-- The server with `conns`, a 32-bit counter. -/
structure Srv (hashMin : ℕ → Fin PEPDNA_HASH_BITS) where
  server : Server hashMin
  conns : ℕ

def initSrv (hashMin : ℕ → Fin PEPDNA_HASH_BITS) (mode : ServerMode) : Srv hashMin :=
  ⟨initPepdnaServer hashMin mode, 0⟩

/-- `atomic_inc` where `pepdna_con_alloc` adds to the table, `atomic_dec` in
`pepdna_con_kref_release`. -/
def connsAfter (localHost : Bool) (s : Srv hashMin) : Act PEPDNA_HASH_BITS → ℕ
  | .syn skb now synMem conMem =>
    if (pepdnaPreHook localHost s.server.htable skb now synMem conMem).1 = .allocated then
      u32 (s.conns + 1)
    else s.conns
  | .request _ mem => if mem then u32 (s.conns + 1) else s.conns
  | .netlink _ m mem =>
    if s.server.mode = .rina2tcp ∧ s.server.nlPortId ≠ -1 ∧ m.alloc = true ∧ mem = true then
      u32 (s.conns + 1)
    else s.conns
  | .release _ _ => u32Sub s.conns 1

def srvStep (localHost : Bool) (s : Srv hashMin) (a : Act PEPDNA_HASH_BITS) :
    Option (Srv hashMin) :=
  (step localHost s.server a).map fun t => ⟨t, connsAfter localHost s a⟩

/-- What `pepdna_server_stop` does to connections, and the `kfree` of the server. -/
inductive StopEvent where
  | close (con : Conn)
  | free
  deriving Repr, DecidableEq

def pepdnaServerStop (s : Srv hashMin) : List StopEvent :=
  (if s.conns ≠ 0 then (s.server.htable.heads ⟨0, hash_bits_pos⟩).map .close else []) ++ [.free]

/-- Every connection in the table is closed before the server is freed. -/
def ClosesAll (s : Srv hashMin) : Prop :=
  ∀ c ∈ s.server.htable.entries,
    StopEvent.close c ∈ (pepdnaServerStop s).takeWhile fun ev => decide (ev ≠ .free)

instance (s : Srv hashMin) : Decidable (ClosesAll s) := List.decidableBAll _ _

/-! ### The counter -/

theorem pepdnaPreHook_length (localHost : Bool) (t : HTable hashMin) (skb : Skb) (now : ℕ)
    (synMem conMem : Bool) :
    (pepdnaPreHook localHost t skb now synMem conMem).2.entries.length = t.entries.length +
      if (pepdnaPreHook localHost t skb now synMem conMem).1 = .allocated then 1 else 0 := by
  unfold pepdnaPreHook
  split <;> try rfl
  split <;> try rfl
  split <;> try rfl
  split <;> try rfl
  split
  · split <;> try rfl
    cases conMem with
    | false => rfl
    | true => exact t.entries_length_add _
  · split <;> rfl

theorem pepdnaConAlloc_length (t : HTable hashMin) (syn : SynTuple) (hashId ts : ℕ) (portId : Int)
    (mem : Bool) :
    ((pepdnaConAlloc t syn hashId ts portId mem).getD t).entries.length =
      t.entries.length + if mem then 1 else 0 := by
  cases mem with
  | false => rfl
  | true => exact t.entries_length_add _

theorem nlR2iCallback_length (t : HTable hashMin) (m : Rina.NlMsg) (mem : Bool) :
    (nlR2iCallback t m mem).entries.length =
      t.entries.length + if m.alloc = true ∧ mem = true then 1 else 0 := by
  unfold nlR2iCallback
  split
  · next ha => simp only [pepdnaConAlloc_length, ha, true_and]
  · next ha => simp only [ha, Bool.false_eq_true, false_and, if_false, Nat.add_zero]

theorem nlRecvMsg_length (s t : Server hashMin) (pid : Int) (m : Rina.NlMsg) (mem : Bool)
    (h : pepdnaNlRecvMsg s pid m mem = some t) :
    t.htable.entries.length = s.htable.entries.length +
      if s.mode = .rina2tcp ∧ s.nlPortId ≠ -1 ∧ m.alloc = true ∧ mem = true then 1 else 0 := by
  unfold pepdnaNlRecvMsg at h
  split at h
  · next hm =>
    cases h
    simp only [hm, reduceCtorEq, false_and, if_false, Nat.add_zero]
    split <;> rfl
  · next hm =>
    cases h
    by_cases hp : s.nlPortId = -1
    · simp [hp]
    · simp [hm, hp, nlR2iCallback_length]
  · cases h

theorem u32_dec (k m : ℕ) (h : k = u32 (m + 1)) : u32Sub k 1 = u32 m := by
  unfold u32 u32Sub at *
  omega

/- A handler that may add a connection counts the one that it adds. -/
theorem counted_added (k m m' : ℕ) (p : Prop) [Decidable p] (h : k = u32 m)
    (hm : m' = m + if p then 1 else 0) : (if p then u32 (k + 1) else k) = u32 m' := by
  subst hm
  split
  · unfold u32 at *
    omega
  · exact h

theorem srvStep_conns (localHost : Bool) (s : Srv hashMin) (a : Act PEPDNA_HASH_BITS)
    (s' : Srv hashMin) (hs : s.conns = u32 s.server.htable.entries.length)
    (h : srvStep localHost s a = some s') : s'.conns = u32 s'.server.htable.entries.length := by
  obtain ⟨t, ht, rfl⟩ := Option.map_eq_some_iff.mp h
  cases a with
  | syn skb now synMem conMem =>
    simp only [step] at ht
    split at ht
    · cases ht
      exact counted_added _ _ _ _ hs (pepdnaPreHook_length localHost _ skb now synMem conMem)
    · cases ht
  | request syn mem =>
    simp only [step] at ht
    split at ht
    · cases ht
      exact counted_added _ _ _ _ hs (pepdnaConAlloc_length _ syn syn.hashId 0 0 mem)
    · cases ht
  | netlink pid m mem => exact counted_added _ _ _ _ hs (nlRecvMsg_length s.server t pid m mem ht)
  | release b i =>
    simp only [step] at ht
    split at ht
    · next hi =>
      cases ht
      have hlen := s.server.htable.entries_length_del b i hi
      rw [← hlen] at hs
      exact u32_dec _ _ hs
    · cases ht

/-! ### The walk -/

theorem mem_closed (s : Srv hashMin) (c : Conn) :
    StopEvent.close c ∈ ((pepdnaServerStop s).takeWhile fun ev => decide (ev ≠ .free)) ↔
      s.conns ≠ 0 ∧ c ∈ s.server.htable.heads 0 := by
  unfold pepdnaServerStop
  by_cases h : s.conns = 0
  · simp [h]
  · simp [h]

/-- The module closes every connection exactly if all of them are in the first list and their
number is not a multiple of 2^32. -/
theorem serverStop_closesAll_iff (localHost : Bool) (mode : ServerMode)
    (acts : List (Act PEPDNA_HASH_BITS)) (s : Srv hashMin)
    (h : Lts.run (srvStep localHost) (initSrv hashMin mode) acts = some s) :
    ClosesAll s ↔
      ∀ c ∈ s.server.htable.entries,
        hashMin c.id = 0 ∧ u32 s.server.htable.entries.length ≠ 0 := by
  have hconns : s.conns = u32 s.server.htable.entries.length :=
    Lts.run_invariant _ (srvStep_conns localHost) _ s acts
      (by simp [initSrv, initPepdnaServer, u32]) h
  unfold ClosesAll
  refine forall₂_congr fun c hc => ?_
  rw [mem_closed, hconns, and_comm]
  refine and_congr_left fun _ => ?_
  constructor
  · exact s.server.htable.placed _ c
  · intro hb
    rw [← hb]
    exact (s.server.htable.mem_entries c).mp hc

end Stop

theorem highBits_lt (v : ℕ) : u32 v / 536870912 < PEPDNA_HASH_BITS := by
  unfold u32 PEPDNA_HASH_BITS
  omega

/-- `hash_min` of the kernel for the `ilog2(9) = 3` bits of the table: the highest bits of the
product with `GOLDEN_RATIO_32`. -/
def hashMin3 (key : ℕ) : Fin PEPDNA_HASH_BITS :=
  ⟨u32 (key * 1640531527) / 536870912, highBits_lt (key * 1640531527)⟩

-- 127.0.0.1 with the port, to 127.0.0.2:80, in network order
def localClient (source : ℕ) : SynTuple := ⟨16777343, source, 33554559, 20480⟩

def srvAfter (mode : ServerMode) (acts : List (Act PEPDNA_HASH_BITS)) : Srv hashMin3 :=
  (Lts.run (srvStep false) (initSrv hashMin3 mode) acts).getD (initSrv hashMin3 mode)

/- Both clients hash to the first list. -/
def inFirstList : List (Act PEPDNA_HASH_BITS) :=
  [.request (localClient 13) true, .request (localClient 14) true]

theorem closesAll_inFirstList : ClosesAll (srvAfter .minip2tcp inFirstList) :=
  (serverStop_closesAll_iff false .minip2tcp inFirstList (srvAfter .minip2tcp inFirstList)
    (Lts.run_getD _ _ _ (by decide +kernel))).mpr (by decide +kernel)

/- The second one hashes to the fourth. -/
def inTwoLists : List (Act PEPDNA_HASH_BITS) :=
  [.request (localClient 13) true, .request (localClient 1) true]

/- The first connection is closed, the second one stays in the table of a server that is freed. -/
theorem not_closesAll_inTwoLists :
    (Lts.run (srvStep false) (initSrv hashMin3 .minip2tcp) inTwoLists).isSome ∧
      ((srvAfter .minip2tcp inTwoLists).server.htable.entries.map fun c => c.tuple) =
        [localClient 13, localClient 1] ∧
      pepdnaServerStop (srvAfter .minip2tcp inTwoLists) =
        [.close ⟨(localClient 13).hashId, 0, localClient 13, 0⟩, .free] ∧
      ¬ClosesAll (srvAfter .minip2tcp inTwoLists) := by
  decide +kernel

end PepDna.Table
