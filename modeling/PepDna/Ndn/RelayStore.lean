import PepDna.Ndn.Request
import PepDna.Ndn.RelayFlow

/-!
# The content store of the relay

What is in the store decides what is sent under its name: a packet with the same name is dropped
before any pending Interest is looked at. A copy that has become stale therefore keeps the fresh one
away from those who ask for it. At the end the store answers the Interest of a request that the
proxy has translated.
-/

namespace PepDna.Ndn

open Ccn (parseRequest)

variable {cfg : Config} {r s : Relay}

/- ### One step -/

@[simp] theorem getFaceOrCreate_contents (now : ℕ) (peer : Peer) (r : Relay) :
    (getFaceOrCreate cfg now peer r).2.contents = r.contents := by
  rw [getFaceOrCreate]
  split <;> rfl

@[simp] theorem getFaceOrCreate_pit (now : ℕ) (peer : Peer) (r : Relay) :
    (getFaceOrCreate cfg now peer r).2.pit = r.pit := by
  rw [getFaceOrCreate]
  split <;> rfl

@[simp] theorem getFaceOrCreate_nonces (now : ℕ) (peer : Peer) (r : Relay) :
    (getFaceOrCreate cfg now peer r).2.nonces = r.nonces := by
  rw [getFaceOrCreate]
  split <;> rfl

@[simp] theorem getFaceOrCreate_dataOut (now : ℕ) (peer : Peer) (r : Relay) :
    (getFaceOrCreate cfg now peer r).2.dataOut = r.dataOut := by
  rw [getFaceOrCreate]
  split <;> rfl

@[simp] theorem getFaceOrCreate_received (now : ℕ) (peer : Peer) (r : Relay) :
    (getFaceOrCreate cfg now peer r).2.received = r.received := by
  rw [getFaceOrCreate]
  split <;> rfl

theorem makeRoom_history (r : Relay) :
    (makeRoom cfg r).dataOut = r.dataOut ∧ (makeRoom cfg r).received = r.received := by
  rw [makeRoom, removeOldest]
  split
  · split <;> exact ⟨rfl, rfl⟩
  · exact ⟨rfl, rfl⟩

theorem contentAdd2cache_history (r : Relay) (c : Content) :
    (contentAdd2cache cfg r c).dataOut = r.dataOut ∧
      (contentAdd2cache cfg r c).received = r.received := by
  rw [contentAdd2cache]
  split
  · exact ⟨rfl, rfl⟩
  · simp only
    split <;> exact makeRoom_history r

theorem doAgeing_history (t : ℕ) (r : Relay) :
    (doAgeing t r).dataOut = r.dataOut ∧ (doAgeing t r).received = r.received := by
  have hfold (ids : List ℕ) (r : Relay) : (ids.foldl faceRemove r).dataOut = r.dataOut ∧
      (ids.foldl faceRemove r).received = r.received := by
    induction ids generalizing r with
    | nil => exact ⟨rfl, rfl⟩
    | cons face ids ih => exact ih (faceRemove r face)
  exact hfold _ _

theorem storeInterest_history (now face : ℕ) (r : Relay) (p : NamedPkt) :
    (storeInterest cfg now face r p).dataOut = r.dataOut ∧
      (storeInterest cfg now face r p).received = r.received := by
  rw [storeInterest]
  split
  · exact ⟨rfl, rfl⟩
  · split <;> exact ⟨rfl, rfl⟩

/-- Data sent while the store is `contents` and `arrived` comes in: it is in the store and matches
the Interest that came, or nothing in the store has its name. -/
def Sends (cfg : Config) (contents : List Content) (arrived : List (ℕ × Pkt)) (d : ℕ × Pkt) : Prop :=
  (∃ (p : NamedPkt) (c : Content), c ∈ contents ∧ c.pkt = d.2 ∧ ndntlvCMatch cfg.digest p c = true ∧
    (d.1, p.pkt) ∈ arrived ∧ p.pkt.type = NDN_TLV_Interest) ∨
  ∃ p : NamedPkt, p.pkt = d.2 ∧ hasName contents p.pfx = false

def Progress (cfg : Config) (contents : List Content) (r s : Relay) : Prop :=
  ∃ arrived new, s.received = r.received ++ arrived ∧ s.dataOut = r.dataOut ++ new ∧
    ∀ d ∈ new, Sends cfg contents arrived d

theorem progress_silent (contents : List Content) (arrived : List (ℕ × Pkt))
    (hrec : s.received = r.received ++ arrived) (hout : s.dataOut = r.dataOut) :
    Progress cfg contents r s :=
  ⟨arrived, [], hrec, hout.trans (List.append_nil _).symm, List.forall_mem_nil _⟩

theorem progress_unchanged (contents : List Content) (hrec : s.received = r.received)
    (hout : s.dataOut = r.dataOut) : Progress cfg contents r s :=
  progress_silent contents [] (hrec.trans (List.append_nil _).symm) hout

theorem fwdHandleInterest_progress (now face : ℕ) (pkt : Pkt) (htype : pkt.type = NDN_TLV_Interest)
    (h : fwdHandleInterest cfg now face { r with received := r.received ++ [(face, pkt)] } pkt =
      some s) : Progress cfg r.contents r s := by
  rw [fwdHandleInterest] at h
  split at h
  · cases h
    exact progress_silent _ _ rfl rfl
  · split at h
    · cases h
    · next p hp =>
      have hpkt : p.pkt = pkt := of_eq_some pkt p hp
      subst hpkt
      split at h
      · cases h
        exact progress_silent _ _ rfl rfl
      · split at h
        · next c hc =>
          cases h
          refine ⟨_, _, rfl, rfl, List.forall_mem_singleton.mpr ?_⟩
          refine Or.inl ⟨p, c, ?_, rfl, ?_, ?_, htype⟩
          · exact List.mem_of_find?_eq_some hc
          · exact List.find?_some hc
          · exact List.mem_singleton_self _
        · split at h
          · cases h
            obtain ⟨hout, hrec⟩ := @storeInterest_history cfg now face
              { r with received := r.received ++ [(face, p.pkt)], nonces := _ } p
            exact progress_silent _ _ hrec hout
          · cases h
            exact progress_silent _ _ rfl rfl

theorem deliver_progress (now : ℕ) (r : Relay) (p : NamedPkt)
    (hnew : hasName r.contents p.pfx = false) :
    ∃ new, (deliver cfg now r p).dataOut = r.dataOut ++ new ∧
      (deliver cfg now r p).received = r.received ∧
      ∀ d ∈ new, ∃ q : NamedPkt, q.pkt = d.2 ∧ hasName r.contents q.pfx = false := by
  have hserve : ∀ d ∈ (serveFaces [] ((answered cfg.digest p r.pit).flatMap (·.pending))).map
      (·, p.pkt), ∃ q : NamedPkt, q.pkt = d.2 ∧ hasName r.contents q.pfx = false := by
    intro d hd
    obtain ⟨f, _, rfl⟩ := List.mem_map.mp hd
    exact ⟨p, rfl, hnew⟩
  rw [deliver, contentServePending_eq]
  split
  · exact ⟨[], (List.append_nil _).symm, rfl, List.forall_mem_nil _⟩
  · split
    · obtain ⟨hout, hrec⟩ := @contentAdd2cache_history cfg (serve cfg p r)
        (contentServePending cfg r (contentNew now p)).2.1
      exact ⟨_, hout, hrec, hserve⟩
    · exact ⟨_, rfl, rfl, hserve⟩

theorem fwdHandleContent_progress (now face : ℕ) (pkt : Pkt)
    (h : fwdHandleContent cfg now { r with received := r.received ++ [(face, pkt)] } pkt = some s) :
    Progress cfg r.contents r s := by
  rw [fwdHandleContent] at h
  split at h
  · split at h
    · cases h
      exact progress_silent _ _ rfl rfl
    · cases h
  · next p hp =>
    split at h
    · cases h
      exact progress_silent _ _ rfl rfl
    · next hname =>
      cases h
      obtain ⟨new, hout, hrec, hnew⟩ := @deliver_progress cfg now
        { r with received := r.received ++ [(face, pkt)] } p (Bool.not_eq_true _ ▸ hname)
      exact ⟨[(face, pkt)], new, hrec, hout, fun d hd => Or.inr (hnew d hd)⟩

theorem rxNdntlv_progress (now face : ℕ) (data : Bytes)
    (h : rxNdntlv cfg now face data r = some s) : Progress cfg r.contents r s := by
  rw [rxNdntlv] at h
  split at h
  · cases h
    exact progress_unchanged _ rfl rfl
  · cases h
  · next pkt _ =>
    simp only at h
    split at h
    · next htype => exact fwdHandleInterest_progress now face pkt htype h
    · exact fwdHandleContent_progress now face pkt h

theorem coreRX_progress (now : ℕ) (peer : Peer) (data : Bytes)
    (h : coreRX cfg now peer data r = some s) : Progress cfg r.contents r s := by
  rw [coreRX] at h
  split at h
  · cases h
    exact progress_unchanged _ (getFaceOrCreate_received ..) (getFaceOrCreate_dataOut ..)
  · have hp := rxNdntlv_progress now _ _ h
    simpa only [Progress, getFaceOrCreate_contents, getFaceOrCreate_received,
      getFaceOrCreate_dataOut] using hp
  · cases h

theorem populateNdntlv_progress (now : ℕ) (data : Bytes)
    (h : populateNdntlv cfg now data r = some s) : Progress cfg r.contents r s := by
  rw [populateNdntlv] at h
  split at h
  · cases h
  · cases h
    exact progress_unchanged _ rfl rfl
  · split at h
    · split at h
      · cases h
        exact progress_unchanged _ rfl rfl
      · cases h
      · next pkt _ =>
        obtain ⟨p, _, rfl⟩ := Option.map_eq_some_iff.mp h
        obtain ⟨hout, hrec⟩ := @contentAdd2cache_history cfg
          { r with populated := r.populated ++ [pkt] } { contentNew now p with static := true }
        exact progress_unchanged _ hrec hout
    · cases h
      exact progress_unchanged _ rfl rfl

theorem populateCache_progress (now : ℕ) (data : Bytes)
    (h : populateCache cfg now data r = some s) : Progress cfg r.contents r s := by
  rw [populateCache] at h
  split at h
  · cases h
    exact progress_unchanged _ rfl rfl
  · split at h
    · split at h
      · cases h
      · cases h
        exact progress_unchanged _ rfl rfl
    · exact populateNdntlv_progress now _ h
    · cases h
      exact progress_unchanged _ rfl rfl
    · cases h

theorem mgmtPrefixreg_progress (pfx : Prefix) (face : ℕ) (answered : Bool)
    (h : mgmtPrefixreg pfx face answered r = some s) : Progress cfg r.contents r s := by
  rw [mgmtPrefixreg] at h
  split at h
  · split at h
    · cases h
      exact progress_unchanged _ rfl rfl
    · cases h
  · cases h
    exact progress_unchanged _ rfl rfl

theorem relayStep_progress (a : Act) (h : relayStep cfg r a = some s) :
    Progress cfg r.contents r s := by
  cases a with
  | rx now peer data => exact coreRX_progress now peer data h
  | ageing t =>
    cases h
    obtain ⟨hout, hrec⟩ := doAgeing_history t r
    exact progress_unchanged _ hrec hout
  | newface now peer static reflect =>
    cases h
    exact progress_unchanged _ rfl rfl
  | destroyface face =>
    cases h
    rw [mgmtDestroyface]
    split <;> exact progress_unchanged _ rfl rfl
  | prefixreg pfx face answered => exact mgmtPrefixreg_progress pfx face answered h
  | populate now data => exact populateCache_progress now data h

/- ### Stale copies -/

/-- A copy of the packet is in the store, and marked as stale. -/
def HoldsStale (d : Pkt) (r : Relay) : Prop := ∃ c ∈ r.contents, c.pkt = d ∧ c.stale = true

instance (d : Pkt) (r : Relay) : Decidable (HoldsStale d r) :=
  inferInstanceAs (Decidable (∃ c ∈ r.contents, c.pkt = d ∧ c.stale = true))

theorem named_inj (p q : NamedPkt) (h : p.pkt.pfx = q.pkt.pfx) : p.pfx = q.pfx :=
  Option.some.inj (p.named.symm.trans (h.trans q.named))

theorem eq_of_pfx (htidy : StoreTidy cfg r) (c c' : Content) (hc : c ∈ r.contents)
    (hc' : c' ∈ r.contents) (h : c.pfx = c'.pfx) : c = c' :=
  List.inj_on_of_nodup_map htidy.names_nodup hc hc' h

/-- What a step sends under the name of `d` is `d`: the answer to an Interest that comes in this
step, that asks for `d` and that need not be fresh. -/
def AnswersStale (cfg : Config) (d : Pkt) (r s : Relay) : Prop :=
  ∃ arrived new, s.received = r.received ++ arrived ∧ s.dataOut = r.dataOut ++ new ∧
    ∀ e ∈ new, e.2.pfx = d.pfx → e.2 = d ∧ ∃ p c : NamedPkt, c.pkt = d ∧
      (e.1, p.pkt) ∈ arrived ∧ p.pkt.type = NDN_TLV_Interest ∧ p.pkt.mbf = false ∧
      satisfies cfg.digest c p = true

theorem progress_stale (htidy : StoreTidy cfg r) (d : Pkt) (hd : HoldsStale d r)
    (h : Progress cfg r.contents r s) : AnswersStale cfg d r s := by
  obtain ⟨c, hc, rfl, hstale⟩ := hd
  obtain ⟨arrived, new, hrec, hout, hnew⟩ := h
  refine ⟨arrived, new, hrec, hout, fun e he hname => ?_⟩
  rcases hnew e he with ⟨p, c', hc', hpkt, hmatch, harr, htype⟩ | ⟨p, hpkt, hnew⟩
  · have heq : c' = c := by
      refine eq_of_pfx htidy c' c hc' hc (named_inj _ _ ?_)
      rw [hpkt]
      exact hname
    subst heq
    rw [ndntlvCMatch, Bool.and_eq_true, hstale, Bool.and_true, Bool.not_eq_true'] at hmatch
    exact ⟨hpkt.symm, p, c'.toNamedPkt, rfl, harr, htype, hmatch.2, hmatch.1⟩
  · -- a packet of the same name as the copy is not sent on
    refine absurd (named_inj c.toNamedPkt p ?_) ((hasName_eq_false _ _).mp hnew c hc)
    rw [hpkt]
    exact hname.symm

theorem stale_run (d : Pkt) (acts : List Act) (htidy : StoreTidy cfg r)
    (halong : Lts.Along (relayStep cfg) (fun u _ => HoldsStale d u) r acts) :
    Lts.Along (relayStep cfg)
      (fun u a => ∀ v, relayStep cfg u a = some v → AnswersStale cfg d u v) r acts := by
  induction acts generalizing r with
  | nil => trivial
  | cons a acts ih =>
    refine ⟨fun v hv => progress_stale htidy d halong.1 (relayStep_progress a hv), fun u hu => ?_⟩
    exact ih (storeTidy_step htidy a hu) (halong.2 u hu)

/- While the store holds a stale copy, packets of its name are dropped as duplicates: what a step
sends under the name is the copy, and never to answer an Interest that must be fresh. -/
theorem relayRun_stale (d : Pkt) (acts acts' : List Act)
    (hrun : Lts.run (relayStep cfg) Relay.init acts = some r)
    (halong : Lts.Along (relayStep cfg) (fun u _ => HoldsStale d u) r acts') :
    Lts.Along (relayStep cfg)
      (fun u a => ∀ v, relayStep cfg u a = some v → AnswersStale cfg d u v) r acts' :=
  stale_run d acts' (storeTidy_run acts hrun) halong

/-- An Interest for `/a` that must be fresh. -/
def askFresh (nonce : Byte) : Bytes := [5, 15, 7, 3, 8, 1, 97, 9, 2, 18, 0, 10, 4, nonce, 0, 0, 0]

def wentStale : List Act := oneAsks ++ [.rx 2 producer dataBytes, .ageing 3]

/-- The producer answers the second Interest, but only the first one is served. -/
def askTwice : List Act :=
  [.rx 4 clientA (askBytes 8), .rx 4 clientB (askFresh 9), .rx 5 producer dataBytes]

theorem askTwice_stale :
    (ranTo (wentStale ++ askTwice)).dataOut = (ranTo wentStale).dataOut ++ [(2, dataPktA)] ∧
    Lts.Along (relayStep smallRelay)
      (fun u a => ∀ v, relayStep smallRelay u a = some v → AnswersStale smallRelay dataPktA u v)
      (ranTo wentStale) askTwice :=
  ⟨by decide +kernel, relayRun_stale dataPktA wentStale askTwice
    (ranTo_eq wentStale (by decide +kernel)) (by decide +kernel)⟩

/- ### The entry that makes room -/

/-- The loop keeps the position of the least time it has seen; a time of 0 would count as none. -/
theorem oldestLoop_spec (contents : List Content) (k age : ℕ) (oldest : Option ℕ)
    (hused : ∀ c ∈ contents, c.static = false → c.lastUsed ≠ 0) :
    (oldestLoop contents k age oldest = oldest ∧
      ∀ c ∈ contents, c.static = false → age ≠ 0 ∧ age ≤ c.lastUsed) ∨
    ∃ j c, oldestLoop contents k age oldest = some (k + j) ∧ contents[j]? = some c ∧
      c.static = false ∧ (∀ d ∈ contents, d.static = false → c.lastUsed ≤ d.lastUsed) ∧
      (age ≠ 0 → c.lastUsed < age) := by
  induction contents generalizing k age oldest with
  | nil => exact Or.inl ⟨rfl, List.forall_mem_nil _⟩
  | cons c contents ih =>
    obtain ⟨hc, hrest⟩ := List.forall_mem_cons.mp hused
    rw [oldestLoop]
    by_cases htake : (!c.static && (decide (age = 0) || decide (c.lastUsed < age))) = true
    · rw [if_pos htake]
      simp only [Bool.and_eq_true, Bool.not_eq_true', Bool.or_eq_true, decide_eq_true_iff] at htake
      obtain ⟨hstatic, hage⟩ := htake
      rcases ih (k + 1) c.lastUsed (some k) hrest with ⟨heq, hle⟩ | ⟨j, d, heq, hj, hd, hle, hlt⟩
      · refine Or.inr ⟨0, c, heq, rfl, hstatic, List.forall_mem_cons.mpr ⟨fun _ => le_rfl,
          fun d hd hs => (hle d hd hs).2⟩, fun hne => hage.resolve_left hne⟩
      · have hcd := hlt (hc hstatic)
        refine Or.inr ⟨j + 1, d, ?_, hj, hd, List.forall_mem_cons.mpr ⟨fun _ => hcd.le, hle⟩,
          fun hne => hcd.trans (hage.resolve_left hne)⟩
        rw [heq, Nat.add_assoc, Nat.add_comm 1 j]
    · rw [if_neg htake]
      have hskip : c.static = false → age ≠ 0 ∧ age ≤ c.lastUsed := by
        simp only [Bool.and_eq_true, Bool.not_eq_true', Bool.or_eq_true, decide_eq_true_iff,
          not_and, not_or, not_lt] at htake
        exact htake
      rcases ih (k + 1) age oldest hrest with ⟨heq, hle⟩ | ⟨j, d, heq, hj, hd, hle, hlt⟩
      · exact Or.inl ⟨heq, List.forall_mem_cons.mpr ⟨hskip, hle⟩⟩
      · refine Or.inr ⟨j + 1, d, ?_, hj, hd, List.forall_mem_cons.mpr ⟨fun hs => ?_, hle⟩, hlt⟩
        · rw [heq, Nat.add_assoc, Nat.add_comm 1 j]
        · obtain ⟨hne, hage⟩ := hskip hs
          exact (hlt hne).le.trans hage

theorem contentAdd2cache_full (r : Relay) (c : Content) (hpos : 0 < cfg.maxCacheEntries)
    (hfull : r.contentcnt = cfg.maxCacheEntries) (hnew : hasName r.contents c.pfx = false)
    (hused : ∀ d ∈ r.contents, d.static = false → d.lastUsed ≠ 0) :
    (∃ k d, r.contents[k]? = some d ∧ d.static = false ∧
      (∀ e ∈ r.contents, e.static = false → d.lastUsed ≤ e.lastUsed) ∧
      (contentAdd2cache cfg r c).contents = c :: r.contents.eraseIdx k ∧
      (contentAdd2cache cfg r c).contentcnt = cfg.maxCacheEntries) ∨
    (∀ d ∈ r.contents, d.static = true) ∧
      (contentAdd2cache cfg r c).contents = c :: r.contents ∧
      (contentAdd2cache cfg r c).contentcnt = cfg.maxCacheEntries + 1 := by
  have hroom : makeRoom cfg r = removeOldest r := if_pos ⟨hpos, hfull.ge⟩
  have hadd (hle : (removeOldest r).contentcnt ≤ cfg.maxCacheEntries) :
      contentAdd2cache cfg r c = { removeOldest r with
        contents := c :: (removeOldest r).contents
        contentcnt := (removeOldest r).contentcnt + 1 } := by
    rw [contentAdd2cache, hnew, hroom]
    exact if_pos (Or.inr hle)
  rcases oldestLoop_spec r.contents 0 0 none hused with ⟨heq, hall⟩ | ⟨j, d, heq, hj, hd, hle, -⟩
  · have hsame : removeOldest r = r := by rw [removeOldest, heq]
    rw [hadd (by rw [hsame, hfull]), hsame]
    refine Or.inr ⟨fun d hd => ?_, rfl, by rw [hfull]⟩
    by_contra hs
    exact (hall d hd (Bool.not_eq_true _ ▸ hs)).1 rfl
  · rw [Nat.zero_add] at heq
    have hless : removeOldest r =
        { r with contents := r.contents.eraseIdx j, contentcnt := r.contentcnt - 1 } := by
      rw [removeOldest, heq]
    rw [hadd (by rw [hless]; change r.contentcnt - 1 ≤ _; omega), hless]
    refine Or.inl ⟨j, d, hj, hd, hle, rfl, ?_⟩
    change r.contentcnt - 1 + 1 = _
    omega

def storedAt (time : ℕ) (comp : Byte) (static : Bool) : Content :=
  ⟨⟨{ newPkt NDN_TLV_Data with pfx := some ⟨[[comp]], none⟩ }, ⟨[[comp]], none⟩, rfl⟩, static, false,
    time⟩

def fullRelay : Relay :=
  { Relay.init with contents := [storedAt 5 97 false, storedAt 4 98 true], contentcnt := 2 }

theorem fullRelay_evicts :
    (∃ k d, fullRelay.contents[k]? = some d ∧ d.static = false ∧
      (∀ e ∈ fullRelay.contents, e.static = false → d.lastUsed ≤ e.lastUsed) ∧
      (contentAdd2cache smallRelay fullRelay (storedAt 6 99 false)).contents =
        storedAt 6 99 false :: fullRelay.contents.eraseIdx k ∧
      (contentAdd2cache smallRelay fullRelay (storedAt 6 99 false)).contentcnt =
        smallRelay.maxCacheEntries) ∨
    (∀ d ∈ fullRelay.contents, d.static = true) ∧
      (contentAdd2cache smallRelay fullRelay (storedAt 6 99 false)).contents =
        storedAt 6 99 false :: fullRelay.contents ∧
      (contentAdd2cache smallRelay fullRelay (storedAt 6 99 false)).contentcnt =
        smallRelay.maxCacheEntries + 1 :=
  contentAdd2cache_full fullRelay (storedAt 6 99 false) (by decide) (by decide) (by decide +kernel)
    (by decide)

/- ### Packets without a name -/

theorem of_eq_none_iff (pkt : Pkt) : NamedPkt.of pkt = none ↔ pkt.pfx = none := by
  rw [NamedPkt.of]
  split
  · next h => exact ⟨fun _ => h, fun _ => rfl⟩
  · next pfx h =>
    exact ⟨fun h' => absurd h' (Option.some_ne_none _),
      fun h' => absurd (h.symm.trans h') (Option.some_ne_none pfx)⟩

theorem fwdHandleInterest_none_iff (now face : ℕ) (r : Relay) (pkt : Pkt) :
    fwdHandleInterest cfg now face r pkt = none ↔
      (nonceIsDup r.nonces pkt).isSome = true ∧ pkt.pfx = none := by
  rw [fwdHandleInterest, ← of_eq_none_iff]
  split
  · next h => simp [h]
  · next nonces h =>
    split
    · next hp => simp [h, hp]
    · next p hp =>
      rw [hp]
      refine ⟨fun hnone => ?_, fun hand => absurd hand.2 (Option.some_ne_none p)⟩
      split at hnone
      · cases hnone
      · split at hnone
        · cases hnone
        · split at hnone <;> cases hnone

theorem fwdHandleContent_none_iff (now : ℕ) (r : Relay) (pkt : Pkt) :
    fwdHandleContent cfg now r pkt = none ↔
      pkt.pfx = none ∧ ¬ (r.contents = [] ∧ r.pit = []) := by
  rw [fwdHandleContent, ← of_eq_none_iff]
  split
  · next h =>
    rw [h]
    split
    · next hempty => exact ⟨fun h' => absurd h' (Option.some_ne_none r), fun h' => absurd hempty h'.2⟩
    · next hempty => exact ⟨fun _ => ⟨rfl, hempty⟩, fun _ => rfl⟩
  · next p hp =>
    rw [hp]
    refine ⟨fun hnone => ?_, fun hand => absurd hand.1 (Option.some_ne_none p)⟩
    split at hnone <;> cases hnone

theorem rxNdntlv_none_iff (r : Relay) (now face : ℕ) (data : Bytes) :
    rxNdntlv cfg now face data r = none ↔ ndntlvForwarder data = .error .overrun ∨
      ∃ pkt, ndntlvForwarder data = .ok pkt ∧ pkt.pfx = none ∧
        if pkt.type = NDN_TLV_Interest then (nonceIsDup r.nonces pkt).isSome = true
        else ¬ (r.contents = [] ∧ r.pit = []) := by
  rw [rxNdntlv]
  cases hfwd : ndntlvForwarder data with
  | error err =>
    cases err with
    | bail => simp
    | overrun => simp
  | ok pkt =>
    by_cases htype : pkt.type = NDN_TLV_Interest
    · simp [htype, fwdHandleInterest_none_iff, and_comm]
    · simp [htype, fwdHandleContent_none_iff]

/-- An empty Interest behind a code switch. -/
def emptyInterest : Bytes := [0x80, 1, 5, 0]

/-- The relay with a copy of what an Interest asks for. The first entry that matches is sent; if it is
not the copy, then its digest is the last component of the name. -/
theorem interest_served (htidy : StoreTidy cfg r) (now : ℕ) (peer : Peer) (data : Bytes) (pkt : Pkt)
    (hndn : pkt2suite data = (some .ndntlv, data)) (hparsed : ndntlvForwarder data = .ok pkt)
    (htype : pkt.type = NDN_TLV_Interest) (p : NamedPkt) (hp : NamedPkt.of pkt = some p)
    (hnonce : (nonceIsDup r.nonces pkt).isSome = true) (hmgmt : isMgmt p.pfx = false) (c : Content)
    (hc : c ∈ r.contents) (hmatch : ndntlvCMatch cfg.digest p c = true) (hname : c.pfx = p.pfx) :
    ∃ s d, coreRX cfg now peer data r = some s ∧ d ∈ r.contents ∧
      s.dataOut = r.dataOut ++ [((getFaceOrCreate cfg now peer r).1, d.pkt)] ∧
      (d = c ∨ ∃ md, cfg.digest d.pkt.buf = some md ∧ p.pfx.comps = d.pfx.comps ++ [md]) := by
  obtain ⟨nonces, hnonces⟩ := Option.isSome_iff_exists.mp hnonce
  obtain ⟨d, hd⟩ : ∃ d, r.contents.find? (ndntlvCMatch cfg.digest p) = some d := by
    rw [← Option.isSome_iff_exists, List.find?_isSome]
    exact ⟨c, hc, hmatch⟩
  have hmem := List.mem_of_find?_eq_some hd
  have hdmatch : ndntlvCMatch cfg.digest p d = true := List.find?_some hd
  have hsat : satisfies cfg.digest d.toNamedPkt p = true := (Bool.and_eq_true _ _ ▸ hdmatch).1
  have hrx : coreRX cfg now peer data r = some
      { (getFaceOrCreate cfg now peer r).2 with
        received := (getFaceOrCreate cfg now peer r).2.received ++
          [((getFaceOrCreate cfg now peer r).1, pkt)]
        nonces := nonces
        dataOut := (getFaceOrCreate cfg now peer r).2.dataOut ++
          [((getFaceOrCreate cfg now peer r).1, d.pkt)] } := by
    rw [coreRX, hndn]
    simp only [rxNdntlv, if_true, hparsed, htype, fwdHandleInterest, getFaceOrCreate_nonces, hnonces,
      hp, hmgmt, getFaceOrCreate_contents, hd, Bool.false_eq_true, if_false]
  refine ⟨_, d, hrx, hmem, by rw [getFaceOrCreate_dataOut], ?_⟩
  rcases names_of_satisfies cfg.digest d.toNamedPkt p hsat with heq | ⟨md, hmd, heq⟩
  · exact Or.inl (eq_of_pfx htidy d c hmem hc (heq.symm.trans hname.symm))
  · exact Or.inr ⟨md, hmd, by rw [heq]⟩

theorem pkt2suite_interest (data : Bytes) (h : data.head? = some 5) :
    pkt2suite data = (some .ndntlv, data) := by
  cases data with
  | nil => cases h
  | cons b data =>
    cases h
    cases data <;> rfl

theorem isMgmt_request (request : Bytes) : isMgmt ⟨requestComps request, none⟩ = false := by
  rw [isMgmt, Bool.and_eq_false_iff]
  exact Or.inr rfl

/- From the request of a client to the packet that the relay sends back to the proxy. -/
theorem request_served (e : Words.Endian) (request : Bytes) (opts : InterestOpts) (prandom : UInt32)
    (tmp : { d : Bytes // d.length = CCNL_MAX_PACKET_SIZE })
    (hurl : (parseRequest request).length < 32)
    (hpieces : ∀ piece ∈ pieces (CCNL_MAX_NAME_COMP - 3) (requestWord request),
      zeroEscape piece = false)
    (acts : List Act) (hrun : Lts.run (relayStep cfg) Relay.init acts = some r) (c : Content)
    (hc : c ∈ r.contents) (hname : c.pfx = ⟨requestComps request, none⟩)
    (hfresh : opts.mustbefresh = 0 ∨ c.stale = false)
    (hnonce : Words.store e 4 (opts.withNonce prandom).nonce.toNat ∉ r.nonces) (now : ℕ)
    (peer : Peer) :
    ∃ data s d, pepdnaSendToCcnRelay e (parseRequest request) opts prandom tmp = some data ∧
      relayStep cfg r (.rx now peer data) = some s ∧ d ∈ r.contents ∧
      s.dataOut = r.dataOut ++ [((getFaceOrCreate cfg now peer r).1, d.pkt)] ∧
      (d = c ∨ ∃ md, cfg.digest d.pkt.buf = some md ∧
        requestComps request = d.pfx.comps ++ [md]) := by
  obtain ⟨data, hsend, hhead, hread⟩ := request_packet e request opts prandom tmp hurl
  have hparsed := hread.mpr hpieces
  have hndn := pkt2suite_interest data hhead
  let p : NamedPkt := ⟨interestPkt e ⟨requestComps request, none⟩ (-1) (opts.withNonce prandom) data,
    ⟨requestComps request, none⟩, rfl⟩
  have hmatch : ndntlvCMatch cfg.digest p c = true := by
    have hsat : satisfies cfg.digest c.toNamedPkt p = true := by
      refine satisfies_of_eq cfg.digest c.toNamedPkt p hname.symm rfl rfl ?_
      rw [hname]
      exact requestComps_length_le request hurl
    rw [ndntlvCMatch, hsat, Bool.true_and, Bool.not_eq_true', Bool.and_eq_false_iff]
    refine hfresh.imp_left fun hmbf => ?_
    change decide ((opts.withNonce prandom).mustbefresh ≠ 0) = false
    rw [InterestOpts.withNonce]
    split <;> exact decide_eq_false fun hne => hne hmbf
  have hdup : (nonceIsDup r.nonces p.pkt).isSome = true := by
    change (nonceFindOrAppend r.nonces _).isSome = true
    rw [nonceFindOrAppend, if_neg hnonce]
    rfl
  obtain ⟨s, d, hrx, hd, hout, hwhich⟩ := interest_served (storeTidy_run acts hrun) now peer data _
    hndn hparsed rfl p rfl hdup (isMgmt_request request) c hc hmatch hname
  exact ⟨data, s, d, hsend, hrx, hd, hout, hwhich⟩

/-- Data for `/ndn/test/f`. -/
def dataF : Bytes :=
  [6, 19, 7, 14, 8, 3, 110, 100, 110, 8, 4, 116, 101, 115, 116, 8, 1, 102, 21, 1, 66]

def contentF : Content :=
  ⟨⟨{ newPkt NDN_TLV_Data with
      pfx := some ⟨requestComps getF, none⟩
      content := some [66]
      val := 2 ^ 64 - 1
      buf := dataF }, ⟨requestComps getF, none⟩, rfl⟩, true, false, 1⟩

theorem getF_served :
    ∃ data s d, pepdnaSendToCcnRelay .little (parseRequest getF) ⟨7, 0, 0⟩ 7 zeros = some data ∧
      relayStep smallRelay (ranTo [.populate 1 dataF]) (.rx 2 clientA data) = some s ∧
      d ∈ (ranTo [.populate 1 dataF]).contents ∧
      s.dataOut = (ranTo [.populate 1 dataF]).dataOut ++
        [((getFaceOrCreate smallRelay 2 clientA (ranTo [.populate 1 dataF])).1, d.pkt)] ∧
      (d = contentF ∨ ∃ md, smallRelay.digest d.pkt.buf = some md ∧
        requestComps getF = d.pfx.comps ++ [md]) :=
  request_served .little getF ⟨7, 0, 0⟩ 7 zeros (by decide) (by decide +kernel) [.populate 1 dataF]
    (ranTo_eq [.populate 1 dataF] (by decide +kernel)) contentF (by decide +kernel) rfl (Or.inl rfl)
    (by decide +kernel) 2 clientA

end PepDna.Ndn
