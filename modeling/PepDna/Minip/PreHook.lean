import PepDna.Minip.Stranded

/-!
# The table of the client's proxy

`pepdna_pre_hook` takes the SYN of a new client and allocates its connection, and
drops every SYN whose hash is in the table. Sessions of different hashes do not
meet, so a proxy is the list of its sessions.
-/

namespace PepDna.Minip

def SSH_PORT : ℕ := 22

def ntohs (n : ℕ) : ℕ := n % 256 * 256 + n / 256 % 256

inductive Verdict where
  | accept
  | drop
  | stolen
  deriving Repr, DecidableEq

/-- A client comes back after its entry has left the table. What is still on the wire and what
the far proxy still has stay; entries freed there without a packet on the wire are no more. -/
def reconnect (s : Session) (syn : SynTuple) : Session :=
  ⟨{ pepdnaConAlloc .tcp2minip syn syn.hashId with tx := s.near.tx },
    s.far.filter fun b => b.hashed || !b.tx.isEmpty⟩

/-- `pepdna_con_alloc` in the hook. -/
def enrol (syn : SynTuple) : List Session → List Session
  | [] => [newSession syn]
  | s :: ss =>
    if s.near.id = syn.hashId then reconnect s syn :: ss else s :: enrol syn ss

/-- `pepdna_pre_hook` on a SYN that it has not seen before; `alloc` says whether the allocations
succeed. -/
def pepdnaPreHook (syn : SynTuple) (alloc : Bool) (ss : List Session) : Verdict × List Session :=
  if ntohs syn.dest = SSH_PORT then (.accept, ss)
  else
    match pepdnaConFind (ss.map Session.near) syn.hashId with
    | none => if alloc then (.stolen, enrol syn ss) else (.drop, ss)
    | some _ => (.drop, ss)

inductive ProxyAct where
  | syn (syn : SynTuple) (alloc : Bool)
  | session (i : ℕ) (a : SessionAct)

def proxyStep (ss : List Session) : ProxyAct → Option (List Session)
  | .syn syn alloc => some (pepdnaPreHook syn alloc ss).2
  | .session i a => (ss[i]?).bind fun s => (sessionStep s a).map (ss.set i)

theorem forall_enrol (P : Session → Prop) (syn : SynTuple) (ss : List Session)
    (h : ∀ s ∈ ss, P s) (hnew : P (newSession syn))
    (hre : ∀ s ∈ ss, s.near.id = syn.hashId → P (reconnect s syn)) : ∀ s ∈ enrol syn ss, P s := by
  induction ss with
  | nil =>
    intro s hs
    rw [List.mem_singleton.mp hs]
    exact hnew
  | cons s ss ih =>
    obtain ⟨hs, htail⟩ := List.forall_mem_cons.mp h
    obtain ⟨hre, hretail⟩ := List.forall_mem_cons.mp hre
    unfold enrol
    split
    · next hid => exact List.forall_mem_cons.mpr ⟨hre hid, htail⟩
    · exact List.forall_mem_cons.mpr ⟨hs, ih htail hretail⟩

/- ### Quiescence -/

/-- Neither the work nor the timer has anything to do, and no packet or TCP event is outstanding. -/
structure Quiet (c : Con) : Prop where
  tx : c.tx = []
  pending : c.pending = false
  pc : c.pc = .idle
  tcfa : c.tcfa = .done
  timer : c.timer = false
  syn : c.synPending = false
  rx : c.rx = none

structure Quiescent (s : Session) : Prop where
  near : Quiet s.near
  far : ∀ b ∈ s.far, Quiet b

instance (c : Con) : Decidable (Quiet c) :=
  decidable_of_iff (c.tx = [] ∧ c.pending = false ∧ c.pc = .idle ∧ c.tcfa = .done ∧
      c.timer = false ∧ c.synPending = false ∧ c.rx = none)
    ⟨fun ⟨h1, h2, h3, h4, h5, h6, h7⟩ => ⟨h1, h2, h3, h4, h5, h6, h7⟩,
      fun h => ⟨h.tx, h.pending, h.pc, h.tcfa, h.timer, h.syn, h.rx⟩⟩

instance (s : Session) : Decidable (Quiescent s) :=
  decidable_of_iff (Quiet s.near ∧ ∀ b ∈ s.far, Quiet b)
    ⟨fun h => ⟨h.1, h.2⟩, fun h => ⟨h.near, h.far⟩⟩

theorem quiet_unsent (k : Kind) (c : Con) (h : Quiet c) : ¬Sent k c := by
  rintro ⟨p, hp, -⟩
  rw [h.tx] at hp
  cases hp

theorem quiet_undropped (c : Con) (h : Quiet c) (hc : Held c) (hh : c.hashed = true) :
    c.drops = 0 := by
  have hrefs : workRefs c = 0 := by simp [workRefs, h.pending, h.pc, running]
  have hk := hc.hashed hh
  by_contra hd
  have hle := hc.dropped (Nat.pos_of_ne_zero hd)
  omega

theorem quiescent_open (key : ℕ) (s : Session) (hs : Tied key s) (hq : Quiescent s)
    (hh : s.near.hashed = true) : s.near.lflag = true := by
  have h0 := quiet_undropped s.near hq.near hs.nearHeld hh
  have hunsent (k : Kind) := quiet_unsent k s.near hq.near
  rcases Nat.eq_zero_or_pos s.near.syns with hy | hy
  · exfalso
    rcases hs.asked h0 hy with ht | hr | ⟨b, hb, hr⟩
    · rw [hq.near.tcfa] at ht
      cases ht
    · exact hunsent _ hr
    · have hqb := hq.far b hb
      rcases hr with hr | hr | hr
      · rw [hqb.tcfa] at hr
        cases hr
      · rw [hqb.tcfa] at hr
        cases hr
      · exact quiet_unsent _ b hqb hr
  · have hl : s.near.lsock = true := by
      refine (hs.accepted h0 hy).resolve_left ?_
      rw [hq.near.syn]
      exact Bool.false_ne_true
    by_contra hf
    rcases hs.ending h0 (Or.inr ⟨hl, Bool.not_eq_true _ ▸ hf⟩) with hd | ⟨b, hb, hd⟩
    · exact hunsent _ hd
    · exact hd.elim (quiet_unsent _ b (hq.far b hb)) (quiet_unsent _ b (hq.far b hb))

/- ### Runs of the proxy -/

/-- Nothing is left of the session at either proxy or between them. -/
structure Over (s : Session) : Prop where
  near : s.near.tx = []
  far : ∀ b ∈ s.far, b.hashed = false ∧ b.tx = []

instance (s : Session) : Decidable (Over s) :=
  decidable_of_iff (s.near.tx = [] ∧ ∀ b ∈ s.far, b.hashed = false ∧ b.tx = [])
    ⟨fun h => ⟨h.1, h.2⟩, fun h => ⟨h.near, h.far⟩⟩

theorem reconnect_over (s : Session) (syn : SynTuple) (h : Over s) :
    reconnect s syn = newSession syn := by
  have hfar : (s.far.filter fun b => b.hashed || !b.tx.isEmpty) = [] := by
    rw [List.filter_eq_nil_iff]
    intro b hb
    rw [(h.far b hb).1, (h.far b hb).2]
    exact Bool.false_ne_true
  unfold reconnect
  rw [hfar, h.near]
  rfl

/-- A client does not come back before its last session is over; for the rest see `SessionOk`. -/
def ProxyOk (ss : List Session) : ProxyAct → Prop
  | .syn syn _ => ∀ s ∈ ss, s.near.id = syn.hashId → s.near.hashed = true ∨ Over s
  | .session _ a => SessionOk a

instance (ss : List Session) (a : ProxyAct) : Decidable (ProxyOk ss a) := by
  cases a <;> unfold ProxyOk <;> infer_instance

def AllTied (ss : List Session) : Prop := ∀ s ∈ ss, ∃ key, Tied key s

theorem allTied_step (ss : List Session) (a : ProxyAct) (ts : List Session) (hs : AllTied ss)
    (hok : ProxyOk ss a) (h : proxyStep ss a = some ts) : AllTied ts := by
  cases a with
  | syn syn alloc =>
    cases h
    unfold pepdnaPreHook
    split
    · exact hs
    split
    · next hf =>
      split
      · refine forall_enrol _ syn ss hs ⟨_, tied_newSession syn⟩ ?_
        intro s hmem hid
        have hout := pepdnaConFind_none _ _ hf s.near (List.mem_map_of_mem hmem) hid
        rw [reconnect_over s syn ((hok s hmem hid).resolve_left (by simp [hout]))]
        exact ⟨_, tied_newSession syn⟩
      · exact hs
    · exact hs
  | session i a =>
    simp only [proxyStep] at h
    obtain ⟨s, hi, h⟩ := Option.bind_eq_some_iff.mp h
    obtain ⟨t, ht, rfl⟩ := Option.map_eq_some_iff.mp h
    obtain ⟨key, hkey⟩ := hs s (List.mem_of_getElem? hi)
    exact forall_mem_set _ ss i t hs ⟨key, tied_step key s a t hkey hok ht⟩

/-- If no packet of the set-up and of the close is lost and the far proxy can connect, then in
every quiescent state every entry of the table has an open client connection, and the hook drops
no SYN but of such clients. -/
theorem proxyRun_not_stranded (acts : List ProxyAct) (ss : List Session)
    (hok : Lts.Along proxyStep ProxyOk [] acts) (h : Lts.run proxyStep [] acts = some ss)
    (hq : ∀ s ∈ ss, Quiescent s) :
    (∀ s ∈ ss, s.near.hashed = true → s.near.lflag = true) ∧
      ∀ syn, (pepdnaPreHook syn true ss).1 = .drop →
        ∃ s ∈ ss, s.near.id = syn.hashId ∧ s.near.hashed = true ∧ s.near.lflag = true := by
  have htied : AllTied ss := by
    refine Lts.run_invariant_along AllTied ProxyOk allTied_step [] ss acts ?_ hok h
    exact fun _ hs => absurd hs List.not_mem_nil
  have hopen (s : Session) (hs : s ∈ ss) (hh : s.near.hashed = true) : s.near.lflag = true := by
    obtain ⟨key, hkey⟩ := htied s hs
    exact quiescent_open key s hkey (hq s hs) hh
  refine ⟨hopen, fun syn hd => ?_⟩
  unfold pepdnaPreHook at hd
  split at hd
  · cases hd
  split at hd
  · cases hd
  · next i hf =>
    obtain ⟨hi, -, -⟩ := List.findIdx?_eq_some_iff_getElem.mp hf
    have hlen : i < ss.length := by simpa using hi
    have hget : (ss.map Session.near)[i]? = some ss[i].near := by simp [hlen]
    obtain ⟨hh, hid⟩ := pepdnaConFind_some _ _ i hf _ hget
    exact ⟨ss[i], List.getElem_mem hlen, hid, hh, hopen _ (List.getElem_mem hlen) hh⟩

/- A client connects, and both proxies find nothing to read. -/
def connected : List ProxyAct :=
  .syn sampleSyn true :: List.map (.session 0)
    [.near (.tcfa 0 5), .near (.tcfa 0 5),
      .toFar (.request sampleSyn.hashId 9 9 5 sampleSyn) false 6 fun _ => 0,
      .far 0 (.tcfa 0 6), .far 0 (.tcfa 0 6), .far 0 (.tcfa 0 6), .far 0 (.tcfa 0 6),
      .far 0 (.tcfa 0 6), .far 0 (.tcfa 0 6),
      .toNear 0 (.response sampleSyn.hashId 9 10) false 7 fun _ => 0, .near .accept,
      .near (.work .tau), .near (.work .tau), .near (.work .tau), .near (.work (.recvRet (-11))),
      .near (.work .tau), .far 0 (.work .tau), .far 0 (.work .tau), .far 0 (.work .tau),
      .far 0 (.work (.recvRet (-11))), .far 0 (.work .tau)]

def proxyAfter (acts : List ProxyAct) : List Session := (Lts.run proxyStep [] acts).getD []

theorem connected_not_stranded :
    (∃ s ∈ proxyAfter connected, s.near.hashed = true) ∧
      ∀ s ∈ proxyAfter connected, s.near.hashed = true → s.near.lflag = true :=
  ⟨by decide +kernel, (proxyRun_not_stranded connected (proxyAfter connected) (by decide +kernel)
    (by decide +kernel) (by decide +kernel)).1⟩

/- The run ends in a quiescent state in which the client is locked out. -/
def Strands (acts : List ProxyAct) : Prop :=
  Lts.run proxyStep [] acts = some (proxyAfter acts) ∧ (∀ s ∈ proxyAfter acts, Quiescent s) ∧
    (∃ s ∈ proxyAfter acts, s.near.hashed = true ∧ s.near.lflag = false) ∧
    pepdnaPreHook sampleSyn true (proxyAfter acts) = (.drop, proxyAfter acts)

instance (acts : List ProxyAct) : Decidable (Strands acts) :=
  inferInstanceAs (Decidable (_ ∧ _))

/- The REQUEST is lost, and nothing sends it again. -/
def lostRequest : List ProxyAct :=
  [.syn sampleSyn true, .session 0 (.near (.tcfa 0 5)), .session 0 (.near (.tcfa 0 5)),
    .session 0 (.loseNear (.request sampleSyn.hashId 9 9 5 sampleSyn))]

theorem lostRequest_stranded : Strands lostRequest := by decide +kernel

/- The far proxy cannot connect and does not say so. -/
def refused : List ProxyAct :=
  [.syn sampleSyn true, .session 0 (.near (.tcfa 0 5)), .session 0 (.near (.tcfa 0 5)),
    .session 0 (.toFar (.request sampleSyn.hashId 9 9 5 sampleSyn) false 6 fun _ => 0),
    .session 0 (.far 0 (.tcfa (-111) 6))]

/- The server closes; the client is back before the FINISHED of its proxy has arrived, which then
closes the new connection of the far proxy. The DELETE of the client finds nothing there. -/
def returned : List ProxyAct :=
  connected ++ List.map (.session 0)
    [.far 0 .dataReady, .far 0 (.work .tau), .far 0 (.work .tau), .far 0 (.work .tau),
      .far 0 (.work (.recvRet 0)), .far 0 (.work .tau), .far 0 (.work .tau), .far 0 (.work .tau),
      .far 0 (.work .tau), .toNear 0 (.delete sampleSyn.hashId) false 8 fun _ => 0] ++
  connected ++ List.map (.session 0)
    [.toFar (.finished sampleSyn.hashId) false 9 fun _ => 0, .near .dataReady, .near (.work .tau),
      .near (.work .tau), .near (.work .tau), .near (.work (.recvRet 0)), .near (.work .tau),
      .near (.work .tau), .near (.work .tau), .near (.work .tau),
      .toFar (.delete sampleSyn.hashId) false 9 fun _ => 0]

/-- The other conditions of the theorem are needed too. -/
theorem refused_returned_stranded : Strands refused ∧ Strands returned := by decide +kernel

end PepDna.Minip
