import Mathlib.Data.List.AList
import Mathlib.Data.List.Perm.Basic
import PepDna.Lts
import PepDna.Rina.Tuple

/-!
# Answering flow requests on the far side
(flow-allocator-server.cc:70-297, rina.c:298-321, tcp_connect.c:137-154)

`ev_thread_fn` asks the kernel module to open the TCP connection of a flow request and then files
the request under its port in `events_map`. When the connection is there, the kernel answers with
`alloc = 1` and the port; `run` looks the port up and responds to the request it finds.

The two threads, the kernel's netlink callback and the connecting works interleave; netlink keeps
the order of messages each way. Each operation on `events_map` is a step, also `findEvents`, which
takes no lock. Requests are never freed, so each has an address of its own. `running` stays true.
-/

namespace PepDna.Rina.Requests

structure FlowRequestEvent where
  address : ℕ
  processInstance : List Char
  portId : Int
  deriving Repr, DecidableEq

/-- What `eventWait` returns; the branches of `other` have no part in this. -/
inductive IpcEvent where
  | flowAllocationRequested (processInstance : List Char) (portId : Int)
  | flowDeallocated (portId : Int)
  | other
  deriving Repr, DecidableEq

/- `request` is history: the request the message is about. It is not sent. -/
structure Mail where
  msg : NlMsg
  request : Option FlowRequestEvent
  deriving Repr, DecidableEq

inductive EvPc where
  | eventWait
  -- the message has been sent; before `insertEvents`
  | insert (r : FlowRequestEvent)
  | ended
  deriving Repr, DecidableEq

inductive RunPc where
  | recvmsg
  -- `findEvents` has returned the event
  | respond (data : NlMsg) (r : FlowRequestEvent)
  | erase (data : NlMsg) (r : FlowRequestEvent)
  | ended
  deriving Repr, DecidableEq

/- `created` counts the flow requests. `lookups` and `responses` are history: the request of each
`alloc = 1` answer with what `findEvents` returned for it, and the calls of
`allocateFlowResponse`. -/
structure Server where
  ev : EvPc
  run : RunPc
  eventsMap : AList fun _ : Int => FlowRequestEvent
  created : ℕ
  toKernel : List Mail
  connecting : List Mail
  answers : List Mail
  lookups : List (FlowRequestEvent × Option FlowRequestEvent)
  responses : List FlowRequestEvent

def start : Server where
  ev := .eventWait
  run := .recvmsg
  eventsMap := ∅
  created := 0
  toKernel := []
  connecting := []
  answers := []
  lookups := []
  responses := []

/-- `events_map.insert`, which leaves an entry that is there. -/
def insertEvents (s : Server) (r : FlowRequestEvent) : Server :=
  { s with
    eventsMap := if r.portId ∈ s.eventsMap then s.eventsMap else s.eventsMap.insert r.portId r }

def findEvents (s : Server) (portId : Int) : Option FlowRequestEvent := s.eventsMap.lookup portId

def eraseEvents (s : Server) (portId : Int) : Server :=
  if (findEvents s portId).isSome then { s with eventsMap := s.eventsMap.erase portId } else s

/-- `ev_thread_fn` up to the end of its `netlink_send_data`, whose success is `sent`. Nothing is said
about a request that names no tuple. -/
def evThreadStep (s : Server) (sent : Bool) : IpcEvent → Option Server
  | .flowAllocationRequested processInstance portId =>
    (evThreadFn processInstance portId).map fun msg =>
      let r := ⟨s.created, processInstance, portId⟩
      if sent then
        { s with created := s.created + 1, toKernel := s.toKernel ++ [⟨msg, some r⟩],
                 ev := .insert r }
      else { s with created := s.created + 1, ev := .ended }
  | .flowDeallocated portId =>
    some (if sent then
      { s with toKernel := s.toKernel ++ [⟨⟨0, 0, 0, 0, 0, portId, false⟩, none⟩] }
      else { s with ev := .ended })
  | .other => some s

/-- `nl_r2i_callback`. `ok`: `pepdna_con_alloc` succeeds and its connecting work is queued. -/
def nlR2iCallback (s : Server) (ok : Bool) (m : Mail) (ms : List Mail) : Server :=
  if m.msg.alloc && ok then { s with toKernel := ms, connecting := s.connecting ++ [m] }
  else { s with toKernel := ms }

/-- The answer of `pepdna_tcp_connect` in RINA2TCP mode. -/
def connectAnswer (m : Mail) : Mail :=
  let syn := m.msg.syn
  ⟨pepdnaNlSendmsg (UInt32.ofNat syn.saddr) (UInt16.ofNat syn.source) (UInt32.ofNat syn.daddr)
    (UInt16.ofNat syn.dest) syn.hashId m.msg.portId true, m.request⟩

/-- `run` on a message; `destroyFlow` does not touch `events_map`. -/
def runRecv (s : Server) (m : Mail) (ms : List Mail) : Server :=
  if m.msg.alloc then
    let event := findEvents s m.msg.portId
    { s with
      answers := ms
      lookups := s.lookups ++ (m.request.map fun r => (r, event)).toList
      run := match event with
        | some r => .respond m.msg r
        | none => .recvmsg }
  else { s with answers := ms }

inductive Act where
  | event (e : IpcEvent) (sent : Bool)
  | insert
  | callback (ok : Bool)
  -- the `k`th connecting work ends; `ok`: it has sent its answer
  | connect (k : ℕ) (ok : Bool)
  -- the kernel asks to deallocate a flow (`pepdna_con_i2r_work`)
  | dealloc (id : ℕ) (portId : Int)
  | recv
  | respond (sent : Bool)
  | erase
  deriving Repr, DecidableEq

def serverStep (s : Server) : Act → Option Server
  | .event e sent => if s.ev = .eventWait then evThreadStep s sent e else none
  | .insert =>
    match s.ev with
    | .insert r => some { insertEvents s r with ev := .eventWait }
    | _ => none
  | .callback ok =>
    match s.toKernel with
    | m :: ms => some (nlR2iCallback s ok m ms)
    | [] => none
  | .connect k ok =>
    (s.connecting[k]?).map fun m =>
      { s with
        connecting := s.connecting.eraseIdx k
        answers := if ok then s.answers ++ [connectAnswer m] else s.answers }
  | .dealloc id portId =>
    some { s with answers := s.answers ++ [⟨pepdnaNlSendmsg 0 0 0 0 id portId false, none⟩] }
  | .recv =>
    match s.run, s.answers with
    | .recvmsg, m :: ms => some (runRecv s m ms)
    | _, _ => none
  | .respond sent =>
    match s.run with
    | .respond data r =>
      some (if sent then
        { s with responses := s.responses ++ [r], run := .erase data r,
                 toKernel := s.toKernel ++ [⟨{ data with alloc := false }, none⟩] }
        else { s with responses := s.responses ++ [r], run := .ended })
    | _ => none
  | .erase =>
    match s.run with
    | .erase data _ => some { eraseEvents s data.portId with run := .recvmsg }
    | _ => none

/-- The request whose response is the next call of `run`. -/
def RunPc.responding : RunPc → Option FlowRequestEvent
  | .respond _ r => some r
  | _ => none

/- Every answer found the request it is about, and `allocateFlowResponse` has been called for it
or is the next call of `run`. -/
def Answered (s : Server) : Prop :=
  ∀ x ∈ s.lookups, x.2 = some x.1 ∧ (x.1 ∈ s.responses ∨ s.run.responding = some x.1)

instance (s : Server) : Decidable (Answered s) := List.decidableBAll _ _

/- `run` does not overtake `ev_thread_fn`: an answer is looked up after its request has been filed.
And the port of a request that is filed has no entry left from an earlier one. -/
def timely (s : Server) : Act → Bool
  | .recv =>
    match s.answers, s.ev with
    | m :: _, .insert r => !m.msg.alloc || r.portId != m.msg.portId
    | _, _ => true
  | .insert =>
    match s.ev with
    | .insert r => (findEvents s r.portId).isNone
    | _ => true
  | _ => true

/- ### Requests that are under way -/

def Mail.about (r : FlowRequestEvent) (m : Mail) : Bool := m.request == some r

def RunPc.handles (r : FlowRequestEvent) : RunPc → ℕ
  | .respond _ q => if q = r then 1 else 0
  | .erase _ q => if q = r then 1 else 0
  | _ => 0

/-- How often the request is on its way to the kernel, in it, on its way back, or at `run`. -/
def Server.underWay (s : Server) (r : FlowRequestEvent) : ℕ :=
  s.toKernel.countP (Mail.about r) + s.connecting.countP (Mail.about r) +
    s.answers.countP (Mail.about r) + s.run.handles r

/-- The message names the port of its request. -/
def Mail.Names (m : Mail) : Prop := ∃ r, m.request = some r ∧ m.msg.portId = r.portId

def Mail.Tagged (m : Mail) : Prop := m.msg.alloc = true → m.Names

structure Server.Tagged (s : Server) : Prop where
  toKernel : ∀ m ∈ s.toKernel, m.Tagged
  connecting : ∀ m ∈ s.connecting, m.Names
  answers : ∀ m ∈ s.answers, m.Tagged

structure Tracked (s : Server) : Prop where
  tagged : s.Tagged
  once : ∀ r, s.underWay r ≤ 1
  old : ∀ r, 0 < s.underWay r → r.address < s.created
  filed : ∀ r, 0 < s.underWay r → findEvents s r.portId = some r ∨ s.ev = .insert r
  handled : ∀ data r, s.run = .respond data r ∨ s.run = .erase data r →
    data.portId = r.portId ∧ findEvents s r.portId = some r
  answered : Answered s

theorem tracked_start : Tracked start := by
  refine ⟨⟨?_, ?_, ?_⟩, fun r => Nat.zero_le _, ?_, ?_, ?_, ?_⟩
  · simp [start]
  · simp [start]
  · simp [start]
  · intro r h
    cases h
  · intro r h
    cases h
  · intro data r h
    rcases h with h | h <;> cases h
  · simp [Answered, start]

/-- Where `events_map` and `ev_thread_fn` stay and nothing is started, what is under way is still
filed. -/
theorem tracked_le (s t : Server) (hs : Tracked s)
    (hpart : (t.ev, t.eventsMap, t.created) = (s.ev, s.eventsMap, s.created))
    (htagged : t.Tagged) (hle : ∀ r, t.underWay r ≤ s.underWay r)
    (hhandled : ∀ data r, t.run = .respond data r ∨ t.run = .erase data r →
      data.portId = r.portId ∧ findEvents s r.portId = some r)
    (hanswered : Answered t) : Tracked t := by
  simp only [Prod.mk.injEq] at hpart
  obtain ⟨hev, hmap, hcreated⟩ := hpart
  have hfind (p : Int) : findEvents t p = findEvents s p := by rw [findEvents, findEvents, hmap]
  refine ⟨htagged, fun r => (hle r).trans (hs.once r), ?_, ?_, ?_, hanswered⟩
  · intro r hr
    rw [hcreated]
    exact hs.old r (hr.trans_le (hle r))
  · intro r hr
    rw [hfind, hev]
    exact hs.filed r (hr.trans_le (hle r))
  · intro data r hr
    rw [hfind]
    exact hhandled data r hr

/- A step in which only messages move. -/
structure Fewer (s t : Server) : Prop where
  part : (t.ev, t.run, t.eventsMap, t.created, t.lookups, t.responses) =
    (s.ev, s.run, s.eventsMap, s.created, s.lookups, s.responses)
  tagged : t.Tagged
  mails : ∀ r, t.underWay r ≤ s.underWay r

theorem tracked_fewer (s t : Server) (hs : Tracked s) (h : Fewer s t) : Tracked t := by
  have hp := h.part
  simp only [Prod.mk.injEq] at hp
  obtain ⟨h1, h2, h3, h4, h5, h6⟩ := hp
  refine tracked_le s t hs (by rw [h1, h3, h4]) h.tagged h.mails ?_ ?_
  · intro data r
    rw [h2]
    exact hs.handled data r
  · intro x
    rw [h5, h6, h2]
    exact hs.answered x

theorem about_none (msg : NlMsg) (r : FlowRequestEvent) : Mail.about r ⟨msg, none⟩ = false := rfl

theorem tagged_dealloc (msg : NlMsg) (h : msg.alloc = false) : Mail.Tagged ⟨msg, none⟩ := by
  intro ha
  rw [h] at ha
  cases ha

/-- A message without a request is sent to the kernel, or to `run`. -/
theorem fewer_note (s : Server) (msg : NlMsg) (hs : Tracked s) (h : msg.alloc = false) :
    Fewer s { s with toKernel := s.toKernel ++ [⟨msg, none⟩] } ∧
      Fewer s { s with answers := s.answers ++ [⟨msg, none⟩] } := by
  obtain ⟨h1, h2, h3⟩ := hs.tagged
  have hd := tagged_dealloc msg h
  constructor
  · refine ⟨rfl, ⟨?_, h2, h3⟩, ?_⟩
    · simp only [List.forall_mem_append, List.forall_mem_singleton]
      exact ⟨h1, hd⟩
    · intro r
      simp only [Server.underWay, List.countP_append, List.countP_singleton, about_none]
      exact le_rfl
  · refine ⟨rfl, ⟨h1, h2, ?_⟩, ?_⟩
    · simp only [List.forall_mem_append, List.forall_mem_singleton]
      exact ⟨h3, hd⟩
    · intro r
      simp only [Server.underWay, List.countP_append, List.countP_singleton, about_none]
      exact le_rfl

theorem fewer_callback (s : Server) (ok : Bool) (m : Mail) (ms : List Mail) (hs : Tracked s)
    (hm : s.toKernel = m :: ms) : Fewer s (nlR2iCallback s ok m ms) := by
  obtain ⟨h1, h2, h3⟩ := hs.tagged
  rw [hm, List.forall_mem_cons] at h1
  unfold nlR2iCallback
  split
  · next ha =>
    rw [Bool.and_eq_true] at ha
    refine ⟨rfl, ⟨h1.2, ?_, h3⟩, ?_⟩
    · simp only [List.forall_mem_append, List.forall_mem_singleton]
      exact ⟨h2, h1.1 ha.1⟩
    · intro r
      simp only [Server.underWay, hm, List.countP_append, List.countP_cons, List.countP_nil]
      omega
  · refine ⟨rfl, ⟨h1.2, h2, h3⟩, ?_⟩
    intro r
    simp only [Server.underWay, hm, List.countP_cons]
    omega

/-- The answer names the port the connection was opened for. -/
theorem fewer_connect (s : Server) (k : ℕ) (ok : Bool) (m : Mail) (hs : Tracked s)
    (hm : s.connecting[k]? = some m) :
    Fewer s { s with
      connecting := s.connecting.eraseIdx k
      answers := if ok then s.answers ++ [connectAnswer m] else s.answers } := by
  obtain ⟨h1, h2, h3⟩ := hs.tagged
  have hnames := h2 m (List.mem_of_getElem? hm)
  have herase : ∀ x ∈ s.connecting.eraseIdx k, x.Names := fun x hx =>
    h2 x (List.mem_of_mem_eraseIdx hx)
  have hcount (r : FlowRequestEvent) : s.connecting.countP (Mail.about r) =
      (s.connecting.eraseIdx k).countP (Mail.about r) + if Mail.about r m then 1 else 0 := by
    obtain ⟨hk, hget⟩ := List.getElem?_eq_some_iff.mp hm
    rw [← (List.getElem_cons_eraseIdx_perm hk).countP_eq, List.countP_cons, hget]
  cases ok with
  | true =>
    refine ⟨rfl, ⟨h1, herase, ?_⟩, ?_⟩
    · simp only [if_true, List.forall_mem_append, List.forall_mem_singleton]
      exact ⟨h3, fun _ => hnames⟩
    · intro r
      have habout : Mail.about r (connectAnswer m) = Mail.about r m := rfl
      simp only [Server.underWay, if_true, hcount r, List.countP_append, List.countP_singleton,
        habout]
      omega
  | false =>
    refine ⟨rfl, ⟨h1, herase, h3⟩, ?_⟩
    intro r
    simp only [Server.underWay, Bool.false_eq_true, if_false, hcount r]
    omega

/- ### The two threads -/

theorem evThreadFn_portId (name : List Char) (portId : Int) (msg : NlMsg)
    (h : evThreadFn name portId = some msg) : msg.portId = portId := by
  simp only [evThreadFn, Option.bind_eq_bind, Option.bind_eq_some_iff, Option.pure_def,
    Option.some.injEq] at h
  obtain ⟨_, _, _, _, _, _, _, _, _, _, _, _, rfl⟩ := h
  rfl

theorem about_self (msg : NlMsg) (r q : FlowRequestEvent) :
    (if Mail.about q ⟨msg, some r⟩ then 1 else 0) = if r = q then 1 else 0 := by
  simp only [Mail.about, beq_iff_eq, Option.some.injEq]

/-- A request comes in under a new address, and its message is sent. -/
theorem tracked_request (s : Server) (r : FlowRequestEvent) (msg : NlMsg) (hs : Tracked s)
    (hev : s.ev = .eventWait) (haddr : r.address = s.created) (hport : msg.portId = r.portId) :
    Tracked { s with
      created := s.created + 1, toKernel := s.toKernel ++ [⟨msg, some r⟩], ev := .insert r } := by
  obtain ⟨h1, h2, h3⟩ := hs.tagged
  have hnew : s.underWay r = 0 := by
    by_contra hne
    have hlt := hs.old r (Nat.pos_of_ne_zero hne)
    omega
  have hcount (q : FlowRequestEvent) : Server.underWay { s with
      created := s.created + 1, toKernel := s.toKernel ++ [⟨msg, some r⟩], ev := .insert r } q =
      s.underWay q + if r = q then 1 else 0 := by
    simp only [Server.underWay, List.countP_append, List.countP_singleton, about_self]
    omega
  have hsplit (q : FlowRequestEvent) : 0 < (s.underWay q + if r = q then 1 else 0) →
      q = r ∨ 0 < s.underWay q := by
    intro hpos
    by_cases hq : r = q
    · exact Or.inl hq.symm
    · rw [if_neg hq] at hpos
      exact Or.inr hpos
  refine ⟨⟨?_, h2, h3⟩, ?_, ?_, ?_, hs.handled, hs.answered⟩
  · simp only [List.forall_mem_append, List.forall_mem_singleton]
    exact ⟨h1, fun _ => ⟨r, rfl, hport⟩⟩
  · intro q
    rw [hcount]
    by_cases hq : r = q
    · rw [if_pos hq, ← hq, hnew]
    · rw [if_neg hq]
      exact hs.once q
  · intro q hpos
    rw [hcount] at hpos
    rcases hsplit q hpos with rfl | hpos
    · exact haddr ▸ Nat.lt_succ_self _
    · exact Nat.lt_succ_of_lt (hs.old q hpos)
  · intro q hpos
    rw [hcount] at hpos
    rcases hsplit q hpos with rfl | hpos
    · exact Or.inr rfl
    · rcases hs.filed q hpos with h | h
      · exact Or.inl h
      · rw [hev] at h
        cases h

/-- The events thread ends, or has nothing to insert. -/
theorem tracked_ended (s : Server) (n : ℕ) (hs : Tracked s) (hev : s.ev = .eventWait)
    (hn : s.created ≤ n) : Tracked { s with created := n, ev := .ended } := by
  refine ⟨⟨hs.tagged.1, hs.tagged.2, hs.tagged.3⟩, hs.once, ?_, ?_, hs.handled, hs.answered⟩
  · intro r hr
    exact (hs.old r hr).trans_le hn
  · intro r hr
    rcases hs.filed r hr with h | h
    · exact Or.inl h
    · rw [hev] at h
      cases h

theorem tracked_event (s t : Server) (e : IpcEvent) (sent : Bool) (hs : Tracked s)
    (hev : s.ev = .eventWait) (h : evThreadStep s sent e = some t) : Tracked t := by
  cases e with
  | flowAllocationRequested name portId =>
    simp only [evThreadStep, Option.map_eq_some_iff] at h
    obtain ⟨msg, hmsg, rfl⟩ := h
    cases sent with
    | true => exact tracked_request s _ msg hs hev rfl (evThreadFn_portId name portId msg hmsg)
    | false => exact tracked_ended s _ hs hev (Nat.le_succ _)
  | flowDeallocated portId =>
    simp only [evThreadStep, Option.some.injEq] at h
    subst h
    cases sent with
    | true => exact tracked_fewer s _ hs (fewer_note s _ hs rfl).1
    | false => exact tracked_ended s _ hs hev le_rfl
  | other =>
    cases h
    exact hs

/-- The request is filed under a port that had no entry. -/
theorem tracked_insert (s : Server) (r : FlowRequestEvent) (hs : Tracked s)
    (hev : s.ev = .insert r) (hfree : findEvents s r.portId = none) :
    Tracked { insertEvents s r with ev := .eventWait } := by
  have hmem : r.portId ∉ s.eventsMap := AList.lookup_eq_none.mp hfree
  have hins : insertEvents s r = { s with eventsMap := s.eventsMap.insert r.portId r } := by
    rw [insertEvents, if_neg hmem]
  -- what was filed before is under another port
  have hkeep (q : FlowRequestEvent) (hq : findEvents s q.portId = some q) :
      (s.eventsMap.insert r.portId r).lookup q.portId = some q := by
    have hne : q.portId ≠ r.portId := by
      intro heq
      rw [heq, hfree] at hq
      cases hq
    rw [AList.lookup_insert_ne hne]
    exact hq
  rw [hins]
  refine ⟨⟨hs.tagged.1, hs.tagged.2, hs.tagged.3⟩, hs.once, hs.old, ?_, ?_, hs.answered⟩
  · intro q hq
    left
    rcases hs.filed q hq with h | h
    · exact hkeep q h
    · rw [hev] at h
      cases h
      exact AList.lookup_insert _
  · intro data q hq
    obtain ⟨hp, hfind⟩ := hs.handled data q hq
    exact ⟨hp, hkeep q hfind⟩

/-- The answer finds its own request. -/
theorem tracked_recv (s : Server) (m : Mail) (ms : List Mail) (hs : Tracked s)
    (hrun : s.run = .recvmsg) (hm : s.answers = m :: ms) (ho : timely s .recv = true) :
    Tracked (runRecv s m ms) := by
  obtain ⟨h1, h2, h3⟩ := hs.tagged
  rw [hm, List.forall_mem_cons] at h3
  unfold runRecv
  split
  · next ha =>
    obtain ⟨r, hr, hport⟩ := h3.1 ha
    have habout (q : FlowRequestEvent) : (if Mail.about q m then 1 else 0) =
        if r = q then 1 else 0 := by
      simp only [Mail.about, hr, beq_iff_eq, Option.some.injEq]
    have hpos : 0 < s.underWay r := by
      simp only [Server.underWay, hm, List.countP_cons, habout, if_true]
      omega
    have hfind : findEvents s m.msg.portId = some r := by
      rcases hs.filed r hpos with h | h
      · rw [hport]
        exact h
      · -- `ev_thread_fn` would still have to file it
        simp only [timely, hm, h, ha, hport, Bool.not_true, Bool.false_or, bne_self_eq_false] at ho
        cases ho
    simp only [hfind, hr, Option.map_some, Option.toList_some]
    refine tracked_le s _ hs rfl ⟨h1, h2, h3.2⟩ ?_ ?_ ?_
    · intro q
      simp only [Server.underWay, hm, hrun, List.countP_cons, habout, RunPc.handles]
      omega
    · intro data q hq
      rcases hq with hq | hq
      · cases hq
        exact ⟨hport, hport ▸ hfind⟩
      · cases hq
    · intro x hx
      rw [List.mem_append, List.mem_singleton] at hx
      rcases hx with hx | rfl
      · obtain ⟨h, hresp | hnext⟩ := hs.answered x hx
        · exact ⟨h, Or.inl hresp⟩
        · rw [hrun] at hnext
          cases hnext
      · exact ⟨rfl, Or.inr rfl⟩
  · refine tracked_fewer s _ hs ⟨rfl, ⟨h1, h2, h3.2⟩, ?_⟩
    intro q
    simp only [Server.underWay, hm, List.countP_cons]
    omega

theorem answered_respond (s : Server) (data : NlMsg) (r : FlowRequestEvent) (hs : Answered s)
    (hrun : s.run = .respond data r) (x : FlowRequestEvent × Option FlowRequestEvent)
    (hx : x ∈ s.lookups) : x.2 = some x.1 ∧ x.1 ∈ s.responses ++ [r] := by
  obtain ⟨h, hresp | hnext⟩ := hs x hx
  · exact ⟨h, List.mem_append_left _ hresp⟩
  · rw [hrun] at hnext
    have hr : r = x.1 := Option.some.inj hnext
    exact ⟨h, List.mem_append_right _ (List.mem_singleton.mpr hr.symm)⟩

theorem tracked_respond (s : Server) (data : NlMsg) (r : FlowRequestEvent) (hs : Tracked s)
    (hrun : s.run = .respond data r) :
    Tracked { s with responses := s.responses ++ [r], run := .erase data r } ∧
      Tracked { s with responses := s.responses ++ [r], run := .ended } := by
  have hans := answered_respond s data r hs.answered hrun
  constructor
  · refine tracked_le s _ hs rfl ⟨hs.tagged.1, hs.tagged.2, hs.tagged.3⟩ ?_ ?_ ?_
    · intro q
      simp only [Server.underWay, hrun, RunPc.handles]
      exact le_rfl
    · intro d q hq
      rcases hq with hq | hq
      · cases hq
      · cases hq
        exact hs.handled data r (Or.inl hrun)
    · intro x hx
      exact ⟨(hans x hx).1, Or.inl (hans x hx).2⟩
  · refine tracked_le s _ hs rfl ⟨hs.tagged.1, hs.tagged.2, hs.tagged.3⟩ ?_ ?_ ?_
    · intro q
      simp only [Server.underWay, RunPc.handles]
      omega
    · intro d q hq
      rcases hq with hq | hq <;> cases hq
    · intro x hx
      exact ⟨(hans x hx).1, Or.inl (hans x hx).2⟩

/-- The entry of a request that has been responded to goes; no other answer needs it. -/
theorem tracked_erase (s : Server) (data : NlMsg) (r : FlowRequestEvent) (hs : Tracked s)
    (hrun : s.run = .erase data r) :
    Tracked { eraseEvents s data.portId with run := .recvmsg } := by
  obtain ⟨hport, hfind⟩ := hs.handled data r (Or.inr hrun)
  have hera : eraseEvents s data.portId = { s with eventsMap := s.eventsMap.erase r.portId } := by
    rw [eraseEvents, hport, hfind]
    rfl
  have hcount (q : FlowRequestEvent) : Server.underWay
      { s with eventsMap := s.eventsMap.erase r.portId, run := .recvmsg } q +
      (if r = q then 1 else 0) = s.underWay q := by
    simp only [Server.underWay, hrun, RunPc.handles]
    omega
  have hle (q : FlowRequestEvent) : Server.underWay
      { s with eventsMap := s.eventsMap.erase r.portId, run := .recvmsg } q ≤ s.underWay q := by
    rw [← hcount q]
    exact Nat.le_add_right _ _
  rw [hera]
  refine ⟨⟨hs.tagged.1, hs.tagged.2, hs.tagged.3⟩, ?_, ?_, ?_, ?_, ?_⟩
  · intro q
    exact (hle q).trans (hs.once q)
  · intro q hq
    exact hs.old q (hq.trans_le (hle q))
  · intro q hq
    have hne : q ≠ r := by
      rintro rfl
      have h1 := hcount q
      have h2 := hs.once q
      rw [if_pos rfl] at h1
      dsimp only at hq
      omega
    rcases hs.filed q (hq.trans_le (hle q)) with h | h
    · left
      have hp : q.portId ≠ r.portId := by
        intro heq
        rw [heq, hfind] at h
        exact hne (Option.some.inj h).symm
      exact (AList.lookup_erase_ne hp).trans h
    · exact Or.inr h
  · intro d q hq
    rcases hq with hq | hq <;> cases hq
  · intro x hx
    obtain ⟨h, hresp | hnext⟩ := hs.answered x hx
    · exact ⟨h, Or.inl hresp⟩
    · rw [hrun] at hnext
      cases hnext

theorem tracked_step (s : Server) (a : Act) (t : Server) (hs : Tracked s) (ho : timely s a = true)
    (h : serverStep s a = some t) : Tracked t := by
  cases a with
  | event e sent =>
    simp only [serverStep] at h
    split at h
    · next hev => exact tracked_event s t e sent hs hev h
    · cases h
  | insert =>
    simp only [serverStep] at h
    split at h
    · next r hev =>
      cases h
      simp only [timely, hev, Option.isNone_iff_eq_none] at ho
      exact tracked_insert s r hs hev ho
    · cases h
  | callback ok =>
    simp only [serverStep] at h
    split at h
    · next m ms hm =>
      cases h
      exact tracked_fewer s _ hs (fewer_callback s ok m ms hs hm)
    · cases h
  | connect k ok =>
    simp only [serverStep, Option.map_eq_some_iff] at h
    obtain ⟨m, hm, rfl⟩ := h
    exact tracked_fewer s _ hs (fewer_connect s k ok m hs hm)
  | dealloc id portId =>
    cases h
    exact tracked_fewer s _ hs (fewer_note s _ hs rfl).2
  | recv =>
    simp only [serverStep] at h
    split at h
    · next m ms hrun hm =>
      cases h
      exact tracked_recv s m ms hs hrun hm ho
    · cases h
  | respond sent =>
    simp only [serverStep] at h
    split at h
    · next data r hrun =>
      cases h
      obtain ⟨h1, h2⟩ := tracked_respond s data r hs hrun
      cases sent with
      | true => exact tracked_fewer _ _ h1 (fewer_note _ _ h1 rfl).1
      | false => exact h2
    · cases h
  | erase =>
    simp only [serverStep] at h
    split at h
    · next data r hrun =>
      cases h
      exact tracked_erase s data r hs hrun
    · cases h

/- ### Every answered request gets its response -/

theorem serverRun_answered (acts : List Act) (s : Server)
    (ho : Lts.Along serverStep (fun s a => timely s a = true) start acts)
    (h : Lts.run serverStep start acts = some s) : Answered s :=
  (Lts.run_invariant_along Tracked _ tracked_step start s acts tracked_start ho h).answered

/-- A request for the flow with port `7`. -/
def request : IpcEvent :=
  .flowAllocationRequested (tupleName ⟨1, 2, 3, 4, 0, 7, true⟩) 7

/-- The request is filed while the kernel connects. -/
def filedFirst : List Act :=
  [.event request true, .insert, .callback true, .connect 0 true, .recv, .respond true, .erase]

def afterRequests (acts : List Act) : Server := (Lts.run serverStep start acts).getD start

theorem filedFirst_answered :
    (afterRequests filedFirst).responses.length = 1 ∧ Answered (afterRequests filedFirst) := by
  refine ⟨by decide +kernel, serverRun_answered filedFirst _ (by decide +kernel) ?_⟩
  exact Lts.run_getD _ _ _ (by decide +kernel)

/-- The kernel answers before the request is filed. -/
def answeredFirst : List Act :=
  [.event request true, .callback true, .connect 0 true, .recv, .insert]

/-- The connection of a request fails, and a later request has its port. -/
def portAgain : List Act :=
  [.event request true, .insert, .callback true, .connect 0 false, .event request true, .insert,
    .callback true, .connect 0 true, .recv, .respond true, .erase]

/- In the first run the request stays in `events_map` and no message is left that could lead to a
response; in the second one the response goes to the first request. -/
theorem answeredFirst_unanswered :
    (∃ s, Lts.run serverStep start answeredFirst = some s ∧ s.lookups.map Prod.snd = [none] ∧
      s.responses = [] ∧ s.toKernel = [] ∧ s.connecting = [] ∧ s.answers = [] ∧ ¬Answered s) ∧
    ∃ s, Lts.run serverStep start portAgain = some s ∧
      s.lookups.map (fun x => (x.1.address, x.2.map FlowRequestEvent.address)) = [(1, some 0)] ∧
      ¬Answered s := by
  constructor
  · exact ⟨afterRequests answeredFirst, Lts.run_getD _ _ _ (by decide +kernel), by decide +kernel⟩
  · exact ⟨afterRequests portAgain, Lts.run_getD _ _ _ (by decide +kernel), by decide +kernel⟩

end PepDna.Rina.Requests
