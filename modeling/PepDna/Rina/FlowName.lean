import PepDna.Lts
import PepDna.Rina.Tuple
import PepDna.Threads

/-!
# The name of a flow request (flow-allocator-client.cc)

Each netlink message is handled by a thread of its own, `FlowAllocatorClient::thread_fn`. With
`alloc = 1` it writes the 4-tuple into the member `client_api` and then reads that member for the
flow request. All threads share the object, and no lock is taken.
-/

namespace PepDna.Rina.FlowName

/-- The members that no thread writes. -/
structure Members where
  difName : List Char
  clientApn : List Char
  serverApn : List Char
  serverApi : List Char
  deriving Repr, DecidableEq

/-- The arguments of `requestFlowAllocationInDIF`, or of `requestFlowAllocation` without a DIF. -/
structure FlowRequest where
  clientApn : List Char
  clientApi : List Char
  serverApn : List Char
  serverApi : List Char
  difName : Option (List Char)
  deriving Repr, DecidableEq

inductive Pc where
  | start
  -- `client_api = tuple.str()` has been executed
  | named
  | requested (r : FlowRequest)
  -- in `destroyFlow`
  | dealloc
  deriving Repr, DecidableEq

def Pc.request : Pc → Option FlowRequest
  | .requested r => some r
  | _ => none

structure Handler where
  msg : NlMsg
  pc : Pc
  deriving Repr, DecidableEq

/-- The request of `createFlow` when `client_api` is read as `api`. -/
def flowRequest (m : Members) (api : List Char) : FlowRequest where
  clientApn := m.clientApn
  clientApi := api
  serverApn := m.serverApn
  serverApi := m.serverApi
  difName := if m.difName ≠ [] then some m.difName else none

/-- `thread_fn` up to the flow request; the shared state is `client_api`. -/
def threadFn (m : Members) (api : List Char) (t : Handler) : Option (List Char × Handler) :=
  match t.pc with
  | .start =>
    if t.msg.alloc then some (tupleName t.msg, { t with pc := .named })
    else some (api, { t with pc := .dealloc })
  | .named => some (api, { t with pc := .requested (flowRequest m api) })
  | .requested _ => none
  | .dealloc => none

inductive Act where
  | recv (msg : NlMsg)
  | thread (i : ℕ)

/-- `FlowAllocatorClient::run` and the threads it starts. -/
def step (m : Members) (p : Pool (List Char) Handler) : Act → Option (Pool (List Char) Handler)
  | .recv msg => some (p.spawn ⟨msg, .start⟩)
  | .thread i => p.move (threadFn m) i

/-- Every flow request carries the 4-tuple of the message it was made for. -/
def NamesOwn (p : Pool (List Char) Handler) : Prop :=
  ∀ t ∈ p.threads, ∀ r ∈ t.pc.request, r.clientApi = tupleName t.msg

instance (p : Pool (List Char) Handler) : Decidable (NamesOwn p) :=
  inferInstanceAs (Decidable (∀ t ∈ p.threads, _))

def SameTuple (m m' : NlMsg) : Prop :=
  m.saddr = m'.saddr ∧ m.source = m'.source ∧ m.daddr = m'.daddr ∧ m.dest = m'.dest

instance (m m' : NlMsg) : Decidable (SameTuple m m') := inferInstanceAs (Decidable (_ ∧ _))

/-- Nobody assigns `client_api` while another thread, with another 4-tuple, is between its
assignment and its read. -/
def Undisturbed (p : Pool (List Char) Handler) : Act → Prop
  | .recv _ => True
  | .thread i => ∀ t ∈ p.threads[i]?, t.pc = .start → t.msg.alloc = true →
      ∀ j < p.threads.length, j ≠ i → ∀ u ∈ p.threads[j]?, u.pc = .named → SameTuple u.msg t.msg

instance (p : Pool (List Char) Handler) : (a : Act) → Decidable (Undisturbed p a)
  | .recv _ => inferInstanceAs (Decidable True)
  | .thread i => inferInstanceAs (Decidable (∀ t ∈ p.threads[i]?, _))

theorem tupleName_of_sameTuple (m m' : NlMsg) (h : SameTuple m m') :
    tupleName m = tupleName m' := by
  obtain ⟨h1, h2, h3, h4⟩ := h
  rw [tupleName, tupleName, h1, h2, h3, h4]

/-- What a thread knows of `client_api`, and what its request holds. -/
def Knows (api : List Char) (t : Handler) : Prop :=
  match t.pc with
  | .named => api = tupleName t.msg
  | .requested r => r.clientApi = tupleName t.msg
  | _ => True

def outline : Pool.Outline (List Char) Handler Empty where
  common _ := True
  each := Knows
  pair _ _ := True
  due _ _ := False
  pays _ _ := False
  pair_symm _ _ _ := trivial

/-- An assignment of its own name does not disturb a thread. -/
theorem knows_assign (api name : List Char) (u : Handler) (hu : Knows api u)
    (hname : u.pc = .named → name = tupleName u.msg) : Knows name u := by
  unfold Knows at hu ⊢
  cases hpc : u.pc with
  | named => exact hname hpc
  | requested r => simpa only [hpc] using hu
  | start | dealloc => trivial

theorem threadFn_keeps (m : Members) (p : Pool (List Char) Handler) (i : ℕ) (t : Handler)
    (api' : List Char) (t' : Handler) (hp : outline.Holds p) (hok : Undisturbed p (.thread i))
    (ht : p.threads[i]? = some t) (h : threadFn m p.shared t = some (api', t')) :
    outline.Keeps (p.Other i) p.shared t api' t' := by
  have hown : Knows p.shared t := hp.each i t ht
  -- only the two facts about `client_api` are left
  suffices hkeep : Knows api' t' ∧ ∀ u, p.Other i u → Knows p.shared u → Knows api' u from
    ⟨trivial, hkeep.1, fun u ho hu _ => hkeep.2 u ho hu, fun _ _ _ _ => trivial, fun _ hd => hd.elim⟩
  cases hpc : t.pc with
  | start =>
    simp only [threadFn, hpc] at h
    split at h
    · next halloc =>
      cases h
      refine ⟨rfl, fun u ⟨j, hj, hu⟩ hknows => knows_assign _ _ u hknows fun hn => ?_⟩
      have hlen : j < p.threads.length := (List.getElem?_eq_some_iff.mp hu).1
      exact (tupleName_of_sameTuple _ _ (hok t ht hpc halloc j hlen hj u hu hn)).symm
    · cases h
      exact ⟨trivial, fun u _ hu => hu⟩
  | named =>
    simp only [threadFn, hpc] at h
    cases h
    simp only [Knows, hpc] at hown
    exact ⟨hown, fun u _ hu => hu⟩
  | requested r => simp only [threadFn, hpc, reduceCtorEq] at h
  | dealloc => simp only [threadFn, hpc, reduceCtorEq] at h

theorem outline_step (m : Members) (p : Pool (List Char) Handler) (a : Act)
    (q : Pool (List Char) Handler) (hp : outline.Holds p) (hok : Undisturbed p a)
    (h : step m p a = some q) : outline.Holds q := by
  cases a with
  | recv msg =>
    cases h
    exact outline.holds_spawn p p.shared ⟨msg, .start⟩ hp trivial trivial (fun _ hu => hu)
      (fun _ _ _ => trivial) fun _ hd => hd.elim
  | thread i =>
    exact outline.holds_move (threadFn m) p q i hp h fun t s' t' ht hf =>
      threadFn_keeps m p i t s' t' hp hok ht hf

/-- If nobody assigns `client_api` between another thread's assignment and its read, every flow
request names its own connection. -/
theorem flowRun_names_own (m : Members) (api : List Char) (acts : List Act)
    (p : Pool (List Char) Handler) (hok : Lts.Along (step m) Undisturbed ⟨api, []⟩ acts)
    (h : Lts.run (step m) ⟨api, []⟩ acts = some p) : NamesOwn p := by
  have hstart : outline.Holds ⟨api, []⟩ :=
    ⟨trivial, by simp, by simp, fun _ hd => hd.elim⟩
  have hp := Lts.run_invariant_along outline.Holds Undisturbed (outline_step m) _ p acts hstart hok h
  intro t hmem r hr
  obtain ⟨i, hi⟩ := List.getElem?_of_mem hmem
  have hknows : Knows p.shared t := hp.each i t hi
  unfold Knows at hknows
  cases hpc : t.pc with
  | requested r' =>
    simp only [hpc] at hknows hr
    cases hr
    exact hknows
  | start | named | dealloc =>
    rw [hpc] at hr
    cases hr

def sampleMembers : Members :=
  ⟨"n.DIF".toList, "client".toList, "server".toList, "1".toList⟩

def firstMsg : NlMsg := ⟨0x0A000001, 5001, 0x0A000002, 80, 11, 0, true⟩
def secondMsg : NlMsg := ⟨0x0A000003, 5002, 0x0A000004, 443, 12, 0, true⟩

def flowsAfter (acts : List Act) : Pool (List Char) Handler :=
  (Lts.run (step sampleMembers) ⟨[], []⟩ acts).getD ⟨[], []⟩

def oneByOne : List Act :=
  [.recv firstMsg, .recv secondMsg, .thread 0, .thread 0, .thread 1, .thread 1]

theorem oneByOne_names_own :
    NamesOwn (flowsAfter oneByOne) ∧
      (flowsAfter oneByOne).threads.map (fun t => t.pc) =
        [.requested (flowRequest sampleMembers (tupleName firstMsg)),
          .requested (flowRequest sampleMembers (tupleName secondMsg))] :=
  ⟨flowRun_names_own sampleMembers [] oneByOne _ (by decide +kernel) (by decide +kernel),
    by decide +kernel⟩

/- The second thread assigns before the first one reads. -/
def overwritten : List Act :=
  [.recv firstMsg, .recv secondMsg, .thread 0, .thread 1, .thread 0]

/-- The far side opens the first client's connection to the second one's server. -/
theorem overwritten_misnamed :
    Lts.run (step sampleMembers) ⟨[], []⟩ overwritten = some (flowsAfter overwritten) ∧
      ¬ NamesOwn (flowsAfter overwritten) ∧
      ((flowsAfter overwritten).threads[0]?.map fun t => t.msg) = some firstMsg ∧
      ((flowsAfter overwritten).threads[0]?.map fun t => t.pc) =
        some (.requested (flowRequest sampleMembers (tupleName secondMsg))) ∧
      (evThreadFn (tupleName secondMsg) 9).map NlMsg.syn = some secondMsg.syn := by
  decide +kernel

end PepDna.Rina.FlowName
