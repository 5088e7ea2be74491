import Mathlib.Data.List.AList
import PepDna.Lts
import PepDna.Threads

/-!
# Who gets which allocation result (flow-allocator-client.cc)

`createFlow` waits for the result of its own flow request, but `eventWait` hands out results to
whoever waits. A thread that gets the result of another puts it into `event_map`, wakes everybody
up and looks for its own. The look (`findEvent`) is made without `event_lock`; the lock is taken
afterwards, for `cv.wait`. Every line that touches shared state is a step; `running` stays true
and all events are results of flow requests.
-/

namespace PepDna.Rina.Events

/-- An `AllocateFlowRequestResultEvent`. -/
structure Event where
  sequenceNumber : ℕ
  portId : Int
  deriving Repr, DecidableEq

inductive Pc where
  | eventWait
  -- about to enter `insertEvent` with the event of another thread
  | insert (e : Event)
  -- in `insertEvent`, before `cv.notify_all`
  | notify
  -- at the end of `insertEvent`
  | inserted
  -- before `findEvent`
  | test
  -- `findEvent` has failed; before `lck(event_lock)`
  | takeLock
  -- before `cv.wait(lck)`
  | wait
  | asleep
  -- `cv.wait` has returned, with the lock
  | awake
  -- before `eraseEvent`, with the event that `findEvent` has returned
  | erase (e : Event)
  | left (e : Event)
  deriving Repr, DecidableEq

/-- One call of `createFlow`, after its flow request. -/
structure Call where
  seqnum : ℕ
  pc : Pc
  deriving Repr, DecidableEq

/-- `results`: the events not handed out yet; `waiting`: the calls whose `cv.wait` has not been
notified. -/
structure Shared where
  results : List Event
  eventMap : AList fun _ : ℕ => Event
  locked : Bool
  waiting : List ℕ

def findEvent (s : Shared) (seqnum : ℕ) : Option Event := s.eventMap.lookup seqnum

/-- `event_map.insert`, which leaves an entry that is there. -/
def insertEvent (s : Shared) (e : Event) : Shared :=
  { s with
    locked := true
    eventMap := if e.sequenceNumber ∈ s.eventMap then s.eventMap
      else s.eventMap.insert e.sequenceNumber e }

inductive Input where
  | go
  -- `eventWait` hands out event `k` of those left
  | event (k : ℕ)
  -- `cv.wait` may return without a notification
  | spurious
  deriving Repr, DecidableEq

/-- The loop of `createFlow`. A step that needs `event_lock` waits until it is free. -/
def createFlow (x : Input) (s : Shared) (t : Call) : Option (Shared × Call) :=
  match t.pc, x with
  | .eventWait, .event k => (s.results[k]?).map fun e =>
      ({ s with results := s.results.eraseIdx k },
        { t with pc := if e.sequenceNumber = t.seqnum then .left e else .insert e })
  | .insert e, .go => if s.locked then none else some (insertEvent s e, { t with pc := .notify })
  | .notify, .go => some ({ s with waiting := [] }, { t with pc := .inserted })
  | .inserted, .go => some ({ s with locked := false }, { t with pc := .test })
  | .test, .go => some (s, { t with pc := match findEvent s t.seqnum with
      | some e => .erase e
      | none => .takeLock })
  | .takeLock, .go =>
    if s.locked then none else some ({ s with locked := true }, { t with pc := .wait })
  | .wait, .go =>
    some ({ s with locked := false, waiting := t.seqnum :: s.waiting }, { t with pc := .asleep })
  | .asleep, .go =>
    if s.locked ∨ t.seqnum ∈ s.waiting then none
    else some ({ s with locked := true }, { t with pc := .awake })
  | .asleep, .spurious => some ({ s with waiting := s.waiting.filter (· ≠ t.seqnum) }, t)
  | .awake, .go => some ({ s with locked := false }, { t with pc := .test })
  | .erase e, .go =>
    if s.locked then none
    else some ({ s with eventMap := s.eventMap.erase t.seqnum }, { t with pc := .left e })
  | _, _ => none

structure Act where
  thread : ℕ
  input : Input

def step (p : Pool Shared Call) (a : Act) : Option (Pool Shared Call) :=
  p.move (createFlow a.input) a.thread

/-- The calls with their sequence numbers, and the results of their requests. -/
def start (seqnums : List ℕ) (results : List Event) : Pool Shared Call :=
  ⟨⟨results, ∅, false, []⟩, seqnums.map fun n => ⟨n, .eventWait⟩⟩

/-- In `cv.wait`, and not notified. -/
def Sleeps (s : Shared) (t : Call) : Prop := t.pc = .asleep ∧ t.seqnum ∈ s.waiting

instance (s : Shared) (t : Call) : Decidable (Sleeps s t) := inferInstanceAs (Decidable (_ ∧ _))

/-- A thread that sleeps although its event is in the map is about to be notified. -/
def Notified (p : Pool Shared Call) : Prop :=
  ∀ t ∈ p.threads, Sleeps p.shared t → findEvent p.shared t.seqnum ≠ none →
    ∃ u ∈ p.threads, u.pc = .notify

instance (p : Pool Shared Call) : Decidable (Notified p) :=
  inferInstanceAs (Decidable (∀ t ∈ p.threads, _))

/-- A thread leaves the loop only with its own event. -/
def LeavesOwn (p : Pool Shared Call) : Prop :=
  ∀ t ∈ p.threads, ∀ e, t.pc = .left e → e.sequenceNumber = t.seqnum

/-- The event that a thread is about to insert. -/
def Pc.inserting : Pc → Option Event
  | .insert e => some e
  | _ => none

/-- No event is inserted while the thread it is for is between its failed `findEvent` and its
`cv.wait`. -/
def InTime (p : Pool Shared Call) (a : Act) : Prop :=
  ∀ t ∈ p.threads[a.thread]?, ∀ e ∈ t.pc.inserting, ∀ u ∈ p.threads,
    u.pc = .takeLock ∨ u.pc = .wait → u.seqnum ≠ e.sequenceNumber

instance (p : Pool Shared Call) (a : Act) : Decidable (InTime p a) :=
  inferInstanceAs (Decidable (∀ t ∈ p.threads[a.thread]?, _))

/-! ### The steps -/

/-- Every step of `createFlow`. -/
inductive CallStep (s : Shared) (t : Call) : Shared → Call → Prop where
  | own (e : Event) (rs : List Event) (hpc : t.pc = .eventWait)
      (he : e.sequenceNumber = t.seqnum) :
      CallStep s t { s with results := rs } { t with pc := .left e }
  | other (e : Event) (rs : List Event) (hpc : t.pc = .eventWait) :
      CallStep s t { s with results := rs } { t with pc := .insert e }
  | insert (e : Event) (hpc : t.pc = .insert e) (hl : s.locked = false) :
      CallStep s t (insertEvent s e) { t with pc := .notify }
  | notify (hpc : t.pc = .notify) :
      CallStep s t { s with waiting := [] } { t with pc := .inserted }
  -- the ends of the two scopes
  | unlock (hpc : t.pc = .inserted ∨ t.pc = .awake) :
      CallStep s t { s with locked := false } { t with pc := .test }
  | found (e : Event) (hpc : t.pc = .test) (hf : findEvent s t.seqnum = some e) :
      CallStep s t s { t with pc := .erase e }
  | missed (hpc : t.pc = .test) (hf : findEvent s t.seqnum = none) :
      CallStep s t s { t with pc := .takeLock }
  -- `lck(event_lock)`, and the lock that `cv.wait` takes again
  | lock (pc : Pc) (hpc : t.pc = .takeLock ∧ pc = .wait ∨ t.pc = .asleep ∧ pc = .awake)
      (hl : s.locked = false) : CallStep s t { s with locked := true } { t with pc := pc }
  | sleep (hpc : t.pc = .wait) :
      CallStep s t { s with locked := false, waiting := t.seqnum :: s.waiting }
        { t with pc := .asleep }
  | wake (hpc : t.pc = .asleep) :
      CallStep s t { s with waiting := s.waiting.filter (· ≠ t.seqnum) } t
  | erase (e : Event) (hpc : t.pc = .erase e) (hl : s.locked = false) :
      CallStep s t { s with eventMap := s.eventMap.erase t.seqnum } { t with pc := .left e }

theorem createFlow_step (x : Input) (s : Shared) (t : Call) (s' : Shared) (t' : Call)
    (h : createFlow x s t = some (s', t')) : CallStep s t s' t' := by
  unfold createFlow at h
  split at h
  · next k hpc =>
    obtain ⟨e, -, he⟩ := Option.map_eq_some_iff.mp h
    cases he
    split
    · next hseq => exact .own e _ hpc hseq
    · exact .other e _ hpc
  · next e hpc =>
    split at h
    · cases h
    · next hl =>
      cases h
      exact .insert e hpc (Bool.not_eq_true _ ▸ hl)
  · next hpc =>
    cases h
    exact .notify hpc
  · next hpc =>
    cases h
    exact .unlock (Or.inl hpc)
  · next hpc =>
    cases h
    split
    · next e hf => exact .found e hpc hf
    · next hf => exact .missed hpc hf
  · next hpc =>
    split at h
    · cases h
    · next hl =>
      cases h
      exact .lock .wait (Or.inl ⟨hpc, rfl⟩) (Bool.not_eq_true _ ▸ hl)
  · next hpc =>
    cases h
    exact .sleep hpc
  · next hpc =>
    split at h
    · cases h
    · next hl =>
      cases h
      exact .lock .awake (Or.inr ⟨hpc, rfl⟩) (Bool.not_eq_true _ ▸ fun hb => hl (Or.inl hb))
  · next hpc =>
    cases h
    exact .wake hpc
  · next hpc =>
    cases h
    exact .unlock (Or.inr hpc)
  · next e hpc =>
    split at h
    · cases h
    · next hl =>
      cases h
      exact .erase e hpc (Bool.not_eq_true _ ▸ hl)
  · cases h

/-! ### Whose event it is -/

/-- Every event is in the map under its own sequence number. -/
def Keyed (s : Shared) : Prop := ∀ k e, findEvent s k = some e → e.sequenceNumber = k

/-- The event that a thread has found, or leaves with, is its own. -/
def Own (t : Call) : Prop := ∀ e, t.pc = .erase e ∨ t.pc = .left e → e.sequenceNumber = t.seqnum

theorem findEvent_insertEvent (s : Shared) (e : Event) (k : ℕ) :
    findEvent (insertEvent s e) k =
      if k = e.sequenceNumber ∧ findEvent s k = none then some e else findEvent s k := by
  unfold findEvent insertEvent
  by_cases hmem : e.sequenceNumber ∈ s.eventMap
  · have hsome : ¬ (k = e.sequenceNumber ∧ s.eventMap.lookup k = none) := by
      rintro ⟨rfl, hnone⟩
      exact AList.lookup_eq_none.mp hnone hmem
    simp only [if_pos hmem, if_neg hsome]
  · by_cases hk : k = e.sequenceNumber
    · subst hk
      simp only [if_neg hmem, AList.lookup_insert, AList.lookup_eq_none.mpr hmem, and_self, if_true]
    · simp only [if_neg hmem, AList.lookup_insert_ne hk, hk, false_and, if_false]

theorem findEvent_erase (s : Shared) (n k : ℕ) (e : Event)
    (h : findEvent { s with eventMap := s.eventMap.erase n } k = some e) :
    findEvent s k = some e := by
  by_cases hk : k = n
  · subst hk
    rw [findEvent, AList.lookup_erase] at h
    cases h
  · rwa [findEvent, AList.lookup_erase_ne hk] at h

theorem callStep_own (s : Shared) (t : Call) (s' : Shared) (t' : Call) (hs : Keyed s) (ht : Own t)
    (h : CallStep s t s' t') : Keyed s' ∧ Own t' := by
  cases h with
  | own e rs hpc he => exact ⟨hs, by simpa [Own] using he⟩
  | insert e hpc hl =>
    refine ⟨fun k f hf => ?_, by simp [Own]⟩
    rw [findEvent_insertEvent] at hf
    split at hf
    · next hk =>
      cases hf
      exact hk.1.symm
    · exact hs k f hf
  | found e hpc hf => exact ⟨hs, by simpa [Own] using hs _ e hf⟩
  | wake hpc => exact ⟨hs, ht⟩
  | erase e hpc hl =>
    exact ⟨fun k f hf => hs k f (findEvent_erase s _ k f hf), by simpa [Own] using ht e (Or.inl hpc)⟩
  | lock pc hpc hl => exact ⟨hs, by rcases hpc with ⟨-, rfl⟩ | ⟨-, rfl⟩ <;> simp [Own]⟩
  | other | notify | unlock | missed | sleep => exact ⟨hs, by simp [Own]⟩

/-- Of all runs: what is needed for the right event at the end. -/
def ownership : Pool.Outline Shared Call Empty where
  common := Keyed
  each _ := Own
  pair _ _ := True
  due _ _ := False
  pays _ _ := False
  pair_symm _ _ _ := trivial

theorem ownership_step (p : Pool Shared Call) (a : Act) (q : Pool Shared Call)
    (hp : ownership.Holds p) (h : step p a = some q) : ownership.Holds q := by
  refine ownership.holds_move (createFlow a.input) p q a.thread hp h fun t s' t' ht hf => ?_
  have hown := callStep_own p.shared t s' t' hp.common (hp.each a.thread t ht)
    (createFlow_step a.input p.shared t s' t' hf)
  exact ⟨hown.1, hown.2, fun _ _ hu _ => hu, fun _ _ _ _ => trivial, fun _ hd => hd.elim⟩

/-! ### Who is awake -/

/-- The thread has `event_lock`. -/
def Pc.holds : Pc → Bool
  | .notify | .inserted | .wait | .awake => true
  | _ => false

structure Ok (s : Shared) (t : Call) : Prop where
  locked : t.pc.holds = true → s.locked = true
  missed : t.pc = .takeLock ∨ t.pc = .wait → findEvent s t.seqnum = none

def outline : Pool.Outline Shared Call ℕ where
  common _ := True
  each := Ok
  pair t u := ¬ (t.pc.holds = true ∧ u.pc.holds = true)
  due s n := n ∈ s.waiting ∧ findEvent s n ≠ none
  pays _ t := t.pc = .notify
  pair_symm _ _ h hu := h ⟨hu.2, hu.1⟩

theorem ok_frame (s s' : Shared) (u : Call) (hu : Ok s u)
    (hl : u.pc.holds = true → s.locked = true → s'.locked = true)
    (hf : u.pc = .takeLock ∨ u.pc = .wait → findEvent s u.seqnum = none →
      findEvent s' u.seqnum = none) : Ok s' u :=
  ⟨fun h => hl h (hu.locked h), fun h => hf h (hu.missed h)⟩

/-- A step that neither adds an event nor puts a thread to sleep creates no debt. -/
theorem paid_frame (s s' : Shared) (t t' : Call) (n : ℕ) (hw : n ∈ s'.waiting → n ∈ s.waiting)
    (hf : findEvent s' n ≠ none → findEvent s n ≠ none) (ht : t.pc ≠ .notify)
    (h : outline.due s' n) : outline.pays n t' ∨ (outline.due s n ∧ ¬ outline.pays n t) :=
  Or.inr ⟨⟨hw h.1, hf h.2⟩, ht⟩

theorem pair_of_not_holds (t u : Call) (h : t.pc.holds = false) : outline.pair t u := by
  rintro ⟨ht, -⟩
  rw [h] at ht
  cases ht

/-- With the lock free nobody holds it. -/
theorem pair_of_unlocked (s : Shared) (t u : Call) (hu : Ok s u) (hl : s.locked = false) :
    outline.pair t u := by
  rintro ⟨-, hu'⟩
  have := hu.locked hu'
  rw [hl] at this
  cases this

/-- A step outside the lock that touches neither the map nor the condition variable. -/
theorem keeps_outside (others : Call → Prop) (s : Shared) (t : Call) (rs : List Event) (t' : Call)
    (ht : t.pc ≠ .notify) (hh : t'.pc.holds = false)
    (hm : t'.pc = .takeLock ∨ t'.pc = .wait → findEvent s t'.seqnum = none) :
    outline.Keeps others s t { s with results := rs } t' where
  common := trivial
  each := ⟨fun h => (by rw [hh] at h; cases h), hm⟩
  free u _ hu _ := ⟨hu.locked, hu.missed⟩
  pair u _ _ _ := pair_of_not_holds t' u hh
  paid n := paid_frame _ _ _ _ n id id ht

theorem callStep_keeps (others : Call → Prop) (s : Shared) (t : Call) (s' : Shared) (t' : Call)
    (ht : Ok s t)
    (hin : ∀ e, t.pc = .insert e → ∀ u, others u → u.pc = .takeLock ∨ u.pc = .wait →
      u.seqnum ≠ e.sequenceNumber)
    (h : CallStep s t s' t') : outline.Keeps others s t s' t' := by
  cases h with
  | own e rs hpc he => exact keeps_outside others s t rs _ (by simp [hpc]) rfl (by simp)
  | other e rs hpc => exact keeps_outside others s t rs _ (by simp [hpc]) rfl (by simp)
  | insert e hpc hl =>
    refine ⟨trivial, ⟨fun _ => rfl, by simp⟩, ?_, fun u _ hu _ => pair_of_unlocked s _ u hu hl,
      fun n _ => Or.inl rfl⟩
    -- only a thread that has just missed its event could mind
    intro u ho hu _
    refine ok_frame s _ u hu (fun _ _ => rfl) fun hpcu hf => ?_
    rw [findEvent_insertEvent, if_neg fun hk => hin e hpc u ho hpcu hk.1]
    exact hf
  | notify hpc =>
    have hholds : t.pc.holds = true := by simp [hpc, Pc.holds]
    refine ⟨trivial, ⟨fun _ => ht.locked hholds, by simp⟩,
      fun u _ hu _ => ⟨hu.locked, hu.missed⟩, fun u _ _ hp hb => hp ⟨hholds, hb.2⟩, ?_⟩
    intro n hn
    exact absurd hn.1 List.not_mem_nil
  | unlock hpc =>
    have hholds : t.pc.holds = true := by rcases hpc with hpc | hpc <;> simp [hpc, Pc.holds]
    refine ⟨trivial, ⟨by simp [Pc.holds], by simp⟩, fun u _ hu hp => ?_,
      fun u _ _ _ => pair_of_not_holds _ u rfl,
      fun n => paid_frame _ _ _ _ n id id (by rcases hpc with hpc | hpc <;> simp [hpc])⟩
    exact ok_frame s _ u hu (fun hb => absurd ⟨hholds, hb⟩ hp) fun _ hf => hf
  | found e hpc hf =>
    exact keeps_outside others s t s.results _ (by simp [hpc]) rfl (by simp)
  | missed hpc hf =>
    exact keeps_outside others s t s.results _ (by simp [hpc]) rfl fun _ => hf
  | lock pc hpc hl =>
    refine ⟨trivial, ⟨fun _ => rfl, ?_⟩,
      fun u _ hu _ => ok_frame s _ u hu (fun _ _ => rfl) fun _ hf => hf,
      fun u _ hu _ => pair_of_unlocked s _ u hu hl,
      fun n => paid_frame _ _ _ _ n id id (by rcases hpc with hpc | hpc <;> simp [hpc.1])⟩
    rcases hpc with ⟨hpc, rfl⟩ | ⟨hpc, rfl⟩
    · exact fun _ => ht.missed (Or.inl hpc)
    · simp
  | sleep hpc =>
    have hholds : t.pc.holds = true := by simp [hpc, Pc.holds]
    have hnone : findEvent s t.seqnum = none := ht.missed (Or.inr hpc)
    refine ⟨trivial, ⟨by simp [Pc.holds], by simp⟩, fun u _ hu hp => ?_,
      fun u _ _ _ => pair_of_not_holds _ u rfl, ?_⟩
    · exact ok_frame s _ u hu (fun hb => absurd ⟨hholds, hb⟩ hp) fun _ hf => hf
    · -- its own event is not there, so no notification is due to it
      rintro n ⟨hw, hf⟩
      rcases List.mem_cons.mp hw with rfl | hw
      · exact absurd hnone hf
      · exact Or.inr ⟨⟨hw, hf⟩, by simp [outline, hpc]⟩
  | wake hpc =>
    exact ⟨trivial, ⟨ht.locked, ht.missed⟩, fun u _ hu _ => ⟨hu.locked, hu.missed⟩,
      fun u _ _ hp => hp,
      fun n => paid_frame s _ t t n List.mem_of_mem_filter id (by simp [hpc])⟩
  | erase e hpc hl =>
    have hgone (k : ℕ) (hf : findEvent s k = none) :
        findEvent { s with eventMap := s.eventMap.erase t.seqnum } k = none := by
      by_contra hne
      obtain ⟨f, hsome⟩ := Option.ne_none_iff_exists'.mp hne
      rw [findEvent_erase s _ k f hsome] at hf
      cases hf
    exact ⟨trivial, ⟨by simp [Pc.holds], by simp⟩,
      fun u _ hu _ => ok_frame s _ u hu (fun _ hb => hb) fun _ => hgone u.seqnum,
      fun u _ _ _ => pair_of_not_holds _ u rfl,
      fun n => paid_frame _ _ _ _ n id (mt (hgone n)) (by simp [hpc])⟩

theorem outline_step (p : Pool Shared Call) (a : Act) (q : Pool Shared Call)
    (hp : outline.Holds p) (hok : InTime p a) (h : step p a = some q) : outline.Holds q := by
  refine outline.holds_move (createFlow a.input) p q a.thread hp h fun t s' t' ht hf => ?_
  refine callStep_keeps _ p.shared t s' t' (hp.each a.thread t ht) ?_
    (createFlow_step a.input p.shared t s' t' hf)
  intro e hpc u ⟨j, _, hu⟩ hpcu
  exact hok t ht e (by simp [hpc, Pc.inserting]) u (List.mem_of_getElem? hu) hpcu

/-! ### Runs -/

theorem start_pc (seqnums : List ℕ) (results : List Event) (i : ℕ) (t : Call)
    (ht : (start seqnums results).threads[i]? = some t) : t.pc = .eventWait := by
  obtain ⟨n, -, rfl⟩ := List.mem_map.mp (List.mem_of_getElem? ht)
  rfl

theorem ownership_start (seqnums : List ℕ) (results : List Event) :
    ownership.Holds (start seqnums results) := by
  refine ⟨fun k e h => ?_, fun i t ht => ?_, fun _ _ _ _ _ _ _ => trivial, fun _ hd => hd.elim⟩
  · rw [findEvent, start, AList.lookup_empty] at h
    cases h
  · simp [ownership, Own, start_pc seqnums results i t ht]

theorem outline_start (seqnums : List ℕ) (results : List Event) :
    outline.Holds (start seqnums results) := by
  refine ⟨trivial, fun i t ht => ?_, fun i j t u _ ht _ => ?_, fun n hn => ?_⟩
  · have hpc := start_pc seqnums results i t ht
    exact ⟨by simp [hpc, Pc.holds], by simp [hpc]⟩
  · exact pair_of_not_holds t u (by simp [start_pc seqnums results i t ht, Pc.holds])
  · exact absurd hn.1 List.not_mem_nil

/-- In every run a thread leaves with its own event only. If no event is inserted while the thread
it is for is between its failed look and its sleep, no thread sleeps on with its event in the
map. -/
theorem eventRun_served (seqnums : List ℕ) (results : List Event) (acts : List Act)
    (p : Pool Shared Call) (h : Lts.run step (start seqnums results) acts = some p) :
    LeavesOwn p ∧ (Lts.Along step InTime (start seqnums results) acts → Notified p) := by
  constructor
  · have hp := Lts.run_invariant ownership.Holds ownership_step _ p acts
      (ownership_start seqnums results) h
    intro t hmem e hpc
    obtain ⟨i, hi⟩ := List.getElem?_of_mem hmem
    exact hp.each i t hi e (Or.inr hpc)
  · intro hok
    have hp := Lts.run_invariant_along outline.Holds InTime outline_step _ p acts
      (outline_start seqnums results) hok h
    intro t _ hsleep hf
    obtain ⟨i, u, hu, hpay⟩ := hp.paid t.seqnum ⟨hsleep.2, hf⟩
    exact ⟨u, List.mem_of_getElem? hu, hpay⟩

/- Two calls; each is handed the other's result. -/
def twoCalls : Pool Shared Call := start [1, 2] [⟨2, 12⟩, ⟨1, 11⟩]

def callsAfter (acts : List Act) : Pool Shared Call := (Lts.run step twoCalls acts).getD twoCalls

def swapped : List Act := [⟨0, .event 0⟩, ⟨1, .event 0⟩]

/- The first one sleeps before the second one inserts, and is woken up. -/
def inTime : List Act :=
  swapped ++ List.replicate 6 ⟨0, .go⟩ ++ List.replicate 5 ⟨1, .go⟩ ++ List.replicate 4 ⟨0, .go⟩

theorem inTime_served :
    (LeavesOwn (callsAfter inTime) ∧ Notified (callsAfter inTime)) ∧
      (callsAfter inTime).threads = [⟨1, .left ⟨1, 11⟩⟩, ⟨2, .left ⟨2, 12⟩⟩] :=
  have h := eventRun_served [1, 2] [⟨2, 12⟩, ⟨1, 11⟩] inTime (callsAfter inTime)
    (Lts.run_getD _ _ _ (by decide +kernel))
  ⟨⟨h.1, h.2 (by decide +kernel)⟩, by decide +kernel⟩

/- The second one inserts and notifies after the first one has looked and before it sleeps. -/
def tooLate : List Act :=
  swapped ++ List.replicate 4 ⟨0, .go⟩ ++ List.replicate 5 ⟨1, .go⟩ ++ List.replicate 2 ⟨0, .go⟩

/-- All events have been handed out, the second call has left, and the first one sleeps with its
event in the map. -/
theorem tooLate_sleeps :
    (Lts.run step twoCalls tooLate).isSome ∧ (callsAfter tooLate).shared.results = [] ∧
      (callsAfter tooLate).threads = [⟨1, .asleep⟩, ⟨2, .left ⟨2, 12⟩⟩] ∧
      (callsAfter tooLate).shared.waiting = [1] ∧
      findEvent (callsAfter tooLate).shared 1 = some ⟨1, 11⟩ ∧ ¬ Notified (callsAfter tooLate) := by
  decide +kernel

end PepDna.Rina.Events
