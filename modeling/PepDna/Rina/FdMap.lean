import Mathlib.Data.List.AList
import Mathlib.Data.List.Dedup
import PepDna.Lts
import PepDna.Threads

/-!
# Which flows the flow allocator knows (flow-allocator-client.cc)

`fd_map` takes a connection id to the port of its RINA flow. A thread that handles `alloc = 1`
creates the flow, inserts it and replies to the kernel; one that handles `alloc = 0` looks the
port up, deallocates the flow and erases the entry. `insertFd` does not replace an entry that is
there, and the three steps of `destroyFlow` are not one critical section.

A step on one connection id leaves what the shared state says of the others, so that the argument
is about one id at a time (`View`).
-/

namespace PepDna.Rina.FdMap

def MAX_CONNS : ℕ := 65535

/-- Where the kernel is with a connection id: it asks for a flow, and gives it back after the
reply. Without a reply it sends nothing more. -/
inductive Phase where
  | idle
  | asked
  | opened
  | unanswered
  deriving Repr, DecidableEq

inductive Pc where
  -- in `createFlow`
  | create
  -- before `insertFd`, with the port of the new flow
  | insert (portId : Int)
  -- before `netlink_send_data`
  | reply
  -- before `findFd`
  | find
  -- before `deallocate_flow`
  | deallocate (portId : Int)
  -- before `eraseFd`
  | erase
  | done
  deriving Repr, DecidableEq

structure Handler where
  conn : ℕ
  pc : Pc
  deriving Repr, DecidableEq

/-- `flows` are the flows that RINA has, with the connection they were made for. The last two
fields are no variables of the program: the port of the last flow made for a connection, and
whether the entry of a connection is for a flow that is gone. -/
structure Shared where
  fdMap : AList fun _ : ℕ => Int
  flows : List (ℕ × Int)
  phase : ℕ → Phase
  latest : ℕ → Option Int
  stale : ℕ → Bool

def insertFd (s : Shared) (c : ℕ) (portId : Int) : Shared :=
  if s.fdMap.keys.length > MAX_CONNS then s
  else { s with fdMap := if c ∈ s.fdMap then s.fdMap else s.fdMap.insert c portId }

def findFd (s : Shared) (c : ℕ) : Int := (s.fdMap.lookup c).getD (-1)

def eraseFd (s : Shared) (c : ℕ) : Shared :=
  if findFd s c > 0 then { s with fdMap := s.fdMap.erase c } else s

inductive Input where
  | go
  -- the port that `createFlow` returns
  | created (portId : Int)
  -- `createFlow` or `netlink_send_data` fails
  | failed
  deriving Repr, DecidableEq

/-- `thread_fn`. Ports are positive, and no two flows have the same one. -/
def threadFn (x : Input) (s : Shared) (t : Handler) : Option (Shared × Handler) :=
  match t.pc, x with
  | .create, .created p =>
    if 0 < p ∧ ∀ f ∈ s.flows, f.2 ≠ p then
      some ({ s with
          flows := (t.conn, p) :: s.flows
          latest := Function.update s.latest t.conn (some p) }, { t with pc := .insert p })
    else none
  | .create, .failed =>
    some ({ s with phase := Function.update s.phase t.conn .unanswered }, { t with pc := .done })
  | .insert p, .go => some (insertFd s t.conn p, { t with pc := .reply })
  | .reply, .go =>
    some ({ s with phase := Function.update s.phase t.conn .opened }, { t with pc := .done })
  | .reply, .failed =>
    some ({ s with phase := Function.update s.phase t.conn .unanswered }, { t with pc := .done })
  | .find, .go =>
    some (s, { t with pc := if findFd s t.conn > 0 then .deallocate (findFd s t.conn) else .done })
  | .deallocate p, .go =>
    some ({ s with
        flows := s.flows.filter (·.2 ≠ p)
        stale := Function.update s.stale t.conn true }, { t with pc := .erase })
  | .erase, .go =>
    some ({ eraseFd s t.conn with stale := Function.update s.stale t.conn false },
      { t with pc := .done })
  | _, _ => none

inductive Act where
  | alloc (c : ℕ)
  | dealloc (c : ℕ)
  | thread (i : ℕ) (x : Input)

/-- The kernel's messages, each of which starts a thread, and the steps of the threads. -/
def step (p : Pool Shared Handler) : Act → Option (Pool Shared Handler)
  | .alloc c =>
    if p.shared.phase c = .idle then
      some ⟨{ p.shared with phase := Function.update p.shared.phase c .asked },
        p.threads ++ [⟨c, .create⟩]⟩
    else none
  | .dealloc c =>
    if p.shared.phase c = .opened then
      some ⟨{ p.shared with phase := Function.update p.shared.phase c .idle },
        p.threads ++ [⟨c, .find⟩]⟩
    else none
  | .thread i x => p.move (threadFn x) i

def start : Pool Shared Handler :=
  ⟨⟨∅, [], fun _ => .idle, fun _ => none, fun _ => false⟩, []⟩

def Quiescent (p : Pool Shared Handler) : Prop := ∀ t ∈ p.threads, t.pc = .done

instance (p : Pool Shared Handler) : Decidable (Quiescent p) :=
  inferInstanceAs (Decidable (∀ t ∈ p.threads, _))

/-- The entry of a connection is its last flow, if that still exists; no flow is without entry, so
that `destroyFlow` finds it. -/
structure Tracks (s : Shared) : Prop where
  entry : ∀ c p, s.fdMap.lookup c = some p ↔ s.latest c = some p ∧ (c, p) ∈ s.flows
  found : ∀ f ∈ s.flows, 0 < f.2 ∧ findFd s f.1 = f.2

/-- The connections that have a flow or a handler at work. -/
def liveIds (p : Pool Shared Handler) : List ℕ :=
  (p.shared.flows.map Prod.fst ++ (p.threads.filter fun t => t.pc ≠ .done).map Handler.conn).dedup

def FewIds (p : Pool Shared Handler) (_ : Act) : Prop := (liveIds p).length < MAX_CONNS

def Pc.alloc : Pc → Bool
  | .create | .insert _ | .reply => true
  | _ => false

def Pc.dealloc : Pc → Bool
  | .find | .deallocate _ | .erase => true
  | _ => false

def Pc.inserts : Pc → Bool
  | .insert _ => true
  | _ => false

/-- `insertFd` runs only when no handler of `alloc = 0` for the same connection is at work. -/
def InsertsAlone (p : Pool Shared Handler) : Act → Prop
  | .thread i _ => ∀ t ∈ p.threads[i]?, t.pc.inserts = true →
      ∀ u ∈ p.threads, u.conn = t.conn → u.pc.dealloc = false
  | _ => True

instance (p : Pool Shared Handler) (a : Act) : Decidable (FewIds p a) :=
  inferInstanceAs (Decidable (_ < _))

instance (p : Pool Shared Handler) (a : Act) : Decidable (InsertsAlone p a) := by
  cases a <;> unfold InsertsAlone <;> infer_instance

/-! ### One connection -/

/-- What the shared state says of one connection. -/
structure View where
  fd : Option Int
  live : Int → Prop
  phase : Phase
  latest : Option Int
  stale : Bool

def Shared.view (s : Shared) (c : ℕ) : View :=
  ⟨s.fdMap.lookup c, fun p => (c, p) ∈ s.flows, s.phase c, s.latest c, s.stale c⟩

/-- The entry is for the flow with port `p`. -/
def View.Filed (v : View) (p : Int) : Prop := v.fd = some p ∧ v.stale = false

/-- There is an entry, and it is not for a flow that is gone. -/
def View.Mapped (v : View) : Prop := v.fd ≠ none ∧ v.stale = false

structure View.Ok (v : View) : Prop where
  pos : ∀ p, v.fd = some p → 0 < p
  filed : ∀ p, v.Filed p → v.live p
  stale : v.stale = true → v.fd ≠ none
  opened : v.phase = .opened → v.Mapped
  current : v.phase ≠ .asked → ∀ p, v.fd = some p → v.latest = some p

/-- What a handler knows of its connection. -/
def View.Knows (v : View) : Pc → Prop
  | .create => v.phase = .asked ∧ ∀ p, v.fd = some p → v.latest = some p
  | .insert p => v.phase = .asked ∧ 0 < p ∧ v.live p ∧ v.latest = some p ∧ ¬ v.Filed p
  | .reply => v.phase = .asked ∧ v.Mapped ∧ ∀ p, v.fd = some p → v.latest = some p
  | .find => v.phase ≠ .opened ∧ v.Mapped
  | .deallocate p => v.phase ≠ .opened ∧ v.Filed p
  | .erase => v.phase ≠ .opened ∧ v.stale = true
  | .done => True

/-- Two handlers of one connection are one of either kind, and the reply is not sent before the
other one is done. -/
def Pc.Beside (a b : Pc) : Prop :=
  ¬ (a.alloc = true ∧ b.alloc = true) ∧ ¬ (a.dealloc = true ∧ b.dealloc = true) ∧
    ¬ (a = .reply ∧ b.dealloc = true) ∧ ¬ (a.dealloc = true ∧ b = .reply)

/-- What is left to be done for a connection, and by whom. -/
inductive Debt where
  | file (portId : Int)
  | erase
  | close
  deriving DecidableEq

def View.Due (v : View) : Debt → Prop
  | .file p => v.live p ∧ ¬ v.Filed p
  | .erase => v.stale = true
  | .close => v.fd ≠ none ∧ (v.phase = .idle ∨ v.phase = .asked)

def Debt.PaidBy : Debt → Pc → Prop
  | .file p, pc => pc = .insert p
  | .erase, pc => pc = .erase
  | .close, pc => pc.dealloc = true ∨ pc = .reply

/-- A step of a handler as its connection sees it. -/
inductive ViewStep (v : View) : Pc → View → Pc → Prop where
  | created (p : Int) (hp : 0 < p) (hnew : ¬ v.live p) :
      ViewStep v .create { v with live := fun q => q = p ∨ v.live q, latest := some p } (.insert p)
  | refused : ViewStep v .create { v with phase := .unanswered } .done
  | inserted (p : Int) (hfd : v.fd = none) :
      ViewStep v (.insert p) { v with fd := some p } .reply
  | replied : ViewStep v .reply { v with phase := .opened } .done
  | lost : ViewStep v .reply { v with phase := .unanswered } .done
  | found (p : Int) (hfd : v.fd = some p) : ViewStep v .find v (.deallocate p)
  | deallocated (p : Int) :
      ViewStep v (.deallocate p) { v with live := fun q => v.live q ∧ q ≠ p, stale := true } .erase
  | erased : ViewStep v .erase { v with fd := none, stale := false } .done

theorem viewStep_ok (v : View) (pc : Pc) (v' : View) (pc' : Pc) (hv : v.Ok) (hpc : v.Knows pc)
    (h : ViewStep v pc v' pc') : v'.Ok := by
  obtain ⟨hpos, hfiled, hstale, hopened, hcurrent⟩ := hv
  cases h with
  | created p hp hnew =>
    exact ⟨hpos, fun q hq => Or.inr (hfiled q hq), hstale, hopened, fun hne => absurd hpc.1 hne⟩
  | refused => exact ⟨hpos, hfiled, hstale, by simp, fun _ => hpc.2⟩
  | inserted p hfd =>
    obtain ⟨hasked, hp, hlive, -, -⟩ := hpc
    refine ⟨fun q hq => ?_, fun q hq => ?_, by simp, fun ho => ?_, fun hne => absurd hasked hne⟩
    · cases hq
      exact hp
    · cases hq.1
      exact hlive
    · cases hasked.symm.trans ho
  | replied => exact ⟨hpos, hfiled, hstale, fun _ => hpc.2.1, fun _ => hpc.2.2⟩
  | lost => exact ⟨hpos, hfiled, hstale, by simp, fun _ => hpc.2.2⟩
  | found p hfd => exact ⟨hpos, hfiled, hstale, hopened, hcurrent⟩
  | deallocated p =>
    refine ⟨hpos, fun q hq => ?_, fun _ => ?_, fun ho => absurd ho hpc.1, hcurrent⟩
    · cases hq.2
    · simp [hpc.2.1]
  | erased =>
    exact ⟨by simp, fun q hq => (by cases hq.1), by simp, fun ho => absurd ho hpc.1, by simp⟩

theorem not_stale_of_fd_none (v : View) (hv : v.Ok) (hfd : v.fd = none) : v.stale = false := by
  cases hst : v.stale with
  | false => rfl
  | true => exact absurd hfd (hv.stale hst)

theorem viewStep_knows (v : View) (pc : Pc) (v' : View) (pc' : Pc) (hv : v.Ok) (hpc : v.Knows pc)
    (h : ViewStep v pc v' pc') : v'.Knows pc' := by
  cases h with
  | created p hp hnew =>
    exact ⟨hpc.1, hp, Or.inl rfl, rfl, fun hf => hnew (hv.filed p hf)⟩
  | inserted p hfd =>
    refine ⟨hpc.1, ⟨by simp, not_stale_of_fd_none v hv hfd⟩, fun q hq => ?_⟩
    cases hq
    exact hpc.2.2.2.1
  | found p hfd => exact ⟨hpc.1, hfd, hpc.2.2⟩
  | deallocated p => exact ⟨hpc.1, rfl⟩
  | refused | replied | lost | erased => trivial

theorem viewStep_beside (v : View) (pc : Pc) (v' : View) (pc' qc : Pc)
    (halone : pc.inserts = true → qc.dealloc = false) (hb : pc.Beside qc)
    (h : ViewStep v pc v' pc') : pc'.Beside qc := by
  obtain ⟨h1, h2, h3, h4⟩ := hb
  cases h with
  | inserted p hfd =>
    -- the reply comes next, and no other handler may be there
    have hd := halone rfl
    exact ⟨h1, by simp [Pc.dealloc], by simp [hd], by simp [Pc.dealloc]⟩
  | created p => exact ⟨h1, by simp [Pc.dealloc], by simp, by simp [Pc.dealloc]⟩
  | found p => exact ⟨by simp [Pc.alloc], h2, by simp, h4⟩
  | deallocated p => exact ⟨by simp [Pc.alloc], h2, by simp, h4⟩
  | refused | replied | lost | erased => simp [Pc.Beside, Pc.alloc, Pc.dealloc]

/-- A handler that may be beside the one that moves is not disturbed. -/
theorem viewStep_free (v : View) (pc : Pc) (v' : View) (pc' qc : Pc) (hpc : v.Knows pc)
    (halone : pc.inserts = true → qc.dealloc = false) (hqc : v.Knows qc) (hb : pc.Beside qc)
    (h : ViewStep v pc v' pc') : v'.Knows qc := by
  obtain ⟨h1, h2, h3, h4⟩ := hb
  cases h with
  | created p hp hnew =>
    cases qc with
    | create | insert | reply => exact absurd ⟨rfl, rfl⟩ h1
    | find | deallocate | erase | done => exact hqc
  | refused =>
    cases qc with
    | create | insert | reply => exact absurd ⟨rfl, rfl⟩ h1
    | find | deallocate | erase => exact ⟨by simp, hqc.2⟩
    | done => trivial
  | inserted p hfd =>
    cases qc with
    | create | insert | reply => exact absurd ⟨rfl, rfl⟩ h1
    | find | deallocate | erase => cases halone rfl
    | done => trivial
  | replied | lost =>
    cases qc with
    | create | insert | reply => exact absurd ⟨rfl, rfl⟩ h1
    | find | deallocate | erase => exact absurd ⟨rfl, rfl⟩ h3
    | done => trivial
  | found p hfd => exact hqc
  | deallocated p =>
    cases qc with
    | find | deallocate | erase => exact absurd ⟨rfl, rfl⟩ h2
    | reply => exact absurd ⟨rfl, rfl⟩ h4
    | create => exact hqc
    | insert q =>
      -- its flow is another one: that of the entry is the one that goes
      obtain ⟨hasked, hq, hlive, hlatest, hnot⟩ := hqc
      refine ⟨hasked, hq, ⟨hlive, ?_⟩, hlatest, fun hf => by cases hf.2⟩
      rintro rfl
      exact hnot hpc.2
    | done => trivial
  | erased =>
    cases qc with
    | find | deallocate | erase => exact absurd ⟨rfl, rfl⟩ h2
    | reply => exact absurd ⟨rfl, rfl⟩ h4
    | create => exact ⟨hqc.1, by simp⟩
    | insert q => exact ⟨hqc.1, hqc.2.1, hqc.2.2.1, hqc.2.2.2.1, fun hf => by cases hf.1⟩
    | done => trivial

/-- What is due after a step is done next by the same handler, or was due before and is left to
another one. -/
theorem viewStep_paid (v : View) (pc : Pc) (v' : View) (pc' : Pc) (d : Debt) (hv : v.Ok)
    (hpc : v.Knows pc) (hd : v'.Due d) (h : ViewStep v pc v' pc') :
    d.PaidBy pc' ∨ (v.Due d ∧ ¬ d.PaidBy pc) := by
  cases h with
  | created p hp hnew =>
    cases d with
    | file q =>
      obtain ⟨rfl | hlive, hnot⟩ := hd
      · exact Or.inl rfl
      · exact Or.inr ⟨⟨hlive, hnot⟩, by simp [Debt.PaidBy]⟩
    | erase => exact Or.inr ⟨hd, by simp [Debt.PaidBy]⟩
    | close => exact Or.inr ⟨hd, by simp [Debt.PaidBy, Pc.dealloc]⟩
  | refused | replied | lost =>
    cases d with
    | file q => exact Or.inr ⟨hd, by simp [Debt.PaidBy]⟩
    | erase => exact Or.inr ⟨hd, by simp [Debt.PaidBy]⟩
    | close => rcases hd.2 with hp | hp <;> cases hp
  | inserted p hfd =>
    cases d with
    | file q =>
      refine Or.inr ⟨⟨hd.1, fun hf => ?_⟩, fun he => ?_⟩
      · cases hfd.symm.trans hf.1
      · cases he
        exact hd.2 ⟨rfl, not_stale_of_fd_none v hv hfd⟩
    | erase => exact Or.inr ⟨hd, by simp [Debt.PaidBy]⟩
    | close => exact Or.inl (Or.inr rfl)
  | found p hfd =>
    cases d with
    | file q => exact Or.inr ⟨hd, by simp [Debt.PaidBy]⟩
    | erase => exact Or.inr ⟨hd, by simp [Debt.PaidBy]⟩
    | close => exact Or.inl (Or.inl rfl)
  | deallocated p =>
    cases d with
    | file q =>
      refine Or.inr ⟨⟨hd.1.1, fun hf => hd.1.2 ?_⟩, by simp [Debt.PaidBy]⟩
      exact Option.some.inj (hf.1.symm.trans hpc.2.1)
    | erase => exact Or.inl rfl
    | close => exact Or.inl (Or.inl rfl)
  | erased =>
    cases d with
    | file q =>
      refine Or.inr ⟨⟨hd.1, fun hf => ?_⟩, by simp [Debt.PaidBy]⟩
      cases hpc.2.symm.trans hf.2
    | erase => cases hd
    | close => exact absurd rfl hd.1

/-- The kernel asks: no handler of `alloc = 1` is left. -/
theorem view_asked (v : View) (hv : v.Ok) (hidle : v.phase = .idle) :
    { v with phase := .asked }.Ok ∧ { v with phase := .asked }.Knows .create ∧
      (∀ qc, v.Knows qc → { v with phase := .asked }.Knows qc ∧ Pc.create.Beside qc) ∧
      ∀ d, { v with phase := .asked }.Due d → v.Due d := by
  obtain ⟨hpos, hfiled, hstale, hopened, hcurrent⟩ := hv
  refine ⟨⟨hpos, hfiled, hstale, by simp, by simp⟩, ⟨rfl, hcurrent (by simp [hidle])⟩, ?_, ?_⟩
  · intro qc hqc
    cases qc with
    | create | insert | reply => cases hidle.symm.trans hqc.1
    | find | deallocate | erase =>
      exact ⟨⟨by simp, hqc.2⟩, by simp [Pc.Beside, Pc.alloc, Pc.dealloc]⟩
    | done => exact ⟨trivial, by simp [Pc.Beside, Pc.alloc, Pc.dealloc]⟩
  · intro d hd
    cases d with
    | file | erase => exact hd
    | close => exact ⟨hd.1, Or.inl hidle⟩

/-- The kernel gives the flow back: no handler at all is left. -/
theorem view_closing (v : View) (hv : v.Ok) (hopen : v.phase = .opened) :
    { v with phase := .idle }.Ok ∧ { v with phase := .idle }.Knows .find ∧
      (∀ qc, v.Knows qc → { v with phase := .idle }.Knows qc ∧ Pc.find.Beside qc) ∧
      ∀ d, { v with phase := .idle }.Due d → d.PaidBy .find ∨ v.Due d := by
  obtain ⟨hpos, hfiled, hstale, hopened, hcurrent⟩ := hv
  have hmapped := hopened hopen
  refine ⟨⟨hpos, hfiled, hstale, by simp, fun _ => hcurrent (by simp [hopen])⟩,
    ⟨by simp, hmapped⟩, ?_, ?_⟩
  · intro qc hqc
    cases qc with
    | create | insert | reply => cases hopen.symm.trans hqc.1
    | find | deallocate | erase => exact absurd hopen hqc.1
    | done => exact ⟨trivial, by simp [Pc.Beside, Pc.alloc, Pc.dealloc]⟩
  · intro d hd
    cases d with
    | file | erase => exact Or.inr hd
    | close => exact Or.inl (Or.inl rfl)

/-! ### All connections -/

def PortsUnique (s : Shared) : Prop := ∀ f ∈ s.flows, ∀ g ∈ s.flows, f.2 = g.2 → f = g

def outline : Pool.Outline Shared Handler (ℕ × Debt) where
  common s := PortsUnique s ∧ ∀ c, (s.view c).Ok
  each s t := (s.view t.conn).Knows t.pc
  pair t u := t.conn = u.conn → t.pc.Beside u.pc
  due s o := (s.view o.1).Due o.2
  pays o t := t.conn = o.1 ∧ o.2.PaidBy t.pc
  pair_symm t u h hc := by
    obtain ⟨h1, h2, h3, h4⟩ := h hc.symm
    exact ⟨fun hb => h1 hb.symm, fun hb => h2 hb.symm, fun hb => h4 hb.symm, fun hb => h3 hb.symm⟩

/-- A step of a handler that only its connection sees. -/
structure Sees (s : Shared) (c : ℕ) (pc : Pc) (s' : Shared) (pc' : Pc) : Prop where
  ports : PortsUnique s'
  others : ∀ c', c' ≠ c → s'.view c' = s.view c'
  own : ViewStep (s.view c) pc (s'.view c) pc'

theorem keeps_of_sees (others : Handler → Prop) (s : Shared) (t : Handler) (s' : Shared)
    (pc' : Pc) (hs : outline.common s) (ht : outline.each s t)
    (halone : t.pc.inserts = true → ∀ u, others u → u.conn = t.conn → u.pc.dealloc = false)
    (h : Sees s t.conn t.pc s' pc') : outline.Keeps others s t s' { t with pc := pc' } := by
  obtain ⟨hports, helse, h⟩ := h
  have hv := hs.2 t.conn
  refine ⟨⟨hports, fun c => ?_⟩, viewStep_knows _ _ _ _ hv ht h, ?_, ?_, ?_⟩
  · by_cases hc : c = t.conn
    · subst hc
      exact viewStep_ok _ _ _ _ hv ht h
    · rw [helse c hc]
      exact hs.2 c
  · intro u ho hu hp
    by_cases hc : u.conn = t.conn
    · have hu' : (s.view t.conn).Knows u.pc := hc ▸ hu
      change (s'.view u.conn).Knows u.pc
      rw [hc]
      exact viewStep_free _ _ _ _ u.pc ht (fun hi => halone hi u ho hc) hu' (hp hc.symm) h
    · change (s'.view u.conn).Knows u.pc
      rw [helse _ hc]
      exact hu
  · intro u ho hu hp hc
    exact viewStep_beside _ _ _ _ u.pc (fun hi => halone hi u ho hc.symm) (hp hc) h
  · rintro ⟨c, d⟩ hd
    by_cases hc : c = t.conn
    · subst hc
      rcases viewStep_paid _ _ _ _ d hv ht hd h with hpay | ⟨hdue, hnot⟩
      · exact Or.inl ⟨rfl, hpay⟩
      · exact Or.inr ⟨hdue, fun hpay => hnot hpay.2⟩
    · refine Or.inr ⟨?_, fun hpay => hc hpay.1.symm⟩
      change (s'.view c).Due d at hd
      rwa [helse c hc] at hd

theorem view_phase (s : Shared) (c : ℕ) (x : Phase) :
    { s with phase := Function.update s.phase c x }.view c = { s.view c with phase := x } := by
  simp [Shared.view]

theorem view_phase_ne (s : Shared) (c : ℕ) (x : Phase) (c' : ℕ) (hc : c' ≠ c) :
    { s with phase := Function.update s.phase c x }.view c' = s.view c' := by
  simp [Shared.view, hc]

theorem findFd_of_lookup (s : Shared) (c : ℕ) (p : Int) (h : s.fdMap.lookup c = some p) :
    findFd s c = p := by
  rw [findFd, h, Option.getD_some]

theorem insertFd_eq (s : Shared) (c : ℕ) (p : Int) (hlen : s.fdMap.keys.length ≤ MAX_CONNS)
    (hfd : s.fdMap.lookup c = none) :
    insertFd s c p = { s with fdMap := s.fdMap.insert c p } := by
  rw [insertFd, if_neg (by omega), if_neg (AList.lookup_eq_none.mp hfd)]

theorem eraseFd_eq (s : Shared) (c : ℕ) (h : ∃ p, s.fdMap.lookup c = some p ∧ 0 < p) :
    eraseFd s c = { s with fdMap := s.fdMap.erase c } := by
  obtain ⟨p, hp, hpos⟩ := h
  rw [eraseFd, findFd_of_lookup s c p hp, if_pos hpos]

theorem sees_phase (s : Shared) (c : ℕ) (pc : Pc) (x : Phase) (pc' : Pc) (hs : PortsUnique s)
    (h : ViewStep (s.view c) pc { s.view c with phase := x } pc') :
    Sees s c pc { s with phase := Function.update s.phase c x } pc' := by
  refine ⟨hs, fun c' hc => view_phase_ne s c x c' hc, ?_⟩
  rwa [view_phase]

theorem sees_created (s : Shared) (c : ℕ) (p : Int) (hs : PortsUnique s) (hp : 0 < p)
    (hnew : ∀ f ∈ s.flows, f.2 ≠ p) :
    Sees s c .create { s with
      flows := (c, p) :: s.flows
      latest := Function.update s.latest c (some p) } (.insert p) := by
  refine ⟨?_, fun c' hc => by simp [Shared.view, hc], ?_⟩
  · simp only [PortsUnique, List.forall_mem_cons]
    exact ⟨⟨fun _ => trivial, fun g hg he => absurd he.symm (hnew g hg)⟩,
      fun f hf => ⟨fun he => absurd he (hnew f hf), hs f hf⟩⟩
  · have hstep := ViewStep.created (v := s.view c) p hp fun hl => hnew _ hl rfl
    simpa [Shared.view] using hstep

theorem sees_insertFd (s : Shared) (c : ℕ) (p : Int) (hs : PortsUnique s)
    (hlen : s.fdMap.keys.length ≤ MAX_CONNS) (hfd : s.fdMap.lookup c = none) :
    Sees s c (.insert p) (insertFd s c p) .reply := by
  rw [insertFd_eq s c p hlen hfd]
  refine ⟨hs, fun c' hc => by simp [Shared.view, AList.lookup_insert_ne hc], ?_⟩
  have hstep := ViewStep.inserted (v := s.view c) p hfd
  simpa [Shared.view] using hstep

theorem sees_deallocated (s : Shared) (c : ℕ) (p : Int) (hs : PortsUnique s)
    (hlive : (c, p) ∈ s.flows) :
    Sees s c (.deallocate p) { s with
      flows := s.flows.filter (·.2 ≠ p)
      stale := Function.update s.stale c true } .erase := by
  refine ⟨fun f hf g hg => hs f (List.mem_of_mem_filter hf) g (List.mem_of_mem_filter hg),
    fun c' hc => ?_, ?_⟩
  · -- no other connection has a flow with this port
    have hother (q : Int) (hq : (c', q) ∈ s.flows) : q ≠ p := by
      rintro rfl
      exact hc (congrArg Prod.fst (hs _ hq _ hlive rfl))
    simp only [Shared.view, Function.update_of_ne hc, View.mk.injEq, true_and, and_true]
    funext q
    simpa using hother q
  · have hstep := ViewStep.deallocated (v := s.view c) p
    simpa [Shared.view] using hstep

theorem sees_eraseFd (s : Shared) (c : ℕ) (hs : PortsUnique s)
    (hentry : ∃ p, s.fdMap.lookup c = some p ∧ 0 < p) :
    Sees s c .erase { eraseFd s c with stale := Function.update s.stale c false } .done := by
  rw [eraseFd_eq s c hentry]
  refine ⟨hs, fun c' hc => by simp [Shared.view, AList.lookup_erase_ne hc, hc], ?_⟩
  have hstep := ViewStep.erased (v := s.view c)
  simpa [Shared.view] using hstep

/-- Every step of a handler is one that only its connection sees, given that there is room and no
entry when it inserts. -/
theorem threadFn_sees (x : Input) (s : Shared) (t : Handler) (s' : Shared) (t' : Handler)
    (hs : outline.common s) (ht : outline.each s t)
    (hroom : t.pc.inserts = true → s.fdMap.keys.length ≤ MAX_CONNS ∧ s.fdMap.lookup t.conn = none)
    (h : threadFn x s t = some (s', t')) :
    ∃ pc', t' = { t with pc := pc' } ∧ Sees s t.conn t.pc s' pc' := by
  obtain ⟨hports, hok⟩ := hs
  have hv := hok t.conn
  replace ht : (s.view t.conn).Knows t.pc := ht
  have hentry (hne : (s.view t.conn).fd ≠ none) : ∃ p, s.fdMap.lookup t.conn = some p ∧ 0 < p := by
    obtain ⟨p, hp⟩ := Option.ne_none_iff_exists'.mp hne
    exact ⟨p, hp, hv.pos p hp⟩
  unfold threadFn at h
  split at h
  · next p hpc =>
    rw [hpc]
    split at h
    · next hp =>
      cases h
      exact ⟨_, rfl, sees_created s t.conn p hports hp.1 hp.2⟩
    · cases h
  · next hpc =>
    rw [hpc]
    cases h
    exact ⟨_, rfl, sees_phase s t.conn _ _ _ hports .refused⟩
  · next p hpc =>
    rw [hpc] at hroom ⊢
    cases h
    obtain ⟨hlen, hfd⟩ := hroom rfl
    exact ⟨_, rfl, sees_insertFd s t.conn p hports hlen hfd⟩
  · next hpc =>
    rw [hpc]
    cases h
    exact ⟨_, rfl, sees_phase s t.conn _ _ _ hports .replied⟩
  · next hpc =>
    rw [hpc]
    cases h
    exact ⟨_, rfl, sees_phase s t.conn _ _ _ hports .lost⟩
  · next hpc =>
    rw [hpc] at ht ⊢
    cases h
    obtain ⟨p, hp, hpos⟩ := hentry ht.2.1
    rw [findFd_of_lookup s _ p hp, if_pos hpos]
    exact ⟨_, rfl, hports, fun c hc => rfl, .found p hp⟩
  · next p hpc =>
    rw [hpc] at ht ⊢
    cases h
    exact ⟨_, rfl, sees_deallocated s t.conn p hports (hv.filed p ht.2)⟩
  · next hpc =>
    rw [hpc] at ht ⊢
    cases h
    exact ⟨_, rfl, sees_eraseFd s t.conn hports (hentry (hv.stale ht.2))⟩
  · cases h

/-! ### Room in the map -/

/-- An entry is there for a flow or for the handler that erases it. -/
theorem keys_subset_liveIds (p : Pool Shared Handler) (hp : outline.Holds p) :
    p.shared.fdMap.keys ⊆ liveIds p := by
  intro c hc
  obtain ⟨fd, hfd⟩ := Option.isSome_iff_exists.mp (AList.lookup_isSome.mpr (AList.mem_keys.mpr hc))
  rw [liveIds, List.mem_dedup, List.mem_append]
  cases hst : p.shared.stale c with
  | false =>
    have hlive : (c, fd) ∈ p.shared.flows := (hp.common.2 c).filed fd ⟨hfd, hst⟩
    exact Or.inl (List.mem_map.mpr ⟨_, hlive, rfl⟩)
  | true =>
    obtain ⟨i, t, ht, hconn, hpc⟩ := hp.paid (c, .erase) hst
    refine Or.inr (List.mem_map.mpr ⟨t, List.mem_filter.mpr ⟨List.mem_of_getElem? ht, ?_⟩, hconn⟩)
    have hpc' : t.pc = .erase := hpc
    simp [hpc']

theorem keys_length_le (p : Pool Shared Handler) (hp : outline.Holds p) :
    p.shared.fdMap.keys.length ≤ (liveIds p).length :=
  (List.subperm_of_subset p.shared.fdMap.keys_nodup (keys_subset_liveIds p hp)).length_le

/-- Where `insertFd` may run, the connection has no entry. -/
theorem lookup_none_of_insertsAlone (p : Pool Shared Handler) (i : ℕ) (x : Input) (t : Handler)
    (hp : outline.Holds p) (hok : InsertsAlone p (.thread i x)) (ht : p.threads[i]? = some t)
    (hpc : t.pc.inserts = true) : p.shared.fdMap.lookup t.conn = none := by
  obtain ⟨fd, hfd⟩ : ∃ fd, t.pc = .insert fd := by
    cases hcase : t.pc <;> simp [hcase, Pc.inserts] at hpc ⊢
  by_contra hne
  have hknows : (p.shared.view t.conn).Knows t.pc := hp.each i t ht
  rw [hfd] at hknows
  -- somebody is still at work on the entry
  obtain ⟨j, u, hu, hconn, hpay⟩ := hp.paid (t.conn, .close) ⟨hne, Or.inr hknows.1⟩
  rcases hpay with hd | hr
  · rw [hok t ht hpc u (List.mem_of_getElem? hu) hconn] at hd
    cases hd
  · have hij : i ≠ j := by
      rintro rfl
      cases ht.symm.trans hu
      rw [hfd] at hr
      cases hr
    exact (hp.pair i j t u hij ht hu hconn.symm).1 ⟨by simp [hfd, Pc.alloc], by simp [hr, Pc.alloc]⟩

/-! ### Runs -/

theorem outline_message (p : Pool Shared Handler) (c : ℕ) (x : Phase) (pc : Pc)
    (hp : outline.Holds p) (hok : { p.shared.view c with phase := x }.Ok)
    (hnew : { p.shared.view c with phase := x }.Knows pc)
    (hfree : ∀ qc, (p.shared.view c).Knows qc →
      { p.shared.view c with phase := x }.Knows qc ∧ pc.Beside qc)
    (hdue : ∀ d, { p.shared.view c with phase := x }.Due d → d.PaidBy pc ∨ (p.shared.view c).Due d) :
    outline.Holds ⟨{ p.shared with phase := Function.update p.shared.phase c x },
      p.threads ++ [⟨c, pc⟩]⟩ := by
  refine outline.holds_spawn p _ ⟨c, pc⟩ hp ⟨hp.common.1, fun c' => ?_⟩ ?_ ?_ ?_ ?_
  · by_cases hc : c' = c
    · subst hc
      rwa [view_phase]
    · rw [view_phase_ne _ _ _ _ hc]
      exact hp.common.2 c'
  · change (Shared.view _ c).Knows pc
    rwa [view_phase]
  · intro u hu
    by_cases hc : u.conn = c
    · change (Shared.view _ u.conn).Knows u.pc
      rw [hc, view_phase]
      exact (hfree u.pc (hc ▸ hu)).1
    · change (Shared.view _ u.conn).Knows u.pc
      rwa [view_phase_ne _ _ _ _ hc]
  · intro u _ hu hc
    have hc' : u.conn = c := hc.symm
    exact (hfree u.pc (hc' ▸ hu)).2
  · rintro ⟨c', d⟩ hd
    by_cases hc : c' = c
    · subst hc
      change (Shared.view _ c').Due d at hd
      rw [view_phase] at hd
      exact (hdue d hd).imp (fun hpay => ⟨rfl, hpay⟩) id
    · change (Shared.view _ c').Due d at hd
      rw [view_phase_ne _ _ _ _ hc] at hd
      exact Or.inr hd

theorem outline_step (p : Pool Shared Handler) (a : Act) (q : Pool Shared Handler)
    (hp : outline.Holds p) (hok : FewIds p a ∧ InsertsAlone p a) (h : step p a = some q) :
    outline.Holds q := by
  cases a with
  | alloc c =>
    simp only [step] at h
    split at h
    · next hidle =>
      cases h
      obtain ⟨h1, h2, h3, h4⟩ := view_asked (p.shared.view c) (hp.common.2 c) hidle
      exact outline_message p c .asked .create hp h1 h2 h3 fun d hd => Or.inr (h4 d hd)
    · cases h
  | dealloc c =>
    simp only [step] at h
    split at h
    · next hopen =>
      cases h
      obtain ⟨h1, h2, h3, h4⟩ := view_closing (p.shared.view c) (hp.common.2 c) hopen
      exact outline_message p c .idle .find hp h1 h2 h3 h4
    · cases h
  | thread i x =>
    refine outline.holds_move (threadFn x) p q i hp h fun t s' t' ht hf => ?_
    have hlen := keys_length_le p hp
    have hfew : (liveIds p).length < MAX_CONNS := hok.1
    have heach := hp.each i t ht
    obtain ⟨pc', rfl, hsees⟩ := threadFn_sees x p.shared t s' t' hp.common heach
      (fun hpc => ⟨by omega, lookup_none_of_insertsAlone p i x t hp hok.2 ht hpc⟩) hf
    refine keeps_of_sees _ p.shared t s' pc' hp.common heach ?_ hsees
    rintro hpc u ⟨j, -, hu⟩ hc
    exact hok.2 t ht hpc u (List.mem_of_getElem? hu) hc

theorem outline_start : outline.Holds start := by
  refine ⟨⟨by simp [PortsUnique, start], fun c => ?_⟩, by simp [start], by simp [start], ?_⟩
  · exact ⟨by simp [Shared.view, start], by simp [View.Filed, Shared.view, start],
      by simp [Shared.view, start], by simp [Shared.view, start], by simp [Shared.view, start]⟩
  · rintro ⟨c, d⟩ hd
    cases d <;> simp [outline, View.Due, Shared.view, start] at hd

/-- With all handlers done nothing is owed. -/
theorem not_due_of_quiescent (p : Pool Shared Handler) (hp : outline.Holds p) (hq : Quiescent p)
    (c : ℕ) (d : Debt) : ¬ (p.shared.view c).Due d := by
  intro hd
  obtain ⟨i, t, ht, -, hpay⟩ := hp.paid (c, d) hd
  rw [hq t (List.mem_of_getElem? ht)] at hpay
  cases d <;> simp [Debt.PaidBy, Pc.dealloc] at hpay

/-- If `insertFd` never runs while a handler of `alloc = 0` for the same connection is at work,
the map has exactly the flows that exist whenever all handlers are done. -/
theorem fdRun_tracks (acts : List Act) (p : Pool Shared Handler)
    (hfew : Lts.Along step FewIds start acts) (hok : Lts.Along step InsertsAlone start acts)
    (h : Lts.run step start acts = some p) (hq : Quiescent p) : Tracks p.shared := by
  have hp := Lts.run_invariant_along outline.Holds (fun p a => FewIds p a ∧ InsertsAlone p a)
    outline_step start p acts outline_start (Lts.along_and _ _ _ _ hfew hok) h
  have hnone (c : ℕ) (d : Debt) := not_due_of_quiescent p hp hq c d
  have hfiled (c : ℕ) (fd : Int) (hl : (c, fd) ∈ p.shared.flows) :
      p.shared.fdMap.lookup c = some fd := by
    by_contra hne
    exact hnone c (.file fd) ⟨hl, fun hf => hne hf.1⟩
  refine ⟨fun c fd => ⟨fun hfd => ?_, fun hl => hfiled c fd hl.2⟩, fun f hf => ?_⟩
  · have hv := hp.common.2 c
    have hst : p.shared.stale c = false := Bool.not_eq_true _ ▸ hnone c .erase
    have hasked : p.shared.phase c ≠ .asked := fun ha =>
      hnone c .close ⟨by simp [Shared.view, hfd], Or.inr ha⟩
    exact ⟨hv.current hasked fd hfd, hv.filed fd ⟨hfd, hst⟩⟩
  · have hfd := hfiled f.1 f.2 hf
    exact ⟨(hp.common.2 f.1).pos f.2 hfd, findFd_of_lookup _ _ _ hfd⟩

/- A connection is opened, closed and opened again. -/
def opens (i : ℕ) (portId : Int) : List Act :=
  [.thread i (.created portId), .thread i .go, .thread i .go]

def inOrder : List Act :=
  .alloc 1 :: opens 0 5 ++ [.dealloc 1, .alloc 1, .thread 2 (.created 6), .thread 1 .go,
    .thread 1 .go, .thread 1 .go, .thread 2 .go, .thread 2 .go]

def fdsAfter (acts : List Act) : Pool Shared Handler := (Lts.run step start acts).getD start

theorem inOrder_tracked :
    Tracks (fdsAfter inOrder).shared ∧ (fdsAfter inOrder).shared.flows = [(1, 6)] :=
  ⟨fdRun_tracks inOrder (fdsAfter inOrder) (by decide +kernel) (by decide +kernel)
    (Lts.run_getD _ _ _ (by decide +kernel)) (by decide +kernel), by decide +kernel⟩

/- The new flow is inserted before the entry of the old one is erased. -/
def overlapping : List Act :=
  .alloc 1 :: opens 0 5 ++ [.dealloc 1, .thread 1 .go, .thread 1 .go, .alloc 1] ++ opens 2 6 ++
    [.thread 1 .go]

/-- The new flow exists, but has no entry. -/
theorem overlapping_leaks :
    (Lts.run step start overlapping).isSome ∧ Lts.Along step FewIds start overlapping ∧
      Quiescent (fdsAfter overlapping) ∧
      (fdsAfter overlapping).shared.latest 1 = some 6 ∧
      (fdsAfter overlapping).shared.flows = [(1, 6)] ∧
      (fdsAfter overlapping).shared.fdMap.lookup 1 = none ∧
      ¬ Tracks (fdsAfter overlapping).shared := by
  have hfacts : (Lts.run step start overlapping).isSome ∧ Lts.Along step FewIds start overlapping ∧
      Quiescent (fdsAfter overlapping) ∧ (fdsAfter overlapping).shared.latest 1 = some 6 ∧
      (fdsAfter overlapping).shared.flows = [(1, 6)] ∧
      (fdsAfter overlapping).shared.fdMap.lookup 1 = none := by decide +kernel
  obtain ⟨hrun, hfew, hquiet, hlatest, hflows, hnone⟩ := hfacts
  refine ⟨hrun, hfew, hquiet, hlatest, hflows, hnone, fun ht => ?_⟩
  have hsome := (ht.entry 1 6).mpr ⟨hlatest, by simp [hflows]⟩
  rw [hnone] at hsome
  cases hsome

end PepDna.Rina.FdMap
