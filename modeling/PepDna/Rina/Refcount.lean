import PepDna.Basic
import PepDna.Lts

/-!
# The reference count of a TCP2RINA connection
(rina.c:390-432, connection.c:211-320, tcp_listen.c:143-169, server.c:179-192)

The reference of `kref_init` is dropped by `pepdna_con_close`. `pepdna_tcp_accept`
takes a reference for `r2l_work` and queues it, the `data_ready` callback does the
same for `l2r_work`, and each work drops its reference when it returns. A close
that finds the flow connected cancels `r2l_work`: if it is pending it is taken off
the queue, if it is running the close waits for it.

What the two forwarding functions return is an input. The callback takes no lock
(it is commented out in the source), so it is cut between its test and its
`pepdna_con_get`. The memory of the connection outlives its release. A RINA build
without MINIP is modelled; with both, `pepdna_con_close` returns before its put.
-/

namespace PepDna.Rina.Refcount

/- `i2r` is `pepdna_con_i2r_work` on `l2r_work`, `r2i` is `pepdna_con_r2i_work` on `r2l_work`. -/
inductive WorkId where
  | i2r
  | r2i
  deriving Repr, DecidableEq

/- `dealloc` is the netlink message of `i2r`, `unflag` the store to `rflag` of `r2i`; `close` to
`closePut` are inside `pepdna_con_close`, whose local variables are the arguments. -/
inductive Pc where
  | idle
  | test
  | fwd
  | dealloc
  | unflag
  | close
  | readRflag (lconnected : Bool)
  | clearLflag (lconnected rconnected : Bool)
  | userL (lconnected rconnected : Bool)
  | clearRflag (rconnected : Bool)
  | cancel
  | closePut
  | put
  deriving Repr, DecidableEq

structure Work where
  pending : Bool
  pc : Pc
  deriving Repr, DecidableEq

/-- Where `pepdna_tcp_accept` stands with this connection. -/
inductive AcceptPc where
  | lsock
  | flags
  | get
  | queue
  | wake
  | done
  deriving Repr, DecidableEq

/-- `r2l_work` has been queued. -/
def AcceptPc.queued : AcceptPc → Bool
  | .wake => true
  | .done => true
  | _ => false

/-- The reference taken for `r2l_work` before it is queued. -/
def AcceptPc.held : AcceptPc → ℕ
  | .queue => 1
  | _ => 0

/- `tested`, `got` and `toPut` count the callbacks that have passed the test of `lflag`, taken their
reference, or failed to queue the work. `released`, `drops` and `closes` are history: whether the
count has reached `0`, and how often `pepdna_con_close` dropped its reference and was entered. -/
structure Con where
  kref : ℕ
  released : Bool
  lsock : Bool
  lflag : Bool
  rflag : Bool
  userData : Bool
  accept : AcceptPc
  tested : ℕ
  got : ℕ
  toPut : ℕ
  i2r : Work
  r2i : Work
  drops : ℕ
  closes : ℕ
  deriving Repr, DecidableEq

/-- The connection when its flow is allocated and its client is about to be accepted. -/
def allocated : Con where
  kref := 1
  released := false
  lsock := false
  lflag := false
  rflag := false
  userData := false
  accept := .lsock
  tested := 0
  got := 0
  toPut := 0
  i2r := ⟨false, .idle⟩
  r2i := ⟨false, .idle⟩
  drops := 0
  closes := 0

def Con.get (s : Con) : WorkId → Work
  | .i2r => s.i2r
  | .r2i => s.r2i

def Con.jump (s : Con) (e : WorkId) (pc : Pc) : Con :=
  match e with
  | .i2r => { s with i2r := { s.i2r with pc := pc } }
  | .r2i => { s with r2i := { s.r2i with pc := pc } }

/-- The queue hands the work to its thread. -/
def Con.start (s : Con) : WorkId → Con
  | .i2r => { s with i2r := ⟨false, .test⟩ }
  | .r2i => { s with r2i := ⟨false, .test⟩ }

/-- The loop condition of the work: `lconnected` or `rconnected`. -/
def Con.connected (s : Con) : WorkId → Bool
  | .i2r => s.lflag
  | .r2i => s.rflag

def pepdnaConPut (s : Con) : Con :=
  if s.kref = 0 then s
  else if s.kref = 1 then { s with kref := 0, lsock := false, released := true }
  else { s with kref := s.kref - 1 }

/-- `pepdna_l2r_conn_data_ready` up to its test. -/
def dataReady (s : Con) : Con :=
  if s.userData && s.lflag then { s with tested := s.tested + 1 } else s

/-- One line of `pepdna_tcp_accept`. -/
def acceptStep (s : Con) : Option Con :=
  match s.accept with
  | .lsock => some { s with lsock := true, accept := .flags }
  | .flags => some { s with userData := true, lflag := true, rflag := true, accept := .get }
  | .get => some { s with kref := s.kref + 1, accept := .queue }
  | .queue =>
    some (if s.r2i.pending then pepdnaConPut { s with accept := .done }
      else { s with r2i := { s.r2i with pending := true }, accept := .wake })
  | .wake => some { dataReady s with accept := .done }
  | .done => none

inductive In where
  | tau
  | ret (rc : Int)
  deriving Repr, DecidableEq

/-- After the forwarding function returned `rc`: `i2r` ends its loop at `-EAGAIN`, `r2i` goes on. -/
def afterFwd (e : WorkId) (rc : Int) : Pc :=
  if 0 < rc then .test
  else
    match e with
    | .i2r => if rc = -EAGAIN then .put else .dealloc
    | .r2i => if rc = -EAGAIN then .test else .unflag

/-- One step of a work. -/
def workStep (s : Con) (e : WorkId) (i : In) : Option Con :=
  match (s.get e).pc, i with
  | .idle, .tau =>
    if (s.get e).pending then some (s.start e) else none
  | .test, .tau => some (s.jump e (if s.connected e then .fwd else .put))
  | .fwd, .ret rc => some (s.jump e (afterFwd e rc))
  | .dealloc, .tau => some (s.jump e .close)
  | .unflag, .tau => some ({ s with rflag := false }.jump e .close)
  -- pepdna_con_close
  | .close, .tau =>
    some ({ s with closes := s.closes + 1 }.jump e
      (if s.lsock then .readRflag s.lflag else .closePut))
  | .readRflag lc, .tau => some (s.jump e (.clearLflag lc s.rflag))
  | .clearLflag lc rc, .tau => some ({ s with lflag := false }.jump e (.userL lc rc))
  | .userL lc rc, .tau =>
    some ({ s with userData := s.userData && !lc }.jump e (.clearRflag rc))
  | .clearRflag rc, .tau =>
    some ({ s with rflag := false }.jump e (if rc then .cancel else .closePut))
  | .cancel, .tau =>
    if s.r2i.pc = .idle then
      some ({ s with r2i := { s.r2i with pending := false } }.jump e .closePut)
    else none
  | .closePut, .tau => some ((pepdnaConPut { s with drops := s.drops + 1 }).jump e .test)
  | .put, .tau => some (pepdnaConPut (s.jump e .idle))
  | _, _ => none

inductive Act where
  | accept
  | dataReady
  | get
  | queueWork
  | putBack
  | work (e : WorkId) (i : In)
  deriving Repr, DecidableEq

def conStep (s : Con) : Act → Option Con
  | .accept => acceptStep s
  | .dataReady => if s.lsock then some (dataReady s) else none
  | .get =>
    if 0 < s.tested then
      some { s with kref := s.kref + 1, tested := s.tested - 1, got := s.got + 1 }
    else none
  | .queueWork =>
    if 0 < s.got then
      some (if s.i2r.pending then { s with got := s.got - 1, toPut := s.toPut + 1 }
        else { s with got := s.got - 1, i2r := { s.i2r with pending := true } })
    else none
  | .putBack =>
    if 0 < s.toPut then some (pepdnaConPut { s with toPut := s.toPut - 1 }) else none
  | .work e i => workStep s e i

/- ### Counting -/

def Pc.running : Pc → ℕ
  | .idle => 0
  | _ => 1

/-- Inside `pepdna_con_close`, behind its first line. -/
def Pc.closing : Pc → ℕ
  | .readRflag _ => 1
  | .clearLflag _ _ => 1
  | .userL _ _ => 1
  | .clearRflag _ => 1
  | .cancel => 1
  | .closePut => 1
  | _ => 0

/-- The close under way has cleared `lflag`. -/
def Pc.unflagged : Pc → ℕ
  | .userL _ _ => 1
  | .clearRflag _ => 1
  | .cancel => 1
  | .closePut => 1
  | _ => 0

/-- What a place in a work counts for. -/
def Pc.weight (pc : Pc) : ℕ × ℕ × ℕ := (pc.running, pc.closing, pc.unflagged)

def Work.refs (w : Work) : ℕ := w.pending.toNat + w.pc.running

def Con.refs (s : Con) : ℕ :=
  s.i2r.refs + s.r2i.refs + s.got + s.toPut + s.accept.held

def Con.closing (s : Con) : ℕ := s.i2r.pc.closing + s.r2i.pc.closing

def Con.unflagged (s : Con) : ℕ := s.i2r.pc.unflagged + s.r2i.pc.unflagged

/- The next action keeps the count exact: the connection is closed once and after `r2l_work` has
been queued, the cancelled work is not pending, and no callback has passed its test when the close
drops the first reference. -/
def orderly (s : Con) : Act → Bool
  | .work e .tau =>
    match (s.get e).pc with
    | .close => s.closes == 0 && s.accept.queued
    | .cancel => !s.r2i.pending
    | .closePut => s.tested == 0
    | _ => true
  | _ => true

/- The count, with `owed` references still to be dropped by the line under way. -/
structure Balanced (owed : ℕ) (s : Con) : Prop where
  closes : s.drops + s.closing = s.closes
  once : s.closes ≤ 1
  kref : s.kref + s.drops = owed + 1 + s.refs
  freed : s.released = true ↔ s.kref = 0
  sock : s.accept = .lsock ∨ s.released = true ∨ s.lsock = true
  queued : s.closes = 1 → s.accept.queued = true
  flag : 0 < s.unflagged + s.drops → s.lflag = false
  quiet : 0 < s.drops → s.tested = 0

theorem balanced_allocated : Balanced 0 allocated := by
  refine ⟨rfl, Nat.zero_le _, rfl, ?_, Or.inl rfl, ?_, ?_, ?_⟩ <;> decide

theorem unflagged_le_closing (s : Con) : s.unflagged ≤ s.closing := by
  have hpc (pc : Pc) : pc.unflagged ≤ pc.closing := by cases pc <;> simp [Pc.unflagged, Pc.closing]
  exact Nat.add_le_add (hpc _) (hpc _)

/-- A connection that is not being closed is in use. -/
theorem balanced_open (n : ℕ) (s : Con) (hs : Balanced n s) (hd : s.drops = 0) :
    s.released = false ∧ 0 < s.kref := by
  have hk := hs.kref
  have hpos : 0 < s.kref := by omega
  refine ⟨?_, hpos⟩
  cases hr : s.released with
  | false => rfl
  | true =>
    have h0 := hs.freed.mp hr
    omega

/-- Before `r2l_work` is queued nobody has closed the connection. -/
theorem balanced_unqueued (n : ℕ) (s : Con) (hs : Balanced n s) (hq : s.accept.queued = false) :
    s.closes = 0 ∧ s.drops = 0 ∧ s.unflagged = 0 := by
  have hc := hs.closes
  have honce := hs.once
  have hu := unflagged_le_closing s
  have hne : s.closes ≠ 1 := by
    intro h1
    rw [hs.queued h1] at hq
    cases hq
  omega

/-- Until it is closed and once it is accepted, a connection has its socket. -/
theorem balanced_lsock (n : ℕ) (s : Con) (hs : Balanced n s) (hd : s.drops = 0)
    (ha : s.accept ≠ .lsock) : s.lsock = true := by
  rcases hs.sock with h | h | h
  · exact absurd h ha
  · rw [(balanced_open n s hs hd).1] at h
    cases h
  · exact h

/- ### `pepdna_con_put` -/

theorem put_jump (s : Con) (e : WorkId) (pc : Pc) :
    (pepdnaConPut s).jump e pc = pepdnaConPut (s.jump e pc) := by
  have hk : (s.jump e pc).kref = s.kref := by cases e <;> rfl
  unfold pepdnaConPut
  rw [hk]
  split
  · rfl
  · split
    · cases e <;> rfl
    · cases e <;> rfl

theorem balanced_put (s : Con) (hs : Balanced 1 s) : Balanced 0 (pepdnaConPut s) := by
  have hk := hs.kref
  have hc := hs.closes
  have honce := hs.once
  have h0 : s.kref ≠ 0 := by omega
  unfold pepdnaConPut
  rw [if_neg h0]
  by_cases hlast : s.kref = 1
  · rw [if_pos hlast]
    refine ⟨hc, honce, ?_, by simp, Or.inr (Or.inl rfl), hs.queued, hs.flag, hs.quiet⟩
    show 0 + s.drops = 0 + 1 + s.refs
    omega
  · rw [if_neg hlast]
    refine ⟨hc, honce, ?_, ?_, hs.sock, hs.queued, hs.flag, hs.quiet⟩
    · show s.kref - 1 + s.drops = 0 + 1 + s.refs
      omega
    · show s.released = true ↔ s.kref - 1 = 0
      rw [hs.freed]
      omega

/- ### One line of a work -/

/- `t` is `s` with the work `e` moved on to `pc`, and with stores to the flags and to the history. -/
structure Moved (s t : Con) (e : WorkId) (pc : Pc) : Prop where
  part : (t.kref, t.released, t.lsock, t.accept, t.tested) =
    (s.kref, s.released, s.lsock, s.accept, s.tested)
  flag : t.lflag = true → s.lflag = true
  refs : t.refs + (s.get e).pc.running = s.refs + pc.running
  closing : t.closing + (s.get e).pc.closing = s.closing + pc.closing
  unflagged : t.unflagged + (s.get e).pc.unflagged = s.unflagged + pc.unflagged

theorem jump_drops (s : Con) (e : WorkId) (pc : Pc) : (s.jump e pc).drops = s.drops := by
  cases e <;> rfl

theorem jump_closes (s : Con) (e : WorkId) (pc : Pc) : (s.jump e pc).closes = s.closes := by
  cases e <;> rfl

theorem jump_lflag (s : Con) (e : WorkId) (pc : Pc) : (s.jump e pc).lflag = s.lflag := by
  cases e <;> rfl

theorem moved_jump (s : Con) (e : WorkId) (l r u : Bool) (n d : ℕ) (pc : Pc)
    (hl : l = true → s.lflag = true) :
    Moved s ({ s with lflag := l, rflag := r, userData := u, closes := n, drops := d }.jump e pc)
      e pc := by
  cases e with
  | i2r =>
    refine ⟨rfl, hl, ?_, ?_, ?_⟩ <;>
      simp only [Con.jump, Con.get, Con.refs, Con.closing, Con.unflagged, Work.refs] <;> omega
  | r2i =>
    refine ⟨rfl, hl, ?_, ?_, ?_⟩ <;>
      simp only [Con.jump, Con.get, Con.refs, Con.closing, Con.unflagged, Work.refs] <;> omega

theorem balanced_moved (n : ℕ) (s t : Con) (e : WorkId) (pc : Pc) (hs : Balanced 0 s)
    (h : Moved s t e pc)
    (hrun : n + pc.running + s.drops = (s.get e).pc.running + t.drops)
    (hclose : t.drops + pc.closing + s.closes = s.drops + (s.get e).pc.closing + t.closes)
    (honce : t.closes ≤ 1) (hqueued : t.closes = 1 → s.accept.queued = true)
    (hflag : pc.unflagged + t.drops ≤ (s.get e).pc.unflagged + s.drops ∨ t.lflag = false)
    (hquiet : t.drops ≤ s.drops ∨ s.tested = 0) : Balanced n t := by
  have hpart := h.part
  simp only [Prod.mk.injEq] at hpart
  obtain ⟨h1, h2, h3, h4, h5⟩ := hpart
  have hr := h.refs
  have hc := h.closing
  have hu := h.unflagged
  have hcl := hs.closes
  have hk := hs.kref
  refine ⟨by omega, honce, by omega, ?_, ?_, ?_, ?_, ?_⟩
  · rw [h1, h2]
    exact hs.freed
  · rw [h2, h3, h4]
    exact hs.sock
  · rw [h4]
    exact hqueued
  · intro hpos
    rcases hflag with hflag | hflag
    · have hf := hs.flag (by omega)
      cases ht : t.lflag with
      | false => rfl
      | true =>
        rw [h.flag ht] at hf
        cases hf
    · exact hflag
  · intro hpos
    rw [h5]
    rcases hquiet with hle | hzero
    · exact hs.quiet (by omega)
    · exact hzero

/-- A line that leaves the history alone and, unless it clears `lflag`, goes no further than
before. -/
theorem balanced_line (n : ℕ) (s : Con) (e : WorkId) (l r u : Bool) (pc : Pc) (hs : Balanced 0 s)
    (hl : l = true → s.lflag = true) (hrun : n + pc.running = (s.get e).pc.running)
    (hclose : pc.closing = (s.get e).pc.closing)
    (hflag : pc.unflagged = (s.get e).pc.unflagged ∨ l = false) :
    Balanced n ({ s with lflag := l, rflag := r, userData := u }.jump e pc) := by
  have hm := moved_jump s e l r u s.closes s.drops pc hl
  refine balanced_moved n s _ e pc hs hm ?_ ?_ ?_ ?_ ?_ ?_
  · rw [jump_drops]
    dsimp only
    omega
  · rw [jump_drops, jump_closes]
    dsimp only
    omega
  · rw [jump_closes]
    exact hs.once
  · rw [jump_closes]
    exact hs.queued
  · rw [jump_drops, jump_lflag]
    rcases hflag with h | h
    · exact Or.inl (by dsimp only; omega)
    · exact Or.inr h
  · rw [jump_drops]
    exact Or.inl le_rfl

theorem balanced_even (s : Con) (e : WorkId) (r u : Bool) (pc : Pc) (hs : Balanced 0 s)
    (hw : pc.weight = (s.get e).pc.weight) :
    Balanced 0 ({ s with rflag := r, userData := u }.jump e pc) := by
  simp only [Pc.weight, Prod.mk.injEq] at hw
  obtain ⟨hrun, hclose, hflag⟩ := hw
  refine balanced_line 0 s e s.lflag r u pc hs id ?_ hclose (Or.inl hflag)
  rw [Nat.zero_add, hrun]

/-- The connection is entered by its only close: the client is still there. -/
theorem balanced_close (s : Con) (e : WorkId) (hs : Balanced 0 s) (hpc : (s.get e).pc = .close)
    (h0 : s.closes = 0) (hq : s.accept.queued = true) :
    Balanced 0 ({ s with closes := s.closes + 1 }.jump e
      (if s.lsock then .readRflag s.lflag else .closePut)) := by
  have hdrops : s.drops = 0 := by
    have hc := hs.closes
    omega
  have ha : s.accept ≠ .lsock := by
    intro h
    rw [h] at hq
    cases hq
  rw [if_pos (balanced_lsock 0 s hs hdrops ha)]
  have hm := moved_jump s e s.lflag s.rflag s.userData (s.closes + 1) s.drops
    (.readRflag s.lflag) id
  refine balanced_moved 0 s _ e _ hs hm ?_ ?_ ?_ (fun _ => hq) (Or.inl ?_) (Or.inl ?_)
  · rw [hpc, jump_drops]
    rfl
  · rw [hpc, jump_drops, jump_closes]
    simp only [Pc.closing]
    omega
  · rw [jump_closes]
    dsimp only
    omega
  · rw [hpc, jump_drops]
    exact le_rfl
  · rw [jump_drops]

/-- The close drops the first reference. -/
theorem balanced_closePut (s : Con) (e : WorkId) (hs : Balanced 0 s)
    (hpc : (s.get e).pc = .closePut) (htested : s.tested = 0) :
    Balanced 0 ((pepdnaConPut { s with drops := s.drops + 1 }).jump e .test) := by
  rw [put_jump]
  apply balanced_put
  have hm := moved_jump s e s.lflag s.rflag s.userData s.closes (s.drops + 1) .test id
  refine balanced_moved 1 s _ e _ hs hm ?_ ?_ ?_ ?_ (Or.inl ?_) (Or.inr htested)
  · rw [hpc, jump_drops]
    simp only [Pc.running]
    omega
  · rw [hpc, jump_drops, jump_closes]
    rfl
  · rw [jump_closes]
    exact hs.once
  · rw [jump_closes]
    exact hs.queued
  · rw [hpc, jump_drops]
    simp only [Pc.unflagged]
    omega

theorem balanced_start (s : Con) (e : WorkId) (hs : Balanced 0 s) (hpc : (s.get e).pc = .idle)
    (hp : (s.get e).pending = true) : Balanced 0 (s.start e) := by
  have hk := hs.kref
  have hc := hs.closes
  have hf := hs.flag
  cases e with
  | i2r =>
    simp only [Con.get] at hpc hp
    refine ⟨?_, hs.once, ?_, hs.freed, hs.sock, hs.queued, ?_, hs.quiet⟩
    · simpa [Con.start, Con.closing, hpc, Pc.closing] using hc
    · simpa [Con.start, Con.refs, Work.refs, hpc, hp, Pc.running] using hk
    · simpa [Con.start, Con.unflagged, hpc, Pc.unflagged] using hf
  | r2i =>
    simp only [Con.get] at hpc hp
    refine ⟨?_, hs.once, ?_, hs.freed, hs.sock, hs.queued, ?_, hs.quiet⟩
    · simpa [Con.start, Con.closing, hpc, Pc.closing] using hc
    · simpa [Con.start, Con.refs, Work.refs, hpc, hp, Pc.running] using hk
    · simpa [Con.start, Con.unflagged, hpc, Pc.unflagged] using hf

theorem afterFwd_weight (e : WorkId) (rc : Int) : (afterFwd e rc).weight = Pc.fwd.weight := by
  unfold afterFwd
  split
  · rfl
  · cases e <;> dsimp only <;> split <;> rfl

theorem balanced_work (s t : Con) (e : WorkId) (i : In) (hs : Balanced 0 s)
    (ho : orderly s (.work e i) = true) (h : workStep s e i = some t) : Balanced 0 t := by
  -- a jump that stores nothing
  have hjump (pc : Pc) := balanced_even s e s.rflag s.userData pc hs
  unfold workStep at h
  split at h
  · next hpc =>
    split at h
    · next hp =>
      cases h
      exact balanced_start s e hs hpc hp
    · cases h
  · next hpc =>
    cases h
    cases s.connected e with
    | true => exact hjump .fwd (by rw [hpc]; rfl)
    | false => exact hjump .put (by rw [hpc]; rfl)
  · next rc hpc =>
    cases h
    exact hjump _ (by rw [hpc]; exact afterFwd_weight e rc)
  · next hpc =>
    cases h
    exact hjump .close (by rw [hpc]; rfl)
  · next hpc =>
    cases h
    exact balanced_even s e false s.userData .close hs (by rw [hpc]; rfl)
  · next hpc =>
    cases h
    simp only [orderly, hpc, Bool.and_eq_true, beq_iff_eq] at ho
    exact balanced_close s e hs hpc ho.1 ho.2
  · next lc hpc =>
    cases h
    exact hjump (.clearLflag lc s.rflag) (by rw [hpc]; rfl)
  · next lc rc hpc =>
    cases h
    refine balanced_line 0 s e false s.rflag s.userData (.userL lc rc) hs (by simp) ?_ ?_
      (Or.inr rfl)
    · rw [hpc]
      rfl
    · rw [hpc]
      rfl
  · next lc rc hpc =>
    cases h
    exact balanced_even s e s.rflag (s.userData && !lc) (.clearRflag rc) hs (by rw [hpc]; rfl)
  · next rc hpc =>
    cases h
    cases rc with
    | true => exact balanced_even s e false s.userData .cancel hs (by rw [hpc]; rfl)
    | false => exact balanced_even s e false s.userData .closePut hs (by rw [hpc]; rfl)
  · next hpc =>
    split at h
    · cases h
      -- the cancelled work was not on the queue, so no reference goes with it
      simp only [orderly, hpc, Bool.not_eq_true'] at ho
      have heq : { s with r2i := { s.r2i with pending := false } } = s := by rw [← ho]
      rw [heq]
      exact hjump .closePut (by rw [hpc]; rfl)
    · cases h
  · next hpc =>
    cases h
    simp only [orderly, hpc, beq_iff_eq] at ho
    exact balanced_closePut s e hs hpc ho
  · next hpc =>
    cases h
    apply balanced_put
    refine balanced_line 1 s e s.lflag s.rflag s.userData .idle hs id ?_ ?_ (Or.inl ?_)
    · rw [hpc]
      rfl
    · rw [hpc]
      rfl
    · rw [hpc]
      rfl
  · cases h

/- ### The other parties -/

theorem balanced_dataReady (s : Con) (hs : Balanced 0 s) : Balanced 0 (dataReady s) := by
  unfold dataReady
  split
  · next hf =>
    refine ⟨hs.closes, hs.once, hs.kref, hs.freed, hs.sock, hs.queued, hs.flag, ?_⟩
    intro hd
    have hfalse := hs.flag (Nat.add_pos_right _ hd)
    rw [Bool.and_eq_true] at hf
    rw [hfalse] at hf
    cases hf.2
  · exact hs

/-- The callback found the connection open, so it is still there. -/
theorem balanced_get (s : Con) (hs : Balanced 0 s) (ht : 0 < s.tested) :
    Balanced 0 { s with kref := s.kref + 1, tested := s.tested - 1, got := s.got + 1 } := by
  have hdrops : s.drops = 0 := by
    by_contra hd
    have hq := hs.quiet (Nat.pos_of_ne_zero hd)
    omega
  obtain ⟨hrel, _⟩ := balanced_open 0 s hs hdrops
  have hk := hs.kref
  refine ⟨hs.closes, hs.once, ?_, ?_, hs.sock, hs.queued, hs.flag, ?_⟩
  · simp only [Con.refs] at hk ⊢
    omega
  · show s.released = true ↔ s.kref + 1 = 0
    rw [hrel]
    simp
  · show 0 < s.drops → s.tested - 1 = 0
    omega

theorem balanced_queueWork (s : Con) (hs : Balanced 0 s) (hg : 0 < s.got) :
    Balanced 0 (if s.i2r.pending then { s with got := s.got - 1, toPut := s.toPut + 1 }
      else { s with got := s.got - 1, i2r := { s.i2r with pending := true } }) := by
  have hk := hs.kref
  split
  · refine ⟨hs.closes, hs.once, ?_, hs.freed, hs.sock, hs.queued, hs.flag, hs.quiet⟩
    simp only [Con.refs] at hk ⊢
    omega
  · next hp =>
    rw [Bool.not_eq_true] at hp
    refine ⟨hs.closes, hs.once, ?_, hs.freed, hs.sock, hs.queued, hs.flag, hs.quiet⟩
    simp only [Con.refs, Work.refs, hp, Bool.toNat_true, Bool.toNat_false] at hk ⊢
    omega

theorem balanced_putBack (s : Con) (hs : Balanced 0 s) (hp : 0 < s.toPut) :
    Balanced 0 (pepdnaConPut { s with toPut := s.toPut - 1 }) := by
  have hk := hs.kref
  apply balanced_put
  refine ⟨hs.closes, hs.once, ?_, hs.freed, hs.sock, hs.queued, hs.flag, hs.quiet⟩
  simp only [Con.refs] at hk ⊢
  omega

/- Before `r2l_work` is queued there is nothing to keep but the socket and the count. -/
theorem balanced_unclosed (n : ℕ) (s t : Con) (hs : Balanced 0 s)
    (hq : s.accept.queued = false)
    (hpart : (t.drops, t.closes, t.closing, t.unflagged, t.released) =
      (s.drops, s.closes, s.closing, s.unflagged, s.released))
    (hsock : t.lsock = true) (hkref : t.kref = n + 1 + t.refs) : Balanced n t := by
  obtain ⟨h1, h2, h3⟩ := balanced_unqueued 0 s hs hq
  have hrel := (balanced_open 0 s hs h2).1
  have hc := hs.closes
  simp only [Prod.mk.injEq] at hpart
  obtain ⟨hd, hcl, hclosing, hun, hr⟩ := hpart
  refine ⟨by omega, by omega, by omega, ?_, Or.inr (Or.inr hsock), by omega, by omega, by omega⟩
  rw [hr, hrel, hkref]
  simp

theorem balanced_accept (s t : Con) (hs : Balanced 0 s) (h : acceptStep s = some t) :
    Balanced 0 t := by
  have hk := hs.kref
  have hun := balanced_unqueued 0 s hs
  unfold acceptStep at h
  split at h
  · next ha =>
    cases h
    have hq : s.accept.queued = false := by rw [ha]; rfl
    have hd := (hun hq).2.1
    refine balanced_unclosed 0 s _ hs hq rfl rfl ?_
    simp only [Con.refs, AcceptPc.held, ha] at hk ⊢
    omega
  · next ha =>
    cases h
    have hq : s.accept.queued = false := by rw [ha]; rfl
    have hd := (hun hq).2.1
    refine balanced_unclosed 0 s _ hs hq rfl (balanced_lsock 0 s hs hd (by simp [ha])) ?_
    simp only [Con.refs, AcceptPc.held, ha] at hk ⊢
    omega
  · next ha =>
    cases h
    have hq : s.accept.queued = false := by rw [ha]; rfl
    have hd := (hun hq).2.1
    refine balanced_unclosed 0 s _ hs hq rfl (balanced_lsock 0 s hs hd (by simp [ha])) ?_
    simp only [Con.refs, AcceptPc.held, ha] at hk ⊢
    omega
  · next ha =>
    cases h
    have hq : s.accept.queued = false := by rw [ha]; rfl
    have hd := (hun hq).2.1
    have hsock := balanced_lsock 0 s hs hd (by simp [ha])
    split
    · apply balanced_put
      refine balanced_unclosed 1 s _ hs hq rfl hsock ?_
      simp only [Con.refs, AcceptPc.held, ha] at hk ⊢
      omega
    · next hp =>
      rw [Bool.not_eq_true] at hp
      refine balanced_unclosed 0 s _ hs hq rfl hsock ?_
      simp only [Con.refs, Work.refs, AcceptPc.held, ha, hp, Bool.toNat_true,
        Bool.toNat_false] at hk ⊢
      omega
  · next ha =>
    cases h
    have hd := balanced_dataReady s hs
    have hacc : (dataReady s).accept = .wake := by
      unfold dataReady
      split <;> exact ha
    refine ⟨hd.closes, hd.once, ?_, hd.freed, ?_, fun _ => rfl, hd.flag, hd.quiet⟩
    · simpa [Con.refs, AcceptPc.held, hacc] using hd.kref
    · simpa [hacc] using hd.sock
  · cases h

theorem balanced_step (s : Con) (a : Act) (t : Con) (hs : Balanced 0 s) (ho : orderly s a = true)
    (h : conStep s a = some t) : Balanced 0 t := by
  cases a with
  | accept => exact balanced_accept s t hs h
  | dataReady =>
    simp only [conStep] at h
    split at h
    · cases h
      exact balanced_dataReady s hs
    · cases h
  | get =>
    simp only [conStep] at h
    split at h
    · next ht =>
      cases h
      exact balanced_get s hs ht
    · cases h
  | queueWork =>
    simp only [conStep] at h
    split at h
    · next hg =>
      cases h
      exact balanced_queueWork s hs hg
    · cases h
  | putBack =>
    simp only [conStep] at h
    split at h
    · next hp =>
      cases h
      exact balanced_putBack s hs hp
    · cases h
  | work e i => exact balanced_work s t e i hs ho h

/- ### The references balance -/

/-- No work is pending or running. -/
def Con.workless (s : Con) : Bool :=
  !s.i2r.pending && s.i2r.pc == .idle && (!s.r2i.pending && s.r2i.pc == .idle)

/-- Nobody is about to queue a work or to drop its reference. -/
def Con.settled (s : Con) : Bool := s.accept.queued && s.got == 0 && s.toPut == 0

/-- The connection is released once it has been closed, and not before its works are done. -/
structure Released (s : Con) : Prop where
  unused : s.released = true → s.workless = true
  freed : 0 < s.drops → s.workless = true → s.settled = true → s.released = true

instance (s : Con) : Decidable (Released s) :=
  decidable_of_iff ((s.released = true → s.workless = true) ∧
      (0 < s.drops → s.workless = true → s.settled = true → s.released = true))
    ⟨fun h => ⟨h.1, h.2⟩, fun h => ⟨h.unused, h.freed⟩⟩

theorem work_refs_eq_zero (w : Work) : w.refs = 0 ↔ (!w.pending && w.pc == .idle) = true := by
  obtain ⟨p, pc⟩ := w
  cases p <;> cases pc <;> simp [Work.refs, Pc.running]

theorem balanced_released (s : Con) (hs : Balanced 0 s) : Released s := by
  have hk := hs.kref
  have honce := hs.once
  have hc := hs.closes
  have hrefs : s.refs = s.i2r.refs + s.r2i.refs + s.got + s.toPut + s.accept.held := rfl
  constructor
  · intro hr
    have h0 := hs.freed.mp hr
    rw [Con.workless, Bool.and_eq_true, ← work_refs_eq_zero, ← work_refs_eq_zero]
    omega
  · intro hd hw hset
    rw [Con.workless, Bool.and_eq_true, ← work_refs_eq_zero, ← work_refs_eq_zero] at hw
    simp only [Con.settled, Bool.and_eq_true, beq_iff_eq] at hset
    have hheld : s.accept.held = 0 := by
      cases ha : s.accept <;> rw [ha] at hset <;> first | rfl | cases hset.1.1
    rw [hs.freed]
    omega

theorem conRun_references_balance (acts : List Act) (s : Con)
    (ho : Lts.Along conStep (fun s a => orderly s a = true) allocated acts)
    (h : Lts.run conStep allocated acts = some s) : Released s :=
  balanced_released s
    (Lts.run_invariant_along (Balanced 0) _ balanced_step allocated s acts balanced_allocated ho h)

/-- The client is accepted, its first data queues `l2r_work`, and that work gets to `cancel`. -/
def clientCloses (before : List Act) : List Act :=
  List.replicate 5 .accept ++ [.get, .queueWork, .work .i2r .tau] ++ before ++
    [.work .i2r .tau, .work .i2r (.ret 0)] ++ List.replicate 6 (.work .i2r .tau)

/-- `r2l_work` is waiting for the flow when the client closes, and ends by its flag. -/
def closedOnce : List Act :=
  clientCloses [.work .r2i .tau, .work .r2i .tau] ++
    [.work .r2i (.ret (-EAGAIN)), .work .r2i .tau, .work .r2i .tau] ++
    List.replicate 4 (.work .i2r .tau)

def closedOnceEnd : Con := (Lts.run conStep allocated closedOnce).getD allocated

theorem closedOnce_balance :
    (closedOnceEnd.drops = 1 ∧ closedOnceEnd.released = true) ∧ Released closedOnceEnd := by
  refine ⟨by decide +kernel, conRun_references_balance closedOnce _ (by decide +kernel) ?_⟩
  exact Lts.run_getD _ _ _ (by decide +kernel)

/-- The flow fails while `l2r_work` waits for `r2l_work`, which then closes the connection too. -/
def closedTwice : List Act :=
  clientCloses [.work .r2i .tau, .work .r2i .tau] ++ [.work .r2i (.ret (-1))] ++
    List.replicate 9 (.work .r2i .tau) ++ List.replicate 2 (.work .i2r .tau)

/-- `r2l_work` has not started when the client closes, and is cancelled with its reference. -/
def cancelPending : List Act := clientCloses [] ++ List.replicate 4 (.work .i2r .tau)

/- In the first run the connection is released under the running `l2r_work`, in the second one it is
closed, has no work left, and is never released. -/
theorem references_unbalanced :
    (∃ s, Lts.run conStep allocated closedTwice = some s ∧ s.released = true ∧
      s.i2r.pc = .test ∧ ¬Released s) ∧
    ∃ s, Lts.run conStep allocated cancelPending = some s ∧ s.drops = 1 ∧ s.workless = true ∧
      s.settled = true ∧ s.released = false ∧ ¬Released s := by
  constructor
  · exact ⟨(Lts.run conStep allocated closedTwice).getD allocated,
      Lts.run_getD _ _ _ (by decide +kernel), by decide +kernel⟩
  · exact ⟨(Lts.run conStep allocated cancelPending).getD allocated,
      Lts.run_getD _ _ _ (by decide +kernel), by decide +kernel⟩

end PepDna.Rina.Refcount
