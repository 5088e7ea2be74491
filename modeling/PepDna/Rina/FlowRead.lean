import PepDna.Lts
import PepDna.Rina.FlowWrite
import PepDna.SockWrite

/-!
# Reading from a RINA flow (rina.c:43-101, 213-250, 411-432, kfa.c:851-1082)

`pepdna_con_r2i_work` waits until the flow is readable, takes one data unit from it and writes it
to the left socket. It waits on `con->flow`, a pointer it holds without being counted as a reader;
the data unit it asks for by port id. The queue of the flow is filled by `kfa_du_post`.

`kfa_flow_deallocate` frees the flow at once, because none of its counters is ever above zero
between two critical sections. `get_du_to_read` leaves a data unit that is longer than asked for in
the queue and returns it all the same. The memory of flow and data units outlives its release;
`uaf` records a use after it. How long a wait sleeps and what the socket answers are inputs.
-/

namespace PepDna.Rina.FlowRead

def MAX_SDU_SIZE : ℕ := 1448

-- `usecs_to_jiffies(FLOW_POLL_TIMEOUT)`, rounded up
def pollJiffies : ℕ := 1

inductive PortState where
  | pending
  | allocated
  | deallocated
  | disabled
  deriving Repr, DecidableEq

structure Du where
  bytes : Bytes
  freed : Bool
  deriving Repr, DecidableEq

/- `fwd` is the loop of `pepdna_con_rina2i_fwd`; `wait` to `finish` are inside
`pepdna_wait_for_sdu`, where `none` stands for `-ERESTARTSYS`. `kept` tells a data unit that is
still in the queue. -/
inductive Pc where
  | idle
  | test
  | fwd
  | wait (timeo : ℕ)
  | sleep (timeo : ℕ)
  | ready (timeo : ℕ)
  | finish (timeo : Option ℕ)
  | read
  | write (kept : Bool) (w : SockWrite)
  | unflag
  | close
  | put
  deriving Repr, DecidableEq

/- `mapped`: the flow is in the map of the KFA, and in memory. `wr`, `posted` and `failed` are
history: the bytes the left socket took, the data units put into the queue, and whether a write to
the socket failed. -/
structure Rx where
  mapped : Bool
  state : PortState
  wqs : Bool
  fifo : List Du
  rflag : Bool
  pending : Bool
  pc : Pc
  wr : Bytes
  posted : List Bytes
  failed : Bool
  uaf : Bool
  deriving Repr, DecidableEq

/-- The flow is allocated and `r2l_work` has been queued. -/
def queued : Rx where
  mapped := true
  state := .allocated
  wqs := true
  fifo := []
  rflag := true
  pending := true
  pc := .idle
  wr := []
  posted := []
  failed := false
  uaf := false

/-- An access through `con->flow`. -/
def Rx.touch (s : Rx) : Rx := { s with uaf := s.uaf || !s.mapped }

def Rx.flowIsOk (s : Rx) : Bool := s.wqs && (s.state == .allocated || s.state == .disabled)

def Rx.queueIsReady (s : Rx) : Bool := !s.flowIsOk || !s.fifo.isEmpty

/-- `pepdna_con_rina2i_fwd` returns to the loop of the work. -/
def Rx.ret (s : Rx) (rc : Int) : Rx :=
  { s with pc := if 0 < rc ∨ rc = -EAGAIN then .test else .unflag }

/-- `kfa_flow_du_read` without blocking, up to the first `kernel_sendmsg`. -/
def Rx.duRead (s : Rx) : Rx :=
  if s.mapped = false then s.ret (-EBADF)
  else if s.state = .deallocated then s.ret (-ESHUTDOWN)
  else if s.state = .pending then s.ret (-EAGAIN)
  else
    match s.fifo with
    | [] => s.ret (-EAGAIN)
    | du :: rest =>
      if du.bytes.length ≤ MAX_SDU_SIZE then
        let s := { s with fifo := rest, uaf := s.uaf || du.freed }
        if du.bytes = [] then s.ret 0
        else { s with pc := .write false (SockWrite.start du.bytes) }
      else { s with uaf := s.uaf || du.freed, pc := .write true (SockWrite.start du.bytes) }

/-- `du_destroy` on what was read. -/
def Rx.duDestroy (s : Rx) (kept : Bool) : Rx :=
  match kept, s.fifo with
  | true, du :: rest => { s with fifo := { du with freed := true } :: rest }
  | _, _ => s

/-- One `kernel_sendmsg` and what follows it. -/
def Rx.sendmsg (s : Rx) (kept : Bool) (w : SockWrite) (rc : Int) : Rx :=
  let s := { s with wr := s.wr ++ w.accepted rc, uaf := s.uaf || (kept && !s.mapped) }
  match pepdnaSockWriteIter w rc with
  | .again w' => { s with pc := .write kept w' }
  | .ret v =>
    { (s.duDestroy kept).ret (if v < 0 then -1 else (w.done ++ w.rest).length) with
      failed := s.failed || decide (v < 0) }

inductive In where
  | tau
  | wake (timeo : ℕ)
  | signal
  | sendmsg (rc : Int)
  deriving Repr, DecidableEq

/-- One step of `pepdna_con_r2i_work`. -/
def r2iWork (s : Rx) (i : In) : Option Rx :=
  match s.pc, i with
  | .idle, .tau => if s.pending then some { s with pending := false, pc := .test } else none
  | .test, .tau => some { s with pc := if s.rflag then .fwd else .put }
  -- the loop ends also because `rflag` has been cleared, and then reads
  | .fwd, .tau => some { s with pc := if s.rflag then .wait pollJiffies else .read }
  | .wait timeo, .tau =>
    some (if s.flowIsOk then
      { s.touch with pc := if timeo ≠ 0 ∧ s.fifo = [] then .sleep timeo else .ready timeo }
    else s.touch.ret (-1))
  | .sleep timeo, .wake left => if left ≤ timeo then some { s with pc := .ready left } else none
  | .ready timeo, .tau =>
    some { s.touch with
      pc := if timeo = 0 ∨ s.queueIsReady then .finish (some timeo) else .wait timeo }
  | .ready timeo, .signal =>
    if timeo = 0 ∨ s.queueIsReady then none else some { s.touch with pc := .finish none }
  | .finish timeo, .tau =>
    some (if s.flowIsOk then
      match timeo with
      | none => s.touch.ret (-1)
      | some 0 => { s.touch with pc := .fwd }
      | some (_ + 1) => { s.touch with pc := .read }
    else s.touch.ret (-1))
  | .read, .tau => some s.duRead
  | .write kept w, .sendmsg rc =>
    if rc ≤ w.rest.length then some (s.sendmsg kept w rc) else none
  | .unflag, .tau => some { s with rflag := false, pc := .close }
  | .close, .tau => some { s with pc := .test }
  | .put, .tau => some { s with pc := .idle }
  | _, _ => none

def kfaDuPost (s : Rx) (bs : Bytes) : Rx :=
  if s.mapped = true ∧ s.state ≠ .deallocated then
    { s with fifo := s.fifo ++ [⟨bs, false⟩], posted := s.posted ++ [bs] }
  else s

def kfaFlowDeallocate (s : Rx) : Rx :=
  if s.mapped then { s with mapped := false, state := .deallocated, fifo := [] } else s

inductive Act where
  | work (i : In)
  | post (bs : Bytes)
  | deallocate
  | disable
  | enable
  -- `pepdna_con_close` of the other work
  | hangup
  deriving Repr, DecidableEq

def rxStep (s : Rx) : Act → Option Rx
  | .work i => r2iWork s i
  | .post bs => some (kfaDuPost s bs)
  | .deallocate => some (kfaFlowDeallocate s)
  | .disable =>
    some (if s.mapped = true ∧ s.state ≠ .deallocated then { s with state := .disabled } else s)
  | .enable =>
    some (if s.mapped = true ∧ s.state = .disabled then { s with state := .allocated } else s)
  | .hangup => some { s with rflag := false, uaf := s.uaf || (s.rflag && !s.mapped) }

/- ### What is written -/

/-- The bytes of the data unit at hand that have not been written. -/
def unwritten : Pc → Bytes
  | .write _ w => w.rest
  | _ => []

def Rx.waiting (s : Rx) : Bytes := (s.fifo.map Du.bytes).flatten

/-- The work is past the failed write and will not read again. -/
def Stopping (s : Rx) : Prop :=
  s.pc = .unflag ∨ (s.rflag = false ∧ s.pc ∈ [.close, .test, .put, .idle])

structure Inv (s : Rx) : Prop where
  small : ∀ du ∈ s.fifo, du.bytes.length ≤ MAX_SDU_SIZE ∧ du.freed = false
  unkept : ∀ w, s.pc ≠ .write true w
  rest : ∀ kept w, s.pc = .write kept w → w.rest ≠ []
  intact : s.mapped = true → s.uaf = false
  pre : s.wr ++ unwritten s.pc <+: s.posted.flatten
  even : s.failed = false → s.mapped = true →
    s.posted.flatten = s.wr ++ unwritten s.pc ++ s.waiting
  stop : s.failed = true → Stopping s

theorem inv_queued : Inv queued := by
  refine ⟨fun du hd => ?_, fun w hw => ?_, fun kept w hw => ?_, fun _ => rfl, List.prefix_rfl,
    fun _ _ => rfl, fun h => ?_⟩
  · exact absurd hd List.not_mem_nil
  · cases hw
  · cases hw
  · cases h

def Pc.holds : Pc → Bool
  | .write _ _ => true
  | _ => false

theorem unwritten_of_not_holds (pc : Pc) (h : pc.holds = false) : unwritten pc = [] := by
  cases pc with
  | write kept w => cases h
  | _ => rfl

theorem ne_write_of_not_holds (pc : Pc) (h : pc.holds = false) (kept : Bool) (w : SockWrite) :
    pc ≠ .write kept w := by
  rintro rfl
  cases h

theorem not_stopping (s : Rx) (hs : Inv s) (hpc : ¬ Stopping s) : s.failed = false := by
  cases hf : s.failed with
  | false => rfl
  | true => exact absurd (hs.stop hf) hpc

/- What the data part of the invariant speaks of. -/
def Rx.store (s : Rx) := (s.mapped, s.fifo, s.wr, s.posted, s.failed)

/- The work moves between two positions at which it holds no data unit. -/
theorem inv_move (s s' : Rx) (hs : Inv s) (hstore : s'.store = s.store)
    (hpc : s.pc.holds = false) (hpc' : s'.pc.holds = false)
    (huaf : s.mapped = true → s.uaf = false → s'.uaf = false)
    (hstop : s.failed = true → Stopping s → Stopping s') : Inv s' := by
  simp only [Rx.store, Prod.mk.injEq] at hstore
  obtain ⟨hm, hf, hw, hp, hx⟩ := hstore
  have hu := unwritten_of_not_holds s.pc hpc
  have hu' := unwritten_of_not_holds s'.pc hpc'
  have hpre := hs.pre
  have heven := hs.even
  rw [hu] at hpre heven
  refine ⟨?_, fun w => ne_write_of_not_holds _ hpc' true w,
    fun kept w h => absurd h (ne_write_of_not_holds _ hpc' kept w), ?_, ?_, ?_, ?_⟩
  · rw [hf]
    exact hs.small
  · rw [hm]
    exact fun h => huaf h (hs.intact h)
  · rw [hw, hp, hu']
    exact hpre
  · rw [hx, hm, hw, hp, hu', Rx.waiting, hf]
    exact heven
  · rw [hx]
    exact fun h => hstop h (hs.stop h)

theorem ret_holds (s : Rx) (rc : Int) : (s.ret rc).pc.holds = false := by
  unfold Rx.ret
  dsimp only
  split <;> rfl

/- A call that returns without a data unit, from a position at which no write has failed. -/
theorem inv_ret (s : Rx) (rc : Int) (hs : Inv s) (hpc : s.pc.holds = false)
    (hn : ¬ Stopping s) : Inv (s.ret rc) :=
  inv_move s _ hs rfl hpc (ret_holds s rc) (fun _ h => h)
    fun hf _ => absurd (hs.stop hf) hn

theorem inv_touch (s : Rx) (hs : Inv s) : Inv s.touch := by
  refine ⟨hs.small, hs.unkept, hs.rest, fun h => ?_, hs.pre, hs.even, hs.stop⟩
  have hm : s.mapped = true := h
  simp only [Rx.touch, hs.intact hm, hm, Bool.not_true, Bool.or_false]

theorem inv_jump (s : Rx) (pc : Pc) (hs : Inv s) (hpc : s.pc.holds = false)
    (hn : ¬ Stopping s) (hpc' : pc.holds = false) : Inv { s with pc := pc } :=
  inv_move s _ hs rfl hpc hpc' (fun _ h => h) fun hf _ => absurd (hs.stop hf) hn

/- The next data unit is taken off the queue, and the work holds it. -/
theorem inv_take (s : Rx) (du : Du) (rest : List Du) (pc : Pc) (hs : Inv s)
    (hpc : s.pc.holds = false) (hn : s.failed = false) (hm : s.mapped = true)
    (hf : s.fifo = du :: rest) (hu : unwritten pc = du.bytes) (hk : ∀ w, pc ≠ .write true w)
    (hr : ∀ kept w, pc = .write kept w → w.rest ≠ []) :
    Inv { s with fifo := rest, uaf := s.uaf || du.freed, pc := pc } := by
  have heven := hs.even hn hm
  have hsmall := hs.small
  rw [hf] at hsmall
  obtain ⟨hdu, hrest⟩ := List.forall_mem_cons.mp hsmall
  have hwait : s.waiting = unwritten pc ++ (rest.map Du.bytes).flatten := by
    rw [Rx.waiting, hf, List.map_cons, List.flatten_cons, hu]
  rw [unwritten_of_not_holds s.pc hpc, List.append_nil, hwait, ← List.append_assoc] at heven
  refine ⟨hrest, hk, hr, fun _ => ?_, ⟨_, heven.symm⟩, fun _ _ => heven, fun h => ?_⟩
  · rw [hs.intact hm, hdu.2]
    rfl
  · rw [hn] at h
    cases h

theorem inv_duRead (s : Rx) (hs : Inv s) (hpc : s.pc = .read) : Inv s.duRead := by
  have hn : ¬ Stopping s := by simp [Stopping, hpc]
  have hh : s.pc.holds = false := by rw [hpc]; rfl
  unfold Rx.duRead
  split
  · exact inv_ret s _ hs hh hn
  · next hm =>
    rw [Bool.not_eq_false] at hm
    split
    · exact inv_ret s _ hs hh hn
    · split
      · exact inv_ret s _ hs hh hn
      · split
        · exact inv_ret s _ hs hh hn
        · next du rest hf =>
          have hlen := (hs.small du (by rw [hf]; exact List.mem_cons_self)).1
          have hfail := not_stopping s hs hn
          rw [if_pos hlen]
          dsimp only
          split
          · next hnil =>
            have hdrop := inv_take s du rest s.pc hs hh hfail hm hf
              ((unwritten_of_not_holds _ hh).trans hnil.symm) hs.unkept hs.rest
            refine inv_ret _ 0 hdrop hh ?_
            simp [Stopping, hpc]
          · next hne =>
            refine inv_take s du rest _ hs hh hfail hm hf rfl (fun w h => (nomatch h)) ?_
            intro kept w h
            obtain ⟨-, rfl⟩ := Pc.write.inj h
            exact hne

/- ### The writing -/

theorem inv_sendmsg (s : Rx) (w : SockWrite) (rc : Int) (hs : Inv s) (hpc : s.pc = .write false w) :
    Inv (s.sendmsg false w rc) := by
  have hn : s.failed = false := not_stopping s hs (by simp [Stopping, hpc])
  have hne := hs.rest false w hpc
  have hpre := hs.pre
  have heven := hs.even hn
  rw [hpc, unwritten] at hpre heven
  unfold Rx.sendmsg
  simp only [Bool.false_and, Bool.or_false]
  cases hit : pepdnaSockWriteIter w rc with
  | again w' =>
    obtain ⟨-, hrest, hne'⟩ := iter_again w w' rc hit hne
    have hall : s.wr ++ w.accepted rc ++ w'.rest = s.wr ++ w.rest := by
      rw [List.append_assoc, hrest]
    refine ⟨hs.small, fun _ h => (nomatch h), fun kept v h => ?_, hs.intact, ?_, fun _ hm => ?_,
      fun h => ?_⟩
    · obtain ⟨-, rfl⟩ := Pc.write.inj h
      exact hne'
    · rw [unwritten, hall]
      exact hpre
    · rw [unwritten, hall]
      exact heven hm
    · rw [hn] at h
      cases h
  | ret v =>
    have hdes : ({ s with wr := s.wr ++ w.accepted rc } : Rx).duDestroy false =
        { s with wr := s.wr ++ w.accepted rc } := rfl
    dsimp only
    rw [hdes]
    by_cases hv : v < 0
    · -- nothing of the last piece was taken; the work goes on to close
      have hacc := iter_ret_neg w rc v hit hv
      have hret : ({ s with wr := s.wr ++ w.accepted rc } : Rx).ret
          (if v < 0 then -1 else ((w.done ++ w.rest).length : Int)) =
            { s with wr := s.wr, pc := .unflag } := by
        rw [if_pos hv, hacc, List.append_nil]
        rfl
      rw [hret]
      refine ⟨hs.small, ne_write_of_not_holds .unflag rfl true,
        fun kept u h => absurd h (ne_write_of_not_holds .unflag rfl kept u), hs.intact, ?_,
        fun h _ => ?_, fun _ => .inl rfl⟩
      · change s.wr ++ [] <+: s.posted.flatten
        rw [List.append_nil]
        exact (List.prefix_append _ _).trans hpre
      · simp [hv] at h
    · have hacc := (iter_ret_nonneg w rc v hit (by omega)).1
      have hpos : 0 < (w.done ++ w.rest).length := by
        have := List.length_pos_of_ne_nil hne
        rw [List.length_append]
        omega
      have hret : ({ s with wr := s.wr ++ w.accepted rc } : Rx).ret
          (if v < 0 then -1 else ((w.done ++ w.rest).length : Int)) =
            { s with wr := s.wr ++ w.rest, pc := .test } := by
        rw [if_neg hv, hacc, Rx.ret, if_pos (.inl (by omega))]
      rw [hret]
      refine ⟨hs.small, ne_write_of_not_holds .test rfl true,
        fun kept u h => absurd h (ne_write_of_not_holds .test rfl kept u), hs.intact, ?_,
        fun _ hm => ?_, fun h => ?_⟩
      · change s.wr ++ w.rest ++ [] <+: s.posted.flatten
        rw [List.append_nil]
        exact hpre
      · change s.posted.flatten = s.wr ++ w.rest ++ [] ++ s.waiting
        rw [List.append_nil]
        exact heven hm
      · simp [hn, hv] at h

/- ### Runs -/

theorem inv_work (s s' : Rx) (i : In) (hs : Inv s) (h : r2iWork s i = some s') : Inv s' := by
  unfold r2iWork at h
  split at h
  · next hpc =>
    split at h
    · cases h
      refine inv_move s _ hs rfl (by rw [hpc]; rfl) rfl (fun _ h => h) fun _ hst => .inr ⟨?_, by simp⟩
      rcases hst with hst | hst
      · rw [hpc] at hst
        cases hst
      · exact hst.1
    · cases h
  · next hpc =>
    cases h
    refine inv_move s _ hs rfl (by rw [hpc]; rfl) (by dsimp only; split <;> rfl) (fun _ h => h)
      fun _ hst => ?_
    rcases hst with hst | ⟨hr, -⟩
    · rw [hpc] at hst
      cases hst
    · exact .inr ⟨hr, by simp [hr]⟩
  · next hpc =>
    cases h
    exact inv_jump s _ hs (by rw [hpc]; rfl) (by simp [Stopping, hpc]) (by split <;> rfl)
  · next timeo hpc =>
    cases h
    have ht := inv_touch s hs
    split
    · exact inv_jump s.touch _ ht (by rw [Rx.touch, hpc]; rfl) (by simp [Stopping, Rx.touch, hpc])
        (by split <;> rfl)
    · exact inv_ret s.touch _ ht (by rw [Rx.touch, hpc]; rfl) (by simp [Stopping, Rx.touch, hpc])
  · next timeo left hpc =>
    split at h
    · cases h
      exact inv_jump s _ hs (by rw [hpc]; rfl) (by simp [Stopping, hpc]) rfl
    · cases h
  · next timeo hpc =>
    cases h
    exact inv_jump s.touch _ (inv_touch s hs) (by rw [Rx.touch, hpc]; rfl)
      (by simp [Stopping, Rx.touch, hpc]) (by split <;> rfl)
  · next timeo hpc =>
    split at h
    · cases h
    · cases h
      exact inv_jump s.touch _ (inv_touch s hs) (by rw [Rx.touch, hpc]; rfl)
        (by simp [Stopping, Rx.touch, hpc]) rfl
  · next timeo hpc =>
    cases h
    have ht := inv_touch s hs
    have hh : s.touch.pc.holds = false := by rw [Rx.touch, hpc]; rfl
    have hn : ¬ Stopping s.touch := by simp [Stopping, Rx.touch, hpc]
    split
    · split
      · exact inv_ret s.touch _ ht hh hn
      · exact inv_jump s.touch _ ht hh hn rfl
      · exact inv_jump s.touch _ ht hh hn rfl
    · exact inv_ret s.touch _ ht hh hn
  · next hpc =>
    cases h
    exact inv_duRead s hs hpc
  · next kept w rc hpc =>
    split at h
    · cases h
      cases kept with
      | true => exact absurd hpc (hs.unkept w)
      | false => exact inv_sendmsg s w rc hs hpc
    · cases h
  · next hpc =>
    cases h
    exact inv_move s _ hs rfl (by rw [hpc]; rfl) rfl (fun _ h => h) fun _ _ => .inr ⟨rfl, by simp⟩
  · next hpc =>
    cases h
    refine inv_move s _ hs rfl (by rw [hpc]; rfl) rfl (fun _ h => h) fun _ hst => .inr ⟨?_, by simp⟩
    rcases hst with hst | hst
    · rw [hpc] at hst
      cases hst
    · exact hst.1
  · next hpc =>
    cases h
    refine inv_move s _ hs rfl (by rw [hpc]; rfl) rfl (fun _ h => h) fun _ hst => .inr ⟨?_, by simp⟩
    rcases hst with hst | hst
    · rw [hpc] at hst
      cases hst
    · exact hst.1
  · cases h

/-- Every data unit posted is at most what the work asks for. -/
def SmallPost : Act → Prop
  | .post bs => bs.length ≤ MAX_SDU_SIZE
  | _ => True

instance : DecidablePred SmallPost
  | .post bs => inferInstanceAs (Decidable (bs.length ≤ MAX_SDU_SIZE))
  | .work _ => isTrue trivial
  | .deallocate => isTrue trivial
  | .disable => isTrue trivial
  | .enable => isTrue trivial
  | .hangup => isTrue trivial

theorem inv_post (s : Rx) (bs : Bytes) (hs : Inv s) (hb : bs.length ≤ MAX_SDU_SIZE) :
    Inv (kfaDuPost s bs) := by
  unfold kfaDuPost
  split
  · have hflat : (s.posted ++ [bs]).flatten = s.posted.flatten ++ bs := by
      rw [List.flatten_append, List.flatten_singleton]
    have hwait : ((s.fifo ++ [(⟨bs, false⟩ : Du)]).map Du.bytes).flatten = s.waiting ++ bs := by
      rw [List.map_append, List.flatten_append, List.map_singleton, List.flatten_singleton]
      rfl
    refine ⟨?_, hs.unkept, hs.rest, hs.intact, ?_, fun hf hm => ?_, hs.stop⟩
    · rw [List.forall_mem_append]
      refine ⟨hs.small, fun du hd => ?_⟩
      rw [List.mem_singleton.mp hd]
      exact ⟨hb, rfl⟩
    · rw [hflat]
      exact hs.pre.trans (List.prefix_append _ _)
    · change (s.posted ++ [bs]).flatten = s.wr ++ unwritten s.pc ++
        ((s.fifo ++ [(⟨bs, false⟩ : Du)]).map Du.bytes).flatten
      rw [hflat, hs.even hf hm, hwait, List.append_assoc]
  · exact hs

theorem inv_deallocate (s : Rx) (hs : Inv s) : Inv (kfaFlowDeallocate s) := by
  unfold kfaFlowDeallocate
  split
  · exact ⟨fun du hd => absurd hd List.not_mem_nil, hs.unkept, hs.rest, fun h => (nomatch h), hs.pre,
      fun _ h => (nomatch h), hs.stop⟩
  · exact hs

theorem inv_step (s : Rx) (a : Act) (s' : Rx) (hs : Inv s) (ha : SmallPost a)
    (h : rxStep s a = some s') : Inv s' := by
  cases a with
  | work i => exact inv_work s s' i hs h
  | post bs =>
    cases h
    exact inv_post s bs hs ha
  | deallocate =>
    cases h
    exact inv_deallocate s hs
  | disable =>
    cases h
    split
    · exact ⟨hs.small, hs.unkept, hs.rest, hs.intact, hs.pre, hs.even, hs.stop⟩
    · exact hs
  | enable =>
    cases h
    split
    · exact ⟨hs.small, hs.unkept, hs.rest, hs.intact, hs.pre, hs.even, hs.stop⟩
    · exact hs
  | hangup =>
    cases h
    refine ⟨hs.small, hs.unkept, hs.rest, fun hm => ?_, hs.pre, hs.even, fun hf => ?_⟩
    · have hm' : s.mapped = true := hm
      simp [hs.intact hm', hm']
    · rcases hs.stop hf with hpc | ⟨-, hpc⟩
      · exact .inl hpc
      · exact .inr ⟨rfl, hpc⟩

theorem inv_run (acts : List Act) (s : Rx) (hr : Lts.run rxStep queued acts = some s)
    (hsmall : ∀ a ∈ acts, SmallPost a) : Inv s :=
  Lts.run_invariant_along Inv (fun _ a => SmallPost a) (fun s a t hs ha ht => inv_step s a t hs ha ht)
    queued s acts inv_queued (Lts.along_of_forall SmallPost queued acts hsmall) hr

theorem r2iRun_written (acts : List Act) (s : Rx) (hr : Lts.run rxStep queued acts = some s)
    (hsmall : ∀ a ∈ acts, SmallPost a) :
    s.wr <+: s.posted.flatten ∧
      (s.mapped = true → s.uaf = false ∧
        (s.failed = false → s.posted.flatten = s.wr ++ unwritten s.pc ++ s.waiting)) := by
  have hs := inv_run acts s hr hsmall
  exact ⟨(List.prefix_append _ _).trans hs.pre, fun hm => ⟨hs.intact hm, fun hf => hs.even hf hm⟩⟩

def twoUnits : List Act :=
  [.post [1, 2], .work .tau, .work .tau, .work .tau, .work .tau, .work .tau, .work .tau, .work .tau,
    .post [3], .work (.sendmsg 1), .work (.sendmsg 1)]

def twoUnitsRx : Rx := (Lts.run rxStep queued twoUnits).getD queued

theorem twoUnits_written :
    twoUnitsRx.wr <+: twoUnitsRx.posted.flatten ∧
      (twoUnitsRx.mapped = true → twoUnitsRx.uaf = false ∧
        (twoUnitsRx.failed = false →
          twoUnitsRx.posted.flatten = twoUnitsRx.wr ++ unwritten twoUnitsRx.pc ++
            twoUnitsRx.waiting)) :=
  r2iRun_written twoUnits twoUnitsRx (Lts.run_getD _ _ _ (by decide +kernel)) (by decide +kernel)

/- ### A flow deallocated under the waiting work -/

def Pc.waits : Pc → Bool
  | .wait _ => true
  | .sleep _ => true
  | .ready _ => true
  | .finish _ => true
  | _ => false

/-- The flow is gone, and the work still has to look at it or has done so. -/
def Caught (s : Rx) : Prop := s.mapped = false ∧ (s.uaf = true ∨ s.pc.waits = true)

theorem caught_touch (s s' : Rx) (hs : Caught s) (hm : s'.mapped = s.mapped)
    (hu : s'.uaf = s.touch.uaf) : Caught s' := by
  refine ⟨hm.trans hs.1, .inl ?_⟩
  rw [hu, Rx.touch, hs.1]
  exact Bool.or_true _

theorem caught_uaf (s s' : Rx) (hs : Caught s) (hm : s'.mapped = s.mapped)
    (hpc : s.pc.waits = false) (hu : s.uaf = true → s'.uaf = true) : Caught s' := by
  refine ⟨hm.trans hs.1, .inl (hu ?_)⟩
  rcases hs.2 with h | h
  · exact h
  · rw [hpc] at h
    cases h

theorem duDestroy_part (s : Rx) (kept : Bool) :
    (s.duDestroy kept).mapped = s.mapped ∧ (s.duDestroy kept).uaf = s.uaf := by
  unfold Rx.duDestroy
  split <;> exact ⟨rfl, rfl⟩

theorem sendmsg_part (s : Rx) (kept : Bool) (w : SockWrite) (rc : Int) :
    (s.sendmsg kept w rc).mapped = s.mapped ∧
      (s.uaf = true → (s.sendmsg kept w rc).uaf = true) := by
  unfold Rx.sendmsg
  dsimp only
  split
  · exact ⟨rfl, fun h => by rw [h]; rfl⟩
  · obtain ⟨hm, hu⟩ := duDestroy_part
      { s with wr := s.wr ++ w.accepted rc, uaf := s.uaf || (kept && !s.mapped) } kept
    exact ⟨hm, fun h => hu.trans (by rw [h]; rfl)⟩

theorem caught_work (s s' : Rx) (i : In) (hs : Caught s) (h : r2iWork s i = some s') :
    Caught s' := by
  have hkeep (t : Rx) (hm : t.mapped = s.mapped) (hpc : s.pc.waits = false)
      (hu : s.uaf = true → t.uaf = true) : Caught t := caught_uaf s t hs hm hpc hu
  unfold r2iWork at h
  split at h
  · next hpc =>
    split at h
    · cases h
      exact hkeep _ rfl (by rw [hpc]; rfl) id
    · cases h
  · next hpc =>
    cases h
    exact hkeep _ rfl (by rw [hpc]; rfl) id
  · next hpc =>
    cases h
    exact hkeep _ rfl (by rw [hpc]; rfl) id
  · cases h
    split <;> exact caught_touch s _ hs rfl rfl
  · split at h
    · cases h
      exact ⟨hs.1, .inr rfl⟩
    · cases h
  · cases h
    exact caught_touch s _ hs rfl rfl
  · split at h
    · cases h
    · cases h
      exact caught_touch s _ hs rfl rfl
  · cases h
    split
    · split <;> exact caught_touch s _ hs rfl rfl
    · exact caught_touch s _ hs rfl rfl
  · next hpc =>
    cases h
    have hret : s.duRead = s.ret (-EBADF) := by rw [Rx.duRead, if_pos hs.1]
    rw [hret]
    exact hkeep _ rfl (by rw [hpc]; rfl) id
  · next kept w rc hpc =>
    split at h
    · cases h
      obtain ⟨hm, hu⟩ := sendmsg_part s kept w rc
      exact hkeep _ hm (by rw [hpc]; rfl) hu
    · cases h
  · next hpc =>
    cases h
    exact hkeep _ rfl (by rw [hpc]; rfl) id
  · next hpc =>
    cases h
    exact hkeep _ rfl (by rw [hpc]; rfl) id
  · next hpc =>
    cases h
    exact hkeep _ rfl (by rw [hpc]; rfl) id
  · cases h

theorem caught_step (s : Rx) (a : Act) (s' : Rx) (hs : Caught s) (h : rxStep s a = some s') :
    Caught s' := by
  have hgone : ¬ s.mapped = true := by rw [hs.1]; exact Bool.false_ne_true
  cases a with
  | work i => exact caught_work s s' i hs h
  | post bs =>
    cases h
    rw [kfaDuPost, if_neg fun h => hgone h.1]
    exact hs
  | deallocate =>
    cases h
    rw [kfaFlowDeallocate, if_neg hgone]
    exact hs
  | disable =>
    cases h
    rw [if_neg fun h => hgone h.1]
    exact hs
  | enable =>
    cases h
    rw [if_neg fun h => hgone h.1]
    exact hs
  | hangup =>
    cases h
    refine ⟨hs.1, ?_⟩
    rcases hs.2 with hu | hw
    · exact .inl (by rw [hu]; rfl)
    · exact .inr hw

/- Whatever happens next, the work does not leave `pepdna_wait_for_sdu` without a look at the freed
flow. -/
theorem r2iRun_deallocated_waiting (acts : List Act) (s t : Rx) (hw : s.pc.waits = true)
    (hr : Lts.run rxStep s (.deallocate :: acts) = some t) :
    t.uaf = true ∨ t.pc.waits = true := by
  obtain ⟨u, hu, hr⟩ := (Lts.run_cons_eq_some s t .deallocate acts).mp hr
  have hcaught : Caught u := by
    obtain rfl : kfaFlowDeallocate s = u := Option.some.inj hu
    unfold kfaFlowDeallocate
    split
    · exact ⟨rfl, .inr hw⟩
    · next hm => exact ⟨Bool.eq_false_iff.mpr hm, .inr hw⟩
  exact (Lts.run_invariant Caught caught_step u t acts hcaught hr).2

def polling : List Act := [.work .tau, .work .tau, .work .tau, .work .tau]

def pollingRx : Rx := (Lts.run rxStep queued polling).getD queued

def awake : List Act := [.work (.wake 0), .work .tau, .work .tau]

def awakeRx : Rx := (Lts.run rxStep pollingRx (.deallocate :: awake)).getD queued

theorem polling_deallocated : awakeRx.uaf = true ∨ awakeRx.pc.waits = true :=
  r2iRun_deallocated_waiting awake pollingRx awakeRx (by decide +kernel)
    (Lts.run_getD _ _ _ (by decide +kernel))

end PepDna.Rina.FlowRead
