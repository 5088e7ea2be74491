import PepDna.Tcp.Machine

/-!
# The reference count of a TCP2TCP connection

A reference is held by a pending work, by a running work and by a callback
between its `pepdna_con_get` and the queueing of the work. A call of
`pepdna_con_i2i_fwd` that returns `0` or an error other than `-EAGAIN` is
followed by `pepdna_con_close`, and every `pepdna_con_close` drops the reference
of `kref_init`.
-/

namespace PepDna.Tcp

def Pc.running : Pc → ℕ
  | .idle => 0
  | _ => 1

def Pc.closing : Pc → ℕ
  | .idle => 0
  | .test => 0
  | .fwd => 0
  | .write _ => 0
  | .put => 0
  | _ => 1

def Half.refs (h : Half) : ℕ := (if h.pending then 1 else 0) + h.pc.running + h.got + h.toPut

def Con.refs (s : Con) : ℕ := s.l.refs + s.r.refs

def Con.closing (s : Con) : ℕ := s.l.pc.closing + s.r.pc.closing

/-- The work closes the connection after this call. -/
def Call.closes (c : Call) : Bool := decide (c.rc ≤ 0 ∧ c.rc ≠ -EAGAIN)

def Half.closes (h : Half) : ℕ := h.calls.countP Call.closes

def Con.closes (s : Con) : ℕ := s.l.closes + s.r.closes

/- Every close is a drop that was made or is under way, and until the second drop the count is
exact. -/
structure Counted (s : Con) : Prop where
  closes : s.drops + s.closing = s.closes
  kref : s.drops ≤ 1 → s.kref + s.drops = 1 + s.refs

theorem counted_accepted : Counted accepted := ⟨rfl, fun _ => rfl⟩

theorem refs_set (s : Con) (e : End) (h : Half) :
    (s.set e h).refs + (s.get e).refs = s.refs + h.refs := by
  cases e <;> simp only [Con.set, Con.get, Con.refs] <;> omega

theorem closing_set (s : Con) (e : End) (h : Half) :
    (s.set e h).closing + (s.get e).pc.closing = s.closing + h.pc.closing := by
  cases e <;> simp only [Con.set, Con.get, Con.closing] <;> omega

theorem closes_set (s : Con) (e : End) (h : Half) :
    (s.set e h).closes + (s.get e).closes = s.closes + h.closes := by
  cases e <;> simp only [Con.set, Con.get, Con.closes] <;> omega

theorem set_kref (s : Con) (e : End) (h : Half) : (s.set e h).kref = s.kref := by cases e <;> rfl
theorem set_drops (s : Con) (e : End) (h : Half) : (s.set e h).drops = s.drops := by cases e <;> rfl

/-- A step of one end that neither takes nor drops a reference. -/
theorem counted_set (s : Con) (e : End) (h : Half) (hs : Counted s) (hr : h.refs = (s.get e).refs)
    (hc : h.pc.closing + (s.get e).closes = (s.get e).pc.closing + h.closes) :
    Counted (s.set e h) := by
  have h1 := refs_set s e h
  have h2 := closing_set s e h
  have h3 := closes_set s e h
  have hk := hs.kref
  have hcl := hs.closes
  constructor
  · rw [set_drops]
    omega
  · rw [set_kref, set_drops]
    omega

theorem put_kref (s : Con) : (pepdnaConPut s).kref = s.kref - 1 := by
  unfold pepdnaConPut pepdnaConKrefRelease
  split
  · omega
  · split
    · simp only
      omega
    · rfl

theorem put_drops (s : Con) : (pepdnaConPut s).drops = s.drops := by
  unfold pepdnaConPut pepdnaConKrefRelease
  split
  · rfl
  · split <;> rfl

/-- `pepdna_con_put` touches nothing but the two sockets of an end. -/
theorem put_get (s : Con) (e : End) :
    (pepdnaConPut s).get e = { s.get e with
      sock := ((pepdnaConPut s).get e).sock, shut := ((pepdnaConPut s).get e).shut } := by
  unfold pepdnaConPut pepdnaConKrefRelease
  split
  · rfl
  · split
    · cases e <;> rfl
    · cases e <;> rfl

theorem put_refs (s : Con) : (pepdnaConPut s).refs = s.refs := by
  have hl := put_get s .l
  have hr := put_get s .r
  simp only [Con.get] at hl hr
  rw [Con.refs, hl, hr]
  rfl

theorem put_closing (s : Con) : (pepdnaConPut s).closing = s.closing := by
  have hl := put_get s .l
  have hr := put_get s .r
  simp only [Con.get] at hl hr
  rw [Con.closing, hl, hr]
  rfl

theorem put_closes (s : Con) : (pepdnaConPut s).closes = s.closes := by
  have hl := put_get s .l
  have hr := put_get s .r
  simp only [Con.get] at hl hr
  rw [Con.closes, hl, hr]
  rfl

/-- The end `e` gives up one reference and drops it. -/
theorem counted_put (s : Con) (e : End) (h : Half) (hs : Counted s)
    (hr : h.refs + 1 = (s.get e).refs)
    (hc : h.pc.closing + (s.get e).closes = (s.get e).pc.closing + h.closes) :
    Counted (pepdnaConPut (s.set e h)) := by
  have h1 := refs_set s e h
  have h2 := closing_set s e h
  have h3 := closes_set s e h
  have hk := hs.kref
  have hcl := hs.closes
  constructor
  · rw [put_drops, put_closing, put_closes, set_drops]
    omega
  · rw [put_kref, put_drops, put_refs, set_kref, set_drops]
    omega

theorem ret_running (h : Half) (read written : Bytes) (rc : Int) :
    (h.ret read written rc).pc.running = 1 := by
  unfold Half.ret
  dsimp only
  split
  · rfl
  · split <;> rfl

/-- The work goes on with closing exactly after a call that closes. -/
theorem ret_closing (h : Half) (read written : Bytes) (rc : Int) :
    (h.ret read written rc).closes = h.closes + (h.ret read written rc).pc.closing := by
  unfold Half.ret Half.closes
  dsimp only
  rw [List.countP_append, List.countP_singleton]
  by_cases hpos : 0 < rc
  · have hn : ¬rc ≤ 0 := by omega
    simp [hpos, Call.closes, hn, Pc.closing]
  · have hle : rc ≤ 0 := by omega
    by_cases hag : rc = -EAGAIN
    · simp [hag, Call.closes, Pc.closing, EAGAIN]
    · simp [hpos, hag, Call.closes, hle, Pc.closing]

theorem counted_ret (s : Con) (e : End) (h : Half) (read written : Bytes) (rc : Int)
    (hs : Counted s) (hrun : (s.get e).pc.running = 1) (hpc : (s.get e).pc.closing = 0)
    (hh : (h.pending, h.got, h.toPut, h.calls) =
      ((s.get e).pending, (s.get e).got, (s.get e).toPut, (s.get e).calls)) :
    Counted (s.set e (h.ret read written rc)) := by
  simp only [Prod.mk.injEq] at hh
  obtain ⟨hp, hg, ht, hc⟩ := hh
  apply counted_set s e _ hs
  · rw [Half.refs, Half.refs, ret_running, hrun]
    simp only [Half.ret, hp, hg, ht]
  · have hcl : h.closes = (s.get e).closes := by rw [Half.closes, Half.closes, hc]
    rw [ret_closing, hpc, hcl]
    omega

/- What a line of `pepdna_con_close` before the last one does. -/
structure CloseFrame (s t : Con) (e : End) : Prop where
  kref : t.kref = s.kref
  drops : t.drops = s.drops
  half : ∀ x, t.get x = { s.get x with
    pc := (t.get x).pc, flag := (t.get x).flag, userData := (t.get x).userData,
    shut := (t.get x).shut }
  flag : ∀ x, (t.get x).flag = true → (s.get x).flag = true
  pc : ∀ x, x ≠ e → (t.get x).pc = (s.get x).pc
  closing : (s.get e).pc.closing = 1 ∧ (t.get e).pc.closing = 1

theorem closing_running (pc : Pc) (h : pc.closing = 1) : pc.running = 1 := by
  cases pc <;> first | rfl | cases h

theorem closeFrame_set (s : Con) (e x : End) (f u d : Bool) (pc : Pc)
    (hf : f = true → (s.get x).flag = true) (hs : (s.get e).pc.closing = 1)
    (hc : pc.closing = 1) :
    CloseFrame s ((s.set x { s.get x with flag := f, userData := u, shut := d }).jump e pc) e := by
  cases e <;> cases x <;> refine ⟨rfl, rfl, ?_, ?_, ?_, hs, hc⟩
  all_goals
    rintro (_ | _)
  all_goals
    first
    | rfl
    | exact hf
    | exact id
    | exact fun _ => rfl
    | exact fun hx => absurd rfl hx

theorem closeStep_frame (s t : Con) (e : End) (hpc : (s.get e).pc ≠ .closePut)
    (h : closeStep s e (s.get e).pc = some t) : CloseFrame s t e := by
  have hkeep (pc : Pc) (hs : (s.get e).pc.closing = 1) (hc : pc.closing = 1) :
      CloseFrame s (s.jump e pc) e :=
    closeFrame_set s e .l s.l.flag s.l.userData s.l.shut pc id hs hc
  have hline := closeStep_cases s t e _ hpc h
  generalize hp : (s.get e).pc = pc at hline
  have hclosing : pc.closing = 1 → (s.get e).pc.closing = 1 := fun hc => by rw [hp, hc]
  cases hline with
  | close | noSock | readRflag | noRsock => exact hkeep _ (hclosing rfl) rfl
  | clearLflag => exact closeFrame_set s e .l false _ _ _ (by simp) (hclosing rfl) rfl
  | clearRflag => exact closeFrame_set s e .r false _ _ _ (by simp) (hclosing rfl) rfl
  | userL | shutL => exact closeFrame_set s e .l _ _ _ _ id (hclosing rfl) rfl
  | userR | shutR => exact closeFrame_set s e .r _ _ _ _ id (hclosing rfl) rfl

theorem closeFrame_half (s t : Con) (e : End) (h : CloseFrame s t e) (x : End) :
    (t.get x).refs = (s.get x).refs ∧ (t.get x).pc.closing = (s.get x).pc.closing ∧
      (t.get x).closes = (s.get x).closes := by
  have hpc : (t.get x).pc.running = (s.get x).pc.running ∧
      (t.get x).pc.closing = (s.get x).pc.closing := by
    by_cases hx : x = e
    · subst hx
      obtain ⟨h1, h2⟩ := h.closing
      exact ⟨(closing_running _ h2).trans (closing_running _ h1).symm, h2.trans h1.symm⟩
    · rw [h.pc x hx]
      exact ⟨rfl, rfl⟩
  have hh := h.half x
  refine ⟨?_, hpc.2, ?_⟩
  · rw [Half.refs, Half.refs, hpc.1, hh]
  · rw [Half.closes, Half.closes, hh]

theorem counted_close (s t : Con) (e : End) (hs : Counted s) (h : CloseFrame s t e) :
    Counted t := by
  obtain ⟨hrl, hpl, hcl⟩ := closeFrame_half s t e h .l
  obtain ⟨hrr, hpr, hcr⟩ := closeFrame_half s t e h .r
  simp only [Con.get] at hrl hpl hcl hrr hpr hcr
  constructor
  · rw [h.drops, Con.closing, Con.closes, hpl, hpr, hcl, hcr]
    exact hs.closes
  · rw [h.drops, h.kref, Con.refs, hrl, hrr]
    exact hs.kref

theorem put_jump (s : Con) (e : End) (pc : Pc) :
    (pepdnaConPut s).jump e pc = pepdnaConPut (s.jump e pc) := by
  unfold Con.jump pepdnaConPut pepdnaConKrefRelease
  rw [set_kref]
  split
  · rfl
  · split
    · cases e <;> rfl
    · cases e <;> rfl

theorem refs_pos (s : Con) (e : End) (h : (s.get e).pc.running = 1) : 1 ≤ s.refs := by
  have hrun : 1 ≤ (s.get e).refs := by
    rw [Half.refs, h]
    omega
  cases e <;> simp only [Con.get, Con.refs] at hrun ⊢ <;> omega

theorem counted_closePut (s : Con) (e : End) (hs : Counted s) (hpc : (s.get e).pc = .closePut) :
    Counted ((pepdnaConPut { s with drops := s.drops + 1 }).jump e .test) := by
  have hge : Con.get { s with drops := s.drops + 1 } e = s.get e := by cases e <;> rfl
  have h1 := refs_set { s with drops := s.drops + 1 } e { s.get e with pc := .test }
  have h2 := closing_set { s with drops := s.drops + 1 } e { s.get e with pc := .test }
  have h3 := closes_set { s with drops := s.drops + 1 } e { s.get e with pc := .test }
  have hrefs := refs_pos s e (by rw [hpc]; rfl)
  rw [hge] at h1 h2 h3
  have e1 : Half.refs { s.get e with pc := .test } = (s.get e).refs := by
    rw [Half.refs, Half.refs, hpc]
    rfl
  have e2 : ((s.get e).pc.closing : ℕ) = 1 := by rw [hpc]; rfl
  have e3 : Half.closes { s.get e with pc := .test } = (s.get e).closes := rfl
  have e4 : Pc.test.closing = 0 := rfl
  have u1 : Con.refs { s with drops := s.drops + 1 } = s.refs := rfl
  have u2 : Con.closing { s with drops := s.drops + 1 } = s.closing := rfl
  have u3 : Con.closes { s with drops := s.drops + 1 } = s.closes := rfl
  have hk := hs.kref
  have hc := hs.closes
  rw [put_jump]
  unfold Con.jump
  rw [hge]
  constructor
  · rw [put_drops, put_closing, put_closes, set_drops]
    dsimp only at *
    omega
  · rw [put_kref, put_drops, put_refs, set_kref, set_drops]
    dsimp only at *
    omega

theorem counted_work (s t : Con) (e : End) (i : In) (hs : Counted s) (h : WorkStep s e i t) :
    Counted t := by
  cases h with
  | start hpc hp =>
    apply counted_set s e _ hs
    · simp [Half.refs, hpc, hp, Pc.running]
    · rw [hpc]
      rfl
  | test hpc =>
    apply counted_set s e _ hs
    · rw [Half.refs, Half.refs, hpc]
      dsimp only
      congr 3
      split <;> rfl
    · rw [hpc]
      dsimp only
      congr 1
      split <;> rfl
  | nomem hpc => exact counted_ret s e _ _ _ _ hs (by rw [hpc]; rfl) (by rw [hpc]; rfl) rfl
  | read bs hpc hne =>
    apply counted_set s e _ hs
    · rw [Half.refs, Half.refs, hpc]
      rfl
    · rw [hpc]
      rfl
  | recvRet rc hpc hrc => exact counted_ret s e _ _ _ _ hs (by rw [hpc]; rfl) (by rw [hpc]; rfl) rfl
  | sendmsg w rc hpc =>
    unfold Half.sendmsg
    dsimp only
    split
    · apply counted_set s e _ hs
      · rw [Half.refs, Half.refs, hpc]
        rfl
      · rw [hpc]
        rfl
    · exact counted_ret s e _ _ _ _ hs (by rw [hpc]; rfl) (by rw [hpc]; rfl) rfl
  | put hpc =>
    apply counted_put s e _ hs
    · simp only [Half.refs, hpc, Pc.running]
      omega
    · rw [hpc]
      rfl
  | close t hpc h => exact counted_close s t e hs (closeStep_frame s t e hpc h)
  | closePut hpc => exact counted_closePut s e hs hpc

theorem counted_get (s : Con) (e : End) (hs : Counted s) :
    Counted ({ s with kref := s.kref + 1 }.set e
      { s.get e with tested := (s.get e).tested - 1, got := (s.get e).got + 1 }) := by
  let h : Half := { s.get e with tested := (s.get e).tested - 1, got := (s.get e).got + 1 }
  have hrefs : (Con.set { s with kref := s.kref + 1 } e h).refs = s.refs + 1 := by
    have h1 := refs_set { s with kref := s.kref + 1 } e h
    have h2 : h.refs = (s.get e).refs + 1 := by
      simp only [h, Half.refs]
      omega
    have h3 : Con.get { s with kref := s.kref + 1 } e = s.get e := by cases e <;> rfl
    have h4 : Con.refs { s with kref := s.kref + 1 } = s.refs := rfl
    rw [h3] at h1
    omega
  have hk := hs.kref
  constructor
  · cases e <;> exact hs.closes
  · rw [set_kref, set_drops, hrefs]
    dsimp only
    omega

theorem counted_step (s : Con) (a : Act) (t : Con) (hs : Counted s) (h : conStep s a = some t) :
    Counted t := by
  cases a with
  | dataReady e =>
    simp only [conStep] at h
    split at h
    · cases h
      split
      · exact counted_set s e _ hs rfl rfl
      · exact hs
    · cases h
  | get e =>
    simp only [conStep] at h
    split at h
    · cases h
      exact counted_get s e hs
    · cases h
  | queueWork e =>
    simp only [conStep] at h
    split at h
    · next hg =>
      cases h
      split
      · refine counted_set s e _ hs ?_ rfl
        simp only [Half.refs]
        omega
      · next hp =>
        refine counted_set s e _ hs ?_ rfl
        simp only [Half.refs, hp, if_true, if_false, Bool.false_eq_true]
        omega
    · cases h
  | putBack e =>
    simp only [conStep] at h
    split at h
    · next hg =>
      cases h
      refine counted_put s e _ hs ?_ rfl
      simp only [Half.refs]
      omega
    · cases h
  | work e i => exact counted_work s t e i hs (workStep_cases s t e i h)

theorem counted_run (acts : List Act) (s : Con) (h : Lts.run conStep accepted acts = some s) :
    Counted s :=
  Lts.run_invariant Counted counted_step _ s acts counted_accepted h

/-- As long as one call at most made its work close the connection, the first reference is dropped
at most once, and the connection is released only when both works are done with it. -/
theorem tcpRun_released_unused (acts : List Act) (s : Con)
    (h : Lts.run conStep accepted acts = some s) (hc : s.closes ≤ 1) :
    s.drops ≤ 1 ∧
      (s.kref = 0 → ∀ e, (s.get e).pending = false ∧ (s.get e).pc = .idle) := by
  have hs := counted_run acts s h
  have hcl := hs.closes
  have hd : s.drops ≤ 1 := by omega
  refine ⟨hd, fun h0 e => ?_⟩
  have hk := hs.kref hd
  have hrefs : (s.get e).refs = 0 := by
    cases e <;> simp only [Con.refs, Con.get] at hk ⊢ <;> omega
  simp only [Half.refs] at hrefs
  constructor
  · by_contra hp
    simp only [Bool.not_eq_false] at hp
    rw [hp] at hrefs
    simp only [if_true] at hrefs
    omega
  · cases hpc : (s.get e).pc <;> rw [hpc] at hrefs <;> simp only [Pc.running] at hrefs <;>
      first | rfl | omega

/-- The callback of an end from its test to the queueing of the work. -/
def wakeUp (e : End) : List Act := [.dataReady e, .get e, .queueWork e]

/-- All of `pepdna_con_close`. -/
def closeAll (e : End) : List Act := List.replicate 9 (.work e .tau)

/-- The left work reads the end of the stream, closes and returns. -/
def leftCloses : List Act :=
  wakeUp .l ++ [.work .l .tau, .work .l .tau, .work .l (.recvRet 0)] ++ closeAll .l ++
    [.work .l .tau, .work .l .tau]

theorem leftCloses_released :
    ∃ s, Lts.run conStep accepted leftCloses = some s ∧ s.kref = 0 ∧ s.drops ≤ 1 ∧
      ∀ e, (s.get e).pending = false ∧ (s.get e).pc = .idle := by
  have hrun : Lts.run conStep accepted leftCloses =
      some ((Lts.run conStep accepted leftCloses).getD accepted) := by decide
  have h := tcpRun_released_unused leftCloses _ hrun (by decide)
  exact ⟨_, hrun, by decide, h.1, h.2 (by decide)⟩

/- Both works are past the test of their flag when the left one closes. The right one is told `0` by
its socket, which is shut down now, closes a second time and releases the connection it is still
working on. -/
def bothClose : List Act :=
  wakeUp .l ++ wakeUp .r ++ [.work .l .tau, .work .r .tau, .work .l .tau, .work .r .tau] ++
    [.work .l (.recvRet 0)] ++ closeAll .l ++ [.work .l .tau, .work .l .tau] ++
    [.work .r (.recvRet 0)] ++ closeAll .r

theorem bothClose_released_in_use :
    ∃ s, Lts.run conStep accepted bothClose = some s ∧ s.kref = 0 ∧ s.drops = 2 ∧
      (s.get .r).pc = .test :=
  ⟨(Lts.run conStep accepted bothClose).getD accepted, by decide, by decide, by decide, by decide⟩

end PepDna.Tcp
