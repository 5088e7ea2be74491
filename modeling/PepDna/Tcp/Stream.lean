import PepDna.Tcp.Refcount

/-!
# Transparency of the two forwarding works

Each direction is a sequence of calls of `pepdna_con_i2i_fwd`. What the works
read and write is accounted for call by call, and a call that fails midway is
the last one of its direction, because the work that made it clears its own flag
before it looks at it again.
-/

namespace PepDna.Tcp

/-- The call read bytes and did not get all of them written. -/
def Call.failed (c : Call) : Bool := decide (c.read ≠ [] ∧ c.rc < 0)

def Half.failed (h : Half) : Bool := h.calls.any Call.failed

/- The buffer of the call under way, what is written of it, and what is not. -/
def bufferOf : Pc → Bytes
  | .write w => w.done ++ w.rest
  | _ => []

def writtenOf : Pc → Bytes
  | .write w => w.done
  | _ => []

def unwrittenOf : Pc → Bytes
  | .write w => w.rest
  | _ => []

theorem noBuffer (pc : Pc) (hn : ∀ w, pc ≠ .write w) :
    bufferOf pc = [] ∧ writtenOf pc = [] ∧ unwrittenOf pc = [] := by
  cases pc with
  | write w => exact absurd rfl (hn w)
  | _ => exact ⟨rfl, rfl, rfl⟩

structure Flow (h : Half) : Prop where
  rd : h.rd = (h.calls.map Call.read).flatten ++ bufferOf h.pc
  wr : h.wr = (h.calls.map Call.written).flatten ++ writtenOf h.pc
  pos : ∀ c ∈ h.calls, 0 < c.rc → c.written = c.read ∧ c.rc = c.read.length
  even : h.failed = false → h.rd = h.wr ++ unwrittenOf h.pc
  pre : h.wr <+: h.rd
  rest : ∀ w, h.pc = .write w → w.rest ≠ []

/- The fields `Flow` speaks of. -/
def Half.core (h : Half) := (h.pc, h.rd, h.wr, h.calls)

theorem flow_congr (h h' : Half) (hh : Flow h) (hd : h'.core = h.core) : Flow h' := by
  simp only [Half.core, Prod.mk.injEq] at hd
  obtain ⟨hp, hr, hw, hc⟩ := hd
  refine ⟨by rw [hr, hc, hp]; exact hh.rd, by rw [hw, hc, hp]; exact hh.wr, hc ▸ hh.pos, ?_,
    by rw [hr, hw]; exact hh.pre, hp ▸ hh.rest⟩
  rw [Half.failed, hr, hw, hp, hc]
  exact hh.even

/-- The work moves between two positions at which it holds no buffer. -/
theorem flow_move (h h' : Half) (hh : Flow h) (hu : ∀ w, h.pc ≠ .write w)
    (hu' : ∀ w, h'.pc ≠ .write w) (hd : (h'.rd, h'.wr, h'.calls) = (h.rd, h.wr, h.calls)) :
    Flow h' := by
  obtain ⟨b1, b2, b3⟩ := noBuffer h.pc hu
  obtain ⟨c1, c2, c3⟩ := noBuffer h'.pc hu'
  simp only [Prod.mk.injEq] at hd
  obtain ⟨hr, hw, hc⟩ := hd
  have hrd := hh.rd
  have hwr := hh.wr
  have heven := hh.even
  rw [b1] at hrd
  rw [b2] at hwr
  rw [b3, Half.failed] at heven
  refine ⟨by rw [hr, hc, c1]; exact hrd, by rw [hw, hc, c2]; exact hwr, hc ▸ hh.pos, ?_,
    by rw [hr, hw]; exact hh.pre, fun w hp => absurd hp (hu' w)⟩
  rw [Half.failed, hr, hw, hc, c3]
  exact heven

theorem failed_append (l : List Call) (c : Call) (h : Half) (hl : h.calls = l ++ [c]) :
    h.failed = (l.any Call.failed || c.failed) := by
  rw [Half.failed, hl, List.any_append, List.any_cons, List.any_nil, Bool.or_false]

theorem ret_not_write (h : Half) (read written : Bytes) (rc : Int) (w : SockWrite) :
    (h.ret read written rc).pc ≠ .write w := by
  unfold Half.ret
  dsimp only
  split
  · simp
  · split <;> simp

/-- A call that read nothing. -/
theorem flow_ret_nil (h : Half) (rc : Int) (hh : Flow h) (hu : ∀ w, h.pc ≠ .write w)
    (hrc : rc ≤ 0) : Flow (h.ret [] [] rc) := by
  let h₁ : Half := { h with calls := h.calls ++ [⟨[], [], rc⟩] }
  have hfail : h₁.failed = h.failed := by
    rw [failed_append h.calls ⟨[], [], rc⟩ h₁ rfl]
    simp [Call.failed, Half.failed]
  have h₁flow : Flow h₁ := by
    refine ⟨?_, ?_, ?_, ?_, hh.pre, hh.rest⟩
    · simp only [h₁, List.map_append, List.map_singleton, List.flatten_append, List.flatten_cons,
        List.flatten_nil, List.append_nil]
      exact hh.rd
    · simp only [h₁, List.map_append, List.map_singleton, List.flatten_append, List.flatten_cons,
        List.flatten_nil, List.append_nil]
      exact hh.wr
    · intro c hc hpos
      rcases List.mem_append.mp hc with hc | hc
      · exact hh.pos c hc hpos
      · rw [List.mem_singleton.mp hc] at hpos
        simp only at hpos
        omega
    · rw [hfail]
      exact hh.even
  exact flow_move h₁ _ h₁flow hu (ret_not_write h [] [] rc) rfl

theorem flow_again (h : Half) (w w' : SockWrite) (rc : Int) (hh : Flow h) (hpc : h.pc = .write w)
    (hnf : h.failed = false) (hit : pepdnaSockWriteIter w rc = .again w') :
    Flow { h with wr := h.wr ++ w.accepted rc, pc := .write w' } := by
  obtain ⟨hdone, hrest, hne⟩ := iter_again w w' rc hit (hh.rest w hpc)
  have hrd := hh.rd
  have hwr := hh.wr
  have heven := hh.even hnf
  rw [hpc] at hrd hwr heven
  simp only [bufferOf, writtenOf, unwrittenOf] at hrd hwr heven
  have hall : h.rd = h.wr ++ w.accepted rc ++ w'.rest := by
    rw [heven, List.append_assoc, hrest]
  refine ⟨?_, ?_, hh.pos, fun _ => hall, ⟨w'.rest, hall.symm⟩, ?_⟩
  · simp only [bufferOf, hdone, List.append_assoc, hrest]
    exact hrd
  · simp only [writtenOf, hdone, hwr, List.append_assoc]
  · rintro _ ⟨⟩
    exact hne

/-- The call wrote all it had read, or failed and closes. -/
theorem flow_sendmsg (h : Half) (w : SockWrite) (rc : Int) (hh : Flow h) (hpc : h.pc = .write w)
    (hnf : h.failed = false) : Flow (h.sendmsg w rc) := by
  have hne := hh.rest w hpc
  have hrd := hh.rd
  have hwr := hh.wr
  have heven := hh.even hnf
  rw [hpc] at hrd hwr heven
  simp only [bufferOf, writtenOf, unwrittenOf] at hrd hwr heven
  unfold Half.sendmsg
  dsimp only
  split
  · next w' hit => exact flow_again h w w' rc hh hpc hnf hit
  · next v hit =>
    have hflat (c : Call) (f : Call → Bytes) :
        ((h.calls ++ [c]).map f).flatten = (h.calls.map f).flatten ++ f c := by simp
    have hacc : (v < 0 → w.accepted rc = []) ∧ (¬v < 0 → w.accepted rc = w.rest) :=
      ⟨fun hv => iter_ret_neg w rc v hit hv,
        fun hv => (iter_ret_nonneg w rc v hit (by omega)).1⟩
    have hlen : 0 < (w.done ++ w.rest).length := by
      rw [List.length_append]
      have := List.length_pos_of_ne_nil hne
      omega
    have hpcs (u : SockWrite) := ret_not_write { h with wr := h.wr ++ w.accepted rc }
      (w.done ++ w.rest) (w.done ++ w.accepted rc)
      (if v < 0 then -1 else ((w.done ++ w.rest).length : Int)) u
    obtain ⟨b1, b2, b3⟩ := noBuffer _ hpcs
    refine ⟨?_, ?_, ?_, ?_, ?_, fun u hu => absurd hu (hpcs u)⟩
    · rw [b1]
      simp only [Half.ret, hflat, List.append_nil]
      exact hrd
    · rw [b2]
      simp only [Half.ret, hflat, List.append_nil]
      rw [hwr, List.append_assoc]
    · intro c hc hpos
      simp only [Half.ret] at hc
      rcases List.mem_append.mp hc with hc | hc
      · exact hh.pos c hc hpos
      · rw [List.mem_singleton.mp hc] at hpos ⊢
        by_cases hv : v < 0
        · simp [hv] at hpos
        · simp only [hv, if_false, hacc.2 hv, and_self]
    · intro hf
      rw [b3, List.append_nil]
      rw [failed_append h.calls _ _ rfl, Bool.or_eq_false_iff] at hf
      have hv : ¬v < 0 := by
        intro hv
        have h2 := hf.2
        rw [Call.failed, decide_eq_false_iff_not] at h2
        refine h2 ⟨?_, ?_⟩
        · exact List.ne_nil_of_length_pos hlen
        · simp [hv]
      simp only [Half.ret, hacc.2 hv]
      exact heven
    · simp only [Half.ret]
      by_cases hv : v < 0
      · rw [hacc.1 hv, List.append_nil]
        exact hh.pre
      · rw [hacc.2 hv, ← heven]

/- ### The flags -/

/-- The close has got past the line that clears the flag of the end. -/
def cleared : End → Pc → Bool
  | _, .userR _ => true
  | _, .shutR _ => true
  | _, .closePut => true
  | .l, .userL _ _ => true
  | .l, .shutL _ _ => true
  | .l, .clearRflag _ => true
  | _, _ => false

/- A close that skips a line does so because the socket is gone, and then an earlier close has
cleared both flags. -/
structure Phase (s : Con) : Prop where
  flag : ∀ x y, cleared y (s.get x).pc = true → (s.get y).flag = false
  drops : 0 < s.drops → ∀ y, (s.get y).flag = false
  sock : ∀ x, (s.get x).sock = false → 0 < s.drops

theorem phase_accepted : Phase accepted := by
  refine ⟨?_, nofun, ?_⟩
  · rintro (_ | _) (_ | _) h <;> cases h
  · rintro (_ | _) h <;> cases h

theorem phase_of (s t : Con) (hs : Phase s) (hd : t.drops = s.drops)
    (hsock : ∀ x, (t.get x).sock = (s.get x).sock)
    (hflag : ∀ y, (s.get y).flag = false → (t.get y).flag = false)
    (hpc : ∀ x y, cleared y (t.get x).pc = true →
      cleared y (s.get x).pc = true ∨ (t.get y).flag = false) : Phase t := by
  refine ⟨?_, ?_, ?_⟩
  · intro x y hc
    rcases hpc x y hc with h | h
    · exact hflag y (hs.flag x y h)
    · exact h
  · intro h0 y
    exact hflag y (hs.drops (hd ▸ h0) y)
  · intro x h0
    rw [hd]
    exact hs.sock x (hsock x ▸ h0)

theorem get_set (s : Con) (e : End) (h : Half) : (s.set e h).get e = h := by cases e <;> rfl

theorem get_set_ne (s : Con) (e x : End) (h : Half) (hx : x ≠ e) :
    (s.set e h).get x = s.get x := by
  cases e <;> cases x <;> first | rfl | exact absurd rfl hx

/-- A step of one end that leaves its flag and socket alone and does not get past a clearing line. -/
theorem phase_set (s : Con) (e : End) (h : Half) (hs : Phase s)
    (hk : (h.sock, h.flag) = ((s.get e).sock, (s.get e).flag))
    (hc : ∀ y, cleared y h.pc = true → cleared y (s.get e).pc = true ∨ (s.get y).flag = false) :
    Phase (s.set e h) := by
  simp only [Prod.mk.injEq] at hk
  have hflag (y : End) : ((s.set e h).get y).flag = (s.get y).flag := by
    by_cases hy : y = e
    · rw [hy, get_set, hk.2]
    · rw [get_set_ne s e y h hy]
  refine phase_of s _ hs (set_drops s e h) ?_ (fun y hf => (hflag y).trans hf) ?_
  · intro x
    by_cases hx : x = e
    · rw [hx, get_set, hk.1]
    · rw [get_set_ne s e x h hx]
  · intro x y hcl
    rw [hflag]
    by_cases hx : x = e
    · rw [hx, get_set] at hcl
      rw [hx]
      exact hc y hcl
    · rw [get_set_ne s e x h hx] at hcl
      exact Or.inl hcl

theorem phase_put (s : Con) (hs : Phase s) (h1 : s.kref = 1 → 0 < s.drops) :
    Phase (pepdnaConPut s) := by
  have hget (x : End) := put_get s x
  refine ⟨?_, ?_, ?_⟩
  · intro x y hc
    rw [hget] at hc ⊢
    exact hs.flag x y hc
  · intro h0 y
    rw [put_drops] at h0
    rw [hget]
    exact hs.drops h0 y
  · intro x h0
    rw [put_drops]
    unfold pepdnaConPut at h0
    split at h0
    · exact hs.sock x h0
    · split at h0
      · next hk => exact h1 hk
      · refine hs.sock x ?_
        cases x <;> exact h0

/-- The last reference is not dropped before the first one. -/
theorem counted_last (s : Con) (e : End) (hs : Counted s) (hr : 1 ≤ (s.get e).refs)
    (hk : s.kref = 1) : 0 < s.drops := by
  have h1 := hs.kref
  have h2 : 1 ≤ s.refs := by cases e <;> simp only [Con.get, Con.refs] at hr ⊢ <;> omega
  omega

/-- A line gets past the clearing of a flag only when it clears it, or finds its socket gone. -/
theorem closeStep_cleared (s t : Con) (e y : End) (hs : Phase s)
    (hpc : (s.get e).pc ≠ .closePut) (h : closeStep s e (s.get e).pc = some t)
    (hc : cleared y (t.get e).pc = true) :
    cleared y (s.get e).pc = true ∨ (t.get y).flag = false := by
  have hgone (x : End) (hx : (s.get x).sock = false) : (t.get y).flag = false := by
    have hf := hs.drops (hs.sock x hx) y
    by_contra ht
    simp only [Bool.not_eq_false] at ht
    have := (closeStep_frame s t e hpc h).flag y ht
    rw [hf] at this
    cases this
  have hline := closeStep_cases s t e _ hpc h
  generalize (s.get e).pc = pc at hline ⊢
  cases hline with
  | noSock hl => exact Or.inr (hgone .l hl)
  | noRsock rc hr =>
    cases y with
    | l => exact Or.inl rfl
    | r => exact Or.inr (hgone .r hr)
  | close | readRflag =>
    rw [get_jump_pc] at hc
    cases y <;> cases hc
  | clearLflag =>
    rw [get_jump_pc] at hc
    cases y with
    | l => exact Or.inr (by cases e <;> rfl)
    | r => cases hc
  | userL | shutL =>
    rw [get_jump_pc] at hc
    cases y with
    | l => exact Or.inl rfl
    | r => cases hc
  | clearRflag =>
    cases y with
    | l => exact Or.inl rfl
    | r => exact Or.inr (by cases e <;> rfl)
  | userR | shutR => exact Or.inl (by cases y <;> rfl)

theorem phase_close (s t : Con) (e : End) (hs : Phase s) (hpc : (s.get e).pc ≠ .closePut)
    (h : closeStep s e (s.get e).pc = some t) : Phase t := by
  have hf := closeStep_frame s t e hpc h
  refine phase_of s t hs hf.drops ?_ ?_ ?_
  · intro x
    rw [hf.half x]
  · intro y hy
    by_contra ht
    simp only [Bool.not_eq_false] at ht
    have := hf.flag y ht
    rw [hy] at this
    cases this
  · intro x y hc
    by_cases hx : x = e
    · subst hx
      exact closeStep_cleared s t x y hs hpc h hc
    · rw [hf.pc x hx] at hc
      exact Or.inl hc

theorem ret_cleared (h : Half) (read written : Bytes) (rc : Int) (y : End) :
    cleared y (h.ret read written rc).pc = false := by
  unfold Half.ret
  dsimp only
  split
  · cases y <;> rfl
  · split <;> cases y <;> rfl

theorem sendmsg_cleared (h : Half) (w : SockWrite) (rc : Int) (y : End) :
    cleared y (h.sendmsg w rc).pc = false := by
  unfold Half.sendmsg
  dsimp only
  split
  · cases y <;> rfl
  · exact ret_cleared _ _ _ _ y

theorem sendmsg_keeps (h : Half) (w : SockWrite) (rc : Int) :
    ((h.sendmsg w rc).sock, (h.sendmsg w rc).flag) = (h.sock, h.flag) := by
  unfold Half.sendmsg
  dsimp only
  split <;> rfl

theorem phase_work (s t : Con) (e : End) (i : In) (hc : Counted s) (hs : Phase s)
    (h : WorkStep s e i t) : Phase t := by
  have hset (h : Half) (hk : (h.sock, h.flag) = ((s.get e).sock, (s.get e).flag))
      (hn : ∀ y, cleared y h.pc = false) : Phase (s.set e h) := by
    refine phase_set s e h hs hk fun y hy => ?_
    rw [hn y] at hy
    cases hy
  cases h with
  | start hpc hp => exact hset _ rfl fun y => by cases y <;> rfl
  | test hpc =>
    refine hset _ rfl fun y => ?_
    dsimp only
    split <;> cases y <;> rfl
  | nomem hpc => exact hset _ rfl (ret_cleared _ _ _ _)
  | read bs hpc hne => exact hset _ rfl fun y => by cases y <;> rfl
  | recvRet rc hpc hrc => exact hset _ rfl (ret_cleared _ _ _ _)
  | sendmsg w rc hpc => exact hset _ (sendmsg_keeps _ w rc) (sendmsg_cleared _ w rc)
  | put hpc =>
    refine phase_put _ (hset _ rfl fun y => by cases y <;> rfl) fun hk => ?_
    rw [Con.jump, set_kref] at hk
    rw [Con.jump, set_drops]
    refine counted_last s e hc ?_ hk
    simp only [Half.refs, hpc, Pc.running]
    omega
  | close t hpc h => exact phase_close s t e hs hpc h
  | closePut hpc =>
    have hflag (y : End) : (s.get y).flag = false := by
      apply hs.flag e y
      rw [hpc]
      cases y <;> rfl
    have hget (y : End) : Con.get { s with drops := s.drops + 1 } y = s.get y := by
      cases y <;> rfl
    have hdrop : Phase { s with drops := s.drops + 1 } := by
      refine ⟨?_, ?_, fun _ _ => Nat.succ_pos _⟩
      · intro x y _
        rw [hget]
        exact hflag y
      · intro _ y
        rw [hget]
        exact hflag y
    rw [put_jump]
    refine phase_put _ (phase_set _ e _ hdrop rfl fun y hy => ?_) fun _ => ?_
    · cases y <;> cases hy
    · rw [Con.jump, set_drops]
      exact Nat.succ_pos _

theorem phase_step (s : Con) (a : Act) (t : Con) (hc : Counted s) (hs : Phase s)
    (h : conStep s a = some t) : Phase t := by
  have hset (e : End) (h : Half) (hk : (h.sock, h.flag) = ((s.get e).sock, (s.get e).flag))
      (hpc : h.pc = (s.get e).pc) : Phase (s.set e h) :=
    phase_set s e h hs hk fun y hy => Or.inl (hpc ▸ hy)
  cases a with
  | dataReady e =>
    simp only [conStep] at h
    split at h
    · cases h
      split
      · exact hset e _ rfl rfl
      · exact hs
    · cases h
  | get e =>
    simp only [conStep] at h
    split at h
    · cases h
      have hk : Phase { s with kref := s.kref + 1 } :=
        phase_of s _ hs rfl (by rintro (_ | _) <;> rfl) (by rintro (_ | _) hy <;> exact hy)
          (by rintro (_ | _) y hy <;> exact Or.inl hy)
      refine phase_set _ e _ hk ?_ fun y hy => Or.inl ?_
      · cases e <;> rfl
      · cases e <;> exact hy
    · cases h
  | queueWork e =>
    simp only [conStep] at h
    split at h
    · cases h
      split
      · exact hset e _ rfl rfl
      · exact hset e _ rfl rfl
    · cases h
  | putBack e =>
    simp only [conStep] at h
    split at h
    · next hp =>
      cases h
      refine phase_put _ (hset e _ rfl rfl) fun hk => ?_
      rw [set_kref] at hk
      rw [set_drops]
      refine counted_last s e hc ?_ hk
      simp only [Half.refs]
      omega
    · cases h
  | work e i => exact phase_work s t e i hc hs (workStep_cases s t e i h)

/- ### The end of a direction -/

def Pc.outside : Pc → Bool
  | .idle => true
  | .test => true
  | .put => true
  | _ => false

/- After a failed call the work is on its way through the close, or its flag is cleared and it is
outside of the loop body. -/
def Stopped (h : Half) : Prop :=
  h.failed = true → h.pc.closing = 1 ∨ (h.flag = false ∧ h.pc.outside = true)

theorem stopped_congr (h h' : Half) (hh : Stopped h) (hd : h'.core = h.core)
    (hf : h.flag = false → h'.flag = false) : Stopped h' := by
  simp only [Half.core, Prod.mk.injEq] at hd
  obtain ⟨hp, -, -, hc⟩ := hd
  unfold Stopped at hh ⊢
  rw [Half.failed, hc, hp]
  intro hfail
  rcases hh hfail with h1 | h1
  · exact Or.inl h1
  · exact Or.inr ⟨hf h1.1, h1.2⟩

/-- In `pepdna_con_i2i_fwd` no earlier call of the direction has failed. -/
theorem stopped_busy (h : Half) (hh : Stopped h) (hc : h.pc.closing = 0)
    (ho : h.pc.outside = false) : h.failed = false := by
  by_contra hf
  simp only [Bool.not_eq_false] at hf
  rcases hh hf with h1 | h1
  · omega
  · rw [ho] at h1
    cases h1.2

theorem put_get_core (s : Con) (x : End) :
    ((pepdnaConPut s).get x).core = (s.get x).core ∧
      ((pepdnaConPut s).get x).flag = (s.get x).flag := by
  rw [put_get]
  exact ⟨rfl, rfl⟩

theorem frame_flag (s t : Con) (e x : End) (h : CloseFrame s t e) (hx : (s.get x).flag = false) :
    (t.get x).flag = false := by
  by_contra ht
  simp only [Bool.not_eq_false] at ht
  have := h.flag x ht
  rw [hx] at this
  cases this

/-- A work leaves the other direction alone, but for the flag it may clear. -/
theorem workStep_other (s t : Con) (e x : End) (i : In) (hx : x ≠ e) (h : WorkStep s e i t) :
    (t.get x).core = (s.get x).core ∧ ((s.get x).flag = false → (t.get x).flag = false) := by
  have hset (h : Half) : ((s.set e h).get x).core = (s.get x).core ∧
      ((s.get x).flag = false → ((s.set e h).get x).flag = false) := by
    rw [get_set_ne s e x h hx]
    exact ⟨rfl, id⟩
  cases h with
  | put hpc =>
    obtain ⟨h1, h2⟩ := put_get_core (s.jump e .idle) x
    rw [h1, h2]
    exact hset _
  | close t hpc h =>
    have hf := closeStep_frame s t e hpc h
    refine ⟨?_, frame_flag s t e x hf⟩
    rw [hf.half x, Half.core, hf.pc x hx]
    rfl
  | closePut hpc =>
    rw [put_jump]
    obtain ⟨h1, h2⟩ := put_get_core (Con.jump { s with drops := s.drops + 1 } e .test) x
    rw [h1, h2, Con.jump, get_set_ne _ e x _ hx]
    cases x <;> exact ⟨rfl, id⟩
  | _ => exact hset _

theorem ret_failed_nil (h : Half) (rc : Int) : (h.ret [] [] rc).failed = h.failed := by
  rw [failed_append h.calls ⟨[], [], rc⟩ _ rfl]
  simp [Call.failed, Half.failed]

theorem sendmsg_stopped (h : Half) (w : SockWrite) (rc : Int) (hnf : h.failed = false) :
    Stopped (h.sendmsg w rc) := by
  intro hf
  unfold Half.sendmsg at hf ⊢
  dsimp only at hf ⊢
  split
  · next w' hit =>
    rw [hit] at hf
    exact absurd hf (by simpa [Half.failed] using hnf)
  · next v hit =>
    rw [hit] at hf
    dsimp only at hf
    rw [failed_append h.calls _ _ rfl] at hf
    by_cases hv : v < 0
    · left
      simp [Half.ret, hv, EAGAIN, Pc.closing]
    · rw [Half.failed] at hnf
      rw [hnf, Call.failed] at hf
      simp [hv] at hf
      omega

structure Streams (s : Con) : Prop where
  counted : Counted s
  phase : Phase s
  flow : ∀ e, Flow (s.get e)
  stopped : ∀ e, Stopped (s.get e)

theorem flow_work (s t : Con) (e : End) (i : In) (hs : Streams s) (h : WorkStep s e i t) :
    Flow (t.get e) := by
  have hh := hs.flow e
  have hmove (h' : Half) (pc : Pc) (hpc : (s.get e).pc = pc) (hn : ∀ w, pc ≠ .write w)
      (hn' : ∀ w, h'.pc ≠ .write w)
      (hd : (h'.rd, h'.wr, h'.calls) = ((s.get e).rd, (s.get e).wr, (s.get e).calls)) :
      Flow h' := flow_move _ h' hh (hpc ▸ hn) hn' hd
  cases h with
  | start hpc hp =>
    rw [get_set]
    exact hmove _ _ hpc (by simp) (by simp) rfl
  | test hpc =>
    rw [Con.jump, get_set]
    refine hmove _ _ hpc (by simp) ?_ rfl
    dsimp only
    split <;> simp
  | nomem hpc =>
    rw [get_set]
    exact flow_ret_nil _ _ hh (by simp [hpc]) (by decide)
  | read bs hpc hne =>
    rw [get_set]
    have hnf : (s.get e).failed = false :=
      stopped_busy _ (hs.stopped e) (by rw [hpc]; rfl) (by rw [hpc]; rfl)
    have hrd := hh.rd
    have hwr := hh.wr
    have heven := hh.even hnf
    rw [hpc] at hrd hwr heven
    simp only [bufferOf, writtenOf, unwrittenOf, List.append_nil] at hrd hwr heven
    have hall : (s.get e).rd ++ bs = (s.get e).wr ++ bs := by rw [heven]
    refine ⟨?_, ?_, hh.pos, fun _ => hall, ⟨bs, hall.symm⟩, ?_⟩
    · simp only [bufferOf, SockWrite.start, List.nil_append, hrd]
    · simp only [writtenOf, SockWrite.start, List.append_nil, hwr]
    · rintro _ ⟨⟩
      exact hne
  | recvRet rc hpc hrc =>
    rw [get_set]
    exact flow_ret_nil _ _ hh (by simp [hpc]) hrc
  | sendmsg w rc hpc =>
    rw [get_set]
    exact flow_sendmsg _ w rc hh hpc
      (stopped_busy _ (hs.stopped e) (by rw [hpc]; rfl) (by rw [hpc]; rfl))
  | put hpc =>
    refine flow_congr _ _ ?_ (put_get_core (s.jump e .idle) e).1
    rw [Con.jump, get_set]
    exact hmove _ _ hpc (by simp) (by simp) rfl
  | close t hpc h =>
    have hf := closeStep_frame s t e hpc h
    have hw (pc : Pc) (hc : pc.closing = 1) (w : SockWrite) : pc ≠ .write w := by
      rintro rfl
      cases hc
    exact hmove _ _ rfl (hw _ hf.closing.1) (hw _ hf.closing.2) (by rw [hf.half e])
  | closePut hpc =>
    rw [put_jump]
    refine flow_congr _ _ ?_ (put_get_core _ e).1
    rw [Con.jump, get_set]
    refine hmove _ _ hpc (by simp) (by simp) ?_
    cases e <;> rfl

theorem stopped_work (s t : Con) (e : End) (i : In) (hs : Streams s) (h : WorkStep s e i t) :
    Stopped (t.get e) := by
  have hh := hs.stopped e
  have hbusy (pc : Pc) (hpc : (s.get e).pc = pc) (hc : pc.closing = 0)
      (ho : pc.outside = false) : (s.get e).failed = false :=
    stopped_busy _ hh (hpc ▸ hc) (hpc ▸ ho)
  -- a work that is outside of the loop body before and after the step
  have hout (h' : Half) (pc : Pc) (hpc : (s.get e).pc = pc) (hc : pc.closing = 0)
      (ho : h'.pc.outside = true) (hd : (h'.flag, h'.calls) = ((s.get e).flag, (s.get e).calls)) :
      Stopped h' := by
    simp only [Prod.mk.injEq] at hd
    intro hf
    rw [Half.failed, hd.2] at hf
    rcases hh hf with h1 | h1
    · rw [hpc, hc] at h1
      cases h1
    · exact Or.inr ⟨hd.1.trans h1.1, ho⟩
  cases h with
  | start hpc hp =>
    rw [get_set]
    exact hout _ _ hpc rfl rfl rfl
  | test hpc =>
    rw [Con.jump, get_set]
    by_cases hfl : (s.get e).flag = true
    · intro hf
      rcases hh hf with h1 | h1
      · rw [hpc] at h1
        cases h1
      · rw [hfl] at h1
        cases h1.1
    · exact hout _ _ hpc rfl (by simp [hfl, Pc.outside]) rfl
  | nomem hpc =>
    rw [get_set]
    intro hf
    rw [ret_failed_nil, hbusy _ hpc rfl rfl] at hf
    cases hf
  | read bs hpc hne =>
    rw [get_set]
    intro hf
    exact absurd hf (by simpa [Half.failed] using hbusy _ hpc rfl rfl)
  | recvRet rc hpc hrc =>
    rw [get_set]
    intro hf
    rw [ret_failed_nil, hbusy _ hpc rfl rfl] at hf
    cases hf
  | sendmsg w rc hpc =>
    rw [get_set]
    exact sendmsg_stopped _ w rc (hbusy _ hpc rfl rfl)
  | put hpc =>
    obtain ⟨h1, h2⟩ := put_get_core (s.jump e .idle) e
    refine stopped_congr _ _ ?_ h1 h2.trans
    rw [Con.jump, get_set]
    exact hout _ _ hpc rfl rfl rfl
  | close t hpc h => exact fun _ => Or.inl (closeStep_frame s t e hpc h).closing.2
  | closePut hpc =>
    rw [put_jump]
    obtain ⟨h1, h2⟩ := put_get_core (Con.jump { s with drops := s.drops + 1 } e .test) e
    refine stopped_congr _ _ (fun _ => Or.inr ⟨?_, ?_⟩) h1 h2.trans
    · have hfl := hs.phase.flag e e (by rw [hpc]; cases e <;> rfl)
      rw [Con.jump, get_set]
      cases e <;> exact hfl
    · rw [get_jump_pc]
      rfl

/-- The callbacks leave both directions alone. -/
theorem conStep_callback (s t : Con) (a : Act) (h : conStep s a = some t) :
    (∃ e i, a = .work e i ∧ WorkStep s e i t) ∨
      ∀ x, (t.get x).core = (s.get x).core ∧ (t.get x).flag = (s.get x).flag := by
  have hset (u : Con) (e : End) (h : Half) (hu : ∀ x, u.get x = s.get x)
      (hd : (h.core, h.flag) = ((s.get e).core, (s.get e).flag)) (x : End) :
      ((u.set e h).get x).core = (s.get x).core ∧ ((u.set e h).get x).flag = (s.get x).flag := by
    simp only [Prod.mk.injEq] at hd
    by_cases hx : x = e
    · rw [hx, get_set]
      exact hd
    · rw [get_set_ne u e x h hx, hu x]
      exact ⟨rfl, rfl⟩
  cases a with
  | dataReady e =>
    simp only [conStep] at h
    split at h
    · cases h
      right
      split
      · exact hset s e _ (fun _ => rfl) rfl
      · exact fun _ => ⟨rfl, rfl⟩
    · cases h
  | get e =>
    simp only [conStep] at h
    split at h
    · cases h
      exact Or.inr (hset _ e _ (by rintro (_ | _) <;> rfl) rfl)
    · cases h
  | queueWork e =>
    simp only [conStep] at h
    split at h
    · cases h
      right
      split
      · exact hset s e _ (fun _ => rfl) rfl
      · exact hset s e _ (fun _ => rfl) rfl
    · cases h
  | putBack e =>
    simp only [conStep] at h
    split at h
    · cases h
      right
      intro x
      obtain ⟨h1, h2⟩ := put_get_core (s.set e { s.get e with toPut := (s.get e).toPut - 1 }) x
      rw [h1, h2]
      exact hset s e { s.get e with toPut := (s.get e).toPut - 1 } (fun _ => rfl) rfl x
    · cases h
  | work e i => exact Or.inl ⟨e, i, rfl, workStep_cases s t e i h⟩

theorem streams_step (s : Con) (a : Act) (t : Con) (hs : Streams s) (h : conStep s a = some t) :
    Streams t := by
  refine ⟨counted_step s a t hs.counted h, phase_step s a t hs.counted hs.phase h, ?_, ?_⟩
  · intro x
    rcases conStep_callback s t a h with ⟨e, i, rfl, hw⟩ | hcb
    · by_cases hx : x = e
      · subst hx
        exact flow_work s t x i hs hw
      · exact flow_congr _ _ (hs.flow x) (workStep_other s t e x i hx hw).1
    · exact flow_congr _ _ (hs.flow x) (hcb x).1
  · intro x
    rcases conStep_callback s t a h with ⟨e, i, rfl, hw⟩ | hcb
    · by_cases hx : x = e
      · subst hx
        exact stopped_work s t x i hs hw
      · obtain ⟨h1, h2⟩ := workStep_other s t e x i hx hw
        exact stopped_congr _ _ (hs.stopped x) h1 h2
    · exact stopped_congr _ _ (hs.stopped x) (hcb x).1 (hcb x).2.trans

theorem streams_accepted : Streams accepted := by
  have hflow : Flow connectedHalf := ⟨rfl, rfl, nofun, fun _ => rfl, List.prefix_rfl, nofun⟩
  refine ⟨counted_accepted, phase_accepted, ?_, ?_⟩
  · rintro (_ | _) <;> exact hflow
  · rintro (_ | _) hf <;> cases hf

theorem streams_run (acts : List Act) (s : Con) (h : Lts.run conStep accepted acts = some s) :
    Streams s :=
  Lts.run_invariant Streams streams_step _ s acts streams_accepted h

/-- After a failed call of a direction neither its calls nor what it wrote change. -/
theorem failed_step (s : Con) (a : Act) (t : Con) (e : End) (hs : Streams s)
    (hf : (s.get e).failed = true) (h : conStep s a = some t) :
    (t.get e).wr = (s.get e).wr ∧ (t.get e).calls = (s.get e).calls := by
  have hcore (x : Half) (hd : x.core = (s.get e).core) :
      x.wr = (s.get e).wr ∧ x.calls = (s.get e).calls := by
    simp only [Half.core, Prod.mk.injEq] at hd
    exact hd.2.2
  rcases conStep_callback s t a h with ⟨y, i, rfl, hw⟩ | hcb
  · by_cases hx : e = y
    · subst hx
      have hbusy (pc : Pc) (hpc : (s.get e).pc = pc) (hc : pc.closing = 0)
          (ho : pc.outside = false) : False := by
        have hnf := stopped_busy _ (hs.stopped e) (hpc ▸ hc) (hpc ▸ ho)
        rw [hf] at hnf
        cases hnf
      cases hw with
      | start hpc hp =>
        rw [get_set]
        exact ⟨rfl, rfl⟩
      | test hpc =>
        rw [Con.jump, get_set]
        exact ⟨rfl, rfl⟩
      | nomem hpc => exact (hbusy _ hpc rfl rfl).elim
      | read bs hpc hne => exact (hbusy _ hpc rfl rfl).elim
      | recvRet rc hpc hrc => exact (hbusy _ hpc rfl rfl).elim
      | sendmsg w rc hpc => exact (hbusy _ hpc rfl rfl).elim
      | put hpc =>
        rw [put_get, Con.jump, get_set]
        exact ⟨rfl, rfl⟩
      | close t hpc h =>
        rw [(closeStep_frame s t e hpc h).half e]
        exact ⟨rfl, rfl⟩
      | closePut hpc =>
        rw [put_jump, put_get, Con.jump, get_set]
        cases e <;> exact ⟨rfl, rfl⟩
    · exact hcore _ (workStep_other s t y e i hx hw).1
  · exact hcore _ (hcb e).1

theorem failed_run (more : List Act) (s t : Con) (e : End) (hs : Streams s)
    (hf : (s.get e).failed = true) (h : Lts.run conStep s more = some t) :
    (t.get e).wr = (s.get e).wr := by
  have hstep (u : Con) (a : Act) (v : Con)
      (hu : Streams u ∧ (u.get e).failed = true ∧ (u.get e).wr = (s.get e).wr)
      (huv : conStep u a = some v) :
      Streams v ∧ (v.get e).failed = true ∧ (v.get e).wr = (s.get e).wr := by
    obtain ⟨hu, huf, huw⟩ := hu
    obtain ⟨h1, h2⟩ := failed_step u a v e hu huf huv
    refine ⟨streams_step u a v hu huv, ?_, h1.trans huw⟩
    rw [Half.failed, h2]
    exact huf
  exact (Lts.run_invariant _ hstep s t more ⟨hs, hf, rfl⟩ h).2.2

/-- In each direction the output socket accepted a prefix of what was read, call by call; a call
with a positive result wrote what it read, and one that failed midway is the last to write. -/
theorem tcpRun_transparent (acts : List Act) (s : Con)
    (h : Lts.run conStep accepted acts = some s) (e : End) :
    (s.get e).wr <+: (s.get e).rd ∧
    (s.get e).rd = ((s.get e).calls.map Call.read).flatten ++ bufferOf (s.get e).pc ∧
    (s.get e).wr = ((s.get e).calls.map Call.written).flatten ++ writtenOf (s.get e).pc ∧
    (∀ c ∈ (s.get e).calls, 0 < c.rc → c.written = c.read ∧ c.rc = c.read.length) ∧
    (∀ c ∈ (s.get e).calls, c.failed = true →
      ∀ more t, Lts.run conStep s more = some t → (t.get e).wr = (s.get e).wr) := by
  have hs := streams_run acts s h
  have hflow := hs.flow e
  refine ⟨hflow.pre, hflow.rd, hflow.wr, hflow.pos, ?_⟩
  intro c hc hcf more t ht
  exact failed_run more s t e hs (List.any_eq_true.mpr ⟨c, hc, hcf⟩) ht

/- The right socket takes one byte of two and then fails. -/
def halfForwarded : List Act :=
  wakeUp .l ++ [.work .l .tau, .work .l .tau, .work .l (.read [1, 2]), .work .l (.sendmsg 1),
    .work .l (.sendmsg (-EPIPE))]

theorem halfForwarded_transparent :
    ∃ s, Lts.run conStep accepted halfForwarded = some s ∧ (s.get .l).wr = [1] ∧
      (s.get .l).wr <+: (s.get .l).rd ∧
      ∀ more t, Lts.run conStep s more = some t → (t.get .l).wr = [1] := by
  have hrun : Lts.run conStep accepted halfForwarded =
      some ((Lts.run conStep accepted halfForwarded).getD accepted) := by decide
  obtain ⟨hpre, -, -, -, hfail⟩ := tcpRun_transparent halfForwarded _ hrun .l
  refine ⟨_, hrun, by decide, hpre, fun more t ht => ?_⟩
  exact (hfail ⟨[1, 2], [1], -1⟩ (by decide) (by decide) more t ht).trans (by decide)

end PepDna.Tcp
