import PepDna.Tcp.Machine
import PepDna.Threads

/-!
# TCP2CCN: the first bytes of a client become an Interest (ccn.c)

`pepdna_con_i2c_work` translates the first bytes of a client into an Interest for the CCN relay and
forwards all later bytes as they are. Whether the first bytes have been read is kept in
`request_done`, one variable of the module, which the works of all connections share.

What the sockets return is an input. The Interest itself, built by ccn-lite from the URL and a
random nonce, is not modelled: `sendmsg` after a request is the return value of
`pepdna_send_to_ccn_relay`. The arrays `content` and `url` are taken to be long enough.
-/

namespace PepDna.Ccn

/- ### `parse_request` -/

/-- The kernel's `isspace`. -/
def isspace (b : Byte) : Bool := (9 ≤ b && b ≤ 13) || b == 32 || b == 160

def strstr (s pat : Bytes) : Option Bytes := s.tails.find? (pat.isPrefixOf ·)

/-- The second word, as `sscanf` reads it with `"%*s %s"`. -/
def secondWord (pos : Bytes) : Bytes :=
  ((pos.dropWhile (!isspace ·)).dropWhile isspace).takeWhile (!isspace ·)

/-- `"/ndn/test/"` and the word behind the first `"GET"` of the request. -/
def parseRequest (request : Bytes) : Bytes :=
  let content := match strstr (request.takeWhile (· ≠ 0)) [71, 69, 84] with
    | some pos => secondWord pos
    | none => []
  [47, 110, 100, 110, 47, 116, 101, 115, 116, 47] ++ content

/- ### The work -/

/- `branch` is the test of `request_done`; `fwdRequest` and `send` are inside `pepdna_fwd_request`,
`fwd` and `write` inside `pepdna_con_i2i_fwd`. -/
inductive Pc where
  | idle
  | test
  | branch
  | fwdRequest
  | send (bs : Bytes)
  | fwd
  | write (w : SockWrite)
  | close
  | put
  deriving Repr, DecidableEq

/-- What the work did: a call of `pepdna_fwd_request`, with the URL of the Interest if it came to
one, a call of `pepdna_con_i2i_fwd`, or of `pepdna_con_close`. -/
inductive Action where
  | request (read : Bytes) (url : Option Bytes) (rc : Int)
  | forward (read written : Bytes) (rc : Int)
  | close
  deriving Repr, DecidableEq

/- `requested` and `log` are history: whether a request of this connection has set `request_done`,
and what its work did. -/
structure Con where
  lflag : Bool
  pending : Bool
  pc : Pc
  requested : Bool
  log : List Action
  deriving Repr, DecidableEq

def accepted : Con := ⟨true, false, .idle, false, []⟩

/-- After `pepdna_fwd_request` returned `rc`. Unlike below, `-EAGAIN` closes the connection. -/
def Con.requestRet (c : Con) (read : Bytes) (url : Option Bytes) (rc : Int) : Con :=
  { c with log := c.log ++ [.request read url rc], pc := if rc ≤ 0 then .close else .test }

/-- After `pepdna_con_i2i_fwd` returned `rc`. -/
def Con.forwardRet (c : Con) (read written : Bytes) (rc : Int) : Con :=
  { c with
    log := c.log ++ [.forward read written rc]
    pc := if 0 < rc then .test else if rc = -EAGAIN then .put else .close }

/-- One `kernel_sendmsg` of `pepdna_con_i2i_fwd` and what follows it. -/
def Con.sendmsg (c : Con) (w : SockWrite) (rc : Int) : Con :=
  match pepdnaSockWriteIter w rc with
  | .again w' => { c with pc := .write w' }
  | .ret v =>
    let read := w.done ++ w.rest
    c.forwardRet read (w.done ++ w.accepted rc) (if v < 0 then -1 else read.length)

inductive In where
  | tau
  | nomem
  | read (bs : Bytes)
  | recvRet (rc : Int)
  | sendmsg (rc : Int)
  deriving Repr, DecidableEq

/-- One step of `pepdna_con_i2c_work`, on `request_done` and the fields of its connection. -/
def i2cWork (i : In) (requestDone : Bool) (c : Con) : Option (Bool × Con) :=
  match c.pc, i with
  | .idle, .tau =>
    if c.pending then some (requestDone, { c with pending := false, pc := .test }) else none
  | .test, .tau => some (requestDone, { c with pc := if c.lflag then .branch else .put })
  | .branch, .tau => some (requestDone, { c with pc := if requestDone then .fwd else .fwdRequest })
  | .fwdRequest, .nomem => some (requestDone, c.requestRet [] none (-ENOMEM))
  | .fwdRequest, .recvRet rc =>
    if rc ≤ 0 then some (requestDone, c.requestRet [] none rc) else none
  | .fwdRequest, .read bs =>
    if bs ≠ [] ∧ bs.length ≤ Tcp.MAX_BUF_SIZE then some (requestDone, { c with pc := .send bs })
    else none
  | .send bs, .sendmsg rc =>
    some (true, { c.requestRet bs (some (parseRequest bs)) rc with requested := true })
  | .fwd, .nomem => some (requestDone, c.forwardRet [] [] (-ENOMEM))
  | .fwd, .recvRet rc =>
    if rc ≤ 0 then some (requestDone, c.forwardRet [] [] rc) else none
  | .fwd, .read bs =>
    if bs ≠ [] ∧ bs.length ≤ Tcp.MAX_BUF_SIZE then
      some (requestDone, { c with pc := .write (SockWrite.start bs) })
    else none
  | .write w, .sendmsg rc =>
    if rc ≤ w.rest.length then some (requestDone, c.sendmsg w rc) else none
  | .close, .tau =>
    some (requestDone, { c with lflag := false, log := c.log ++ [.close], pc := .put })
  | .put, .tau => some (requestDone, { c with pc := .idle })
  | _, _ => none

inductive Act where
  -- the callback queues the work
  | dataReady
  -- `pepdna_con_c2i_work` closes the connection
  | hangup
  | work (i : In)
  deriving Repr, DecidableEq

def conStep : Act → Bool → Con → Option (Bool × Con)
  | .dataReady, requestDone, c => some (requestDone, { c with pending := c.pending || c.lflag })
  | .hangup, requestDone, c => some (requestDone, { c with lflag := false })
  | .work i, requestDone, c => i2cWork i requestDone c

def start (n : ℕ) : Pool Bool Con := ⟨false, List.replicate n accepted⟩

/- The work that tests `request_done` finds what its own connection has left there. -/
def seesOwn (p : Pool Bool Con) (a : ℕ × Act) : Bool :=
  match p.threads[a.1]?, a.2 with
  | some c, .work .tau => c.pc != .branch || p.shared == c.requested
  | _, _ => true

theorem sendmsg_requested (c : Con) (w : SockWrite) (rc : Int) :
    (c.sendmsg w rc).requested = c.requested := by
  unfold Con.sendmsg
  split <;> rfl

/-- With its own value of `request_done` the connection takes the same step. -/
theorem i2cWork_own (i : In) (g g' : Bool) (c c' : Con)
    (hg : i = .tau → c.pc = .branch → g = c.requested) (h : i2cWork i g c = some (g', c')) :
    i2cWork i c.requested c = some (c'.requested, c') := by
  unfold i2cWork at h ⊢
  split at h
  case h_3 hpc =>
    -- the only line that reads `request_done`
    rw [← hg rfl hpc]
    cases h
    rw [hg rfl hpc]
  case h_11 w rc hpc =>
    split at h
    · next hrc =>
      cases h
      rw [if_pos hrc, sendmsg_requested]
    · cases h
  case h_14 => cases h
  all_goals
    first
    | cases h
      rfl
    | split at h
      · next hc =>
        cases h
        exact if_pos hc
      · cases h

theorem conStep_own (p : Pool Bool Con) (k : ℕ) (a : Act) (c : Con) (g' : Bool) (c' : Con)
    (ho : seesOwn p (k, a) = true) (hc : p.threads[k]? = some c)
    (h : conStep a p.shared c = some (g', c')) :
    conStep a c.requested c = some (c'.requested, c') := by
  cases a with
  | dataReady | hangup =>
    cases h
    rfl
  | work i =>
    refine i2cWork_own i p.shared g' c c' ?_ h
    rintro rfl hpc
    simpa [seesOwn, hc, hpc] using ho

/- ### A connection on its own -/

/-- The client's bytes were read by this call. -/
def Action.reads : Action → Bool
  | .request read _ _ => read ≠ []
  | .forward read _ _ => read ≠ []
  | .close => false

/-- The bytes have been translated into an Interest. -/
def Action.translates : Action → Bool
  | .request read url _ => url = some (parseRequest read)
  | _ => false

def Action.forwards : Action → Bool
  | .forward _ _ _ => true
  | _ => false

theorem filter_append_silent (log : List Action) (a : Action) (ha : a.reads = false) :
    (log ++ [a]).filter Action.reads = log.filter Action.reads := by
  rw [List.filter_append, List.filter_cons_of_neg (by simp [ha]), List.filter_nil, List.append_nil]

/-- The first bytes of the client are translated, all later ones are forwarded. -/
def Handled (log : List Action) : Prop :=
  (∀ a ∈ (log.filter Action.reads).take 1, a.translates = true) ∧
    ∀ a ∈ (log.filter Action.reads).drop 1, a.forwards = true

instance (log : List Action) : Decidable (Handled log) := instDecidableAnd

theorem handled_append_forward (log : List Action) (a : Action) (h : Handled log)
    (hne : log.filter Action.reads ≠ []) (ha : a.forwards = true) : Handled (log ++ [a]) := by
  have hlen : 1 ≤ (log.filter Action.reads).length := List.length_pos_iff.mpr hne
  unfold Handled
  rw [List.filter_append, List.take_append_of_le_length hlen, List.drop_append_of_le_length hlen,
    List.forall_mem_append]
  refine ⟨h.1, h.2, ?_⟩
  intro b hb
  have hmem := (List.mem_filter.mp hb).1
  rw [List.mem_singleton] at hmem
  rw [hmem]
  exact ha

theorem handled_append_silent (log : List Action) (a : Action) (h : Handled log)
    (ha : a.reads = false) : Handled (log ++ [a]) := by
  unfold Handled
  rw [filter_append_silent log a ha]
  exact h

/-- What the work knows about the request of its connection. -/
def Pc.expects : Pc → Option Bool
  | .fwdRequest => some false
  | .send _ => some false
  | .fwd => some true
  | .write _ => some true
  | _ => none

structure Solo (c : Con) : Prop where
  handled : Handled c.log
  read : c.requested = true ↔ c.log.filter Action.reads ≠ []
  expected : ∀ b ∈ c.pc.expects, c.requested = b
  sending : ∀ bs, c.pc = .send bs → bs ≠ []

theorem solo_accepted : Solo accepted := by
  refine ⟨⟨?_, ?_⟩, ?_, ?_, ?_⟩ <;> simp [accepted, Pc.expects]

/-- Outside the two forwarding functions the work knows nothing. -/
theorem solo_outside (c : Con) (hlog : Handled c.log)
    (hread : c.requested = true ↔ c.log.filter Action.reads ≠ []) (hpc : c.pc.expects = none) :
    Solo c := by
  refine ⟨hlog, hread, ?_, ?_⟩
  · rw [hpc]
    simp
  · intro bs h
    rw [h] at hpc
    cases hpc

theorem solo_forwardRet (c : Con) (read written : Bytes) (rc : Int) (hs : Solo c)
    (hreq : c.requested = true) : Solo (c.forwardRet read written rc) := by
  have hne := hs.read.mp hreq
  refine solo_outside _ (handled_append_forward c.log _ hs.handled hne rfl) ?_ ?_
  · refine ⟨?_, fun _ => hreq⟩
    intro _ h
    rw [Con.forwardRet, List.filter_append, List.append_eq_nil_iff] at h
    exact hne h.1
  · unfold Con.forwardRet
    dsimp only
    split
    · rfl
    · split <;> rfl

theorem requestRet_pc (c : Con) (read : Bytes) (url : Option Bytes) (rc : Int) :
    (c.requestRet read url rc).pc.expects = none := by
  unfold Con.requestRet
  dsimp only
  split <;> rfl

/-- `pepdna_fwd_request` returns without having read anything. -/
theorem solo_requestRet (c : Con) (rc : Int) (hs : Solo c) : Solo (c.requestRet [] none rc) := by
  have hf : (c.requestRet [] none rc).log.filter Action.reads = c.log.filter Action.reads :=
    filter_append_silent c.log _ rfl
  refine solo_outside _ (handled_append_silent c.log _ hs.handled rfl) ?_ (requestRet_pc c _ _ rc)
  rw [hf]
  exact hs.read

/-- The request has been read and translated. -/
theorem solo_request (c : Con) (bs : Bytes) (rc : Int) (hs : Solo c) (hpc : c.pc = .send bs) :
    Solo { c.requestRet bs (some (parseRequest bs)) rc with requested := true } := by
  have hbs := hs.sending bs hpc
  have hreq : c.requested = false := hs.expected false (by rw [hpc]; rfl)
  have hnone : c.log.filter Action.reads = [] := by
    by_contra hne
    rw [hs.read.mpr hne] at hreq
    cases hreq
  have hreads : (Action.request bs (some (parseRequest bs)) rc).reads = true := by
    simp [Action.reads, hbs]
  have hf : (c.log ++ [Action.request bs (some (parseRequest bs)) rc]).filter Action.reads =
      [Action.request bs (some (parseRequest bs)) rc] := by
    rw [List.filter_append, hnone, List.nil_append, List.filter_cons_of_pos hreads,
      List.filter_nil]
  refine solo_outside _ ?_ ?_ (requestRet_pc c bs (some (parseRequest bs)) rc)
  · unfold Handled Con.requestRet
    dsimp only
    rw [hf]
    simp [Action.translates]
  · unfold Con.requestRet
    dsimp only
    rw [hf]
    simp

/-- A line that logs nothing; inside the two functions it keeps what the work knows. -/
theorem solo_move (c c' : Con) (hs : Solo c) (hpart : (c'.log, c'.requested) = (c.log, c.requested))
    (hexp : ∀ b ∈ c'.pc.expects, c.requested = b) (hsend : ∀ bs, c'.pc = .send bs → bs ≠ []) :
    Solo c' := by
  simp only [Prod.mk.injEq] at hpart
  obtain ⟨hlog, hreq⟩ := hpart
  refine ⟨hlog ▸ hs.handled, ?_, ?_, hsend⟩
  · rw [hlog, hreq]
    exact hs.read
  · rw [hreq]
    exact hexp

theorem solo_branch (c : Con) (hs : Solo c) :
    Solo { c with pc := if c.requested then .fwd else .fwdRequest } := by
  cases hr : c.requested with
  | true => refine solo_move c _ hs (by rw [← hr]) ?_ ?_ <;> simp [Pc.expects, hr]
  | false => refine solo_move c _ hs (by rw [← hr]) ?_ ?_ <;> simp [Pc.expects, hr]

theorem solo_sendmsg (c : Con) (w : SockWrite) (rc : Int) (hs : Solo c)
    (hreq : c.requested = true) : Solo (c.sendmsg w rc) := by
  unfold Con.sendmsg
  split
  · refine solo_move c _ hs rfl ?_ ?_ <;> simp [Pc.expects, hreq]
  · exact solo_forwardRet c _ _ _ hs hreq

theorem solo_work (i : In) (g : Bool) (c c' : Con) (hs : Solo c) (h : i2cWork i c.requested c =
    some (g, c')) : Solo c' := by
  -- inside `pepdna_con_i2i_fwd`
  have hlate (hpc : c.pc.expects = some true) : c.requested = true := hs.expected true hpc
  unfold i2cWork at h
  split at h
  · split at h
    · cases h
      refine solo_move c _ hs rfl ?_ ?_ <;> simp [Pc.expects]
    · cases h
  · cases h
    cases c.lflag <;> refine solo_move c _ hs rfl ?_ ?_ <;> simp [Pc.expects]
  · cases h
    exact solo_branch c hs
  · cases h
    exact solo_requestRet c _ hs
  · split at h
    · cases h
      exact solo_requestRet c _ hs
    · cases h
  · next hpc =>
    split at h
    · next hbs =>
      cases h
      have hreq : c.requested = false := hs.expected false (by rw [hpc]; rfl)
      refine solo_move c _ hs rfl ?_ ?_
      · simp [Pc.expects, hreq]
      · simp [hbs.1]
    · cases h
  · next bs rc hpc =>
    cases h
    exact solo_request c bs rc hs hpc
  · next hpc =>
    cases h
    exact solo_forwardRet c _ _ _ hs (hlate (by rw [hpc]; rfl))
  · next hpc =>
    split at h
    · cases h
      exact solo_forwardRet c _ _ _ hs (hlate (by rw [hpc]; rfl))
    · cases h
  · next hpc =>
    split at h
    · cases h
      have hreq := hlate (by rw [hpc]; rfl)
      refine solo_move c _ hs rfl ?_ ?_ <;> simp [Pc.expects, hreq]
    · cases h
  · next w rc hpc =>
    split at h
    · cases h
      exact solo_sendmsg c w rc hs (hlate (by rw [hpc]; rfl))
    · cases h
  · cases h
    refine solo_outside _ (handled_append_silent c.log .close hs.handled rfl) ?_ rfl
    dsimp only
    rw [filter_append_silent c.log .close rfl]
    exact hs.read
  · cases h
    refine solo_move c _ hs rfl ?_ ?_ <;> simp [Pc.expects]
  · cases h

theorem solo_step (p : Bool × Con) (a : Act) (q : Bool × Con)
    (hp : p.1 = p.2.requested ∧ Solo p.2) (h : Pool.alone conStep p a = some q) :
    q.1 = q.2.requested ∧ Solo q.2 := by
  obtain ⟨g, c⟩ := p
  obtain ⟨g', c'⟩ := q
  obtain ⟨hg, hs⟩ := hp
  dsimp only at hg hs
  subst hg
  cases a with
  | dataReady =>
    cases h
    exact ⟨rfl, hs.handled, hs.read, hs.expected, hs.sending⟩
  | hangup =>
    cases h
    exact ⟨rfl, hs.handled, hs.read, hs.expected, hs.sending⟩
  | work i =>
    have hw : i2cWork i c.requested c = some (g', c') := h
    have hown := i2cWork_own i c.requested g' c c' (fun _ _ => rfl) hw
    refine ⟨?_, solo_work i g' c c' hs hw⟩
    exact (Prod.mk.inj (Option.some.inj (hw.symm.trans hown))).1

/- ### Connections do not influence each other -/

theorem ccnRun_noninterference (n : ℕ) (acts : List (ℕ × Act)) (s : Pool Bool Con)
    (ho : Lts.Along (Pool.input conStep) (fun p a => seesOwn p a = true) (start n) acts)
    (h : Lts.run (Pool.input conStep) (start n) acts = some s) (k : ℕ) (hk : k < n) :
    ∃ c, s.threads[k]? = some c ∧ Handled c.log ∧
      Lts.run (Pool.alone conStep) (false, accepted) (Pool.inputsOf k acts) =
        some (c.requested, c) := by
  have hstart : (start n).threads[k]? = some accepted := by
    rw [start, List.getElem?_replicate, if_pos hk]
  obtain ⟨c, hc, hrun⟩ := Pool.run_alone conStep Con.requested _
    (fun p k a c g' c' ho hc h => conStep_own p k a c g' c' ho hc h) (start n) s acts ho h k
    accepted hstart
  have hsolo := Lts.run_invariant (fun p : Bool × Con => p.1 = p.2.requested ∧ Solo p.2) solo_step
    (false, accepted) (c.requested, c) _ ⟨rfl, solo_accepted⟩ hrun
  exact ⟨c, hc, hsolo.2.handled, hrun⟩

/-- `"GET a"` -/
def getA : Bytes := [71, 69, 84, 32, 97]

/-- The work of the connection is started and gets to its test of `request_done`. -/
def starts (k : ℕ) : List (ℕ × Act) :=
  [(k, .dataReady), (k, .work .tau), (k, .work .tau)]

/-- One call of a forwarding function, which reads `bs` and sends `n` bytes. -/
def moves (k : ℕ) (bs : Bytes) (n : ℕ) : List (ℕ × Act) :=
  [(k, .work (.read bs)), (k, .work (.sendmsg n))]

/-- Both works test `request_done` before either of them has sent its Interest. -/
def bothFirst : List (ℕ × Act) :=
  starts 0 ++ starts 1 ++ [(0, .work .tau), (1, .work .tau)] ++ moves 0 getA 20 ++ moves 1 getA 20 ++
    [(1, .work .tau), (1, .work .tau)] ++ moves 1 [97] 1

theorem bothFirst_noninterference :
    ∃ c, ((Lts.run (Pool.input conStep) (start 2) bothFirst).getD (start 0)).threads[1]? = some c ∧
      Handled c.log ∧
      Lts.run (Pool.alone conStep) (false, accepted) (Pool.inputsOf 1 bothFirst) =
        some (c.requested, c) :=
  ccnRun_noninterference 2 bothFirst _ (by decide +kernel)
    (Lts.run_getD _ _ _ (by decide +kernel)) 1 (by decide)

/-- The second client sends its request after the first one has sent its own. -/
def oneByOne : List (ℕ × Act) :=
  starts 0 ++ [(0, .work .tau)] ++ moves 0 getA 20 ++ starts 1 ++ [(1, .work .tau)] ++ moves 1 getA 5

/- The request of the second client is forwarded as it is; alone, it becomes an Interest. -/
theorem oneByOne_interferes :
    ∃ s c d, Lts.run (Pool.input conStep) (start 2) oneByOne = some s ∧ s.threads[1]? = some c ∧
      Lts.run (Pool.alone conStep) (false, accepted) (Pool.inputsOf 1 oneByOne) = some d ∧
      c.log = [.forward getA getA 5] ∧
      d.2.log = [.request getA (some (parseRequest getA)) 5] ∧ ¬Handled c.log := by
  refine ⟨(Lts.run (Pool.input conStep) (start 2) oneByOne).getD (start 0),
    ⟨true, false, .test, false, [.forward getA getA 5]⟩,
    (true, ⟨true, false, .test, true, [.request getA (some (parseRequest getA)) 5]⟩), ?_⟩
  decide +kernel

end PepDna.Ccn
