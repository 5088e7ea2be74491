import PepDna.Wakeup

/-!
# `pepdna_tcp_connect` line by line (tcp_connect.c:137-185, minip.c:955-994, 1142-1177, rina.c:298-349)

In MINIP2TCP and RINA2TCP the connect work tells the other side that the server
has answered, and only then fills in the connection: the numbers of the
handshake, `lsock`, its callbacks, `lflag`. What the other side does next is
handled on the same connection by another context. Here every one of these lines
is a step, and so is the line by which a handler loads `con->lsock`.
-/

namespace PepDna.Minip

/- The lines of `pepdna_tcp_connect` in MINIP2TCP, from `kernel_connect` on. -/
inductive ConnectPc where
  | connect
  | respond
  | state
  | nextSeq
  | lastAcked
  | nextRecv
  | lsock
  | callbacks
  | lflag
  | wake
  | done
  deriving Repr, DecidableEq

/- `rx` is a DATA packet whose handler has loaded `con->lsock`, with what it found there. `taken`
says that a DATA packet has moved `next_recv`, `nullWrite` that `pepdna_sock_write` was given a null
socket, `refused` that the first DATA packet was answered as out of order. -/
structure Joining where
  con : Con
  pc : ConnectPc
  rx : Option (DataPdu × Bool)
  taken : Bool
  nullWrite : Bool
  refused : Bool
  deriving Repr, DecidableEq

def joiningAlloc (syn : SynTuple) : Joining :=
  ⟨pepdnaConAlloc .minip2tcp syn syn.hashId, .connect, none, false, false, false⟩

def connectStep (j : Joining) (rc : Int) : Option Joining :=
  let c := j.con
  match j.pc with
  | .connect =>
    some (if rc < 0 then { j with con := pepdnaConClose c, pc := .done }
      else { j with pc := .respond })
  | .respond =>
    some (if rc < 0 then { j with con := pepdnaConClose c, pc := .done }
      else { j with
        con := transmit c (.response c.id MINIP_FIRST_SEQ (MINIP_FIRST_SEQ + 1)), pc := .state })
  | .state => some { j with con := { c with state := .established }, pc := .nextSeq }
  | .nextSeq => some { j with con := { c with nextSeq := u32 (c.nextSeq + 1) }, pc := .lastAcked }
  | .lastAcked =>
    some { j with con := { c with lastAcked := u32 (c.lastAcked + 1) }, pc := .nextRecv }
  | .nextRecv => some { j with con := { c with nextRecv := u32 (c.nextRecv + 1) }, pc := .lsock }
  | .lsock => some { j with con := { c with lsock := true }, pc := .callbacks }
  | .callbacks => some { j with con := { c with userData := true }, pc := .lflag }
  | .lflag => some { j with con := { c with lflag := true }, pc := .wake }
  | .wake => some { j with con := wakeLsock c, pc := .done }
  | .done => none

/-- `pepdna_con_minip2i_fwd` after the line `lsock = con->lsock`. -/
def minip2iFwdWith (c : Con) (lsock : Bool) (d : DataPdu) : Con :=
  if d.seq = c.nextRecv then
    if lsock then
      let buf := d.sdu.take d.sduLen
      if buf = [] then minip2iFinish c d 0
      else { c with rx := some ⟨d, SockWrite.start buf⟩ }
    else { c with oops := true }
  else pepdnaMinipSendAck c d.ts

theorem minip2iFwdWith_lsock (c : Con) (d : DataPdu) :
    minip2iFwdWith c c.lsock d = pepdnaConMinip2iFwd c d := rfl

inductive JoinAct where
  | connect (rc : Int)
  | data (d : DataPdu)
  | forward
  | own (a : Act)

/- The steps of the connection that are neither the connect nor the arrival of a DATA packet. A
REQUEST or RESPONSE is never sent to this proxy for a connection it already has. -/
def Act.besides : Act → Bool
  | .tcfa _ _ => false
  | .accept => false
  | .recv (.data _) _ _ => false
  | .recv (.request ..) _ _ => false
  | .recv (.response ..) _ _ => false
  | _ => true

/-- The peer has been told. -/
def answered (c : Con) : Prop :=
  .response c.id MINIP_FIRST_SEQ (MINIP_FIRST_SEQ + 1) ∈ c.tx

instance (c : Con) : Decidable (answered c) := by
  unfold answered
  infer_instance

/- Packets are handled one after the other. -/
def joinStep (j : Joining) : JoinAct → Option Joining
  | .connect rc => connectStep j rc
  | .data d =>
    if answered j.con ∧ j.rx = none ∧ j.con.rx = none ∧ j.con.hashed ∧ d.id = j.con.id then
      some { j with rx := some (d, j.con.lsock) }
    else none
  | .forward =>
    match j.rx with
    | none => none
    | some (d, l) =>
      let c := minip2iFwdWith j.con l d
      some { j with
        con := c
        rx := none
        taken := j.taken || decide (c.nextRecv ≠ j.con.nextRecv)
        nullWrite := j.nullWrite || decide (d.seq = j.con.nextRecv ∧ l = false)
        refused := j.refused ||
          decide (d.seq = MINIP_FIRST_SEQ + 1 ∧ d.seq ≠ j.con.nextRecv ∧ j.taken = false) }
  | .own a =>
    if a.besides ∧ (a.isRecv → j.rx = none) then
      (conStep j.con a).map fun c =>
        { j with con := c, taken := j.taken || decide (c.nextRecv ≠ j.con.nextRecv) }
    else none

/- ### Against the coarser steps of `tcfaStep` -/

/- Where `tcfaStep` stands, and in how many lines it is at its next point. -/
def ConnectPc.coarse : ConnectPc → Option (TcfaPc × ℕ)
  | .connect => some (.queued, 1)
  | .respond => some (.respond, 1)
  | .state => some (.assign, 4)
  | .lsock => some (.register, 2)
  | .lflag => some (.flag, 1)
  | .wake => some (.wake, 1)
  | _ => none

def ConnectPc.ofTcfa : TcfaPc → ConnectPc
  | .queued => .connect
  | .respond => .respond
  | .assign => .state
  | .register => .lsock
  | .flag => .lflag
  | .wake => .wake
  | .done => .done

/-- Undisturbed, the lines do what one step of `tcfaStep` does. -/
theorem connect_lines_tcfaStep (j : Joining) (p : TcfaPc) (n : ℕ) (rc : Int) (now : ℕ)
    (hm : j.con.mode = .minip2tcp) (h : j.pc.coarse = some (p, n)) :
    Lts.run joinStep j (List.replicate n (.connect rc)) =
      (tcfaStep { j.con with tcfa := p } rc now).map fun c =>
        { j with con := { c with tcfa := j.con.tcfa }, pc := .ofTcfa c.tcfa } := by
  obtain ⟨c, pc, rx, taken, nullWrite, refused⟩ := j
  cases c
  cases hm
  have hfail (c : Con) (p : TcfaPc) :
      pepdnaConClose c = { pepdnaConClose { c with tcfa := p } with tcfa := c.tcfa } := by
    rw [pepdnaConClose_eq, pepdnaConClose_eq]
    rfl
  cases pc <;> simp only [ConnectPc.coarse, Option.some.injEq, Prod.mk.injEq, reduceCtorEq] at h <;>
    obtain ⟨rfl, rfl⟩ := h
  case connect =>
    simp only [tcfaStep, List.replicate, Lts.run, joinStep, connectStep]
    split
    · rw [hfail _ .queued]
      rfl
    · rfl
  case respond =>
    simp only [tcfaStep, List.replicate, Lts.run, joinStep, connectStep]
    split
    · rw [hfail _ .respond]
      rfl
    · rfl
  case wake =>
    simp only [tcfaStep, List.replicate, Lts.run, joinStep, connectStep, wakeLsock]
    split
    · rw [pepdnaL2rConnDataReady_eq, pepdnaL2rConnDataReady_eq]
      rfl
    · rfl
  all_goals rfl

/- ### DATA packets that come late enough -/

/-- The handler of a DATA packet is entered after the connect work has stored `lsock`. -/
def DataAfterLsock (j : Joining) : JoinAct → Prop
  | .data _ => j.con.lsock = true
  | _ => True

instance (j : Joining) (a : JoinAct) : Decidable (DataAfterLsock j a) := by
  unfold DataAfterLsock
  split <;> infer_instance

/- Until a DATA packet is taken, `next_recv` is the number of the handshake or the next one, by the
line the connect work has reached. -/
structure Joined (j : Joining) : Prop where
  early : j.taken = false → j.pc = .connect ∨ j.pc = .respond ∨ j.pc = .state ∨ j.pc = .nextSeq ∨
    j.pc = .lastAcked ∨ j.pc = .nextRecv → j.con.nextRecv = MINIP_FIRST_SEQ
  stored : j.taken = false → j.pc = .lsock ∨ j.con.lsock = true →
    j.con.nextRecv = MINIP_FIRST_SEQ + 1
  rx : ∀ d l, j.rx = some (d, l) →
    l = true ∧ (j.taken = false → j.con.nextRecv = MINIP_FIRST_SEQ + 1)
  good : j.nullWrite = false ∧ j.refused = false

theorem joined_alloc (syn : SynTuple) : Joined (joiningAlloc syn) where
  early _ _ := rfl
  stored _ h := by rcases h with h | h <;> cases h
  rx d l h := by cases h
  good := ⟨rfl, rfl⟩

theorem lsock_minip2iFwdWith (c : Con) (l : Bool) (d : DataPdu)
    (h : (minip2iFwdWith c l d).lsock = true) : c.lsock = true := by
  unfold minip2iFwdWith at h
  split at h
  · split at h
    · dsimp only at h
      split at h
      · exact (handles_ops _ c _ (ops_finish c d 0)).lsock h
      · exact h
    · exact h
  · exact h

/- A step of the connection that leaves the connect work alone. -/
theorem joined_move (j : Joining) (c : Con) (hj : Joined j)
    (hl : c.lsock = true → j.con.lsock = true) :
    Joined { j with con := c, taken := j.taken || decide (c.nextRecv ≠ j.con.nextRecv) } := by
  have hsame (ht : (j.taken || decide (c.nextRecv ≠ j.con.nextRecv)) = false) :
      j.taken = false ∧ c.nextRecv = j.con.nextRecv := by
    simpa using ht
  refine ⟨?_, ?_, ?_, hj.good⟩
  · intro ht hp
    obtain ⟨h0, hn⟩ := hsame ht
    exact hn.trans (hj.early h0 hp)
  · intro ht hp
    obtain ⟨h0, hn⟩ := hsame ht
    exact hn.trans (hj.stored h0 (hp.imp_right hl))
  · intro d l hx
    obtain ⟨h1, h2⟩ := hj.rx d l hx
    refine ⟨h1, fun ht => ?_⟩
    obtain ⟨h0, hn⟩ := hsame ht
    exact hn.trans (h2 h0)

/- All lines but two leave `next_recv` alone and stay on one side of both. -/
theorem joined_line (j : Joining) (c : Con) (pc : ConnectPc) (hj : Joined j)
    (hn : c.nextRecv = j.con.nextRecv) (hl : c.lsock = true → j.con.lsock = true)
    (hearly : j.taken = false → pc = .connect ∨ pc = .respond ∨ pc = .state ∨ pc = .nextSeq ∨
      pc = .lastAcked ∨ pc = .nextRecv → j.con.nextRecv = MINIP_FIRST_SEQ)
    (hpc : pc ≠ .lsock) : Joined { j with con := c, pc := pc } := by
  refine ⟨fun ht hp => hn.trans (hearly ht hp), ?_, ?_, hj.good⟩
  · intro ht hp
    exact hn.trans (hj.stored ht (Or.inr (hl (hp.resolve_left hpc))))
  · intro d l hx
    exact ⟨(hj.rx d l hx).1, fun ht => hn.trans ((hj.rx d l hx).2 ht)⟩

theorem joined_connect (j j' : Joining) (rc : Int) (hj : Joined j)
    (h : connectStep j rc = some j') : Joined j' := by
  have hclose : Joined { j with con := pepdnaConClose j.con, pc := .done } :=
    joined_line j _ .done hj (by rw [pepdnaConClose_eq]) (handles_close j.con).lsock (by simp)
      (by simp)
  unfold connectStep at h
  dsimp only at h
  cases hpc : j.pc with
  | connect =>
    rw [hpc] at h
    cases h
    split
    · exact hclose
    · exact joined_line j _ .respond hj rfl id (fun ht _ => hj.early ht (by simp [hpc])) (by simp)
  | respond =>
    rw [hpc] at h
    cases h
    split
    · exact hclose
    · exact joined_line j _ .state hj rfl id (fun ht _ => hj.early ht (by simp [hpc])) (by simp)
  | state =>
    rw [hpc] at h
    cases h
    exact joined_line j _ .nextSeq hj rfl id (fun ht _ => hj.early ht (by simp [hpc])) (by simp)
  | nextSeq =>
    rw [hpc] at h
    cases h
    exact joined_line j _ .lastAcked hj rfl id (fun ht _ => hj.early ht (by simp [hpc])) (by simp)
  | lastAcked =>
    rw [hpc] at h
    cases h
    exact joined_line j _ .nextRecv hj rfl id (fun ht _ => hj.early ht (by simp [hpc])) (by simp)
  | nextRecv =>
    rw [hpc] at h
    cases h
    have hn (ht : j.taken = false) : u32 (j.con.nextRecv + 1) = MINIP_FIRST_SEQ + 1 := by
      rw [hj.early ht (by simp [hpc])]
      rfl
    exact ⟨by simp, fun ht _ => hn ht, fun d l hx => ⟨(hj.rx d l hx).1, hn⟩, hj.good⟩
  | lsock =>
    rw [hpc] at h
    cases h
    exact ⟨by simp, fun ht _ => hj.stored ht (Or.inl hpc), hj.rx, hj.good⟩
  | callbacks =>
    rw [hpc] at h
    cases h
    exact joined_line j _ .lflag hj rfl id (by simp) (by simp)
  | lflag =>
    rw [hpc] at h
    cases h
    exact joined_line j _ .wake hj rfl id (by simp) (by simp)
  | wake =>
    rw [hpc] at h
    cases h
    have hn : (wakeLsock j.con).nextRecv = j.con.nextRecv := by
      unfold wakeLsock
      split
      · rw [pepdnaL2rConnDataReady_eq]
      · rfl
    exact joined_line j _ .done hj hn (handles_ops [] j.con _ (ops_wake j.con)).lsock (by simp) (by simp)
  | done =>
    rw [hpc] at h
    cases h

theorem joined_step (j : Joining) (a : JoinAct) (j' : Joining) (hj : Joined j)
    (ha : DataAfterLsock j a) (h : joinStep j a = some j') : Joined j' := by
  cases a with
  | connect rc => exact joined_connect j j' rc hj h
  | data d =>
    simp only [joinStep] at h
    split at h
    · cases h
      refine ⟨hj.early, hj.stored, ?_, hj.good⟩
      rintro d' l hx
      cases hx
      exact ⟨ha, fun ht => hj.stored ht (Or.inr ha)⟩
    · cases h
  | forward =>
    simp only [joinStep] at h
    split at h
    · cases h
    · next d l hx =>
      cases h
      obtain ⟨rfl, hexp⟩ := hj.rx d l hx
      have hmove := joined_move j (minip2iFwdWith j.con true d) hj (lsock_minip2iFwdWith j.con true d)
      have hgood : decide (d.seq = j.con.nextRecv ∧ true = false) = false ∧
          decide (d.seq = MINIP_FIRST_SEQ + 1 ∧ d.seq ≠ j.con.nextRecv ∧ j.taken = false) =
            false := by
        refine ⟨by simp, decide_eq_false ?_⟩
        rintro ⟨hs, hne, ht⟩
        exact hne (hs.trans (hexp ht).symm)
      refine ⟨hmove.early, hmove.stored, ?_, ?_⟩
      · intro d' l' hx'
        cases hx'
      · rw [hgood.1, hgood.2, hj.good.1, hj.good.2]
        exact ⟨rfl, rfl⟩
  | own a =>
    simp only [joinStep] at h
    split at h
    · next hg =>
      obtain ⟨c, hc, rfl⟩ := Option.map_eq_some_iff.mp h
      have hs : Settles j.con c := by
        refine conStep_settles j.con c a hc ?_ ?_ fun hr => ?_
        · rintro rfl
          cases hg.1
        · rintro rc now rfl
          cases hg.1
        · cases a with
          | recv p now xmit =>
            cases p with
            | response => cases hg.1
            | _ => cases hr
          | _ => cases hr
      exact joined_move j c hj hs.lsock
    · cases h

end PepDna.Minip

namespace PepDna.Rina

/- The lines of `pepdna_tcp_connect` in RINA2TCP, and of `nl_r2i_callback` for a message with
`alloc = 0` once the connection is found and its flow is ready. -/
inductive ConnectPc where
  | connect
  | resume
  | lsock
  | callbacks
  | done
  deriving Repr, DecidableEq

inductive CallbackPc where
  | idle
  | rflag
  | lflag
  | queue
  | wake
  deriving Repr, DecidableEq

/- A RINA2TCP connection while it is set up. `resumed` says that the flow allocator has the netlink
message, `nullWake` that `con->lsock->sk` was followed while `con->lsock` was null. -/
structure Joining where
  kref : ℕ
  hashed : Bool
  lsock : Bool
  userData : Bool
  lflag : Bool
  rflag : Bool
  l2rPending : Bool
  r2lPending : Bool
  resumed : Bool
  pc : ConnectPc
  cb : CallbackPc
  nullWake : Bool
  deriving Repr, DecidableEq

def joiningAlloc : Joining :=
  { kref := 1, hashed := true, lsock := false, userData := false, lflag := false, rflag := false,
    l2rPending := false, r2lPending := false, resumed := false, pc := .connect, cb := .idle,
    nullWake := false }

def pepdnaConPut (j : Joining) : Joining :=
  if j.kref = 0 then j
  else if j.kref = 1 then { j with kref := 0, lsock := false, hashed := false }
  else { j with kref := j.kref - 1 }

/-- `pepdna_l2r_conn_data_ready`. Before the registration `sk_data_ready` is the kernel's own. -/
def pepdnaL2rConnDataReady (j : Joining) : Joining :=
  if j.userData && j.lflag then
    let j := { j with kref := j.kref + 1 }
    if j.l2rPending then pepdnaConPut j else { j with l2rPending := true }
  else j

/- `rc` is the result of `kernel_connect` or of `pepdna_nl_sendmsg`. The close of a connection
without `lsock` only drops its reference. -/
def connectStep (j : Joining) (rc : Int) : Option Joining :=
  match j.pc with
  | .connect =>
    some (if rc < 0 then pepdnaConPut { j with pc := .done } else { j with pc := .resume })
  | .resume =>
    some (if rc < 0 then pepdnaConPut { j with pc := .done }
      else { j with resumed := true, pc := .lsock })
  | .lsock => some { j with lsock := true, pc := .callbacks }
  | .callbacks => some { j with userData := true, pc := .done }
  | .done => none

def callbackStep (j : Joining) : Option Joining :=
  match j.cb with
  | .idle => none
  | .rflag => some { j with rflag := true, cb := .lflag }
  | .lflag => some { j with lflag := true, cb := .queue }
  | .queue =>
    let j := { j with kref := j.kref + 1 }
    some (if j.r2lPending then pepdnaConPut { j with cb := .idle }
      else { j with r2lPending := true, cb := .wake })
  | .wake =>
    let j := { j with cb := .idle }
    some (if j.lsock then pepdnaL2rConnDataReady j else { j with nullWake := true })

/- `ready` is the answer of `flow_is_ready`. -/
inductive JoinAct where
  | connect (rc : Int)
  | alloc0 (ready : Bool)
  | callback
  deriving Repr, DecidableEq

def joinStep (j : Joining) : JoinAct → Option Joining
  | .connect rc => connectStep j rc
  | .alloc0 ready =>
    if j.resumed ∧ j.cb = .idle then
      some (if j.hashed && ready then { j with cb := .rflag } else j)
    else none
  | .callback => callbackStep j

/-- The netlink message is handled after the connect work has stored `lsock`. -/
def Alloc0AfterLsock (j : Joining) : JoinAct → Prop
  | .alloc0 _ => j.lsock = true
  | _ => True

instance (j : Joining) (a : JoinAct) : Decidable (Alloc0AfterLsock j a) := by
  unfold Alloc0AfterLsock
  split <;> infer_instance

structure Joined (j : Joining) : Prop where
  early : j.pc ≠ .callbacks → j.pc ≠ .done → j.lsock = false
  kref : j.pc ≠ .done ∨ j.lsock = true → 1 ≤ j.kref
  cb : j.cb ≠ .idle → j.lsock = true
  good : j.nullWake = false

theorem joined_alloc : Joined joiningAlloc where
  early _ _ := rfl
  kref _ := le_rfl
  cb h := absurd rfl h
  good := rfl

/- Dropping a reference that was just taken. -/
theorem put_taken (j : Joining) (h : 1 ≤ j.kref) :
    pepdnaConPut { j with kref := j.kref + 1 } = j := by
  unfold pepdnaConPut
  dsimp only
  rw [if_neg (by omega), if_neg (by omega)]
  rfl

theorem joined_callback (j j' : Joining) (hj : Joined j) (h : callbackStep j = some j') :
    Joined j' := by
  unfold callbackStep at h
  cases hcb : j.cb with
  | idle =>
    rw [hcb] at h
    cases h
  | rflag =>
    rw [hcb] at h
    cases h
    exact ⟨hj.early, hj.kref, fun _ => hj.cb (by simp [hcb]), hj.good⟩
  | lflag =>
    rw [hcb] at h
    cases h
    exact ⟨hj.early, hj.kref, fun _ => hj.cb (by simp [hcb]), hj.good⟩
  | queue =>
    rw [hcb] at h
    cases h
    have hl := hj.cb (by simp [hcb])
    dsimp only
    split
    · rw [put_taken { j with cb := .idle } (hj.kref (Or.inr hl))]
      exact ⟨hj.early, hj.kref, fun _ => hl, hj.good⟩
    · exact ⟨hj.early, fun _ => by simp, fun _ => hl, hj.good⟩
  | wake =>
    rw [hcb] at h
    cases h
    have hl := hj.cb (by simp [hcb])
    dsimp only
    rw [if_pos hl]
    unfold pepdnaL2rConnDataReady
    split
    · dsimp only
      split
      · rw [put_taken { j with cb := .idle } (hj.kref (Or.inr hl))]
        exact ⟨hj.early, hj.kref, fun _ => hl, hj.good⟩
      · exact ⟨hj.early, fun _ => by simp, fun _ => hl, hj.good⟩
    · exact ⟨hj.early, hj.kref, fun _ => hl, hj.good⟩

theorem joined_connect (j j' : Joining) (rc : Int) (hj : Joined j)
    (h : connectStep j rc = some j') : Joined j' := by
  have hfail (hl : j.lsock = false) : Joined (pepdnaConPut { j with pc := .done }) := by
    have hcb (hx : j.cb ≠ .idle) : False := by
      cases hl.symm.trans (hj.cb hx)
    unfold pepdnaConPut
    dsimp only
    split
    · exact ⟨by simp, by simp [hl], hj.cb, hj.good⟩
    · split
      · exact ⟨by simp, by simp, fun hx => (hcb hx).elim, hj.good⟩
      · exact ⟨by simp, by simp [hl], hj.cb, hj.good⟩
  unfold connectStep at h
  cases hpc : j.pc with
  | connect =>
    rw [hpc] at h
    cases h
    have hl := hj.early (by simp [hpc]) (by simp [hpc])
    split
    · exact hfail hl
    · exact ⟨fun _ _ => hl, fun _ => hj.kref (by simp [hpc]), hj.cb, hj.good⟩
  | resume =>
    rw [hpc] at h
    cases h
    have hl := hj.early (by simp [hpc]) (by simp [hpc])
    split
    · exact hfail hl
    · exact ⟨fun _ _ => hl, fun _ => hj.kref (by simp [hpc]), hj.cb, hj.good⟩
  | lsock =>
    rw [hpc] at h
    cases h
    exact ⟨by simp, fun _ => hj.kref (by simp [hpc]), fun _ => rfl, hj.good⟩
  | callbacks =>
    rw [hpc] at h
    cases h
    exact ⟨by simp, fun _ => hj.kref (by simp [hpc]), hj.cb, hj.good⟩
  | done =>
    rw [hpc] at h
    cases h

theorem joined_step (j : Joining) (a : JoinAct) (j' : Joining) (hj : Joined j)
    (ha : Alloc0AfterLsock j a) (h : joinStep j a = some j') : Joined j' := by
  cases a with
  | connect rc => exact joined_connect j j' rc hj h
  | alloc0 ready =>
    simp only [joinStep] at h
    split at h
    · cases h
      split
      · exact ⟨hj.early, hj.kref, fun _ => ha, hj.good⟩
      · exact hj
    · cases h
  | callback => exact joined_callback j j' hj h

end PepDna.Rina

namespace PepDna

/-- What is sent in answer to the announcement finds the connection ready, if it is handled after
the connect work has stored `lsock`. -/
theorem joinRun_announced_ready (syn : SynTuple) (acts : List Minip.JoinAct) (j : Minip.Joining)
    (acts' : List Rina.JoinAct) (j' : Rina.Joining)
    (hr : Lts.run Minip.joinStep (Minip.joiningAlloc syn) acts = some j)
    (hd : Lts.Along Minip.joinStep Minip.DataAfterLsock (Minip.joiningAlloc syn) acts)
    (hr' : Lts.run Rina.joinStep Rina.joiningAlloc acts' = some j')
    (hd' : Lts.Along Rina.joinStep Rina.Alloc0AfterLsock Rina.joiningAlloc acts') :
    (j.nullWrite = false ∧ j.refused = false) ∧ j'.nullWake = false :=
  ⟨(Lts.run_invariant_along Minip.Joined Minip.DataAfterLsock Minip.joined_step _ j acts
      (Minip.joined_alloc syn) hd hr).good,
    (Lts.run_invariant_along Rina.Joined Rina.Alloc0AfterLsock Rina.joined_step _ j' acts'
      Rina.joined_alloc hd' hr').good⟩

/- The first DATA packet, and the lines of the connect work before and after `lsock` is stored. -/
def firstData : Minip.DataPdu := ⟨Minip.sampleSyn.hashId, 10, 1, 5, [1]⟩

def joinLines (n : ℕ) : List Minip.JoinAct := List.replicate n (.connect 0)

def joinAfter (acts : List Minip.JoinAct) : Minip.Joining :=
  (Lts.run Minip.joinStep (Minip.joiningAlloc Minip.sampleSyn) acts).getD
    (Minip.joiningAlloc Minip.sampleSyn)

def rinaLines (n : ℕ) : List Rina.JoinAct := List.replicate n (.connect 0)

def rinaAfter (acts : List Rina.JoinAct) : Rina.Joining :=
  (Lts.run Rina.joinStep Rina.joiningAlloc acts).getD Rina.joiningAlloc

def answerLate : List Minip.JoinAct := joinLines 7 ++ [.data firstData, .forward, .own (.sendmsg 1)]

def notifyLate : List Rina.JoinAct :=
  rinaLines 3 ++ [.alloc0 true, .callback, .callback, .callback, .callback]

theorem answerLate_ready :
    ((joinAfter answerLate).con.wr = [1] ∧ (rinaAfter notifyLate).r2lPending = true) ∧
      ((joinAfter answerLate).nullWrite = false ∧ (joinAfter answerLate).refused = false) ∧
        (rinaAfter notifyLate).nullWake = false :=
  ⟨by decide +kernel, joinRun_announced_ready Minip.sampleSyn answerLate _ notifyLate _
    (by decide +kernel) (by decide +kernel) (by decide +kernel) (by decide +kernel)⟩

def answerAtOnce : List Minip.JoinAct := joinLines 2 ++ [.data firstData, .forward]

def answerBeforeLsock : List Minip.JoinAct := joinLines 6 ++ [.data firstData, .forward]

def notifyAtOnce : List Rina.JoinAct :=
  rinaLines 2 ++ [.alloc0 true, .callback, .callback, .callback, .callback]

/-- Right after the RESPONSE the packet is out of order; four lines later it is in order, and there
is no socket to write it to. A netlink answer that comes at once wakes a null socket. -/
theorem answerAtOnce_not_ready :
    (Lts.run Minip.joinStep (Minip.joiningAlloc Minip.sampleSyn) answerAtOnce =
        some (joinAfter answerAtOnce) ∧ (joinAfter answerAtOnce).refused = true) ∧
    (Lts.run Minip.joinStep (Minip.joiningAlloc Minip.sampleSyn) answerBeforeLsock =
        some (joinAfter answerBeforeLsock) ∧ (joinAfter answerBeforeLsock).nullWrite = true) ∧
    Lts.run Rina.joinStep Rina.joiningAlloc notifyAtOnce = some (rinaAfter notifyAtOnce) ∧
      (rinaAfter notifyAtOnce).nullWake = true := by
  decide +kernel

end PepDna
