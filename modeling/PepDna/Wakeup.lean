import PepDna.Minip.Ops
import PepDna.Tcp.Refcount

/-!
# Unread bytes are never left without a work that will read them
(server.c:179-192, tcp_listen.c:143-169, minip.c:894-925, 1084-1206)

`l2r_work` leaves its loop when the socket has nothing to read or, with MINIP,
when the window is closed. It runs again only if somebody calls `sk_data_ready`:
the kernel for arriving bytes, the accept or the connect, and the handler of an
ACK. The connection is put together here with the receive queue of its left
socket and with the calls that are still to come, so that each of these can fall
between any two steps of the work.
-/

namespace PepDna.Minip

/- `due` counts the arrivals whose `sk_data_ready` the kernel has yet to call, `owed` the runs of
`pepdna_tcp_accept` and of the ACK handler that stand before their own call. -/
structure Fed where
  con : Con
  unread : Bytes
  due : ℕ
  owed : ℕ
  deriving Repr, DecidableEq

def fedAlloc (mode : Mode) (syn : SynTuple) : Fed :=
  ⟨pepdnaConAlloc mode syn syn.hashId, [], 0, 0⟩

/-- `recvNewAck` up to `sk_data_ready`. -/
def newAckStore (c : Con) (ack : ℕ) : Con :=
  let c := { c with dupAcks := 0, lastAcked := u32Sub ack 1 }
  let r := rtxqAck c ack
  let c := r.1
  let c := if c.state = .recovery then { c with sending := true, state := .established } else c
  let c := { c with window := (c.window + r.2) % 256 }
  if rtxqSize c < WINDOW_SIZE / 2 then minipUpdateCwnd c else c

theorem recvNewAck_eq_wake (c : Con) (ack : ℕ) :
    recvNewAck c ack = wakeLsock (newAckStore c ack) := rfl

/-- `pepdnaTcpAccept` for a connection of the table, up to `sk_data_ready`. -/
def acceptStore (c : Con) : Con :=
  { c with synPending := false, lsock := true, userData := true, lflag := true, rflag := true }

theorem pepdnaTcpAccept_eq_wake (c : Con) (hp : c.synPending = true) (hh : c.hashed = true) :
    pepdnaTcpAccept c = some (wakeLsock (acceptStore c)) := by
  simp [pepdnaTcpAccept, acceptStore, hp, hh]

inductive FedAct where
  | arrive (bs : Bytes)
  | call
  | accept (queued : Bytes)
  | newAck (id ack ts now : ℕ)
  | wake
  | con (a : Act)

/- `kernel_recvmsg` takes bytes from the front of the queue and answers `-EAGAIN` only when there
are none. The RESPONSE goes to the proxy that sent the REQUEST. -/
def Fed.allows (f : Fed) : Act → Prop
  | .accept => False
  | .work (.read bs) => bs <+: f.unread
  | .work (.recvRet rc) => rc = -EAGAIN → f.unread = []
  | .recv (.response ..) _ _ => f.con.mode = .tcp2minip
  | _ => True

instance (f : Fed) (a : Act) : Decidable (f.allows a) := by
  unfold Fed.allows
  split <;> infer_instance

def Fed.left (f : Fed) : Act → Bytes
  | .work (.read bs) => f.unread.drop bs.length
  | _ => f.unread

/- A handler that went through a null pointer does not return, and the machine stops there. Bytes
that arrive before the callback is registered are announced to nobody. -/
def fedStep (f : Fed) (a : FedAct) : Option Fed :=
  if f.con.oops then none
  else match a with
  | .arrive bs =>
    if bs = [] then none
    else some { f with
      unread := f.unread ++ bs, due := if f.con.lsock then f.due + 1 else f.due }
  | .call =>
    if 0 < f.due ∧ f.con.lsock then
      some { f with con := pepdnaL2rConnDataReady f.con, due := f.due - 1 }
    else none
  | .accept queued =>
    if f.con.synPending then
      some (if f.con.hashed then
        { f with con := acceptStore f.con, unread := queued, owed := f.owed + 1 }
      else { f with con := { f.con with synPending := false } })
    else none
  | .newAck id ack ts now =>
    if f.con.rx = none ∧ f.con.hashed ∧ id = f.con.id ∧ f.con.lastAcked < ack then
      some { f with con := newAckStore (ackSample f.con ts now) ack, owed := f.owed + 1 }
    else none
  | .wake =>
    if 0 < f.owed then some { f with con := wakeLsock f.con, owed := f.owed - 1 } else none
  | .con a =>
    if f.allows a then (conStep f.con a).map fun c => { f with con := c, unread := f.left a }
    else none

/- No call of `sk_data_ready` is still to come, and no handler is stuck. -/
structure Fed.Quiet (f : Fed) : Prop where
  due : f.due = 0
  owed : f.owed = 0
  tcfa : f.con.tcfa ≠ .wake
  oops : f.con.oops = false

/- The left socket has bytes that could be sent now. -/
structure Fed.Ready (f : Fed) : Prop where
  lflag : f.con.lflag = true
  lsock : f.con.lsock = true
  unread : f.unread ≠ []
  canSend : canSend f.con = true

/- The work has not left its loop. -/
def WorkPc.busy (pc : WorkPc) : Prop := pc ≠ .idle ∧ pc ≠ .put

/- From one point of the set-up to a later one, the registration of the callback left out. -/
def Follows (p q : TcfaPc) : Prop := p = q ∨ p ≠ .wake ∧ p ≠ .done ∧ q ≠ .flag

theorem follows_trans (p q r : TcfaPc) (h : Follows p q) (h' : Follows q r) : Follows p r := by
  rcases h with rfl | h
  · exact h'
  · rcases h' with rfl | h'
    · exact Or.inr h
    · exact Or.inr ⟨h.1, h.2.1, h'.2.2⟩

/- What a step does to the flags and the socket when it is not the accept or the registration. Only
a close clears `lflag`, and `sk_user_data` with it. -/
structure Settles (c c' : Con) : Prop where
  mode : c'.mode = c.mode
  tcfa : Follows c.tcfa c'.tcfa
  syn : c'.synPending = true → c.synPending = true ∨ c.mode = .tcp2minip
  lflag : c'.lflag = true → c.lflag = true
  lsock : c'.lsock = true → c.lsock = true
  user : c.lflag = false ∨ c'.lflag = true → c'.userData = c.userData

/- A handler moreover leaves the work where it is. -/
structure Handles (c c' : Con) : Prop extends Settles c c' where
  pc : c'.pc = c.pc
  pending : c.pending = true → c'.pending = true

theorem settles_trans (c d e : Con) (h : Settles c d) (h' : Settles d e) : Settles c e where
  mode := h'.mode.trans h.mode
  tcfa := follows_trans _ _ _ h.tcfa h'.tcfa
  syn he := (h'.syn he).elim h.syn fun hm => Or.inr (h.mode.symm.trans hm)
  lflag he := h.lflag (h'.lflag he)
  lsock he := h.lsock (h'.lsock he)
  user hf := by
    have hd : d.lflag = false ∨ e.lflag = true := by
      refine hf.imp_left fun hc => ?_
      cases hd : d.lflag with
      | false => rfl
      | true => exact (h.lflag hd).symm.trans hc
    have hc : c.lflag = false ∨ d.lflag = true := hf.imp_right h'.lflag
    exact (h'.user hd).trans (h.user hc)

theorem handles_trans (c d e : Con) (h : Handles c d) (h' : Handles d e) : Handles c e where
  toSettles := settles_trans c d e h.toSettles h'.toSettles
  pc := h'.pc.trans h.pc
  pending hc := h'.pending (h.pending hc)

def settlePart (c : Con) := (c.mode, c.tcfa, c.synPending, c.lflag, c.lsock, c.userData)

theorem settles_store (c c' : Con) (h : settlePart c' = settlePart c) : Settles c c' := by
  simp only [settlePart, Prod.mk.injEq] at h
  obtain ⟨hm, ht, hs, hf, hl, hu⟩ := h
  refine ⟨hm, Or.inl ht.symm, ?_, ?_, ?_, fun _ => hu⟩
  · rw [hs]
    exact Or.inl
  · rw [hf]
    exact id
  · rw [hl]
    exact id

theorem handles_store (c c' : Con) (h : corePart c' = corePart c) : Handles c c' := by
  simp only [corePart, Prod.mk.injEq] at h
  obtain ⟨hm, -, -, -, hl, hf, -, hu, hp, hpc, ht, hs, -, -⟩ := h
  refine ⟨settles_store c c' ?_, hpc, fun hc => hp.trans hc⟩
  simp only [settlePart, hm, ht, hs, hf, hl, hu]

theorem handles_close (c : Con) : Handles c (pepdnaConClose c) := by
  rw [pepdnaConClose_eq]
  refine ⟨⟨rfl, Or.inl rfl, Or.inl, ?_, ?_, ?_⟩, rfl, id⟩ <;>
    cases hf : c.lflag <;> cases hl : c.lsock <;> simp

theorem handles_ready (c : Con) : Handles c (pepdnaL2rConnDataReady c) := by
  rw [pepdnaL2rConnDataReady_eq]
  refine ⟨⟨rfl, Or.inl rfl, Or.inl, id, ?_, fun _ => rfl⟩, rfl, ?_⟩
  · intro hl
    exact ((Bool.and_eq_true _ _).mp hl).1
  · intro hp
    simp [hp]

theorem handles_ops (ks : List Kind) (c c' : Con) (h : Ops ks c c') : Handles c c' := by
  induction h with
  | store c c' h => exact handles_store c c' h
  | send c c' ps h => exact handles_store c c' h
  | ready c => exact handles_ready c
  | notify c =>
    exact handles_trans _ (transmit c (.delete c.id)) _ (handles_store c _ rfl) (handles_close _)
  | trans c d e _ _ ih ih' => exact handles_trans c d e ih ih'

theorem sndData_busy (c : Con) (left : Bytes) (sent : ℕ) (o : SkbSend) (now : ℕ) :
    (sndData c left sent o now).pc.busy ∧ settlePart (sndData c left sent o now) = settlePart c := by
  unfold sndData
  dsimp only
  split
  · split <;> cases o <;> exact ⟨by simp [WorkPc.busy], rfl⟩
  · cases o <;> exact ⟨by simp [WorkPc.busy], rfl⟩

theorem workStep_settles (c c' : Con) (i : WorkIn) (h : WorkStep c i c') : Settles c c' := by
  cases h with
  | send left sent o now => exact settles_store c _ (sndData_busy c left sent o now).2
  | close =>
    exact settles_trans c (pepdnaConClose c) _ (handles_close c).toSettles (settles_store _ _ rfl)
  | put =>
    rw [pepdnaConPut_eq]
    refine ⟨rfl, Or.inl rfl, Or.inl, id, ?_, fun _ => rfl⟩
    exact fun hl => ((Bool.and_eq_true _ _).mp hl).1
  | _ => exact settles_store c _ rfl

/- ### Who opens the window -/

def sendPart (c : Con) := (c.sending, c.window)

theorem canSend_of_sendPart (c c' : Con) (h : sendPart c' = sendPart c) : canSend c' = canSend c := by
  simp only [sendPart, Prod.mk.injEq] at h
  simp only [canSend, h.1, h.2]

theorem sendPart_close (c : Con) : sendPart (pepdnaConClose c) = sendPart c := by
  rw [pepdnaConClose_eq]
  rfl

theorem sendPart_ready (c : Con) : sendPart (pepdnaL2rConnDataReady c) = sendPart c := by
  rw [pepdnaL2rConnDataReady_eq]
  rfl

theorem canSend_timeout (c : Con) (now : ℕ) (xmit : ℕ → Int)
    (h : canSend (minipSenderTimeout c now xmit) = true) : canSend c = true := by
  unfold minipSenderTimeout at h
  dsimp only at h
  split at h
  · split at h
    · cases h
    · rw [canSend_of_sendPart _ _ (sendPart_close _)] at h
      cases h
  · exact h

theorem canSend_dupAck (c : Con) (ack now : ℕ) (xmit : ℕ → Int) :
    canSend (recvDupAck c ack now xmit) = false := by
  unfold recvDupAck
  dsimp only
  split
  · rfl
  · split
    · rfl
    · rw [canSend_of_sendPart _ _ (sendPart_close _)]
      rfl

theorem sendPart_finish (c : Con) (d : DataPdu) (sent : Int) :
    sendPart (minip2iFinish c d sent) = sendPart c := by
  unfold minip2iFinish
  dsimp only
  split
  · exact sendPart_close _
  · split
    · exact sendPart_close _
    · rfl

theorem sendPart_minip2iFwd (c : Con) (d : DataPdu) :
    sendPart (pepdnaConMinip2iFwd c d) = sendPart c := by
  unfold pepdnaConMinip2iFwd
  split
  · split
    · dsimp only
      split
      · exact sendPart_finish c d 0
      · rfl
    · rfl
  · rfl

theorem sendPart_sendmsg (c c' : Con) (rc : Int) (h : minip2iSendmsg c rc = some c') :
    sendPart c' = sendPart c := by
  cases sendmsg_lines c c' rc h with
  | again => rfl
  | ret r v => exact sendPart_finish _ _ v

theorem ackSample_part (c : Con) (ts now : ℕ) :
    corePart (ackSample c ts now) = corePart c := by
  rw [ackSample_eq]
  rfl

theorem newAckStore_part (c : Con) (ack : ℕ) : corePart (newAckStore c ack) = corePart c := by
  unfold newAckStore
  dsimp only
  split <;> split <;> rfl

/- The call of `sk_data_ready` leaves the work queued, unless there is no socket to call. -/
theorem dataReady_pending (c : Con) (hu : c.lflag = true → c.userData = true)
    (hf : (pepdnaL2rConnDataReady c).lflag = true) :
    (pepdnaL2rConnDataReady c).pending = true := by
  rw [pepdnaL2rConnDataReady_eq] at hf ⊢
  simp [hu hf, show c.lflag = true from hf]

theorem wakeLsock_pending (c : Con) (hu : c.lflag = true → c.userData = true)
    (hf : (wakeLsock c).lflag = true) (ho : (wakeLsock c).oops = false) :
    (wakeLsock c).pending = true := by
  unfold wakeLsock at hf ho ⊢
  split
  · next hl =>
    rw [if_pos hl] at hf
    exact dataReady_pending c hu hf
  · next hl =>
    rw [if_neg hl] at ho
    cases ho

/- Whoever lets the work send again has also called it. -/
def Opens (c c' : Con) : Prop :=
  canSend c' = true → c'.lflag = true → c'.oops = false → canSend c = true ∨ c'.pending = true

theorem opens_of_sendPart (c c' : Con) (h : sendPart c' = sendPart c) : Opens c c' :=
  fun hs _ _ => Or.inl (canSend_of_sendPart c c' h ▸ hs)

theorem opens_recvAck (c : Con) (ack ts now : ℕ) (xmit : ℕ → Int)
    (hu : c.lflag = true → c.userData = true) :
    Opens c (pepdnaMinipRecvAck c ack ts now xmit) := by
  intro hs hf ho
  unfold pepdnaMinipRecvAck at hs hf ho ⊢
  split at hs
  · exact Or.inl hs
  · next hold =>
    rw [if_neg hold] at hf ho ⊢
    dsimp only at hs hf ho ⊢
    split at hs
    · next hnew =>
      rw [if_pos hnew] at hf ho ⊢
      rw [recvNewAck_eq_wake] at hf ho ⊢
      refine Or.inr (wakeLsock_pending _ ?_ hf ho)
      have hpart := (newAckStore_part (ackSample c ts now) ack).trans (ackSample_part c ts now)
      simp only [corePart, Prod.mk.injEq] at hpart
      obtain ⟨-, -, -, -, -, hlf, -, hud, -⟩ := hpart
      rw [hlf, hud]
      exact hu
    · rw [canSend_dupAck] at hs
      cases hs

theorem opens_recvPacket (c : Con) (p : Packet) (now : ℕ) (xmit : ℕ → Int)
    (hu : c.lflag = true → c.userData = true) : Opens c (pepdnaMinipRecvPacket c p now xmit) := by
  unfold pepdnaMinipRecvPacket
  split
  · cases p with
    | request => exact opens_of_sendPart c c rfl
    | response => exact opens_of_sendPart c _ rfl
    | data d => exact opens_of_sendPart c _ (sendPart_minip2iFwd c d)
    | ack id ack ts => exact opens_recvAck c ack ts now xmit hu
    | delete => exact opens_of_sendPart c _ (sendPart_close _)
    | finished => exact opens_of_sendPart c _ (sendPart_close _)
  · exact opens_of_sendPart c c rfl

theorem handles_recvPacket (c : Con) (p : Packet) (now : ℕ) (xmit : ℕ → Int) (hx : c.rx = none)
    (hm : takesResponse c (.recv p now xmit) = true → c.mode = .tcp2minip) :
    Handles c (pepdnaMinipRecvPacket c p now xmit) := by
  cases recvPacket_case c p now xmit hx with
  | tcfa _ _ ha => cases ha
  | accept ha => cases ha
  | work _ ha => cases ha
  | response hr hc' =>
    rw [hc']
    exact ⟨⟨rfl, Or.inl rfl, fun _ => Or.inr (hm hr), id, id, fun _ => rfl⟩, rfl, id⟩
  | delete _ hc' =>
    rw [hc']
    exact handles_trans c { transmit c (.finished c.id) with rflag := false } _
      (handles_store c _ rfl) (handles_close _)
  | finished _ hc' =>
    rw [hc']
    exact handles_trans c { c with rflag := false } _ (handles_store c _ rfl) (handles_close _)
  | ops _ _ _ h => exact handles_ops _ c _ h

theorem conStep_settles (c c' : Con) (a : Act) (h : conStep c a = some c') (hacc : a ≠ .accept)
    (htc : ∀ rc now, a ≠ .tcfa rc now)
    (hm : takesResponse c a = true → c.mode = .tcp2minip) : Settles c c' := by
  cases conStep_lines c c' a h with
  | tcfa rc now => exact absurd rfl (htc rc now)
  | accept => exact absurd rfl hacc
  | dataReady => exact (handles_ready c).toSettles
  | work i c' hw => exact workStep_settles c c' i hw
  | timeout now xmit => exact (handles_ops _ c _ (ops_timeout c now xmit)).toSettles
  | recv p now xmit hx => exact (handles_recvPacket c p now xmit hx hm).toSettles
  | sendmsg rc c' hs => exact (handles_ops _ c c' (ops_sendmsg c c' rc hs)).toSettles

/- ### The invariant -/

structure Fed.Inv (f : Fed) : Prop where
  user : f.con.lflag = true → f.con.userData = true
  far : f.con.mode = .minip2tcp → f.con.synPending = false
  early : f.con.mode = .minip2tcp → f.con.tcfa ≠ .wake → f.con.tcfa ≠ .done → f.con.lflag = false
  registered : f.con.tcfa = .flag → f.con.userData = true ∧ f.con.mode = .minip2tcp
  attended : f.Quiet → f.Ready → f.con.pending = true ∨ f.con.pc.busy

theorem inv_fedAlloc (mode : Mode) (syn : SynTuple) : (fedAlloc mode syn).Inv where
  user h := by cases h
  far _ := rfl
  early _ _ _ := rfl
  registered h := by cases h
  attended _ h := absurd rfl h.unread

theorem inv_settles (f f' : Fed) (hi : f.Inv) (h : Settles f.con f'.con)
    (ha : f'.Quiet → f'.Ready → f'.con.pending = true ∨ f'.con.pc.busy) : f'.Inv where
  user hf := (h.user (Or.inr hf)).trans (hi.user (h.lflag hf))
  far hm := by
    have hm' : f.con.mode = .minip2tcp := h.mode.symm.trans hm
    by_contra hs
    rcases h.syn (Bool.not_eq_false _ ▸ hs) with hs | hn
    · rw [hi.far hm'] at hs
      cases hs
    · cases hn.symm.trans hm'
  early hm hw hd := by
    have hm' : f.con.mode = .minip2tcp := h.mode.symm.trans hm
    have hpre : f.con.tcfa ≠ .wake ∧ f.con.tcfa ≠ .done := by
      rcases h.tcfa with he | he
      · exact he ▸ ⟨hw, hd⟩
      · exact ⟨he.1, he.2.1⟩
    by_contra hf
    rw [Bool.not_eq_false] at hf
    cases (hi.early hm' hpre.1 hpre.2).symm.trans (h.lflag hf)
  registered ht := by
    have hpre : f.con.tcfa = .flag := by
      rcases h.tcfa with he | he
      · exact he.trans ht
      · exact absurd ht he.2.2
    obtain ⟨hu, hm⟩ := hi.registered hpre
    have hlf : f.con.lflag = false := hi.early hm (by simp [hpre]) (by simp [hpre])
    exact ⟨(h.user (Or.inl hlf)).trans hu, h.mode.trans hm⟩
  attended := ha

theorem inv_handles (f : Fed) (c' : Con) (hi : f.Inv) (ho : f.con.oops = false)
    (h : Handles f.con c') (hw : Opens f.con c') : Fed.Inv { f with con := c' } := by
  refine inv_settles f _ hi h.toSettles fun hq hr => ?_
  have hwake : f.con.tcfa ≠ .wake := by
    rcases h.tcfa with he | he
    · rw [he]
      exact hq.tcfa
    · exact he.1
  rcases hw hr.canSend hr.lflag hq.oops with hs | hp
  · refine (hi.attended ⟨hq.due, hq.owed, hwake, ho⟩
      ⟨h.lflag hr.lflag, h.lsock hr.lsock, hr.unread, hs⟩).imp h.pending fun hb => ?_
    exact h.pc.symm ▸ hb
  · exact Or.inl hp

theorem inv_tcfa (f : Fed) (c' : Con) (rc : Int) (now : ℕ) (hi : f.Inv) (ho : f.con.oops = false)
    (h : TcfaStep f.con rc now c') : Fed.Inv { f with con := c' } := by
  have hmove (c d : Con) (hc : Handles f.con c) (hs : sendPart d = sendPart f.con)
      (hp : settlePart { d with tcfa := c.tcfa } = settlePart c)
      (hw : (d.pc, d.pending) = (c.pc, c.pending)) (ht : Follows f.con.tcfa d.tcfa) :
      Fed.Inv { f with con := d } := by
    have hd := settles_trans _ _ _ hc.toSettles (settles_store c { d with tcfa := c.tcfa } hp)
    simp only [Prod.mk.injEq] at hw
    refine inv_handles f d hi ho ⟨⟨hd.mode, ht, hd.syn, hd.lflag, hd.lsock, hd.user⟩,
      hw.1.trans hc.pc, fun hx => hw.2.trans (hc.pending hx)⟩ (opens_of_sendPart _ _ hs)
  cases h with
  | requestFail hm ht =>
    exact hmove _ _ (handles_close _) (sendPart_close _) rfl rfl (Or.inr (by simp [ht]))
  | request hm ht => exact hmove _ _ (handles_store _ _ rfl) rfl rfl rfl (Or.inr (by simp [ht]))
  | requestSent hm ht => exact hmove _ _ (handles_store _ _ rfl) rfl rfl rfl (Or.inr (by simp [ht]))
  | connectFail hm ht =>
    exact hmove _ _ (handles_close _) (sendPart_close _) rfl rfl (Or.inr (by simp [ht]))
  | connect hm ht => exact hmove _ _ (handles_store _ _ rfl) rfl rfl rfl (Or.inr (by simp [ht]))
  | responseFail hm ht =>
    exact hmove _ _ (handles_close _) (sendPart_close _) rfl rfl (Or.inr (by simp [ht]))
  | response hm ht => exact hmove _ _ (handles_store _ _ rfl) rfl rfl rfl (Or.inr (by simp [ht]))
  | assign hm ht => exact hmove _ _ (handles_store _ _ rfl) rfl rfl rfl (Or.inr (by simp [ht]))
  | register hm ht =>
    have hlf := hi.early hm (by simp [ht]) (by simp [ht])
    refine ⟨fun _ => rfl, hi.far, fun _ _ _ => hlf, fun _ => ⟨rfl, hm⟩, fun _ hr => ?_⟩
    cases hlf.symm.trans hr.lflag
  | flag hm ht =>
    refine ⟨fun _ => (hi.registered ht).1, hi.far, fun _ hw => absurd rfl hw, ?_, ?_⟩
    · intro hf
      cases hf
    · exact fun hq => absurd rfl hq.tcfa
  | wake hm ht =>
    have hw := handles_ops [] f.con _ (ops_wake f.con)
    refine ⟨?_, fun hf => ?_, fun _ _ hd => absurd rfl hd, ?_, ?_⟩
    · exact fun hf => (hw.user (Or.inr hf)).trans (hi.user (hw.lflag hf))
    · have hs := hi.far hm
      by_contra hn
      rcases hw.syn (Bool.not_eq_false _ ▸ hn) with hp | hp
      · cases hs.symm.trans hp
      · cases hp.symm.trans hm
    · intro hf
      cases hf
    · exact fun hq hr => Or.inl (wakeLsock_pending f.con hi.user hr.lflag hq.oops)

/- The work leaves its loop after one of three tests, and each of them says that it may. -/
theorem inv_work (f : Fed) (c' : Con) (i : WorkIn) (hi : f.Inv) (ho : f.con.oops = false)
    (hal : f.allows (.work i)) (h : WorkStep f.con i c') :
    Fed.Inv { f with con := c', unread := f.left (.work i) } := by
  refine inv_settles f _ hi (workStep_settles f.con c' i h) fun hq hr => ?_
  cases h with
  | test hpc =>
    have hlf : f.con.lflag = true := hr.lflag
    exact Or.inr (by simp [WorkPc.busy, hlf])
  | canSend hpc =>
    have hs : canSend f.con = true := hr.canSend
    exact Or.inr (by simp [WorkPc.busy, hs])
  | recvRet howMuch rc hpc =>
    by_cases hrc : rc = -EAGAIN
    · exact absurd (hal hrc) hr.unread
    · exact Or.inr (by simp [WorkPc.busy, hrc])
  | send left sent o now hpc => exact Or.inr (sndData_busy f.con left sent o now).1
  | advance left sent hpc =>
    refine Or.inr ?_
    unfold sndAdvance WorkPc.busy
    dsimp only
    split <;> simp
  | put hpc =>
    have hl := (workStep_settles f.con _ _ (.put hpc)).lsock hr.lsock
    rw [pepdnaConPut_eq] at hq hr ⊢
    refine (hi.attended ⟨hq.due, hq.owed, hq.tcfa, ho⟩
      ⟨hr.lflag, hl, hr.unread, hr.canSend⟩).imp_right fun hb => ?_
    exact absurd hpc hb.2
  | _ => exact Or.inr (by simp [WorkPc.busy])

theorem inv_con (f : Fed) (a : Act) (c' : Con) (hi : f.Inv) (ho : f.con.oops = false)
    (hal : f.allows a) (h : conStep f.con a = some c') :
    Fed.Inv { f with con := c', unread := f.left a } := by
  cases conStep_lines f.con c' a h with
  | tcfa rc now c' ht => exact inv_tcfa f c' rc now hi ho (tcfaStep_cases _ _ _ _ ht)
  | accept => exact absurd hal id
  | dataReady hl =>
    exact inv_handles f _ hi ho (handles_ready _) (opens_of_sendPart _ _ (sendPart_ready _))
  | work i c' hw => exact inv_work f c' i hi ho hal hw
  | timeout now xmit =>
    exact inv_handles f _ hi ho (handles_ops _ _ _ (ops_timeout f.con now xmit))
      fun hs _ _ => Or.inl (canSend_timeout f.con now xmit hs)
  | recv p now xmit hx =>
    refine inv_handles f _ hi ho (handles_recvPacket f.con p now xmit hx fun hr => ?_)
      (opens_recvPacket f.con p now xmit hi.user)
    cases p with
    | response => exact hal
    | _ => cases hr
  | sendmsg rc c' hm =>
    exact inv_handles f _ hi ho (handles_ops _ _ _ (ops_sendmsg f.con c' rc hm))
      (opens_of_sendPart _ _ (sendPart_sendmsg f.con c' rc hm))

theorem inv_fedStep (f : Fed) (a : FedAct) (f' : Fed) (hi : f.Inv) (h : fedStep f a = some f') :
    f'.Inv := by
  unfold fedStep at h
  split at h
  · cases h
  next ho =>
  rw [Bool.not_eq_true] at ho
  cases a with
  | arrive bs =>
    dsimp only at h
    split at h <;> cases h
    refine inv_settles f _ hi (settles_store _ _ rfl) fun hq hr => ?_
    have hdue := hq.due
    rw [if_pos (show f.con.lsock = true from hr.lsock)] at hdue
    cases hdue
  | call =>
    dsimp only at h
    split at h <;> cases h
    exact inv_settles f _ hi (handles_ready _).toSettles
      fun _ hr => Or.inl (dataReady_pending f.con hi.user hr.lflag)
  | accept queued =>
    dsimp only at h
    split at h <;> cases h
    next hp =>
    have hnear : f.con.mode ≠ .minip2tcp := by
      intro hm
      cases (hi.far hm).symm.trans hp
    split
    · refine ⟨fun _ => rfl, fun _ => rfl, fun hm => absurd hm hnear, fun ht => ?_, ?_⟩
      · exact absurd (hi.registered ht).2 hnear
      · intro hq
        cases hq.owed
    · refine ⟨hi.user, fun _ => rfl, hi.early, hi.registered, fun hq hr => ?_⟩
      exact hi.attended ⟨hq.due, hq.owed, hq.tcfa, ho⟩ ⟨hr.lflag, hr.lsock, hr.unread, hr.canSend⟩
  | newAck id ack ts now =>
    dsimp only at h
    split at h <;> cases h
    have hpart := (newAckStore_part (ackSample f.con ts now) ack).trans (ackSample_part f.con ts now)
    refine inv_settles f _ hi (handles_store f.con _ hpart).toSettles fun hq => ?_
    cases hq.owed
  | wake =>
    dsimp only at h
    split at h <;> cases h
    exact inv_settles f _ hi (handles_ops [] _ _ (ops_wake f.con)).toSettles
      fun hq hr => Or.inl (wakeLsock_pending f.con hi.user hr.lflag hq.oops)
  | con a =>
    dsimp only at h
    split at h
    · next hal =>
      obtain ⟨c', hc, rfl⟩ := Option.map_eq_some_iff.mp h
      exact inv_con f a c' hi ho hal hc
    · cases h

/-- `l2r_work` in both MINIP modes: pending or executing. -/
def Fed.Attended (f : Fed) : Prop :=
  f.Quiet → f.Ready → f.con.pending = true ∨ f.con.pc ≠ .idle

theorem fedRun_attended (mode : Mode) (syn : SynTuple) (acts : List FedAct) (f : Fed)
    (hr : Lts.run fedStep (fedAlloc mode syn) acts = some f) : f.Attended := by
  have hi := Lts.run_invariant Fed.Inv inv_fedStep _ f acts (inv_fedAlloc mode syn) hr
  exact fun hq hready => (hi.attended hq hready).imp_right And.left

end PepDna.Minip

namespace PepDna.Tcp

/-- What `pepdna_tcp_connect` leaves in TCP2TCP: the right socket is registered, the SYN went back
to the stack. -/
def dialled : Con :=
  ⟨1, 0, { connectedHalf with sock := false, flag := false, userData := false },
    { connectedHalf with flag := false }⟩

/- The lines of `pepdna_tcp_accept` from the store of `lsock` to the two calls. -/
inductive AcceptPc where
  | lsock
  | register
  | lflag
  | rflag
  | wakeL
  | wakeR
  | done
  deriving Repr, DecidableEq

structure Fed where
  con : Con
  unread : Bytes
  due : ℕ
  acc : AcceptPc
  deriving Repr, DecidableEq

def fedDialled : Fed := ⟨dialled, [], 0, .lsock⟩

/-- `sk_data_ready` of an end, if it still has its socket. -/
def wakeEnd (s : Con) (e : End) : Con := (conStep s (.dataReady e)).getD s

def acceptStep (f : Fed) : Option Fed :=
  let s := f.con
  match f.acc with
  | .lsock => some { f with con := { s with l := { s.l with sock := true } }, acc := .register }
  | .register => some { f with con := { s with l := { s.l with userData := true } }, acc := .lflag }
  | .lflag => some { f with con := { s with l := { s.l with flag := true } }, acc := .rflag }
  | .rflag => some { f with con := { s with r := { s.r with flag := true } }, acc := .wakeL }
  | .wakeL => some { f with con := wakeEnd s .l, acc := .wakeR }
  | .wakeR => some { f with con := wakeEnd s .r, acc := .done }
  | .done => none

inductive FedAct where
  | arrive (bs : Bytes)
  | call
  | accept
  | con (a : Act)

/- The answers of `kernel_recvmsg` on the left socket agree with its queue. -/
def Fed.allows (f : Fed) : Act → Prop
  | .work .l (.read bs) => bs <+: f.unread
  | .work .l (.recvRet rc) => rc = -EAGAIN → f.unread = []
  | _ => True

instance (f : Fed) (a : Act) : Decidable (f.allows a) := by
  unfold Fed.allows
  split <;> infer_instance

def Fed.left (f : Fed) : Act → Bytes
  | .work .l (.read bs) => f.unread.drop bs.length
  | _ => f.unread

def fedStep (f : Fed) : FedAct → Option Fed
  | .arrive bs =>
    if bs = [] then none
    else some { f with
      unread := f.unread ++ bs, due := if f.con.l.sock then f.due + 1 else f.due }
  | .call =>
    if 0 < f.due then
      (conStep f.con (.dataReady .l)).map fun s => { f with con := s, due := f.due - 1 }
    else none
  | .accept => acceptStep f
  | .con a =>
    if f.allows a then (conStep f.con a).map fun s => { f with con := s, unread := f.left a }
    else none

/- No `sk_data_ready` of the left socket is due or midway, and the accept has made its own call. -/
structure Fed.Quiet (f : Fed) : Prop where
  due : f.due = 0
  tested : f.con.l.tested = 0
  got : f.con.l.got = 0
  acc : f.acc = .wakeR ∨ f.acc = .done

structure Fed.Ready (f : Fed) : Prop where
  lflag : f.con.l.flag = true
  lsock : f.con.l.sock = true
  unread : f.unread ≠ []

def Pc.busy (pc : Pc) : Prop := pc ≠ .idle ∧ pc ≠ .put

/- Before the accept sets the flags nobody calls the works. -/
def Untouched (h : Half) : Prop :=
  h.flag = false ∧ h.pending = false ∧ h.pc = .idle ∧ h.tested = 0 ∧ h.got = 0

/- A close that clears `sk_user_data` has cleared `lflag` before. -/
def UserL (s : Con) : Prop := ∀ e lc rc, (s.get e).pc = .userL lc rc → s.l.flag = false

structure Fed.Base (f : Fed) : Prop where
  early : f.acc = .lsock ∨ f.acc = .register ∨ f.acc = .lflag → ∀ e, Untouched (f.con.get e)
  registered : f.acc = .lflag → f.con.l.userData = true
  user : f.con.l.flag = true → f.con.l.userData = true
  userL : UserL f.con

def Fed.Attends (f : Fed) : Prop := f.Quiet → f.Ready → f.con.l.pending = true ∨ f.con.l.pc.busy

structure Fed.Inv (f : Fed) : Prop extends Fed.Base f where
  attends : f.Attends

theorem inv_fedDialled : fedDialled.Inv where
  early _ e := by cases e <;> exact ⟨rfl, rfl, rfl, rfl, rfl⟩
  registered h := by cases h
  user h := by cases h
  userL e lc rc h := by cases e <;> cases h
  attends _ h := absurd rfl h.unread

/- ### The works -/

/- What a work of either end does to the left end. -/
structure Spares (s t : Con) : Prop where
  flag : t.l.flag = true → s.l.flag = true
  sock : t.l.sock = true → s.l.sock = true
  user : t.l.flag = true → t.l.userData = s.l.userData
  calls : (t.l.tested, t.l.got) = (s.l.tested, s.l.got)

def sparePart (h : Half) := (h.flag, h.sock, h.userData, h.tested, h.got)

theorem spares_part (s t : Con) (h : sparePart t.l = sparePart s.l) : Spares s t := by
  simp only [sparePart, Prod.mk.injEq] at h
  obtain ⟨hf, hs, hu, ht, hg⟩ := h
  refine ⟨?_, ?_, fun _ => hu, by rw [ht, hg]⟩
  · rw [hf]
    exact id
  · rw [hs]
    exact id

theorem spares_trans (s t u : Con) (h : Spares s t) (h' : Spares t u) : Spares s u where
  flag hu := h.flag (h'.flag hu)
  sock hu := h.sock (h'.sock hu)
  user hu := (h'.user hu).trans (h.user (h'.flag hu))
  calls := h'.calls.trans h.calls

theorem spares_put (s : Con) : Spares s (pepdnaConPut s) := by
  unfold pepdnaConPut pepdnaConKrefRelease
  split
  · exact spares_part s s rfl
  · split
    · refine ⟨id, ?_, fun _ => rfl, rfl⟩
      intro h
      cases h
    · exact spares_part s _ rfl

theorem spares_set (s : Con) (e : End) (h : Half) (hp : sparePart h = sparePart (s.get e)) :
    Spares s (s.set e h) := by
  cases e
  · exact spares_part s _ hp
  · exact spares_part s _ rfl

theorem jump_l (s : Con) (e : End) (pc : Pc) :
    (s.jump e pc).l = { s.l with pc := (s.jump e pc).l.pc } := by
  cases e <;> rfl

/- `sk_user_data` is cleared by the line after the one that clears `lflag`. -/
theorem closeStep_userL (s t : Con) (e : End) (hpc : (s.get e).pc ≠ .closePut)
    (h : closeStep s e (s.get e).pc = some t) :
    (t.l.userData = s.l.userData ∨ ∃ lc rc, (s.get e).pc = .userL lc rc) ∧
      ∀ lc rc, (t.get e).pc = .userL lc rc → t.l.flag = false := by
  have hline := closeStep_cases s t e _ hpc h
  generalize (s.get e).pc = pc at hline ⊢
  cases hline with
  | userL lc rc =>
    rw [get_jump_pc]
    exact ⟨Or.inr ⟨lc, rc, rfl⟩, by simp⟩
  | clearLflag =>
    rw [jump_l]
    exact ⟨Or.inl rfl, fun _ _ _ => rfl⟩
  | close | noSock | readRflag | shutL | clearRflag | noRsock | userR | shutR =>
    rw [jump_l, get_jump_pc]
    exact ⟨Or.inl rfl, by simp⟩

theorem ret_busy (h : Half) (read written : Bytes) (rc : Int) (hrc : rc ≠ -EAGAIN) :
    (h.ret read written rc).pc.busy := by
  unfold Half.ret Pc.busy
  dsimp only
  rw [if_neg hrc]
  split <;> simp

theorem sendmsg_busy (h : Half) (w : SockWrite) (rc : Int) :
    (h.sendmsg w rc).pc.busy ∧ sparePart (h.sendmsg w rc) = sparePart h := by
  unfold Half.sendmsg
  dsimp only
  split
  · exact ⟨by simp [Pc.busy], rfl⟩
  · refine ⟨ret_busy _ _ _ _ ?_, rfl⟩
    split <;> simp only [EAGAIN] <;> omega

theorem busy_of_closing (pc : Pc) (h : pc.closing = 1) : pc.busy := by
  constructor <;> intro hp <;> rw [hp] at h <;> cases h

theorem spares_close (s t : Con) (e : End) (hu : UserL s) (hpc : (s.get e).pc ≠ .closePut)
    (h : closeStep s e (s.get e).pc = some t) : Spares s t := by
  have hf := closeStep_frame s t e hpc h
  have hl : t.l = _ := hf.half .l
  refine ⟨hf.flag .l, ?_, fun hfl => ?_, ?_⟩
  · rw [hl]
    exact id
  · refine (closeStep_userL s t e hpc h).1.resolve_right ?_
    rintro ⟨lc, rc, hp⟩
    cases (hu e lc rc hp).symm.trans (hf.flag .l hfl)
  · rw [hl]
    rfl

/- The left end after a step of the work `e`: its own work goes on or leaves the loop with nothing
to read. -/
theorem workStep_spares (s t : Con) (e : End) (i : In) (hu : UserL s) (h : WorkStep s e i t) :
    Spares s t := by
  cases h with
  | start => exact spares_set s e _ rfl
  | test => exact spares_set s e _ rfl
  | nomem => exact spares_set s e _ rfl
  | read => exact spares_set s e _ rfl
  | recvRet => exact spares_set s e _ rfl
  | sendmsg w rc => exact spares_set s e _ (sendmsg_busy _ w rc).2
  | put => exact spares_trans _ (s.jump e .idle) _ (spares_set s e _ rfl) (spares_put _)
  | close t hpc h => exact spares_close s t e hu hpc h
  | closePut =>
    refine spares_trans _ _ _ (spares_trans _ _ _ (spares_part s { s with drops := s.drops + 1 } rfl)
      (spares_put _)) (spares_set _ e _ rfl)

theorem userL_set (s : Con) (e : End) (h : Half) (hu : UserL s) (hpc : ∀ lc rc, h.pc ≠ .userL lc rc)
    (hf : (s.set e h).l.flag = s.l.flag) : UserL (s.set e h) := by
  intro x lc rc hx
  rw [hf]
  cases e <;> cases x
  · exact absurd hx (hpc lc rc)
  · exact hu .r lc rc hx
  · exact hu .l lc rc hx
  · exact absurd hx (hpc lc rc)

theorem userL_put (s : Con) (hu : UserL s) : UserL (pepdnaConPut s) := by
  intro x lc rc hx
  have hl := put_get s .l
  simp only [Con.get] at hl
  rw [put_get] at hx
  rw [hl]
  exact hu x lc rc hx

theorem ret_not_userL (h : Half) (read written : Bytes) (rc : Int) (lc rcn : Bool) :
    (h.ret read written rc).pc ≠ .userL lc rcn := by
  unfold Half.ret
  dsimp only
  split
  · simp
  · split <;> simp

theorem sendmsg_not_userL (h : Half) (w : SockWrite) (rc : Int) (lc rcn : Bool) :
    (h.sendmsg w rc).pc ≠ .userL lc rcn := by
  unfold Half.sendmsg
  dsimp only
  split
  · simp
  · exact ret_not_userL _ _ _ _ lc rcn

theorem workStep_userL (s t : Con) (e : End) (i : In) (hu : UserL s) (h : WorkStep s e i t) :
    UserL t := by
  have hset (u : Con) (h : Half) (huu : UserL u) (hpc : ∀ lc rc, h.pc ≠ .userL lc rc)
      (hf : h.flag = (u.get e).flag) : UserL (u.set e h) :=
    userL_set u e h huu hpc (by cases e <;> first | exact hf | rfl)
  cases h with
  | start => exact hset s _ hu (by simp) rfl
  | test =>
    refine hset s _ hu (fun lc rc => ?_) rfl
    dsimp only
    split <;> simp
  | nomem => exact hset s _ hu (ret_not_userL _ _ _ _) rfl
  | read => exact hset s _ hu (by simp) rfl
  | recvRet => exact hset s _ hu (ret_not_userL _ _ _ _) rfl
  | sendmsg w rc =>
    have hp := (sendmsg_busy (s.get e) w rc).2
    simp only [sparePart, Prod.mk.injEq] at hp
    exact hset s _ hu (sendmsg_not_userL _ w rc) hp.1
  | put => exact userL_put _ (hset s _ hu (by simp) rfl)
  | close t hpc h =>
    intro x lc rc hx
    have hf := closeStep_frame s t e hpc h
    by_cases hxe : x = e
    · subst hxe
      exact (closeStep_userL s t x hpc h).2 lc rc hx
    · rw [hf.pc x hxe] at hx
      by_contra ht
      rw [Bool.not_eq_false] at ht
      cases (hu x lc rc hx).symm.trans (hf.flag .l ht)
  | closePut =>
    refine hset _ _ (userL_put _ ?_) (by simp) rfl
    rintro (_ | _) lc rc hx
    · exact hu .l lc rc hx
    · exact hu .r lc rc hx

/- ### The invariant -/

theorem workStep_touched (s t : Con) (e : End) (i : In) (h : WorkStep s e i t) :
    ¬Untouched (s.get e) := by
  rintro ⟨-, hp, hpc, -⟩
  cases h with
  | start _ hp' => cases hp.symm.trans hp'
  | close t _ h =>
    rw [hpc] at h
    cases h
  | _ => simp_all

theorem workStep_attends (s t : Con) (i : In) (unread : Bytes) (h : WorkStep s .l i t)
    (hal : ∀ rc, i = .recvRet rc → rc = -EAGAIN → unread = []) (hf : t.l.flag = true)
    (hne : unread ≠ []) : t.l.pc.busy ∨ s.l.pc = .put ∧ t.l.pending = s.l.pending := by
  cases h with
  | start => exact Or.inl (by simp [Con.set, Pc.busy])
  | test =>
    have hs : s.l.flag = true := hf
    exact Or.inl (by simp [Con.jump, Con.set, Con.get, Pc.busy, hs])
  | nomem => exact Or.inl (ret_busy _ _ _ _ (by decide))
  | read => exact Or.inl (by simp [Con.set, Pc.busy])
  | recvRet rc => exact Or.inl (ret_busy _ _ _ _ fun hrc => hne (hal rc rfl hrc))
  | sendmsg w rc => exact Or.inl (sendmsg_busy _ w rc).1
  | put hpc =>
    have hput := put_get (s.jump .l .idle) .l
    simp only [Con.get] at hput
    refine Or.inr ⟨hpc, ?_⟩
    rw [hput]
    rfl
  | close t hpc h =>
    exact Or.inl (busy_of_closing _ (closeStep_frame s t .l hpc h).closing.2)
  | closePut => exact Or.inl (by simp [Con.jump, Con.set, Pc.busy])

/- The right work leaves the left one where it is. -/
theorem workStep_r (s t : Con) (i : In) (h : WorkStep s .r i t) :
    t.l.pc = s.l.pc ∧ t.l.pending = s.l.pending := by
  have hput (u : Con) (hu : (u.l.pc, u.l.pending) = (s.l.pc, s.l.pending)) :
      (pepdnaConPut u).l.pc = s.l.pc ∧ (pepdnaConPut u).l.pending = s.l.pending := by
    have hl := put_get u .l
    simp only [Con.get] at hl
    rw [hl]
    exact Prod.mk.inj hu
  cases h with
  | put => exact hput _ rfl
  | close t hpc h =>
    have hf := closeStep_frame s t .r hpc h
    have hl : t.l = _ := hf.half .l
    refine ⟨hf.pc .l (by decide), ?_⟩
    rw [hl]
    rfl
  | closePut => exact hput { s with drops := s.drops + 1 } rfl
  | _ => exact ⟨rfl, rfl⟩

theorem inv_work (f : Fed) (e : End) (i : In) (t : Con) (hi : f.Inv) (hal : f.allows (.work e i))
    (h : WorkStep f.con e i t) : Fed.Inv { f with con := t, unread := f.left (.work e i) } := by
  have hsp := workStep_spares f.con t e i hi.userL h
  have htouched (ht : ∀ e, Untouched (f.con.get e)) : False :=
    workStep_touched f.con t e i h (ht e)
  refine ⟨⟨fun hx => (htouched (hi.early hx)).elim,
    fun hx => (htouched (hi.early (Or.inr (Or.inr hx)))).elim,
    fun hf => (hsp.user hf).trans (hi.user (hsp.flag hf)), workStep_userL f.con t e i hi.userL h⟩,
    fun hq hr => ?_⟩
  have hcalls := Prod.mk.inj hsp.calls
  have hpre (hne : f.unread ≠ []) : f.con.l.pending = true ∨ f.con.l.pc.busy :=
    hi.attends ⟨hq.due, hcalls.1.symm.trans hq.tested, hcalls.2.symm.trans hq.got, hq.acc⟩
      ⟨hsp.flag hr.lflag, hsp.sock hr.lsock, hne⟩
  cases e with
  | l =>
    have hempty (rc : Int) (hrc : i = .recvRet rc) (he : rc = -EAGAIN) :
        f.left (.work .l i) = [] := by
      subst hrc
      exact hal he
    rcases workStep_attends f.con t i _ h hempty hr.lflag hr.unread with hb | ⟨hpc, hp⟩
    · exact Or.inr hb
    · have hne : f.unread ≠ [] := by
        cases i with
        | read bs => exact fun hu => hr.unread (by simp [Fed.left, hu])
        | _ => exact hr.unread
      exact (hpre hne).imp (fun hx => hp.trans hx) fun hb => absurd hpc hb.2
  | r =>
    obtain ⟨hpc, hp⟩ := workStep_r f.con t i h
    have hb : t.l.pc.busy ↔ f.con.l.pc.busy := by rw [hpc]
    exact (hpre hr.unread).imp (fun hx => hp.trans hx) hb.mpr

/- The callbacks. Those of the right end do not touch the left one; those of the left one are
midway until the work is pending. -/
theorem inv_set (f : Fed) (e : End) (h : Half) (k due : ℕ) (hi : f.Base) (ha : e = .r → f.Attends)
    (hk : (h.flag, h.sock, h.userData, h.pc) =
      ((f.con.get e).flag, (f.con.get e).sock, (f.con.get e).userData, (f.con.get e).pc))
    (hun : Untouched (f.con.get e) → Untouched h) (hdue : due = 0 → e = .r → f.due = 0)
    (hl : e = .l → f.con.l.flag = true → h.tested = 0 → h.got = 0 → h.pending = true) :
    Fed.Inv { f with con := Con.set { f.con with kref := k } e h, due := due } := by
  simp only [Prod.mk.injEq] at hk
  obtain ⟨hf, hs, hu, hpc⟩ := hk
  cases e with
  | l =>
    refine ⟨⟨fun hx => ?_, fun hx => hu.trans (hi.registered hx), ?_, ?_⟩,
      fun hq hr => Or.inl ?_⟩
    · rintro (_ | _)
      · exact hun (hi.early hx .l)
      · exact hi.early hx .r
    · exact fun hfl => hu.trans (hi.user (hf.symm.trans hfl))
    · rintro (_ | _) lc rc hx
      · exact hf.trans (hi.userL .l lc rc (hpc.symm.trans hx))
      · exact hf.trans (hi.userL .r lc rc hx)
    · exact hl rfl (hf.symm.trans hr.lflag) hq.tested hq.got
  | r =>
    refine ⟨⟨fun hx => ?_, hi.registered, hi.user, ?_⟩, fun hq hr => ?_⟩
    · rintro (_ | _)
      · exact hi.early hx .l
      · exact hun (hi.early hx .r)
    · rintro (_ | _) lc rc hx
      · exact hi.userL .l lc rc hx
      · exact hi.userL .r lc rc (hpc.symm.trans hx)
    · exact ha rfl ⟨hdue hq.due rfl, hq.tested, hq.got, hq.acc⟩ ⟨hr.lflag, hr.lsock, hr.unread⟩

theorem inv_dataReady (f : Fed) (e : End) (t : Con) (due : ℕ) (hi : f.Base)
    (ha : e = .r → f.Attends) (hdue : due = 0 → e = .r → f.due = 0)
    (h : conStep f.con (.dataReady e) = some t) :
    Fed.Inv { f with con := t, due := due } := by
  simp only [conStep] at h
  split at h
  · cases h
    split
    · next hc =>
      rw [Bool.and_eq_true] at hc
      refine inv_set f e _ f.con.kref due hi ha rfl (fun hu => ?_) hdue fun _ _ ht => ?_
      · cases hu.1.symm.trans hc.2
      · cases ht
    · next hc =>
      -- the callback returns at once: the flag is not set
      have hset : f.con = f.con.set e (f.con.get e) := by cases e <;> rfl
      rw [hset]
      refine inv_set f e _ f.con.kref due hi ha rfl id hdue ?_
      rintro rfl hfl
      exact absurd (by simp [Con.get, hi.user hfl, hfl]) hc
  · cases h

def calmPart (h : Half) := (h.flag, h.pending, h.pc, h.tested, h.got, h.userData)

theorem inv_calm (f : Fed) (t : Con) (hi : f.Inv)
    (h : ∀ x, calmPart (t.get x) = calmPart (f.con.get x))
    (hs : t.l.sock = true → f.con.l.sock = true) : Fed.Inv { f with con := t } := by
  simp only [calmPart, Prod.mk.injEq] at h
  obtain ⟨hf, hp, hpc, ht, hg, hu⟩ := h .l
  simp only [Con.get] at hf hp hpc ht hg hu
  refine ⟨⟨fun hx x => ?_, fun hx => hu.trans (hi.registered hx), ?_, ?_⟩, fun hq hr => ?_⟩
  · obtain ⟨hf, hp, hpc, ht, hg, -⟩ := h x
    have he := hi.early hx x
    exact ⟨hf.trans he.1, hp.trans he.2.1, hpc.trans he.2.2.1, ht.trans he.2.2.2.1,
      hg.trans he.2.2.2.2⟩
  · exact fun hfl => hu.trans (hi.user (hf.symm.trans hfl))
  · intro x lc rc hx
    obtain ⟨-, -, hpcx, -⟩ := h x
    exact hf.trans (hi.userL x lc rc (hpcx.symm.trans hx))
  · rw [show t.l.pending = f.con.l.pending from hp, show t.l.pc = f.con.l.pc from hpc]
    exact hi.attends ⟨hq.due, ht.symm.trans hq.tested, hg.symm.trans hq.got, hq.acc⟩
      ⟨hf.symm.trans hr.lflag, hs hr.lsock, hr.unread⟩

theorem inv_con (f : Fed) (a : Act) (t : Con) (hi : f.Inv) (hal : f.allows a)
    (h : conStep f.con a = some t) : Fed.Inv { f with con := t, unread := f.left a } := by
  cases a with
  | dataReady e => exact inv_dataReady f e t f.due hi.toBase (fun _ => hi.attends) (fun hd _ => hd) h
  | get e =>
    simp only [conStep] at h
    split at h
    · next ht =>
      cases h
      refine inv_set f e _ (f.con.kref + 1) f.due hi.toBase (fun _ => hi.attends) rfl (fun hu => ?_)
        (fun hd _ => hd) ?_
      · rw [hu.2.2.2.1] at ht
        cases ht
      · intro _ _ _ hg
        cases hg
    · cases h
  | queueWork e =>
    simp only [conStep] at h
    split at h
    · next hg =>
      cases h
      have hun (hu : Untouched (f.con.get e)) : False := by
        rw [hu.2.2.2.2] at hg
        cases hg
      split
      · next hp =>
        exact inv_set f e _ f.con.kref f.due hi.toBase (fun _ => hi.attends) rfl
          (fun hu => (hun hu).elim) (fun hd _ => hd) fun _ _ _ _ => hp
      · exact inv_set f e _ f.con.kref f.due hi.toBase (fun _ => hi.attends) rfl
          (fun hu => (hun hu).elim) (fun hd _ => hd) fun _ _ _ _ => rfl
    · cases h
  | putBack e =>
    simp only [conStep] at h
    split at h
    · cases h
      refine inv_calm f _ hi (fun x => ?_) fun hs => ?_
      · rw [put_get]
        cases e <;> cases x <;> rfl
      · have hl := (spares_put _).sock hs
        cases e <;> exact hl
    · cases h
  | work e i => exact inv_work f e i t hi hal (workStep_cases f.con t e i h)

/- The accept sets the flag when no work has run yet, and calls `sk_data_ready` after it. -/
theorem base_accept (f : Fed) (h h' : Half) (acc : AcceptPc) (hi : f.Base)
    (hpc : h.pc = f.con.l.pc ∧ h'.pc = f.con.r.pc)
    (hun : acc = .register ∨ acc = .lflag → Untouched h ∧ Untouched h') (hacc : acc ≠ .lsock)
    (hreg : acc = .lflag → h.userData = true) (hu : h.flag = true → h.userData = true)
    (hf : h.flag = f.con.l.flag ∨ ∀ e, Untouched (f.con.get e)) :
    Fed.Base { f with con := { f.con with l := h, r := h' }, acc := acc } where
  early hx e := by
    have he := hun (hx.resolve_left hacc)
    cases e
    · exact he.1
    · exact he.2
  registered := hreg
  user := hu
  userL e lc rc hx := by
    rcases hf with hf | hf
    · cases e
      · exact hf.trans (hi.userL .l lc rc (hpc.1.symm.trans hx))
      · exact hf.trans (hi.userL .r lc rc (hpc.2.symm.trans hx))
    · have hidle := (hf e).2.2.1
      cases e
      · cases (hpc.1.symm.trans hx).symm.trans hidle
      · cases (hpc.2.symm.trans hx).symm.trans hidle

theorem inv_accept (f f' : Fed) (hi : f.Inv) (h : acceptStep f = some f') : f'.Inv := by
  unfold acceptStep at h
  cases hacc : f.acc with
  | lsock =>
    rw [hacc] at h
    cases h
    have he := hi.early (Or.inl hacc)
    exact ⟨base_accept f _ _ _ hi.toBase ⟨rfl, rfl⟩ (fun _ => ⟨he .l, he .r⟩) (by simp) (by simp)
      hi.user (Or.inl rfl), fun hq => by simpa using hq.acc⟩
  | register =>
    rw [hacc] at h
    cases h
    have he := hi.early (Or.inr (Or.inl hacc))
    exact ⟨base_accept f _ _ _ hi.toBase ⟨rfl, rfl⟩ (fun _ => ⟨he .l, he .r⟩) (by simp)
      (fun _ => rfl) (fun _ => rfl) (Or.inl rfl), fun hq => by simpa using hq.acc⟩
  | lflag =>
    rw [hacc] at h
    cases h
    exact ⟨base_accept f _ _ _ hi.toBase ⟨rfl, rfl⟩ (by simp) (by simp) (by simp)
      (fun _ => hi.registered hacc) (Or.inr (hi.early (Or.inr (Or.inr hacc)))),
      fun hq => by simpa using hq.acc⟩
  | rflag =>
    rw [hacc] at h
    cases h
    exact ⟨base_accept f _ _ _ hi.toBase ⟨rfl, rfl⟩ (by simp) (by simp) (by simp) hi.user
      (Or.inl rfl), fun hq => by simpa using hq.acc⟩
  | wakeL =>
    rw [hacc] at h
    cases h
    have hb : Fed.Base { f with acc := .wakeR } :=
      ⟨by simp, by simp, hi.user, hi.userL⟩
    unfold wakeEnd
    cases ht : conStep f.con (.dataReady .l) with
    | none =>
      refine ⟨hb, fun _ hr => ?_⟩
      have hl : f.con.l.sock = true := hr.lsock
      simp [conStep, Con.get, hl] at ht
    | some t =>
      exact inv_dataReady { f with acc := .wakeR } .l t f.due hb (by simp) (by simp) ht
  | wakeR =>
    rw [hacc] at h
    cases h
    have hd : Fed.Inv { f with acc := .done } :=
      ⟨⟨by simp, by simp, hi.user, hi.userL⟩, fun hq hr => hi.attends
        ⟨hq.due, hq.tested, hq.got, Or.inl hacc⟩ ⟨hr.lflag, hr.lsock, hr.unread⟩⟩
    unfold wakeEnd
    cases ht : conStep f.con (.dataReady .r) with
    | none => exact hd
    | some t =>
      exact inv_dataReady { f with acc := .done } .r t f.due hd.toBase (fun _ => hd.attends)
        (fun hx _ => hx) ht
  | done =>
    rw [hacc] at h
    cases h

theorem inv_fedStep (f : Fed) (a : FedAct) (f' : Fed) (hi : f.Inv) (h : fedStep f a = some f') :
    f'.Inv := by
  cases a with
  | arrive bs =>
    simp only [fedStep] at h
    split at h <;> cases h
    refine ⟨⟨hi.early, hi.registered, hi.user, hi.userL⟩, fun hq hr => ?_⟩
    have hdue := hq.due
    rw [if_pos (show f.con.l.sock = true from hr.lsock)] at hdue
    cases hdue
  | call =>
    simp only [fedStep] at h
    split at h
    · obtain ⟨t, ht, rfl⟩ := Option.map_eq_some_iff.mp h
      exact inv_dataReady f .l t (f.due - 1) hi.toBase (by simp) (by simp) ht
    · cases h
  | accept => exact inv_accept f f' hi h
  | con a =>
    simp only [fedStep] at h
    split at h
    · next hal =>
      obtain ⟨t, ht, rfl⟩ := Option.map_eq_some_iff.mp h
      exact inv_con f a t hi hal ht
    · cases h

/-- `l2r_work` in TCP2TCP: pending or executing. -/
def Fed.Attended (f : Fed) : Prop := f.Quiet → f.Ready → f.con.l.pending = true ∨ f.con.l.pc ≠ .idle

theorem fedRun_attended (acts : List FedAct) (f : Fed)
    (hr : Lts.run fedStep fedDialled acts = some f) : f.Attended := by
  have hi := Lts.run_invariant Fed.Inv inv_fedStep _ f acts inv_fedDialled hr
  exact fun hq hready => (hi.attends hq hready).imp_right And.left

end PepDna.Tcp

namespace PepDna

/-- In every run of a TCP2TCP connection and of a MINIP connection of either mode. -/
theorem l2rWork_wakeup_not_lost :
    (∀ (acts : List Tcp.FedAct) (f : Tcp.Fed),
      Lts.run Tcp.fedStep Tcp.fedDialled acts = some f → f.Attended) ∧
    ∀ (mode : Minip.Mode) (syn : SynTuple) (acts : List Minip.FedAct) (f : Minip.Fed),
      Lts.run Minip.fedStep (Minip.fedAlloc mode syn) acts = some f → f.Attended :=
  ⟨Tcp.fedRun_attended, Minip.fedRun_attended⟩

/- A byte arrives after `kernel_recvmsg` has answered `-EAGAIN` and before the work exits. -/
def tcpLateByte : List Tcp.FedAct :=
  List.replicate 6 .accept ++
    [.con (.get .l), .con (.queueWork .l), .con (.work .l .tau), .con (.work .l .tau),
      .con (.work .l (.recvRet (-EAGAIN))), .arrive [1], .con (.work .l .tau), .call, .con (.get .l),
      .con (.queueWork .l)]

def tcpLateByteFed : Tcp.Fed := (Lts.run Tcp.fedStep Tcp.fedDialled tcpLateByte).getD Tcp.fedDialled

def minipLateByte : List Minip.FedAct :=
  List.replicate 6 (.con (.tcfa 0 0)) ++
    [.con (.work .tau), .con (.work .tau), .con (.work .tau), .con (.work (.recvRet (-EAGAIN))),
      .arrive [1], .con (.work .tau), .call]

def minipLateByteFed : Minip.Fed :=
  (Lts.run Minip.fedStep (Minip.fedAlloc .minip2tcp Minip.sampleSyn) minipLateByte).getD
    (Minip.fedAlloc .minip2tcp Minip.sampleSyn)

theorem lateByte_attended :
    (tcpLateByteFed.Ready ∧
      (tcpLateByteFed.con.l.pending = true ∨ tcpLateByteFed.con.l.pc ≠ .idle)) ∧
    minipLateByteFed.Ready ∧
      (minipLateByteFed.con.pending = true ∨ minipLateByteFed.con.pc ≠ .idle) := by
  have ht : tcpLateByteFed.Ready := by constructor <;> decide +kernel
  have hm : minipLateByteFed.Ready := by constructor <;> decide +kernel
  refine ⟨⟨ht, l2rWork_wakeup_not_lost.1 tcpLateByte _ (by decide +kernel) ?_ ht⟩, hm,
    l2rWork_wakeup_not_lost.2 .minip2tcp Minip.sampleSyn minipLateByte _ (by decide +kernel) ?_ hm⟩
  · constructor <;> decide +kernel
  · constructor <;> decide +kernel

end PepDna
