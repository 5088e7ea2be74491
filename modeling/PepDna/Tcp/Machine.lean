import PepDna.Lts
import PepDna.SockWrite

/-!
# A TCP2TCP connection (tcp.c, connection.c:211-328, server.c:179-210)

The two forwarding works and the `data_ready` callbacks of an accepted
connection run concurrently on shared fields, so each work is a machine with a
program counter that makes one access per step. The left work `l2r_work` reads
`lsock` and writes `rsock`, the right work `r2l_work` the other way round; one
definition, indexed by the end it reads from, is both of them.

The memory of the connection outlives its release: after `kref` has reached `0`
the steps still go on, as they would on freed memory.
-/

namespace PepDna.Tcp

def MAX_BUF_SIZE : ℕ := 14480

inductive End where
  | l
  | r
  deriving Repr, DecidableEq

/- `fwd` and `write` are inside `pepdna_con_i2i_fwd`, `close` to `closePut` inside
`pepdna_con_close`, whose local variables `lconnected` and `rconnected` are the arguments. -/
inductive Pc where
  | idle
  | test
  | fwd
  | write (w : SockWrite)
  | close
  | readRflag (lconnected : Bool)
  | clearLflag (lconnected rconnected : Bool)
  | userL (lconnected rconnected : Bool)
  | shutL (lconnected rconnected : Bool)
  | clearRflag (rconnected : Bool)
  | userR (rconnected : Bool)
  | shutR (rconnected : Bool)
  | closePut
  | put
  deriving Repr, DecidableEq

/-- A call of `pepdna_con_i2i_fwd` that returned. -/
structure Call where
  read : Bytes
  written : Bytes
  rc : Int
  deriving Repr, DecidableEq

/- One end of the connection: its socket and flag, the work that reads from it, how many callbacks
of the socket have passed the test of the flag, taken their reference, or failed to queue the work.
`rd` is what the work read here, `wr` what the opposite socket accepted from it. -/
structure Half where
  sock : Bool
  flag : Bool
  userData : Bool
  shut : Bool
  pending : Bool
  pc : Pc
  tested : ℕ
  got : ℕ
  toPut : ℕ
  rd : Bytes
  wr : Bytes
  calls : List Call
  deriving Repr, DecidableEq

structure Con where
  kref : ℕ
  drops : ℕ
  l : Half
  r : Half
  deriving Repr, DecidableEq

/-- An end that `pepdna_tcp_accept` has just connected. -/
def connectedHalf : Half :=
  { sock := true, flag := true, userData := true, shut := false, pending := false, pc := .idle,
    tested := 0, got := 0, toPut := 0, rd := [], wr := [], calls := [] }

def accepted : Con := ⟨1, 0, connectedHalf, connectedHalf⟩

def Con.get (s : Con) : End → Half
  | .l => s.l
  | .r => s.r

def Con.set (s : Con) (e : End) (h : Half) : Con :=
  match e with
  | .l => { s with l := h }
  | .r => { s with r := h }

def Con.jump (s : Con) (e : End) (pc : Pc) : Con := s.set e { s.get e with pc := pc }

theorem get_jump_pc (s : Con) (e : End) (pc : Pc) : ((s.jump e pc).get e).pc = pc := by
  cases e <;> rfl

/-- `sock_release` of both sockets, `con->lsock` and `con->rsock` are cleared. -/
def pepdnaConKrefRelease (s : Con) : Con :=
  { s with
    l := { s.l with sock := false, shut := true }
    r := { s.r with sock := false, shut := true } }

def pepdnaConPut (s : Con) : Con :=
  if s.kref = 0 then s
  else if s.kref = 1 then pepdnaConKrefRelease { s with kref := 0 }
  else { s with kref := s.kref - 1 }

/-- The loop of a forwarding work after `pepdna_con_i2i_fwd` returned `rc`. -/
def Half.ret (h : Half) (read written : Bytes) (rc : Int) : Half :=
  { h with
    calls := h.calls ++ [⟨read, written, rc⟩]
    pc := if 0 < rc then .test else if rc = -EAGAIN then .put else .close }

/-- One `kernel_sendmsg` of `pepdna_con_i2i_fwd` and what follows it. -/
def Half.sendmsg (h : Half) (w : SockWrite) (rc : Int) : Half :=
  let h := { h with wr := h.wr ++ w.accepted rc }
  match pepdnaSockWriteIter w rc with
  | .again w' => { h with pc := .write w' }
  | .ret v =>
    let read := w.done ++ w.rest
    h.ret read (w.done ++ w.accepted rc) (if v < 0 then -1 else read.length)

/-- The lines of `pepdna_con_close`, executed by the work of the end `e`. -/
def closeStep (s : Con) (e : End) : Pc → Option Con
  | .close => some (s.jump e (if s.l.sock then .readRflag s.l.flag else .closePut))
  | .readRflag lc => some (s.jump e (.clearLflag lc s.r.flag))
  | .clearLflag lc rc => some ({ s with l := { s.l with flag := false } }.jump e (.userL lc rc))
  | .userL lc rc =>
    some ({ s with l := { s.l with userData := s.l.userData && !lc } }.jump e (.shutL lc rc))
  | .shutL lc rc =>
    some ({ s with l := { s.l with shut := s.l.shut || lc } }.jump e (.clearRflag rc))
  | .clearRflag rc =>
    some (if s.r.sock then { s with r := { s.r with flag := false } }.jump e (.userR rc)
      else s.jump e .closePut)
  | .userR rc =>
    some ({ s with r := { s.r with userData := s.r.userData && !rc } }.jump e (.shutR rc))
  | .shutR rc => some ({ s with r := { s.r with shut := s.r.shut || rc } }.jump e .closePut)
  | .closePut => some ((pepdnaConPut { s with drops := s.drops + 1 }).jump e .test)
  | _ => none

inductive In where
  | tau
  | nomem
  | read (bs : Bytes)
  | recvRet (rc : Int)
  | sendmsg (rc : Int)
  deriving Repr, DecidableEq

/- One step of `pepdna_con_l2r_fwd` or `pepdna_con_r2l_fwd`. The kernel takes at most what it is
offered. -/
def workStep (s : Con) (e : End) (i : In) : Option Con :=
  let h := s.get e
  match h.pc, i with
  | .idle, .tau =>
    if h.pending then some (s.set e { h with pending := false, pc := .test }) else none
  | .test, .tau => some (s.jump e (if h.flag then .fwd else .put))
  | .fwd, .nomem => some (s.set e (h.ret [] [] (-ENOMEM)))
  | .fwd, .read bs =>
    if bs ≠ [] ∧ bs.length ≤ MAX_BUF_SIZE then
      some (s.set e { h with rd := h.rd ++ bs, pc := .write (SockWrite.start bs) })
    else none
  | .fwd, .recvRet rc => if rc ≤ 0 then some (s.set e (h.ret [] [] rc)) else none
  | .write w, .sendmsg rc =>
    if rc ≤ w.rest.length then some (s.set e (h.sendmsg w rc)) else none
  | .put, .tau => some (pepdnaConPut (s.jump e .idle))
  | pc, .tau => closeStep s e pc
  | _, _ => none

/- `pepdna_l2r_conn_data_ready` and `pepdna_r2l_conn_data_ready`, cut at the test of the flag, the
`pepdna_con_get`, the `queue_work` and the `pepdna_con_put` after a failed `queue_work`. -/
inductive Act where
  | dataReady (e : End)
  | get (e : End)
  | queueWork (e : End)
  | putBack (e : End)
  | work (e : End) (i : In)
  deriving Repr, DecidableEq

def conStep (s : Con) : Act → Option Con
  | .dataReady e =>
    let h := s.get e
    if h.sock then
      some (if h.userData && h.flag then s.set e { h with tested := h.tested + 1 } else s)
    else none
  | .get e =>
    let h := s.get e
    if 0 < h.tested then
      some ({ s with kref := s.kref + 1 }.set e { h with tested := h.tested - 1, got := h.got + 1 })
    else none
  | .queueWork e =>
    let h := s.get e
    if 0 < h.got then
      some (s.set e (if h.pending then { h with got := h.got - 1, toPut := h.toPut + 1 }
        else { h with got := h.got - 1, pending := true }))
    else none
  | .putBack e =>
    let h := s.get e
    if 0 < h.toPut then some (pepdnaConPut (s.set e { h with toPut := h.toPut - 1 })) else none
  | .work e i => workStep s e i

/- The lines of `closeStep` but the last. -/
inductive CloseLine (s : Con) (e : End) : Pc → Con → Prop
  | close (hl : s.l.sock = true) : CloseLine s e .close (s.jump e (.readRflag s.l.flag))
  | noSock (hl : s.l.sock = false) : CloseLine s e .close (s.jump e .closePut)
  | readRflag (lc : Bool) : CloseLine s e (.readRflag lc) (s.jump e (.clearLflag lc s.r.flag))
  | clearLflag (lc rc : Bool) : CloseLine s e (.clearLflag lc rc)
      ({ s with l := { s.l with flag := false } }.jump e (.userL lc rc))
  | userL (lc rc : Bool) : CloseLine s e (.userL lc rc)
      ({ s with l := { s.l with userData := s.l.userData && !lc } }.jump e (.shutL lc rc))
  | shutL (lc rc : Bool) : CloseLine s e (.shutL lc rc)
      ({ s with l := { s.l with shut := s.l.shut || lc } }.jump e (.clearRflag rc))
  | clearRflag (rc : Bool) (hr : s.r.sock = true) : CloseLine s e (.clearRflag rc)
      ({ s with r := { s.r with flag := false } }.jump e (.userR rc))
  | noRsock (rc : Bool) (hr : s.r.sock = false) :
      CloseLine s e (.clearRflag rc) (s.jump e .closePut)
  | userR (rc : Bool) : CloseLine s e (.userR rc)
      ({ s with r := { s.r with userData := s.r.userData && !rc } }.jump e (.shutR rc))
  | shutR (rc : Bool) : CloseLine s e (.shutR rc)
      ({ s with r := { s.r with shut := s.r.shut || rc } }.jump e .closePut)

theorem closeStep_cases (s t : Con) (e : End) (pc : Pc) (hpc : pc ≠ .closePut)
    (h : closeStep s e pc = some t) : CloseLine s e pc t := by
  cases pc with
  | close =>
    cases h
    split
    · next hl => exact .close hl
    · next hl => exact .noSock (Bool.not_eq_true _ ▸ hl)
  | clearRflag rc =>
    cases h
    split
    · next hr => exact .clearRflag rc hr
    · next hr => exact .noRsock rc (Bool.not_eq_true _ ▸ hr)
  | closePut => exact absurd rfl hpc
  | readRflag | clearLflag | userL | shutL | userR | shutR =>
    cases h
    constructor
  | idle | test | fwd | write | put => cases h

/- The lines of `workStep`, one constructor each; `close` stands for those of `closeStep` but the
last. -/
inductive WorkStep (s : Con) (e : End) : In → Con → Prop
  | start (hpc : (s.get e).pc = .idle) (hp : (s.get e).pending = true) :
      WorkStep s e .tau (s.set e { s.get e with pending := false, pc := .test })
  | test (hpc : (s.get e).pc = .test) :
      WorkStep s e .tau (s.jump e (if (s.get e).flag then .fwd else .put))
  | nomem (hpc : (s.get e).pc = .fwd) :
      WorkStep s e .nomem (s.set e ((s.get e).ret [] [] (-ENOMEM)))
  | read (bs : Bytes) (hpc : (s.get e).pc = .fwd) (hne : bs ≠ []) :
      WorkStep s e (.read bs)
        (s.set e { s.get e with rd := (s.get e).rd ++ bs, pc := .write (SockWrite.start bs) })
  | recvRet (rc : Int) (hpc : (s.get e).pc = .fwd) (hrc : rc ≤ 0) :
      WorkStep s e (.recvRet rc) (s.set e ((s.get e).ret [] [] rc))
  | sendmsg (w : SockWrite) (rc : Int) (hpc : (s.get e).pc = .write w) :
      WorkStep s e (.sendmsg rc) (s.set e ((s.get e).sendmsg w rc))
  | put (hpc : (s.get e).pc = .put) : WorkStep s e .tau (pepdnaConPut (s.jump e .idle))
  | close (t : Con) (hpc : (s.get e).pc ≠ .closePut) (h : closeStep s e (s.get e).pc = some t) :
      WorkStep s e .tau t
  | closePut (hpc : (s.get e).pc = .closePut) :
      WorkStep s e .tau ((pepdnaConPut { s with drops := s.drops + 1 }).jump e .test)

theorem workStep_cases (s t : Con) (e : End) (i : In) (h : workStep s e i = some t) :
    WorkStep s e i t := by
  unfold workStep at h
  dsimp only at h
  split at h
  · next he =>
    split at h
    · next hp =>
      cases h
      exact .start he hp
    · cases h
  · next he => cases h; exact .test he
  · next he => cases h; exact .nomem he
  · next he =>
    split at h
    · next hb =>
      cases h
      exact .read _ he hb.1
    · cases h
  · next he =>
    split at h
    · next hrc =>
      cases h
      exact .recvRet _ he hrc
    · cases h
  · next he =>
    split at h
    · cases h
      exact .sendmsg _ _ he
    · cases h
  · next he => cases h; exact .put he
  · by_cases hc : (s.get e).pc = .closePut
    · rw [hc] at h
      cases h
      exact .closePut hc
    · exact .close t hc h
  · cases h

end PepDna.Tcp
