import PepDna.Hash
import PepDna.SockWrite
import PepDna.Minip.Rtxq

/-!
# One MINIP connection (connection.h, connection.c)

`Con` is `struct pepdna_con` in the two MINIP modes, together with the kernel
objects its fields point to: the left TCP socket, the timer, the two work items
and the packets handed to the device. A MINIP build without RINA is modelled.

Reference counting and the retransmission queue are kept as memory that survives
its own release. `destroys`, `uaf` and `drops` record what a release would have
done to a real heap, so that use after free and double free can be stated.
-/

namespace PepDna.Minip

inductive Mode where
  | tcp2minip
  | minip2tcp
  deriving Repr, DecidableEq

/-- `enum minip_state`; `zero` is what `kzalloc` leaves in the field. -/
inductive MinipState where
  | zero
  | requestSent
  | requestRecvd
  | established
  | recovery
  deriving Repr, DecidableEq

/-- The MINIP frames, each with the fields that its builder in minip.c fills in. -/
inductive Packet where
  | request (id seq ack ts : ℕ) (syn : SynTuple)
  | response (id seq ack : ℕ)
  | data (d : DataPdu)
  | ack (id ack ts : ℕ)
  | delete (id : ℕ)
  | finished (id : ℕ)
  deriving Repr, DecidableEq

/-- Where `pepdna_con_i2m_work` stands. -/
inductive WorkPc where
  | idle
  | test
  | canSend
  | recvmsg (howMuch : ℕ)
  | send (left : Bytes) (sent : ℕ)
  | advance (left : Bytes) (sent : ℕ)
  | delete (rc : Int)
  | close
  | put
  deriving Repr, DecidableEq

/-- Where the `tcfa_work` of the connection stands: `pepdna_minip_handshake` in TCP2MINIP
(`queued`, `assign`) and `pepdna_tcp_connect` in MINIP2TCP (all of them). -/
inductive TcfaPc where
  | queued
  | respond
  | assign
  | register
  | flag
  | wake
  | done
  deriving Repr, DecidableEq

/-- A DATA packet whose handler is inside `pepdna_sock_write`. -/
structure RxWrite where
  pdu : DataPdu
  w : SockWrite
  deriving Repr, DecidableEq

structure Con where
  -- struct pepdna_con
  mode : Mode
  id : ℕ
  tuple : SynTuple
  kref : ℕ
  rtxq : Rtxqueue
  timer : Bool
  dupAcks : ℕ
  sending : Bool
  lastAcked : ℕ
  nextSeq : ℕ
  state : MinipState
  window : ℕ
  nextRecv : ℕ
  rto : ℕ
  srtt : ℕ
  rttvar : ℕ
  lsock : Bool
  lflag : Bool
  rflag : Bool
  -- the hash table, the left socket, the work items, a receive handler under way, the device
  hashed : Bool
  userData : Bool
  shut : Bool
  sockErr : Bool
  pending : Bool
  pc : WorkPc
  tcfa : TcfaPc
  synPending : Bool
  rx : Option RxWrite
  tx : List Packet
  -- history
  rd : Bytes
  wr : Bytes
  sdus : List Bytes
  syns : ℕ
  drops : ℕ
  destroys : ℕ
  uaf : Bool
  oops : Bool
  deriving Repr, DecidableEq

/-- `pepdna_con_alloc` in the MINIP modes, `tcfa_work` queued. -/
def pepdnaConAlloc (mode : Mode) (syn : SynTuple) (hashId : ℕ) : Con where
  mode := mode
  id := hashId
  tuple := syn
  kref := 1
  rtxq := rtxqueueCreate
  timer := false
  dupAcks := 0
  sending := true
  lastAcked := MINIP_FIRST_SEQ
  nextSeq := MINIP_FIRST_SEQ
  state := .zero
  window := WINDOW_SIZE
  nextRecv := MINIP_FIRST_SEQ
  rto := 3000
  srtt := 0
  rttvar := 0
  lsock := false
  lflag := false
  rflag := false
  hashed := true
  userData := false
  shut := false
  sockErr := false
  pending := false
  pc := .idle
  tcfa := .queued
  synPending := false
  rx := none
  tx := []
  rd := []
  wr := []
  sdus := []
  syns := 0
  drops := 0
  destroys := 0
  uaf := false
  oops := false

/-- `dev_queue_xmit`: the frame is on the wire until it is delivered or lost. -/
def transmit (c : Con) (p : Packet) : Con := { c with tx := c.tx ++ [p] }

def pepdnaConGet (c : Con) : Con := { c with kref := c.kref + 1 }

/- `pepdna_con_kref_release`: `sock_release` closes the socket, `hlist_del` takes the entry out of
the hash table. -/
def pepdnaConKrefRelease (c : Con) : Con :=
  { c with lsock := false, shut := c.shut || c.lsock, hashed := false }

def pepdnaConPut (c : Con) : Con :=
  if c.kref = 0 then c
  else if c.kref = 1 then pepdnaConKrefRelease { c with kref := 0 }
  else { c with kref := c.kref - 1 }

/-- Every access to `con->rtxq` goes through here. -/
def touchRtxq (c : Con) : Con := { c with uaf := c.uaf || decide (0 < c.destroys) }

/-- `rtxq_destroy` flushes the list before the two `kfree`s. -/
def rtxqDestroy (c : Con) : Con :=
  { touchRtxq c with rtxq := rtxqueueCreate, destroys := c.destroys + 1 }

/-- The `err:` label of `pepdna_con_close` drops the reference of `kref_init`. -/
def closeErr (c : Con) : Con := pepdnaConPut { c with drops := c.drops + 1 }

/-- `pepdna_con_close` in the MINIP modes. -/
def pepdnaConClose (c : Con) : Con :=
  if c.lsock then
    let rconnected := c.rflag
    -- sk_user_data is cleared and the socket shut down by the call that finds lflag set
    let c := { c with
      lflag := false
      userData := c.userData && !c.lflag
      shut := c.shut || c.lflag
      timer := false }
    if rconnected then c else closeErr (rtxqDestroy c)
  else closeErr c

/-- `pepdna_l2r_conn_data_ready`, the callback registered on the left socket. -/
def pepdnaL2rConnDataReady (c : Con) : Con :=
  if c.userData && c.lflag then
    let c := pepdnaConGet c
    if c.pending then pepdnaConPut c else { c with pending := true }
  else c

/-- `con->lsock->sk->sk_data_ready(con->lsock->sk)`. -/
def wakeLsock (c : Con) : Con :=
  if c.lsock then pepdnaL2rConnDataReady c else { c with oops := true }

/- Each operation as one record update. Proofs about fields go through these equations and do not
unfold the operations. -/

theorem pepdnaConPut_eq (c : Con) :
    pepdnaConPut c = { c with
      kref := c.kref - 1
      lsock := c.lsock && decide (c.kref ≠ 1)
      shut := c.shut || (c.lsock && decide (c.kref = 1))
      hashed := c.hashed && decide (c.kref ≠ 1) } := by
  unfold pepdnaConPut pepdnaConKrefRelease
  by_cases h0 : c.kref = 0
  · cases c
    simp_all
  · by_cases h1 : c.kref = 1
    · simp [h1]
    · cases c
      simp_all

/-- The close that is not deferred: the queue is destroyed and the first reference dropped. -/
def fullClose (c : Con) : Bool := c.lsock && !c.rflag

/-- The close that reaches the label `err`. -/
def dropClose (c : Con) : Bool := !c.lsock || !c.rflag

theorem pepdnaConClose_eq (c : Con) :
    pepdnaConClose c = { c with
      lflag := c.lflag && !c.lsock
      userData := c.userData && !(c.lsock && c.lflag)
      timer := c.timer && !c.lsock
      rtxq := if fullClose c then rtxqueueCreate else c.rtxq
      destroys := if fullClose c then c.destroys + 1 else c.destroys
      uaf := c.uaf || (fullClose c && decide (0 < c.destroys))
      drops := if dropClose c then c.drops + 1 else c.drops
      kref := if dropClose c then c.kref - 1 else c.kref
      lsock := c.lsock && !(dropClose c && decide (c.kref = 1))
      shut := c.shut || (c.lsock && (c.lflag || (dropClose c && decide (c.kref = 1))))
      hashed := c.hashed && !(dropClose c && decide (c.kref = 1)) } := by
  unfold pepdnaConClose closeErr rtxqDestroy touchRtxq fullClose dropClose
  cases hl : c.lsock <;> cases hr : c.rflag <;> cases c <;>
    simp_all [pepdnaConPut_eq, Bool.or_assoc]

theorem pepdnaL2rConnDataReady_eq (c : Con) :
    pepdnaL2rConnDataReady c = { c with
      pending := c.pending || (c.userData && c.lflag)
      kref := if (c.userData && c.lflag) && !c.pending then c.kref + 1 else c.kref
      lsock := c.lsock && !(c.userData && c.lflag && c.pending && decide (c.kref = 0))
      shut := c.shut || (c.lsock && c.userData && c.lflag && c.pending && decide (c.kref = 0))
      hashed := c.hashed && !(c.userData && c.lflag && c.pending && decide (c.kref = 0)) } := by
  unfold pepdnaL2rConnDataReady pepdnaConGet
  cases hu : c.userData <;> cases hf : c.lflag <;> cases hp : c.pending <;>
    cases c <;> simp_all [pepdnaConPut_eq]

end PepDna.Minip
