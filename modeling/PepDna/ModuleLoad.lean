import Mathlib.Algebra.GroupWithZero.Nat
import Mathlib.Data.List.Basic
import Mathlib.Data.Int.Notation
import PepDna.Guarded

/-!
# Loading and unloading (core.c:75-118, server.c:90-174, 333-668, tcp_listen.c, netlink.c)

`pepdna_init` takes what the mode needs from the kernel, one thing after the other, and gives back
what it has when a step fails; `pepdna_exit` gives everything back. The calls that can fail do so
as the record `Outcomes` says. There are no connections: those that are alive at the unload are the
subject of `PepDna.Unload`.

`Host` is what the module holds, with the pointers of `pepdna_srv` that are tested or read. The
pointer of a work queue is set where the queue is allocated and cleared where it is destroyed, and
so is `nl_sock`: a test of the pointer is a test of what is held.
-/

namespace PepDna.Load

open Proc

/-- `enum server_mode`. -/
inductive Mode where
  | tcp2tcp
  | tcp2rina
  | tcp2ccn
  | tcp2minip
  | rina2tcp
  | minip2tcp
  | ccn2tcp
  | rina2rina
  | ccn2ccn
  deriving Repr, DecidableEq

def Mode.num : Mode → ℕ
  | .tcp2tcp => 0
  | .tcp2rina => 1
  | .tcp2ccn => 2
  | .tcp2minip => 3
  | .rina2tcp => 4
  | .minip2tcp => 5
  | .ccn2tcp => 6
  | .rina2rina => 7
  | .ccn2ccn => 8

def Mode.all : List Mode :=
  [.tcp2tcp, .tcp2rina, .tcp2ccn, .tcp2minip, .rina2tcp, .minip2tcp, .ccn2tcp, .rina2rina, .ccn2ccn]

/-- The module parameter `mode`, an `int`. -/
def Mode.ofParam (n : ℤ) : Option Mode := Mode.all.find? fun m => (m.num : ℤ) = n

/-- `CONFIG_PEPDNA_RINA`, `CONFIG_PEPDNA_CCN` and `CONFIG_PEPDNA_MINIP`. -/
structure Build where
  rina : Bool
  ccn : Bool
  minip : Bool
  deriving Repr, DecidableEq

inductive Queue where
  | l2r
  | r2l
  | accept
  | tcfa
  deriving Repr, DecidableEq

/-- What the module takes from the kernel; references to network devices are counted apart. -/
inductive Res where
  | sysctl
  | server
  | queue (q : Queue)
  | netlink
  | socket
  | hooks
  | pack
  deriving Repr, DecidableEq

structure Host where
  held : List Res
  /-- References taken by `dev_get_by_name`. -/
  devices : ℕ
  /-- Things given back that were not held. -/
  stray : ℕ
  /-- `pepdna_srv->mode`. -/
  mode : Option Mode
  /-- `pepdna_srv->listener` is not `NULL`. -/
  listener : Bool
  deriving Repr, DecidableEq

def Host.fresh : Host := ⟨[], 0, 0, none, false⟩

def Host.take (x : Res) (h : Host) : Host := { h with held := x :: h.held }

def Host.give (x : Res) (h : Host) : Host :=
  if x ∈ h.held then { h with held := h.held.erase x } else { h with stray := h.stray + 1 }

/-- `if (ptr) { release(ptr); ptr = NULL; }` -/
def giveIfHeld (x : Res) (h : Host) : Host := if x ∈ h.held then Host.give x h else h

/-- Which of the calls that can fail succeed. -/
structure Outcomes where
  sysctl : Bool
  server : Bool
  l2r : Bool
  r2l : Bool
  accept : Bool
  tcfa : Bool
  netlink : Bool
  socket : Bool
  bind : Bool
  listen : Bool
  /-- `nf_register_net_hooks`, whose result nobody looks at. -/
  hooks : Bool
  /-- `dev_get_by_name` finds `ifname`. -/
  device : Bool
  deriving Repr, DecidableEq

def acquire (ok : Bool) (x : Res) : Proc Host := attempt ok (Host.take x)

def setListener (sock : Bool) (r : Host) : Host := { r with listener := sock }

/-! ### The parts -/

/-- The labels `free_r2l_wq`, `free_accept_wq` and `free_tcfa_wq`, each of which falls through. -/
def freeR2lWq (r : Host) : Host := Host.give (.queue .l2r) r

def freeAcceptWq (r : Host) : Host := freeR2lWq (Host.give (.queue .r2l) r)

def freeTcfaWq (r : Host) : Host := freeAcceptWq (Host.give (.queue .accept) r)

def pepdnaWorkInit (o : Outcomes) (m : Mode) : Proc Host :=
  guarded (acquire o.l2r (.queue .l2r)) id <|
  guarded (acquire o.r2l (.queue .r2l)) freeR2lWq <|
  guarded (acquire o.accept (.queue .accept)) freeAcceptWq <|
  if m.num < 6 then
    guarded (acquire o.tcfa (.queue .tcfa)) freeTcfaWq (always id)
  else always id

def pepdnaWorkStop (r : Host) : Host :=
  giveIfHeld (.queue .l2r) (giveIfHeld (.queue .accept)
    (giveIfHeld (.queue .tcfa) (giveIfHeld (.queue .r2l) r)))

def pepdnaNetlinkInit (o : Outcomes) : Proc Host := acquire o.netlink .netlink

def pepdnaNetlinkStop (r : Host) : Host := giveIfHeld .netlink r

/-- The error exit releases the socket and leaves `srv->listener` as it is. -/
def pepdnaTcpListenInit (o : Outcomes) : Proc Host :=
  guarded (attempt o.socket fun r => setListener true (Host.take .socket r)) id <|
  guarded (attempt o.bind id) (Host.give .socket) <|
  guarded (attempt o.listen id) (Host.give .socket) (always id)

/-- `sock` is the listening socket as read before `pepdna_srv->listener` was cleared. The callback
that is put back and the wait for the accept work are left out: neither takes or gives anything. -/
def pepdnaTcpListenStop (sock : Bool) (r : Host) : Host :=
  if !sock then r
  else if r.mode = some .rina2tcp ∨ r.mode = some .rina2rina then r
  else Host.give .socket r

def registerHooks (o : Outcomes) (r : Host) : Host := if o.hooks then Host.take .hooks r else r

def devGetByName (r : Host) : Host := { r with devices := r.devices + 1 }

/-- `minip.dev = dev_get_by_name(&init_net, ifname); ..; dev_add_pack(&minip);` -/
def addMinipPack (o : Outcomes) (r : Host) : Host :=
  Host.take .pack (if o.device then devGetByName r else r)

/-! ### The start functions of the modes -/

/-- Queues, listening socket and netfilter hook: the whole of two start functions. -/
def listenStart (o : Outcomes) (m : Mode) : Proc Host :=
  guarded (pepdnaWorkInit o m) id <|
  guarded (pepdnaTcpListenInit o) pepdnaWorkStop <|
  always (registerHooks o)

def pepdnaI2iStart (o : Outcomes) (m : Mode) : Proc Host := listenStart o m

def pepdnaI2cStart (o : Outcomes) (m : Mode) : Proc Host := listenStart o m

def pepdnaR2iStart (o : Outcomes) (m : Mode) : Proc Host :=
  guarded (pepdnaNetlinkInit o) id <|
  guarded (pepdnaWorkInit o m) pepdnaNetlinkStop (always id)

def pepdnaI2rStart (o : Outcomes) (m : Mode) : Proc Host :=
  guarded (pepdnaNetlinkInit o) id <|
  guarded (pepdnaWorkInit o m) pepdnaNetlinkStop <|
  guarded (pepdnaTcpListenInit o) (fun r => pepdnaWorkStop (pepdnaNetlinkStop r)) <|
  always (registerHooks o)

def pepdnaM2iStart (o : Outcomes) (m : Mode) : Proc Host :=
  guarded (pepdnaWorkInit o m) id (always (addMinipPack o))

def pepdnaI2mStart (o : Outcomes) (m : Mode) : Proc Host :=
  guarded (pepdnaWorkInit o m) pepdnaNetlinkStop <|
  guarded (pepdnaTcpListenInit o) pepdnaWorkStop <|
  always fun r => addMinipPack o (registerHooks o r)

/-- The `switch` of `pepdna_server_start`, with the cases the build has; `r2r`, `c2i` and `c2c`
are not implemented. -/
def startMode (b : Build) (o : Outcomes) : Option Mode → Proc Host
  | some .tcp2tcp => pepdnaI2iStart o .tcp2tcp
  | some .tcp2rina => if b.rina then pepdnaI2rStart o .tcp2rina else attempt false id
  | some .rina2tcp => if b.rina then pepdnaR2iStart o .rina2tcp else attempt false id
  | some .rina2rina => attempt b.rina id
  | some .tcp2ccn => if b.ccn then pepdnaI2cStart o .tcp2ccn else attempt false id
  | some .ccn2tcp => attempt b.ccn id
  | some .ccn2ccn => attempt b.ccn id
  | some .tcp2minip => if b.minip then pepdnaI2mStart o .tcp2minip else attempt false id
  | some .minip2tcp => if b.minip then pepdnaM2iStart o .minip2tcp else attempt false id
  | none => attempt false id

def initServer (mode : Option Mode) (r : Host) : Host := { r with mode, listener := false }

def pepdnaServerStart (b : Build) (o : Outcomes) (m : Option Mode) : Proc Host :=
  guarded (attempt o.server fun r => initServer m (Host.take .server r)) id <|
  guarded (startMode b o m) (Host.give .server) (always id)

def pepdnaInit (b : Build) (o : Outcomes) (m : Option Mode) : Proc Host :=
  guarded (acquire o.sysctl .sysctl) id <|
  guarded (pepdnaServerStart b o m) (Host.give .sysctl) (always id)

/-- The connections that are alive are the subject of `PepDna.Unload`. -/
def pepdnaServerStop (b : Build) (r : Host) : Host :=
  let lsock := r.listener
  let hooked := r.mode.any fun m => m.num < 4
  let r := if hooked then Host.give .hooks r else r
  let r := setListener false (pepdnaNetlinkStop r)
  let r := pepdnaWorkStop (pepdnaTcpListenStop lsock r)
  let r := if b.minip then Host.give .pack r else r
  Host.give .server r

def pepdnaExit (b : Build) (r : Host) : Host := Host.give .sysctl (pepdnaServerStop b r)

/-! ### What a load takes, and what it gives back when it fails -/

/-- `xs` is held, and `d` device references; `n` things have been given back in error. -/
structure Holds (xs : List Res) (d n : ℕ) (m : Option Mode) (l : Bool) (r : Host) : Prop where
  held : r.held = xs
  devices : r.devices = d
  stray : r.stray = n
  mode : r.mode = m
  listener : r.listener = l

/-- After a failure, when what `pepdna_srv` pointed to is gone. -/
def Rolled (xs : List Res) (d n : ℕ) (r : Host) : Prop := ∃ m l, Holds xs d n m l r

section Steps

variable {xs : List Res} {d n : ℕ} {m : Option Mode} {l : Bool} {r : Host} {x : Res} {k : Mode}

theorem Holds.rolled (h : Holds xs d n m l r) : Rolled xs d n r := ⟨m, l, h⟩

theorem Holds.take (h : Holds xs d n m l r) : Holds (x :: xs) d n m l (Host.take x r) :=
  ⟨congrArg (x :: ·) h.held, h.devices, h.stray, h.mode, h.listener⟩

theorem Holds.give (h : Holds xs d n m l r) (hx : x ∈ xs) :
    Holds (xs.erase x) d n m l (Host.give x r) := by
  have hg : Host.give x r = { r with held := r.held.erase x } := if_pos (h.held ▸ hx)
  rw [hg]
  exact ⟨congrArg (·.erase x) h.held, h.devices, h.stray, h.mode, h.listener⟩

theorem Holds.give_head (h : Holds (x :: xs) d n m l r) : Holds xs d n m l (Host.give x r) := by
  have := h.give List.mem_cons_self
  rwa [List.erase_cons_head] at this

theorem Holds.give_stray (h : Holds xs d n m l r) (hx : x ∉ xs) :
    Holds xs d (n + 1) m l (Host.give x r) := by
  have hg : Host.give x r = { r with stray := r.stray + 1 } := if_neg (h.held ▸ hx)
  rw [hg]
  exact ⟨h.held, h.devices, congrArg (· + 1) h.stray, h.mode, h.listener⟩

theorem Holds.giveIfHeld (h : Holds xs d n m l r) (x : Res) :
    Holds (xs.erase x) d n m l (giveIfHeld x r) := by
  by_cases hx : x ∈ xs
  · rw [Load.giveIfHeld, if_pos (h.held ▸ hx)]
    exact h.give hx
  · rw [Load.giveIfHeld, if_neg (h.held ▸ hx), List.erase_of_not_mem hx]
    exact h

theorem Holds.giveIfHeld_head (h : Holds (x :: xs) d n m l r) :
    Holds xs d n m l (Load.giveIfHeld x r) := by
  have := h.giveIfHeld x
  rwa [List.erase_cons_head] at this

theorem Holds.setListener (h : Holds xs d n m l r) (sock : Bool) :
    Holds xs d n m sock (setListener sock r) :=
  ⟨h.held, h.devices, h.stray, h.mode, rfl⟩

theorem Holds.devGetByName (h : Holds xs d n m l r) :
    Holds xs (d + 1) n m l (devGetByName r) :=
  ⟨h.held, congrArg (· + 1) h.devices, h.stray, h.mode, h.listener⟩

theorem acquire_spec (ok : Bool) :
    Spec (Holds xs d n m l) (acquire ok x) (Holds (x :: xs) d n m l) (Holds xs d n m l) :=
  Spec.attempt fun _ h => h.take

/-! #### The queues -/

/-- The queues of a mode that connects, over what is held already. -/
def queues (xs : List Res) : List Res :=
  .queue .tcfa :: .queue .accept :: .queue .r2l :: .queue .l2r :: xs

theorem pepdnaWorkInit_spec (o : Outcomes) (hk : k.num < 6) :
    Spec (Holds xs d n m l) (pepdnaWorkInit o k) (Holds (queues xs) d n m l)
      (Holds xs d n m l) := by
  rw [pepdnaWorkInit, if_pos hk]
  refine (acquire_spec _).guarded (fun _ h => h) ?_
  refine (acquire_spec _).guarded (fun _ h => h.give_head) ?_
  refine (acquire_spec _).guarded (fun _ h => h.give_head.give_head) ?_
  refine (acquire_spec _).guarded (fun _ h => h.give_head.give_head.give_head) ?_
  exact Spec.always fun _ h => h

theorem pepdnaWorkStop_erases (h : Holds xs d n m l r) :
    Holds ((((xs.erase (.queue .r2l)).erase (.queue .tcfa)).erase (.queue .accept)).erase
      (.queue .l2r)) d n m l (pepdnaWorkStop r) :=
  (((h.giveIfHeld _).giveIfHeld _).giveIfHeld _).giveIfHeld _

theorem pepdnaWorkStop_rolled (h : Rolled (queues xs) d n r) : Rolled xs d n (pepdnaWorkStop r) := by
  obtain ⟨m, l, h⟩ := h
  exact ⟨m, l, pepdnaWorkStop_erases h⟩

/-! #### The listening socket -/

theorem pepdnaTcpListenInit_spec (o : Outcomes) :
    Spec (Holds xs d n m l) (pepdnaTcpListenInit o) (Holds (.socket :: xs) d n m true)
      (Rolled xs d n) := by
  have hopen : ∀ r, Holds xs d n m l r →
      Holds (.socket :: xs) d n m true (setListener true (Host.take .socket r)) :=
    fun _ h => h.take.setListener true
  have hrelease : ∀ r, Holds (.socket :: xs) d n m true r → Rolled xs d n (Host.give .socket r) :=
    fun _ h => h.give_head.rolled
  refine (Spec.attempt hopen).guarded (fun _ h => h.rolled) ?_
  refine Spec.guarded (Spec.attempt fun _ h => h) hrelease ?_
  refine Spec.guarded (Spec.attempt fun _ h => h) hrelease ?_
  exact Spec.always fun _ h => h

/-- The socket is released in the modes that have one. -/
theorem pepdnaTcpListenStop_holds (h : Holds xs d n (some k) l r)
    (hx : k.num < 4 ↔ Res.socket ∈ xs) :
    Holds (xs.erase .socket) d n (some k) l (pepdnaTcpListenStop (decide (k.num < 4)) r) := by
  unfold pepdnaTcpListenStop
  by_cases hlt : k.num < 4
  · have hmode : ¬ (r.mode = some .rina2tcp ∨ r.mode = some .rina2rina) := by
      rw [h.mode]
      rintro (h | h) <;> cases h <;> exact absurd hlt (by decide)
    rw [decide_eq_true hlt, if_neg hmode]
    exact h.give (hx.mp hlt)
  · rw [decide_eq_false hlt, List.erase_of_not_mem (mt hx.mpr hlt)]
    exact h

/-! #### The start functions -/

/-- The hook, where it could be registered, over what is held already. -/
def hooked (ok : Bool) (xs : List Res) : List Res := if ok then .hooks :: xs else xs

theorem registerHooks_holds (o : Outcomes) (h : Holds xs d n m l r) :
    Holds (hooked o.hooks xs) d n m l (registerHooks o r) := by
  unfold hooked registerHooks
  cases o.hooks with
  | false => exact h
  | true => exact h.take

theorem listenStart_spec (o : Outcomes) (hk : k.num < 6) :
    Spec (Holds xs d n m l) (listenStart o k)
      (Holds (hooked o.hooks (.socket :: queues xs)) d n m true) (Rolled xs d n) := by
  refine (pepdnaWorkInit_spec o hk).guarded (fun _ h => h.rolled) ?_
  refine (pepdnaTcpListenInit_spec o).guarded (fun _ h => pepdnaWorkStop_rolled h) ?_
  exact Spec.always fun _ h => registerHooks_holds o h

theorem pepdnaR2iStart_spec (o : Outcomes) (hk : k.num < 6) :
    Spec (Holds xs d n m l) (pepdnaR2iStart o k) (Holds (queues (.netlink :: xs)) d n m l)
      (Rolled xs d n) := by
  refine (acquire_spec _).guarded (fun _ h => h.rolled) ?_
  exact (pepdnaWorkInit_spec o hk).guarded (fun _ h => h.giveIfHeld_head.rolled)
    (Spec.always fun _ h => h)

/-- The netlink socket is released before the queues, which were allocated after it. -/
theorem pepdnaI2rStart_spec (o : Outcomes) (hk : k.num < 6) :
    Spec (Holds xs d n m l) (pepdnaI2rStart o k)
      (Holds (hooked o.hooks (.socket :: queues (.netlink :: xs))) d n m true)
      (Rolled xs d n) := by
  refine (acquire_spec _).guarded (fun _ h => h.rolled) ?_
  refine (pepdnaWorkInit_spec o hk).guarded (fun _ h => h.giveIfHeld_head.rolled) ?_
  refine (pepdnaTcpListenInit_spec o).guarded (fun _ h => ?_)
    (Spec.always fun _ h => registerHooks_holds o h)
  obtain ⟨m', l', h⟩ := h
  exact pepdnaWorkStop_rolled (h.giveIfHeld .netlink).rolled

/-- The device references a load in mode `k` takes. -/
def Mode.packed (k : Mode) : Bool := k = .tcp2minip ∨ k = .minip2tcp

def leaked (k : Mode) (device : Bool) : ℕ := if k.packed && device then 1 else 0

theorem addMinipPack_holds (o : Outcomes) (hk : k.packed = true) (h : Holds xs d n m l r) :
    Holds (.pack :: xs) (d + leaked k o.device) n m l (addMinipPack o r) := by
  unfold addMinipPack leaked
  rw [hk]
  cases o.device with
  | false => exact h.take
  | true => exact h.devGetByName.take

theorem pepdnaM2iStart_spec (o : Outcomes) (hk : k.num < 6) (hp : k.packed = true) :
    Spec (Holds xs d n m l) (pepdnaM2iStart o k)
      (Holds (.pack :: queues xs) (d + leaked k o.device) n m l) (Rolled xs d n) :=
  (pepdnaWorkInit_spec o hk).guarded (fun _ h => h.rolled)
    (Spec.always fun _ h => addMinipPack_holds o hp h)

/-- `pepdna_i2m_start` stops a netlink socket that it has not opened: nothing happens. -/
theorem pepdnaI2mStart_spec (o : Outcomes) (hk : k.num < 6) (hp : k.packed = true)
    (hxs : Res.netlink ∉ xs) :
    Spec (Holds xs d n m l) (pepdnaI2mStart o k)
      (Holds (.pack :: hooked o.hooks (.socket :: queues xs)) (d + leaked k o.device) n m true)
      (Rolled xs d n) := by
  refine (pepdnaWorkInit_spec o hk).guarded (fun _ h => ?_) ?_
  · have := h.giveIfHeld .netlink
    rw [List.erase_of_not_mem hxs] at this
    exact this.rolled
  refine (pepdnaTcpListenInit_spec o).guarded (fun _ h => pepdnaWorkStop_rolled h) ?_
  exact Spec.always fun _ h => addMinipPack_holds o hp (registerHooks_holds o h)

end Steps

/-- What a load in mode `k` holds, the latest first; `hooks` tells whether the hook is among it. -/
def taken (hooks : Bool) : Mode → List Res
  | .tcp2tcp | .tcp2ccn => hooked hooks (.socket :: queues [.server, .sysctl])
  | .tcp2rina => hooked hooks (.socket :: queues [.netlink, .server, .sysctl])
  | .tcp2minip => .pack :: hooked hooks (.socket :: queues [.server, .sysctl])
  | .rina2tcp => queues [.netlink, .server, .sysctl]
  | .minip2tcp => .pack :: queues [.server, .sysctl]
  | .ccn2tcp | .rina2rina | .ccn2ccn => [.server, .sysctl]

/-- The build has the case of mode `k`. -/
def Build.supports (b : Build) : Mode → Bool
  | .tcp2tcp => true
  | .tcp2rina | .rina2tcp | .rina2rina => b.rina
  | .tcp2ccn | .ccn2tcp | .ccn2ccn => b.ccn
  | .tcp2minip | .minip2tcp => b.minip

/-- The state after a load, in a mode the build has. -/
def Loaded (b : Build) (o : Outcomes) (m : Option Mode) (d n : ℕ) (r : Host) : Prop :=
  ∃ k, m = some k ∧ b.supports k = true ∧
    Holds (taken o.hooks k) (d + leaked k o.device) n (some k) (decide (k.num < 4)) r

section Whole

variable {d n : ℕ} {m : Option Mode} {l : Bool} {r : Host} {k : Mode}

/-- A case of the `switch` that the build may not have. -/
theorem supported_spec {b : Build} {o : Outcomes} {c : Bool} {f : Proc Host}
    (hc : b.supports k = c)
    (hf : Spec (Holds [.server, .sysctl] d n (some k) false) f
      (Holds (taken o.hooks k) (d + leaked k o.device) n (some k) (decide (k.num < 4)))
      (Rolled [.server, .sysctl] d n)) :
    Spec (Holds [.server, .sysctl] d n (some k) false) (if c then f else attempt false id)
      (Loaded b o (some k) d n) (Rolled [.server, .sysctl] d n) := by
  cases c with
  | false => exact fun r h => h.rolled
  | true => exact hf.weaken (fun r h => ⟨k, rfl, hc, h⟩)

/-- A mode that is not implemented takes nothing. -/
theorem unimplemented_spec {b : Build} {o : Outcomes} (ht : taken o.hooks k = [.server, .sysctl])
    (hp : k.packed = false) (hk : ¬ k.num < 4) :
    Spec (Holds [.server, .sysctl] d n (some k) false) (attempt (b.supports k) id)
      (Loaded b o (some k) d n) (Rolled [.server, .sysctl] d n) := by
  intro r h
  cases hs : b.supports k with
  | false => exact h.rolled
  | true =>
    refine ⟨k, rfl, hs, ?_⟩
    rw [ht, leaked, hp, decide_eq_false hk]
    exact h

theorem startMode_spec (b : Build) (o : Outcomes) (m : Option Mode) :
    Spec (Holds [.server, .sysctl] d n m false) (startMode b o m) (Loaded b o m d n)
      (Rolled [.server, .sysctl] d n) := by
  cases m with
  | none => exact fun r h => h.rolled
  | some k =>
    cases k with
    | tcp2tcp => exact (listenStart_spec o (by decide)).weaken fun r h => ⟨_, rfl, rfl, h⟩
    | tcp2rina => exact supported_spec rfl (pepdnaI2rStart_spec o (by decide))
    | tcp2ccn => exact supported_spec rfl (listenStart_spec o (by decide))
    | tcp2minip =>
      exact supported_spec rfl (pepdnaI2mStart_spec o (by decide) (by decide) (by decide))
    | rina2tcp => exact supported_spec rfl (pepdnaR2iStart_spec o (by decide))
    | minip2tcp => exact supported_spec rfl (pepdnaM2iStart_spec o (by decide) (by decide))
    | ccn2tcp | rina2rina | ccn2ccn => exact unimplemented_spec rfl (by decide) (by decide)

/-- A load in a mode takes `taken`; a load that fails leaves what was held before it. -/
theorem pepdnaInit_spec (b : Build) (o : Outcomes) (m : Option Mode) :
    Spec (Rolled [] d n) (pepdnaInit b o m) (Loaded b o m d n) (Rolled [] d n) := by
  have hsysctl : Spec (Rolled [] d n) (acquire o.sysctl .sysctl) (Rolled [.sysctl] d n)
      (Rolled [] d n) := Spec.attempt fun _ ⟨m', l', h⟩ => ⟨m', l', h.take⟩
  have hinit : ∀ r, Rolled [.sysctl] d n r →
      Holds [.server, .sysctl] d n m false (initServer m (Host.take .server r)) := by
    rintro r ⟨m', l', h⟩
    exact ⟨h.take.held, h.devices, h.stray, rfl, rfl⟩
  have hserver : Spec (Rolled [.sysctl] d n) (pepdnaServerStart b o m) (Loaded b o m d n)
      (Rolled [.sysctl] d n) := by
    refine (Spec.attempt hinit).guarded (fun _ h => h) ?_
    exact (startMode_spec b o m).guarded (fun _ ⟨m', l', h⟩ => ⟨m', l', h.give_head⟩)
      (Spec.always fun _ h => h)
  refine hsysctl.guarded (fun _ h => h) ?_
  exact hserver.guarded (fun _ ⟨m', l', h⟩ => ⟨m', l', h.give_head⟩) (Spec.always fun _ h => h)

/-! ### Unloading -/

/-- `dev_remove_pack` is called in every mode of a build with MINIP, and the hook is unregistered
also if it could not be registered. -/
def strays (b : Build) (hooks : Bool) (k : Mode) : ℕ :=
  (if decide (k.num < 4) && !hooks then 1 else 0) + if b.minip && !k.packed then 1 else 0

theorem supports_packed {b : Build} (hs : b.supports k = true) :
    k.packed = true → b.minip = true := by
  cases k <;> first | exact fun _ => hs | exact fun h => absurd h (by decide)

/-- The hook is unregistered in the modes below 4, which are those that try to register it. -/
theorem unregister_holds (hooks : Bool)
    (h : Holds (taken hooks k) d n (some k) (decide (k.num < 4)) r) :
    Holds ((taken hooks k).erase .hooks) d
      (n + if decide (k.num < 4) && !hooks then 1 else 0) (some k) (decide (k.num < 4))
      (if decide (k.num < 4) then Host.give .hooks r else r) := by
  cases hooks with
  | true => cases k <;> first | exact h.give (by decide) | exact h
  | false => cases k <;> first | exact h.give_stray (by decide) | exact h

theorem pepdnaServerStop_holds (b : Build) (hooks : Bool) (hs : b.supports k = true)
    (h : Holds (taken hooks k) d n (some k) (decide (k.num < 4)) r) :
    Holds [.sysctl] d (n + strays b hooks k) (some k) false (pepdnaServerStop b r) := by
  unfold pepdnaServerStop strays
  rw [h.mode, h.listener, ← Nat.add_assoc]
  dsimp only [Option.any_some]
  have h₁ := unregister_holds hooks h
  generalize (n + if decide (k.num < 4) && !hooks then 1 else 0) = n₁ at h₁ ⊢
  have h₂ := (h₁.giveIfHeld .netlink).setListener false
  have h₃ := pepdnaTcpListenStop_holds h₂ (by cases k <;> cases hooks <;> decide)
  have h₄ := pepdnaWorkStop_erases h₃
  unfold pepdnaNetlinkStop
  generalize pepdnaWorkStop (pepdnaTcpListenStop _ _) = r₄ at h₄ ⊢
  -- what is left is the server, and the packet handler where it was added
  have h₅ : Holds (if k.packed then [.pack, .server, .sysctl] else [.server, .sysctl]) d n₁
      (some k) false r₄ := by
    cases k <;> cases hooks <;> exact h₄
  have hp := supports_packed hs
  cases hpk : k.packed with
  | true =>
    rw [hpk] at h₅
    rw [hp hpk]
    exact h₅.give_head.give_head
  | false =>
    rw [hpk] at h₅
    cases b.minip with
    | false => exact h₅.give_head
    | true =>
      have hs₅ : Holds [.server, .sysctl] d (n₁ + 1) _ _ (Host.give .pack r₄) :=
        h₅.give_stray (by decide)
      exact hs₅.give_head

theorem pepdnaExit_holds (b : Build) (hooks : Bool) (hs : b.supports k = true)
    (h : Holds (taken hooks k) d n (some k) (decide (k.num < 4)) r) :
    Rolled [] d (n + strays b hooks k) (pepdnaExit b r) :=
  ⟨_, _, (pepdnaServerStop_holds b hooks hs h).give_head⟩

end Whole

/-- One `insmod`: the parameter `mode`, and what the kernel answers. -/
structure Try where
  param : ℤ
  outcomes : Outcomes
  deriving Repr, DecidableEq

def Try.mode (t : Try) : Option Mode := Mode.ofParam t.param

/-- `insmod` and, if the module was loaded, `rmmod`. -/
def cycle (b : Build) (r : Host) (t : Try) : Host :=
  if (pepdnaInit b t.outcomes t.mode r).1 then pepdnaExit b (pepdnaInit b t.outcomes t.mode r).2
  else (pepdnaInit b t.outcomes t.mode r).2

/-! #### Which loads succeed -/

def Outcomes.queues (o : Outcomes) : Bool := o.l2r && (o.r2l && (o.accept && o.tcfa))

def Outcomes.listens (o : Outcomes) : Bool := o.socket && (o.bind && o.listen)

/-- The calls that the start function of the mode makes succeed. -/
def Outcomes.suffice (o : Outcomes) : Mode → Bool
  | .tcp2tcp | .tcp2ccn | .tcp2minip => o.queues && o.listens
  | .tcp2rina => o.netlink && (o.queues && o.listens)
  | .rina2tcp => o.netlink && o.queues
  | .minip2tcp => o.queues
  | .ccn2tcp | .rina2rina | .ccn2ccn => true

/-- The build has the mode, and the calls of its load succeed. -/
def loads (b : Build) (o : Outcomes) (m : Option Mode) : Bool :=
  o.sysctl && (o.server && (m.any fun k => b.supports k && o.suffice k))

section Answers

variable {o : Outcomes} {k : Mode}

theorem pepdnaWorkInit_answers (hk : k.num < 6) : Answers (pepdnaWorkInit o k) o.queues := by
  rw [pepdnaWorkInit, if_pos hk]
  exact (Answers.attempt _ _).guarded ((Answers.attempt _ _).guarded
    ((Answers.attempt _ _).guarded (Answers.attempt _ _).guarded_always))

theorem pepdnaTcpListenInit_answers : Answers (pepdnaTcpListenInit o) o.listens :=
  (Answers.attempt _ _).guarded ((Answers.attempt _ _).guarded (Answers.attempt _ _).guarded_always)

theorem listenStart_answers (hk : k.num < 6) : Answers (listenStart o k) (o.queues && o.listens) :=
  (pepdnaWorkInit_answers hk).guarded pepdnaTcpListenInit_answers.guarded_always

theorem supported_answers {c c' : Bool} {f : Proc Host} (hf : Answers f c') :
    Answers (if c then f else attempt false id) (c && c') := by
  cases c with
  | false => exact Answers.attempt false id
  | true => exact hf

theorem unimplemented_answers (c : Bool) : Answers (attempt c (id : Host → Host)) (c && true) := by
  rw [Bool.and_true]
  exact Answers.attempt c id

theorem startMode_answers (b : Build) (o : Outcomes) (m : Option Mode) :
    Answers (startMode b o m) (m.any fun k => b.supports k && o.suffice k) := by
  cases m with
  | none => exact Answers.attempt false id
  | some k =>
    cases k with
    | tcp2tcp => exact listenStart_answers (by decide)
    | tcp2rina =>
      exact supported_answers ((Answers.attempt _ _).guarded
        ((pepdnaWorkInit_answers (by decide)).guarded pepdnaTcpListenInit_answers.guarded_always))
    | tcp2ccn => exact supported_answers (listenStart_answers (by decide))
    | tcp2minip =>
      exact supported_answers
        ((pepdnaWorkInit_answers (by decide)).guarded pepdnaTcpListenInit_answers.guarded_always)
    | rina2tcp =>
      exact supported_answers
        ((Answers.attempt _ _).guarded (pepdnaWorkInit_answers (by decide)).guarded_always)
    | minip2tcp => exact supported_answers (pepdnaWorkInit_answers (by decide)).guarded_always
    | ccn2tcp | rina2rina | ccn2ccn => exact unimplemented_answers _

theorem pepdnaInit_answers (b : Build) (o : Outcomes) (m : Option Mode) :
    Answers (pepdnaInit b o m) (loads b o m) :=
  (Answers.attempt _ _).guarded
    ((Answers.attempt _ _).guarded (startMode_answers b o m).guarded_always).guarded_always

end Answers

/-! #### Many loads -/

def Try.loads (b : Build) (t : Try) : Bool := Load.loads b t.outcomes t.mode

/-- The device reference that a load leaves behind when the module has been unloaded. -/
def Try.leaked (b : Build) (t : Try) : ℕ :=
  if t.loads b then t.mode.elim 0 fun k => Load.leaked k t.outcomes.device else 0

def Try.strays (b : Build) (t : Try) : ℕ :=
  if t.loads b then t.mode.elim 0 (Load.strays b t.outcomes.hooks) else 0

theorem cycle_rolled (b : Build) (t : Try) {d n : ℕ} {r : Host} (h : Rolled [] d n r) :
    Rolled [] (d + t.leaked b) (n + t.strays b) (cycle b r t) := by
  have hspec := pepdnaInit_spec b t.outcomes t.mode (d := d) (n := n)
  have hans : (pepdnaInit b t.outcomes t.mode r).1 = t.loads b :=
    pepdnaInit_answers b t.outcomes t.mode r
  unfold cycle Try.leaked Try.strays
  cases hl : t.loads b with
  | false =>
    rw [hl] at hans
    rw [hans]
    exact hspec.failed h hans
  | true =>
    rw [hl] at hans
    obtain ⟨k, hk, hs, hh⟩ := hspec.succeeded h hans
    rw [if_pos hans, if_pos rfl, if_pos rfl, hk]
    rw [hk] at hh
    exact pepdnaExit_holds b t.outcomes.hooks hs hh

theorem cycles_rolled (b : Build) (ts : List Try) {d n : ℕ} {r : Host} (h : Rolled [] d n r) :
    Rolled [] (d + (ts.map (Try.leaked b)).sum) (n + (ts.map (Try.strays b)).sum)
      (ts.foldl (cycle b) r) := by
  induction ts generalizing d n r with
  | nil => exact h
  | cons t ts ih =>
    have := ih (cycle_rolled b t h)
    rwa [Nat.add_assoc, Nat.add_assoc] at this

end PepDna.Load
