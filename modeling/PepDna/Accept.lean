import PepDna.FirstMatch
import PepDna.Table
import PepDna.Wakeup

/-!
# The accept loop (tcp_listen.c:118-173, tcp_utils.c:259-299)

`pepdna_tcp_accept` takes sockets from the queue of the listener until `kernel_accept` has none. It
returns in the middle of the queue when a socket is of no connection in the table and, in TCP2RINA,
when the work of a connection is already queued; the work that runs it comes back only with the
next connection request. What the kernel answers is part of the input: the result of
`kernel_accept`, of the allocation in `identify_client` and of `queue_work`. The sockets are
established, so that `getname` gives the address of the client.
-/

namespace PepDna.Accept
open Table (ServerMode)

/-- A socket in the queue of the listener, with the address and port of its client. -/
structure Waiting where
  sock : ℕ
  saddr : ℕ
  source : ℕ
  acceptRc : Int
  mem : Bool
  r2lQueued : Bool
  deriving Repr, DecidableEq

structure ListenQueue where
  waiting : List Waiting
  distinct : (waiting.map Waiting.sock).Nodup

/-- The fields of `struct pepdna_con` that the loop reads and writes. -/
structure LCon where
  id : ℕ
  lsock : Option ℕ
  lflag : Bool
  rflag : Bool
  deriving Repr, DecidableEq

/-- The connections, the sockets with `sk_data_ready` and `sk_user_data` set and the connection
these point to, and the calls of `sock_release`. -/
structure State where
  cons : List LCon
  callbacks : List (ℕ × ℕ)
  released : List ℕ
  deriving Repr, DecidableEq

def Waiting.clientId (w : Waiting) : ℕ := pepdnaHash32Rjenkins12 w.saddr w.source

/-- `identify_client`; the error of the allocation is returned as an id. -/
def identifyClient (w : Waiting) : ℕ := if w.mem then w.clientId else u32OfLong (-ENOMEM)

/-- `pepdna_con_find`. -/
def conFind (t : List LCon) (key : ℕ) : Option LCon := FirstMatch.find (fun c => c.id = key) t

def storeLsock (sock : ℕ) (c : LCon) : LCon :=
  { c with lsock := some sock, lflag := true, rflag := true }

/-- The table with a socket stored in the connection that `pepdna_con_find` returns. -/
def conStore (key sock : ℕ) (t : List LCon) : List LCon :=
  FirstMatch.modify (fun c => c.id = key) (storeLsock sock) t

/-- What an accepted socket does to the state: it is stored and gets its callbacks, or it is
released. -/
def serve (s : State) (w : Waiting) : State :=
  match conFind s.cons (identifyClient w) with
  | none => { s with released := s.released ++ [w.sock] }
  | some con => { s with
      cons := conStore con.id w.sock s.cons
      callbacks := s.callbacks ++ [(w.sock, con.id)] }

def GoesOn (mode : ServerMode) (t : List LCon) (w : Waiting) : Prop :=
  (conFind t (identifyClient w)).isSome = true ∧ (mode = .tcp2rina → w.r2lQueued = true)

instance (mode : ServerMode) (t : List LCon) (w : Waiting) : Decidable (GoesOn mode t w) :=
  instDecidableAnd

/-- `pepdna_tcp_accept`: what it returns, the sockets that still wait and the state. -/
def pepdnaTcpAccept (mode : ServerMode) : List Waiting → State → Int × List Waiting × State
  | [], s => (-EAGAIN, [], s)
  | w :: rest, s =>
    if w.acceptRc < 0 then (w.acceptRc, w :: rest, s)
    else if GoesOn mode s.cons w then pepdnaTcpAccept mode rest (serve s w)
    else (-1, rest, serve s w)

/-! ### The table under the loop -/

theorem conFind_id (t : List LCon) (key : ℕ) (c : LCon) (h : conFind t key = some c) :
    c.id = key := (FirstMatch.find_spec _ t c h).2

theorem conFind_store (t : List LCon) (key sock k : ℕ) :
    conFind (conStore key sock t) k =
      if k = key then (conFind t k).map (storeLsock sock) else conFind t k := by
  by_cases hk : k = key
  · subst hk
    rw [if_pos rfl]
    exact FirstMatch.find_modify _ t (storeLsock sock) fun c hc => hc
  · rw [if_neg hk]
    refine FirstMatch.find_modify_other _ _ t (storeLsock sock) fun c hc => ?_
    -- the id of a connection does not change
    have hne : ¬c.id = k := fun h => hk (h.symm.trans hc)
    exact ⟨hne, hne⟩

theorem serve_conStore (s : State) (w : Waiting) :
    (serve s w).cons = conStore (identifyClient w) w.sock s.cons := by
  unfold serve
  cases hc : conFind s.cons (identifyClient w) with
  | none => exact (FirstMatch.modify_none _ s.cons _ hc).symm
  | some con => simp only [conFind_id s.cons _ con hc]

theorem conFind_serve (s : State) (w : Waiting) (k : ℕ) :
    conFind (serve s w).cons k =
      if k = identifyClient w then (conFind s.cons k).map (storeLsock w.sock)
      else conFind s.cons k := by
  rw [serve_conStore, conFind_store]

theorem isSome_serve (s : State) (w : Waiting) (k : ℕ) :
    (conFind (serve s w).cons k).isSome = (conFind s.cons k).isSome := by
  rw [conFind_serve]
  split
  · exact Option.isSome_map
  · rfl

theorem goesOn_serve (mode : ServerMode) (s : State) (w v : Waiting) :
    GoesOn mode (serve s w).cons v ↔ GoesOn mode s.cons v := by
  unfold GoesOn
  rw [isSome_serve]

/-! ### How far the loop goes -/

theorem accept_left_iff (mode : ServerMode) (ws : List Waiting) (s : State) :
    (pepdnaTcpAccept mode ws s).2.1 = [] ↔
      ((∀ w ∈ ws, 0 ≤ w.acceptRc) ∧ ∀ w ∈ ws.dropLast, GoesOn mode s.cons w) := by
  induction ws generalizing s with
  | nil => simp [pepdnaTcpAccept]
  | cons w rest ih =>
    rw [pepdnaTcpAccept]
    by_cases hrc : w.acceptRc < 0
    · have hnot : ¬0 ≤ w.acceptRc := by omega
      simp [hrc, hnot]
    · have hok : 0 ≤ w.acceptRc := by omega
      simp only [hrc, if_false]
      by_cases hgo : GoesOn mode s.cons w
      · simp only [hgo, if_true, ih, goesOn_serve, List.forall_mem_cons, hok, true_and]
        cases rest with
        | nil => simp
        | cons v rest => simp only [List.dropLast_cons_cons, List.forall_mem_cons, hgo, true_and]
      · simp only [hgo, if_false, List.forall_mem_cons, hok, true_and]
        cases rest with
        | nil => simp
        | cons v rest => simp [hgo]

theorem accept_all (mode : ServerMode) (ws : List Waiting) (s : State)
    (h : (pepdnaTcpAccept mode ws s).2.1 = []) :
    (pepdnaTcpAccept mode ws s).2.2 = ws.foldl serve s := by
  induction ws generalizing s with
  | nil => rfl
  | cons w rest ih =>
    rw [pepdnaTcpAccept] at h ⊢
    split at h
    · cases h
    · next hrc =>
      simp only [hrc, if_false]
      split at h
      · next hgo =>
        simp only [hgo, if_true, List.foldl_cons]
        exact ih _ h
      · next hgo =>
        simp only [hgo, if_false, List.foldl_cons]
        have hnil : rest = [] := h
        rw [hnil]
        rfl

/-! ### What the sockets leave behind -/

def lastFor (ws : List Waiting) (k : ℕ) : Option Waiting :=
  (ws.filter fun w => decide (identifyClient w = k)).getLast?

/- A connection has the socket that came last, and the flags if there was one. -/
theorem conFind_served (ws : List Waiting) (s : State) (k : ℕ) :
    conFind (ws.foldl serve s).cons k =
      (conFind s.cons k).map fun c => (lastFor ws k).elim c fun w => storeLsock w.sock c := by
  induction ws using List.reverseRecOn with
  | nil => simp [lastFor]
  | append_singleton ws w ih =>
    rw [List.foldl_append, List.foldl_cons, List.foldl_nil, conFind_serve, ih]
    by_cases hk : k = identifyClient w
    · have hlast : lastFor (ws ++ [w]) k = some w := by
        simp [lastFor, List.filter_append, hk]
      rw [if_pos hk, Option.map_map, hlast]
      cases lastFor ws k <;> rfl
    · have hlast : lastFor (ws ++ [w]) k = lastFor ws k := by
        simp [lastFor, List.filter_append, Ne.symm hk]
      rw [if_neg hk, hlast]

theorem serve_callbacks (s : State) (w : Waiting) :
    (serve s w).callbacks = s.callbacks ++
      if (conFind s.cons (identifyClient w)).isSome then [(w.sock, identifyClient w)] else [] := by
  unfold serve
  cases hc : conFind s.cons (identifyClient w) with
  | none => simp
  | some con => simp [conFind_id s.cons _ con hc]

theorem serve_released (s : State) (w : Waiting) :
    (serve s w).released = s.released ++
      if (conFind s.cons (identifyClient w)).isSome then [] else [w.sock] := by
  unfold serve
  cases hc : conFind s.cons (identifyClient w) with
  | none => simp
  | some con => simp

theorem mem_callbacks_served (ws : List Waiting) (s : State) (p : ℕ × ℕ) :
    p ∈ (ws.foldl serve s).callbacks ↔ (p ∈ s.callbacks ∨
      ∃ w ∈ ws, (conFind s.cons (identifyClient w)).isSome = true ∧
        p = (w.sock, identifyClient w)) := by
  induction ws generalizing s with
  | nil => simp
  | cons w ws ih =>
    rw [List.foldl_cons, ih, serve_callbacks]
    simp only [isSome_serve, List.mem_append, List.exists_mem_cons_iff]
    split
    · next h => simp [h, or_assoc]
    · next h => simp [h]

theorem mem_released_served (ws : List Waiting) (s : State) (sock : ℕ) :
    sock ∈ (ws.foldl serve s).released ↔ (sock ∈ s.released ∨
      ∃ w ∈ ws, (conFind s.cons (identifyClient w)).isSome = false ∧ sock = w.sock) := by
  induction ws generalizing s with
  | nil => simp
  | cons w ws ih =>
    rw [List.foldl_cons, ih, serve_released]
    simp only [isSome_serve, List.mem_append, List.exists_mem_cons_iff]
    split
    · next h => simp [h]
    · next h => simp [h, or_assoc]

/-! ### The connections of the two MINIP modes -/

section Minip

-- the socket that the client with an id has
variable (sockOf : ℕ → ℕ)

def lconOf (c : Minip.Con) : LCon where
  id := c.id
  lsock := if c.lsock then some (sockOf c.id) else none
  lflag := c.lflag
  rflag := c.rflag

/-- The stores of `pepdna_tcp_accept`, without the wake-up that follows them. -/
def acceptInto (cs : List Minip.Con) (w : Waiting) : List Minip.Con :=
  FirstMatch.modify (fun c => c.id = identifyClient w) Minip.acceptStore cs

theorem serve_minip (cs : List Minip.Con) (s : State) (w : Waiting)
    (hs : s.cons = cs.map (lconOf sockOf)) (hw : sockOf (identifyClient w) = w.sock) :
    (serve s w).cons = (acceptInto cs w).map (lconOf sockOf) := by
  rw [serve_conStore, hs]
  refine FirstMatch.modify_map _ _ (lconOf sockOf) Minip.acceptStore _ (fun c => Iff.rfl) ?_ cs
  intro c hc
  have hsock : sockOf c.id = w.sock := (congrArg sockOf hc).trans hw
  simp only [storeLsock, lconOf, Minip.acceptStore, if_true, hsock]

/-- A loop that leaves nothing does to each connection what `Minip.pepdnaTcpAccept` does before it
wakes up the work. -/
theorem accept_refines (mode : ServerMode) (cs : List Minip.Con) (ws : List Waiting) (s : State)
    (hs : s.cons = cs.map (lconOf sockOf)) (hw : ∀ w ∈ ws, sockOf (identifyClient w) = w.sock)
    (h : (pepdnaTcpAccept mode ws s).2.1 = []) :
    (pepdnaTcpAccept mode ws s).2.2.cons = (ws.foldl acceptInto cs).map (lconOf sockOf) := by
  rw [accept_all mode ws s h]
  clear h
  induction ws generalizing s cs with
  | nil => exact hs
  | cons w ws ih =>
    refine ih (acceptInto cs w) (serve s w) ?_ fun v hv => hw v (List.mem_cons_of_mem w hv)
    exact serve_minip sockOf cs s w hs (hw w List.mem_cons_self)

end Minip

/-! ### The queue is drained -/

def afterAccept (mode : ServerMode) (q : ListenQueue) (t : List LCon) : State :=
  (pepdnaTcpAccept mode q.waiting ⟨t, [], []⟩).2.2

/-- No socket waits; a socket whose client has a connection is its `lsock`, with the flags and the
callbacks set; every other one is released. -/
structure Drained (mode : ServerMode) (q : ListenQueue) (t : List LCon) : Prop where
  left : (pepdnaTcpAccept mode q.waiting ⟨t, [], []⟩).2.1 = []
  stored : ∀ w ∈ q.waiting, (conFind t w.clientId).isSome = true →
    (∃ c, conFind (afterAccept mode q t).cons w.clientId = some c ∧
      c.lsock = some w.sock ∧ c.lflag = true ∧ c.rflag = true) ∧
    (w.sock, w.clientId) ∈ (afterAccept mode q t).callbacks
  released : ∀ w ∈ q.waiting, (conFind t w.clientId).isSome = false →
    w.sock ∈ (afterAccept mode q t).released

/-- Every socket is accepted, the loop goes on behind each but the last, `identify_client` names
the connection of the client or none, and no two sockets are for one connection. -/
structure Drains (mode : ServerMode) (q : ListenQueue) (t : List LCon) : Prop where
  accepted : ∀ w ∈ q.waiting, 0 ≤ w.acceptRc
  goesOn : ∀ w ∈ q.waiting.dropLast, GoesOn mode t w
  identified : ∀ w ∈ q.waiting, identifyClient w = w.clientId ∨
    ((conFind t (identifyClient w)).isSome = false ∧ (conFind t w.clientId).isSome = false)
  apart : ∀ w ∈ q.waiting, ∀ v ∈ q.waiting, (conFind t w.clientId).isSome = true →
    v.clientId = w.clientId → v = w

theorem lastFor_eq (ws : List Waiting) (k : ℕ) (w : Waiting) (hw : w ∈ ws)
    (hk : identifyClient w = k) (hone : ∀ v ∈ ws, identifyClient v = k → v = w) :
    lastFor ws k = some w := by
  have hne : (ws.filter fun w => decide (identifyClient w = k)) ≠ [] := by
    intro hnil
    have hmem : w ∈ ws.filter fun w => decide (identifyClient w = k) :=
      List.mem_filter.mpr ⟨hw, decide_eq_true hk⟩
    rw [hnil] at hmem
    cases hmem
  have hlast := List.mem_filter.mp (List.getLast_mem hne)
  rw [lastFor, List.getLast?_eq_some_getLast hne,
    hone _ hlast.1 (of_decide_eq_true hlast.2)]

theorem ListenQueue.sock_inj (q : ListenQueue) (w v : Waiting) (hw : w ∈ q.waiting)
    (hv : v ∈ q.waiting) (h : w.sock = v.sock) : w = v :=
  List.inj_on_of_nodup_map q.distinct hw hv h

section Drain

variable (mode : ServerMode) (q : ListenQueue) (t : List LCon)

theorem afterAccept_eq (h : (pepdnaTcpAccept mode q.waiting ⟨t, [], []⟩).2.1 = []) :
    afterAccept mode q t = q.waiting.foldl serve ⟨t, [], []⟩ :=
  accept_all mode q.waiting ⟨t, [], []⟩ h

theorem drains_of_drained (h : Drained mode q t) : Drains mode q t := by
  obtain ⟨hacc, hgo⟩ := (accept_left_iff mode q.waiting ⟨t, [], []⟩).mp h.left
  have hafter := afterAccept_eq mode q t h.left
  refine ⟨hacc, hgo, ?_, ?_⟩
  · intro w hw
    cases hk : (conFind t w.clientId).isSome with
    | true =>
      -- its callbacks are those of the connection that identify_client has named
      have hcb := (h.stored w hw hk).2
      rw [hafter, mem_callbacks_served] at hcb
      rcases hcb with hcb | ⟨v, hv, -, heq⟩
      · cases hcb
      · injection heq with hsock hid
        rw [q.sock_inj w v hw hv hsock] at hid ⊢
        exact Or.inl hid.symm
    | false =>
      have hrel := h.released w hw hk
      rw [hafter, mem_released_served] at hrel
      rcases hrel with hrel | ⟨v, hv, hnone, hsock⟩
      · cases hrel
      · rw [← q.sock_inj w v hw hv hsock] at hnone
        exact Or.inr ⟨hnone, rfl⟩
  · intro w hw v hv hk hid
    obtain ⟨⟨c, hc, hsock, -⟩, -⟩ := h.stored w hw hk
    obtain ⟨⟨c', hc', hsock', -⟩, -⟩ := h.stored v hv (by rw [hid]; exact hk)
    rw [hid, hc] at hc'
    cases hc'
    rw [hsock] at hsock'
    injection hsock' with hsame
    exact (q.sock_inj w v hw hv hsame).symm

theorem drained_of_drains (h : Drains mode q t) : Drained mode q t := by
  have hleft := (accept_left_iff mode q.waiting ⟨t, [], []⟩).mpr ⟨h.accepted, h.goesOn⟩
  have hafter := afterAccept_eq mode q t hleft
  -- a socket that is taken for a client with a connection is of that client
  have hknown (v : Waiting) (hv : v ∈ q.waiting)
      (hk : (conFind t (identifyClient v)).isSome = true) : identifyClient v = v.clientId := by
    rcases h.identified v hv with hid | ⟨hnone, -⟩
    · exact hid
    · rw [hnone] at hk
      cases hk
  refine ⟨hleft, ?_, ?_⟩
  · intro w hw hk
    have hid : identifyClient w = w.clientId := by
      rcases h.identified w hw with hid | ⟨-, hnone⟩
      · exact hid
      · rw [hnone] at hk
        cases hk
    have hlast : lastFor q.waiting w.clientId = some w := by
      refine lastFor_eq q.waiting w.clientId w hw hid fun v hv hv' => ?_
      have hvid := hknown v hv (by rw [hv']; exact hk)
      exact h.apart w hw v hv hk (hvid.symm.trans hv')
    obtain ⟨c, hc⟩ := Option.isSome_iff_exists.mp hk
    refine ⟨⟨storeLsock w.sock c, ?_, rfl, rfl, rfl⟩, ?_⟩
    · rw [hafter, conFind_served, hlast, hc]
      rfl
    · rw [hafter, mem_callbacks_served]
      exact Or.inr ⟨w, hw, by rw [hid]; exact hk, by rw [hid]⟩
  · intro w hw hk
    rw [hafter, mem_released_served]
    refine Or.inr ⟨w, hw, ?_, rfl⟩
    rcases h.identified w hw with hid | ⟨hnone, -⟩
    · rw [hid]
      exact hk
    · exact hnone

theorem pepdnaTcpAccept_drained_iff : Drained mode q t ↔ Drains mode q t :=
  ⟨drains_of_drained mode q t, drained_of_drains mode q t⟩

end Drain

def client (sock source : ℕ) : Waiting := ⟨sock, 16777343, source, 0, true, true⟩

def conOf (source : ℕ) : LCon := ⟨pepdnaHash32Rjenkins12 16777343 source, none, false, false⟩

/- A socket whose connection is gone stands before one that has a connection. -/
def unknownFirst : ListenQueue := ⟨[client 1 13, client 2 14], by decide⟩

/- The second client is left in the queue, although the table has its connection. -/
theorem not_drained_unknownFirst :
    (pepdnaTcpAccept .tcp2tcp unknownFirst.waiting ⟨[conOf 14], [], []⟩).2.1 = [client 2 14] ∧
      (conFind [conOf 14] (client 2 14).clientId).isSome = true ∧
      ¬Drained .tcp2tcp unknownFirst [conOf 14] := by
  refine ⟨by decide +kernel, by decide +kernel, ?_⟩
  intro h
  exact absurd h.left (by decide +kernel)

end PepDna.Accept
