import PepDna.Lts
import PepDna.Minip.Work

/-!
# Two proxies and the network between them

The packets in flight from a side are its `tx`. The network delivers any of
them at any time, keeps a copy or not, and loses any of them; it does not
change them.
-/

namespace PepDna.Minip

inductive Side where
  | a
  | b
  deriving Repr, DecidableEq

def Side.other : Side → Side
  | .a => .b
  | .b => .a

structure Peers where
  a : Con
  b : Con
  deriving Repr, DecidableEq

def Peers.get (s : Peers) : Side → Con
  | .a => s.a
  | .b => s.b

def Peers.set (s : Peers) (x : Side) (c : Con) : Peers :=
  match x with
  | .a => { s with a := c }
  | .b => { s with b := c }

theorem other_other (x : Side) : x.other.other = x := by cases x <;> rfl
theorem get_set (s : Peers) (x : Side) (c : Con) : (s.set x c).get x = c := by cases x <;> rfl
theorem get_set_other (s : Peers) (x : Side) (c : Con) :
    (s.set x c).get x.other = s.get x.other := by cases x <;> rfl
theorem get_other_set (s : Peers) (x : Side) (c : Con) :
    (s.set x.other c).get x = s.get x := by cases x <;> rfl
theorem side_cases (x y : Side) : y = x ∨ y = x.other := by cases x <;> cases y <;> simp [Side.other]

/- A property of each side after one of them has changed. -/
theorem forall_get_set (P : Side → Con → Prop) (s : Peers) (z : Side) (c : Con) (hz : P z c)
    (ho : P z.other (s.get z.other)) (x : Side) : P x ((s.set z c).get x) := by
  rcases side_cases z x with rfl | rfl
  · rw [get_set]
    exact hz
  · rw [get_set_other]
    exact ho

/-- The packet is taken off the wire. -/
def unsend (c : Con) (p : Packet) : Con := { c with tx := c.tx.erase p }

inductive NetAct where
  | own (x : Side) (a : Act)
  | deliver (x : Side) (p : Packet) (keep : Bool) (now : ℕ) (xmit : ℕ → Int)
  | lose (x : Side) (p : Packet)

def Act.isRecv : Act → Bool
  | .recv .. => true
  | _ => false

/- `deliver x p` is the reception by `x` of a packet of the other side; an `own` step of a side is
anything else that happens to it. -/
def peersStep (s : Peers) : NetAct → Option Peers
  | .own x a => if a.isRecv then none else (conStep (s.get x) a).map (s.set x)
  | .deliver x p keep now xmit =>
    if p ∈ (s.get x.other).tx then
      let s := if keep then s else s.set x.other (unsend (s.get x.other) p)
      (conStep (s.get x) (.recv p now xmit)).map (s.set x)
    else none
  | .lose x p => if p ∈ (s.get x).tx then some (s.set x (unsend (s.get x) p)) else none

/-- The connection a step of the network is a step of, and the step. -/
def NetAct.atSide : NetAct → Option (Side × Act)
  | .own x a => some (x, a)
  | .deliver x p _ now xmit => some (x, .recv p now xmit)
  | .lose _ _ => none

/- Whatever holds after a step of one connection, which takes packets of the other side only, and
is kept when a packet leaves the wire, holds after a step of the two. -/
theorem peersStep_sides (P : Peers → Prop) (s t : Peers) (a : NetAct) (h : peersStep s a = some t)
    (hs : a.atSide = none → P s)
    (hcon : ∀ x act c', a.atSide = some (x, act) → conStep (s.get x) act = some c' →
      (∀ p now xmit, act = .recv p now xmit → p ∈ (s.get x.other).tx) → P (s.set x c'))
    (hun : ∀ u x p, P u → P (u.set x (unsend (u.get x) p))) : P t := by
  cases a with
  | own x act =>
    simp only [peersStep] at h
    split at h
    · cases h
    · next hr =>
      obtain ⟨c', hc', rfl⟩ := Option.map_eq_some_iff.mp h
      refine hcon x act c' rfl hc' ?_
      rintro p now xmit rfl
      exact absurd rfl hr
  | deliver x p keep now xmit =>
    simp only [peersStep] at h
    split at h
    · next hp =>
      obtain ⟨c', hc', rfl⟩ := Option.map_eq_some_iff.mp h
      have hrecv : conStep (s.get x) (.recv p now xmit) = some c' := by
        cases keep
        · exact (get_other_set s x _) ▸ hc'
        · exact hc'
      have hset := hcon x (.recv p now xmit) c' rfl hrecv fun q _ _ hq => by
        cases hq
        exact hp
      cases keep with
      | true => exact hset
      | false =>
        have hu := hun _ x.other p hset
        rw [get_set_other] at hu
        cases x <;> exact hu
    · cases h
  | lose x p =>
    simp only [peersStep] at h
    split at h
    · cases h
      exact hun s x p (hs rfl)
    · cases h

theorem peersStep_rule (P : Peers → Prop) (s t : Peers) (a : NetAct) (h : peersStep s a = some t)
    (hs : P s)
    (hcon : ∀ x act c', a.atSide = some (x, act) → conStep (s.get x) act = some c' →
      (∀ p now xmit, act = .recv p now xmit → p ∈ (s.get x.other).tx) → P (s.set x c'))
    (hun : ∀ u x p, P u → P (u.set x (unsend (u.get x) p))) : P t :=
  peersStep_sides P s t a h (fun _ => hs) hcon hun

/-- A connection right after the handshake, its left socket open and its first wake-up queued. -/
def openCon (mode : Mode) (syn : SynTuple) : Con :=
  { pepdnaConAlloc mode syn syn.hashId with
    kref := 2
    lastAcked := MINIP_FIRST_SEQ + 1
    nextSeq := MINIP_FIRST_SEQ + 1
    nextRecv := MINIP_FIRST_SEQ + 1
    state := .established
    lsock := true
    lflag := true
    rflag := decide (mode = .tcp2minip)
    userData := true
    pending := true
    tcfa := .done
    syns := if mode = .tcp2minip then 1 else 0 }

/- The client address of the runs on fixed inputs. -/
def sampleSyn : SynTuple := ⟨1, 2, 3, 4⟩

/- The end of a run on fixed inputs. -/
def ranFrom (s : Peers) (acts : List NetAct) : Peers := (Lts.run peersStep s acts).getD s

def openPeers (syn : SynTuple) : Peers := ⟨openCon .tcp2minip syn, openCon .minip2tcp syn⟩

/- The two open connections are what one handshake over a network that delivers the REQUEST and
the RESPONSE once makes of two freshly allocated ones. -/
theorem openCon_tcp2minip_reached (syn : SynTuple) (seq ack : ℕ) (xmit : ℕ → Int) :
    (Lts.run conStep (pepdnaConAlloc .tcp2minip syn syn.hashId)
        [.tcfa 0 0, .tcfa 0 0, .recv (.response syn.hashId seq ack) 0 xmit, .accept]).map
      (fun c => { c with tx := [] }) = some (openCon .tcp2minip syn) := by
  let c : Con := { pepdnaConAlloc .tcp2minip syn syn.hashId with
    state := .requestSent
    nextSeq := MINIP_FIRST_SEQ + 1
    tcfa := .done
    tx := [.request syn.hashId MINIP_FIRST_SEQ MINIP_FIRST_SEQ 0 syn] }
  have hsent : Lts.run conStep (pepdnaConAlloc .tcp2minip syn syn.hashId)
      [.tcfa 0 0, .tcfa 0 0] = some c := rfl
  have hrun : Lts.run conStep (pepdnaConAlloc .tcp2minip syn syn.hashId)
      ([.tcfa 0 0, .tcfa 0 0] ++ [.recv (.response c.id seq ack) 0 xmit, .accept]) = _ :=
    Lts.run_append _ _ _
  rw [hsent, Option.bind_some, Lts.run_cons, conStep_recv_response c seq ack 0 xmit rfl rfl] at hrun
  exact (congrArg (Option.map _) hrun).trans rfl

theorem openCon_minip2tcp_reached (syn : SynTuple) :
    (Lts.run conStep (pepdnaConAlloc .minip2tcp syn syn.hashId)
        [.tcfa 0 0, .tcfa 0 0, .tcfa 0 0, .tcfa 0 0, .tcfa 0 0, .tcfa 0 0]).map
      (fun c => { c with tx := [] }) = some (openCon .minip2tcp syn) := rfl

/-- Every `pepdna_minip_skb_send` of the step returns a non-negative value. -/
def SendSucceeds : Act → Prop
  | .work (.skb o _) => ∃ rc, o = .xmit rc ∧ 0 ≤ rc
  | _ => True

def NetSendSucceeds : NetAct → Prop
  | .own _ a => SendSucceeds a
  | _ => True

instance : DecidablePred SendSucceeds
  | .work (.skb (.xmit rc) _) =>
    decidable_of_iff (0 ≤ rc) ⟨fun h => ⟨rc, rfl, h⟩, fun ⟨_, he, h⟩ => by cases he; exact h⟩
  | .work (.skb .allocFail _) => isFalse nofun
  | .work (.skb .hardHeaderFail _) => isFalse nofun
  | .work (.skb .cloneFail _) => isFalse nofun
  | .work (.skb .pushFail _) => isFalse nofun
  | .work .tau => isTrue trivial
  | .work .nomem => isTrue trivial
  | .work (.read _) => isTrue trivial
  | .work (.recvRet _) => isTrue trivial
  | .tcfa _ _ => isTrue trivial
  | .accept => isTrue trivial
  | .dataReady => isTrue trivial
  | .timeout _ _ => isTrue trivial
  | .recv _ _ _ => isTrue trivial
  | .sendmsg _ => isTrue trivial

instance : DecidablePred NetSendSucceeds
  | .own _ a => inferInstanceAs (Decidable (SendSucceeds a))
  | .deliver _ _ _ _ _ => isTrue trivial
  | .lose _ _ => isTrue trivial

theorem netSendSucceeds_atSide (a : NetAct) (x : Side) (act : Act) (h : NetSendSucceeds a)
    (ha : a.atSide = some (x, act)) : SendSucceeds act := by
  cases a with
  | own y b =>
    cases ha
    exact h
  | deliver y p keep now xmit =>
    cases ha
    trivial
  | lose y p => cases ha

end PepDna.Minip
