import PepDna.Lts
import PepDna.Ndn.Decode

/-!
# The CCN relay (ccnl-relay.c, ccnl-fwd.c, ccnl-interest.c, ccnl-dispatch.c)

The relay keeps the faces it talks to, the pending Interests (PIT), the content store, the
forwarding table (FIB) and the nonces seen last. A datagram is an Interest or a Data packet;
`ccnl_do_ageing` runs once a second. A pointer to a face is its `faceid`.

What is sent leaves at once: without `USE_SCHEDULER` the queues of faces and interfaces are empty
between two calls. The relay is built with `USE_DUP_CHECK` and `USE_MGMT`, and without `USE_FRAG`,
`USE_RONR` and `CCNL_APP_RX`; no callback, producer or cache strategy is set.

What is modelled are NDN packets and three management commands: `newface`, `destroyface` and
`prefixreg` for an NDN prefix, with their effect on the tables. Their answers, which are CCNb
packets, the other commands (`addcacheobject` sends an Interest of its own) and packets of the
other suites are not. `none` is a run that has no continuation here: a packet without a name is
dereferenced, the parser has read too far, the FIB has an entry that was freed, or a packet is of
another suite.

The last six fields of `Relay` are not variables of the program: they record what has been received
from whom, what has been sent to whom, which faces were made to reflect and which routes there were.
-/

namespace PepDna.Ndn

def CCNL_CONTENT_TIMEOUT : ℕ := 300
def CCNL_FACE_TIMEOUT : ℕ := 30
def CCNL_MAX_INTEREST_RETRANSMIT : ℕ := 7
def CCNL_MAX_NONCES : ℕ := 256

structure Peer where
  ifndx : ℕ
  addr : ℕ
  port : ℕ
  deriving Repr, DecidableEq

structure Face where
  faceid : ℕ
  peer : Peer
  static : Bool
  reflect : Bool
  lastUsed : ℕ
  deriving Repr, DecidableEq

/-- A packet whose `pfx` is not NULL. -/
structure NamedPkt where
  pkt : Pkt
  pfx : Prefix
  named : pkt.pfx = some pfx
  deriving DecidableEq

/-- `struct ccnl_interest_s`; `pending` without the times, which nothing reads. -/
structure Interest extends NamedPkt where
  fromFace : Option ℕ
  pending : List ℕ
  lifetime : ℕ
  lastUsed : ℕ
  retries : ℕ
  deriving DecidableEq

structure Content extends NamedPkt where
  static : Bool
  stale : Bool
  lastUsed : ℕ
  deriving DecidableEq

structure Forward where
  pfx : Prefix
  face : ℕ
  deriving DecidableEq

/-- `reflect` is the flag of each interface; `digest` is `compute_ccnx_digest`. -/
structure Config where
  maxCacheEntries : ℤ
  maxPitEntries : ℤ
  reflect : ℕ → Bool
  digest : Bytes → Option Bytes

structure Relay where
  faces : List Face
  pit : List Interest
  contents : List Content
  fib : List Forward
  nonces : List Bytes
  pitcnt : ℤ
  contentcnt : ℤ
  seqno : ℕ
  received : List (ℕ × Pkt)
  populated : List Pkt
  interestsOut : List (ℕ × Pkt)
  dataOut : List (ℕ × Pkt)
  reflecting : List ℕ
  routes : List Forward
  deriving DecidableEq

def Relay.init : Relay := ⟨[], [], [], [], [], 0, 0, 0, [], [], [], [], [], []⟩

def NamedPkt.of (pkt : Pkt) : Option NamedPkt :=
  match h : pkt.pfx with
  | none => none
  | some pfx => some ⟨pkt, pfx, h⟩

/- ### Names -/

inductive CmpMode where
  | exact
  | longest
  deriving DecidableEq

/-- The loop of `ccnl_prefix_cmp`: where it stops, and whether it came to its end. -/
def cmpLoop : List Bytes → List Bytes → ℕ → ℕ × Bool
  | comp :: comps, nam :: nams, i => if comp = nam then cmpLoop comps nams (i + 1) else (i, false)
  | _, _, i => (i, true)

/-- `md` is a digest that counts as one more component. -/
def prefixCmp (pfx : Prefix) (md : Option Bytes) (nam : Prefix) (mode : CmpMode) : ℤ :=
  let r := cmpLoop (pfx.comps ++ md.toList) nam.comps 0
  match mode with
  | .exact =>
    if (pfx.comps ++ md.toList).length ≠ nam.comps.length then -1
    else if pfx.chunknum ≠ nam.chunknum then -1
    else if r.2 then 0 else -1
  | .longest => r.1

def iPrefixofC (digest : Bytes → Option Bytes) (pfx : Prefix) (minsuffix maxsuffix : ℕ)
    (c : NamedPkt) : ℤ :=
  if c.pfx.comps.length + 1 < (pfx.comps.length + minsuffix) % 2 ^ 64 ∨
      (pfx.comps.length + maxsuffix) % 2 ^ 64 < c.pfx.comps.length + 1 then -2
  else if pfx.comps.length = c.pfx.comps.length + 1 then
    match digest c.pkt.buf with
    | none => -3
    | some md => prefixCmp c.pfx (some md) pfx .exact
  else prefixCmp c.pfx none pfx .exact

/-- The test of `ccnl_content_serve_pending`. -/
def satisfies (digest : Bytes → Option Bytes) (c p : NamedPkt) : Bool :=
  0 ≤ iPrefixofC digest p.pfx p.pkt.minsuffix p.pkt.maxsuffix c

def ndntlvCMatch (digest : Bytes → Option Bytes) (p : NamedPkt) (c : Content) : Bool :=
  satisfies digest c.toNamedPkt p && !(p.pkt.mbf && c.stale)

/- ### Faces -/

/-- The first face of the peer, and the faces with its time set. -/
def touchFace (now : ℕ) (peer : Peer) : List Face → Option (ℕ × List Face)
  | [] => none
  | f :: faces =>
    if f.peer = peer then some (f.faceid, { f with lastUsed := u32 now } :: faces)
    else (touchFace now peer faces).map fun r => (r.1, f :: r.2)

def addFace (now : ℕ) (peer : Peer) (static reflect : Bool) (r : Relay) : Relay :=
  { r with
    faces := ⟨r.seqno + 1, peer, static, reflect, u32 now⟩ :: r.faces
    seqno := r.seqno + 1
    reflecting := if reflect then (r.seqno + 1) :: r.reflecting else r.reflecting }

def getFaceOrCreate (cfg : Config) (now : ℕ) (peer : Peer) (r : Relay) : ℕ × Relay :=
  match touchFace now peer r.faces with
  | some (face, faces) => (face, { r with faces := faces })
  | none => (r.seqno + 1, addFace now peer false (cfg.reflect peer.ifndx) r)

def Relay.reflects (r : Relay) (face : ℕ) : Bool :=
  r.faces.any fun f => f.faceid = face && f.reflect

def Interest.without (face : ℕ) (i : Interest) : Interest :=
  { i with
    fromFace := if i.fromFace = some face then none else i.fromFace
    pending := i.pending.filter (· ≠ face) }

/-- Interests for which nobody waits any longer go, and so do the routes over the face. -/
def faceRemove (r : Relay) (face : ℕ) : Relay :=
  let pit := (r.pit.map (·.without face)).filter (·.pending ≠ [])
  { r with
    pit := pit
    pitcnt := r.pitcnt - (r.pit.length - pit.length)
    fib := r.fib.filter (·.face ≠ face)
    faces := r.faces.filter (·.faceid ≠ face) }

/- ### Pending Interests -/

def interestIsSame (i p : NamedPkt) : Bool :=
  prefixCmp i.pfx none p.pfx .exact = 0 && i.pkt.minsuffix = p.pkt.minsuffix &&
    i.pkt.maxsuffix = p.pkt.maxsuffix

def interestAppendPending (face : ℕ) (i : Interest) : Interest :=
  if face ∈ i.pending then i else { i with pending := i.pending ++ [face] }

/-- The entry the Interest belongs to, if there is one, with the face added. -/
def appendToSame (p : NamedPkt) (face : ℕ) : List Interest → Option (List Interest)
  | [] => none
  | i :: pit =>
    if interestIsSame i.toNamedPkt p then some (interestAppendPending face i :: pit)
    else (appendToSame p face pit).map (i :: ·)

def interestNew (now face : ℕ) (p : NamedPkt) : Interest where
  toNamedPkt := p
  fromFace := some face
  pending := []
  lifetime := u32 (p.pkt.interestlifetime / 1000)
  lastUsed := u32 now
  retries := 0

/-- Not back to where the Interest comes from, unless that face reflects. -/
def forwards (r : Relay) (i : Interest) (fwd : Forward) : Bool :=
  decide (fwd.pfx.comps.length ≤ prefixCmp fwd.pfx none i.pfx .longest) &&
    match i.fromFace with
    | none => true
    | some face => fwd.face ≠ face || r.reflects face

def propagated (r : Relay) (i : Interest) : List (ℕ × Pkt) :=
  (r.fib.filter (forwards r i)).map fun fwd => (fwd.face, i.pkt)

def interestPropagate (r : Relay) (i : Interest) : Relay :=
  { r with interestsOut := r.interestsOut ++ propagated r i }

/- ### Content -/

def contentNew (now : ℕ) (p : NamedPkt) : Content := ⟨p, false, false, u32 now⟩

def hasName (contents : List Content) (pfx : Prefix) : Bool :=
  contents.any fun c => prefixCmp c.pfx none pfx .exact = 0

/-- The position of `oldest`, with `age` as in the loop, where 0 stands for none yet. -/
def oldestLoop : List Content → ℕ → ℕ → Option ℕ → Option ℕ
  | [], _, _, oldest => oldest
  | c :: contents, k, age, oldest =>
    if !c.static && (age = 0 || decide (c.lastUsed < age)) then
      oldestLoop contents (k + 1) c.lastUsed (some k)
    else oldestLoop contents (k + 1) age oldest

def removeOldest (r : Relay) : Relay :=
  match oldestLoop r.contents 0 0 none with
  | none => r
  | some k => { r with contents := r.contents.eraseIdx k, contentcnt := r.contentcnt - 1 }

def makeRoom (cfg : Config) (r : Relay) : Relay :=
  if 0 < cfg.maxCacheEntries ∧ cfg.maxCacheEntries ≤ r.contentcnt then removeOldest r else r

/-- A relay full of static entries takes one more than its limit. -/
def contentAdd2cache (cfg : Config) (r : Relay) (c : Content) : Relay :=
  if hasName r.contents c.pfx then r
  else
    let r := makeRoom cfg r
    if cfg.maxCacheEntries ≤ 0 ∨ r.contentcnt ≤ cfg.maxCacheEntries then
      { r with contents := c :: r.contents, contentcnt := r.contentcnt + 1 }
    else r

/-- The faces of one entry to which the packet goes; `CCNL_FACE_FLAGS_SERVED` marks those that have
it already. -/
def serveFaces : List ℕ → List ℕ → List ℕ
  | _, [] => []
  | served, f :: pending =>
    if f ∈ served then serveFaces served pending else f :: serveFaces (f :: served) pending

/-- The entries that stay, the faces served and the number of entries nobody waited for. -/
structure Serving where
  pit : List Interest
  faces : List ℕ
  hooks : ℕ

def serveLoop (digest : Bytes → Option Bytes) (c : NamedPkt) : List Interest → List ℕ → Serving
  | [], faces => ⟨[], faces, 0⟩
  | i :: pit, faces =>
    if satisfies digest c i.toNamedPkt then
      if i.pending = [] then
        let s := serveLoop digest c pit faces
        { s with hooks := s.hooks + 1 }
      else serveLoop digest c pit (faces ++ serveFaces faces i.pending)
    else
      let s := serveLoop digest c pit faces
      { s with pit := i :: s.pit }

/-- `cnt`, the content and the relay. -/
def contentServePending (cfg : Config) (r : Relay) (c : Content) : ℕ × Content × Relay :=
  let s := serveLoop cfg.digest c.toNamedPkt r.pit []
  (s.faces.length + s.hooks,
    { c with static := c.static || decide (0 < s.hooks) },
    { r with
      pit := s.pit
      pitcnt := r.pitcnt - (r.pit.length - s.pit.length)
      dataOut := r.dataOut ++ s.faces.map (·, c.pkt) })

/- ### Packets -/

/-- The nonces with the new one, `none` if it has been seen. -/
def nonceFindOrAppend (nonces : List Bytes) (nonce : Bytes) : Option (List Bytes) :=
  if nonce ∈ nonces then none
  else some (nonce ::
    if CCNL_MAX_NONCES ≤ nonces.length ∧ 2 ≤ nonces.length then nonces.dropLast else nonces)

def nonceIsDup (nonces : List Bytes) (pkt : Pkt) : Option (List Bytes) :=
  match pkt.nonce with
  | none => some nonces
  | some nonce => nonceFindOrAppend nonces nonce

def ccnx : Bytes := [99, 99, 110, 120]

/-- A management Interest; what the command does is an action of its own. `memcmp` takes four bytes
also of a shorter component: one that an element of another type completes to `ccnx` is not counted
here. -/
def isMgmt (pfx : Prefix) : Bool :=
  pfx.comps.length = 4 && pfx.comps.head?.any fun comp => comp.take 4 = ccnx

def pktFwdOK (pkt : Pkt) : Bool := 2 < pkt.scope

def storeInterest (cfg : Config) (now face : ℕ) (r : Relay) (p : NamedPkt) : Relay :=
  match appendToSame p face r.pit with
  | some pit => { r with pit := pit }
  | none =>
    if cfg.maxPitEntries ≠ -1 ∧ cfg.maxPitEntries ≤ r.pitcnt then r
    else
      let i := interestAppendPending face (interestNew now face p)
      interestPropagate { r with pit := i :: r.pit, pitcnt := r.pitcnt + 1 } i

def fwdHandleInterest (cfg : Config) (now face : ℕ) (r : Relay) (pkt : Pkt) : Option Relay :=
  match nonceIsDup r.nonces pkt with
  | none => some r
  | some nonces =>
    match NamedPkt.of pkt with
    | none => none
    | some p =>
      if isMgmt p.pfx then some { r with nonces := nonces }
      else
        match r.contents.find? (ndntlvCMatch cfg.digest p) with
        | some c => some { r with nonces := nonces, dataOut := r.dataOut ++ [(face, c.pkt)] }
        | none =>
          if pktFwdOK pkt then some (storeInterest cfg now face { r with nonces := nonces } p)
          else some { r with nonces := nonces }

def deliver (cfg : Config) (now : ℕ) (r : Relay) (p : NamedPkt) : Relay :=
  let s := contentServePending cfg r (contentNew now p)
  if s.1 = 0 then r
  else if cfg.maxCacheEntries ≠ 0 then contentAdd2cache cfg s.2.2 s.2.1
  else s.2.2

def fwdHandleContent (cfg : Config) (now : ℕ) (r : Relay) (pkt : Pkt) : Option Relay :=
  match NamedPkt.of pkt with
  | none => if r.contents = [] ∧ r.pit = [] then some r else none
  | some p => if hasName r.contents p.pfx then some r else some (deliver cfg now r p)

inductive Suite where
  | ccnb
  | ccntlv
  | localrpc
  | ndntlv
  deriving Repr, DecidableEq

def enc2suite : ℕ → Option Suite
  | 0 => some .ccnb
  | 1 => some .ndntlv
  | 2 => some .ccntlv
  | 3 => some .localrpc
  | _ => none

/-- `while (!ccnl_switch_dehead(..))`: the last code counts, also if it is none of a suite. -/
def switchLoop : Bytes → Option Suite → Option Suite × Bytes
  | a :: b :: data, suite =>
    if a.val = 0x80 ∧ b.val < 253 then switchLoop data (enc2suite b.val)
    else (suite, a :: b :: data)
  | data, suite => (suite, data)

/-- The suite by the first bytes of a packet. -/
def firstBytes : Bytes → Option Suite
  | [] => none
  | [b] => if b.val = 4 then some .ccnb else if ndntlvByte b then some .ndntlv else none
  | b :: b' :: _ =>
    if b.val = 4 then some .ccnb
    else if b.val = 1 then some (if b'.val ≤ 3 then .ccntlv else .ccnb)
    else if ndntlvByte b then some .ndntlv else none
where
  ndntlvByte (b : Byte) : Bool :=
    b.val = NDN_TLV_Interest || b.val = NDN_TLV_Data || b.val = NDN_TLV_Fragment

/-- The suite of a packet, and the packet without the code switches before it. -/
def pkt2suite (data : Bytes) : Option Suite × Bytes :=
  match switchLoop data none with
  | (some suite, data) => (some suite, data)
  | (none, data) => (firstBytes data, data)

def rxNdntlv (cfg : Config) (now face : ℕ) (data : Bytes) (r : Relay) : Option Relay :=
  match ndntlvForwarder data with
  | .error .bail => some r
  | .error .overrun => none
  | .ok pkt =>
    let r := { r with received := r.received ++ [(face, pkt)] }
    if pkt.type = NDN_TLV_Interest then fwdHandleInterest cfg now face r pkt
    else fwdHandleContent cfg now r pkt

/-- After an NDN packet, parsed or not, nothing of the datagram is left for a second round. The log
of a packet of no suite, which prints a byte of it also if there is none, is left out. -/
def coreRX (cfg : Config) (now : ℕ) (peer : Peer) (data : Bytes) (r : Relay) : Option Relay :=
  let s := getFaceOrCreate cfg now peer r
  match pkt2suite data with
  | (none, _) => some s.2
  | (some .ndntlv, data) => rxNdntlv cfg now s.1 data s.2
  | (some _, _) => none

/- ### Ageing -/

def Content.expired (t : ℕ) (c : Content) : Bool :=
  decide (u32 (c.lastUsed + CCNL_CONTENT_TIMEOUT) ≤ u32 t) && !c.static

def Content.aged (t : ℕ) (c : Content) : Content :=
  if c.lastUsed + c.pkt.freshnessperiod / 1000 ≤ u32 t ∧ c.static = false then
    { c with stale := true }
  else c

def ageContents (t : ℕ) (r : Relay) : Relay :=
  let contents := (r.contents.filter fun c => !c.expired t).map (·.aged t)
  { r with
    contents := contents
    contentcnt := r.contentcnt - (r.contents.length - contents.length) }

def Interest.expired (t : ℕ) (i : Interest) : Bool :=
  decide (u32 (i.lastUsed + i.lifetime) ≤ u32 t) || decide (CCNL_MAX_INTEREST_RETRANSMIT ≤ i.retries)

def agePit (t : ℕ) (r : Relay) : Relay :=
  let kept := r.pit.filter fun i => !i.expired t
  { r with
    pit := kept.map fun i => { i with retries := i.retries + 1 }
    pitcnt := r.pitcnt - (r.pit.length - kept.length)
    interestsOut := r.interestsOut ++ kept.flatMap (propagated r) }

def Face.expired (t : ℕ) (f : Face) : Bool :=
  !f.static && decide (u32 (f.lastUsed + CCNL_FACE_TIMEOUT) ≤ u32 t)

def ageFaces (t : ℕ) (r : Relay) : Relay :=
  ((r.faces.filter (·.expired t)).map (·.faceid)).foldl faceRemove r

def doAgeing (t : ℕ) (r : Relay) : Relay := ageFaces t (agePit t (ageContents t r))

/- ### Management -/

/-- `ccnl_mgmt_newface` asks for interface -1, so the face is always a new one. -/
def mgmtNewface (now : ℕ) (peer : Peer) (static reflect : Bool) (r : Relay) : Relay :=
  addFace now peer static reflect r

/-- The largest number of a face that `ccnl_mgmt_destroyface` takes, `INT16_MAX`. -/
def maxDestroyed : ℕ := 32767

def mgmtDestroyface (face : ℕ) (r : Relay) : Relay :=
  if face ≤ maxDestroyed ∧ face ∈ r.faces.map (·.faceid) then faceRemove r face else r

def addRoute (pfx : Prefix) (face : ℕ) (r : Relay) : Relay :=
  { r with fib := r.fib ++ [⟨pfx, face⟩], routes := r.routes ++ [⟨pfx, face⟩] }

/-- `answered` tells whether the answer can be put together and sent. If it cannot, the entry that
was put into the FIB is freed and stays in it. -/
def mgmtPrefixreg (pfx : Prefix) (face : ℕ) (answered : Bool) (r : Relay) : Option Relay :=
  if 0 < pfx.comps.length ∧ face ∈ r.faces.map (·.faceid) then
    if answered then some (addRoute pfx face r) else none
  else some r

/-- A file that was taken for an NDN packet. A packet without a name, which the next search of the
store would dereference, is left out. -/
def populateNdntlv (cfg : Config) (now : ℕ) (data : Bytes) (r : Relay) : Option Relay :=
  match dehead ⟨data, data.length⟩ with
  | .error _ => none
  | .ok (.fail _) => some r
  | .ok (.element typ _ c) =>
    if typ = NDN_TLV_Data then
      match bytes2pkt typ data c with
      | .error .bail => some r
      | .error .overrun => none
      | .ok pkt =>
        (NamedPkt.of pkt).map fun p =>
          contentAdd2cache cfg { r with populated := r.populated ++ [pkt] }
            { contentNew now p with static := true }
    else some r

/-- One file of `ccnl_populate_cache`. If there is nothing behind the code switches, the byte that
tells the suite is read behind the end. -/
def populateCache (cfg : Config) (now : ℕ) (data : Bytes) (r : Relay) : Option Relay :=
  if data.length < 2 then some r
  else
    match pkt2suite data with
    | (none, data) => if data = [] then none else some r
    | (some .ndntlv, data) => populateNdntlv cfg now data r
    | (some .localrpc, _) => some r
    | (some _, _) => none

inductive Act where
  | rx (now : ℕ) (peer : Peer) (data : Bytes)
  | ageing (t : ℕ)
  | newface (now : ℕ) (peer : Peer) (static reflect : Bool)
  | destroyface (face : ℕ)
  | prefixreg (pfx : Prefix) (face : ℕ) (answered : Bool)
  | populate (now : ℕ) (data : Bytes)
  deriving DecidableEq

def relayStep (cfg : Config) (r : Relay) : Act → Option Relay
  | .rx now peer data => coreRX cfg now peer data r
  | .ageing t => some (doAgeing t r)
  | .newface now peer static reflect => some (mgmtNewface now peer static reflect r)
  | .destroyface face => some (mgmtDestroyface face r)
  | .prefixreg pfx face answered => mgmtPrefixreg pfx face answered r
  | .populate now data => populateCache cfg now data r

end PepDna.Ndn
