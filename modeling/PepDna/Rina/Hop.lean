import PepDna.Rina.FlowRead
import PepDna.Tcp.Machine

/-!
# From client to server over a RINA flow (rina.c:108-154, 213-293, 390-432)

The TCP2RINA proxy cuts what it reads into data units, the flow carries them in order, and the
RINA2TCP proxy writes them to the server. `wire` holds the data units the sending IPC process has
accepted and the far end has not yet been given. A call of `pepdna_con_i2rina_fwd` is one step:
nothing at the far end acts on it.
-/

namespace PepDna.Rina.Hop

open Tcp (MAX_BUF_SIZE)
open FlowRead (Rx Act rxStep kfaDuPost MAX_SDU_SIZE unwritten)

/- `lflag` is that of the sending proxy, `rd` what its work has read. -/
structure Path where
  lflag : Bool
  rd : Bytes
  wire : List Bytes
  rx : Rx
  deriving Repr, DecidableEq

def start : Path := ⟨true, [], [], FlowRead.queued⟩

inductive HopAct where
  | fwd (r : RecvResult) (o : ℕ → DuSend) (fuel : ℕ)
  | deliver
  | far (a : Act)

def received : RecvResult → Bytes
  | .read bs => bs
  | _ => []

/-- What `kernel_recvmsg` can answer. -/
def Possible : RecvResult → Prop
  | .nomem => True
  | .ret rc => rc ≤ 0
  | .read bs => bs ≠ [] ∧ bs.length ≤ MAX_BUF_SIZE

instance : DecidablePred Possible
  | .nomem => isTrue trivial
  | .ret rc => inferInstanceAs (Decidable (rc ≤ 0))
  | .read bs => inferInstanceAs (Decidable (bs ≠ [] ∧ bs.length ≤ MAX_BUF_SIZE))

/-- After a call of `pepdna_con_i2rina_fwd` in `pepdna_con_i2r_work`: on an error other than
`-EAGAIN` the connection is closed. -/
def fwdDone (s : Path) (r : RecvResult) (w : Int × List Bytes) : Path :=
  { s with
    lflag := if 0 < w.1 ∨ w.1 = -EAGAIN then s.lflag else false
    rd := s.rd ++ received r
    wire := s.wire ++ w.2 }

def isPost : Act → Bool
  | .post _ => true
  | _ => false

def hopStep (flow : IpcpFlow) (s : Path) : HopAct → Option Path
  | .fwd r o fuel =>
    if s.lflag = true ∧ Possible r then (pepdnaConI2rinaFwd (some flow) r o fuel).map (fwdDone s r)
    else none
  | .deliver =>
    match s.wire with
    | [] => none
    | du :: wire => some { s with wire := wire, rx := kfaDuPost s.rx du }
  | .far a => if isPost a then none else (rxStep s.rx a).map fun rx => { s with rx := rx }

/-- The IPC process takes all data units of a buffer, or refuses the first one. -/
def TakesAll (m : ℕ) : HopAct → Prop
  | .fwd (.read bs) o _ => (o 0).accepted = false ∨ ∀ j < bs.length, j * m < bs.length →
      (o j).accepted = true
  | _ => True

/- ### One call of the sender -/

theorem fwd_units (flow : IpcpFlow) (bs : Bytes) (o : ℕ → DuSend) (fuel : ℕ) (rc : Int)
    (dus : List Bytes) (hf : 0 ≤ flow.state) (hm : 0 < flow.maxSduSize) (hne : bs ≠ [])
    (ho : TakesAll flow.maxSduSize (.fwd (.read bs) o fuel))
    (h : pepdnaConI2rinaFwd (some flow) (.read bs) o fuel = some (rc, dus)) :
    (∀ du ∈ dus, du.length ≤ flow.maxSduSize) ∧
      ((0 < rc ∧ dus.flatten = bs) ∨ (rc = -1 ∧ dus.flatten = [])) := by
  rw [i2rinaFwd_pieces flow bs o fuel (by omega)] at h
  obtain ⟨⟨l, d⟩, hp, heq⟩ := Option.map_eq_some_iff.mp h
  obtain ⟨rfl, rfl⟩ := Prod.mk.inj heq
  refine ⟨Chunks.pieces_mem_length_le fuel 0 bs l d hp, ?_⟩
  obtain ⟨b, bs, rfl⟩ := List.exists_cons_of_ne_nil hne
  have hall : Chunks.AllOrNothing flow.maxSduSize (fun j => (o j).accepted) (b :: bs) := by
    rw [Chunks.allOrNothing_pos hm]
    refine ho.imp_right fun hj j hlt => hj j ?_ hlt
    exact Nat.lt_of_le_of_lt (Nat.le_mul_of_pos_right j hm) hlt
  cases d with
  | true =>
    left
    have hflat := Chunks.pieces_done_flatten fuel 0 _ l hp
    refine ⟨?_, hflat⟩
    simp
  | false =>
    right
    rcases hall.2 fuel l false hp with hd | hl
    · cases hd
    · exact ⟨by simp [hl], hl⟩

/- ### What the far end does not change -/

theorem duRead_frame (s : Rx) :
    s.duRead.mapped = s.mapped ∧ s.duRead.state = s.state ∧ s.duRead.posted = s.posted := by
  unfold Rx.duRead
  split
  · exact ⟨rfl, rfl, rfl⟩
  · split
    · exact ⟨rfl, rfl, rfl⟩
    · split
      · exact ⟨rfl, rfl, rfl⟩
      · split
        · exact ⟨rfl, rfl, rfl⟩
        · split
          · dsimp only
            split <;> exact ⟨rfl, rfl, rfl⟩
          · exact ⟨rfl, rfl, rfl⟩

theorem duDestroy_frame (s : Rx) (kept : Bool) :
    (s.duDestroy kept).mapped = s.mapped ∧ (s.duDestroy kept).state = s.state ∧
      (s.duDestroy kept).posted = s.posted := by
  unfold Rx.duDestroy
  split <;> exact ⟨rfl, rfl, rfl⟩

theorem sendmsg_frame (s : Rx) (kept : Bool) (w : SockWrite) (rc : Int) :
    (s.sendmsg kept w rc).mapped = s.mapped ∧ (s.sendmsg kept w rc).state = s.state ∧
      (s.sendmsg kept w rc).posted = s.posted := by
  unfold Rx.sendmsg
  dsimp only
  split
  · exact ⟨rfl, rfl, rfl⟩
  · exact duDestroy_frame _ kept

theorem work_frame (s s' : Rx) (i : FlowRead.In) (h : FlowRead.r2iWork s i = some s') :
    s'.mapped = s.mapped ∧ s'.state = s.state ∧ s'.posted = s.posted := by
  unfold FlowRead.r2iWork at h
  split at h
  · split at h
    · cases h
      exact ⟨rfl, rfl, rfl⟩
    · cases h
  · cases h
    exact ⟨rfl, rfl, rfl⟩
  · cases h
    exact ⟨rfl, rfl, rfl⟩
  · cases h
    split <;> exact ⟨rfl, rfl, rfl⟩
  · split at h
    · cases h
      exact ⟨rfl, rfl, rfl⟩
    · cases h
  · cases h
    exact ⟨rfl, rfl, rfl⟩
  · split at h
    · cases h
    · cases h
      exact ⟨rfl, rfl, rfl⟩
  · cases h
    split
    · split <;> exact ⟨rfl, rfl, rfl⟩
    · exact ⟨rfl, rfl, rfl⟩
  · cases h
    exact duRead_frame s
  · next kept w rc _ =>
    split at h
    · cases h
      exact sendmsg_frame s kept w rc
    · cases h
  · cases h
    exact ⟨rfl, rfl, rfl⟩
  · cases h
    exact ⟨rfl, rfl, rfl⟩
  · cases h
    exact ⟨rfl, rfl, rfl⟩
  · cases h

/-- A flow that is mapped has not been deallocated. -/
def Live (s : Rx) : Prop := s.mapped = true → s.state ≠ .deallocated

/- A step of the far end that posts nothing. -/
theorem rxStep_frame (s s' : Rx) (a : Act) (hl : Live s) (ha : isPost a = false)
    (h : rxStep s a = some s') :
    s'.posted = s.posted ∧ (s'.mapped = true → s.mapped = true) ∧ Live s' := by
  cases a with
  | work i =>
    obtain ⟨hm, hst, hp⟩ := work_frame s s' i h
    refine ⟨hp, fun h => hm ▸ h, ?_⟩
    rw [Live, hm, hst]
    exact hl
  | post bs => cases ha
  | deallocate =>
    cases h
    unfold FlowRead.kfaFlowDeallocate
    split
    · exact ⟨rfl, fun h => (nomatch h), fun h => (nomatch h)⟩
    · exact ⟨rfl, id, hl⟩
  | disable =>
    cases h
    split
    · exact ⟨rfl, id, fun _ h => (nomatch h)⟩
    · exact ⟨rfl, id, hl⟩
  | enable =>
    cases h
    split
    · exact ⟨rfl, id, fun _ h => (nomatch h)⟩
    · exact ⟨rfl, id, hl⟩
  | hangup =>
    cases h
    exact ⟨rfl, id, hl⟩

/- ### Runs -/

structure Carried (s : Path) : Prop where
  rx : FlowRead.Inv s.rx
  live : Live s.rx
  small : ∀ du ∈ s.wire, du.length ≤ MAX_SDU_SIZE
  pre : s.rx.posted.flatten <+: s.rd
  sent : s.rx.mapped = true → s.rx.posted.flatten ++ s.wire.flatten <+: s.rd
  even : s.rx.mapped = true → s.lflag = true → s.rd = s.rx.posted.flatten ++ s.wire.flatten

theorem carried_start : Carried start :=
  ⟨FlowRead.inv_queued, fun _ h => (nomatch h), fun _ h => absurd h List.not_mem_nil,
    List.prefix_rfl, fun _ => List.prefix_rfl, fun _ _ => rfl⟩

theorem carried_fwd (flow : IpcpFlow) (s : Path) (r : RecvResult) (o : ℕ → DuSend) (fuel : ℕ)
    (w : Int × List Bytes) (hs : Carried s) (hf : 0 ≤ flow.state) (hm : 0 < flow.maxSduSize)
    (hmax : flow.maxSduSize ≤ MAX_SDU_SIZE) (hopen : s.lflag = true) (hr : Possible r)
    (ho : TakesAll flow.maxSduSize (.fwd r o fuel))
    (h : pepdnaConI2rinaFwd (some flow) r o fuel = some w) : Carried (fwdDone s r w) := by
  obtain ⟨rc, dus⟩ := w
  -- what was taken, and whether the connection stays open
  have hw : (∀ du ∈ dus, du.length ≤ MAX_SDU_SIZE) ∧ (dus.flatten = received r ∨
      (dus.flatten = [] ∧ (0 < rc ∨ rc = -EAGAIN → received r = []))) := by
    cases r with
    | nomem =>
      cases h
      exact ⟨fun du hd => absurd hd List.not_mem_nil, .inl rfl⟩
    | ret rc' =>
      cases h
      exact ⟨fun du hd => absurd hd List.not_mem_nil, .inl rfl⟩
    | read bs =>
      obtain ⟨hlen, hflat⟩ := fwd_units flow bs o fuel rc dus hf hm hr.1 ho h
      refine ⟨fun du hd => Nat.le_trans (hlen du hd) hmax, hflat.imp (fun h => h.2) ?_⟩
      rintro ⟨rfl, hnil⟩
      exact ⟨hnil, fun hrc => absurd hrc (by decide)⟩
  have hsmall : ∀ du ∈ s.wire ++ dus, du.length ≤ MAX_SDU_SIZE := by
    rw [List.forall_mem_append]
    exact ⟨hs.small, hw.1⟩
  have hrd : s.rx.mapped = true → s.rx.posted.flatten ++ (s.wire ++ dus).flatten <+:
      s.rd ++ received r := by
    intro hmap
    rw [hs.even hmap hopen, List.flatten_append, ← List.append_assoc, List.prefix_append_right_inj]
    rcases hw.2 with hall | ⟨hnone, -⟩
    · rw [hall]
    · rw [hnone]
      exact List.nil_prefix
  refine ⟨hs.rx, hs.live, hsmall, hs.pre.trans (List.prefix_append _ _), hrd, fun hmap hopen' => ?_⟩
  have hstay : 0 < rc ∨ rc = -EAGAIN := by
    by_contra hno
    simp only [fwdDone, if_neg hno] at hopen'
    cases hopen'
  change s.rd ++ received r = s.rx.posted.flatten ++ (s.wire ++ dus).flatten
  rw [hs.even hmap hopen, List.flatten_append, List.append_assoc]
  rcases hw.2 with hall | ⟨hnone, hnil⟩
  · rw [hall]
  · rw [hnone, hnil hstay]

theorem carried_deliver (s : Path) (du : Bytes) (wire : List Bytes) (hs : Carried s)
    (hwire : s.wire = du :: wire) :
    Carried { s with wire := wire, rx := kfaDuPost s.rx du } := by
  have hsmall := hs.small
  have hsent := hs.sent
  have heven := hs.even
  rw [hwire] at hsmall hsent heven
  obtain ⟨hdu, hrest⟩ := List.forall_mem_cons.mp hsmall
  have hrx := FlowRead.inv_post s.rx du hs.rx hdu
  by_cases hm : s.rx.mapped = true
  · have hpost : kfaDuPost s.rx du =
        { s.rx with fifo := s.rx.fifo ++ [⟨du, false⟩], posted := s.rx.posted ++ [du] } := by
      rw [kfaDuPost, if_pos ⟨hm, hs.live hm⟩]
    have hflat : (s.rx.posted ++ [du]).flatten ++ wire.flatten =
        s.rx.posted.flatten ++ (du :: wire).flatten := by
      rw [List.flatten_append, List.flatten_singleton, List.flatten_cons, List.append_assoc]
    rw [hpost] at hrx ⊢
    refine ⟨hrx, hs.live, hrest, ?_, fun _ => ?_, fun _ ho => ?_⟩
    · refine List.IsPrefix.trans ?_ (hsent hm)
      rw [← hflat]
      exact List.prefix_append _ _
    · change (s.rx.posted ++ [du]).flatten ++ wire.flatten <+: s.rd
      rw [hflat]
      exact hsent hm
    · change s.rd = (s.rx.posted ++ [du]).flatten ++ wire.flatten
      rw [hflat]
      exact heven hm ho
  · have hpost : kfaDuPost s.rx du = s.rx := by rw [kfaDuPost, if_neg fun h => hm h.1]
    rw [hpost]
    exact ⟨hs.rx, hs.live, hrest, hs.pre, fun h => absurd h hm, fun h => absurd h hm⟩

theorem carried_far (s : Path) (a : Act) (rx : Rx) (hs : Carried s) (ha : isPost a = false)
    (h : rxStep s.rx a = some rx) : Carried { s with rx := rx } := by
  obtain ⟨hp, hm, hl⟩ := rxStep_frame s.rx rx a hs.live ha h
  have hpost : FlowRead.SmallPost a := by
    cases a with
    | post bs => cases ha
    | _ => trivial
  refine ⟨FlowRead.inv_step s.rx a rx hs.rx hpost h, hl, hs.small, ?_, ?_, ?_⟩
  · rw [hp]
    exact hs.pre
  · rw [hp]
    exact fun h => hs.sent (hm h)
  · rw [hp]
    exact fun h ho => hs.even (hm h) ho

theorem carried_step (flow : IpcpFlow) (hf : 0 ≤ flow.state) (hm : 0 < flow.maxSduSize)
    (hmax : flow.maxSduSize ≤ MAX_SDU_SIZE) (s : Path) (a : HopAct) (t : Path) (hs : Carried s)
    (ha : TakesAll flow.maxSduSize a) (h : hopStep flow s a = some t) : Carried t := by
  cases a with
  | fwd r o fuel =>
    simp only [hopStep] at h
    split at h
    · next hc =>
      obtain ⟨w, hw, rfl⟩ := Option.map_eq_some_iff.mp h
      exact carried_fwd flow s r o fuel w hs hf hm hmax hc.1 hc.2 ha hw
    · cases h
  | deliver =>
    simp only [hopStep] at h
    split at h
    · cases h
    · next du wire hwire =>
      cases h
      exact carried_deliver s du wire hs hwire
  | far a =>
    simp only [hopStep] at h
    split at h
    · cases h
    · next ha =>
      obtain ⟨rx, hrx, rfl⟩ := Option.map_eq_some_iff.mp h
      exact carried_far s a rx hs (Bool.eq_false_iff.mpr ha) hrx

/- Two data units from one buffer; the first is with the server before the second has arrived. -/
def oneUnitActs : List HopAct :=
  [.fwd (.read [1, 2, 3]) (fun _ => .write 0) 3, .deliver, .far (.work .tau), .far (.work .tau),
    .far (.work .tau), .far (.work .tau), .far (.work .tau), .far (.work .tau), .far (.work .tau),
    .far (.work (.sendmsg 2))]

def oneUnit : Path := (Lts.run (hopStep ⟨0, 2⟩) start oneUnitActs).getD start

theorem takesAll_oneUnitActs : ∀ a ∈ oneUnitActs, TakesAll 2 a := by
  intro a ha
  simp only [oneUnitActs, List.mem_cons, List.not_mem_nil, or_false] at ha
  rcases ha with rfl | rfl | rfl | rfl | rfl | rfl | rfl | rfl | rfl | rfl
  · exact .inr fun _ _ _ => rfl
  all_goals exact trivial

end PepDna.Rina.Hop
