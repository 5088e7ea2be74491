import PepDna.Basic
import PepDna.Chunks

/-!
# Writing to a RINA flow (rina.c:108-154, 257-293, normal-ipcp.c:931-938)

`pepdna_flow_write` cuts a buffer into data units of at most the size the IPC
process of the flow reports and writes them one after the other. The kernel's
answers to `du_create` and `du_write` are inputs. The loop is a function with
fuel; a call terminates if some fuel suffices.
-/

namespace PepDna.Rina

def EIO : Int := 5
def EBADF : Int := 9
def ESHUTDOWN : Int := 108

/-- `normal_max_sdu_size`; `config` is that of the EFCP container, if both pointers are set. -/
def normalMaxSduSize (config : Option ℕ) : ℕ := config.getD 0

/-- A flow: its state, and what `max_sdu_size` of its IPC process answers. -/
structure IpcpFlow where
  state : Int
  maxSduSize : ℕ
  deriving Repr, DecidableEq

/-- One turn of the loop: `du_create` returns NULL, or `du_write` returns `rc`. -/
inductive DuSend where
  | noDu
  | write (rc : Int)
  deriving Repr, DecidableEq

def DuSend.accepted : DuSend → Bool
  | .noDu => false
  | .write rc => decide (rc = 0)

/-- The loop of `pepdna_flow_write` and its return value, with the data units accepted so far. -/
def flowWriteLoop (maxDuSize : ℕ) (o : ℕ → DuSend) :
    ℕ → ℕ → Bytes → ℕ → List Bytes → Option (Int × List Bytes)
  | 0, _, _, _, _ => none
  | fuel + 1, i, left, sent, dus =>
    let out (rc : Int) : Option (Int × List Bytes) := some (if sent ≠ 0 then sent else rc, dus)
    if left = [] then out 0
    else
      let du := left.take maxDuSize
      match o i with
      | .noDu => out (-ENOMEM)
      | .write rc =>
        if rc ≠ 0 then out (- EIO)
        else flowWriteLoop maxDuSize o fuel (i + 1) (left.drop maxDuSize) (sent + du.length)
          (dus ++ [du])

def pepdnaFlowWrite (flow : Option IpcpFlow) (o : ℕ → DuSend) (fuel : ℕ) (buf : Bytes) :
    Option (Int × List Bytes) :=
  match flow with
  | none => some (-EBADF, [])
  | some f =>
    if f.state < 0 then some (-ESHUTDOWN, [])
    else flowWriteLoop f.maxSduSize o fuel 0 buf 0 []

/-- What precedes the write: no buffer, a `kernel_recvmsg` that returns no bytes, or some bytes. -/
inductive RecvResult where
  | nomem
  | ret (rc : Int)
  | read (bs : Bytes)
  deriving Repr, DecidableEq

/-- `pepdna_con_i2rina_fwd`, with the data units accepted during the call. -/
def pepdnaConI2rinaFwd (flow : Option IpcpFlow) (r : RecvResult) (o : ℕ → DuSend) (fuel : ℕ) :
    Option (Int × List Bytes) :=
  match r with
  | .nomem => some (-ENOMEM, [])
  | .ret rc => some (rc, [])
  | .read bs =>
    (pepdnaFlowWrite flow o fuel bs).map fun w => (if w.1 < 0 then -1 else bs.length, w.2)

/- ### The loop against the pieces of the buffer -/

theorem flowWriteLoop_accepted (m : ℕ) (o : ℕ → DuSend) (fuel i : ℕ) (b : Byte) (bs : Bytes)
    (sent : ℕ) (dus : List Bytes) (h : (o i).accepted = true) :
    flowWriteLoop m o (fuel + 1) i (b :: bs) sent dus =
      flowWriteLoop m o fuel (i + 1) ((b :: bs).drop m) (sent + ((b :: bs).take m).length)
        (dus ++ [(b :: bs).take m]) := by
  cases ho : o i with
  | noDu =>
    rw [ho] at h
    cases h
  | write rc =>
    rw [ho] at h
    have hrc : rc = 0 := of_decide_eq_true h
    simp [flowWriteLoop, ho, hrc]

theorem flowWriteLoop_refused (m : ℕ) (o : ℕ → DuSend) (fuel i : ℕ) (b : Byte) (bs : Bytes)
    (sent : ℕ) (dus : List Bytes) (h : (o i).accepted = false) :
    ∃ rc < 0, flowWriteLoop m o (fuel + 1) i (b :: bs) sent dus =
      some (if sent ≠ 0 then (sent : Int) else rc, dus) := by
  cases ho : o i with
  | noDu => exact ⟨-ENOMEM, by decide, by simp [flowWriteLoop, ho]⟩
  | write rc =>
    rw [ho] at h
    have hrc : rc ≠ 0 := of_decide_eq_false h
    exact ⟨- EIO, by decide, by simp [flowWriteLoop, ho, hrc]⟩

/- The units accepted are the pieces taken, and the loop ends when they do. An error comes back
only if no byte was accepted. -/
theorem flowWriteLoop_pieces (m : ℕ) (o : ℕ → DuSend) (fuel i : ℕ) (left : Bytes)
    (dus : List Bytes) :
    (Chunks.pieces m (fun j => (o j).accepted) fuel i left = none ∧
        flowWriteLoop m o fuel i left dus.flatten.length dus = none) ∨
      ∃ l d rc, Chunks.pieces m (fun j => (o j).accepted) fuel i left = some (l, d) ∧
        flowWriteLoop m o fuel i left dus.flatten.length dus = some (rc, dus ++ l) ∧
        (rc < 0 ↔ d = false ∧ (dus ++ l).flatten = []) := by
  induction fuel generalizing i left dus with
  | zero => exact Or.inl ⟨rfl, rfl⟩
  | succ fuel ih =>
    cases left with
    | nil =>
      refine Or.inr ⟨[], true, _, rfl, by rw [List.append_nil]; rfl, ?_⟩
      refine iff_of_false ?_ (by simp)
      split <;> omega
    | cons b bs =>
      cases hacc : (o i).accepted with
      | false =>
        obtain ⟨rc, hrc, hloop⟩ :=
          flowWriteLoop_refused m o fuel i b bs dus.flatten.length dus hacc
        refine Or.inr ⟨[], false, _, by simp [Chunks.pieces, hacc],
          by rw [List.append_nil]; exact hloop, ?_⟩
        rw [List.append_nil]
        by_cases h0 : dus.flatten = []
        · simp [h0, hrc]
        · have hpos := List.length_pos_of_ne_nil h0
          rw [if_pos (by omega)]
          exact iff_of_false (by omega) fun hd => h0 hd.2
      | true =>
        have hsent : (dus ++ [(b :: bs).take m]).flatten.length =
            dus.flatten.length + ((b :: bs).take m).length := by simp
        rw [flowWriteLoop_accepted m o fuel i b bs _ dus hacc, ← hsent]
        rcases ih (i + 1) ((b :: bs).drop m) (dus ++ [(b :: bs).take m]) with
          ⟨hp, hloop⟩ | ⟨l, d, rc, hp, hloop, hneg⟩
        · exact Or.inl ⟨by simp only [Chunks.pieces, hacc, if_true, hp, Option.map_none], hloop⟩
        · refine Or.inr ⟨(b :: bs).take m :: l, d, rc, ?_, ?_, ?_⟩
          · simp only [Chunks.pieces, hacc, if_true, hp, Option.map_some]
          · rw [hloop, List.append_assoc]
            rfl
          · rw [hneg, List.append_assoc]
            rfl

/-- The call returns, and if it reports bytes they are what the data units accepted carry. -/
def WritesAll (flow : Option IpcpFlow) (bs : Bytes) (o : ℕ → DuSend) : Prop :=
  (∃ fuel, (pepdnaConI2rinaFwd flow (.read bs) o fuel).isSome) ∧
    ∀ fuel n dus, pepdnaConI2rinaFwd flow (.read bs) o fuel = some (n, dus) → 0 < n →
      n = bs.length ∧ dus.flatten = bs

theorem writesAll_of_error (flow : Option IpcpFlow) (bs : Bytes) (o : ℕ → DuSend) (rc : Int)
    (hrc : rc < 0) (h : ∀ fuel, pepdnaFlowWrite flow o fuel bs = some (rc, [])) :
    WritesAll flow bs o := by
  have hret (fuel : ℕ) : pepdnaConI2rinaFwd flow (.read bs) o fuel = some (-1, []) := by
    simp [pepdnaConI2rinaFwd, h fuel, hrc]
  refine ⟨⟨0, by rw [hret]; rfl⟩, ?_⟩
  intro fuel n dus hn hpos
  rw [hret] at hn
  cases hn
  omega

/- On a flow that can be written to, the call in terms of the pieces. -/
theorem i2rinaFwd_pieces (f : IpcpFlow) (bs : Bytes) (o : ℕ → DuSend) (fuel : ℕ)
    (hf : ¬f.state < 0) :
    pepdnaConI2rinaFwd (some f) (.read bs) o fuel =
      (Chunks.pieces f.maxSduSize (fun j => (o j).accepted) fuel 0 bs).map fun r =>
        (if r.2 = false ∧ r.1.flatten = [] then (-1 : Int) else bs.length, r.1) := by
  rcases flowWriteLoop_pieces f.maxSduSize o fuel 0 bs [] with
    ⟨hp, hloop⟩ | ⟨l, d, rc, hp, hloop, hneg⟩
  · rw [hp]
    simp only [pepdnaConI2rinaFwd, pepdnaFlowWrite, hf, if_false]
    exact congrArg (Option.map _) hloop
  · rw [hp]
    simp only [pepdnaConI2rinaFwd, pepdnaFlowWrite, hf, if_false]
    refine (congrArg (Option.map _) hloop).trans ?_
    simp only [Option.map_some, List.nil_append] at hneg ⊢
    rw [if_congr hneg rfl rfl]

/-- What the call reports is what it has written, unless some but not all pieces were taken. -/
theorem pieces_report_iff (m : ℕ) (ok : ℕ → Bool) (fuel : ℕ) (bs : Bytes) (l : List Bytes)
    (d : Bool) (hp : Chunks.pieces m ok fuel 0 bs = some (l, d)) :
    (0 < (if d = false ∧ l.flatten = [] then (-1 : Int) else bs.length) → l.flatten = bs) ↔
      d = true ∨ l.flatten = [] := by
  cases d with
  | true => exact iff_of_true (fun _ => Chunks.pieces_done_flatten _ _ _ _ hp) (Or.inl rfl)
  | false =>
    have hlt := Chunks.pieces_refused_length _ _ _ _ hp
    by_cases hnil : l.flatten = []
    · simp [hnil]
    · have hne : l.flatten ≠ bs := by
        intro heq
        rw [heq] at hlt
        exact Nat.lt_irrefl _ hlt
      have hpos : 0 < bs.length := by omega
      simp [hnil, hne, hpos]

theorem writesAll_pieces (f : IpcpFlow) (bs : Bytes) (o : ℕ → DuSend) (hf : ¬f.state < 0)
    (hne : bs ≠ []) :
    WritesAll (some f) bs o ↔
      Chunks.AllOrNothing f.maxSduSize (fun j => (o j).accepted) bs := by
  have hpos := List.length_pos_of_ne_nil hne
  have hcall (fuel : ℕ) := i2rinaFwd_pieces f bs o fuel hf
  constructor
  · rintro ⟨⟨fuel, hsome⟩, hall⟩
    rw [hcall, Option.isSome_map] at hsome
    refine ⟨⟨fuel, hsome⟩, ?_⟩
    intro fuel l d hp
    refine (pieces_report_iff _ _ fuel bs l d hp).mp fun hn => ?_
    have hret := hcall fuel
    rw [hp] at hret
    exact (hall fuel _ l hret hn).2
  · rintro ⟨⟨fuel, hsome⟩, hall⟩
    refine ⟨⟨fuel, by rw [hcall, Option.isSome_map]; exact hsome⟩, ?_⟩
    intro fuel n dus hn hn0
    rw [hcall] at hn
    obtain ⟨⟨l, d⟩, hp, heq⟩ := Option.map_eq_some_iff.mp hn
    simp only [Prod.mk.injEq] at heq
    obtain ⟨rfl, rfl⟩ := heq
    refine ⟨?_, (pieces_report_iff _ _ fuel bs l d hp).mpr (hall fuel l d hp) hn0⟩
    split at hn0
    · omega
    · next herr => rw [if_neg herr]

/-- Writing terminates without loss exactly in these cases: there is no flow to write to; data
units carry nothing but one of them fails; or they carry something, and the first one fails or
none of those needed for the buffer does. -/
theorem i2rina_writesAll_iff (flow : Option IpcpFlow) (bs : Bytes) (o : ℕ → DuSend)
    (hne : bs ≠ []) :
    WritesAll flow bs o ↔
      ∀ f, flow = some f → 0 ≤ f.state →
        (f.maxSduSize = 0 ∧ ∃ j, (o j).accepted = false) ∨
          (0 < f.maxSduSize ∧ ((o 0).accepted = false ∨
            ∀ j, j * f.maxSduSize < bs.length → (o j).accepted = true)) := by
  obtain ⟨b, bs', rfl⟩ := List.exists_cons_of_ne_nil hne
  cases flow with
  | none =>
    refine iff_of_true (writesAll_of_error none _ o (-EBADF) (by decide) fun _ => rfl) ?_
    intro f hf
    cases hf
  | some f =>
    by_cases hstate : f.state < 0
    · refine iff_of_true (writesAll_of_error (some f) _ o (-ESHUTDOWN) (by decide) ?_) ?_
      · intro fuel
        simp only [pepdnaFlowWrite, hstate, if_true]
      · intro f' hf hge
        cases hf
        omega
    · have hforall (P : IpcpFlow → Prop) :
          (∀ f', some f = some f' → 0 ≤ f'.state → P f') ↔ P f := by
        constructor
        · exact fun h => h f rfl (by omega)
        · intro h f' hf _
          cases hf
          exact h
      rw [writesAll_pieces f _ o hstate hne, hforall]
      rcases Nat.eq_zero_or_pos f.maxSduSize with h0 | hpos
      · rw [h0, Chunks.allOrNothing_zero]
        simp
      · have hne0 : f.maxSduSize ≠ 0 := by omega
        rw [Chunks.allOrNothing_pos hpos]
        simp [hne0, hpos]

theorem twoUnits_writesAll : WritesAll (some ⟨1, 2⟩) [1, 2, 3] fun _ => .write 0 := by
  refine (i2rina_writesAll_iff (some ⟨1, 2⟩) [1, 2, 3] (fun _ => .write 0) (by decide)).mpr ?_
  intro f hf _
  cases hf
  exact Or.inr ⟨by decide, Or.inr fun _ _ => rfl⟩

/- The second of two data units is refused: the call reports all three bytes. -/
def secondRefused : ℕ → DuSend
  | 0 => .write 0
  | _ + 1 => .write (-1)

/-- While the IPC process has no EFCP configuration, a write that meets no failure never ends. -/
theorem i2rina_stuck (state : Int) (hs : ¬state < 0) (b : Byte) (bs : Bytes) (o : ℕ → DuSend)
    (h : ∀ j, (o j).accepted = true) (fuel : ℕ) :
    pepdnaConI2rinaFwd (some ⟨state, normalMaxSduSize none⟩) (.read (b :: bs)) o fuel = none := by
  have hp : Chunks.pieces 0 (fun j => (o j).accepted) fuel 0 (b :: bs) = none :=
    Chunks.pieces_zero_stuck fuel 0 b bs h
  rcases flowWriteLoop_pieces 0 o fuel 0 (b :: bs) [] with ⟨-, hloop⟩ | ⟨l, d, rc, hsome, -⟩
  · simp only [pepdnaConI2rinaFwd, pepdnaFlowWrite, hs, if_false]
    exact congrArg (Option.map _) hloop
  · rw [hp] at hsome
    cases hsome

theorem secondRefused_loses :
    pepdnaConI2rinaFwd (some ⟨1, 2⟩) (.read [1, 2, 3]) secondRefused 3 = some (3, [[1, 2]]) ∧
      ∀ fuel, pepdnaConI2rinaFwd (some ⟨1, normalMaxSduSize none⟩) (.read [1, 2, 3])
        (fun _ => .write 0) fuel = none :=
  ⟨by decide +kernel, i2rina_stuck 1 (by decide) 1 [2, 3] (fun _ => .write 0) fun _ => rfl⟩

end PepDna.Rina
