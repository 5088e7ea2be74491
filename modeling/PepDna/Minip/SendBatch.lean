import PepDna.Chunks
import PepDna.Minip.Peers
import Mathlib.Data.List.Nodup

/-!
# One batch of the forwarding work (minip.c:571-670, 1094-1137)

`pepdna_con_i2minip_fwd` reads a buffer and `pepdna_minip_conn_snd_data` sends it
packet by packet. Here the call is taken by itself, from the read to its return,
with an arbitrary outcome for every packet.
-/

namespace PepDna.Minip

/-- `pepdna_minip_skb_send` returns a non-negative value. -/
def SkbSend.succeeds : SkbSend → Bool
  | .xmit rc => decide (0 ≤ rc)
  | _ => false

/-- The loop of `pepdna_minip_conn_snd_data` for at most `fuel` packets. `o i` is the outcome of
the `i`-th call of `pepdna_minip_skb_send` and the time of it. -/
def sndBatch (o : ℕ → SkbSend × ℕ) : ℕ → ℕ → Con → Con
  | 0, _, c => c
  | fuel + 1, i, c =>
    match c.pc with
    | .send left sent =>
      let d := sndData c left sent (o i).1 (o i).2
      match d.pc with
      | .advance left sent => sndBatch o fuel (i + 1) (sndAdvance d left sent)
      | _ => d
    | _ => c

/-- What `pepdna_con_i2minip_fwd` returns, `bs` being the bytes it read. -/
def i2minipReturn (c : Con) (bs : Bytes) : Int :=
  match c.pc with
  | .delete rc => rc
  | _ => bs.length

theorem sndData_success (c : Con) (left : Bytes) (sent now : ℕ) (o : SkbSend)
    (h : o.succeeds = true) :
    sndData c left sent o now =
      { transmit { touchRtxq c with rtxq := rtxqueuePush c.rtxq (dataPdu c (left.take MINIP_MSS) now) }
          (.data (dataPdu c (left.take MINIP_MSS) now)) with
        pc := .advance (left.drop MINIP_MSS) (sent + (left.take MINIP_MSS).length)
        sdus := c.sdus ++ [left.take MINIP_MSS] } := by
  cases o with
  | xmit rc =>
    have hrc : 0 ≤ rc := of_decide_eq_true h
    have hneg : ¬rc < 0 := by omega
    simp only [sndData, pepdnaMinipSkbSend, hneg, if_false]
    rfl
  | _ => cases h

/- A failed send: the entry of the packet is in the queue only if the device refused it. -/
theorem sndData_failure (c : Con) (left : Bytes) (sent now : ℕ) (o : SkbSend)
    (h : o.succeeds = false) :
    (sndData c left sent o now).pc = (if sent ≠ 0 then .test else .delete (-1)) ∧
      (sndData c left sent o now).nextSeq = c.nextSeq ∧
      ((sndData c left sent o now).rtxq = c.rtxq ∨
        (sndData c left sent o now).rtxq =
          rtxqueuePush c.rtxq (dataPdu c (left.take MINIP_MSS) now)) := by
  have hneg : (pepdnaMinipSkbSend c (left.take MINIP_MSS) o now).2 < 0 := by
    cases o with
    | xmit rc =>
      have hrc : ¬0 ≤ rc := of_decide_eq_false h
      simp only [pepdnaMinipSkbSend]
      omega
    | _ => simp [pepdnaMinipSkbSend, ENOMEM]
  have hskb : (pepdnaMinipSkbSend c (left.take MINIP_MSS) o now).1.nextSeq = c.nextSeq ∧
      ((pepdnaMinipSkbSend c (left.take MINIP_MSS) o now).1.rtxq = c.rtxq ∨
        (pepdnaMinipSkbSend c (left.take MINIP_MSS) o now).1.rtxq =
          rtxqueuePush c.rtxq (dataPdu c (left.take MINIP_MSS) now)) := by
    cases o with
    | xmit rc => exact ⟨rfl, Or.inr rfl⟩
    | _ => exact ⟨rfl, Or.inl rfl⟩
  simp only [sndData, hneg, if_true]
  by_cases hs : sent ≠ 0
  · rw [if_pos hs, if_pos hs]
    exact ⟨rfl, hskb⟩
  · rw [if_neg hs, if_neg hs]
    exact ⟨rfl, hskb⟩

/- The loop is a run of the work. -/
theorem sndBatch_run (o : ℕ → SkbSend × ℕ) (fuel i : ℕ) (c : Con) :
    ∃ is, Lts.run workStep c is = some (sndBatch o fuel i c) := by
  induction fuel generalizing i c with
  | zero => exact ⟨[], rfl⟩
  | succ fuel ih =>
    unfold sndBatch
    split
    · next left sent hpc =>
      have hsend : workStep c (.skb (o i).1 (o i).2) =
          some (sndData c left sent (o i).1 (o i).2) := by
        simp only [workStep, hpc]
      dsimp only
      split
      · next left' sent' hadv =>
        obtain ⟨is, his⟩ := ih (i + 1) (sndAdvance (sndData c left sent (o i).1 (o i).2) left' sent')
        refine ⟨.skb (o i).1 (o i).2 :: .tau :: is, ?_⟩
        rw [Lts.run_cons, hsend, Option.bind_some, Lts.run_cons]
        simp only [workStep, hadv, Option.bind_some]
        exact his
      · refine ⟨[.skb (o i).1 (o i).2], ?_⟩
        rw [Lts.run_cons, hsend]
        rfl
    · exact ⟨[], rfl⟩

/- Between `c` and `c'` the packets `l` were counted, and `l ++ extra` were put into the queue. -/
structure Appended (c c' : Con) (l extra : List Bytes) : Prop where
  queue : ∃ new, c'.rtxq.head = c.rtxq.head ++ new ∧ new.map (fun e => e.skb.sdu) = l ++ extra ∧
    new.map (fun e => e.skb.seq) =
      (List.range (l ++ extra).length).map fun j => u32 (c.nextSeq + j)
  next : c'.nextSeq = u32 (c.nextSeq + l.length)

theorem u32_u32_add (n j : ℕ) : u32 (u32 n + j) = u32 (n + j) := Nat.mod_add_mod n _ j

theorem appended_cons (c d c' : Con) (e : RtxqEntry) (l extra : List Bytes)
    (hword : c.nextSeq < 4294967296) (hq : d.rtxq.head = c.rtxq.head ++ [e])
    (hseq : e.skb.seq = c.nextSeq) (hn : d.nextSeq = u32 (c.nextSeq + 1))
    (h : Appended d c' l extra) : Appended c c' (e.skb.sdu :: l) extra := by
  obtain ⟨⟨new, hnew, hsdu, hseqs⟩, hnext⟩ := h
  refine ⟨⟨e :: new, ?_, ?_, ?_⟩, ?_⟩
  · rw [hnew, hq, List.append_assoc]
    rfl
  · rw [List.map_cons, hsdu]
    rfl
  · rw [List.map_cons, hseqs, hseq, List.cons_append, List.length_cons, List.range_succ_eq_map,
      List.map_cons, Nat.add_zero, u32_of_lt _ hword, List.map_map]
    congr 1
    refine List.map_congr_left fun j _ => ?_
    rw [hn, u32_u32_add, Function.comp_apply, Nat.succ_eq_add_one, Nat.add_right_comm,
      Nat.add_assoc]
  · rw [hnext, hn, u32_u32_add, List.length_cons, Nat.add_right_comm, Nat.add_assoc]

/-- The first packet fails: at most its entry is left behind. -/
theorem sndBatch_refused (o : ℕ → SkbSend × ℕ) (fuel i : ℕ) (c : Con) (left : Bytes) (sent : ℕ)
    (hpc : c.pc = .send left sent) (hword : c.nextSeq < 4294967296)
    (hs : (o i).1.succeeds = false) :
    ∃ extra, Appended c (sndBatch o (fuel + 1) i c) [] extra ∧ extra.length ≤ 1 ∧
      (sndBatch o (fuel + 1) i c).pc = (if sent ≠ 0 then .test else .delete (-1)) := by
  obtain ⟨hpc', hn, hq⟩ := sndData_failure c left sent (o i).2 (o i).1 hs
  have hbatch : sndBatch o (fuel + 1) i c = sndData c left sent (o i).1 (o i).2 := by
    simp only [sndBatch, hpc]
    rw [hpc']
    split <;> rename_i heq
    · split at heq <;> cases heq
    · rfl
  have hnext : c.nextSeq = u32 (c.nextSeq + 0) := (u32_of_lt _ hword).symm
  rw [hbatch]
  rcases hq with hq | hq
  · refine ⟨[], ⟨⟨[], ?_, rfl, rfl⟩, hn.trans hnext⟩, Nat.zero_le _, hpc'⟩
    rw [hq, List.append_nil]
  · refine ⟨[left.take MINIP_MSS],
      ⟨⟨[⟨dataPdu c (left.take MINIP_MSS) (o i).2, 0⟩], ?_, rfl, ?_⟩, hn.trans hnext⟩, le_rfl, hpc'⟩
    · rw [hq]
      rfl
    · exact congrArg (fun n => [n]) hnext

/-- The first packet goes out, and the loop goes on from `d`. -/
theorem sndBatch_accepted (o : ℕ → SkbSend × ℕ) (fuel i : ℕ) (c : Con) (left : Bytes) (sent : ℕ)
    (hpc : c.pc = .send left sent) (hs : (o i).1.succeeds = true) :
    ∃ d e, sndBatch o (fuel + 1) i c = sndBatch o fuel (i + 1) d ∧
      d.rtxq.head = c.rtxq.head ++ [e] ∧ e.skb.sdu = left.take MINIP_MSS ∧
      e.skb.seq = c.nextSeq ∧ d.nextSeq = u32 (c.nextSeq + 1) ∧
      d.pc = (if left.drop MINIP_MSS = [] then .test
        else .send (left.drop MINIP_MSS) (sent + (left.take MINIP_MSS).length)) := by
  have hdata := sndData_success c left sent (o i).2 (o i).1 hs
  refine ⟨sndAdvance (sndData c left sent (o i).1 (o i).2) (left.drop MINIP_MSS)
    (sent + (left.take MINIP_MSS).length), ⟨dataPdu c (left.take MINIP_MSS) (o i).2, 0⟩, ?_, ?_, rfl,
    rfl, ?_, ?_⟩
  · simp only [sndBatch, hpc, hdata]
  · rw [hdata]
    rfl
  · rw [hdata]
    rfl
  · rfl

theorem sndBatch_test (o : ℕ → SkbSend × ℕ) (fuel i : ℕ) (c : Con) (hpc : c.pc = .test) :
    sndBatch o fuel i c = c := by
  cases fuel with
  | zero => rfl
  | succ fuel => simp only [sndBatch, hpc]

/- The whole loop against the pieces of the buffer. -/
theorem sndBatch_appended (o : ℕ → SkbSend × ℕ) (fuel i : ℕ) (c : Con) (left : Bytes) (sent : ℕ)
    (hpc : c.pc = .send left sent) (hne : left ≠ []) (hfuel : left.length ≤ fuel)
    (hword : c.nextSeq < 4294967296) :
    ∃ l extra done,
      Chunks.pieces MINIP_MSS (fun j => (o j).1.succeeds) (fuel + 1) i left = some (l, done) ∧
      Appended c (sndBatch o fuel i c) l extra ∧ extra.length ≤ 1 ∧ (done = true → extra = []) ∧
      (sndBatch o fuel i c).pc =
        (if done = true ∨ sent ≠ 0 ∨ l ≠ [] then .test else .delete (-1)) := by
  induction fuel generalizing i c left sent with
  | zero => exact absurd (List.length_eq_zero_iff.mp (Nat.le_zero.mp hfuel)) hne
  | succ fuel ih =>
    obtain ⟨b, bs, rfl⟩ := List.exists_cons_of_ne_nil hne
    cases hs : (o i).1.succeeds with
    | false =>
      obtain ⟨extra, happ, hx, hpc'⟩ := sndBatch_refused o fuel i c (b :: bs) sent hpc hword hs
      refine ⟨[], extra, false, ?_, happ, hx, by simp, ?_⟩
      · simp only [Chunks.pieces, hs, Bool.false_eq_true, if_false]
      · rw [hpc']
        simp
    | true =>
      obtain ⟨d, e, hbatch, hdq, hsdu, hseq, hdn, hdpc⟩ :=
        sndBatch_accepted o fuel i c (b :: bs) sent hpc hs
      have hdw : d.nextSeq < 4294967296 := hdn ▸ Nat.mod_lt _ (by decide)
      have hpieces (r : List Bytes) (done : Bool)
          (hr : Chunks.pieces MINIP_MSS (fun j => (o j).1.succeeds) (fuel + 1) (i + 1)
            ((b :: bs).drop MINIP_MSS) = some (r, done)) :
          Chunks.pieces MINIP_MSS (fun j => (o j).1.succeeds) (fuel + 1 + 1) i (b :: bs) =
            some (e.skb.sdu :: r, done) := by
        simp only [Chunks.pieces, hs, if_true, hsdu]
        rw [hr]
        rfl
      rw [hbatch]
      by_cases hleft : (b :: bs).drop MINIP_MSS = []
      · -- the last packet: the loop ends
        rw [if_pos hleft] at hdpc
        rw [sndBatch_test o fuel (i + 1) d hdpc]
        refine ⟨_, [], true, hpieces [] true (by rw [hleft]; rfl), ?_, by simp, by simp, ?_⟩
        · refine appended_cons c d d e [] [] hword hdq hseq hdn ⟨⟨[], ?_, rfl, rfl⟩, ?_⟩
          · rw [List.append_nil]
          · rw [List.length_nil, Nat.add_zero, u32_of_lt _ hdw]
        · rw [hdpc]
          simp
      · rw [if_neg hleft] at hdpc
        have hlen : ((b :: bs).drop MINIP_MSS).length ≤ fuel := by
          rw [List.length_drop, List.length_cons]
          rw [List.length_cons] at hfuel
          have hM : MINIP_MSS = 1481 := rfl
          omega
        obtain ⟨l, extra, done, hr, happ, hx, hdone, hpc'⟩ := ih (i + 1) d _ _ hdpc hleft hlen hdw
        have hpos : sent + ((b :: bs).take MINIP_MSS).length ≠ 0 := by
          simp [MINIP_MSS]
        refine ⟨_, extra, done, hpieces l done hr,
          appended_cons c d _ e l extra hword hdq hseq hdn happ, hx, hdone, ?_⟩
        rw [hpc', if_pos (Or.inr (Or.inl hpos)), if_pos (Or.inr (Or.inr (by simp)))]

/-- The entries appended in the call carry the numbers from the old `next_seq` up to the new one,
and together the bytes read. -/
def NothingLost (c c' : Con) (bs : Bytes) : Prop :=
  ∃ new, c'.rtxq.head = c.rtxq.head ++ new ∧ c'.nextSeq = u32 (c.nextSeq + new.length) ∧
    new.map (fun e => e.skb.seq) = (List.range new.length).map (fun j => u32 (c.nextSeq + j)) ∧
    (new.map fun e => e.skb.seq).Nodup ∧ (new.map fun e => e.skb.sdu).flatten = bs

theorem nodup_u32_range (n k : ℕ) (hk : k ≤ 4294967296) :
    ((List.range k).map fun j => u32 (n + j)).Nodup := by
  refine List.Nodup.map_on ?_ List.nodup_range
  intro a ha b hb hab
  rw [List.mem_range] at ha hb
  unfold u32 at hab
  omega

/-- A refused packet in the queue takes a number that is not counted. -/
theorem appended_nothingLost_iff (c c' : Con) (l extra : List Bytes) (bs : Bytes)
    (h : Appended c c' l extra) (hx : extra.length ≤ 1) (hl : l.length < 4294967295) :
    NothingLost c c' bs ↔ extra = [] ∧ l.flatten = bs := by
  obtain ⟨⟨new, hnew, hsdu, hseqs⟩, hnext⟩ := h
  have hlen : new.length = l.length + extra.length := by
    have hl := congrArg List.length hsdu
    rw [List.length_map, List.length_append] at hl
    exact hl
  constructor
  · rintro ⟨new', hq, hn, -, -, hflat⟩
    have hsame : new' = new := List.append_cancel_left (hq.symm.trans hnew)
    rw [hsame] at hn hflat
    rw [hn, hlen] at hnext
    have hextra : extra = [] := by
      refine List.length_eq_zero_iff.mp ?_
      unfold u32 at hnext
      omega
    rw [hsdu, hextra, List.append_nil] at hflat
    exact ⟨hextra, hflat⟩
  · rintro ⟨rfl, hflat⟩
    rw [List.append_nil] at hsdu hseqs
    rw [List.length_nil, Nat.add_zero] at hlen
    rw [← hlen] at hseqs hnext
    refine ⟨new, hnew, hnext, hseqs, ?_, ?_⟩
    · rw [hseqs]
      exact nodup_u32_range _ _ (by omega)
    · rw [hsdu]
      exact hflat

theorem i2minipReturn_pos_iff (c : Con) (bs : Bytes) (p : Prop) [Decidable p] (hne : bs ≠ [])
    (hpc : c.pc = if p then .test else .delete (-1)) : 0 < i2minipReturn c bs ↔ p := by
  have hpos := List.length_pos_of_ne_nil hne
  by_cases hp : p
  · rw [if_pos hp] at hpc
    simp only [i2minipReturn, hpc, hp, iff_true]
    omega
  · rw [if_neg hp] at hpc
    simp only [i2minipReturn, hpc, hp, iff_false]
    omega

theorem workStep_read (c c₁ : Con) (bs : Bytes) (n : ℕ) (hpc : c.pc = .recvmsg n)
    (h : workStep c (.read bs) = some c₁) :
    bs ≠ [] ∧ bs.length ≤ n ∧ c₁ = { c with rd := c.rd ++ bs, pc := .send bs 0 } := by
  simp only [workStep, hpc] at h
  split at h
  · next hb =>
    cases h
    exact ⟨hb.1, hb.2, rfl⟩
  · cases h

/-- A call that reads `bs` with a window `c.window` either loses nothing, or reports progress and
loses bytes; the latter exactly if the first packet goes out and a later one does not. -/
theorem i2minip_nothingLost_iff (c c₁ : Con) (bs : Bytes) (o : ℕ → SkbSend × ℕ)
    (hpc : c.pc = .recvmsg (MINIP_MSS * c.window)) (hwin : c.window < 256)
    (hword : c.nextSeq < 4294967296) (hread : workStep c (.read bs) = some c₁) :
    (0 < i2minipReturn (sndBatch o bs.length 0 c₁) bs →
        NothingLost c₁ (sndBatch o bs.length 0 c₁) bs) ↔
      (o 0).1.succeeds = false ∨ ∀ j, j * MINIP_MSS < bs.length → (o j).1.succeeds = true := by
  obtain ⟨hne, hle, rfl⟩ := workStep_read c c₁ bs _ hpc hread
  obtain ⟨l, extra, done, hp, happ, hx, hdone, hpc'⟩ := sndBatch_appended o bs.length 0
    { c with rd := c.rd ++ bs, pc := .send bs 0 } bs 0 rfl hne le_rfl hword
  have hshort : l.length < 4294967295 := by
    have hM : MINIP_MSS = 1481 := rfl
    have hmul : MINIP_MSS * c.window ≤ MINIP_MSS * 255 := Nat.mul_le_mul_left _ (by omega)
    have hl := Chunks.pieces_length_le (by decide) _ _ _ _ _ hp
    omega
  have hall := Chunks.pieces_done_iff _ _ _ _ _ hp
  simp only [Nat.zero_add] at hall
  have hnil : l = [] ↔ (o 0).1.succeeds = false := by
    obtain ⟨b, bs', rfl⟩ := List.exists_cons_of_ne_nil hne
    exact Chunks.pieces_eq_nil_iff _ _ _ _ _ _ hp
  rw [i2minipReturn_pos_iff _ bs _ hne hpc', appended_nothingLost_iff _ _ l extra bs happ hx hshort,
    ← hall, ← hnil]
  cases done with
  | true => exact iff_of_true (fun _ => ⟨hdone rfl, Chunks.pieces_done_flatten _ _ _ _ hp⟩) (Or.inr rfl)
  | false =>
    -- something is missing, so the call must not report progress
    have hmiss : l.flatten ≠ bs := by
      intro heq
      have hlt := Chunks.pieces_refused_length _ _ _ _ hp
      rw [heq] at hlt
      exact lt_irrefl _ hlt
    simp [hmiss]

/- The open connection about to read with a window of twelve packets. -/
def readyToRead : Con :=
  (Lts.run workStep (openCon .tcp2minip sampleSyn) [.tau, .tau, .tau]).getD
    (openCon .tcp2minip sampleSyn)

def afterRead (bs : Bytes) : Con := (workStep readyToRead (.read bs)).getD readyToRead

theorem twoBytes_nothingLost :
    0 < i2minipReturn (sndBatch (fun _ => (.xmit 0, 5)) 2 0 (afterRead [1, 2])) [1, 2] ∧
      NothingLost (afterRead [1, 2]) (sndBatch (fun _ => (.xmit 0, 5)) 2 0 (afterRead [1, 2]))
        [1, 2] := by
  have hret : 0 < i2minipReturn (sndBatch (fun _ => (.xmit 0, 5)) 2 0 (afterRead [1, 2])) [1, 2] := by
    decide +kernel
  exact ⟨hret, (i2minip_nothingLost_iff readyToRead (afterRead [1, 2]) [1, 2] (fun _ => (.xmit 0, 5))
    (by decide +kernel) (by decide +kernel) (by decide +kernel) (by decide +kernel)).mpr
    (Or.inr fun _ _ => rfl) hret⟩

/- One byte more than a packet is read, and the second packet finds no memory. -/
def secondFails : ℕ → SkbSend × ℕ
  | 0 => (.xmit 0, 5)
  | _ + 1 => (.allocFail, 5)

def mssPlusOne : Bytes := List.replicate 1482 1

def secondFailsCon : Con := sndBatch secondFails 1482 0 (afterRead mssPlusOne)

theorem secondFails_loses :
    workStep readyToRead (.read mssPlusOne) = some (afterRead mssPlusOne) ∧
      i2minipReturn secondFailsCon mssPlusOne = 1482 ∧
      (afterRead mssPlusOne).rtxq.head = [] ∧
      (secondFailsCon.rtxq.head.map fun e => e.skb.sdu).flatten.length = 1481 := by
  refine ⟨by decide +kernel, by decide +kernel, by decide +kernel, by decide +kernel⟩

end PepDna.Minip
