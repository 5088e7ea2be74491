import Mathlib.Data.List.TakeWhile
import PepDna.Numbering
import PepDna.Rina.Efcp

/-!
# What the sender keeps

The PDUs of `dtp_write` are numbered without a gap. Those not yet sent are in the closed window
queue, and while it holds any the window is closed, so no later PDU passes them; the copies in the
retransmission queue stand in the order of their numbers, so it takes every new one.
-/

open PepDna.Numbering (From from_append)

namespace PepDna.Rina.Efcp

/-! ### The retransmission queue -/

theorem rtxqueuePushNi_back {q : List RtxEntry} {e : RtxEntry}
    (h : ∀ e' ∈ q, e'.pdu.seq < e.pdu.seq) : rtxqueuePushNi q e = some (q ++ [e]) := by
  unfold rtxqueuePushNi
  cases hlast : q.getLast? with
  | none =>
    rw [List.getLast?_eq_none_iff.mp hlast]
    rfl
  | some last =>
    have hlt := h last (List.mem_of_getLast? hlast)
    dsimp only
    rw [if_neg (Nat.ne_of_gt hlt), if_pos hlt]

/-- What `rtxqueue_rtx` does to the entries: each stays, is sent again or is given up. -/
structure Again (cfg : Config) (q q' : List RtxEntry) (out lost : List Pdu) : Prop where
  sub : (q'.map RtxEntry.pdu).Sublist (q.map RtxEntry.pdu)
  kept : ∀ e ∈ q, e.pdu ∈ lost ∨ ∃ e' ∈ q', e'.pdu = e.pdu
  source : ∀ p ∈ out, ∃ e ∈ q, e.pdu = p
  retries : ∀ e' ∈ q', e' ∈ q ∨ ∃ e ∈ q, e.pdu = e'.pdu ∧ e'.retries = e.retries + 1 ∧ e.pdu ∈ out
  lost : ∀ p ∈ lost, ∃ e ∈ q, e.pdu = p ∧ cfg.dataRetransmitMax ≤ e.retries + 1

section Again

variable {cfg : Config} {e : RtxEntry} {q q' : List RtxEntry} {out lost : List Pdu}

/-- Where nothing is due. -/
theorem again_self (cfg : Config) (q : List RtxEntry) : Again cfg q q [] [] where
  sub := List.Sublist.refl _
  kept := fun e he => .inr ⟨e, he, rfl⟩
  source := fun _ hp => absurd hp List.not_mem_nil
  retries := fun _ he => .inl he
  lost := fun _ hp => absurd hp List.not_mem_nil

theorem Again.giveUp (h : Again cfg q q' out lost) (hmax : cfg.dataRetransmitMax ≤ e.retries + 1) :
    Again cfg (e :: q) q' out (e.pdu :: lost) where
  sub := h.sub.trans (List.sublist_cons_self _ _)
  kept := by
    intro x hx
    rcases List.mem_cons.mp hx with rfl | hx
    · exact .inl List.mem_cons_self
    · exact (h.kept x hx).imp_left (List.mem_cons_of_mem _)
  source := by
    intro p hp
    obtain ⟨x, hx, hpdu⟩ := h.source p hp
    exact ⟨x, List.mem_cons_of_mem _ hx, hpdu⟩
  retries := by
    intro x hx
    rcases h.retries x hx with hx | ⟨y, hy, hpdu⟩
    · exact .inl (List.mem_cons_of_mem _ hx)
    · exact .inr ⟨y, List.mem_cons_of_mem _ hy, hpdu⟩
  lost := by
    intro p hp
    rcases List.mem_cons.mp hp with rfl | hp
    · exact ⟨e, List.mem_cons_self, rfl, hmax⟩
    · obtain ⟨x, hx, hpdu⟩ := h.lost p hp
      exact ⟨x, List.mem_cons_of_mem _ hx, hpdu⟩

theorem Again.resend (h : Again cfg q q' out lost) :
    Again cfg (e :: q) ({ e with retries := e.retries + 1 } :: q') (e.pdu :: out) lost where
  sub := h.sub.cons_cons _
  kept := by
    intro x hx
    rcases List.mem_cons.mp hx with rfl | hx
    · exact .inr ⟨_, List.mem_cons_self, rfl⟩
    · refine (h.kept x hx).imp_right ?_
      rintro ⟨y, hy, hpdu⟩
      exact ⟨y, List.mem_cons_of_mem _ hy, hpdu⟩
  source := by
    intro p hp
    rcases List.mem_cons.mp hp with rfl | hp
    · exact ⟨e, List.mem_cons_self, rfl⟩
    · obtain ⟨x, hx, hpdu⟩ := h.source p hp
      exact ⟨x, List.mem_cons_of_mem _ hx, hpdu⟩
  retries := by
    intro x hx
    rcases List.mem_cons.mp hx with rfl | hx
    · exact .inr ⟨e, List.mem_cons_self, rfl, rfl, List.mem_cons_self⟩
    · rcases h.retries x hx with hx | ⟨y, hy, hpdu, hr, hout⟩
      · exact .inl (List.mem_cons_of_mem _ hx)
      · exact .inr ⟨y, List.mem_cons_of_mem _ hy, hpdu, hr, List.mem_cons_of_mem _ hout⟩
  lost := by
    intro p hp
    obtain ⟨x, hx, hpdu⟩ := h.lost p hp
    exact ⟨x, List.mem_cons_of_mem _ hx, hpdu⟩

end Again

theorem rtxLoop_again (cfg : Config) (tr now : ℕ) (q : List RtxEntry) :
    Again cfg q (rtxLoop cfg tr now q).1 (rtxLoop cfg tr now q).2.1 (rtxLoop cfg tr now q).2.2 := by
  induction q with
  | nil => exact again_self cfg []
  | cons e q ih =>
    unfold rtxLoop
    split
    · dsimp only
      split
      · next hmax => exact ih.giveUp hmax
      · exact ih.resend
    · exact again_self cfg (e :: q)

/-! ### The two queues -/

/-- The sender's invariant; `n` is the initial sequence number. -/
structure Windowed (cfg : Config) (n : ℕ) (s : Snd) : Prop where
  numbered : From Pdu.seq n s.written
  next : s.seqNrToSend = n + s.written.length
  waiting : From Pdu.seq s.maxSeqNrSent s.cwq
  sent : s.maxSeqNrSent + s.cwq.length = s.seqNrToSend
  closed : s.cwq ≠ [] → cfg.windowBased = true ∧ s.sndRtWindEdge ≤ s.maxSeqNrSent
  sorted : s.rtxq.Pairwise fun e e' => e.pdu.seq < e'.pdu.seq
  copies : ∀ e ∈ s.rtxq, e.pdu ∈ s.written ∧ e.pdu.seq ≤ s.maxSeqNrSent
  queued : ∀ p ∈ s.cwq, p ∈ s.written

theorem windowed_init (cfg : Config) (n : ℕ) : Windowed cfg n (Snd.init cfg n) where
  numbered := trivial
  next := rfl
  waiting := trivial
  sent := rfl
  closed := fun h => absurd rfl h
  sorted := List.Pairwise.nil
  copies := fun _ he => absurd he List.not_mem_nil
  queued := fun _ hp => absurd hp List.not_mem_nil

/-- The copies that go to the retransmission queue. -/
def copiesOf (cfg : Config) (now : ℕ) (out : List Pdu) : List RtxEntry :=
  if cfg.rtxCtrl then out.map (⟨·, now, 0⟩) else []

/-- `new` is written, PDUs up to the number `ack` leave the retransmission queue and `out`, which
is what the closed window queue and `new` have first, is sent. -/
structure Flow (cfg : Config) (now : ℕ) (s : Snd) (new : List Pdu) (ack : ℕ) (s' : Snd)
    (out : List Pdu) : Prop where
  written : s'.written = s.written ++ new
  next : s'.seqNrToSend = s.seqNrToSend + new.length
  cwq : s.cwq ++ new = out ++ s'.cwq
  sent : s'.maxSeqNrSent = s.maxSeqNrSent + out.length
  rtxq : ∃ gone keep, s.rtxq = gone ++ keep ∧ (∀ e ∈ gone, e.pdu.seq ≤ ack) ∧
    s'.rtxq = keep ++ copiesOf cfg now out
  dropped : s'.dropped = s.dropped
  closed : s'.cwq ≠ [] → cfg.windowBased = true ∧ s'.sndRtWindEdge ≤ s'.maxSeqNrSent
  edge : out ≠ [] → cfg.windowBased = true → s'.maxSeqNrSent ≤ s'.sndRtWindEdge

theorem copiesOf_mem {cfg : Config} {now : ℕ} {out : List Pdu} {e : RtxEntry}
    (h : e ∈ copiesOf cfg now out) : e.pdu ∈ out ∧ e.retries = 0 := by
  unfold copiesOf at h
  split at h
  · obtain ⟨p, hp, rfl⟩ := List.mem_map.mp h
    exact ⟨hp, rfl⟩
  · exact absurd h List.not_mem_nil

theorem copiesOf_pairwise {cfg : Config} {now : ℕ} {out : List Pdu}
    (h : out.Pairwise fun p q => p.seq < q.seq) :
    (copiesOf cfg now out).Pairwise fun e e' => e.pdu.seq < e'.pdu.seq := by
  unfold copiesOf
  split
  · exact List.pairwise_map.mpr h
  · exact List.Pairwise.nil

section Flow

variable {cfg : Config} {n now ack : ℕ} {s s' : Snd} {new out : List Pdu}

/-- What is in the closed window queue or new goes on from the last number sent. -/
theorem Flow.ahead (h : Flow cfg now s new ack s' out) (hs : Windowed cfg n s)
    (hnew : From Pdu.seq s.seqNrToSend new) :
    From Pdu.seq s.maxSeqNrSent out ∧ From Pdu.seq s'.maxSeqNrSent s'.cwq := by
  have hall : From Pdu.seq s.maxSeqNrSent (s.cwq ++ new) :=
    from_append.mpr ⟨hs.waiting, by rwa [hs.sent]⟩
  rw [h.cwq, from_append] at hall
  rwa [h.sent]

theorem Flow.out_mem (h : Flow cfg now s new ack s' out) (hs : Windowed cfg n s) :
    (∀ p ∈ out, p ∈ s'.written) ∧ ∀ p ∈ s'.cwq, p ∈ s'.written := by
  have hall : ∀ p ∈ s.cwq ++ new, p ∈ s'.written := by
    intro p hp
    rw [h.written]
    exact (List.mem_append.mp hp).elim (fun hp => List.mem_append_left _ (hs.queued p hp))
      (List.mem_append_right _)
  rw [h.cwq] at hall
  exact ⟨fun p hp => hall p (List.mem_append_left _ hp),
    fun p hp => hall p (List.mem_append_right _ hp)⟩

theorem Flow.windowed (h : Flow cfg now s new ack s' out) (hs : Windowed cfg n s)
    (hnew : From Pdu.seq s.seqNrToSend new) : Windowed cfg n s' := by
  obtain ⟨hout, hcwq⟩ := h.ahead hs hnew
  obtain ⟨houtm, hcwqm⟩ := h.out_mem hs
  obtain ⟨gone, keep, hq, -, hq'⟩ := h.rtxq
  have hkeep : ∀ e ∈ keep, e.pdu ∈ s.written ∧ e.pdu.seq ≤ s.maxSeqNrSent := fun e he =>
    hs.copies e (hq ▸ List.mem_append_right _ he)
  refine ⟨?_, ?_, hcwq, ?_, h.closed, ?_, ?_, hcwqm⟩
  · rw [h.written, from_append, ← hs.next]
    exact ⟨hs.numbered, hnew⟩
  · rw [h.next, h.written, hs.next, List.length_append, Nat.add_assoc]
  · have hlen := congrArg List.length h.cwq
    rw [List.length_append, List.length_append] at hlen
    have := hs.sent
    rw [h.sent, h.next]
    omega
  · rw [hq']
    have hsorted := hs.sorted
    rw [hq] at hsorted
    refine List.pairwise_append.mpr
      ⟨(List.pairwise_append.mp hsorted).2.1, copiesOf_pairwise hout.pairwise, ?_⟩
    intro e he e' he'
    exact (hkeep e he).2.trans_lt (hout.bounds (copiesOf_mem he').1).1
  · rw [hq', h.sent, h.written]
    intro e he
    rcases List.mem_append.mp he with he | he
    · exact ⟨List.mem_append_left _ (hkeep e he).1, (hkeep e he).2.trans (Nat.le_add_right _ _)⟩
    · have hmem := (copiesOf_mem he).1
      exact ⟨h.written ▸ houtm _ hmem, (hout.bounds hmem).2⟩

end Flow

theorem copiesOf_nil (cfg : Config) (now : ℕ) : copiesOf cfg now [] = [] := by
  unfold copiesOf
  split <;> rfl

theorem copiesOf_cons (cfg : Config) (now : ℕ) (du : Pdu) (out : List Pdu) :
    copiesOf cfg now (du :: out) = copiesOf cfg now [du] ++ copiesOf cfg now out := by
  unfold copiesOf
  split <;> rfl

/-! ### The steps -/

/-- The retransmission queue takes a PDU beyond all it holds. -/
theorem pushed_eq (cfg : Config) (now : ℕ) {q : List RtxEntry} {du : Pdu}
    (h : ∀ e ∈ q, e.pdu.seq < du.seq) :
    (if cfg.rtxCtrl then (rtxqueuePushNi q ⟨du, now, 0⟩).getD q else q) =
      q ++ copiesOf cfg now [du] := by
  unfold copiesOf
  split
  · rw [rtxqueuePushNi_back h]
    rfl
  · exact (List.append_nil q).symm

/-- What the loop of `cwq_deliver` does with the queue `q`. -/
structure Delivers (cfg : Config) (now : ℕ) (s : Snd) (q : List Pdu) (s' : Snd) (out : List Pdu) :
    Prop where
  cwq : q = out ++ s'.cwq
  sent : s'.maxSeqNrSent = s.maxSeqNrSent + out.length
  rtxq : s'.rtxq = s.rtxq ++ copiesOf cfg now out
  written : s'.written = s.written
  next : s'.seqNrToSend = s.seqNrToSend
  dropped : s'.dropped = s.dropped
  window : s'.sndRtWindEdge = s.sndRtWindEdge
  closed : s'.cwq ≠ [] → cfg.windowBased = true → s.sndRtWindEdge ≤ s'.maxSeqNrSent
  edge : out ≠ [] → s'.maxSeqNrSent ≤ s.sndRtWindEdge

theorem cwqLoop_delivers (cfg : Config) (now : ℕ) {s : Snd} {q : List Pdu}
    (hq : From Pdu.seq s.maxSeqNrSent q) (hrtx : ∀ e ∈ s.rtxq, e.pdu.seq ≤ s.maxSeqNrSent) :
    Delivers cfg now s q (cwqLoop cfg now s q).1 (cwqLoop cfg now s q).2 := by
  have hnone (s : Snd) : s.rtxq = s.rtxq ++ copiesOf cfg now [] := by
    rw [copiesOf_nil, List.append_nil]
  induction q generalizing s with
  | nil =>
    refine ⟨rfl, rfl, hnone s, rfl, rfl, rfl, rfl, fun h => absurd rfl h, fun h => absurd rfl h⟩
  | cons du q ih =>
    obtain ⟨hdu, hq⟩ := hq
    unfold cwqLoop
    split
    · next hopen =>
      rw [Bool.and_eq_true, decide_eq_true_iff] at hopen
      have hbelow : ∀ e ∈ s.rtxq, e.pdu.seq < du.seq := by
        intro e he
        rw [hdu]
        exact Nat.lt_succ_of_le (hrtx e he)
      dsimp only
      rw [pushed_eq cfg now hbelow]
      have hle : ∀ e ∈ s.rtxq ++ copiesOf cfg now [du], e.pdu.seq ≤ du.seq := by
        intro e he
        rcases List.mem_append.mp he with he | he
        · exact (hbelow e he).le
        · rw [List.mem_singleton.mp (copiesOf_mem he).1]
      rw [← hdu] at hq
      have h := ih (s := { s with rtxq := s.rtxq ++ copiesOf cfg now [du] }.sent du) hq hle
      generalize cwqLoop cfg now ({ s with rtxq := s.rtxq ++ copiesOf cfg now [du] }.sent du) q = x
        at h ⊢
      have hsent : x.1.maxSeqNrSent = du.seq + x.2.length := h.sent
      refine ⟨congrArg (du :: ·) h.cwq, ?_, ?_, h.written, h.next, h.dropped, h.window, h.closed,
        ?_⟩
      · rw [hsent, hdu, List.length_cons]
        omega
      · rw [copiesOf_cons cfg now du x.2, ← List.append_assoc]
        exact h.rtxq
      · intro _
        by_cases hout : x.2 = []
        · rw [hsent, hout, hdu]
          exact hopen.2
        · exact h.edge hout
    · next hshut =>
      rw [Bool.and_eq_true, decide_eq_true_iff, not_and, Nat.not_lt] at hshut
      exact ⟨rfl, rfl, hnone s, rfl, rfl, rfl, rfl, fun _ => hshut, fun h => absurd rfl h⟩

theorem cwqDeliver_delivers (cfg : Config) (now : ℕ) {s : Snd}
    (hq : From Pdu.seq s.maxSeqNrSent s.cwq) (hrtx : ∀ e ∈ s.rtxq, e.pdu.seq ≤ s.maxSeqNrSent) :
    Delivers cfg now s s.cwq (cwqDeliver cfg now s).1 (cwqDeliver cfg now s).2 := by
  have h := cwqLoop_delivers cfg now hq hrtx
  unfold cwqDeliver
  dsimp only
  split
  · exact ⟨h.cwq, h.sent, h.rtxq, h.written, h.next, h.dropped, h.window, h.closed, h.edge⟩
  · exact h

section Steps

variable {cfg : Config} {n : ℕ} {s : Snd}

theorem Windowed.flow_self (now : ℕ) (hs : Windowed cfg n s) : Flow cfg now s [] 0 s [] where
  written := (List.append_nil _).symm
  next := rfl
  cwq := List.append_nil _
  sent := rfl
  rtxq := ⟨[], s.rtxq, rfl, fun e he => absurd he List.not_mem_nil, by
    rw [copiesOf_nil, List.append_nil]⟩
  dropped := rfl
  closed := hs.closed
  edge := fun h => absurd rfl h

/-- What waits for the window goes to the end of the queue. -/
theorem closedWindow_queues (cfg : Config) (s : Snd) (du : Pdu) :
    ∃ rv w, awaitCredit cfg (closedWindow cfg s du) =
      { s with cwq := s.cwq ++ [du], rendezvous := rv, writable := w } := by
  unfold awaitCredit closedWindow
  split
  · split
    · exact ⟨_, _, rfl⟩
    · exact ⟨_, _, rfl⟩
  · split
    · exact ⟨_, _, rfl⟩
    · exact ⟨_, _, rfl⟩

theorem transmit_sends (cfg : Config) (now : ℕ) {s : Snd} {du : Pdu}
    (h : ∀ e ∈ s.rtxq, e.pdu.seq < du.seq) :
    transmit cfg now s du = ({ s with rtxq := s.rtxq ++ copiesOf cfg now [du] }.sent du, [du]) := by
  unfold transmit copiesOf
  split
  · rw [rtxqueuePushNi_back h]
    rfl
  · rw [List.append_nil]

/-- `dtp_write`: the new PDU is queued behind those that wait, or sent if none waits. -/
theorem dtpWrite_flow (now : ℕ) (data : Bytes) (hs : Windowed cfg n s)
    (hroom : s.seqNrToSend + 1 < 4294967296) :
    ∃ du : Pdu, du.seq = s.seqNrToSend + 1 ∧ du.data = data ∧
      Flow cfg now s [du] 0 (dtpWrite cfg now s data).1 (dtpWrite cfg now s data).2 ∧
      (dtpWrite cfg now s data).1.sndRtWindEdge = s.sndRtWindEdge := by
  have hcsn : u32 (s.seqNrToSend + 1) = s.seqNrToSend + 1 := Nat.mod_eq_of_lt hroom
  have hnone : s.rtxq = s.rtxq ++ copiesOf cfg now [] := by rw [copiesOf_nil, List.append_nil]
  have hnil : ∀ e ∈ ([] : List RtxEntry), e.pdu.seq ≤ 0 := fun e he => absurd he List.not_mem_nil
  unfold dtpWrite
  dsimp only
  rw [hcsn]
  generalize hdu : (⟨s.seqNrToSend + 1, _, data⟩ : Pdu) = du
  have hseq : du.seq = s.seqNrToSend + 1 := by rw [← hdu]
  refine ⟨du, hseq, by rw [← hdu], ?_⟩
  split
  · next hclosed =>
    rw [Bool.and_eq_true, decide_eq_true_iff] at hclosed
    -- the queue waits on the window edge, or there is none and this is the first beyond it
    have hedge : s.sndRtWindEdge ≤ s.maxSeqNrSent := by
      by_cases hcwq : s.cwq = []
      · have hsent := hs.sent
        rw [hcwq, List.length_nil] at hsent
        omega
      · exact (hs.closed hcwq).2
    obtain ⟨rv, w, heq⟩ := closedWindow_queues cfg
      { s with seqNrToSend := s.seqNrToSend + 1, written := s.written ++ [du] } du
    rw [heq]
    exact ⟨⟨rfl, rfl, rfl, rfl, ⟨[], s.rtxq, rfl, hnil, hnone⟩, rfl, fun _ => ⟨hclosed.1, hedge⟩,
      fun h => absurd rfl h⟩, rfl⟩
  · next hopen =>
    rw [Bool.and_eq_true, decide_eq_true_iff, not_and, Nat.not_lt] at hopen
    have hcwq : s.cwq = [] := by
      by_contra hne
      obtain ⟨hwin, hle⟩ := hs.closed hne
      have := hopen hwin
      have := hs.sent
      omega
    have hmax : s.maxSeqNrSent = s.seqNrToSend := by
      have hsent := hs.sent
      rwa [hcwq] at hsent
    have hbelow : ∀ e ∈ s.rtxq, e.pdu.seq < du.seq := by
      intro e he
      have := (hs.copies e he).2
      omega
    rw [@transmit_sends cfg now
      { s with seqNrToSend := s.seqNrToSend + 1, written := s.written ++ [du] } du hbelow]
    refine ⟨⟨rfl, rfl, ?_, ?_, ⟨[], s.rtxq, rfl, hnil, rfl⟩, rfl, fun h => absurd hcwq h, ?_⟩, rfl⟩
    · rw [hcwq]
      rfl
    · rw [hmax]
      exact hseq
    · intro _ hwin
      exact hseq.trans_le (hopen hwin)

/-- The window moves to the edge that the control PDU has, after PDUs up to `ack` have left. -/
theorem updateWindow_flow (now : ℕ) (c : Ctrl) {s₁ : Snd} {ack : ℕ} (hs : Windowed cfg n s)
    (hsame : s₁.written = s.written ∧ s₁.seqNrToSend = s.seqNrToSend ∧ s₁.cwq = s.cwq ∧
      s₁.maxSeqNrSent = s.maxSeqNrSent ∧ s₁.dropped = s.dropped ∧
      s₁.sndRtWindEdge = s.sndRtWindEdge)
    (hrtx : ∃ gone, s.rtxq = gone ++ s₁.rtxq ∧ ∀ e ∈ gone, e.pdu.seq ≤ ack) :
    Flow cfg now s [] ack (updateWindow cfg now s₁ c).1 (updateWindow cfg now s₁ c).2 ∧
      ((updateWindow cfg now s₁ c).1.sndRtWindEdge = s.sndRtWindEdge ∨
        (updateWindow cfg now s₁ c).1.sndRtWindEdge = c.newRt) := by
  obtain ⟨hwritten, hnext, hcwq, hmax, hdropped, hedge⟩ := hsame
  obtain ⟨gone, hgone, hle⟩ := hrtx
  unfold updateWindow
  dsimp only
  -- the state that `cwq_deliver` finds
  generalize hs₂ : ({ (if cfg.windowBased then { s₁ with sndRtWindEdge := c.newRt } else s₁) with
    rendezvous := false } : Snd) = s₂
  have hframe : s₂.written = s.written ∧ s₂.seqNrToSend = s.seqNrToSend ∧ s₂.cwq = s.cwq ∧
      s₂.maxSeqNrSent = s.maxSeqNrSent ∧ s₂.dropped = s.dropped ∧ s₂.rtxq = s₁.rtxq ∧
      (s₂.sndRtWindEdge = s.sndRtWindEdge ∨ s₂.sndRtWindEdge = c.newRt) := by
    rw [← hs₂]
    split
    · exact ⟨hwritten, hnext, hcwq, hmax, hdropped, rfl, .inr rfl⟩
    · exact ⟨hwritten, hnext, hcwq, hmax, hdropped, rfl, .inl hedge⟩
  obtain ⟨hwritten₂, hnext₂, hcwq₂, hmax₂, hdropped₂, hrtxq₂, hedge₂⟩ := hframe
  have hwait : From Pdu.seq s₂.maxSeqNrSent s₂.cwq := by
    rw [hmax₂, hcwq₂]
    exact hs.waiting
  have hcopies : ∀ e ∈ s₂.rtxq, e.pdu.seq ≤ s₂.maxSeqNrSent := by
    intro e he
    rw [hmax₂]
    rw [hrtxq₂] at he
    exact (hs.copies e (hgone ▸ List.mem_append_right _ he)).2
  have h := cwqDeliver_delivers cfg now hwait hcopies
  have hq := h.cwq
  rw [hcwq₂] at hq
  refine ⟨⟨?_, ?_, ?_, ?_, ⟨gone, s₁.rtxq, hgone, hle, ?_⟩, ?_, ?_, ?_⟩, ?_⟩
  · rw [h.written, hwritten₂, List.append_nil]
  · exact h.next.trans hnext₂
  · rw [List.append_nil]
    exact hq
  · rw [h.sent, hmax₂]
  · rw [h.rtxq, hrtxq₂]
  · rw [h.dropped, hdropped₂]
  · intro hne
    have hwin : cfg.windowBased = true := by
      refine (hs.closed ?_).1
      rw [hq]
      exact fun hnil => hne (List.append_eq_nil_iff.mp hnil).2
    rw [h.window]
    exact ⟨hwin, h.closed hne hwin⟩
  · intro hne _
    rw [h.window]
    exact h.edge hne
  · rwa [h.window]

theorem senderAck_flow (now seq : ℕ) (hs : Windowed cfg n s) :
    Flow cfg now s [] seq (senderAck cfg s seq) [] := by
  unfold senderAck
  split
  · refine ⟨(List.append_nil _).symm, rfl, List.append_nil _, rfl, ?_, rfl, hs.closed,
      fun h => absurd rfl h⟩
    refine ⟨s.rtxq.takeWhile (·.pdu.seq ≤ seq), _, List.takeWhile_append_dropWhile.symm, ?_, ?_⟩
    · intro e he
      have hle := List.mem_takeWhile_imp he
      exact of_decide_eq_true hle
    · rw [copiesOf_nil, List.append_nil]
  · exact { hs.flow_self now with
      rtxq := ⟨[], s.rtxq, rfl, fun e he => absurd he List.not_mem_nil, by
        rw [copiesOf_nil, List.append_nil]⟩ }

/-- A control PDU, by which at most what it acknowledges leaves the retransmission queue. -/
theorem rcvControl_flow (now : ℕ) (c : Ctrl) (hs : Windowed cfg n s) :
    ∃ ack, (ack = 0 ∨ c.acks = true ∧ ack = c.ack) ∧
      Flow cfg now s [] ack (rcvControl cfg now s c).1 (rcvControl cfg now s c).2 ∧
      ((rcvControl cfg now s c).1.sndRtWindEdge = s.sndRtWindEdge ∨
        (rcvControl cfg now s c).1.sndRtWindEdge = c.newRt) := by
  have hs₁ : Windowed cfg n { s with lastCtl := c.sn } :=
    ⟨hs.numbered, hs.next, hs.waiting, hs.sent, hs.closed, hs.sorted, hs.copies, hs.queued⟩
  have hskip : Flow cfg now s [] 0 { s with lastCtl := c.sn } [] :=
    let h := hs.flow_self now
    ⟨h.written, h.next, h.cwq, h.sent, h.rtxq, h.dropped, h.closed, h.edge⟩
  have hself : ∃ gone, s.rtxq = gone ++ s.rtxq ∧ ∀ e ∈ gone, e.pdu.seq ≤ 0 :=
    ⟨[], rfl, fun e he => absurd he List.not_mem_nil⟩
  unfold rcvControl
  dsimp only
  split
  · exact ⟨0, .inl rfl, hs.flow_self now, .inl rfl⟩
  · cases htype : c.type with
    | ack =>
      have hacks : c.acks = true := decide_eq_true (.inl htype)
      dsimp only
      split
      · exact ⟨0, .inl rfl, hskip, .inl rfl⟩
      · have h := senderAck_flow now c.ack hs₁
        refine ⟨c.ack, .inr ⟨hacks, rfl⟩,
          ⟨h.written, h.next, h.cwq, h.sent, h.rtxq, h.dropped, h.closed, h.edge⟩, .inl ?_⟩
        unfold senderAck
        split <;> rfl
    | ackAndFc =>
      have hacks : c.acks = true := decide_eq_true (.inr htype)
      dsimp only
      split
      · exact ⟨0, .inl rfl, hskip, .inl rfl⟩
      · refine ⟨c.ack, .inr ⟨hacks, rfl⟩, updateWindow_flow now c hs ?_ ?_⟩
        · unfold senderAck
          split <;> exact ⟨rfl, rfl, rfl, rfl, rfl, rfl⟩
        · obtain ⟨gone, keep, hq, hle, hq'⟩ := (senderAck_flow now c.ack hs₁).rtxq
          rw [copiesOf_nil, List.append_nil] at hq'
          exact ⟨gone, hq'.symm ▸ hq, hle⟩
    | fc => exact ⟨0, .inl rfl, updateWindow_flow now c hs ⟨rfl, rfl, rfl, rfl, rfl, rfl⟩ hself⟩
    | rendezvous => exact ⟨0, .inl rfl, hskip, .inl rfl⟩

/-- The retransmission timer touches its queue only. -/
theorem rtxTimer_again (cfg : Config) (tr now : ℕ) (s : Snd) :
    ∃ lost, Again cfg s.rtxq (rtxTimer cfg tr now s).1.rtxq (rtxTimer cfg tr now s).2 lost ∧
      (rtxTimer cfg tr now s).1.dropped = s.dropped ++ lost ∧
      (rtxTimer cfg tr now s).1.written = s.written ∧
      (rtxTimer cfg tr now s).1.seqNrToSend = s.seqNrToSend ∧
      (rtxTimer cfg tr now s).1.cwq = s.cwq ∧
      (rtxTimer cfg tr now s).1.maxSeqNrSent = s.maxSeqNrSent ∧
      (rtxTimer cfg tr now s).1.sndRtWindEdge = s.sndRtWindEdge := by
  have h := rtxLoop_again cfg tr now s.rtxq
  refine ⟨(rtxLoop cfg tr now s.rtxq).2.2, ?_⟩
  unfold rtxTimer
  dsimp only
  split
  · exact ⟨h, rfl, rfl, rfl, rfl, rfl, rfl⟩
  · split
    · exact ⟨h, rfl, rfl, rfl, rfl, rfl, rfl⟩
    · exact ⟨h, rfl, rfl, rfl, rfl, rfl, rfl⟩

theorem rtxTimer_windowed (tr now : ℕ) (hs : Windowed cfg n s) :
    Windowed cfg n (rtxTimer cfg tr now s).1 := by
  obtain ⟨lost, h, -, hwritten, hnext, hcwq, hmax, hedge⟩ := rtxTimer_again cfg tr now s
  refine ⟨?_, ?_, ?_, ?_, ?_, ?_, ?_, ?_⟩
  · rw [hwritten]
    exact hs.numbered
  · rw [hnext, hwritten]
    exact hs.next
  · rw [hmax, hcwq]
    exact hs.waiting
  · rw [hmax, hcwq, hnext]
    exact hs.sent
  · rw [hcwq, hedge, hmax]
    exact hs.closed
  · have hsorted : (s.rtxq.map RtxEntry.pdu).Pairwise fun p q => p.seq < q.seq :=
      List.pairwise_map.mpr hs.sorted
    have hsorted' := hsorted.sublist h.sub
    rwa [List.pairwise_map] at hsorted'
  · intro e he
    rw [hwritten, hmax]
    obtain ⟨e', he', heq⟩ := List.mem_map.mp (h.sub.subset (List.mem_map_of_mem he))
    rw [← heq]
    exact hs.copies e' he'
  · rw [hcwq, hwritten]
    exact hs.queued

end Steps

end PepDna.Rina.Efcp
