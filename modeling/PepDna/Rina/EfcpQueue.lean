import PepDna.Rina.EfcpOrder

/-!
# The sequencing queue and a PDU that comes twice (dtp.c:321-377, 1721-1743)

`seq_queue_push_ni` destroys a PDU that it finds in the queue, and `dtp_receive`, which does not
look at what it returns, goes on with the header of that PDU. It does not find every copy: it
looks at the last entry, and then from the head on up to the first smaller one.
-/

namespace PepDna.Rina.Efcp

/-! ### What is destroyed -/

theorem queued_ne_destroyed : Push.queued ≠ .destroyed := by decide

theorem leaked_ne_destroyed : Push.leaked ≠ .destroyed := by decide

/-- The entry that a push finds: the last one or, below the number of the last one, one with only
larger ones before it. -/
def Found (q : List Entry) (du : Pdu) : Prop :=
  ∃ l e l', q = l ++ e :: l' ∧ e.pdu.seq = du.seq ∧
    (l' = [] ∨ (∀ x ∈ l, du.seq < x.pdu.seq) ∧ ∀ y ∈ l'.getLast?, du.seq < y.pdu.seq)

theorem pushMiddle_destroyed_iff (e : Entry) (q : List Entry) :
    (pushMiddle e q).1 = .destroyed ↔
      ∃ l d l', q = l ++ d :: l' ∧ d.pdu.seq = e.pdu.seq ∧ ∀ x ∈ l, e.pdu.seq < x.pdu.seq := by
  induction q with
  | nil =>
    refine ⟨fun h => absurd h leaked_ne_destroyed, ?_⟩
    rintro ⟨l, d, l', h, -⟩
    exact absurd h.symm (List.append_ne_nil_of_right_ne_nil _ (List.cons_ne_nil _ _))
  | cons c q ih =>
    unfold pushMiddle
    split
    · next heq =>
      refine ⟨fun _ => ⟨[], c, q, rfl, heq.symm, ?_⟩, fun _ => rfl⟩
      exact fun x hx => absurd hx List.not_mem_nil
    · next hne =>
      split
      · next hgt =>
        refine ⟨fun h => absurd h queued_ne_destroyed, ?_⟩
        rintro ⟨l, d, l', h, hseq, hlt⟩
        cases l with
        | nil =>
          cases h
          exact absurd hseq.symm hne
        | cons x l =>
          obtain ⟨rfl, -⟩ := List.cons.inj h
          exact absurd (hlt c List.mem_cons_self) (Nat.lt_asymm hgt)
      · next hngt =>
        have hlt : e.pdu.seq < c.pdu.seq := by omega
        refine ih.trans ⟨?_, ?_⟩
        · rintro ⟨l, d, l', rfl, hseq, hl⟩
          exact ⟨c :: l, d, l', rfl, hseq, List.forall_mem_cons.mpr ⟨hlt, hl⟩⟩
        · rintro ⟨l, d, l', h, hseq, hl⟩
          cases l with
          | nil =>
            cases h
            exact absurd hseq.symm hne
          | cons x l =>
            cases h
            exact ⟨l, d, l', rfl, hseq, fun y hy => hl y (List.mem_cons_of_mem _ hy)⟩

/-- An entry with another number than the last one has the last one behind it. -/
theorem getLast?_behind {ys l l' : List Entry} {last e : Entry}
    (h : ys ++ [last] = l ++ e :: l') (hne : e.pdu.seq ≠ last.pdu.seq) :
    l'.getLast? = some last := by
  have hlast : (l ++ e :: l').getLast? = some last := by rw [← h, List.getLast?_concat]
  rw [List.getLast?_append_of_ne_nil _ (List.cons_ne_nil _ _)] at hlast
  cases l' with
  | nil =>
    cases hlast
    exact absurd rfl hne
  | cons x l' => rwa [List.getLast?_cons_cons] at hlast

/-- A push destroys the new PDU exactly if it finds its number. -/
theorem seqQueuePushNi_destroyed_iff (q : List Entry) (du : Pdu) (now : ℕ) :
    (seqQueuePushNi q ⟨du, now⟩).1 = .destroyed ↔ Found q du := by
  unfold seqQueuePushNi
  cases hlast : q.getLast? with
  | none =>
    refine ⟨fun h => absurd h queued_ne_destroyed, ?_⟩
    rintro ⟨l, e, l', rfl, -⟩
    exact absurd (List.getLast?_eq_none_iff.mp hlast)
      (List.append_ne_nil_of_right_ne_nil _ (List.cons_ne_nil _ _))
  | some last =>
    obtain ⟨ys, rfl⟩ := List.getLast?_eq_some_iff.mp hlast
    dsimp only
    split
    · next heq => exact ⟨fun _ => ⟨ys, last, [], rfl, heq.symm, .inl rfl⟩, fun _ => rfl⟩
    · next hne =>
      have hend {l l' : List Entry} {e : Entry} (h : ys ++ [last] = l ++ e :: l')
          (hseq : e.pdu.seq = du.seq) : l'.getLast? = some last :=
        getLast?_behind h (hseq.trans_ne hne)
      have hfound {l l' : List Entry} {e : Entry} (h : ys ++ [last] = l ++ e :: l')
          (hseq : e.pdu.seq = du.seq) : l' ≠ [] := fun hl' =>
        Option.some_ne_none last ((hend h hseq).symm.trans (List.getLast?_eq_none_iff.mpr hl'))
      split
      · next hgt =>
        refine ⟨fun h => absurd h queued_ne_destroyed, ?_⟩
        rintro ⟨l, e, l', h, hseq, hcase⟩
        have hlarger := (hcase.resolve_left (hfound h hseq)).2
        exact absurd (hlarger last (hend h hseq)) (Nat.lt_asymm hgt)
      · next hngt =>
        have hlt : du.seq < last.pdu.seq := Nat.lt_of_le_of_ne (Nat.not_lt.mp hngt) hne
        rw [pushMiddle_destroyed_iff]
        constructor
        · rintro ⟨l, d, l', h, hseq, hl⟩
          refine ⟨l, d, l', h, hseq, .inr ⟨hl, fun y hy => ?_⟩⟩
          cases (hend h hseq).symm.trans hy
          exact hlt
        · rintro ⟨l, e, l', h, hseq, hcase⟩
          exact ⟨l, e, l', h, hseq, (hcase.resolve_left (hfound h hseq)).1⟩

/-! What is destroyed leaves the queue as it was. -/

theorem pushMiddle_destroyed {e : Entry} {q : List Entry} (h : (pushMiddle e q).1 = .destroyed) :
    (pushMiddle e q).2 = q := by
  induction q with
  | nil => rfl
  | cons c q ih =>
    unfold pushMiddle at h ⊢
    split at h
    · next heq => rw [if_pos heq]
    · next hne =>
      rw [if_neg hne]
      split at h
      · exact absurd h queued_ne_destroyed
      · next hngt =>
        rw [if_neg hngt]
        exact congrArg (c :: ·) (ih h)

theorem seqQueuePushNi_destroyed {q : List Entry} {e : Entry}
    (h : (seqQueuePushNi q e).1 = .destroyed) : (seqQueuePushNi q e).2 = q := by
  unfold seqQueuePushNi at h ⊢
  cases hlast : q.getLast? with
  | none =>
    rw [hlast] at h
    exact absurd h queued_ne_destroyed
  | some last =>
    rw [hlast] at h
    dsimp only at h ⊢
    split at h
    · next heq => rw [if_pos heq]
    · next hne =>
      rw [if_neg hne]
      split at h
      · exact absurd h queued_ne_destroyed
      · next hngt =>
        rw [if_neg hngt]
        exact pushMiddle_destroyed h

/-! ### The head of the queue -/

/-- No PDU at the head of the queue can be popped. -/
def Blocked (lwe : ℕ) (q : List Entry) : Prop := ∀ e ∈ q.head?, e.pdu.seq ≠ u32 (lwe + 1)

theorem blocked_nil (lwe : ℕ) : Blocked lwe [] := fun _ he => absurd he.symm (Option.some_ne_none _)

theorem popRun_blocked (lwe : ℕ) (q : List Entry) :
    Blocked (popRun lwe q).lwe (popRun lwe q).rest := by
  induction q generalizing lwe with
  | nil => exact blocked_nil lwe
  | cons e q ih =>
    unfold popRun
    split
    · exact ih e.pdu.seq
    · next hne =>
      intro d hd
      cases hd
      exact hne

theorem popRun_of_blocked {lwe : ℕ} {q : List Entry} (h : Blocked lwe q) :
    popRun lwe q = ⟨[], lwe, q⟩ := by
  cases q with
  | nil => rfl
  | cons e q =>
    unfold popRun
    rw [if_neg (h e rfl)]

theorem expire_blocked (cfg : Config) (now : ℕ) {lwe : ℕ} {q : List Entry}
    (hl : lwe < 4294967296) (hq : ∀ e ∈ q, e.pdu.seq < 4294967296) :
    Blocked (expire cfg now lwe q).lwe (expire cfg now lwe q).rest := by
  induction q generalizing lwe with
  | nil => exact blocked_nil lwe
  | cons e q ih =>
    rw [List.forall_mem_cons] at hq
    unfold expire
    dsimp only
    split
    · split
      · exact ih hl hq.2
      · exact ih hq.1 hq.2
    · next hstays =>
      intro d hd hseq
      cases hd
      -- the next number is within any gap
      have hseq' : e.pdu.seq = (lwe + 1) % 4294967296 := hseq
      have hgap : u32Sub (u32Sub e.pdu.seq lwe) 1 = 0 := by
        unfold u32Sub
        omega
      rw [hgap, decide_eq_true (Nat.zero_le _), Bool.or_true] at hstays
      exact hstays rfl

/-! ### Whole runs -/

/-- A PDU that is acceptable and early, and that a push finds. -/
def Destroys (cfg : Config) (r : Rcv) (du : Pdu) : Prop :=
  r.drfRequired = false ∧ r.lwe < du.seq ∧ isFcOverrun cfg r du = false ∧
    du.seq ≠ u32 (r.lwe + 1) ∧ Found r.seqq du

theorem dtcpSvUpdate_uaf (cfg : Config) (r : Rcv) : (dtcpSvUpdate cfg r).1.uaf = r.uaf := by
  unfold dtcpSvUpdate
  dsimp only
  generalize hs : (if cfg.windowBased then
    { r with rwe := u32 (r.lwe + cfg.initialCredit) } else r) = s
  have huaf : s.uaf = r.uaf := by
    rw [← hs]
    split <;> rfl
  rw [← huaf]
  split
  · unfold rcvrAck
    split <;> rfl
  · split <;> rfl

/-- An early PDU: the header of the destroyed one is read, as nothing can be popped instead. -/
theorem sequence_uaf {now : ℕ} {r : Rcv} {du : Pdu} (hb : Blocked r.lwe r.seqq) :
    (sequence now r du).uaf = true ↔
      r.uaf = true ∨ (du.seq ≠ u32 (r.lwe + 1) ∧ Found r.seqq du) := by
  unfold sequence
  split
  · next heq => exact ⟨.inl, fun h => h.resolve_right fun h => h.1 heq⟩
  · next hne =>
    dsimp only
    rw [Bool.or_eq_true, Bool.and_eq_true, decide_eq_true_iff,
      ← seqQueuePushNi_destroyed_iff r.seqq du now]
    refine or_congr_right ⟨fun h => ⟨hne, h.1⟩, fun h => ⟨h.2, ?_⟩⟩
    rw [seqQueuePushNi_destroyed h.2, popRun_of_blocked hb]
    rfl

theorem receiveSequenced_uaf {cfg : Config} {now : ℕ} {r : Rcv} {du : Pdu}
    (hb : Blocked r.lwe r.seqq) : (receiveSequenced cfg now r du).1.uaf = true ↔
      r.uaf = true ∨ (du.seq ≠ u32 (r.lwe + 1) ∧ Found r.seqq du) := by
  unfold receiveSequenced
  dsimp only
  rw [dtcpSvUpdate_uaf]
  exact sequence_uaf hb

theorem SameDtp.blocked {r s : Rcv} (h : SameDtp r s) (hb : Blocked r.lwe r.seqq) :
    Blocked s.lwe s.seqq := by
  rw [h.lwe, h.seqq]
  exact hb

theorem rcvStep_blocked {cfg : Config} (ha : cfg.a ≠ 0) {r : Rcv} (x : RcvAct)
    (hr : Bounded cfg r) (hb : Blocked r.lwe r.seqq) :
    Blocked (rcvStep cfg r x).1.lwe (rcvStep cfg r x).1.seqq := by
  have hexp (now : ℕ) :
      Blocked (expire cfg now r.lwe r.seqq).lwe (expire cfg now r.lwe r.seqq).rest := by
    refine expire_blocked cfg now ?_ fun e he => ?_
    · have := hr.edge
      omega
    · have := (hr.queue e he).2
      omega
  have h := rcvStep_handled cfg r x
  generalize rcvStep cfg r x = y at h ⊢
  cases h with
  | started du now hd =>
    have hsame := dtcpSvUpdate_same cfg { r with drfRequired := false, lwe := du.seq, seqq := [] }
    exact hsame.blocked (blocked_nil du.seq)
  | direct du now hd hgt hover ha' => exact absurd ha' ha
  | sequenced du now hd hgt hover ha' =>
    exact (dtcpSvUpdate_same cfg _).blocked (popRun_blocked _ _)
  | kept now hpost => exact hexp now
  | expired now => exact (dtcpSvUpdate_same cfg _).blocked (hexp now)
  | forgot => exact blocked_nil 0
  | refused | overrun | ignored | met | asked => exact hb

theorem rcvStep_uaf {cfg : Config} (ha : cfg.a ≠ 0) {r : Rcv} (x : RcvAct)
    (hb : Blocked r.lwe r.seqq) : (rcvStep cfg r x).1.uaf = true ↔
      r.uaf = true ∨ ∃ du ∈ x.pdus, Destroys cfg r du := by
  have hsame {s : Rcv} {l : List Pdu} (hs : s.uaf = r.uaf) (hl : ∀ du ∈ l, ¬ Destroys cfg r du) :
      s.uaf = true ↔ r.uaf = true ∨ ∃ du ∈ l, Destroys cfg r du := by
    rw [hs]
    refine ⟨.inl, fun h => h.resolve_right ?_⟩
    rintro ⟨du, hdu, h⟩
    exact hl du hdu h
  have hnone {s : Rcv} (hs : s.uaf = r.uaf) :
      s.uaf = true ↔ r.uaf = true ∨ ∃ du ∈ ([] : List Pdu), Destroys cfg r du :=
    hsame hs fun du hdu => absurd hdu List.not_mem_nil
  have h := rcvStep_handled cfg r x
  generalize rcvStep cfg r x = y at h ⊢
  cases h with
  | refused du now h =>
    refine hsame rfl (List.forall_mem_singleton.mpr fun hd => ?_)
    rcases h with h | h
    · exact Bool.false_ne_true (hd.1.symm.trans h)
    · exact Nat.not_lt.mpr h hd.2.1
  | started du now h =>
    refine hsame (dtcpSvUpdate_uaf cfg _) (List.forall_mem_singleton.mpr fun hd => ?_)
    exact Bool.false_ne_true (hd.1.symm.trans h)
  | overrun du now hd hover =>
    refine hsame rfl (List.forall_mem_singleton.mpr fun hd => ?_)
    exact Bool.false_ne_true (hd.2.2.1.symm.trans hover)
  | direct du now hd hgt hover ha' => exact absurd ha' ha
  | sequenced du now hd hgt hover ha' =>
    refine (@receiveSequenced_uaf cfg now { r with rendezvous := false } du hb).trans
      (or_congr_right ⟨fun h => ?_, ?_⟩)
    · exact ⟨du, List.mem_cons_self, hd, hgt, hover, h⟩
    · rintro ⟨du', hdu, h⟩
      cases List.mem_singleton.mp hdu
      exact h.2.2.2
  | expired now => exact hnone (dtcpSvUpdate_uaf cfg _)
  | ignored x hx =>
    rw [hx]
    exact hnone rfl
  | kept | forgot | met | asked => exact hnone rfl

theorem RcvAct.of_mem_pdus {x : RcvAct} {du : Pdu} (h : du ∈ x.pdus) :
    ∃ now, x = .receive du now := by
  cases x with
  | receive du' now =>
    cases List.mem_singleton.mp h
    exact ⟨now, rfl⟩
  | a | inactivity | rendezvous | rendezvousRcv => exact absurd h List.not_mem_nil

theorem rcvRun_concat (cfg : Config) (acts : List RcvAct) (x : RcvAct) :
    rcvRun cfg (acts ++ [x]) = (rcvStep cfg (rcvRun cfg acts) x).1 := by
  unfold rcvRun
  rw [List.foldl_append]
  rfl

theorem rcvRun_blocked {cfg : Config} (hrtx : cfg.rtxCtrl = true) (ha : cfg.a ≠ 0)
    (hgap : cfg.maxSduGap < 4294967296) {acts : List RcvAct} (hacts : ∀ x ∈ acts, x.Fits cfg) :
    Ordered cfg (rcvRun cfg acts) ∧ Blocked (rcvRun cfg acts).lwe (rcvRun cfg acts).seqq :=
  @rcvRun_invariant cfg (fun r => Ordered cfg r ∧ Blocked r.lwe r.seqq) _
    ⟨ordered_init cfg hgap, blocked_nil 0⟩
    (fun _ x hr hx => ⟨ordered_step (.inl hrtx) hr.1 hgap hx,
      rcvStep_blocked ha x hr.1.bounded hr.2⟩) _ hacts

/-- A reliable connection with an A timer: `dtp_receive` reads a PDU after its destruction exactly
if, at some time, an acceptable PDU comes that is not the next one and whose number the last entry
of the sequencing queue has, or an entry with only larger ones before it. -/
theorem rcvRun_uaf_iff (cfg : Config) (acts : List RcvAct) (hrtx : cfg.rtxCtrl = true)
    (ha : cfg.a ≠ 0) (hgap : cfg.maxSduGap < 4294967296) (hacts : ∀ x ∈ acts, x.Fits cfg) :
    (rcvRun cfg acts).uaf = true ↔ ∃ pre du now post,
      acts = pre ++ .receive du now :: post ∧ Destroys cfg (rcvRun cfg pre) du := by
  induction acts using List.reverseRecOn with
  | nil =>
    refine ⟨fun h => absurd h Bool.false_ne_true, ?_⟩
    rintro ⟨pre, du, now, post, h, -⟩
    exact absurd h.symm (List.append_ne_nil_of_right_ne_nil _ (List.cons_ne_nil _ _))
  | append_singleton acts x ih =>
    have hpre : ∀ y ∈ acts, y.Fits cfg := fun y hy => hacts y (List.mem_append_left _ hy)
    rw [rcvRun_concat, rcvStep_uaf ha x (rcvRun_blocked hrtx ha hgap hpre).2, ih hpre]
    constructor
    · rintro (⟨pre, du, now, post, rfl, h⟩ | ⟨du, hdu, h⟩)
      · exact ⟨pre, du, now, post ++ [x], by rw [List.append_assoc, List.cons_append], h⟩
      · obtain ⟨now, rfl⟩ := RcvAct.of_mem_pdus hdu
        exact ⟨acts, du, now, [], rfl, h⟩
    · rintro ⟨pre, du, now, post, heq, h⟩
      rcases List.eq_nil_or_concat post with rfl | ⟨post, y, rfl⟩
      · obtain ⟨rfl, hx⟩ := List.append_inj' heq rfl
        rw [List.head_eq_of_cons_eq hx]
        exact .inr ⟨du, List.mem_cons_self, h⟩
      · rw [List.concat_eq_append, ← List.cons_append, ← List.append_assoc] at heq
        obtain ⟨rfl, -⟩ := List.append_inj' heq rfl
        exact .inl ⟨pre, du, now, post, rfl, h⟩

/-- The third PDU comes again while it waits for the second. -/
def twice : List RcvAct := [.receive (pdu 1) 0, .receive (pdu 3) 0, .receive (pdu 3) 5]

theorem twice_uaf : (rcvRun reliable twice).uaf = true := by
  refine (rcvRun_uaf_iff reliable twice rfl (by decide) (by decide) (by decide)).mpr
    ⟨[.receive (pdu 1) 0, .receive (pdu 3) 0], pdu 3, 5, [], rfl, ?_⟩
  have hq : (rcvRun reliable [.receive (pdu 1) 0, .receive (pdu 3) 0]).seqq = [⟨pdu 3, 0⟩] := by
    decide +kernel
  refine ⟨by decide +kernel, by decide +kernel, by decide +kernel, by decide +kernel, ?_⟩
  rw [hq]
  exact ⟨[], ⟨pdu 3, 0⟩, [], rfl, rfl, .inl rfl⟩

-- a copy in the middle is not found but queued again, and keeps the next PDU waiting behind it
example : (fun r : Rcv => (r.uaf, r.lwe, r.seqq.map (·.pdu.seq))) (rcvRun reliable
    [.receive (pdu 1) 0, .receive (pdu 3) 0, .receive (pdu 4) 0, .receive (pdu 6) 0,
      .receive (pdu 4) 1, .receive (pdu 2) 2, .receive (pdu 5) 3]) = (false, 5, [4, 6]) := by
  decide +kernel

end PepDna.Rina.Efcp
