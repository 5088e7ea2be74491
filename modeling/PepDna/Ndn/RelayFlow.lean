import Mathlib.Algebra.Order.BigOperators.Group.List
import Mathlib.Algebra.Order.Group.Nat
import PepDna.Ndn.RelayTables

/-!
# What the relay sends

Data goes only where it was asked for, once for each Interest at most, and as it was received.
Interests are not sent back to where they come from, and each is sent a bounded number of times.
-/

namespace PepDna.Ndn

variable {cfg : Config} {r s : Relay}

/- ### Flow balance -/

/-- Entries in which the face waits. -/
def waits (f : ℕ) (pit : List Interest) : ℕ := pit.countP fun i => decide (f ∈ i.pending)

def sentTo (f : ℕ) (out : List (ℕ × Pkt)) : ℕ := out.countP fun q => decide (q.1 = f)

def asks (f : ℕ) (received : List (ℕ × Pkt)) : ℕ :=
  received.countP fun q => decide (q.1 = f) && decide (q.2.type = NDN_TLV_Interest)

def Balanced (r : Relay) : Prop := ∀ f, sentTo f r.dataOut + waits f r.pit ≤ asks f r.received

theorem asks_got (f face : ℕ) (pkt : Pkt) (received : List (ℕ × Pkt)) :
    asks f received ≤ asks f (received ++ [(face, pkt)]) := by
  rw [asks, asks, List.countP_append]
  exact Nat.le_add_right _ _

theorem asks_interest (f face : ℕ) (pkt : Pkt) (received : List (ℕ × Pkt))
    (h : pkt.type = NDN_TLV_Interest) :
    asks f (received ++ [(face, pkt)]) = asks f received + if face = f then 1 else 0 := by
  rw [asks, List.countP_append, List.countP_singleton, h]
  simp only [decide_true, Bool.and_true, decide_eq_true_iff]
  rfl

theorem waits_cons (f : ℕ) (i : Interest) (pit : List Interest) :
    waits f (i :: pit) = waits f pit + if f ∈ i.pending then 1 else 0 := by
  rw [waits, List.countP_cons]
  simp only [decide_eq_true_iff]
  rfl

theorem waits_appendPending (f face : ℕ) (i : Interest) (pit : List Interest) :
    waits f (interestAppendPending face i :: pit) ≤
      waits f (i :: pit) + if face = f then 1 else 0 := by
  rw [waits_cons, waits_cons]
  by_cases hf : face = f
  · rw [if_pos hf]
    split <;> omega
  · have hmem : f ∈ (interestAppendPending face i).pending ↔ f ∈ i.pending :=
      (mem_appendPending face f i).trans (or_iff_left fun h => hf h.symm)
    rw [if_congr hmem rfl rfl]
    omega

/-- The packet goes to a face at most once, and only if it waits in an entry that then goes. -/
theorem served_le (f : ℕ) (p : NamedPkt) (pit : List Interest) :
    sentTo f ((serveFaces [] ((answered cfg.digest p pit).flatMap (·.pending))).map (·, p.pkt)) +
      waits f (unanswered cfg.digest p pit) ≤ waits f pit := by
  have hsplit := List.countP_eq_countP_filter_add pit (fun i => decide (f ∈ i.pending))
    fun i => satisfies cfg.digest p i.toNamedPkt
  have hsent : sentTo f
      ((serveFaces [] ((answered cfg.digest p pit).flatMap (·.pending))).map (·, p.pkt)) ≤
      waits f (answered cfg.digest p pit) := by
    rw [sentTo, List.countP_map]
    have hcount : (serveFaces [] ((answered cfg.digest p pit).flatMap (·.pending))).countP
        ((fun q : ℕ × Pkt => decide (q.1 = f)) ∘ (·, p.pkt)) =
        (serveFaces [] ((answered cfg.digest p pit).flatMap (·.pending))).count f :=
      List.countP_congr fun g _ => by simp
    rw [hcount, (nodup_serveFaces _ _).count]
    split
    · next hmem =>
      obtain ⟨i, hi, hf⟩ := List.mem_flatMap.mp ((mem_serveFaces _ _ f).mp hmem).1
      exact List.countP_pos_iff.mpr ⟨i, hi, decide_eq_true hf⟩
    · exact Nat.zero_le _
  have hwaits : waits f pit = waits f (answered cfg.digest p pit) +
      waits f (unanswered cfg.digest p pit) := hsplit
  omega

theorem waits_agePit (f t : ℕ) (r : Relay) : waits f (agePit t r).pit ≤ waits f r.pit := by
  rw [waits, waits, agePit, List.countP_map]
  exact List.filter_sublist.countP_le

theorem waits_faceRemove (f face : ℕ) (r : Relay) :
    waits f (faceRemove r face).pit ≤ waits f r.pit := by
  rw [waits, waits, faceRemove]
  refine List.filter_sublist.countP_le.trans ?_
  rw [List.countP_map]
  refine List.countP_mono_left fun i _ hf => decide_eq_true ?_
  exact (List.mem_filter.mp (of_decide_eq_true hf)).1

theorem balanced_effect (h : Balanced r) (heff : Effect cfg r s) : Balanced s := by
  intro f
  have hf := h f
  cases heff with
  | got face pkt nonces harr => exact hf.trans (asks_got f face pkt r.received)
  | answer face p nonces c harr htype hc hm =>
    change sentTo f (r.dataOut ++ [(face, c.pkt)]) + waits f r.pit ≤
      asks f (r.received ++ [(face, p.pkt)])
    rw [asks_interest f face p.pkt _ htype, sentTo, List.countP_append, List.countP_singleton]
    simp only [decide_eq_true_iff]
    rw [sentTo] at hf
    omega
  | join face p nonces pre i post harr htype hpit hsame =>
    change sentTo f r.dataOut + waits f (pre ++ interestAppendPending face i :: post) ≤
      asks f (r.received ++ [(face, p.pkt)])
    have happ := waits_appendPending f face i post
    rw [asks_interest f face p.pkt _ htype]
    rw [hpit] at hf
    rw [waits, List.countP_append] at hf ⊢
    rw [waits, waits] at happ
    omega
  | ask now face p nonces harr htype hnew hlimit =>
    change sentTo f r.dataOut + waits f (interestAppendPending face (interestNew now face p) ::
      r.pit) ≤ asks f (r.received ++ [(face, p.pkt)])
    have happ := waits_appendPending f face (interestNew now face p) r.pit
    have hnobody : f ∉ (interestNew now face p).pending := List.not_mem_nil
    rw [waits_cons f (interestNew now face p), if_neg hnobody] at happ
    rw [asks_interest f face p.pkt _ htype]
    omega
  | serve p hknown hnew =>
    change sentTo f (r.dataOut ++ _) + waits f (unanswered cfg.digest p r.pit) ≤ asks f r.received
    have hserved := @served_le cfg f p r.pit
    rw [sentTo] at hf hserved ⊢
    rw [List.countP_append]
    omega
  | pitAge t => exact (Nat.add_le_add_left (waits_agePit f t r) _).trans hf
  | faceGone face => exact (Nat.add_le_add_left (waits_faceRemove f face r) _).trans hf
  | used | newFace | store | evict | contentsAge | populated => exact hf

/- Every Data packet sent to a face, and every entry in which it still waits, is paid for by an
Interest that came from it. -/
theorem relayRun_balanced (acts : List Act)
    (hrun : Lts.run (relayStep cfg) Relay.init acts = some s) (f : ℕ) :
    sentTo f s.dataOut + waits f s.pit ≤ asks f s.received :=
  run_effects Balanced (fun _ _ => balanced_effect) (fun _ _ _ h _ => h) _ s acts
    (fun _ => le_rfl) hrun f

theorem bothAsk_balanced :
    sentTo 2 (ranTo bothAsk).dataOut + waits 2 (ranTo bothAsk).pit ≤
      asks 2 (ranTo bothAsk).received :=
  relayRun_balanced bothAsk bothAsk_run 2

example : sentTo 2 (ranTo bothAsk).dataOut = 2 := by decide +kernel

/- ### Where Data comes from and goes to -/

/-- The face has sent an Interest that the relay does not tell apart from `i`. -/
def Asked (r : Relay) (f : ℕ) (i : NamedPkt) : Prop :=
  ∃ q : NamedPkt, (f, q.pkt) ∈ r.received ∧ q.pkt.type = NDN_TLV_Interest ∧
    interestIsSame i q = true

structure Traced (cfg : Config) (r : Relay) : Prop where
  parsed : ∀ q ∈ r.received, ndntlvForwarder q.2.buf = .ok q.2
  stored : ∀ c ∈ r.contents, Known r c.pkt
  waiting : ∀ i ∈ r.pit, ∀ f ∈ i.pending, Asked r f i.toNamedPkt
  sent : ∀ d ∈ r.dataOut, Known r d.2 ∧ ∃ q c : NamedPkt, c.pkt = d.2 ∧
    (d.1, q.pkt) ∈ r.received ∧ q.pkt.type = NDN_TLV_Interest ∧ satisfies cfg.digest c q = true

theorem Known.mono {pkt : Pkt} (h : Known r pkt) (hrec : r.received ⊆ s.received)
    (hpop : r.populated ⊆ s.populated) : Known s pkt :=
  h.imp (fun ⟨face, hmem⟩ => ⟨face, hrec hmem⟩) fun hmem => hpop hmem

theorem Asked.mono {f : ℕ} {i : NamedPkt} (h : Asked r f i) (hrec : r.received ⊆ s.received) :
    Asked s f i :=
  h.imp fun _ hq => ⟨hrec hq.1, hq.2⟩

/-- The history grows; contents, PIT and what has been sent are accounted for one by one. -/
theorem Traced.mono (h : Traced cfg r) (hrec : r.received ⊆ s.received)
    (hpop : r.populated ⊆ s.populated) (hparsed : ∀ q ∈ s.received, ndntlvForwarder q.2.buf = .ok q.2)
    (hcont : ∀ c ∈ s.contents, (∃ d ∈ r.contents, c.pkt = d.pkt) ∨ Known s c.pkt)
    (hpit : ∀ i ∈ s.pit, ∀ f ∈ i.pending,
      (∃ j ∈ r.pit, f ∈ j.pending ∧ i.toNamedPkt = j.toNamedPkt) ∨ Asked s f i.toNamedPkt)
    (hout : ∀ d ∈ s.dataOut, d ∈ r.dataOut ∨ Known s d.2 ∧ ∃ q c : NamedPkt, c.pkt = d.2 ∧
      (d.1, q.pkt) ∈ s.received ∧ q.pkt.type = NDN_TLV_Interest ∧ satisfies cfg.digest c q = true) :
    Traced cfg s where
  parsed := hparsed
  stored c hc := (hcont c hc).elim
    (fun ⟨d, hd, heq⟩ => heq ▸ (h.stored d hd).mono hrec hpop) id
  waiting i hi f hf := (hpit i hi f hf).elim
    (fun ⟨j, hj, hfj, heq⟩ => heq ▸ (h.waiting j hj f hfj).mono hrec) id
  sent d hd := (hout d hd).elim
    (fun hold => ⟨(h.sent d hold).1.mono hrec hpop, (h.sent d hold).2.imp fun _ =>
      Exists.imp fun _ hc => ⟨hc.1, hrec hc.2.1, hc.2.2⟩⟩) id

theorem parsed_got (h : Traced cfg r) (face : ℕ) (pkt : Pkt) (nonces : List Bytes)
    (harr : Arrival r face pkt nonces) :
    ∀ q ∈ r.received ++ [(face, pkt)], ndntlvForwarder q.2.buf = .ok q.2 :=
  List.forall_mem_append.mpr ⟨h.parsed, List.forall_mem_singleton.mpr harr.parsed⟩

theorem asked_got (face : ℕ) (p i : NamedPkt) (received : List (ℕ × Pkt))
    (hrec : s.received = received ++ [(face, p.pkt)]) (htype : p.pkt.type = NDN_TLV_Interest)
    (hsame : interestIsSame i p = true) : Asked s face i :=
  ⟨p, hrec ▸ List.mem_append_right _ (List.mem_singleton_self _), htype, hsame⟩

theorem traced_effect (h : Traced cfg r) (heff : Effect cfg r s) : Traced cfg s := by
  have hstored : ∀ c ∈ r.contents, (∃ d ∈ r.contents, c.pkt = d.pkt) ∨ Known s c.pkt :=
    fun c hc => Or.inl ⟨c, hc, rfl⟩
  have hwaiting : ∀ i ∈ r.pit, ∀ f ∈ i.pending,
      (∃ j ∈ r.pit, f ∈ j.pending ∧ i.toNamedPkt = j.toNamedPkt) ∨ Asked s f i.toNamedPkt :=
    fun i hi f hf => Or.inl ⟨i, hi, hf, rfl⟩
  cases heff with
  | got face pkt nonces harr =>
    exact h.mono (List.subset_append_left _ _) (List.Subset.refl _) (parsed_got h face pkt nonces harr)
      hstored hwaiting fun d hd => Or.inl hd
  | answer face p nonces c harr htype hc hm =>
    refine h.mono (List.subset_append_left _ _) (List.Subset.refl _)
      (parsed_got h face p.pkt nonces harr) hstored hwaiting fun d hd => ?_
    rcases List.mem_append.mp hd with hold | hnew
    · exact Or.inl hold
    · cases List.mem_singleton.mp hnew
      refine Or.inr ⟨(h.stored c hc).mono (List.subset_append_left _ _) (List.Subset.refl _), p,
        c.toNamedPkt, rfl, List.mem_append_right _ (List.mem_singleton_self _), htype, ?_⟩
      exact (Bool.and_eq_true _ _ ▸ hm).1
  | join face p nonces pre i post harr htype hpit hsame =>
    refine h.mono (List.subset_append_left _ _) (List.Subset.refl _)
      (parsed_got h face p.pkt nonces harr) hstored (fun j hj f hf => ?_) fun d hd => Or.inl hd
    have hi : i ∈ r.pit := hpit ▸ List.mem_append_right _ (List.mem_cons_self ..)
    have hj' : j ∈ r.pit ∨ j = interestAppendPending face i := by
      rw [hpit]
      simp only [List.mem_append, List.mem_cons] at hj ⊢
      tauto
    rcases hj' with hj' | rfl
    · exact hwaiting j hj' f hf
    · rw [appendPending_named]
      rcases (mem_appendPending face f i).mp hf with hf | rfl
      · exact Or.inl ⟨i, hi, hf, rfl⟩
      · exact Or.inr (asked_got f p i.toNamedPkt r.received rfl htype hsame)
  | ask now face p nonces harr htype hnew hlimit =>
    refine h.mono (List.subset_append_left _ _) (List.Subset.refl _)
      (parsed_got h face p.pkt nonces harr) hstored
      (List.forall_mem_cons.mpr ⟨fun f hf => Or.inr ?_, hwaiting⟩) fun d hd => Or.inl hd
    rw [appendPending_named]
    rcases (mem_appendPending face f _).mp hf with hf | rfl
    · cases hf
    · exact asked_got f p p r.received rfl htype ((interestIsSame_iff_key p p).mpr rfl)
  | serve p hknown hnew =>
    refine h.mono (List.Subset.refl _) (List.Subset.refl _) h.parsed hstored
      (fun i hi => hwaiting i (List.mem_filter.mp hi).1) fun d hd => ?_
    rcases List.mem_append.mp hd with hold | hnew
    · exact Or.inl hold
    · obtain ⟨f, hf, rfl⟩ := List.mem_map.mp hnew
      obtain ⟨i, hi, hfi⟩ := List.mem_flatMap.mp ((mem_serveFaces _ _ f).mp hf).1
      obtain ⟨hmem, hsat⟩ := List.mem_filter.mp hi
      obtain ⟨q, hq, hqtype, hsame⟩ := h.waiting i hmem f hfi
      exact Or.inr ⟨hknown, q, p, rfl, hq, hqtype, satisfies_congr cfg.digest p _ q hsame ▸ hsat⟩
  | store c hknown hnew hlimit =>
    exact h.mono (List.Subset.refl _) (List.Subset.refl _) h.parsed
      (List.forall_mem_cons.mpr ⟨Or.inr hknown, hstored⟩) hwaiting fun d hd => Or.inl hd
  | evict k hk =>
    exact h.mono (List.Subset.refl _) (List.Subset.refl _) h.parsed
      (fun c hc => hstored c (List.mem_of_mem_eraseIdx hc)) hwaiting fun d hd => Or.inl hd
  | contentsAge t =>
    refine h.mono (List.Subset.refl _) (List.Subset.refl _) h.parsed (fun c hc => ?_) hwaiting
      fun d hd => Or.inl hd
    obtain ⟨d, hd, rfl⟩ := List.mem_map.mp hc
    exact Or.inl ⟨d, (List.mem_filter.mp hd).1, congrArg NamedPkt.pkt (aged_pfx t d)⟩
  | pitAge t =>
    refine h.mono (List.Subset.refl _) (List.Subset.refl _) h.parsed hstored (fun j hj f hf => ?_)
      fun d hd => Or.inl hd
    obtain ⟨i, hi, rfl⟩ := List.mem_map.mp hj
    exact hwaiting i (List.mem_filter.mp hi).1 f hf
  | faceGone face =>
    refine h.mono (List.Subset.refl _) (List.Subset.refl _) h.parsed hstored (fun j hj f hf => ?_)
      fun d hd => Or.inl hd
    obtain ⟨i, hi, rfl, -⟩ := mem_pit_faceRemove r face j hj
    exact hwaiting i hi f (List.mem_filter.mp hf).1
  | populated pkt =>
    exact h.mono (List.Subset.refl _) (List.subset_append_left _ _) h.parsed hstored hwaiting
      fun d hd => Or.inl hd
  | used | newFace =>
    exact h.mono (List.Subset.refl _) (List.Subset.refl _) h.parsed hstored hwaiting
      fun d hd => Or.inl hd

theorem traced_run (acts : List Act) (hrun : Lts.run (relayStep cfg) Relay.init acts = some s) :
    Traced cfg s :=
  run_effects (Traced cfg) (fun _ _ => traced_effect)
    (fun _ _ _ h _ => ⟨h.parsed, h.stored, h.waiting, h.sent⟩) _ s acts
    ⟨List.forall_mem_nil _, List.forall_mem_nil _, List.forall_mem_nil _, List.forall_mem_nil _⟩ hrun

/- A Data packet that is sent is, byte for byte, one that was received or put into the store, and it
answers an Interest of the face it goes to. -/
theorem relayRun_data (acts : List Act)
    (hrun : Lts.run (relayStep cfg) Relay.init acts = some s) (f : ℕ) (d : Pkt)
    (hd : (f, d) ∈ s.dataOut) :
    ((∃ g, (g, d) ∈ s.received ∧ ndntlvForwarder d.buf = .ok d) ∨ d ∈ s.populated) ∧
      ∃ q c : NamedPkt, (f, q.pkt) ∈ s.received ∧ q.pkt.type = NDN_TLV_Interest ∧ c.pkt = d ∧
        Names cfg.digest q.pfx c := by
  have htraced := traced_run acts hrun
  obtain ⟨hknown, q, c, hc, hq, hqtype, hsat⟩ := htraced.sent (f, d) hd
  refine ⟨hknown.imp_left fun ⟨g, hg⟩ => ⟨g, hg, htraced.parsed (g, d) hg⟩, q, c, hq, hqtype, hc, ?_⟩
  exact names_of_satisfies cfg.digest c q hsat

def dataPktA : Pkt :=
  { newPkt NDN_TLV_Data with
    pfx := some ⟨[[97]], none⟩
    content := some [66]
    val := 2 ^ 64 - 1
    buf := dataBytes }

theorem bothAsk_data :
    ((∃ g, (g, dataPktA) ∈ (ranTo bothAsk).received ∧
        ndntlvForwarder dataPktA.buf = .ok dataPktA) ∨ dataPktA ∈ (ranTo bothAsk).populated) ∧
      ∃ q c : NamedPkt, (3, q.pkt) ∈ (ranTo bothAsk).received ∧ q.pkt.type = NDN_TLV_Interest ∧
        c.pkt = dataPktA ∧ Names smallRelay.digest q.pfx c :=
  relayRun_data bothAsk bothAsk_run 3 dataPktA (by decide +kernel)

/- ### Where Interests come from and go to -/

/-- The face an Interest was received on. It may be gone; then no other face has its id. -/
def CameFrom (r : Relay) (i : Interest) (g : ℕ) : Prop :=
  (g, i.pkt) ∈ r.received ∧ (i.fromFace = some g ∨ i.fromFace = none ∧ g ∉ r.ids ∧ g ≤ r.seqno)

/-- The packet was received on another face, or on one that reflects, and a route for its name led to
where it was sent. -/
def Forwarded (r : Relay) (q : ℕ × Pkt) : Prop :=
  ∃ g p fwd, (g, q.2) ∈ r.received ∧ (g ≠ q.1 ∨ g ∈ r.reflecting) ∧
    q.2.pfx = some p ∧ fwd ∈ r.routes ∧ fwd.face = q.1 ∧ fwd.pfx.comps <+: p.comps

structure Routed (r : Relay) : Prop where
  flags : ∀ f ∈ r.faces, f.reflect = true → f.faceid ∈ r.reflecting
  fib_sub : r.fib.Sublist r.routes
  pending : ∀ i ∈ r.pit, ∃ g, CameFrom r i g
  out : ∀ q ∈ r.interestsOut, Forwarded r q

theorem Forwarded.mono {q : ℕ × Pkt} (h : Forwarded r q) (hrec : r.received ⊆ s.received)
    (hrefl : r.reflecting ⊆ s.reflecting) (hroutes : r.routes ⊆ s.routes) : Forwarded s q := by
  obtain ⟨g, p, fwd, hg, hne, hp, hfwd, hto⟩ := h
  exact ⟨g, p, fwd, hrec hg, hne.imp_right fun hmem => hrefl hmem, hp, hroutes hfwd, hto⟩

theorem CameFrom.mono {i : Interest} {g : ℕ} (h : CameFrom r i g) (hrec : r.received ⊆ s.received)
    (hids : s.ids = r.ids) (hseq : s.seqno = r.seqno) : CameFrom s i g := by
  refine ⟨hrec h.1, ?_⟩
  rw [hids, hseq]
  exact h.2

theorem forwarded_propagated (hsound : Sound r) (hflags : ∀ f ∈ r.faces, f.reflect = true →
    f.faceid ∈ r.reflecting) (hfib : r.fib.Sublist r.routes) (i : Interest) (g : ℕ)
    (hg : CameFrom r i g) : ∀ q ∈ propagated r i, Forwarded r q := by
  intro q hq
  obtain ⟨fwd, hfwd, rfl⟩ := List.mem_map.mp hq
  obtain ⟨hmem, hforwards⟩ := List.mem_filter.mp hfwd
  refine ⟨g, i.pfx, fwd, hg.1, ?_, i.named, hfib.subset hmem, rfl,
    forwards_prefix r i fwd hforwards⟩
  rcases hg.2 with hfrom | ⟨-, hgone, -⟩
  · rw [forwards, hfrom, Bool.and_eq_true, Bool.or_eq_true, decide_eq_true_iff] at hforwards
    rcases hforwards.2 with hne | hrefl
    · exact Or.inl fun heq => of_decide_eq_true hne heq.symm
    · obtain ⟨f, hf, hflag⟩ := List.any_eq_true.mp hrefl
      rw [Bool.and_eq_true, decide_eq_true_iff] at hflag
      exact Or.inr (hflag.1 ▸ hflags f hf hflag.2)
  · exact Or.inl fun heq => hgone (heq ▸ hsound.fib_mem fwd hmem)

theorem cameFrom_faceRemove (hsound : Sound r) (face : ℕ) (i : Interest) (hi : i ∈ r.pit) (g : ℕ)
    (hg : CameFrom r i g) : CameFrom (faceRemove r face) (i.without face) g := by
  refine ⟨hg.1, ?_⟩
  change (if i.fromFace = some face then none else i.fromFace) = some g ∨
    (if i.fromFace = some face then none else i.fromFace) = none ∧ _ ∧ g ≤ r.seqno
  rw [mem_ids_faceRemove]
  rcases hg.2 with hfrom | ⟨hfrom, hgone, hle⟩
  · by_cases hface : g = face
    · rw [hfrom, hface, if_pos rfl]
      exact Or.inr ⟨rfl, fun hmem => hmem.2 rfl,
        hface ▸ hsound.ids_le g (hsound.from_mem i hi g hfrom)⟩
    · rw [if_neg (by rw [hfrom]; exact fun heq => hface (Option.some.inj heq))]
      exact Or.inl hfrom
  · rw [hfrom, if_neg (Option.some_ne_none face).symm]
    exact Or.inr ⟨rfl, fun hmem => hgone hmem.1, hle⟩

/-- For the effects that leave the faces, the routes and the list of what was sent alone. -/
theorem Routed.frame (h : Routed r) (hfaces : s.faces = r.faces) (hseq : s.seqno = r.seqno)
    (hrefl : s.reflecting = r.reflecting) (hfib : s.fib = r.fib) (hroutes : s.routes = r.routes)
    (hout : s.interestsOut = r.interestsOut) (hrec : r.received ⊆ s.received)
    (hpit : ∀ i ∈ s.pit, ∃ j ∈ r.pit, i.toNamedPkt = j.toNamedPkt ∧ i.fromFace = j.fromFace) :
    Routed s where
  flags := hfaces ▸ hrefl ▸ h.flags
  fib_sub := hfib ▸ hroutes ▸ h.fib_sub
  pending i hi := by
    obtain ⟨j, hj, hnamed, hfrom⟩ := hpit i hi
    obtain ⟨g, hg⟩ := h.pending j hj
    refine ⟨g, hrec (hnamed ▸ hg.1), ?_⟩
    rw [hfrom, hseq, Relay.ids, hfaces]
    exact hg.2
  out q hq := (h.out q (hout ▸ hq)).mono hrec (fun _ hf => hrefl ▸ hf) fun _ hf => hroutes ▸ hf

theorem routed_ask (hsound : Sound r) (h : Routed r) (now face : ℕ) (p : NamedPkt)
    (nonces : List Bytes) :
    Routed (interestPropagate
      { r.got face p.pkt nonces with
        pit := interestAppendPending face (interestNew now face p) :: r.pit
        pitcnt := r.pitcnt + 1 }
      (interestAppendPending face (interestNew now face p))) := by
  have hsub : r.received ⊆ r.received ++ [(face, p.pkt)] := List.subset_append_left _ _
  have hcame : CameFrom { r.got face p.pkt nonces with
      pit := interestAppendPending face (interestNew now face p) :: r.pit
      pitcnt := r.pitcnt + 1 } (interestAppendPending face (interestNew now face p)) face := by
    refine ⟨?_, Or.inl ?_⟩
    · rw [appendPending_named]
      exact List.mem_append_right _ (List.mem_singleton_self _)
    · rw [appendPending_from]
      rfl
  refine ⟨h.flags, h.fib_sub, List.forall_mem_cons.mpr ⟨⟨face, hcame⟩, fun i hi => ?_⟩,
    List.forall_mem_append.mpr ⟨fun q hq => ?_, fun q hq => ?_⟩⟩
  · obtain ⟨g, hg⟩ := h.pending i hi
    exact ⟨g, hg.mono hsub rfl rfl⟩
  · exact (h.out q hq).mono hsub (List.Subset.refl _) (List.Subset.refl _)
  · have hfib : Sound { r.got face p.pkt nonces with
        pit := [], pitcnt := r.pitcnt + 1 } :=
      ⟨hsound.ids_nodup, hsound.ids_le, List.forall_mem_nil _, List.forall_mem_nil _, hsound.fib_mem⟩
    exact forwarded_propagated hfib h.flags h.fib_sub _ face hcame q hq

theorem routed_effect (hsound : Sound r) (h : Routed r) (heff : Effect cfg r s) : Routed s := by
  have hsame : ∀ i ∈ r.pit, ∃ j ∈ r.pit, i.toNamedPkt = j.toNamedPkt ∧ i.fromFace = j.fromFace :=
    fun i hi => ⟨i, hi, rfl, rfl⟩
  cases heff with
  | used faces hfaces =>
    have hids : ({ r with faces := faces } : Relay).ids = r.ids :=
      ids_eq_of_flags r.faces faces hfaces
    refine ⟨fun f hf hflag => ?_, h.fib_sub, fun i hi => ?_, h.out⟩
    · have hmem : (f.faceid, f.reflect) ∈ r.faces.map fun f => (f.faceid, f.reflect) :=
        hfaces ▸ List.mem_map_of_mem hf
      obtain ⟨g, hg, heq⟩ := List.mem_map.mp hmem
      obtain ⟨hid, hrefl⟩ := Prod.mk.inj heq
      exact hid ▸ h.flags g hg (hrefl.trans hflag)
    · obtain ⟨g, hg⟩ := h.pending i hi
      exact ⟨g, hg.mono (List.Subset.refl _) hids rfl⟩
  | newFace now peer static reflect =>
    have hrefl : r.reflecting ⊆ (addFace now peer static reflect r).reflecting := by
      rw [addFace]
      split
      · exact List.subset_cons_self _ _
      · exact List.Subset.refl _
    refine ⟨List.forall_mem_cons.mpr ⟨fun hflag => ?_, fun f hf hflag => hrefl (h.flags f hf hflag)⟩,
      h.fib_sub, fun i hi => ?_, fun q hq => ?_⟩
    · change reflect = true at hflag
      rw [addFace, if_pos hflag]
      exact List.mem_cons_self ..
    · obtain ⟨g, hg⟩ := h.pending i hi
      refine ⟨g, hg.1, hg.2.imp_right fun ⟨hnone, hgone, hle⟩ => ⟨hnone, fun hmem => ?_,
        Nat.le_succ_of_le hle⟩⟩
      rcases List.mem_cons.mp hmem with heq | hmem
      · rw [heq] at hle
        exact Nat.not_succ_le_self _ hle
      · exact hgone hmem
    · exact (h.out q hq).mono (List.Subset.refl _) hrefl (List.Subset.refl _)
  | ask now face p nonces harr htype hnew hlimit => exact routed_ask hsound h now face p nonces
  | join face p nonces pre i post harr htype hpit hsame' =>
    refine h.frame rfl rfl rfl rfl rfl rfl (List.subset_append_left _ _) fun j hj => ?_
    have hj' : j ∈ r.pit ∨ j = interestAppendPending face i := by
      rw [hpit]
      simp only [List.mem_append, List.mem_cons] at hj ⊢
      tauto
    rcases hj' with hj' | rfl
    · exact hsame j hj'
    · exact ⟨i, hpit ▸ List.mem_append_right _ (List.mem_cons_self ..), appendPending_named face i,
        appendPending_from face i⟩
  | serve p hknown hnew =>
    exact h.frame rfl rfl rfl rfl rfl rfl (List.Subset.refl _)
      fun i hi => hsame i (List.mem_filter.mp hi).1
  | pitAge t =>
    refine ⟨h.flags, h.fib_sub, fun j hj => ?_, List.forall_mem_append.mpr ⟨h.out, fun q hq => ?_⟩⟩
    · obtain ⟨i, hi, rfl⟩ := List.mem_map.mp hj
      exact h.pending i (List.mem_filter.mp hi).1
    · obtain ⟨i, hi, hq⟩ := List.mem_flatMap.mp hq
      obtain ⟨g, hg⟩ := h.pending i (List.mem_filter.mp hi).1
      exact forwarded_propagated hsound h.flags h.fib_sub i g hg q hq
  | faceGone face =>
    refine ⟨fun f hf => h.flags f (List.mem_filter.mp hf).1, List.filter_sublist.trans h.fib_sub,
      fun j hj => ?_, h.out⟩
    obtain ⟨i, hi, rfl, -⟩ := mem_pit_faceRemove r face j hj
    obtain ⟨g, hg⟩ := h.pending i hi
    exact ⟨g, cameFrom_faceRemove hsound face i hi g hg⟩
  | got | answer =>
    exact h.frame rfl rfl rfl rfl rfl rfl (List.subset_append_left _ _) hsame
  | store | evict | contentsAge | populated =>
    exact h.frame rfl rfl rfl rfl rfl rfl (List.Subset.refl _) hsame

theorem routed_addRoute (h : Routed r) (pfx : Prefix) (face : ℕ) : Routed (addRoute pfx face r) :=
  ⟨h.flags, h.fib_sub.append (List.Sublist.refl _), h.pending, fun q hq =>
    (h.out q hq).mono (List.Subset.refl _) (List.Subset.refl _) (List.subset_append_left _ _)⟩

theorem routed_run (acts : List Act) (hrun : Lts.run (relayStep cfg) Relay.init acts = some s) :
    Sound s ∧ Routed s :=
  run_effects (fun r => Sound r ∧ Routed r)
    (fun _ _ h heff => ⟨sound_effect h.1 heff, routed_effect h.1 h.2 heff⟩)
    (fun _ pfx face h hface => ⟨sound_addRoute h.1 pfx face hface, routed_addRoute h.2 pfx face⟩) _ s
    acts ⟨sound_init, List.forall_mem_nil _, List.Sublist.refl _, List.forall_mem_nil _,
      List.forall_mem_nil _⟩ hrun

/- Also an Interest whose face is gone does not come back to it under another id. -/
theorem relayRun_interests (acts : List Act)
    (hrun : Lts.run (relayStep cfg) Relay.init acts = some s) (f : ℕ) (pkt : Pkt)
    (hout : (f, pkt) ∈ s.interestsOut) :
    ∃ g p fwd, (g, pkt) ∈ s.received ∧ (g ≠ f ∨ g ∈ s.reflecting) ∧
      pkt.pfx = some p ∧ fwd ∈ s.routes ∧ fwd.face = f ∧ fwd.pfx.comps <+: p.comps :=
  (routed_run acts hrun).2.out (f, pkt) hout

def askPktA : Pkt :=
  { newPkt NDN_TLV_Interest with
    pfx := some ⟨[[97]], none⟩
    val := 2 ^ 64 - 1
    nonce := some [7, 0, 0, 0]
    buf := askBytes 7 }

theorem bothAsk_interests :
    ∃ g p fwd, (g, askPktA) ∈ (ranTo bothAsk).received ∧ (g ≠ 1 ∨ g ∈ (ranTo bothAsk).reflecting) ∧
      askPktA.pfx = some p ∧ fwd ∈ (ranTo bothAsk).routes ∧ fwd.face = 1 ∧
      fwd.pfx.comps <+: p.comps :=
  relayRun_interests bothAsk bothAsk_run 1 askPktA (by decide +kernel)

/- ### How often Interests are sent -/

def interestCount (received : List (ℕ × Pkt)) : ℕ :=
  received.countP fun q => decide (q.2.type = NDN_TLV_Interest)

/-- How often the entries can still be sent again. -/
def attempts (pit : List Interest) : ℕ :=
  (pit.map fun i => CCNL_MAX_INTEREST_RETRANSMIT - i.retries).sum

/-- Each Interest pays for the transmission when it arrives and for all that may follow. -/
structure Bounded (r : Relay) : Prop where
  fib_sub : r.fib.Sublist r.routes
  left : attempts r.pit ≤ 8 * interestCount r.received
  sent : r.interestsOut.length + r.routes.length * attempts r.pit ≤
    r.routes.length * (8 * interestCount r.received)

theorem attempts_sublist (pit pit' : List Interest) (h : pit'.Sublist pit) :
    attempts pit' ≤ attempts pit := by
  rw [attempts, attempts]
  exact (h.map _).sum_le_sum fun _ _ => Nat.zero_le _

theorem attempts_without (face : ℕ) (pit : List Interest) :
    attempts (pit.map (·.without face)) = attempts pit := by
  rw [attempts, attempts, List.map_map]
  rfl

theorem interestCount_got (face : ℕ) (pkt : Pkt) (received : List (ℕ × Pkt)) :
    interestCount received ≤ interestCount (received ++ [(face, pkt)]) := by
  rw [interestCount, interestCount, List.countP_append]
  exact Nat.le_add_right _ _

theorem interestCount_interest (face : ℕ) (pkt : Pkt) (received : List (ℕ × Pkt))
    (h : pkt.type = NDN_TLV_Interest) :
    interestCount (received ++ [(face, pkt)]) = interestCount received + 1 := by
  rw [interestCount, List.countP_append, List.countP_singleton, if_pos (decide_eq_true h)]
  rfl

theorem propagated_length_le (r : Relay) (i : Interest) : (propagated r i).length ≤ r.fib.length := by
  rw [propagated, List.length_map]
  exact List.length_filter_le _ _

/-- Whatever an entry is sent when it is aged, it loses from what is left. -/
theorem attempts_agePit (t : ℕ) (r : Relay) :
    ((r.pit.filter fun i => !i.expired t).flatMap (propagated r)).length +
      r.fib.length * attempts (agePit t r).pit ≤ r.fib.length * attempts r.pit := by
  have hmap : attempts (agePit t r).pit = attempts
      ((r.pit.filter fun i => !i.expired t).map fun i => { i with retries := i.retries + 1 }) := rfl
  rw [hmap]
  clear hmap
  induction r.pit with
  | nil => exact le_rfl
  | cons i pit ih =>
    have hcons : attempts (i :: pit) = (CCNL_MAX_INTEREST_RETRANSMIT - i.retries) + attempts pit := by
      rw [attempts, List.map_cons, List.sum_cons, attempts]
    rw [hcons, Nat.mul_add, List.filter_cons]
    by_cases hexp : i.expired t = true
    · simp only [hexp, Bool.not_true, Bool.false_eq_true, if_false]
      exact ih.trans (Nat.le_add_left _ _)
    · have hlt : i.retries < CCNL_MAX_INTEREST_RETRANSMIT := by
        simp only [Interest.expired, Bool.or_eq_true, decide_eq_true_iff, not_or, not_le] at hexp
        exact hexp.2
      have hone : CCNL_MAX_INTEREST_RETRANSMIT - i.retries =
          1 + (CCNL_MAX_INTEREST_RETRANSMIT - (i.retries + 1)) := by omega
      have hsent := propagated_length_le r i
      simp only [hexp, Bool.not_false, if_true, List.flatMap_cons, List.length_append, List.map_cons]
      rw [attempts, List.map_cons, List.sum_cons, ← attempts, Nat.mul_add, hone, Nat.mul_add,
        Nat.mul_one]
      simp only at ih ⊢
      omega

theorem attempts_agePit_le (t : ℕ) (r : Relay) : attempts (agePit t r).pit ≤ attempts r.pit := by
  refine le_trans ?_ (attempts_sublist r.pit _ (List.filter_sublist (p := fun i => !i.expired t)))
  rw [attempts, attempts, agePit, List.map_map]
  exact List.sum_le_sum fun i _ => Nat.sub_le_sub_left (Nat.le_succ i.retries) _

theorem Bounded.frame (h : Bounded r) (hfib : s.fib.Sublist r.fib) (hroutes : s.routes = r.routes)
    (hout : s.interestsOut = r.interestsOut) (hpit : attempts s.pit ≤ attempts r.pit)
    (hrec : interestCount r.received ≤ interestCount s.received) : Bounded s := by
  have hmul := Nat.mul_le_mul_left r.routes.length hpit
  have hpaid := Nat.mul_le_mul_left r.routes.length (Nat.mul_le_mul_left 8 hrec)
  have hleft := h.left
  have hsent := h.sent
  refine ⟨hroutes ▸ hfib.trans h.fib_sub, by omega, ?_⟩
  rw [hout, hroutes]
  omega

theorem bounded_ask (h : Bounded r) (now face : ℕ) (p : NamedPkt) (nonces : List Bytes)
    (htype : p.pkt.type = NDN_TLV_Interest) :
    Bounded (interestPropagate
      { r.got face p.pkt nonces with
        pit := interestAppendPending face (interestNew now face p) :: r.pit
        pitcnt := r.pitcnt + 1 }
      (interestAppendPending face (interestNew now face p))) := by
  have hattempts : attempts (interestAppendPending face (interestNew now face p) :: r.pit) =
      7 + attempts r.pit := by
    rw [attempts, List.map_cons, List.sum_cons, appendPending_retries]
    rfl
  have hcount := interestCount_interest face p.pkt r.received htype
  have hlen := (propagated_length_le
    { r.got face p.pkt nonces with
      pit := interestAppendPending face (interestNew now face p) :: r.pit
      pitcnt := r.pitcnt + 1 } (interestAppendPending face (interestNew now face p))).trans
    h.fib_sub.length_le
  have hleft := h.left
  have hsent := h.sent
  refine ⟨h.fib_sub, ?_, ?_⟩
  · change attempts (_ :: r.pit) ≤ 8 * interestCount (r.received ++ [(face, p.pkt)])
    omega
  · change (r.interestsOut ++ _).length + r.routes.length * attempts (_ :: r.pit) ≤
      r.routes.length * (8 * interestCount (r.received ++ [(face, p.pkt)]))
    rw [List.length_append, hattempts, hcount, Nat.mul_add, Nat.mul_add, Nat.mul_add]
    omega

theorem bounded_agePit (h : Bounded r) (t : ℕ) : Bounded (agePit t r) := by
  have hle := attempts_agePit_le t r
  have hage := attempts_agePit t r
  have hleft := h.left
  have hsent := h.sent
  obtain ⟨more, hmore⟩ := Nat.exists_eq_add_of_le h.fib_sub.length_le
  have hmul := Nat.mul_le_mul_left more hle
  refine ⟨h.fib_sub, hle.trans hleft, ?_⟩
  change (r.interestsOut ++ _).length + r.routes.length * attempts (agePit t r).pit ≤
    r.routes.length * (8 * interestCount r.received)
  rw [List.length_append]
  refine le_trans ?_ hsent
  rw [hmore, Nat.add_mul, Nat.add_mul]
  omega

theorem bounded_effect (h : Bounded r) (heff : Effect cfg r s) : Bounded s := by
  cases heff with
  | got face pkt nonces harr =>
    exact h.frame (List.Sublist.refl _) rfl rfl le_rfl (interestCount_got face pkt r.received)
  | answer face p nonces c harr htype hc hm =>
    exact h.frame (List.Sublist.refl _) rfl rfl le_rfl (interestCount_got face p.pkt r.received)
  | join face p nonces pre i post harr htype hpit hsame =>
    refine h.frame (List.Sublist.refl _) rfl rfl ?_ (interestCount_got face p.pkt r.received)
    change attempts (pre ++ interestAppendPending face i :: post) ≤ attempts r.pit
    rw [hpit, attempts, attempts, List.map_append, List.map_append, List.map_cons, List.map_cons,
      appendPending_retries]
  | ask now face p nonces harr htype hnew hlimit => exact bounded_ask h now face p nonces htype
  | serve p hknown hnew =>
    exact h.frame (List.Sublist.refl _) rfl rfl (attempts_sublist r.pit _ List.filter_sublist) le_rfl
  | pitAge t => exact bounded_agePit h t
  | faceGone face =>
    refine h.frame List.filter_sublist rfl rfl ?_ le_rfl
    exact (attempts_sublist _ _ List.filter_sublist).trans_eq (attempts_without face r.pit)
  | used | newFace | store | evict | contentsAge | populated =>
    exact h.frame (List.Sublist.refl _) rfl rfl le_rfl le_rfl

theorem bounded_addRoute (h : Bounded r) (pfx : Prefix) (face : ℕ) : Bounded (addRoute pfx face r) := by
  have hleft := h.left
  have hsent := h.sent
  refine ⟨h.fib_sub.append (List.Sublist.refl _), hleft, ?_⟩
  change r.interestsOut.length + (r.routes ++ [_]).length * attempts r.pit ≤
    (r.routes ++ [_]).length * (8 * interestCount r.received)
  rw [List.length_append, List.length_singleton, Nat.add_mul, Nat.add_mul]
  omega

/- One transmission when the Interest arrives and seven later ones, over every route there was. -/
theorem relayRun_amplification (acts : List Act)
    (hrun : Lts.run (relayStep cfg) Relay.init acts = some s) :
    s.interestsOut.length ≤ s.routes.length * (8 * interestCount s.received) := by
  have hbounded : Bounded s :=
    run_effects Bounded (fun _ _ => bounded_effect) (fun _ pfx face h _ => bounded_addRoute h pfx face)
      _ s acts ⟨List.Sublist.refl _, le_rfl, le_rfl⟩ hrun
  exact (Nat.le_add_right _ _).trans hbounded.sent

theorem bothAsk_amplification :
    (ranTo bothAsk).interestsOut.length ≤
      (ranTo bothAsk).routes.length * (8 * interestCount (ranTo bothAsk).received) :=
  relayRun_amplification bothAsk bothAsk_run

-- nobody answers: one route, one Interest, eight transmissions
example : (ranTo (oneAsks ++ List.replicate 8 (.ageing 2))).interestsOut.length = 8 := by
  decide +kernel

/- ### How long Interests are kept -/

def Aged (n : ℕ) (r : Relay) : Prop := ∀ i ∈ r.pit, n ≤ i.retries

def Act.isAgeing : Act → Bool
  | .ageing _ => true
  | _ => false

def ageings (acts : List Act) : ℕ := acts.countP Act.isAgeing

/-- Every entry has been aged `n` times, unless an Interest has come in since `c` of them had. -/
def Quiet (n c : ℕ) (r : Relay) : Prop :=
  c ≤ interestCount r.received ∧ (Aged n r ∨ c < interestCount r.received)

theorem quiet_faceRemove (n c : ℕ) (h : Quiet n c r) (face : ℕ) :
    Quiet n c (faceRemove r face) := by
  refine ⟨h.1, h.2.imp_left fun haged j hj => ?_⟩
  obtain ⟨i, hi, rfl, -⟩ := mem_pit_faceRemove r face j hj
  exact haged i hi

theorem quiet_effect (n c : ℕ) (h : Quiet n c r) (heff : Effect cfg r s) : Quiet n c s := by
  have hgot (face : ℕ) (pkt : Pkt) := interestCount_got face pkt r.received
  have hmore (face : ℕ) (pkt : Pkt) (htype : pkt.type = NDN_TLV_Interest)
      (hs : s.received = r.received ++ [(face, pkt)]) : Quiet n c s := by
    have hcount := interestCount_interest face pkt r.received htype
    have hle := h.1
    exact ⟨by rw [hs]; omega, Or.inr (by rw [hs]; omega)⟩
  cases heff with
  | got face pkt nonces harr =>
    exact ⟨h.1.trans (hgot face pkt), h.2.imp_right fun hlt => hlt.trans_le (hgot face pkt)⟩
  | answer face p nonces c harr htype hc hm => exact hmore face p.pkt htype rfl
  | join face p nonces pre i post harr htype hpit hsame => exact hmore face p.pkt htype rfl
  | ask now face p nonces harr htype hnew hlimit => exact hmore face p.pkt htype rfl
  | serve p hknown hnew =>
    exact ⟨h.1, h.2.imp_left fun haged i hi => haged i (List.mem_filter.mp hi).1⟩
  | pitAge t =>
    refine ⟨h.1, h.2.imp_left fun haged j hj => ?_⟩
    obtain ⟨i, hi, rfl⟩ := List.mem_map.mp hj
    exact Nat.le_succ_of_le (haged i (List.mem_filter.mp hi).1)
  | faceGone face => exact quiet_faceRemove n c h face
  | used | newFace | store | evict | contentsAge | populated => exact h

theorem quiet_doAgeing (n c t : ℕ) (h : Quiet n c r) : Quiet (n + 1) c (doAgeing t r) := by
  have hpit : Quiet (n + 1) c (agePit t (ageContents t r)) := by
    refine ⟨h.1, h.2.imp_left fun haged j hj => ?_⟩
    obtain ⟨i, hi, rfl⟩ := List.mem_map.mp hj
    exact Nat.succ_le_succ (haged i (List.mem_filter.mp hi).1)
  exact List.foldlRecOn _ faceRemove (motive := Quiet (n + 1) c) hpit
    fun _ hu face _ => quiet_faceRemove (n + 1) c hu face

theorem quiet_step (n c : ℕ) (a : Act) (h : Quiet n c r) (hstep : relayStep cfg r a = some s) :
    Quiet (n + ageings [a]) c s := by
  cases a with
  | ageing t =>
    cases hstep
    exact quiet_doAgeing n c t h
  | _ =>
    rcases relayStep_effects r s _ hstep with heffs | ⟨pfx, face, _, rfl⟩
    · exact effects_invariant (Quiet n c) (fun _ _ => quiet_effect n c) r s h heffs
    · exact h

theorem quiet_run (n c : ℕ) (acts : List Act) (h : Quiet n c r)
    (hrun : Lts.run (relayStep cfg) r acts = some s) : Quiet (n + ageings acts) c s := by
  induction acts generalizing n r with
  | nil =>
    cases hrun
    exact h
  | cons a acts ih =>
    obtain ⟨u, hu, hrun⟩ := (Lts.run_cons_eq_some r s a acts).mp hrun
    have hsplit : ageings ([a] ++ acts) = ageings [a] + ageings acts := List.countP_append
    change Quiet (n + ageings ([a] ++ acts)) c s
    rw [hsplit, ← Nat.add_assoc]
    exact ih (n + ageings [a]) (quiet_step n c a h hu) hrun

/- An Interest is pending for at most eight seconds: after as many calls of `ccnl_do_ageing` without
an Interest, whatever else happens between them, the PIT is empty. -/
theorem relayRun_drains (acts acts' : List Act)
    (hrun : Lts.run (relayStep cfg) Relay.init acts = some r)
    (hrun' : Lts.run (relayStep cfg) r acts' = some s)
    (hquiet : interestCount s.received = interestCount r.received) (hageings : 8 ≤ ageings acts') :
    s.pit = [] := by
  have hwhole : Lts.run (relayStep cfg) Relay.init (acts ++ acts') = some s := by
    rw [Lts.run_append, hrun]
    exact hrun'
  have htidy := pitTidy_run (acts ++ acts') hwhole
  have hquiet' := quiet_run 0 (interestCount r.received) acts' ⟨le_rfl, Or.inl fun _ _ => Nat.zero_le _⟩
    hrun'
  rcases hquiet'.2 with haged | hlt
  · refine List.eq_nil_iff_forall_not_mem.mpr fun i hi => ?_
    have hle : i.retries ≤ 7 := htidy.retries_le i hi
    have hge := haged i hi
    omega
  · omega

theorem oneAsks_drains : (ranTo (oneAsks ++ List.replicate 8 (.ageing 2))).pit = [] := by
  have hrun : Lts.run (relayStep smallRelay) Relay.init oneAsks = some (ranTo oneAsks) :=
    ranTo_eq oneAsks (by decide +kernel)
  have hwhole := ranTo_eq (oneAsks ++ List.replicate 8 (.ageing 2)) (by decide +kernel)
  rw [Lts.run_append, hrun] at hwhole
  exact relayRun_drains oneAsks (List.replicate 8 (.ageing 2)) hrun hwhole (by decide +kernel)
    (by decide)

end PepDna.Ndn
