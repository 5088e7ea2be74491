import PepDna.Ndn.RelayEffects

/-!
# The tables of the relay

No table refers to a face that has been freed (`Sound`), and the tables stay within their limits and
without duplicates (`Tidy`), whatever is received, whenever the relay ages its entries and whatever
the management commands do.
-/

namespace PepDna.Ndn

variable {cfg : Config} {r s : Relay}

/- ### Faces -/

structure Sound (r : Relay) : Prop where
  ids_nodup : r.ids.Nodup
  ids_le : ∀ f ∈ r.ids, f ≤ r.seqno
  pending_mem : ∀ i ∈ r.pit, ∀ f ∈ i.pending, f ∈ r.ids
  from_mem : ∀ i ∈ r.pit, ∀ f ∈ i.fromFace, f ∈ r.ids
  fib_mem : ∀ fwd ∈ r.fib, fwd.face ∈ r.ids

theorem sound_init : Sound Relay.init :=
  ⟨List.nodup_nil, List.forall_mem_nil _, List.forall_mem_nil _, List.forall_mem_nil _,
    List.forall_mem_nil _⟩

theorem mem_appendPending (face f : ℕ) (i : Interest) :
    f ∈ (interestAppendPending face i).pending ↔ f ∈ i.pending ∨ f = face := by
  rw [interestAppendPending]
  split
  · next h => exact ⟨Or.inl, fun hf => hf.elim id fun heq => heq ▸ h⟩
  · exact List.mem_append.trans (or_congr_right List.mem_singleton)

@[simp] theorem appendPending_from (face : ℕ) (i : Interest) :
    (interestAppendPending face i).fromFace = i.fromFace := by
  rw [interestAppendPending]
  split <;> rfl

@[simp] theorem appendPending_named (face : ℕ) (i : Interest) :
    (interestAppendPending face i).toNamedPkt = i.toNamedPkt := by
  rw [interestAppendPending]
  split <;> rfl

@[simp] theorem appendPending_retries (face : ℕ) (i : Interest) :
    (interestAppendPending face i).retries = i.retries := by
  rw [interestAppendPending]
  split <;> rfl

theorem mem_ids_faceRemove (r : Relay) (face f : ℕ) :
    f ∈ (faceRemove r face).ids ↔ f ∈ r.ids ∧ f ≠ face := by
  rw [Relay.ids, Relay.ids, faceRemove, List.mem_map, List.mem_map]
  constructor
  · rintro ⟨g, hg, rfl⟩
    obtain ⟨hmem, hne⟩ := List.mem_filter.mp hg
    exact ⟨⟨g, hmem, rfl⟩, of_decide_eq_true hne⟩
  · rintro ⟨⟨g, hg, rfl⟩, hne⟩
    exact ⟨g, List.mem_filter.mpr ⟨hg, decide_eq_true hne⟩, rfl⟩

theorem mem_pit_faceRemove (r : Relay) (face : ℕ) (j : Interest) (h : j ∈ (faceRemove r face).pit) :
    ∃ i ∈ r.pit, j = i.without face ∧ j.pending ≠ [] := by
  obtain ⟨hmem, hne⟩ := List.mem_filter.mp h
  obtain ⟨i, hi, rfl⟩ := List.mem_map.mp hmem
  exact ⟨i, hi, rfl, of_decide_eq_true hne⟩

theorem sound_faceRemove (h : Sound r) (face : ℕ) : Sound (faceRemove r face) where
  ids_nodup := h.ids_nodup.sublist (List.filter_sublist.map _)
  ids_le f hf := h.ids_le f ((mem_ids_faceRemove r face f).mp hf).1
  pending_mem j hj f hf := by
    obtain ⟨i, hi, rfl, -⟩ := mem_pit_faceRemove r face j hj
    obtain ⟨hmem, hne⟩ := List.mem_filter.mp hf
    exact (mem_ids_faceRemove r face f).mpr ⟨h.pending_mem i hi f hmem, of_decide_eq_true hne⟩
  from_mem j hj f hf := by
    obtain ⟨i, hi, rfl, -⟩ := mem_pit_faceRemove r face j hj
    change (if i.fromFace = some face then none else i.fromFace) = some f at hf
    split at hf
    · cases hf
    · next hne =>
      exact (mem_ids_faceRemove r face f).mpr
        ⟨h.from_mem i hi f hf, fun heq => hne (heq ▸ hf)⟩
  fib_mem fwd hfwd := by
    obtain ⟨hmem, hne⟩ := List.mem_filter.mp hfwd
    exact (mem_ids_faceRemove r face _).mpr ⟨h.fib_mem fwd hmem, of_decide_eq_true hne⟩

theorem sound_effect (h : Sound r) (heff : Effect cfg r s) : Sound s := by
  cases heff with
  | used faces hfaces =>
    have hids : ({ r with faces := faces } : Relay).ids = r.ids :=
      ids_eq_of_flags r.faces faces hfaces
    constructor <;> rw [hids]
    exacts [h.ids_nodup, h.ids_le, h.pending_mem, h.from_mem, h.fib_mem]
  | newFace now peer static reflect =>
    refine ⟨List.nodup_cons.mpr ⟨fun hmem => ?_, h.ids_nodup⟩, fun f hf => ?_,
      fun i hi f hf => List.mem_cons_of_mem _ (h.pending_mem i hi f hf),
      fun i hi f hf => List.mem_cons_of_mem _ (h.from_mem i hi f hf),
      fun fwd hfwd => List.mem_cons_of_mem _ (h.fib_mem fwd hfwd)⟩
    · exact absurd (h.ids_le _ hmem) (Nat.not_succ_le_self _)
    · change f ≤ r.seqno + 1
      rcases List.mem_cons.mp hf with rfl | hmem
      · exact le_rfl
      · exact Nat.le_succ_of_le (h.ids_le f hmem)
  | join face p nonces pre i post harr htype hpit hsame =>
    have hi : i ∈ r.pit := hpit ▸ List.mem_append_right _ (List.mem_cons_self ..)
    have hsub : ∀ j ∈ pre ++ interestAppendPending face i :: post,
        j ∈ r.pit ∨ j = interestAppendPending face i := by
      intro j hj
      rw [hpit]
      simp only [List.mem_append, List.mem_cons] at hj ⊢
      tauto
    refine { h with pending_mem := fun j hj f hf => ?_, from_mem := fun j hj f hf => ?_ }
    · rcases hsub j hj with hj | rfl
      · exact h.pending_mem j hj f hf
      · rcases (mem_appendPending face f i).mp hf with hf | rfl
        · exact h.pending_mem i hi f hf
        · exact harr.face_mem
    · rcases hsub j hj with hj | rfl
      · exact h.from_mem j hj f hf
      · exact h.from_mem i hi f (appendPending_from face i ▸ hf)
  | ask now face p nonces harr htype hnew hlimit =>
    refine { h with
      pending_mem := List.forall_mem_cons.mpr ⟨fun f hf => ?_, h.pending_mem⟩
      from_mem := List.forall_mem_cons.mpr ⟨fun f hf => ?_, h.from_mem⟩ }
    · rcases (mem_appendPending face f _).mp hf with hf | rfl
      · cases hf
      · exact harr.face_mem
    · rw [appendPending_from] at hf
      cases hf
      exact harr.face_mem
  | serve p hknown hnew =>
    exact { h with
      pending_mem := fun i hi => h.pending_mem i (List.mem_filter.mp hi).1
      from_mem := fun i hi => h.from_mem i (List.mem_filter.mp hi).1 }
  | pitAge t =>
    refine { h with pending_mem := fun j hj => ?_, from_mem := fun j hj => ?_ }
    all_goals
      obtain ⟨i, hi, rfl⟩ := List.mem_map.mp hj
    · exact h.pending_mem i (List.mem_filter.mp hi).1
    · exact h.from_mem i (List.mem_filter.mp hi).1
  | faceGone face => exact sound_faceRemove h face
  | got | answer | store | evict | contentsAge | populated =>
    exact ⟨h.ids_nodup, h.ids_le, h.pending_mem, h.from_mem, h.fib_mem⟩

theorem sound_addRoute (h : Sound r) (pfx : Prefix) (face : ℕ) (hface : face ∈ r.ids) :
    Sound (addRoute pfx face r) :=
  { h with fib_mem := List.forall_mem_append.mpr ⟨h.fib_mem, List.forall_mem_singleton.mpr hface⟩ }

/-- Room for two packets. -/
def smallRelay : Config := ⟨2, -1, fun _ => false, fun _ => none⟩

def producer : Peer := ⟨0, 1, 9695⟩
def clientA : Peer := ⟨0, 2, 9695⟩
def clientB : Peer := ⟨0, 3, 9695⟩

/-- An Interest for `/a`. -/
def askBytes (nonce : Byte) : Bytes := [5, 11, 7, 3, 8, 1, 97, 10, 4, nonce, 0, 0, 0]

/-- Data for `/a`. -/
def dataBytes : Bytes := [6, 8, 7, 3, 8, 1, 97, 21, 1, 66]

def ranTo (acts : List Act) : Relay :=
  (Lts.run (relayStep smallRelay) Relay.init acts).getD Relay.init

theorem ranTo_eq (acts : List Act)
    (h : (Lts.run (relayStep smallRelay) Relay.init acts).isSome = true) :
    Lts.run (relayStep smallRelay) Relay.init acts = some (ranTo acts) :=
  Lts.run_getD Relay.init Relay.init acts h

def oneRoute : List Act :=
  [.newface 1 producer true false, .prefixreg ⟨[[97]], none⟩ 1 true]

def oneAsks : List Act := oneRoute ++ [.rx 1 clientA (askBytes 7)]

/-- Both clients are served, and one of them again from the store. -/
def bothAsk : List Act :=
  oneAsks ++ [.rx 1 clientB (askBytes 8), .ageing 2, .rx 3 producer dataBytes,
    .rx 4 clientA (askBytes 9)]

theorem bothAsk_run : Lts.run (relayStep smallRelay) Relay.init bothAsk = some (ranTo bothAsk) :=
  ranTo_eq bothAsk (by decide +kernel)

/-- What `ccnl_interest_isSame` compares. -/
def NamedPkt.key (p : NamedPkt) : Prefix × ℕ × ℕ := (p.pfx, p.pkt.minsuffix, p.pkt.maxsuffix)

theorem interestIsSame_iff_key (i p : NamedPkt) : interestIsSame i p = true ↔ i.key = p.key := by
  rw [interestIsSame_iff, NamedPkt.key, NamedPkt.key, Prod.mk.injEq, Prod.mk.injEq]

structure PitTidy (cfg : Config) (r : Relay) : Prop where
  keys_nodup : (r.pit.map fun i => i.key).Nodup
  pending_nodup : ∀ i ∈ r.pit, i.pending.Nodup
  pending_ne_nil : ∀ i ∈ r.pit, i.pending ≠ []
  retries_le : ∀ i ∈ r.pit, i.retries ≤ CCNL_MAX_INTEREST_RETRANSMIT
  pitcnt_eq : r.pitcnt = r.pit.length
  limit : cfg.maxPitEntries = -1 ∨ r.pit = [] ∨ r.pitcnt ≤ cfg.maxPitEntries

theorem nodup_appendPending (face : ℕ) (i : Interest) (h : i.pending.Nodup) :
    (interestAppendPending face i).pending.Nodup := by
  rw [interestAppendPending]
  split
  · exact h
  · next hmem => exact List.concat_eq_append ▸ h.concat hmem

theorem appendPending_ne_nil (face : ℕ) (i : Interest) :
    (interestAppendPending face i).pending ≠ [] :=
  List.ne_nil_of_mem ((mem_appendPending face face i).mpr (Or.inr rfl))

/-- A PIT that has only lost entries, each of which may have lost faces or been sent again. -/
theorem pitTidy_of_sublist (h : PitTidy cfg r)
    (hkeys : (s.pit.map fun i => i.key).Sublist (r.pit.map fun i => i.key))
    (hcnt : s.pitcnt = r.pitcnt - (r.pit.length - s.pit.length))
    (hnodup : ∀ i ∈ s.pit, i.pending.Nodup) (hne : ∀ i ∈ s.pit, i.pending ≠ [])
    (hretries : ∀ i ∈ s.pit, i.retries ≤ CCNL_MAX_INTEREST_RETRANSMIT) : PitTidy cfg s := by
  have hle := hkeys.length_le
  rw [List.length_map, List.length_map] at hle
  have hpitcnt := h.pitcnt_eq
  refine ⟨h.keys_nodup.sublist hkeys, hnodup, hne, hretries, by omega, ?_⟩
  rcases h.limit with hlimit | hnil | hlimit
  · exact Or.inl hlimit
  · rw [hnil, List.length_nil] at hle
    exact Or.inr (Or.inl (List.eq_nil_of_length_eq_zero (by omega)))
  · exact Or.inr (Or.inr (by omega))

theorem pitTidy_serve (h : PitTidy cfg r) (p : NamedPkt) : PitTidy cfg (serve cfg p r) :=
  pitTidy_of_sublist h (List.filter_sublist.map _) rfl
    (fun i hi => h.pending_nodup i (List.mem_filter.mp hi).1)
    (fun i hi => h.pending_ne_nil i (List.mem_filter.mp hi).1)
    (fun i hi => h.retries_le i (List.mem_filter.mp hi).1)

theorem pitTidy_agePit (h : PitTidy cfg r) (t : ℕ) : PitTidy cfg (agePit t r) := by
  refine pitTidy_of_sublist h ?_ ?_ ?_ ?_ ?_
  · change (List.map _ (List.map _ _)).Sublist _
    rw [List.map_map]
    exact List.filter_sublist.map _
  · change r.pitcnt - _ = r.pitcnt - (_ - (List.map _ _).length)
    rw [List.length_map]
  all_goals
    intro j hj
    obtain ⟨i, hi, rfl⟩ := List.mem_map.mp hj
    obtain ⟨hmem, hkept⟩ := List.mem_filter.mp hi
  · exact h.pending_nodup i hmem
  · exact h.pending_ne_nil i hmem
  · simp only [Interest.expired, Bool.not_eq_true', Bool.or_eq_false_iff, decide_eq_false_iff_not,
      not_le] at hkept
    exact hkept.2

theorem pitTidy_faceRemove (h : PitTidy cfg r) (face : ℕ) : PitTidy cfg (faceRemove r face) := by
  refine pitTidy_of_sublist h ?_ rfl ?_ ?_ ?_
  · have hkeys : (r.pit.map (·.without face)).map (fun i => i.key) = r.pit.map fun i => i.key :=
      List.map_map.trans rfl
    rw [← hkeys]
    exact List.filter_sublist.map _
  all_goals
    intro j hj
    obtain ⟨i, hi, rfl, hne⟩ := mem_pit_faceRemove r face j hj
  · exact (h.pending_nodup i hi).filter _
  · exact hne
  · exact h.retries_le i hi

theorem pitTidy_effect (h : PitTidy cfg r) (heff : Effect cfg r s) : PitTidy cfg s := by
  cases heff with
  | join face p nonces pre i post harr htype hpit hsame =>
    have hi : i ∈ r.pit := hpit ▸ List.mem_append_right _ (List.mem_cons_self ..)
    have hkeys : (pre ++ interestAppendPending face i :: post).map (fun i => i.key) =
        r.pit.map fun i => i.key := by
      rw [hpit, List.map_append, List.map_append, List.map_cons, List.map_cons,
        appendPending_named]
    have hlen : (pre ++ interestAppendPending face i :: post).length = r.pit.length := by
      rw [hpit, List.length_append, List.length_append, List.length_cons, List.length_cons]
    have hall (P : Interest → Prop) (hP : ∀ j ∈ r.pit, P j) (hnew : P (interestAppendPending face i)) :
        ∀ j ∈ pre ++ interestAppendPending face i :: post, P j := by
      rw [hpit, List.forall_mem_append, List.forall_mem_cons] at hP
      rw [List.forall_mem_append, List.forall_mem_cons]
      exact ⟨hP.1, hnew, hP.2.2⟩
    refine pitTidy_of_sublist h (hkeys ▸ List.Sublist.refl _) ?_ (hall _ h.pending_nodup ?_)
      (hall _ h.pending_ne_nil ?_) (hall _ h.retries_le ?_)
    · change r.pitcnt = r.pitcnt - (_ - (List.length _ : ℤ))
      rw [hlen]
      omega
    · exact nodup_appendPending face i (h.pending_nodup i hi)
    · exact appendPending_ne_nil face i
    · rw [appendPending_retries]
      exact h.retries_le i hi
  | ask now face p nonces harr htype hnew hlimit =>
    constructor
    · refine List.nodup_cons.mpr ⟨fun hmem => ?_, h.keys_nodup⟩
      obtain ⟨i, hi, hkey⟩ := List.mem_map.mp hmem
      simp only [appendPending_named] at hkey
      exact Bool.false_ne_true ((hnew i hi).symm.trans ((interestIsSame_iff_key _ p).mpr hkey))
    · exact List.forall_mem_cons.mpr ⟨nodup_appendPending _ _ List.nodup_nil, h.pending_nodup⟩
    · exact List.forall_mem_cons.mpr ⟨appendPending_ne_nil _ _, h.pending_ne_nil⟩
    · refine List.forall_mem_cons.mpr ⟨?_, h.retries_le⟩
      rw [appendPending_retries]
      exact Nat.zero_le _
    · change r.pitcnt + 1 = ((r.pit.length + 1 : ℕ) : ℤ)
      rw [h.pitcnt_eq, Int.natCast_succ]
    · exact hlimit.imp_right fun hlt => Or.inr (Int.add_one_le_of_lt hlt)
  | serve p hknown hnew => exact pitTidy_serve h p
  | pitAge t => exact pitTidy_agePit h t
  | faceGone face => exact pitTidy_faceRemove h face
  | used | newFace | got | answer | store | evict | contentsAge | populated =>
    exact ⟨h.keys_nodup, h.pending_nodup, h.pending_ne_nil, h.retries_le, h.pitcnt_eq, h.limit⟩

/- ### Contents and nonces -/

structure StoreTidy (cfg : Config) (r : Relay) : Prop where
  names_nodup : (r.contents.map fun c => c.pfx).Nodup
  contentcnt_eq : r.contentcnt = r.contents.length
  limit : cfg.maxCacheEntries ≤ 0 ∨ r.contentcnt ≤ cfg.maxCacheEntries + 1
  nonces_nodup : r.nonces.Nodup
  nonces_le : r.nonces.length ≤ CCNL_MAX_NONCES

theorem nonces_of_append (nonces nonces' : List Bytes) (nonce : Bytes)
    (h : nonceFindOrAppend nonces nonce = some nonces') (hnodup : nonces.Nodup)
    (hle : nonces.length ≤ CCNL_MAX_NONCES) : nonces'.Nodup ∧ nonces'.length ≤ CCNL_MAX_NONCES := by
  rw [nonceFindOrAppend] at h
  split at h
  · cases h
  · next hnew =>
    cases h
    rw [CCNL_MAX_NONCES] at hle ⊢
    split
    · have hsub := List.dropLast_sublist nonces
      refine ⟨List.nodup_cons.mpr ⟨fun hmem => hnew (hsub.subset hmem), hnodup.sublist hsub⟩, ?_⟩
      rw [List.length_cons, List.length_dropLast]
      omega
    · exact ⟨List.nodup_cons.mpr ⟨hnew, hnodup⟩, by rw [List.length_cons]; omega⟩

theorem storeTidy_got (h : StoreTidy cfg r) (face : ℕ) (pkt : Pkt) (nonces : List Bytes)
    (harr : Arrival r face pkt nonces) : nonces.Nodup ∧ nonces.length ≤ CCNL_MAX_NONCES := by
  rcases harr.nonces_eq with rfl | ⟨nonce, hnonce⟩
  · exact ⟨h.nonces_nodup, h.nonces_le⟩
  · exact nonces_of_append r.nonces nonces nonce hnonce h.nonces_nodup h.nonces_le

theorem aged_pfx (t : ℕ) (c : Content) : (c.aged t).toNamedPkt = c.toNamedPkt := by
  rw [Content.aged]
  split <;> rfl

theorem storeTidy_effect (h : StoreTidy cfg r) (heff : Effect cfg r s) : StoreTidy cfg s := by
  cases heff with
  | got face pkt nonces harr | answer face p nonces c harr htype hc hm
  | join face p nonces pre i post harr htype hpit hsame
  | ask now face p nonces harr htype hnew hlimit =>
    obtain ⟨hnodup, hle⟩ := storeTidy_got h face _ nonces harr
    exact ⟨h.names_nodup, h.contentcnt_eq, h.limit, hnodup, hle⟩
  | store c hknown hnew hlimit =>
    refine { h with names_nodup := ?_, contentcnt_eq := ?_, limit := ?_ }
    · refine List.nodup_cons.mpr ⟨fun hmem => ?_, h.names_nodup⟩
      obtain ⟨d, hd, heq⟩ := List.mem_map.mp hmem
      exact (hasName_eq_false r.contents c.pfx).mp hnew d hd heq
    · change r.contentcnt + 1 = ((r.contents.length + 1 : ℕ) : ℤ)
      rw [h.contentcnt_eq, Int.natCast_succ]
    · exact hlimit.imp_right fun hle => Int.add_le_add_right hle 1
  | evict k hk =>
    refine { h with names_nodup := ?_, contentcnt_eq := ?_, limit := ?_ }
    · exact h.names_nodup.sublist ((List.eraseIdx_sublist _ _).map _)
    · change r.contentcnt - 1 = ((r.contents.eraseIdx k).length : ℤ)
      rw [h.contentcnt_eq, List.length_eraseIdx, if_pos hk]
      omega
    · change _ ∨ r.contentcnt - 1 ≤ _
      exact h.limit.imp_right fun hle => by omega
  | contentsAge t =>
    have hnames : ((r.contents.filter fun c => !c.expired t).map (·.aged t)).map (fun c => c.pfx) =
        (r.contents.filter fun c => !c.expired t).map fun c => c.pfx := by
      rw [List.map_map]
      exact List.map_congr_left fun c _ => congrArg NamedPkt.pfx (aged_pfx t c)
    refine { h with names_nodup := ?_, contentcnt_eq := ?_, limit := ?_ }
    · change (List.map _ (List.map _ _)).Nodup
      rw [hnames]
      exact h.names_nodup.sublist (List.filter_sublist.map _)
    · have hcnt := h.contentcnt_eq
      simp only [ageContents]
      omega
    · have hlen := List.length_filter_le (fun c : Content => !c.expired t) r.contents
      change _ ∨ r.contentcnt - (r.contents.length - ((List.map _ _).length : ℤ)) ≤ _
      rw [List.length_map]
      exact h.limit.imp_right fun hle => by omega
  | used | newFace | serve | pitAge | faceGone | populated =>
    exact ⟨h.names_nodup, h.contentcnt_eq, h.limit, h.nonces_nodup, h.nonces_le⟩

theorem pitTidy_run (acts : List Act) (hrun : Lts.run (relayStep cfg) Relay.init acts = some s) :
    PitTidy cfg s :=
  run_effects (PitTidy cfg) (fun _ _ => pitTidy_effect)
    (fun _ _ _ h _ => ⟨h.keys_nodup, h.pending_nodup, h.pending_ne_nil, h.retries_le, h.pitcnt_eq,
      h.limit⟩) Relay.init s acts
    ⟨List.nodup_nil, List.forall_mem_nil _, List.forall_mem_nil _, List.forall_mem_nil _, rfl,
      Or.inr (Or.inl rfl)⟩ hrun

theorem storeTidy_init : StoreTidy cfg Relay.init := by
  refine ⟨List.nodup_nil, rfl, ?_, List.nodup_nil, Nat.zero_le _⟩
  change _ ∨ (0 : ℤ) ≤ _
  omega

theorem storeTidy_step (h : StoreTidy cfg r) (a : Act) (hstep : relayStep cfg r a = some s) :
    StoreTidy cfg s :=
  step_effects (StoreTidy cfg) (fun _ _ => storeTidy_effect)
    (fun _ _ _ h _ => ⟨h.names_nodup, h.contentcnt_eq, h.limit, h.nonces_nodup, h.nonces_le⟩) r s a h
    hstep

theorem storeTidy_run (acts : List Act) (hrun : Lts.run (relayStep cfg) Relay.init acts = some s) :
    StoreTidy cfg s :=
  Lts.run_invariant (StoreTidy cfg) (fun _ a _ h => storeTidy_step h a) _ s acts storeTidy_init hrun

/- A store with a limit may hold one entry more, see `contentAdd2cache`. -/
theorem relayRun_tables (acts : List Act)
    (hrun : Lts.run (relayStep cfg) Relay.init acts = some s) : PitTidy cfg s ∧ StoreTidy cfg s :=
  ⟨pitTidy_run acts hrun, storeTidy_run acts hrun⟩

theorem bothAsk_tables : PitTidy smallRelay (ranTo bothAsk) ∧ StoreTidy smallRelay (ranTo bothAsk) :=
  relayRun_tables bothAsk bothAsk_run

end PepDna.Ndn
