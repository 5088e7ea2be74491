import Mathlib.Data.List.Count
import Mathlib.Data.List.Nodup
import PepDna.Ndn.Relay

/-!
# What the relay can do

Every function of the relay changes its tables in one of a dozen ways, listed in `Effect`; a step is
a sequence of them. The invariants of the later modules are proved for `Effect` only.
-/

namespace PepDna.Ndn

open Relation (ReflTransGen)

/- ### Names -/

theorem cmpLoop_exact (comps nams : List Bytes) (i : ℕ) (h : comps.length = nams.length) :
    (cmpLoop comps nams i).2 = true ↔ comps = nams := by
  induction comps generalizing nams i with
  | nil =>
    rw [List.eq_nil_of_length_eq_zero h.symm]
    exact ⟨fun _ => rfl, fun _ => rfl⟩
  | cons comp comps ih =>
    cases nams with
    | nil => exact absurd h (by simp)
    | cons nam nams =>
      rw [cmpLoop, List.cons.injEq]
      by_cases hc : comp = nam
      · rw [if_pos hc, ih nams (i + 1) (Nat.succ.inj h)]
        exact ⟨fun hr => ⟨hc, hr⟩, fun hr => hr.2⟩
      · rw [if_neg hc]
        exact ⟨fun hr => absurd hr Bool.false_ne_true, fun hr => absurd hr.1 hc⟩

theorem cmpLoop_longest (comps nams : List Bytes) (i : ℕ) :
    i + comps.length ≤ (cmpLoop comps nams i).1 ↔ comps <+: nams := by
  induction comps generalizing nams i with
  | nil =>
    rw [cmpLoop]
    · exact ⟨fun _ => List.nil_prefix, fun _ => le_rfl⟩
    · exact nofun
  | cons comp comps ih =>
    cases nams with
    | nil =>
      rw [cmpLoop, List.prefix_nil, List.length_cons]
      · exact ⟨fun hr => by omega, fun hr => absurd hr (List.cons_ne_nil comp comps)⟩
      · exact nofun
    | cons nam nams =>
      rw [cmpLoop, List.cons_prefix_cons, List.length_cons]
      by_cases hc : comp = nam
      · rw [if_pos hc, ← ih nams (i + 1), Nat.add_right_comm, Nat.add_assoc]
        exact ⟨fun hr => ⟨hc, hr⟩, fun hr => hr.2⟩
      · rw [if_neg hc]
        exact ⟨fun hr => absurd hr (by simp), fun hr => absurd hr.1 hc⟩

theorem prefixCmp_exact (pfx nam : Prefix) (md : Option Bytes) :
    prefixCmp pfx md nam .exact =
      if pfx.comps ++ md.toList = nam.comps ∧ pfx.chunknum = nam.chunknum then 0 else -1 := by
  rw [prefixCmp]
  by_cases hlen : (pfx.comps ++ md.toList).length = nam.comps.length
  · by_cases hchunk : pfx.chunknum = nam.chunknum
    · have hloop := cmpLoop_exact _ _ 0 hlen
      simp only [hlen, hchunk, ne_eq, not_true_eq_false, if_false, and_true]
      exact if_congr hloop rfl rfl
    · simp only [hlen, hchunk, ne_eq, not_true_eq_false, not_false_eq_true, if_false, if_true,
        and_false]
  · have hne : ¬ (pfx.comps ++ md.toList = nam.comps ∧ pfx.chunknum = nam.chunknum) :=
      fun h => hlen (congrArg List.length h.1)
    exact (if_pos hlen).trans (if_neg hne).symm

theorem prefix_eq (pfx nam : Prefix) (hcomps : nam.comps = pfx.comps)
    (hchunk : nam.chunknum = pfx.chunknum) : pfx = nam := by
  cases pfx
  cases nam
  cases hcomps
  cases hchunk
  rfl

theorem prefixCmp_exact_eq_zero (pfx nam : Prefix) :
    prefixCmp pfx none nam .exact = 0 ↔ pfx = nam := by
  rw [prefixCmp_exact, Option.toList_none, List.append_nil]
  constructor
  · intro h
    split at h
    · next heq => exact prefix_eq pfx nam heq.1.symm heq.2.symm
    · cases h
  · rintro rfl
    exact if_pos ⟨rfl, rfl⟩

/-- `ccnl_i_prefixof_c` compares whole names: the Interest has the name of the content, or that name
with the digest of the packet as its last component. -/
def Names (digest : Bytes → Option Bytes) (pfx : Prefix) (c : NamedPkt) : Prop :=
  pfx = c.pfx ∨ ∃ md, digest c.pkt.buf = some md ∧ pfx = ⟨c.pfx.comps ++ [md], c.pfx.chunknum⟩

theorem names_of_satisfies (digest : Bytes → Option Bytes) (c p : NamedPkt)
    (h : satisfies digest c p = true) : Names digest p.pfx c := by
  have h0 : 0 ≤ iPrefixofC digest p.pfx p.pkt.minsuffix p.pkt.maxsuffix c := of_decide_eq_true h
  rw [iPrefixofC] at h0
  split at h0
  · exact absurd h0 (by decide)
  · split at h0
    · split at h0
      · exact absurd h0 (by decide)
      · next md hmd =>
        rw [prefixCmp_exact] at h0
        split at h0
        · next heq =>
          exact Or.inr ⟨md, hmd, prefix_eq p.pfx ⟨c.pfx.comps ++ [md], c.pfx.chunknum⟩ heq.1 heq.2⟩
        · exact absurd h0 (by decide)
    · rw [prefixCmp_exact, Option.toList_none, List.append_nil] at h0
      split at h0
      · next heq => exact Or.inl (prefix_eq p.pfx c.pfx heq.1 heq.2)
      · exact absurd h0 (by decide)

/-- With the suffix limits that an Interest has by default, the name decides. -/
theorem satisfies_of_eq (digest : Bytes → Option Bytes) (c p : NamedPkt) (h : p.pfx = c.pfx)
    (hmin : p.pkt.minsuffix = 0) (hmax : p.pkt.maxsuffix = CCNL_MAX_NAME_COMP)
    (hlen : c.pfx.comps.length ≤ CCNL_MAX_NAME_COMP) : satisfies digest c p = true := by
  rw [CCNL_MAX_NAME_COMP] at hmax hlen
  have hbounds : ¬ (c.pfx.comps.length + 1 < (c.pfx.comps.length + 0) % 2 ^ 64 ∨
      (c.pfx.comps.length + 64) % 2 ^ 64 < c.pfx.comps.length + 1) := by omega
  have hcmp : iPrefixofC digest p.pfx p.pkt.minsuffix p.pkt.maxsuffix c = 0 := by
    rw [iPrefixofC, h, hmin, hmax, if_neg hbounds, if_neg (by omega), prefixCmp_exact_eq_zero]
  rw [satisfies, hcmp]
  rfl

theorem interestIsSame_iff (i p : NamedPkt) :
    interestIsSame i p = true ↔
      i.pfx = p.pfx ∧ i.pkt.minsuffix = p.pkt.minsuffix ∧ i.pkt.maxsuffix = p.pkt.maxsuffix := by
  rw [interestIsSame, Bool.and_eq_true, Bool.and_eq_true, decide_eq_true_iff, decide_eq_true_iff,
    decide_eq_true_iff, prefixCmp_exact_eq_zero, and_assoc]

theorem satisfies_congr (digest : Bytes → Option Bytes) (c i p : NamedPkt)
    (h : interestIsSame i p = true) : satisfies digest c i = satisfies digest c p := by
  obtain ⟨hname, hmin, hmax⟩ := (interestIsSame_iff i p).mp h
  rw [satisfies, satisfies, hname, hmin, hmax]

theorem hasName_iff (contents : List Content) (pfx : Prefix) :
    hasName contents pfx = true ↔ ∃ c ∈ contents, c.pfx = pfx := by
  rw [hasName, List.any_eq_true]
  exact exists_congr fun c => and_congr_right fun _ => by
    rw [decide_eq_true_iff, prefixCmp_exact_eq_zero]

theorem hasName_eq_false (contents : List Content) (pfx : Prefix) :
    hasName contents pfx = false ↔ ∀ c ∈ contents, c.pfx ≠ pfx := by
  rw [← Bool.not_eq_true, hasName_iff]
  exact ⟨fun h c hc heq => h ⟨c, hc, heq⟩, fun h ⟨c, hc, heq⟩ => h c hc heq⟩

theorem forwards_prefix (r : Relay) (i : Interest) (fwd : Forward) (h : forwards r i fwd = true) :
    fwd.pfx.comps <+: i.pfx.comps := by
  rw [forwards, Bool.and_eq_true, decide_eq_true_iff, prefixCmp, Option.toList_none,
    List.append_nil] at h
  refine (cmpLoop_longest fwd.pfx.comps i.pfx.comps 0).mp ?_
  rw [Nat.zero_add]
  exact_mod_cast h.1

theorem of_eq_some (pkt : Pkt) (p : NamedPkt) (h : NamedPkt.of pkt = some p) : p.pkt = pkt := by
  rw [NamedPkt.of] at h
  split at h
  · cases h
  · cases h
    rfl

/- ### Serving -/

theorem mem_serveFaces (served pending : List ℕ) (f : ℕ) :
    f ∈ serveFaces served pending ↔ f ∈ pending ∧ f ∉ served := by
  induction pending generalizing served with
  | nil => simp [serveFaces]
  | cons g pending ih =>
    rw [serveFaces]
    by_cases hg : g ∈ served
    · rw [if_pos hg, ih, List.mem_cons]
      constructor
      · intro h
        exact ⟨Or.inr h.1, h.2⟩
      · rintro ⟨rfl | h, hf⟩
        · exact absurd hg hf
        · exact ⟨h, hf⟩
    · rw [if_neg hg, List.mem_cons, ih, List.mem_cons, List.mem_cons]
      constructor
      · rintro (rfl | ⟨h, hf⟩)
        · exact ⟨Or.inl rfl, hg⟩
        · exact ⟨Or.inr h, fun hs => hf (Or.inr hs)⟩
      · rintro ⟨rfl | h, hf⟩
        · exact Or.inl rfl
        · by_cases hfg : f = g
          · exact Or.inl hfg
          · exact Or.inr ⟨h, fun hs => hs.elim hfg hf⟩

theorem nodup_serveFaces (served pending : List ℕ) : (serveFaces served pending).Nodup := by
  induction pending generalizing served with
  | nil => exact List.nodup_nil
  | cons g pending ih =>
    rw [serveFaces]
    split
    · exact ih served
    · refine List.nodup_cons.mpr ⟨fun h => ?_, ih (g :: served)⟩
      exact ((mem_serveFaces (g :: served) pending g).mp h).2 (List.mem_cons_self ..)

theorem serveFaces_congr (served served' pending : List ℕ) (h : ∀ f, f ∈ served ↔ f ∈ served') :
    serveFaces served pending = serveFaces served' pending := by
  induction pending generalizing served served' with
  | nil => rfl
  | cons g pending ih =>
    rw [serveFaces, serveFaces, ih served served' h, ih (g :: served) (g :: served') fun f => by
      rw [List.mem_cons, List.mem_cons, h f]]
    exact if_congr (h g) rfl rfl

theorem serveFaces_append (served pending pending' : List ℕ) :
    serveFaces served (pending ++ pending') =
      serveFaces served pending ++ serveFaces (served ++ serveFaces served pending) pending' := by
  induction pending generalizing served with
  | nil => rw [List.nil_append, serveFaces, List.append_nil, List.nil_append]
  | cons g pending ih =>
    rw [List.cons_append, serveFaces, serveFaces]
    split
    · exact ih served
    · rw [ih (g :: served), List.cons_append]
      congr 2
      refine serveFaces_congr _ _ _ fun f => ?_
      simp only [List.mem_append, List.mem_cons]
      tauto

/-- The entries a packet answers, and the faces that wait in them. -/
def answered (digest : Bytes → Option Bytes) (c : NamedPkt) (pit : List Interest) : List Interest :=
  pit.filter fun i => satisfies digest c i.toNamedPkt

def unanswered (digest : Bytes → Option Bytes) (c : NamedPkt) (pit : List Interest) :
    List Interest :=
  pit.filter fun i => !satisfies digest c i.toNamedPkt

theorem serveLoop_eq (digest : Bytes → Option Bytes) (c : NamedPkt) (pit : List Interest)
    (faces : List ℕ) :
    (serveLoop digest c pit faces).pit = unanswered digest c pit ∧
      (serveLoop digest c pit faces).faces =
        faces ++ serveFaces faces ((answered digest c pit).flatMap (·.pending)) := by
  induction pit generalizing faces with
  | nil => exact ⟨rfl, (List.append_nil faces).symm⟩
  | cons i pit ih =>
    rw [serveLoop, unanswered, answered, List.filter_cons, List.filter_cons]
    by_cases hs : satisfies digest c i.toNamedPkt = true
    · simp only [hs, if_true, Bool.not_true, Bool.false_eq_true, if_false, List.flatMap_cons]
      by_cases hp : i.pending = []
      · rw [if_pos hp, hp, List.nil_append]
        exact ih faces
      · obtain ⟨hpit, hfaces⟩ := ih (faces ++ serveFaces faces i.pending)
        rw [if_neg hp]
        refine ⟨hpit, ?_⟩
        rw [hfaces, serveFaces_append, List.append_assoc]
        rfl
    · obtain ⟨hpit, hfaces⟩ := ih faces
      simp only [hs, if_true, Bool.not_false, Bool.false_eq_true, if_false]
      exact ⟨congrArg (i :: ·) hpit, hfaces⟩

/-- The relay after `ccnl_content_serve_pending`. -/
def serve (cfg : Config) (p : NamedPkt) (r : Relay) : Relay :=
  { r with
    pit := unanswered cfg.digest p r.pit
    pitcnt := r.pitcnt - (r.pit.length - (unanswered cfg.digest p r.pit).length)
    dataOut := r.dataOut ++
      (serveFaces [] ((answered cfg.digest p r.pit).flatMap (·.pending))).map (·, p.pkt) }

theorem contentServePending_eq (cfg : Config) (r : Relay) (c : Content) :
    (contentServePending cfg r c).2.2 = serve cfg c.toNamedPkt r := by
  obtain ⟨hpit, hfaces⟩ := serveLoop_eq cfg.digest c.toNamedPkt r.pit []
  rw [contentServePending, serve]
  simp only [hpit, hfaces, List.nil_append]

/- ### The effects -/

def Relay.ids (r : Relay) : List ℕ := r.faces.map (·.faceid)

def Relay.got (r : Relay) (face : ℕ) (pkt : Pkt) (nonces : List Bytes) : Relay :=
  { r with received := r.received ++ [(face, pkt)], nonces := nonces }

/-- A packet that has just been read from a datagram, on a face there is. -/
structure Arrival (r : Relay) (face : ℕ) (pkt : Pkt) (nonces : List Bytes) : Prop where
  face_mem : face ∈ r.ids
  parsed : ndntlvForwarder pkt.buf = .ok pkt
  nonces_eq : nonces = r.nonces ∨ ∃ nonce, nonceFindOrAppend r.nonces nonce = some nonces

def Known (r : Relay) (pkt : Pkt) : Prop := (∃ face, (face, pkt) ∈ r.received) ∨ pkt ∈ r.populated

inductive Effect (cfg : Config) : Relay → Relay → Prop where
  | used (r : Relay) (faces : List Face)
      (h : faces.map (fun f => (f.faceid, f.reflect)) =
        r.faces.map fun f => (f.faceid, f.reflect)) :
      Effect cfg r { r with faces := faces }
  | newFace (r : Relay) (now : ℕ) (peer : Peer) (static reflect : Bool) :
      Effect cfg r (addFace now peer static reflect r)
  | got (r : Relay) (face : ℕ) (pkt : Pkt) (nonces : List Bytes)
      (h : Arrival r face pkt nonces) : Effect cfg r (r.got face pkt nonces)
  | answer (r : Relay) (face : ℕ) (p : NamedPkt) (nonces : List Bytes) (c : Content)
      (h : Arrival r face p.pkt nonces) (htype : p.pkt.type = NDN_TLV_Interest)
      (hc : c ∈ r.contents) (hm : ndntlvCMatch cfg.digest p c = true) :
      Effect cfg r { r.got face p.pkt nonces with dataOut := r.dataOut ++ [(face, c.pkt)] }
  | join (r : Relay) (face : ℕ) (p : NamedPkt) (nonces : List Bytes) (pre : List Interest)
      (i : Interest) (post : List Interest) (h : Arrival r face p.pkt nonces)
      (htype : p.pkt.type = NDN_TLV_Interest) (hpit : r.pit = pre ++ i :: post)
      (hsame : interestIsSame i.toNamedPkt p = true) :
      Effect cfg r
        { r.got face p.pkt nonces with pit := pre ++ interestAppendPending face i :: post }
  | ask (r : Relay) (now face : ℕ) (p : NamedPkt) (nonces : List Bytes)
      (h : Arrival r face p.pkt nonces) (htype : p.pkt.type = NDN_TLV_Interest)
      (hnew : ∀ i ∈ r.pit, interestIsSame i.toNamedPkt p = false)
      (hlimit : cfg.maxPitEntries = -1 ∨ r.pitcnt < cfg.maxPitEntries) :
      Effect cfg r
        (interestPropagate
          { r.got face p.pkt nonces with
            pit := interestAppendPending face (interestNew now face p) :: r.pit
            pitcnt := r.pitcnt + 1 }
          (interestAppendPending face (interestNew now face p)))
  | serve (r : Relay) (p : NamedPkt) (hknown : Known r p.pkt)
      (hnew : hasName r.contents p.pfx = false) : Effect cfg r (serve cfg p r)
  | store (r : Relay) (c : Content) (hknown : Known r c.pkt)
      (hnew : hasName r.contents c.pfx = false)
      (hlimit : cfg.maxCacheEntries ≤ 0 ∨ r.contentcnt ≤ cfg.maxCacheEntries) :
      Effect cfg r { r with contents := c :: r.contents, contentcnt := r.contentcnt + 1 }
  | evict (r : Relay) (k : ℕ) (hk : k < r.contents.length) :
      Effect cfg r { r with contents := r.contents.eraseIdx k, contentcnt := r.contentcnt - 1 }
  | contentsAge (r : Relay) (t : ℕ) : Effect cfg r (ageContents t r)
  | pitAge (r : Relay) (t : ℕ) : Effect cfg r (agePit t r)
  | faceGone (r : Relay) (face : ℕ) : Effect cfg r (faceRemove r face)
  | populated (r : Relay) (pkt : Pkt) : Effect cfg r { r with populated := r.populated ++ [pkt] }

variable {cfg : Config}

theorem touchFace_some (now : ℕ) (peer : Peer) (faces : List Face) (face : ℕ) (faces' : List Face)
    (h : touchFace now peer faces = some (face, faces')) :
    face ∈ faces.map (·.faceid) ∧
      faces'.map (fun f => (f.faceid, f.reflect)) = faces.map fun f => (f.faceid, f.reflect) := by
  induction faces generalizing faces' with
  | nil => cases h
  | cons f faces ih =>
    rw [touchFace] at h
    split at h
    · cases h
      exact ⟨List.mem_cons_self .., rfl⟩
    · obtain ⟨⟨face', rest⟩, hrest, heq⟩ := Option.map_eq_some_iff.mp h
      cases heq
      obtain ⟨hmem, hids⟩ := ih rest hrest
      exact ⟨List.mem_cons_of_mem _ hmem, by rw [List.map_cons, List.map_cons, hids]⟩

theorem ids_eq_of_flags (faces faces' : List Face)
    (h : faces'.map (fun f => (f.faceid, f.reflect)) = faces.map fun f => (f.faceid, f.reflect)) :
    faces'.map (·.faceid) = faces.map (·.faceid) := by
  have hfst := congrArg (List.map Prod.fst) h
  rwa [List.map_map, List.map_map] at hfst

theorem getFaceOrCreate_effect (now : ℕ) (peer : Peer) (r : Relay) :
    Effect cfg r (getFaceOrCreate cfg now peer r).2 ∧
      (getFaceOrCreate cfg now peer r).1 ∈ (getFaceOrCreate cfg now peer r).2.ids := by
  rw [getFaceOrCreate]
  split
  · next face faces h =>
    obtain ⟨hmem, hids⟩ := touchFace_some now peer r.faces face faces h
    refine ⟨Effect.used r faces hids, ?_⟩
    rw [Relay.ids, ids_eq_of_flags r.faces faces hids]
    exact hmem
  · exact ⟨Effect.newFace r now peer false _, List.mem_cons_self ..⟩

theorem appendToSame_some (p : NamedPkt) (face : ℕ) (pit pit' : List Interest)
    (h : appendToSame p face pit = some pit') :
    ∃ pre i post, pit = pre ++ i :: post ∧ interestIsSame i.toNamedPkt p = true ∧
      pit' = pre ++ interestAppendPending face i :: post := by
  induction pit generalizing pit' with
  | nil => cases h
  | cons i pit ih =>
    rw [appendToSame] at h
    split at h
    · next hsame =>
      cases h
      exact ⟨[], i, pit, rfl, hsame, rfl⟩
    · obtain ⟨rest, hrest, heq⟩ := Option.map_eq_some_iff.mp h
      obtain ⟨pre, j, post, hpit, hsame, hpit'⟩ := ih rest hrest
      refine ⟨i :: pre, j, post, ?_, hsame, ?_⟩
      · rw [hpit, List.cons_append]
      · rw [← heq, hpit', List.cons_append]

theorem appendToSame_none (p : NamedPkt) (face : ℕ) (pit : List Interest)
    (h : appendToSame p face pit = none) : ∀ i ∈ pit, interestIsSame i.toNamedPkt p = false := by
  induction pit with
  | nil => exact fun i hi => absurd hi List.not_mem_nil
  | cons j pit ih =>
    rw [appendToSame] at h
    split at h
    · cases h
    · next hsame =>
      exact List.forall_mem_cons.mpr ⟨Bool.not_eq_true _ ▸ hsame, ih (Option.map_eq_none_iff.mp h)⟩

theorem storeInterest_effect (now face : ℕ) (r : Relay) (p : NamedPkt) (nonces : List Bytes)
    (h : Arrival r face p.pkt nonces) (htype : p.pkt.type = NDN_TLV_Interest) :
    Effect cfg r (storeInterest cfg now face (r.got face p.pkt nonces) p) := by
  rw [storeInterest]
  split
  · next pit hsome =>
    obtain ⟨pre, i, post, hpit, hsame, rfl⟩ := appendToSame_some p face r.pit pit hsome
    exact Effect.join r face p nonces pre i post h htype hpit hsame
  · next hnone =>
    split
    · exact Effect.got r face p.pkt nonces h
    · next hlimit =>
      refine Effect.ask r now face p nonces h htype (appendToSame_none p face r.pit hnone) ?_
      rw [not_and_or, not_not] at hlimit
      exact hlimit.imp_right Int.not_le.mp

theorem nonceIsDup_some (nonces nonces' : List Bytes) (pkt : Pkt)
    (h : nonceIsDup nonces pkt = some nonces') :
    nonces' = nonces ∨ ∃ nonce, nonceFindOrAppend nonces nonce = some nonces' := by
  rw [nonceIsDup] at h
  split at h
  · exact Or.inl (Option.some.inj h).symm
  · next nonce _ => exact Or.inr ⟨nonce, h⟩

theorem fwdHandleInterest_effect (now face : ℕ) (r s : Relay) (pkt : Pkt) (hface : face ∈ r.ids)
    (hparsed : ndntlvForwarder pkt.buf = .ok pkt) (htype : pkt.type = NDN_TLV_Interest)
    (h : fwdHandleInterest cfg now face { r with received := r.received ++ [(face, pkt)] } pkt =
      some s) : Effect cfg r s := by
  rw [fwdHandleInterest] at h
  split at h
  · cases h
    exact Effect.got r face pkt r.nonces ⟨hface, hparsed, Or.inl rfl⟩
  · next nonces hdup =>
    have harr : Arrival r face pkt nonces := ⟨hface, hparsed, nonceIsDup_some _ _ _ hdup⟩
    split at h
    · cases h
    · next p hp =>
      have hpkt : p.pkt = pkt := of_eq_some pkt p hp
      subst hpkt
      split at h
      · cases h
        exact Effect.got r face p.pkt nonces harr
      · split at h
        · next c hc =>
          cases h
          exact Effect.answer r face p nonces c harr htype (List.mem_of_find?_eq_some hc)
            (List.find?_some hc)
        · split at h
          · cases h
            exact storeInterest_effect now face r p nonces harr htype
          · cases h
            exact Effect.got r face p.pkt nonces harr

theorem oldestLoop_lt (contents : List Content) (k age : ℕ) (oldest : Option ℕ) (n : ℕ)
    (h : oldestLoop contents k age oldest = some n) : oldest = some n ∨ n < k + contents.length := by
  induction contents generalizing k age oldest with
  | nil => exact Or.inl h
  | cons c contents ih =>
    rw [oldestLoop] at h
    rw [List.length_cons]
    split at h
    · rcases ih _ _ _ h with heq | hlt
      · cases heq
        exact Or.inr (by omega)
      · exact Or.inr (by omega)
    · rcases ih _ _ _ h with heq | hlt
      · exact Or.inl heq
      · exact Or.inr (by omega)

theorem makeRoom_effect (r : Relay) :
    ReflTransGen (Effect cfg) r (makeRoom cfg r) ∧
      (makeRoom cfg r).contents.Sublist r.contents ∧
      (makeRoom cfg r).received = r.received ∧ (makeRoom cfg r).populated = r.populated := by
  rw [makeRoom]
  split
  · rw [removeOldest]
    split
    · exact ⟨.refl, List.Sublist.refl _, rfl, rfl⟩
    · next k hk =>
      have hlt : k < r.contents.length := by
        rcases oldestLoop_lt r.contents 0 0 none k hk with heq | hlt
        · cases heq
        · omega
      exact ⟨.single (Effect.evict r k hlt), List.eraseIdx_sublist _ _, rfl, rfl⟩
  · exact ⟨.refl, List.Sublist.refl _, rfl, rfl⟩

theorem contentAdd2cache_effects (r : Relay) (c : Content) (hknown : Known r c.pkt) :
    ReflTransGen (Effect cfg) r (contentAdd2cache cfg r c) := by
  rw [contentAdd2cache]
  split
  · exact .refl
  · next hname =>
    obtain ⟨hroom, hsub, hrec, hpop⟩ := @makeRoom_effect cfg r
    simp only
    split
    · next hlimit =>
      refine hroom.tail (Effect.store _ c ?_ ?_ hlimit)
      · rw [Known, hrec, hpop]
        exact hknown
      · rw [Bool.not_eq_true, hasName_eq_false] at hname
        rw [hasName_eq_false]
        exact fun d hd => hname d (hsub.subset hd)
    · exact hroom

theorem deliver_effects (now : ℕ) (r : Relay) (p : NamedPkt) (hknown : Known r p.pkt)
    (hnew : hasName r.contents p.pfx = false) :
    ReflTransGen (Effect cfg) r (deliver cfg now r p) := by
  have hserve : ReflTransGen (Effect cfg) r (serve cfg p r) := .single (Effect.serve r p hknown hnew)
  rw [deliver, contentServePending_eq]
  split
  · exact .refl
  · split
    · exact hserve.trans (contentAdd2cache_effects _ _ hknown)
    · exact hserve

theorem fwdHandleContent_effects (now face : ℕ) (r s : Relay) (pkt : Pkt) (hface : face ∈ r.ids)
    (hparsed : ndntlvForwarder pkt.buf = .ok pkt)
    (h : fwdHandleContent cfg now { r with received := r.received ++ [(face, pkt)] } pkt = some s) :
    ReflTransGen (Effect cfg) r s := by
  have hgot : Effect cfg r { r with received := r.received ++ [(face, pkt)] } :=
    Effect.got r face pkt r.nonces ⟨hface, hparsed, Or.inl rfl⟩
  rw [fwdHandleContent] at h
  split at h
  · split at h
    · cases h
      exact .single hgot
    · cases h
  · next p hp =>
    have hpkt : p.pkt = pkt := of_eq_some pkt p hp
    split at h
    · cases h
      exact .single hgot
    · next hname =>
      cases h
      refine .head hgot (deliver_effects now _ p ?_ (Bool.not_eq_true _ ▸ hname))
      refine Or.inl ⟨face, ?_⟩
      rw [hpkt]
      exact List.mem_append_right _ (List.mem_singleton_self _)

theorem bytes2pkt_buf (pkttype : ℕ) (start : Bytes) (c : Cursor) (pkt : Pkt)
    (h : bytes2pkt pkttype start c = .ok pkt) : pkt.buf = start := by
  rw [bytes2pkt] at h
  split at h
  · cases hloop : pktLoop (c.cp.length + 1) (start.length - c.cp.length) c (newPkt pkttype) with
    | error err =>
      rw [hloop] at h
      cases h
    | ok r =>
      rw [hloop] at h
      change (if r.1 ≠ 0 then _ else _) = _ at h
      split at h
      · cases h
      · cases h
        rfl
  · cases h

theorem forwarder_buf (data : Bytes) (pkt : Pkt) (h : ndntlvForwarder data = .ok pkt) :
    pkt.buf = data := by
  rw [ndntlvForwarder] at h
  cases hhead : dehead ⟨data, data.length⟩ with
  | error err =>
    rw [hhead] at h
    cases h
  | ok head =>
    rw [hhead] at h
    cases head with
    | fail left => cases h
    | element typ len c =>
      change (if c.len < len then _ else _) = _ at h
      split at h
      · cases h
      · exact bytes2pkt_buf _ _ _ _ h

theorem rxNdntlv_effects (now face : ℕ) (data : Bytes) (r s : Relay) (hface : face ∈ r.ids)
    (h : rxNdntlv cfg now face data r = some s) : ReflTransGen (Effect cfg) r s := by
  rw [rxNdntlv] at h
  split at h
  · cases h
    exact .refl
  · cases h
  · next pkt hpkt =>
    have hparsed : ndntlvForwarder pkt.buf = .ok pkt := by
      rw [forwarder_buf data pkt hpkt, hpkt]
    simp only at h
    split at h
    · next htype =>
      exact .single (fwdHandleInterest_effect now face r s pkt hface hparsed htype h)
    · exact fwdHandleContent_effects now face r s pkt hface hparsed h

theorem coreRX_effects (now : ℕ) (peer : Peer) (data : Bytes) (r s : Relay)
    (h : coreRX cfg now peer data r = some s) : ReflTransGen (Effect cfg) r s := by
  obtain ⟨hface, hmem⟩ := @getFaceOrCreate_effect cfg now peer r
  rw [coreRX] at h
  split at h
  · cases h
    exact .single hface
  · exact .head hface (rxNdntlv_effects now _ _ _ s hmem h)
  · cases h

theorem foldl_faceRemove_effects (ids : List ℕ) (r : Relay) :
    ReflTransGen (Effect cfg) r (ids.foldl faceRemove r) := by
  induction ids generalizing r with
  | nil => exact .refl
  | cons face ids ih => exact .head (Effect.faceGone r face) (ih (faceRemove r face))

theorem doAgeing_effects (t : ℕ) (r : Relay) : ReflTransGen (Effect cfg) r (doAgeing t r) :=
  .head (Effect.contentsAge r t)
    (.head (Effect.pitAge (ageContents t r) t) (foldl_faceRemove_effects _ _))

theorem populateNdntlv_effects (now : ℕ) (data : Bytes) (r s : Relay)
    (h : populateNdntlv cfg now data r = some s) : ReflTransGen (Effect cfg) r s := by
  rw [populateNdntlv] at h
  split at h
  · cases h
  · cases h
    exact .refl
  · split at h
    · split at h
      · cases h
        exact .refl
      · cases h
      · next pkt _ =>
        obtain ⟨p, hp, rfl⟩ := Option.map_eq_some_iff.mp h
        have hpkt : p.pkt = pkt := of_eq_some pkt p hp
        refine .head (Effect.populated r pkt) (contentAdd2cache_effects _ _ (Or.inr ?_))
        change p.pkt ∈ r.populated ++ [pkt]
        rw [hpkt]
        exact List.mem_append_right _ (List.mem_singleton_self _)
    · cases h
      exact .refl

theorem populateCache_effects (now : ℕ) (data : Bytes) (r s : Relay)
    (h : populateCache cfg now data r = some s) : ReflTransGen (Effect cfg) r s := by
  rw [populateCache] at h
  split at h
  · cases h
    exact .refl
  · split at h
    · split at h
      · cases h
      · cases h
        exact .refl
    · exact populateNdntlv_effects now _ r s h
    · cases h
      exact .refl
    · cases h

/-- Only a management command adds a route. -/
theorem relayStep_effects (r s : Relay) (a : Act) (h : relayStep cfg r a = some s) :
    ReflTransGen (Effect cfg) r s ∨
      ∃ pfx face, face ∈ r.ids ∧ s = addRoute pfx face r := by
  cases a with
  | rx now peer data => exact Or.inl (coreRX_effects now peer data r s h)
  | ageing t =>
    cases h
    exact Or.inl (doAgeing_effects t r)
  | newface now peer static reflect =>
    cases h
    exact Or.inl (.single (Effect.newFace r now peer static reflect))
  | destroyface face =>
    cases h
    rw [mgmtDestroyface]
    split
    · exact Or.inl (.single (Effect.faceGone r face))
    · exact Or.inl .refl
  | prefixreg pfx face answered =>
    change mgmtPrefixreg pfx face answered r = some s at h
    rw [mgmtPrefixreg] at h
    split at h
    · next hreg =>
      split at h
      · cases h
        exact Or.inr ⟨pfx, face, hreg.2, rfl⟩
      · cases h
    · cases h
      exact Or.inl .refl
  | populate now data => exact Or.inl (populateCache_effects now data r s h)

theorem effects_invariant (inv : Relay → Prop) (heff : ∀ r s, inv r → Effect cfg r s → inv s)
    (r s : Relay) (hr : inv r) (h : ReflTransGen (Effect cfg) r s) : inv s := by
  induction h with
  | refl => exact hr
  | tail _ heffect ih => exact heff _ _ ih heffect

theorem step_effects (inv : Relay → Prop) (heff : ∀ r s, inv r → Effect cfg r s → inv s)
    (hroute : ∀ r pfx face, inv r → face ∈ r.ids → inv (addRoute pfx face r))
    (r s : Relay) (a : Act) (hr : inv r) (hstep : relayStep cfg r a = some s) : inv s := by
  rcases relayStep_effects r s a hstep with heffects | ⟨pfx, face, hface, rfl⟩
  · exact effects_invariant inv heff r s hr heffects
  · exact hroute r pfx face hr hface

/-- The invariant rule: what every effect and every new route keeps holds after every run. -/
theorem run_effects (inv : Relay → Prop) (heff : ∀ r s, inv r → Effect cfg r s → inv s)
    (hroute : ∀ r pfx face, inv r → face ∈ r.ids → inv (addRoute pfx face r))
    (r s : Relay) (acts : List Act) (hr : inv r)
    (hrun : Lts.run (relayStep cfg) r acts = some s) : inv s :=
  Lts.run_invariant inv (fun r a s hr => step_effects inv heff hroute r s a hr) r s acts hr hrun

end PepDna.Ndn
