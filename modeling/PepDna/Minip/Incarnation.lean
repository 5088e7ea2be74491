import Mathlib.Data.Fin.Rev
import PepDna.Minip.Effects
import PepDna.Minip.Relabel

/-!
# Two connections of one client address and port, one after the other

Both have the same id and start from the same sequence number, and nothing in a packet says which
of them it belongs to. The first one is released at both proxies before the second one begins; its
packets may still be on the way then, any number of copies of each. What a connection writes to
its socket is followed back to what the other side has read, over every step from
`pepdna_con_alloc` on, and followed forward: other bytes at the sockets of the second connection
are other bytes written, one for one. A byte that the first connection has left behind would stay
the same.
-/

namespace PepDna.Minip

/- ### Where the payloads come from -/

/-- Every payload that the connection has on the wire, in its queue and in its buffer is a piece of
what it has read from its socket. -/
structure Reads (c : Con) : Prop where
  wire : ∀ d, Packet.data d ∈ c.tx → d.sdu <:+: c.rd
  queue : ∀ e ∈ c.rtxq.head, e.skb.sdu <:+: c.rd
  left : buffered c.pc <:+: c.rd

theorem reads_alloc (mode : Mode) (syn : SynTuple) (hashId : ℕ) :
    Reads (pepdnaConAlloc mode syn hashId) := by
  refine ⟨?_, ?_, List.infix_refl _⟩
  · intro d hd
    cases hd
  · intro e he
    cases he

theorem reads_keeps (c c' : Con) (qs : List ℕ) (hc : Reads c) (h : Keeps c c' qs) : Reads c' := by
  have hsame (d p : DataPdu) (hs : SameData d p) (hp : p.sdu <:+: c.rd) : d.sdu <:+: c.rd := by
    rw [SameData] at hs
    rw [hs]
    exact hp
  refine ⟨?_, ?_, ?_⟩
  · intro d hd
    rw [h.rd]
    rcases h.data d hd with hd | ⟨e, he, hs⟩
    · exact hc.wire d hd
    · exact hsame d e.skb hs (hc.queue e he)
  · intro e' he'
    rw [h.rd]
    obtain ⟨e, he, hs⟩ := h.queue e' he'
    exact hsame e'.skb e.skb hs (hc.queue e he)
  · rw [h.rd, h.pc]
    exact hc.left

/-- A step that leaves wire and queue, keeps what was read and does not enlarge the buffer. -/
theorem reads_frame (c c' : Con) (hc : Reads c)
    (hd : ∀ d, Packet.data d ∈ c'.tx → Packet.data d ∈ c.tx)
    (hq : c'.rtxq = c.rtxq) (hr : c.rd <+: c'.rd) (hl : buffered c'.pc <:+: c'.rd) : Reads c' := by
  refine ⟨fun d h => (hc.wire d (hd d h)).trans hr.isInfix, fun e he => ?_, hl⟩
  rw [hq] at he
  exact (hc.queue e he).trans hr.isInfix

theorem reads_send (c : Con) (left : Bytes) (sent : ℕ) (o : SkbSend) (now : ℕ) (hc : Reads c)
    (hpc : c.pc = .send left sent) : Reads (sndData c left sent o now) := by
  have hleft : left <:+: c.rd := by
    have h := hc.left
    rwa [hpc] at h
  have htake : left.take MINIP_MSS <:+: c.rd := (List.take_prefix _ _).isInfix.trans hleft
  have hdrop : left.drop MINIP_MSS <:+: c.rd := (List.drop_suffix _ _).isInfix.trans hleft
  have hskb (c' : Con) (hc' : c' = (pepdnaMinipSkbSend c (left.take MINIP_MSS) o now).1) :
      c'.rd = c.rd ∧ (∀ d, Packet.data d ∈ c'.tx → d.sdu <:+: c.rd) ∧
        ∀ e ∈ c'.rtxq.head, e.skb.sdu <:+: c.rd := by
    subst hc'
    cases o with
    | xmit rc =>
      refine ⟨rfl, ?_, ?_⟩
      · intro d hd
        simp only [pepdnaMinipSkbSend, transmit, touchRtxq, List.mem_append, List.mem_singleton,
          Packet.data.injEq] at hd
        rcases hd with hd | rfl
        · exact hc.wire d hd
        · exact htake
      · intro e he
        simp only [pepdnaMinipSkbSend, transmit, rtxqueuePush, List.mem_append,
          List.mem_singleton] at he
        rcases he with he | rfl
        · exact hc.queue e he
        · exact htake
    | _ => exact ⟨rfl, hc.wire, hc.queue⟩
  obtain ⟨hrd, hwire, hqueue⟩ := hskb _ rfl
  unfold sndData
  dsimp only
  split
  · split
    · exact ⟨fun d hd => hrd ▸ hwire d hd, fun e he => hrd ▸ hqueue e he, List.nil_infix⟩
    · exact ⟨fun d hd => hrd ▸ hwire d hd, fun e he => hrd ▸ hqueue e he, List.nil_infix⟩
  · exact ⟨fun d hd => hrd ▸ hwire d hd, fun e he => hrd ▸ hqueue e he, hrd ▸ hdrop⟩

theorem reads_work (c c' : Con) (i : WorkIn) (hc : Reads c) (h : WorkStep c i c') : Reads c' := by
  -- away from the send positions the buffer is empty afterwards
  have hpc (c' : Con) (ht : c'.tx = c.tx) (hq : c'.rtxq = c.rtxq) (hr : c'.rd = c.rd)
      (hb : buffered c'.pc = []) : Reads c' :=
    reads_frame c c' hc (fun d hd => ht ▸ hd) hq (hr ▸ List.prefix_refl _) (hb ▸ List.nil_infix)
  cases workStep_line c c' i h with
  | start => exact hpc _ rfl rfl rfl rfl
  | jump _ pc pc' he hj => cases hj <;> exact hpc _ rfl rfl rfl rfl
  | read howMuch bs he hne hle =>
    exact reads_frame c _ hc (fun _ hd => hd) rfl (List.prefix_append _ _)
      (List.suffix_append _ _).isInfix
  | send left sent o now he => exact reads_send c left sent o now hc he
  | advance left sent he =>
    have hleft : left <:+: c.rd := by
      have h := hc.left
      rwa [he] at h
    refine reads_frame c _ hc (fun _ hd => hd) rfl (List.prefix_refl _) ?_
    simp only [sndAdvance]
    split
    · exact List.nil_infix
    · exact hleft
  | delete rc he =>
    refine reads_frame c _ hc (fun d hd => ?_) rfl (List.prefix_refl _) List.nil_infix
    simpa [transmit] using hd
  | close he =>
    have hcl := reads_keeps c _ _ hc (keeps_close c)
    exact ⟨hcl.wire, hcl.queue, List.nil_infix⟩
  | put he =>
    rw [pepdnaConPut_eq]
    exact hpc _ rfl rfl rfl rfl

theorem reads_tcfa (c c' : Con) (rc : Int) (now : ℕ) (hc : Reads c) (h : TcfaStep c rc now c') :
    Reads c' := by
  have hclose := reads_keeps c _ _ hc (keeps_close c)
  cases h with
  | requestFail => exact ⟨hclose.wire, hclose.queue, hclose.left⟩
  | connectFail => exact ⟨hclose.wire, hclose.queue, hclose.left⟩
  | responseFail => exact ⟨hclose.wire, hclose.queue, hclose.left⟩
  | request =>
    exact reads_frame c _ hc (fun d hd => by simpa [transmit] using hd) rfl (List.prefix_refl _) hc.left
  | response =>
    exact reads_frame c _ hc (fun d hd => by simpa [transmit] using hd) rfl (List.prefix_refl _) hc.left
  | wake =>
    have hw := reads_keeps c _ _ hc (keeps_wake c)
    exact ⟨hw.wire, hw.queue, hw.left⟩
  | requestSent | connect | assign | register | flag => exact ⟨hc.wire, hc.queue, hc.left⟩

theorem reads_step (c c' : Con) (a : Act) (hc : Reads c) (h : conStep c a = some c') : Reads c' := by
  cases conStep_lines c c' a h with
  | tcfa rc now c' ht => exact reads_tcfa c c' rc now hc (tcfaStep_cases c c' rc now ht)
  | accept c' hp ha =>
    unfold pepdnaTcpAccept at ha
    rw [if_pos hp] at ha
    cases ha
    dsimp only
    split
    · refine reads_keeps _ _ _ ?_ (keeps_wake _)
      exact ⟨hc.wire, hc.queue, hc.left⟩
    · exact ⟨hc.wire, hc.queue, hc.left⟩
  | dataReady =>
    rw [pepdnaL2rConnDataReady_eq]
    exact ⟨hc.wire, hc.queue, hc.left⟩
  | work i c' hw => exact reads_work c c' i hc hw
  | timeout now xmit => exact reads_keeps c _ _ hc (keeps_timeout c now xmit)
  | recv p now xmit =>
    rcases keeps_recvPacket c p now xmit with hk | ⟨_, _, _, -, hk⟩
    · exact reads_keeps c _ _ hc hk
    · exact reads_keeps c _ _ hc hk
  | sendmsg rc c' hm => exact reads_keeps c _ _ hc (keeps_sendmsg c c' rc hm)

/-- What was read stays read. -/
theorem conStep_rd (c c' : Con) (a : Act) (h : conStep c a = some c') : c.rd <+: c'.rd := by
  have hsame (c' : Con) (hr : c'.rd = c.rd) : c.rd <+: c'.rd := hr ▸ List.prefix_refl _
  cases conStep_lines c c' a h with
  | tcfa rc now c' ht =>
    cases tcfaStep_cases c c' rc now ht with
    | requestFail => exact hsame _ (keeps_close c).rd
    | connectFail => exact hsame _ (keeps_close c).rd
    | responseFail => exact hsame _ (keeps_close c).rd
    | wake => exact hsame _ (keeps_wake c).rd
    | request | response | requestSent | connect | assign | register | flag => exact hsame _ rfl
  | accept c' hp ha =>
    unfold pepdnaTcpAccept at ha
    rw [if_pos hp] at ha
    cases ha
    dsimp only
    split
    · exact hsame _ (keeps_wake _).rd
    · exact hsame _ rfl
  | dataReady => rw [pepdnaL2rConnDataReady_eq]
  | work i c' hw =>
    cases hw with
    | read howMuch bs => exact List.prefix_append _ _
    | send left sent o now =>
      refine hsame _ ?_
      unfold sndData
      dsimp only
      split
      · split <;> cases o <;> rfl
      · cases o <;> rfl
    | close => exact hsame _ (keeps_close c).rd
    | put => rw [pepdnaConPut_eq]
    | start | test | canSend | nomem | recvRet | advance | delete => exact hsame _ rfl
  | timeout now xmit => exact hsame _ (keeps_timeout c now xmit).rd
  | recv p now xmit =>
    rcases keeps_recvPacket c p now xmit with hk | ⟨_, _, _, -, hk⟩ <;> exact hsame _ hk.rd
  | sendmsg rc c' hm => exact hsame _ (keeps_sendmsg c c' rc hm).rd

/- ### Where the bytes written come from -/

/-- The bytes are made of pieces that `P` holds of. -/
def Pieces (P : Bytes → Prop) (bs : Bytes) : Prop :=
  ∃ parts : List Bytes, bs = parts.flatten ∧ ∀ x ∈ parts, P x

theorem pieces_append (P : Bytes → Prop) (bs x : Bytes) (h : Pieces P bs) (hx : P x) :
    Pieces P (bs ++ x) := by
  obtain ⟨parts, rfl, hparts⟩ := h
  refine ⟨parts ++ [x], by simp, ?_⟩
  intro y hy
  rcases List.mem_append.mp hy with hy | hy
  · exact hparts y hy
  · rw [List.mem_singleton.mp hy]
    exact hx

theorem pieces_mono (P Q : Bytes → Prop) (bs : Bytes) (h : Pieces P bs) (hpq : ∀ x, P x → Q x) :
    Pieces Q bs := by
  obtain ⟨parts, hbs, hparts⟩ := h
  exact ⟨parts, hbs, fun x hx => hpq x (hparts x hx)⟩

/-- What the connection has written, and what the handler under way has left to write. -/
structure Writes (P : Bytes → Prop) (c : Con) : Prop where
  wr : Pieces P c.wr
  rest : ∀ r, c.rx = some r → P r.w.rest

theorem writes_alloc (P : Bytes → Prop) (mode : Mode) (syn : SynTuple) (hashId : ℕ) :
    Writes P (pepdnaConAlloc mode syn hashId) :=
  ⟨⟨[], rfl, fun _ hx => absurd hx List.not_mem_nil⟩, fun _ hr => by cases hr⟩

theorem writes_mono (P Q : Bytes → Prop) (c : Con) (h : Writes P c) (hpq : ∀ x, P x → Q x) :
    Writes Q c :=
  ⟨pieces_mono P Q c.wr h.wr hpq, fun r hr => hpq _ (h.rest r hr)⟩

theorem writes_same (P : Bytes → Prop) (c c' : Con) (hc : Writes P c) (hw : c'.wr = c.wr)
    (hx : c'.rx = c.rx ∨ c'.rx = none) : Writes P c' := by
  refine ⟨hw ▸ hc.wr, fun r hr => ?_⟩
  rcases hx with hx | hx
  · exact hc.rest r (hx ▸ hr)
  · rw [hx] at hr
    cases hr

theorem finish_wr (c : Con) (d : DataPdu) (sent : Int) :
    (minip2iFinish c d sent).wr = c.wr ∧ (minip2iFinish c d sent).rx = none := by
  rcases Int.lt_or_le sent 0 with h | h
  · exact ⟨(calm_finish_neg c d sent h).wr, (calm_finish_neg c d sent h).rx⟩
  · exact ⟨(calm_finish_nonneg c d sent h).wr, (calm_finish_nonneg c d sent h).rx⟩

/-- The connection is in the table under the id of the DATA packet and waits for its number. -/
def Expects (c : Con) (d : DataPdu) : Prop := c.hashed = true ∧ d.id = c.id ∧ d.seq = c.nextRecv

instance (c : Con) (d : DataPdu) : Decidable (Expects c d) := inferInstanceAs (Decidable (_ ∧ _))

section Step

variable (P : Bytes → Prop) (hP : ∀ x y, P x → y <:+: x → P y)
include hP

theorem writes_sendmsg (c c' : Con) (rc : Int) (hc : Writes P c)
    (h : minip2iSendmsg c rc = some c') : Writes P c' := by
  have htook (r : RxWrite) (hx : c.rx = some r) : Pieces P (sendmsgTook c r.w rc).wr :=
    pieces_append P _ _ hc.wr (hP _ _ (hc.rest r hx) (List.take_prefix _ _).isInfix)
  cases sendmsg_lines c c' rc h with
  | again r w hx hd hi =>
    refine ⟨htook r hx, fun r' hr' => ?_⟩
    cases hr'
    have hrest := hc.rest r hx
    refine hP _ _ hrest ?_
    unfold pepdnaSockWriteIter at hi
    split at hi
    · split at hi
      · cases hi
        exact List.infix_refl _
      · cases hi
    · split at hi
      · dsimp only at hi
        split at hi
        · cases hi
        · cases hi
          exact (List.drop_suffix _ _).isInfix
      · split at hi
        · cases hi
          exact List.infix_refl _
        · cases hi
  | ret r v hx hd hi =>
    obtain ⟨hw, hr⟩ := finish_wr (sendmsgTook c r.w rc) r.pdu v
    exact ⟨hw ▸ htook r hx, fun r' hr' => by rw [hr] at hr'; cases hr'⟩

theorem writes_recv (c : Con) (p : Packet) (now : ℕ) (xmit : ℕ → Int) (hc : Writes P c)
    (hx : c.rx = none) (hp : ∀ d, p = .data d → Expects c d → P d.sdu) :
    Writes P (pepdnaMinipRecvPacket c p now xmit) := by
  by_cases hfound : c.hashed ∧ p.id = c.id
  · by_cases hs : p.isSetup = true
    · unfold pepdnaMinipRecvPacket
      rw [if_pos hfound]
      cases p with
      | request => exact hc
      | response => exact writes_same P c _ hc rfl (Or.inl rfl)
      | data | ack | delete | finished => cases hs
    · cases recvPacket_rcv c p now xmit hx (Bool.not_eq_true _ ▸ hs) with
      | calm h => exact writes_same P c _ hc h.wr (Or.inl h.rx)
      | begin d now' xmit' ha hseq hx' hne hc' =>
        cases ha
        rw [hc']
        refine ⟨hc.wr, fun r hr => ?_⟩
        cases hr
        exact hP _ _ (hp d rfl ⟨hfound.1, hfound.2, hseq⟩) (List.take_prefix _ _).isInfix
      | empty d now' xmit' ha he hc' =>
        rw [hc']
        obtain ⟨hw, hr⟩ := finish_wr c d 0
        exact writes_same P c _ hc hw (Or.inr hr)
      | again r w rc hx' =>
        rw [hx] at hx'
        cases hx'
      | ret r v rc hx' =>
        rw [hx] at hx'
        cases hx'
  · unfold pepdnaMinipRecvPacket
    rw [if_neg hfound]
    exact hc

theorem writes_step (c c' : Con) (a : Act) (hc : Writes P c) (h : conStep c a = some c')
    (ha : ∀ d now xmit, a = .recv (.data d) now xmit → Expects c d → P d.sdu) : Writes P c' := by
  have hcalm (c' : Con) (h : Calm c c') : Writes P c' := writes_same P c c' hc h.wr (Or.inl h.rx)
  cases conStep_lines c c' a h with
  | tcfa rc now c' ht =>
    cases tcfaStep_cases c c' rc now ht with
    | requestFail => exact writes_same P c _ hc (calm_close c).wr (Or.inl (calm_close c).rx)
    | connectFail => exact writes_same P c _ hc (calm_close c).wr (Or.inl (calm_close c).rx)
    | responseFail => exact writes_same P c _ hc (calm_close c).wr (Or.inl (calm_close c).rx)
    | wake => exact writes_same P c _ hc (calm_wake c).wr (Or.inl (calm_wake c).rx)
    | request | response | requestSent | connect | assign | register | flag =>
      exact writes_same P c _ hc rfl (Or.inl rfl)
  | accept c' hp ha =>
    unfold pepdnaTcpAccept at ha
    rw [if_pos hp] at ha
    cases ha
    dsimp only
    split
    · exact writes_same P c _ hc (calm_wake _).wr (Or.inl (calm_wake _).rx)
    · exact writes_same P c _ hc rfl (Or.inl rfl)
  | dataReady => exact hcalm _ (calm_dataReady c)
  | work i c' hw => exact hcalm _ (calm_workStep c c' i h)
  | timeout now xmit => exact hcalm _ (calm_timeout c now xmit)
  | recv p now xmit hx =>
    exact writes_recv P hP c p now xmit hc hx fun d hd => ha d now xmit (by rw [hd])
  | sendmsg rc c' hm => exact writes_sendmsg P hP c c' rc hc hm

end Step

/- ### A session beside packets of an earlier one -/

/-- Both proxies have written only what the other side has read. -/
structure Kept (s : Session) : Prop where
  near : Reads s.near
  far : ∀ b ∈ s.far, Reads b
  toFar : ∀ b ∈ s.far, Writes (· <:+: s.near.rd) b
  toNear : Writes (fun x => ∃ b ∈ s.far, x <:+: b.rd) s.near

theorem infix_closed (rd x y : Bytes) (hx : x <:+: rd) (hy : y <:+: x) : y <:+: rd := hy.trans hx

theorem far_closed (far : List Con) (x y : Bytes) (hx : ∃ b ∈ far, x <:+: b.rd) (hy : y <:+: x) :
    ∃ b ∈ far, y <:+: b.rd := by
  obtain ⟨b, hb, hx⟩ := hx
  exact ⟨b, hb, hy.trans hx⟩

theorem kept_newSession (syn : SynTuple) : Kept (newSession syn) where
  near := reads_alloc _ _ _
  far _ hb := absurd hb List.not_mem_nil
  toFar _ hb := absurd hb List.not_mem_nil
  toNear := writes_alloc _ _ _ _

theorem kept_near (s : Session) (c : Con) (hs : Kept s) (hc : Reads c) (hr : s.near.rd <+: c.rd)
    (hw : Writes (fun x => ∃ b ∈ s.far, x <:+: b.rd) c) : Kept ⟨c, s.far⟩ :=
  ⟨hc, hs.far, fun b hb => writes_mono _ _ b (hs.toFar b hb) fun _ hx => hx.trans hr.isInfix, hw⟩

theorem kept_set (s : Session) (i : ℕ) (b c : Con) (hs : Kept s) (hb : s.far[i]? = some b)
    (hc : Reads c) (hr : b.rd <+: c.rd) (hw : Writes (· <:+: s.near.rd) c) :
    Kept ⟨s.near, s.far.set i c⟩ := by
  refine ⟨hs.near, forall_mem_set _ _ i c hs.far hc, forall_mem_set _ _ i c hs.toFar hw, ?_⟩
  refine writes_mono _ _ _ hs.toNear fun x hx => ?_
  exact exists_mem_set (fun z => x <:+: z.rd) _ i b c hb (fun h => h.trans hr.isInfix) hx

theorem kept_request (s : Session) (syn : SynTuple) (hs : Kept s) :
    Kept ⟨s.near, pepdnaMinipRecvRequest s.far syn⟩ := by
  refine ⟨hs.near, List.forall_mem_cons.mpr ⟨reads_alloc _ _ _, hs.far⟩,
    List.forall_mem_cons.mpr ⟨writes_alloc _ _ _ _, hs.toFar⟩, ?_⟩
  refine writes_mono _ _ _ hs.toNear fun x hx => ?_
  obtain ⟨b, hb, hx⟩ := hx
  exact ⟨b, List.mem_cons_of_mem _ hb, hx⟩

theorem kept_nearStep (s : Session) (a : Act) (c : Con) (hs : Kept s) (h : conStep s.near a = some c)
    (ha : ∀ d now xmit, a = .recv (.data d) now xmit → Expects s.near d →
      ∃ b ∈ s.far, d.sdu <:+: b.rd) :
    Kept ⟨c, s.far⟩ :=
  kept_near s c hs (reads_step _ _ a hs.near h) (conStep_rd _ _ a h)
    (writes_step _ (far_closed s.far) _ _ a hs.toNear h ha)

theorem kept_farStep (s : Session) (i : ℕ) (a : Act) (b c : Con) (hs : Kept s)
    (hb : s.far[i]? = some b) (h : conStep b a = some c)
    (ha : ∀ d now xmit, a = .recv (.data d) now xmit → Expects b d → d.sdu <:+: s.near.rd) :
    Kept ⟨s.near, s.far.set i c⟩ := by
  have hmem := List.mem_of_getElem? hb
  exact kept_set s i b c hs hb (reads_step _ _ a (hs.far b hmem) h) (conStep_rd _ _ a h)
    (writes_step _ (infix_closed s.near.rd) _ _ a (hs.toFar b hmem) h ha)

/-- The network takes a packet off the wire. -/
theorem kept_off_near (s : Session) (tx : List Packet) (hs : Kept s)
    (ht : ∀ p ∈ tx, p ∈ s.near.tx) : Kept ⟨{ s.near with tx := tx }, s.far⟩ :=
  kept_near s _ hs ⟨fun d hd => hs.near.wire d (ht _ hd), hs.near.queue, hs.near.left⟩
    (List.prefix_refl _) ⟨hs.toNear.wr, hs.toNear.rest⟩

theorem kept_off_far (s : Session) (i : ℕ) (b : Con) (tx : List Packet) (hs : Kept s)
    (hb : s.far[i]? = some b) (ht : ∀ p ∈ tx, p ∈ b.tx) :
    Kept ⟨s.near, s.far.set i { b with tx := tx }⟩ := by
  have hmem := List.mem_of_getElem? hb
  have hr := hs.far b hmem
  have hw := hs.toFar b hmem
  exact kept_set s i b _ hs hb ⟨fun d hd => hr.wire d (ht _ hd), hr.queue, hr.left⟩
    (List.prefix_refl _) ⟨hw.wr, hw.rest⟩

theorem kept_delivered_near (s : Session) (p : Packet) (keep : Bool) (hs : Kept s) :
    Kept ⟨delivered s.near p keep, s.far⟩ := by
  rw [delivered_eq]
  refine kept_off_near s _ hs fun q hq => ?_
  split at hq
  · exact hq
  · exact List.mem_of_mem_erase hq

theorem kept_delivered_far (s : Session) (i : ℕ) (b : Con) (p : Packet) (keep : Bool) (hs : Kept s)
    (hb : s.far[i]? = some b) : Kept ⟨s.near, s.far.set i (delivered b p keep)⟩ := by
  rw [delivered_eq]
  refine kept_off_far s i b _ hs hb fun q hq => ?_
  split at hq
  · exact hq
  · exact List.mem_of_mem_erase hq

/-- What the session itself does keeps both directions clean. -/
theorem kept_session (s : Session) (a : SessionAct) (t : Session) (hs : Kept s)
    (h : sessionStep s a = some t) : Kept t := by
  have hdata (p : Packet) (now now' : ℕ) (xmit xmit' : ℕ → Int) (d : DataPdu)
      (he : Act.recv p now xmit = .recv (.data d) now' xmit') : p = .data d := by
    cases he
    rfl
  cases sessionStep_cases s t a h with
  | near a c ha hc =>
    refine kept_nearStep s a c hs hc fun d now xmit he _ => ?_
    rw [he] at ha
    cases ha
  | far i a b c ha hb hc =>
    refine kept_farStep s i a b c hs hb hc fun d now xmit he _ => ?_
    rw [he] at ha
    cases ha
  | toNear i p keep now xmit b c hb hp hc =>
    have hnear : Kept ⟨c, s.far⟩ := by
      refine kept_nearStep s _ c hs hc fun d now' xmit' he _ => ?_
      rw [hdata p _ _ _ _ d he] at hp
      exact ⟨b, List.mem_of_getElem? hb, (hs.far b (List.mem_of_getElem? hb)).wire d hp⟩
    exact kept_delivered_far ⟨c, s.far⟩ i b p keep hnear hb
  | request id seq ack ts syn keep now xmit hp =>
    exact kept_delivered_near ⟨s.near, _⟩ _ keep (kept_request s syn hs)
  | unknown p keep now xmit hp hk hf => exact kept_delivered_near s p keep hs
  | toFar p keep now xmit i b c hp hk hf hb hc =>
    have hfar : Kept ⟨s.near, s.far.set i c⟩ := by
      refine kept_farStep s i _ b c hs hb hc fun d now' xmit' he _ => ?_
      rw [hdata p _ _ _ _ d he] at hp
      exact hs.near.wire d hp
    exact kept_delivered_near ⟨s.near, _⟩ p keep hfar
  | loseNear p hp => exact kept_off_near s _ hs fun q hq => List.mem_of_mem_erase hq
  | loseFar i p b hb hp => exact kept_off_far s i b _ hs hb fun q hq => List.mem_of_mem_erase hq

/- ### Two connections, one after the other -/

/-- `second toFar toNear s`: the packets of the first connection that are still on the way to
either proxy, and the session of the second. -/
inductive Reuse where
  | first (s : Session)
  | second (toFar toNear : List Packet) (s : Session)
  deriving Repr, DecidableEq

inductive ReuseAct where
  | session (a : SessionAct)
  -- the client connects again from the same address and port
  | reconnect (syn : SynTuple)
  | lateToFar (p : Packet) (now : ℕ) (xmit : ℕ → Int)
  | lateToNear (p : Packet) (now : ℕ) (xmit : ℕ → Int)

/-- No connection of the session is in a table any more. -/
def Released (s : Session) : Prop := s.near.hashed = false ∧ ∀ b ∈ s.far, b.hashed = false

instance (s : Session) : Decidable (Released s) := inferInstanceAs (Decidable (_ ∧ _))

def SameClient (syn syn' : SynTuple) : Prop := syn.saddr = syn'.saddr ∧ syn.source = syn'.source

instance (syn syn' : SynTuple) : Decidable (SameClient syn syn') :=
  inferInstanceAs (Decidable (_ ∧ _))

/-- A late packet stays on the way: the network may deliver any number of copies of it. -/
def reuseStep : Reuse → ReuseAct → Option Reuse
  | .first s, .session a => (sessionStep s a).map .first
  | .first s, .reconnect syn =>
    if Released s ∧ SameClient syn s.near.tuple then
      some (.second s.near.tx (s.far.flatMap Con.tx) (newSession syn))
    else none
  | .second toFar toNear s, .session a => (sessionStep s a).map (.second toFar toNear)
  | .second toFar toNear s, .lateToFar p now xmit =>
    if p ∈ toFar then
      (farRecvPacket s.far p now xmit).map fun cons => .second toFar toNear { s with far := cons }
    else none
  | .second toFar toNear s, .lateToNear p now xmit =>
    if p ∈ toNear then
      (conStep s.near (.recv p now xmit)).map fun c => .second toFar toNear { s with near := c }
    else none
  | _, _ => none

/-- Every byte written to a socket of the session is part of a piece that was read from a socket
of the session at the other side. -/
structure OwnBytes (s : Session) : Prop where
  far : ∀ b ∈ s.far, Pieces (· <:+: s.near.rd) b.wr
  near : Pieces (fun x => ∃ b ∈ s.far, x <:+: b.rd) s.near.wr

/-- A DATA packet of the first connection does not reach a connection that waits for its number. -/
def LateRefused : Reuse → ReuseAct → Prop
  | .second _ _ s, .lateToFar (.data d) _ _ =>
    ∀ b ∈ (pepdnaConFind s.far d.id).bind fun i => s.far[i]?, ¬Expects b d
  | .second _ _ s, .lateToNear (.data d) _ _ => ¬Expects s.near d
  | _, _ => True

instance (r : Reuse) (a : ReuseAct) : Decidable (LateRefused r a) := by
  unfold LateRefused
  split <;> infer_instance

theorem kept_late_far (s : Session) (p : Packet) (now : ℕ) (xmit : ℕ → Int) (cons : List Con)
    (toFar toNear : List Packet) (hs : Kept s)
    (hok : LateRefused (.second toFar toNear s) (.lateToFar p now xmit))
    (h : farRecvPacket s.far p now xmit = some cons) : Kept ⟨s.near, cons⟩ := by
  cases farRecvPacket_cases s.far p now xmit cons h with
  | request id seq ack ts syn => exact kept_request s syn hs
  | unknown => exact hs
  | found _ i b c hk hf hb hstep =>
    refine kept_farStep s i _ b c hs hb hstep fun d now' xmit' he hexp => ?_
    cases he
    refine absurd hexp (hok b ?_)
    rw [show d.id = (Packet.data d).id from rfl, hf]
    exact hb

/-- The invariant of the second connection, whatever the first has left behind. -/
def SecondKept : Reuse → Prop
  | .first _ => True
  | .second _ _ s => Kept s

theorem secondKept_step (r : Reuse) (a : ReuseAct) (r' : Reuse) (hr : SecondKept r)
    (hok : LateRefused r a) (h : reuseStep r a = some r') : SecondKept r' := by
  cases r with
  | first s =>
    cases a with
    | session a =>
      obtain ⟨t, -, rfl⟩ := Option.map_eq_some_iff.mp h
      trivial
    | reconnect syn =>
      simp only [reuseStep] at h
      split at h
      · cases h
        exact kept_newSession syn
      · cases h
    | lateToFar | lateToNear => cases h
  | second toFar toNear s =>
    cases a with
    | session a =>
      obtain ⟨t, ht, rfl⟩ := Option.map_eq_some_iff.mp h
      exact kept_session s a t hr ht
    | reconnect syn => cases h
    | lateToFar p now xmit =>
      simp only [reuseStep] at h
      split at h
      · obtain ⟨cons, hc, rfl⟩ := Option.map_eq_some_iff.mp h
        exact kept_late_far s p now xmit cons toFar toNear hr hok hc
      · cases h
    | lateToNear p now xmit =>
      simp only [reuseStep] at h
      split at h
      · obtain ⟨c, hc, rfl⟩ := Option.map_eq_some_iff.mp h
        refine kept_nearStep s _ c hr hc fun d now' xmit' he hexp => ?_
        cases he
        exact absurd hexp hok
      · cases h

/- ### Other bytes at the sockets of the second connection -/

section Relabelled

variable (f g : Byte → Byte)

/-- The packets that the first connection has left stay as they are. -/
def relabelReuse : Reuse → Reuse
  | .first s => .first s
  | .second toFar toNear s => .second toFar toNear (relabelSession f g s)

def relabelReuseAct : ReuseAct → ReuseAct
  | .session a => .session (relabelSessionAct f g a)
  | a => a

variable {f g}

/-- A connection that does not wait for the DATA packet does not look at its payload. -/
theorem recv_refused (c : Con) (p : Packet) (now : ℕ) (xmit : ℕ → Int)
    (h : ∀ d, p = .data d → ¬Expects c d) :
    conStep c (.recv (relabelPacket f p) now xmit) = conStep c (.recv p now xmit) := by
  cases p with
  | data d =>
    have hrecv : pepdnaMinipRecvPacket c (.data (relabelPdu f d)) now xmit =
        pepdnaMinipRecvPacket c (.data d) now xmit := by
      unfold pepdnaMinipRecvPacket
      change (if c.hashed ∧ d.id = c.id then pepdnaConMinip2iFwd c (relabelPdu f d) else c) =
        if c.hashed ∧ d.id = c.id then pepdnaConMinip2iFwd c d else c
      split
      · next hfound =>
        have hseq : d.seq ≠ c.nextRecv := fun hseq => h d rfl ⟨hfound.1, hfound.2, hseq⟩
        have hseq' : (relabelPdu f d).seq ≠ c.nextRecv := hseq
        unfold pepdnaConMinip2iFwd
        rw [if_neg hseq, if_neg hseq']
        rfl
      · rfl
    simp only [conStep, relabelPacket, hrecv]
  | _ => rfl

theorem far_refused (cons : List Con) (p : Packet) (now : ℕ) (xmit : ℕ → Int)
    (h : ∀ d, p = .data d → ∀ b ∈ (pepdnaConFind cons d.id).bind fun i => cons[i]?, ¬Expects b d) :
    farRecvPacket cons (relabelPacket f p) now xmit = farRecvPacket cons p now xmit := by
  cases p with
  | data d =>
    simp only [relabelPacket, farRecvPacket]
    rw [show (Packet.data (relabelPdu f d)).id = d.id from rfl, show (Packet.data d).id = d.id from rfl]
    cases hf : pepdnaConFind cons d.id with
    | none => rfl
    | some i =>
      dsimp only
      cases hb : cons[i]? with
      | none => rfl
      | some b =>
        have hexp : ¬Expects b d := h d rfl b (by rw [hf]; exact hb)
        have hstep := @recv_refused f b (.data d) now xmit fun d' hd' => by
          cases hd'
          exact hexp
        simp only [relabelPacket] at hstep
        simp only [Option.bind_some, hstep]
  | _ => rfl

theorem lateToFar_relabel (toFar toNear : List Packet) (s : Session) (p : Packet) (now : ℕ)
    (xmit : ℕ → Int) (hok : LateRefused (.second toFar toNear s) (.lateToFar p now xmit)) :
    farRecvPacket (s.far.map (relabelCon g f)) p now xmit =
      (farRecvPacket s.far p now xmit).map (List.map (relabelCon g f)) := by
  rw [← farRecvPacket_relabel]
  refine (far_refused _ p now xmit ?_).symm
  intro d hd b hb hexp
  subst hd
  simp only [conFind_relabel, List.getElem?_map, Option.mem_def, Option.bind_eq_some_iff,
    Option.map_eq_some_iff] at hb
  obtain ⟨i, hi, b', hb', rfl⟩ := hb
  exact hok b' (by simp [hi, hb']) hexp

theorem lateToNear_relabel (toFar toNear : List Packet) (s : Session) (p : Packet) (now : ℕ)
    (xmit : ℕ → Int) (hok : LateRefused (.second toFar toNear s) (.lateToNear p now xmit)) :
    conStep (relabelCon f g s.near) (.recv p now xmit) =
      (conStep s.near (.recv p now xmit)).map (relabelCon f g) := by
  rw [← conStep_relabel]
  refine (recv_refused _ p now xmit ?_).symm
  intro d hd hexp
  subst hd
  exact hok hexp

theorem reuseStep_relabel (hf : Function.Injective f) (hg : Function.Injective g)
    (toFar toNear : List Packet) (s : Session) (a : ReuseAct)
    (hok : LateRefused (.second toFar toNear s) a) :
    reuseStep (.second toFar toNear (relabelSession f g s)) (relabelReuseAct f g a) =
      (reuseStep (.second toFar toNear s) a).map (relabelReuse f g) := by
  cases a with
  | session a =>
    simp only [relabelReuseAct, reuseStep, sessionStep_relabel hf hg, Option.map_map]
    rfl
  | reconnect => rfl
  | lateToFar p now xmit =>
    simp only [relabelReuseAct, reuseStep, relabelSession]
    split
    · rw [lateToFar_relabel toFar toNear s p now xmit hok, Option.map_map, Option.map_map]
      rfl
    · rfl
  | lateToNear p now xmit =>
    simp only [relabelReuseAct, reuseStep, relabelSession]
    split
    · rw [lateToNear_relabel toFar toNear s p now xmit hok, Option.map_map, Option.map_map]
      rfl
    · rfl

def InSecond : Reuse → Prop
  | .first _ => False
  | .second .. => True

theorem reuseRun_relabel (hf : Function.Injective f) (hg : Function.Injective g) (r : Reuse)
    (acts : List ReuseAct) (hr : InSecond r) (hok : Lts.Along reuseStep LateRefused r acts) :
    Lts.run reuseStep (relabelReuse f g r) (acts.map (relabelReuseAct f g)) =
      (Lts.run reuseStep r acts).map (relabelReuse f g) := by
  refine Lts.run_map _ _ InSecond LateRefused ?_ ?_ r acts hr hok
  · intro r a hr hok
    cases r with
    | first s => cases hr
    | second toFar toNear s => exact reuseStep_relabel hf hg toFar toNear s a hok
  · intro r a r' hr _ h
    cases r with
    | first s => cases hr
    | second toFar toNear s =>
      cases a with
      | session a =>
        obtain ⟨t, -, rfl⟩ := Option.map_eq_some_iff.mp h
        trivial
      | reconnect syn => cases h
      | lateToFar p now xmit =>
        simp only [reuseStep] at h
        split at h
        · obtain ⟨t, -, rfl⟩ := Option.map_eq_some_iff.mp h
          trivial
        · cases h
      | lateToNear p now xmit =>
        simp only [reuseStep] at h
        split at h
        · obtain ⟨t, -, rfl⟩ := Option.map_eq_some_iff.mp h
          trivial
        · cases h

theorem reconnect_second (r t : Reuse) (syn : SynTuple)
    (h : reuseStep r (.reconnect syn) = some t) :
    ∃ toFar toNear, t = .second toFar toNear (newSession syn) := by
  cases r with
  | first s =>
    simp only [reuseStep] at h
    split at h
    · cases h
      exact ⟨_, _, rfl⟩
    · cases h
  | second => cases h

end Relabelled

/-- The client uses its address and port for a first connection (`before`) and, when that is
released, for a second one (`after`). If no DATA packet of the first reaches a connection that
waits for its number, whatever else of the first arrives, and how often, then the second writes
bytes that were read for it; and with other bytes read at its sockets, `f` and `g` of those of
this run, the same steps lead to the same state with `f` and `g` of the bytes written: none of
them has come from the first. -/
theorem reuseRun_own_bytes (f g : Byte → Byte) (hf : Function.Injective f)
    (hg : Function.Injective g) (syn syn' : SynTuple) (before after : List ReuseAct)
    (toFar toNear : List Packet) (s : Session)
    (hok : Lts.Along reuseStep LateRefused (.first (newSession syn))
      (before ++ .reconnect syn' :: after))
    (h : Lts.run reuseStep (.first (newSession syn)) (before ++ .reconnect syn' :: after) =
      some (.second toFar toNear s)) :
    OwnBytes s ∧
      Lts.run reuseStep (.first (newSession syn))
          (before ++ .reconnect syn' :: after.map (relabelReuseAct f g)) =
        some (.second toFar toNear (relabelSession f g s)) := by
  have hs : SecondKept (.second toFar toNear s) :=
    Lts.run_invariant_along SecondKept LateRefused secondKept_step (.first (newSession syn)) _ _
      trivial hok h
  refine ⟨⟨fun b hb => (Kept.toFar hs b hb).wr, (Kept.toNear hs).wr⟩, ?_⟩
  rw [Lts.run_append] at h ⊢
  obtain ⟨r, hr, h⟩ := Option.bind_eq_some_iff.mp h
  obtain ⟨t, ht, h⟩ := (Lts.run_cons_eq_some r _ _ after).mp h
  obtain ⟨toFar', toNear', rfl⟩ := reconnect_second r t syn' ht
  have hafter := (Lts.along_suffix LateRefused _ r before _ hok hr).2 _ ht
  have hrun := reuseRun_relabel hf hg (.second toFar' toNear' (newSession syn')) after trivial hafter
  rw [h] at hrun
  rw [hr, Option.bind_some, Lts.run_cons, ht, Option.bind_some]
  exact hrun

/- Set-up, and both works have found nothing to read. -/
def setUp : List SessionAct :=
  [.near (.tcfa 0 5), .near (.tcfa 0 5),
    .toFar (.request sampleSyn.hashId 9 9 5 sampleSyn) true 6 fun _ => 0,
    .far 0 (.tcfa 0 6), .far 0 (.tcfa 0 6), .far 0 (.tcfa 0 6), .far 0 (.tcfa 0 6),
    .far 0 (.tcfa 0 6), .far 0 (.tcfa 0 6),
    .toNear 0 (.response sampleSyn.hashId 9 10) true 7 fun _ => 0, .near .accept,
    .near (.work .tau), .near (.work .tau), .near (.work .tau), .near (.work (.recvRet (-11))),
    .near (.work .tau), .far 0 (.work .tau), .far 0 (.work .tau), .far 0 (.work .tau),
    .far 0 (.work (.recvRet (-11))), .far 0 (.work .tau)]

def dataOf (b : Byte) : Packet := .data ⟨sampleSyn.hashId, 10, 1, 8, [b]⟩

/- The client sends one byte; the network keeps a copy of its packet. -/
def oneByte (b : Byte) : List SessionAct :=
  [.near .dataReady, .near (.work .tau), .near (.work .tau), .near (.work .tau),
    .near (.work (.read [b])), .near (.work (.skb (.xmit 0) 8)), .near (.work .tau),
    .near (.work .tau), .near (.work .tau), .near (.work (.recvRet (-11))), .near (.work .tau),
    .toFar (dataOf b) true 9 fun _ => 0, .far 0 (.sendmsg 1)]

/- The server closes, and both proxies release the connection. -/
def serverCloses : List SessionAct :=
  [.far 0 .dataReady, .far 0 (.work .tau), .far 0 (.work .tau), .far 0 (.work .tau),
    .far 0 (.work (.recvRet 0)), .far 0 (.work .tau), .far 0 (.work .tau), .far 0 (.work .tau),
    .far 0 (.work .tau), .toNear 0 (.delete sampleSyn.hashId) false 8 fun _ => 0,
    .toFar (.finished sampleSyn.hashId) false 9 fun _ => 0]

/- The first connection carries the byte 7 and is released. -/
def firstUsed : List ReuseAct := (setUp ++ oneByte 7 ++ serverCloses).map .session

def firstUse : Reuse := .first (newSession sampleSyn)

def reuseAfter (acts : List ReuseAct) : Reuse :=
  (Lts.run reuseStep firstUse (firstUsed ++ .reconnect sampleSyn :: acts)).getD firstUse

def Reuse.session : Reuse → Session
  | .first s => s
  | .second _ _ s => s

def Reuse.late : Reuse → List Packet × List Packet
  | .first _ => ([], [])
  | .second toFar toNear _ => (toFar, toNear)

/- The ACK of the first connection arrives again before the byte of the second, and its DATA packet
after it, when the far proxy waits for the next number. -/
def lateRefused : List ReuseAct :=
  setUp.map .session ++ [.lateToNear (.ack sampleSyn.hashId 11 8) 10 fun _ => 0] ++
    (oneByte 5).map .session ++ [.lateToFar (dataOf 7) 11 fun _ => 0]

theorem lateRefused_own_bytes :
    (reuseAfter lateRefused).session.far.map Con.wr = [[5]] ∧
      OwnBytes (reuseAfter lateRefused).session ∧
      Lts.run reuseStep firstUse (firstUsed ++ .reconnect sampleSyn ::
          lateRefused.map (relabelReuseAct Fin.rev id)) =
        some (.second (reuseAfter lateRefused).late.1 (reuseAfter lateRefused).late.2
          (relabelSession Fin.rev id (reuseAfter lateRefused).session)) :=
  ⟨by decide +kernel, reuseRun_own_bytes Fin.rev id Fin.rev_injective Function.injective_id
    sampleSyn sampleSyn firstUsed lateRefused _ _ _ (by decide +kernel) (by decide +kernel)⟩

/- The DATA packet of the first connection arrives while the far proxy waits for its number. -/
def lateData : List ReuseAct :=
  setUp.map .session ++ [.lateToFar (dataOf 7) 10 fun _ => 0, .session (.far 0 (.sendmsg 1))]

theorem mem_of_pieces (P : Bytes → Prop) (bs : Bytes) (x : Byte) (h : Pieces P bs) (hx : x ∈ bs) :
    ∃ y, P y ∧ x ∈ y := by
  obtain ⟨parts, rfl, hparts⟩ := h
  obtain ⟨y, hy, hxy⟩ := List.mem_flatten.mp hx
  exact ⟨y, hparts y hy, hxy⟩

/-- The far proxy writes the byte of the first client to the server of the second, which has sent
nothing. -/
theorem lateData_crosses :
    Lts.run reuseStep firstUse (firstUsed ++ .reconnect sampleSyn :: lateData) =
        some (.second (reuseAfter lateData).late.1 (reuseAfter lateData).late.2
          (reuseAfter lateData).session) ∧
      (reuseAfter lateData).session.near.rd = [] ∧
      (reuseAfter lateData).session.far.map Con.wr = [[7]] ∧
      ¬ OwnBytes (reuseAfter lateData).session := by
  have hfacts : Lts.run reuseStep firstUse (firstUsed ++ .reconnect sampleSyn :: lateData) =
        some (.second (reuseAfter lateData).late.1 (reuseAfter lateData).late.2
          (reuseAfter lateData).session) ∧
      (reuseAfter lateData).session.near.rd = [] ∧
      (reuseAfter lateData).session.far.map Con.wr = [[7]] := by decide +kernel
  obtain ⟨hrun, hrd, hwr⟩ := hfacts
  refine ⟨hrun, hrd, hwr, fun hown => ?_⟩
  have hmem : [7] ∈ (reuseAfter lateData).session.far.map Con.wr := by simp [hwr]
  obtain ⟨b, hb, hbwr⟩ := List.mem_map.mp hmem
  obtain ⟨y, hy, h7⟩ := mem_of_pieces _ _ 7 (hown.far b hb) (by simp [hbwr])
  rw [hrd, List.infix_nil] at hy
  rw [hy] at h7
  cases h7

end PepDna.Minip
