import PepDna.Basic
import Mathlib.Data.List.Infix
import Mathlib.Data.List.Forall2

/-!
# The retransmission queue (minip.c:30-291)

`struct rtxqueue` is a list of entries and a length kept beside it. The length
is a field of the structure together with the proof that it is right, so every
operation below that touches the list has to account for it.
-/

namespace PepDna.Minip

def MINIP_FIRST_SEQ : ℕ := 9
def WINDOW_SIZE : ℕ := 12
def MAX_MINIP_RETRY : ℕ := 3
def MINIP_MSS : ℕ := 1481

/-- A MINIP_CONN_DATA skb: the header fields `pepdna_minip_skb_send` fills in, and the payload. -/
structure DataPdu where
  id : ℕ
  seq : ℕ
  sduLen : ℕ
  ts : ℕ
  sdu : Bytes
  deriving Repr, DecidableEq

structure RtxqEntry where
  skb : DataPdu
  retries : ℕ
  deriving Repr, DecidableEq

structure Rtxqueue where
  head : List RtxqEntry
  len : ℕ
  len_eq : len = head.length
  deriving Repr, DecidableEq

def rtxqueueCreate : Rtxqueue := ⟨[], 0, rfl⟩

/-- Entries are pushed at the tail with `retries = 0`. -/
def rtxqueuePush (q : Rtxqueue) (skb : DataPdu) : Rtxqueue :=
  ⟨q.head ++ [⟨skb, 0⟩], q.len + 1, by simp [q.len_eq]⟩

/-- The release loop of `rtxqueue_entries_ack`: what is left of the list and the credit. -/
def entriesAck (ack : ℕ) : List RtxqEntry → List RtxqEntry × ℕ
  | [] => ([], 0)
  | cur :: n =>
    if cur.skb.seq ≥ ack then (cur :: n, 0)
    else ((entriesAck ack n).1, (entriesAck ack n).2 + 1)

theorem entriesAck_length (ack : ℕ) (l : List RtxqEntry) :
    (entriesAck ack l).1.length + (entriesAck ack l).2 = l.length := by
  induction l with
  | nil => rfl
  | cons cur n ih =>
    simp only [entriesAck]
    split
    · simp
    · simp only [List.length_cons]
      omega

def rtxqueueEntriesAck (q : Rtxqueue) (ack : ℕ) : Rtxqueue × ℕ :=
  (⟨(entriesAck ack q.head).1, q.len - (entriesAck ack q.head).2, by
    have h := entriesAck_length ack q.head
    have hl := q.len_eq
    omega⟩, (entriesAck ack q.head).2)

theorem entriesAck_suffix (ack : ℕ) (l : List RtxqEntry) : (entriesAck ack l).1 <:+ l := by
  induction l with
  | nil => exact List.suffix_rfl
  | cons cur n ih =>
    simp only [entriesAck]
    split
    · exact List.suffix_rfl
    · exact ih.trans (List.suffix_cons cur n)

/-- The loop releases a part of the list that is below `ack` and stops at what is not. -/
theorem entriesAck_append (ack : ℕ) (l r : List RtxqEntry) (hl : ∀ e ∈ l, e.skb.seq < ack)
    (hr : ∀ e ∈ r.head?, ack ≤ e.skb.seq) : entriesAck ack (l ++ r) = (r, l.length) := by
  induction l with
  | nil =>
    cases r with
    | nil => rfl
    | cons e r =>
      have hge : e.skb.seq ≥ ack := hr e rfl
      simp only [List.nil_append, entriesAck, hge, if_true, List.length_nil]
  | cons cur n ih =>
    rw [List.forall_mem_cons] at hl
    have hlt : ¬cur.skb.seq ≥ ack := Nat.not_le.mpr hl.1
    simp only [List.cons_append, entriesAck, hlt, if_false, ih hl.2, List.length_cons]

/-- On numbers in order the loop leaves what is not below `ack`. -/
theorem entriesAck_sorted (ack : ℕ) (l : List RtxqEntry)
    (h : (l.map fun e => e.skb.seq).Pairwise (· ≤ ·)) :
    (entriesAck ack l).1 = l.filter fun e => decide (ack ≤ e.skb.seq) := by
  induction l with
  | nil => rfl
  | cons cur n ih =>
    rw [List.map_cons, List.pairwise_cons] at h
    by_cases hge : cur.skb.seq ≥ ack
    · have hall : (cur :: n).filter (fun e => decide (ack ≤ e.skb.seq)) = cur :: n := by
        rw [List.filter_eq_self]
        intro e he
        rcases List.mem_cons.mp he with rfl | he
        · exact decide_eq_true hge
        · exact decide_eq_true (hge.trans (h.1 _ (List.mem_map_of_mem he)))
      simp only [entriesAck, hge, if_true, hall]
    · rw [List.filter_cons_of_neg (by simpa using hge)]
      simp only [entriesAck, hge, if_false]
      exact ih h.2

/-- On consecutive numbers the loop releases exactly those below `ack`. -/
theorem entriesAck_consecutive (ack lo k : ℕ) (l : List RtxqEntry)
    (h : l.map (fun e => e.skb.seq) = List.range' lo k) (hle : ack ≤ lo + k) :
    (entriesAck ack l).1.map (fun e => e.skb.seq) =
      List.range' (max lo ack) (lo + k - max lo ack) := by
  induction l generalizing lo k with
  | nil =>
    cases k with
    | zero =>
      have hm : lo + 0 - max lo ack = 0 := by omega
      rw [hm]
      rfl
    | succ k => simp [List.range'_succ] at h
  | cons cur n ih =>
    cases k with
    | zero => simp at h
    | succ k =>
      simp only [List.map_cons, List.range'_succ, List.cons.injEq] at h
      obtain ⟨hcur, hn⟩ := h
      simp only [entriesAck]
      split
      · next hge =>
        have hm : max lo ack = lo := by omega
        have hk : lo + (k + 1) - lo = k + 1 := by omega
        rw [hm, hk, List.map_cons, hcur, hn, List.range'_succ]
      · next hlt =>
        rw [ih (lo + 1) k hn (by omega)]
        have hm : max (lo + 1) ack = max lo ack := by omega
        have hk : lo + 1 + k - max lo ack = lo + (k + 1) - max lo ack := by omega
        rw [hm, hk]

/-- `rtxq_entry_rtx` when the retry budget is not used up: a new timestamp, one more retry. -/
def rtxqEntryBump (now : ℕ) (e : RtxqEntry) : RtxqEntry :=
  { skb := { e.skb with ts := now }, retries := e.retries + 1 }

/-- `rtxqueue_entries_rtx`: the list after it, the skbs given to `dev_queue_xmit` and whether it
returned `0`. `xmit seq` is what `dev_queue_xmit` answers for the entry numbered `seq`. -/
def entriesRtx (ack now : ℕ) (xmit : ℕ → Int) :
    List RtxqEntry → List RtxqEntry × List DataPdu × Bool
  | [] => ([], [], true)
  | cur :: n =>
    if cur.skb.seq ≥ ack then
      if cur.retries < MAX_MINIP_RETRY then
        let cur' := rtxqEntryBump now cur
        if xmit cur.skb.seq < 0 then (cur' :: n, [cur'.skb], false)
        else
          let r := entriesRtx ack now xmit n
          (cur' :: r.1, cur'.skb :: r.2.1, r.2.2)
      else (cur :: n, [], false)
    else
      let r := entriesRtx ack now xmit n
      (cur :: r.1, r.2.1, r.2.2)

/-- Two lists of entries that differ in retries and timestamps only. -/
def SamePayload (l l' : List RtxqEntry) : Prop :=
  List.Forall₂ (fun e e' => e'.skb = { e.skb with ts := e'.skb.ts }) l l'

/-- What a retransmission pass from `ack` may do to an entry: nothing below `ack`, a new timestamp
and another number of retries from there on. -/
def RtxFrom (ack : ℕ) (e e' : RtxqEntry) : Prop :=
  (e.skb.seq < ack → e' = e) ∧ e'.skb = { e.skb with ts := e'.skb.ts }

theorem rtxFrom_refl (ack : ℕ) (l : List RtxqEntry) : List.Forall₂ (RtxFrom ack) l l := by
  induction l with
  | nil => exact .nil
  | cons e l ih => exact .cons ⟨fun _ => rfl, rfl⟩ ih

theorem samePayload_refl (l : List RtxqEntry) : SamePayload l l :=
  (rtxFrom_refl 0 l).imp fun _ _ h => h.2

theorem rtxFrom_bump (ack now : ℕ) (e : RtxqEntry) (h : e.skb.seq ≥ ack) :
    RtxFrom ack e (rtxqEntryBump now e) :=
  ⟨fun hlt => absurd hlt (Nat.not_lt.mpr h), rfl⟩

theorem entriesRtx_rtxFrom (ack now : ℕ) (xmit : ℕ → Int) (l : List RtxqEntry) :
    List.Forall₂ (RtxFrom ack) l (entriesRtx ack now xmit l).1 := by
  induction l with
  | nil => exact .nil
  | cons cur n ih =>
    simp only [entriesRtx]
    split
    · next hge =>
      split
      · split
        · exact .cons (rtxFrom_bump ack now cur hge) (rtxFrom_refl ack n)
        · exact .cons (rtxFrom_bump ack now cur hge) ih
      · exact rtxFrom_refl ack _
    · exact .cons ⟨fun _ => rfl, rfl⟩ ih

theorem entriesRtx_samePayload (ack now : ℕ) (xmit : ℕ → Int) (l : List RtxqEntry) :
    SamePayload l (entriesRtx ack now xmit l).1 :=
  (entriesRtx_rtxFrom ack now xmit l).imp fun _ _ h => h.2

theorem samePayload_seqs (l l' : List RtxqEntry) (h : SamePayload l l') :
    l'.map (fun e => e.skb.seq) = l.map (fun e => e.skb.seq) := by
  induction h with
  | nil => rfl
  | cons he _ ih =>
    simp only [List.map_cons, ih]
    rw [he]

theorem samePayload_mem (l l' : List RtxqEntry) (h : SamePayload l l') (e' : RtxqEntry)
    (he' : e' ∈ l') : ∃ e ∈ l, e'.skb = { e.skb with ts := e'.skb.ts } := by
  induction h with
  | nil => simp at he'
  | cons he _ ih =>
    rcases List.mem_cons.mp he' with rfl | he'
    · exact ⟨_, List.mem_cons_self, he⟩
    · obtain ⟨e, hm, hq⟩ := ih he'
      exact ⟨e, List.mem_cons_of_mem _ hm, hq⟩

/-- What is retransmitted is an entry of the queue, up to its timestamp. -/
theorem entriesRtx_sent (ack now : ℕ) (xmit : ℕ → Int) (l : List RtxqEntry) (d : DataPdu)
    (hd : d ∈ (entriesRtx ack now xmit l).2.1) : ∃ e ∈ l, d = { e.skb with ts := now } := by
  induction l with
  | nil => simp [entriesRtx] at hd
  | cons cur n ih =>
    have tail (hd : d ∈ (entriesRtx ack now xmit n).2.1) :
        ∃ e ∈ cur :: n, d = { e.skb with ts := now } := by
      obtain ⟨e, hm, hq⟩ := ih hd
      exact ⟨e, List.mem_cons_of_mem _ hm, hq⟩
    simp only [entriesRtx] at hd
    split at hd
    · split at hd
      · split at hd
        · exact ⟨cur, List.mem_cons_self, List.mem_singleton.mp hd⟩
        · rcases List.mem_cons.mp hd with hd | hd
          · exact ⟨cur, List.mem_cons_self, hd⟩
          · exact tail hd
      · simp at hd
    · exact tail hd

/-- A pass that is not cut short retransmits every entry from `ack` on. -/
theorem entriesRtx_all (ack now : ℕ) (xmit : ℕ → Int) (l : List RtxqEntry)
    (h : (entriesRtx ack now xmit l).2.2 = true) :
    (entriesRtx ack now xmit l).2.1 =
      (l.filter fun e => decide (ack ≤ e.skb.seq)).map fun e => { e.skb with ts := now } := by
  induction l with
  | nil => rfl
  | cons cur n ih =>
    simp only [entriesRtx] at h ⊢
    by_cases hge : cur.skb.seq ≥ ack
    · by_cases hr : cur.retries < MAX_MINIP_RETRY
      · by_cases hx : xmit cur.skb.seq < 0
        · simp only [hge, hr, hx, if_true, Bool.false_eq_true] at h
        · simp only [hge, hr, hx, if_true, if_false] at h ⊢
          have hp : decide (ack ≤ cur.skb.seq) = true := decide_eq_true hge
          simp only [List.filter_cons, hp, if_true, List.map_cons, ih h, rtxqEntryBump]
      · simp only [hge, hr, if_true, if_false, Bool.false_eq_true] at h
    · simp only [hge, if_false] at h ⊢
      have hp : decide (ack ≤ cur.skb.seq) = false := decide_eq_false hge
      simp only [List.filter_cons, hp, Bool.false_eq_true, if_false]
      exact ih h

theorem entriesRtx_length (ack now : ℕ) (xmit : ℕ → Int) (l : List RtxqEntry) :
    (entriesRtx ack now xmit l).1.length = l.length :=
  (entriesRtx_samePayload ack now xmit l).length_eq.symm

def rtxqueueEntriesRtx (q : Rtxqueue) (ack now : ℕ) (xmit : ℕ → Int) :
    Rtxqueue × List DataPdu × Bool :=
  (⟨(entriesRtx ack now xmit q.head).1, q.len, by
    rw [entriesRtx_length]
    exact q.len_eq⟩, (entriesRtx ack now xmit q.head).2)

theorem entriesRtx_retries (ack now : ℕ) (xmit : ℕ → Int) (l : List RtxqEntry)
    (h : ∀ e ∈ l, e.retries ≤ MAX_MINIP_RETRY) :
    ∀ e ∈ (entriesRtx ack now xmit l).1, e.retries ≤ MAX_MINIP_RETRY := by
  induction l with
  | nil => exact h
  | cons cur n ih =>
    have hn := (List.forall_mem_cons.mp h).2
    simp only [entriesRtx]
    split
    · split
      · next hlt =>
        -- the entry is bumped only below the budget
        split
        · exact List.forall_mem_cons.mpr ⟨hlt, hn⟩
        · exact List.forall_mem_cons.mpr ⟨hlt, ih hn⟩
      · exact h
    · exact List.forall_mem_cons.mpr ⟨(List.forall_mem_cons.mp h).1, ih hn⟩

/-! ### Runs of the three operations -/

/-- The calls on a queue; `mem` says whether the entry of a push can be allocated. -/
inductive RtxqCall where
  | push (skb : DataPdu) (mem : Bool)
  | ack (ack : ℕ)
  | fullRtx (ack now : ℕ) (xmit : ℕ → Int)

def rtxqCall (q : Rtxqueue) : RtxqCall → Rtxqueue
  | .push skb mem => if mem then rtxqueuePush q skb else q
  | .ack ack => (rtxqueueEntriesAck q ack).1
  | .fullRtx ack now xmit => (rtxqueueEntriesRtx q ack now xmit).1

/-- The numbers given to `rtxq_push` in a sequence of calls. -/
def pushedSeqs : List RtxqCall → List ℕ
  | [] => []
  | .push skb _ :: calls => skb.seq :: pushedSeqs calls
  | _ :: calls => pushedSeqs calls

def Rtxqueue.seqs (q : Rtxqueue) : List ℕ := q.head.map fun e => e.skb.seq

theorem rtxqCall_seqs_sublist (q : Rtxqueue) (call : RtxqCall) (calls : List RtxqCall) :
    ((rtxqCall q call).seqs ++ pushedSeqs calls).Sublist (q.seqs ++ pushedSeqs (call :: calls)) := by
  cases call with
  | push skb mem =>
    cases mem with
    | true => simp [rtxqCall, rtxqueuePush, Rtxqueue.seqs, pushedSeqs]
    | false => exact (List.sublist_cons_self _ _).append_left _
  | ack ack => exact ((entriesAck_suffix ack q.head).sublist.map _).append_right _
  | fullRtx ack now xmit =>
    have h := samePayload_seqs _ _ (entriesRtx_samePayload ack now xmit q.head)
    simp only [rtxqCall, rtxqueueEntriesRtx, Rtxqueue.seqs, pushedSeqs, h]
    exact List.Sublist.refl _

theorem rtxqCall_retries (q : Rtxqueue) (call : RtxqCall)
    (h : ∀ e ∈ q.head, e.retries ≤ MAX_MINIP_RETRY) :
    ∀ e ∈ (rtxqCall q call).head, e.retries ≤ MAX_MINIP_RETRY := by
  cases call with
  | push skb mem =>
    cases mem with
    | true =>
      intro e he
      rcases List.mem_append.mp he with he | he
      · exact h e he
      · rw [List.mem_singleton.mp he]
        exact Nat.zero_le _
    | false => exact h
  | ack ack => exact fun e he => h e ((entriesAck_suffix ack q.head).subset he)
  | fullRtx ack now xmit => exact entriesRtx_retries ack now xmit q.head h

-- The numbers in the queue and those still to be pushed are one increasing list all along.
theorem rtxqCalls_seqs (q : Rtxqueue) (calls : List RtxqCall)
    (h : (q.seqs ++ pushedSeqs calls).Pairwise (· < ·)) :
    (calls.foldl rtxqCall q).seqs.Pairwise (· < ·) := by
  induction calls generalizing q with
  | nil => simpa [pushedSeqs] using h
  | cons call calls ih => exact ih _ (h.sublist (rtxqCall_seqs_sublist q call calls))

theorem rtxqCalls_retries (q : Rtxqueue) (calls : List RtxqCall)
    (h : ∀ e ∈ q.head, e.retries ≤ MAX_MINIP_RETRY) :
    ∀ e ∈ (calls.foldl rtxqCall q).head, e.retries ≤ MAX_MINIP_RETRY := by
  induction calls generalizing q with
  | nil => exact h
  | cons call calls ih => exact ih _ (rtxqCall_retries q call h)

/-- On numbers in order `rtxq_ack` removes what is below `ack` and returns how many these are. -/
theorem rtxqueueEntriesAck_sorted (q : Rtxqueue) (ack : ℕ) (h : q.seqs.Pairwise (· < ·)) :
    (rtxqueueEntriesAck q ack).1.head = (q.head.filter fun e => decide (ack ≤ e.skb.seq)) ∧
      (rtxqueueEntriesAck q ack).2 = (q.head.filter fun e => decide (e.skb.seq < ack)).length := by
  have hkeep := entriesAck_sorted ack q.head (h.imp Nat.le_of_lt)
  refine ⟨hkeep, ?_⟩
  have hlen := entriesAck_length ack q.head
  have hsplit := List.length_eq_length_filter_add (l := q.head) fun e => decide (e.skb.seq < ack)
  have hnot : (q.head.filter fun e => !decide (e.skb.seq < ack)) =
      q.head.filter fun e => decide (ack ≤ e.skb.seq) := by
    refine List.filter_congr fun e _ => ?_
    rw [← decide_not]
    exact decide_eq_decide.mpr Nat.not_lt
  rw [hnot] at hsplit
  rw [hkeep] at hlen
  change (entriesAck ack q.head).2 = _
  omega

/-- What any sequence of calls keeps true of a queue, if the numbers pushed increase, and what the
next call then does. -/
theorem rtxq_representation (calls : List RtxqCall) (h : (pushedSeqs calls).Pairwise (· < ·)) :
    let q := calls.foldl rtxqCall rtxqueueCreate
    (q.head.map fun e => e.skb.seq).Pairwise (· < ·) ∧ q.len = q.head.length ∧
      (∀ e ∈ q.head, e.retries ≤ MAX_MINIP_RETRY) ∧
      (∀ ack,
        (rtxqueueEntriesAck q ack).1.head = (q.head.filter fun e => decide (ack ≤ e.skb.seq)) ∧
        (rtxqueueEntriesAck q ack).2 =
          (q.head.filter fun e => decide (e.skb.seq < ack)).length) ∧
      (∀ ack now xmit,
        List.Forall₂ (RtxFrom ack) q.head (rtxqueueEntriesRtx q ack now xmit).1.head) := by
  intro q
  have hseqs : q.seqs.Pairwise (· < ·) := rtxqCalls_seqs rtxqueueCreate calls h
  have hretries : ∀ e ∈ q.head, e.retries ≤ MAX_MINIP_RETRY :=
    rtxqCalls_retries rtxqueueCreate calls (by simp [rtxqueueCreate])
  exact ⟨hseqs, q.len_eq, hretries, fun ack => rtxqueueEntriesAck_sorted q ack hseqs,
    fun ack now xmit => entriesRtx_rtxFrom ack now xmit q.head⟩

/-- Three packets, a timeout from the second one on and an ACK for the first. -/
def threeCalls : List RtxqCall :=
  [.push ⟨1, 10, 1, 5, [0]⟩ true, .push ⟨1, 11, 1, 5, [0]⟩ true, .push ⟨1, 12, 1, 5, [0]⟩ true,
    .fullRtx 11 9 fun _ => 0]

theorem rtxq_representation_three :
    let q := threeCalls.foldl rtxqCall rtxqueueCreate
    (rtxqueueEntriesAck q 11).1.head =
        (q.head.filter fun e => decide (11 ≤ e.skb.seq)) ∧
      (rtxqueueEntriesAck q 11).2 = 1 ∧ (q.head.map fun e => e.retries) = [0, 1, 1] := by
  have h := (rtxq_representation threeCalls (by decide)).2.2.2.1 11
  exact ⟨h.1, h.2.trans (by decide), by decide⟩

end PepDna.Minip
