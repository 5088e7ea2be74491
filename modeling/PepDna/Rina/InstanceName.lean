import PepDna.Rina.Tuple
import Mathlib.Data.List.TakeWhile

/-!
# The names that the flow allocator takes (flow-allocator-server.cc:166-200, common.cc:143-168)

The instance name of a flow request comes from the far side and should be the text of two
addresses and ports. `ev_thread_fn` splits it and converts the pieces without a test on the number
of tokens or on what `sscanf` has read, and it sends a message in any case.
-/

namespace PepDna.Rina

/-! ### The grammar -/

/-- Decimal digits with the value `n`; leading zeros do not matter. -/
structure IsDecimal (ds : List Char) (n : ℕ) : Prop where
  nonempty : ds ≠ []
  digit : ∀ c ∈ ds, c.isDigit = true
  value : Nat.ofDigitChars 10 ds 0 = n

structure Endpoint where
  a : Fin 256
  b : Fin 256
  c : Fin 256
  d : Fin 256
  port : Fin 65536
  deriving Repr, DecidableEq

/-- The address in network order, as a little-endian host loads it. -/
def Endpoint.addr (x : Endpoint) : UInt32 :=
  UInt32.ofNat (x.a.val + 256 * x.b.val + 65536 * x.c.val + 16777216 * x.d.val)

/- `a.b.c.d` -/
def SpellsAddr (s : List Char) (x : Endpoint) : Prop :=
  ∃ da db dc dd, s = da ++ '.' :: (db ++ '.' :: (dc ++ '.' :: dd)) ∧
    IsDecimal da x.a ∧ IsDecimal db x.b ∧ IsDecimal dc x.c ∧ IsDecimal dd x.d

/- `a.b.c.d-p-e.f.g.h-q` -/
def SpellsName (s : List Char) (src dst : Endpoint) : Prop :=
  ∃ sa sp da dp, s = ['-'].intercalate [sa, sp, da, dp] ∧
    SpellsAddr sa src ∧ IsDecimal sp src.port ∧ SpellsAddr da dst ∧ IsDecimal dp dst.port

def nameMsg (src dst : Endpoint) (portId : Int) : NlMsg :=
  ⟨src.addr, UInt16.ofNat src.port, dst.addr, UInt16.ofNat dst.port, 0, portId, true⟩

/-! ### The conversions on it -/

theorem IsDecimal.int {ds : List Char} {n : ℕ} (h : IsDecimal ds n) (hn : n < 9223372036854775808)
    (s : List Char) (hs : Scan.Stops s) : Scan.int (ds ++ s) = some ((n : Int), s) := by
  rw [Scan.int_append ds s h.nonempty h.digit hs, h.value, Scan.toLong_natCast n hn]

theorem IsDecimal.int_nil {ds : List Char} {n : ℕ} (h : IsDecimal ds n)
    (hn : n < 9223372036854775808) : Scan.int ds = some ((n : Int), []) := by
  have hi := h.int hn [] Scan.stops_nil
  rwa [List.append_nil] at hi

theorem IsDecimal.not_mem {ds : List Char} {n : ℕ} (h : IsDecimal ds n) (c : Char)
    (hc : c.isDigit = false) : c ∉ ds := by
  intro hmem
  rw [h.digit c hmem] at hc
  cases hc

theorem SpellsAddr.cstringToUint32 {s : List Char} {x : Endpoint} (h : SpellsAddr s x) :
    cstringToUint32 s = some x.addr := by
  obtain ⟨da, db, dc, dd, rfl, ha, hb, hc, hd⟩ := h
  have hdot (t : List Char) : Scan.Stops ('.' :: t) := Scan.stops_cons _ _ rfl
  have hlong (y : Fin 256) : y.val < 9223372036854775808 := by omega
  simp only [Rina.cstringToUint32, sscanfOctets, Option.bind_eq_bind, Option.bind_some,
    Option.pure_def, ha.int (hlong _) _ (hdot _), hb.int (hlong _) _ (hdot _),
    hc.int (hlong _) _ (hdot _), hd.int_nil (hlong _), Scan.lit_cons, octet_of_lt _ x.a.isLt,
    octet_of_lt _ x.b.isLt, octet_of_lt _ x.c.isLt, octet_of_lt _ x.d.isLt, Endpoint.addr]

theorem SpellsAddr.not_mem {s : List Char} {x : Endpoint} (h : SpellsAddr s x) (c : Char)
    (hc : c.isDigit = false) (hdot : c ≠ '.') : c ∉ s := by
  obtain ⟨da, db, dc, dd, rfl, ha, hb, hc', hd⟩ := h
  simp [ha.not_mem c hc, hb.not_mem c hc, hc'.not_mem c hc, hd.not_mem c hc, hdot]

theorem SpellsAddr.ne_nil {s : List Char} {x : Endpoint} (h : SpellsAddr s x) : s ≠ [] := by
  obtain ⟨da, db, dc, dd, rfl, -⟩ := h
  simp

theorem IsDecimal.cstringToUint16 {ds : List Char} (x : Fin 65536) (h : IsDecimal ds x) :
    cstringToUint16 ds = UInt16.ofNat x := by
  have hx := x.isLt
  have hval : ¬((x.val : Int) < 0 ∨ (x.val : Int) > UINT16_MAX) := by
    rw [UINT16_MAX]
    omega
  simp only [Rina.cstringToUint16, h.int_nil (by omega), Option.map_some, Option.getD_some,
    if_neg hval, Int.toNat_natCast]

theorem evThreadFn_spelled {s : List Char} {src dst : Endpoint} (h : SpellsName s src dst)
    (portId : Int) : evThreadFn s portId = some (nameMsg src dst portId) := by
  obtain ⟨sa, sp, da, dp, rfl, hsa, hsp, hda, hdp⟩ := h
  have htokens : Scan.getlines '-' (['-'].intercalate [sa, sp, da, dp]) = [sa, sp, da, dp] := by
    apply Scan.getlines_intercalate
    · simp
    · simp [hsa.not_mem '-' rfl (by decide), hsp.not_mem '-' rfl, hda.not_mem '-' rfl (by decide),
        hdp.not_mem '-' rfl]
    · simp [hsa.ne_nil.symm, hsp.nonempty.symm, hda.ne_nil.symm, hdp.nonempty.symm]
  rw [evThreadFn, htokens]
  simp [hsa.cstringToUint32, hda.cstringToUint32, hsp.cstringToUint16, hdp.cstringToUint16, nameMsg]

/-! ### Names from the far side -/

/-- `processInstance.c_str()` ends at the first NUL. -/
def cStr (s : List Char) : List Char := s.takeWhile fun c => decide (c ≠ Char.ofNat 0)

/-- The message for a flow request with the instance name `s`; `none` is a read past the tokens or
of an octet that was not parsed. -/
def requestMsg (s : List Char) (portId : Int) : Option NlMsg := evThreadFn (cStr s) portId

/-- The parser is defined on the name, sends the message it spells, and none if it spells none. -/
structure ParsesExactly (s : List Char) (portId : Int) : Prop where
  defined : requestMsg s portId ≠ none
  exact : ∀ src dst, SpellsName s src dst → requestMsg s portId = some (nameMsg src dst portId)
  silent : (∀ src dst, ¬SpellsName s src dst) → ∀ m, requestMsg s portId ≠ some m

theorem cStr_spelled {s : List Char} {src dst : Endpoint} (h : SpellsName s src dst) :
    cStr s = s := by
  obtain ⟨sa, sp, da, dp, rfl, hsa, hsp, hda, hdp⟩ := h
  refine List.takeWhile_eq_self_iff.mpr fun c hc => decide_eq_true ?_
  rintro rfl
  have hnul : (Char.ofNat 0).isDigit = false := by decide
  have hdot : Char.ofNat 0 ≠ '.' := by decide
  have hdash : Char.ofNat 0 ≠ '-' := by decide
  simp [hsa.not_mem _ hnul hdot, hsp.not_mem _ hnul, hda.not_mem _ hnul hdot, hdp.not_mem _ hnul,
    hdash] at hc

/-- The parser is right on the names of the grammar and on no other: it never refuses one. -/
theorem parsesExactly_iff (s : List Char) (portId : Int) :
    ParsesExactly s portId ↔ ∃ src dst, SpellsName s src dst := by
  have hspelled (src dst : Endpoint) (h : SpellsName s src dst) :
      requestMsg s portId = some (nameMsg src dst portId) := by
    rw [requestMsg, cStr_spelled h, evThreadFn_spelled h]
  constructor
  · intro h
    by_contra hno
    have hnone : ∀ src dst, ¬SpellsName s src dst := fun src dst hs => hno ⟨src, dst, hs⟩
    exact h.defined (Option.eq_none_iff_forall_ne_some.mpr (h.silent hnone))
  · rintro ⟨src, dst, hs⟩
    refine ⟨?_, hspelled, fun hno => absurd hs (hno src dst)⟩
    rw [hspelled src dst hs]
    exact Option.some_ne_none _

/- The empty name has no token to index, and a port that is too large becomes 0. -/
theorem emptyName_not_parsesExactly :
    requestMsg [] 7 = none ∧ ¬ParsesExactly [] 7 ∧
      requestMsg "10.0.0.1-99999-10.0.0.2-80".toList 7 =
        some ⟨16777226, 0, 33554442, 80, 0, 7, true⟩ := by
  refine ⟨by decide +kernel, ?_, by decide +kernel⟩
  intro h
  exact h.defined (by decide +kernel)

end PepDna.Rina
