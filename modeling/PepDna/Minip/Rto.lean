import PepDna.Minip.Handlers
import Mathlib.Order.Bounds.Basic

/-!
# The RTO estimator (minip.c:352-384, connection.h:111-116)

`srtt` is scaled by 8 and `rttvar` by 4, both in `u32` fields, and the error of the estimate is
a signed `long`. `Estimate` is the same recurrence over the integers; on round trips below 2^29 ms
the fields follow it exactly.
-/

namespace PepDna.Minip

/-- The three fields as numbers of any size. -/
structure Estimate where
  srtt : Int
  rttvar : Int
  rto : Int
  deriving Repr, DecidableEq

def Estimate.make (srtt rttvar : Int) : Estimate := ⟨srtt, rttvar, srtt / 8 + rttvar⟩

/-- Sections 2.2 and 2.3 of RFC 6298 with the scaling of the source and no word size. -/
def Estimate.update (e : Estimate) (m : Int) : Estimate :=
  if e.srtt = 0 then .make (8 * m) (2 * m)
  else .make (e.srtt + (m - e.srtt / 8)) (e.rttvar + ((m - e.srtt / 8).natAbs - e.rttvar / 4))

def Con.estimate (c : Con) : Estimate := ⟨c.srtt, c.rttvar, c.rto⟩

/-- Every sum and shift that `minip_update_rto` stores is the one over the integers. -/
def NoWrap (c : Con) (rtt : ℕ) : Prop := (minipUpdateRto c rtt).estimate = c.estimate.update rtt

instance (c : Con) (rtt : ℕ) : Decidable (NoWrap c rtt) :=
  inferInstanceAs (Decidable ((minipUpdateRto c rtt).estimate = c.estimate.update rtt))

/- ### One sample -/

theorem u32OfLong_of_lt (m : Int) (n : ℕ) (h : m = n) (hn : n < 4294967296) : u32OfLong m = n := by
  unfold u32OfLong
  omega

/- The first sample: three round trips. -/
theorem updateRto_first (c : Con) (rtt : ℕ) (h0 : c.srtt = 0) (h2 : rtt < 536870912) :
    minipUpdateRto c rtt = { c with srtt := rtt * 8, rttvar := rtt * 2, rto := rtt + rtt * 2 } := by
  have hs : u32OfLong ((rtt : Int) * 8) = rtt * 8 := u32OfLong_of_lt _ _ (by omega) (by omega)
  have hv : u32OfLong ((rtt : Int) * 2) = rtt * 2 := u32OfLong_of_lt _ _ (by omega) (by omega)
  have hr : u32 (rtt * 8 / 8 + rtt * 2) = rtt + rtt * 2 := by
    rw [Nat.mul_div_cancel rtt (by decide), u32_of_lt _ (by omega)]
  simp only [minipUpdateRto, h0, ne_eq, not_true_eq_false, if_false, hs, hv, hr]

/-- The error of the estimate, without its sign. -/
def rttError (c : Con) (rtt : ℕ) : ℕ := (rtt - c.srtt / 8) + (c.srtt / 8 - rtt)

theorem rttError_le (c : Con) (rtt hi : ℕ) (hs : c.srtt ≤ 8 * hi + 7) (hr : rtt ≤ hi) :
    rttError c rtt ≤ hi := by
  unfold rttError
  omega

theorem rttError_eq_ite (c : Con) (rtt : ℕ) :
    (if (rtt : Int) - (c.srtt / 8 : ℕ) < 0 then -((rtt : Int) - (c.srtt / 8 : ℕ))
      else (rtt : Int) - (c.srtt / 8 : ℕ)) = rttError c rtt := by
  unfold rttError
  split <;> omega

/- A later sample, while the estimate is one of round trips of at most `hi`. -/
theorem updateRto_next (c : Con) (rtt hi : ℕ) (hlo : 8 ≤ c.srtt) (hhi : c.srtt ≤ 8 * hi + 7)
    (hvar : c.rttvar ≤ 4 * hi + 3) (hr : rtt ≤ hi) (hM : hi < 536870912) :
    minipUpdateRto c rtt = { c with
      srtt := c.srtt - c.srtt / 8 + rtt
      rttvar := c.rttvar - c.rttvar / 4 + rttError c rtt
      rto := (c.srtt - c.srtt / 8 + rtt) / 8 + (c.rttvar - c.rttvar / 4 + rttError c rtt) } := by
  have hne : c.srtt ≠ 0 := by omega
  have herr := rttError_le c rtt hi hhi hr
  have hs : u32OfLong ((c.srtt : Int) + ((rtt : Int) - (c.srtt / 8 : ℕ))) =
      c.srtt - c.srtt / 8 + rtt := u32OfLong_of_lt _ _ (by omega) (by omega)
  have hv : u32OfLong ((c.rttvar : Int) + ((rttError c rtt : Int) - (c.rttvar / 4 : ℕ))) =
      c.rttvar - c.rttvar / 4 + rttError c rtt := u32OfLong_of_lt _ _ (by omega) (by omega)
  simp only [minipUpdateRto, hne, ne_eq, not_false_eq_true, if_true, rttError_eq_ite, hs, hv]
  rw [u32_of_lt _ (by omega)]

theorem noWrap_first (c : Con) (rtt : ℕ) (h0 : c.srtt = 0) (h2 : rtt < 536870912) :
    NoWrap c rtt := by
  have hz : c.estimate.srtt = 0 := by
    rw [Con.estimate, h0]
    rfl
  rw [NoWrap, updateRto_first c rtt h0 h2, Estimate.update, if_pos hz]
  simp only [Con.estimate, Estimate.make, Estimate.mk.injEq]
  omega

theorem natAbs_error (c : Con) (rtt : ℕ) :
    ((rtt : Int) - (c.srtt : Int) / 8).natAbs = rttError c rtt := by
  unfold rttError
  omega

theorem noWrap_next (c : Con) (rtt hi : ℕ) (hlo : 8 ≤ c.srtt) (hhi : c.srtt ≤ 8 * hi + 7)
    (hvar : c.rttvar ≤ 4 * hi + 3) (hr : rtt ≤ hi) (hM : hi < 536870912) : NoWrap c rtt := by
  have hz : ¬c.estimate.srtt = 0 := by
    simp only [Con.estimate]
    omega
  rw [NoWrap, updateRto_next c rtt hi hlo hhi hvar hr hM, Estimate.update, if_neg hz]
  simp only [Con.estimate, Estimate.make, natAbs_error, Estimate.mk.injEq]
  omega

/- ### Any number of samples -/

/-- `minip_update_rto` on one sample after the other. -/
def updateRtoAll (c : Con) (samples : List ℕ) : Con := samples.foldl minipUpdateRto c

/-- The scaled estimates lie where round trips between `lo` and `hi` put them. -/
structure Tracks (c : Con) (lo hi : ℕ) : Prop where
  low : 8 * lo ≤ c.srtt
  high : c.srtt ≤ 8 * hi + 7
  var : c.rttvar ≤ 4 * hi + 3
  rto : c.rto = c.srtt / 8 + c.rttvar

theorem tracks_first (c : Con) (rtt : ℕ) (h0 : c.srtt = 0) (h2 : rtt < 536870912) :
    Tracks (minipUpdateRto c rtt) rtt rtt := by
  rw [updateRto_first c rtt h0 h2]
  constructor <;> dsimp only <;> omega

/-- A sample can move the bounds apart but not take the estimate out of them. -/
theorem tracks_next (c : Con) (rtt lo hi : ℕ) (hc : Tracks c lo hi) (hlo : 1 ≤ lo)
    (hM : max hi rtt < 536870912) :
    NoWrap c rtt ∧ Tracks (minipUpdateRto c rtt) (min lo rtt) (max hi rtt) := by
  obtain ⟨h1, h2, h3, -⟩ := hc
  have hlow : 8 ≤ c.srtt := by omega
  have hhigh : c.srtt ≤ 8 * max hi rtt + 7 := by omega
  have hvar : c.rttvar ≤ 4 * max hi rtt + 3 := by omega
  have herr := rttError_le c rtt (max hi rtt) hhigh (le_max_right _ _)
  refine ⟨noWrap_next c rtt _ hlow hhigh hvar (le_max_right _ _) hM, ?_⟩
  rw [updateRto_next c rtt _ hlow hhigh hvar (le_max_right _ _) hM]
  constructor <;> dsimp only <;> omega

theorem isLeast_append (l : List ℕ) (lo m : ℕ) (h : IsLeast {x | x ∈ l} lo) :
    IsLeast {x | x ∈ l ++ [m]} (min lo m) := by
  have he : {x | x ∈ l ++ [m]} = {x | x ∈ l} ∪ {m} := by
    ext x
    simp [or_comm]
  rw [he]
  exact h.union isLeast_singleton

theorem isGreatest_append (l : List ℕ) (hi m : ℕ) (h : IsGreatest {x | x ∈ l} hi) :
    IsGreatest {x | x ∈ l ++ [m]} (max hi m) := by
  have he : {x | x ∈ l ++ [m]} = {x | x ∈ l} ∪ {m} := by
    ext x
    simp [or_comm]
  rw [he]
  exact h.union isGreatest_singleton

theorem updateRtoAll_append (c : Con) (samples : List ℕ) (rtt : ℕ) :
    updateRtoAll c (samples ++ [rtt]) = minipUpdateRto (updateRtoAll c samples) rtt := by
  simp only [updateRtoAll, List.foldl_append, List.foldl_cons, List.foldl_nil]

-- The induction is on the samples from the last one; the bounds are those of the samples so far.
theorem tracks_samples (c : Con) (M : ℕ) (hM : M < 536870912) (h0 : c.srtt = 0)
    (samples : List ℕ) (hne : samples ≠ []) (hs : ∀ m ∈ samples, 1 ≤ m ∧ m ≤ M) :
    ∃ lo hi, IsLeast {x | x ∈ samples} lo ∧ IsGreatest {x | x ∈ samples} hi ∧
      Tracks (updateRtoAll c samples) lo hi := by
  induction samples using List.reverseRecOn with
  | nil => exact absurd rfl hne
  | append_singleton samples rtt ih =>
    have hrtt := hs rtt (by simp)
    rw [updateRtoAll_append]
    by_cases hnil : samples = []
    · subst hnil
      have hset : {x | x ∈ [] ++ [rtt]} = ({rtt} : Set ℕ) := by
        ext x
        simp
      rw [hset]
      exact ⟨rtt, rtt, isLeast_singleton, isGreatest_singleton,
        tracks_first c rtt h0 (by omega)⟩
    · obtain ⟨lo, hi, hl, hg, ht⟩ := ih hnil fun m hm => hs m (List.mem_append_left _ hm)
      have hlo := hs lo (List.mem_append_left _ hl.1)
      have hhi := hs hi (List.mem_append_left _ hg.1)
      exact ⟨min lo rtt, max hi rtt, isLeast_append samples lo rtt hl,
        isGreatest_append samples hi rtt hg,
        (tracks_next _ rtt lo hi ht hlo.1 (by omega)).2⟩

theorem noWrap_samples (c : Con) (M : ℕ) (hM : M < 536870912) (h0 : c.srtt = 0)
    (samples : List ℕ) (hs : ∀ m ∈ samples, 1 ≤ m ∧ m ≤ M) (rtt : ℕ) (hr : 1 ≤ rtt ∧ rtt ≤ M) :
    NoWrap (updateRtoAll c samples) rtt := by
  by_cases hnil : samples = []
  · subst hnil
    exact noWrap_first c rtt h0 (by omega)
  · obtain ⟨lo, hi, hl, hg, ht⟩ := tracks_samples c M hM h0 samples hnil hs
    have hlo := hs lo hl.1
    have hhi := hs hi hg.1
    exact (tracks_next _ rtt lo hi ht hlo.1 (by omega)).1

/-- Fed with round trips between 1 and `M` ms, at each of them: nothing wraps, only the first one
finds `srtt = 0`, the estimate stays between the smallest and the largest so far, and the timeout
between the smallest and `5 * M + 3`. What `rttvar` was before the first one does not matter. -/
theorem minipUpdateRto_stable (M : ℕ) (hM : M < 2 ^ 29) (c : Con) (h0 : c.srtt = 0)
    (samples : List ℕ) (hs : ∀ m ∈ samples, 1 ≤ m ∧ m ≤ M)
    (before : List ℕ) (rtt : ℕ) (later : List ℕ) (hsplit : samples = before ++ rtt :: later) :
    let c' := updateRtoAll c (before ++ [rtt])
    NoWrap (updateRtoAll c before) rtt ∧
      ((updateRtoAll c before).srtt = 0 ↔ before = []) ∧ c'.srtt ≠ 0 ∧
      ∃ lo hi, IsLeast {x | x ∈ before ++ [rtt]} lo ∧ IsGreatest {x | x ∈ before ++ [rtt]} hi ∧
        lo ≤ c'.srtt / 8 ∧ c'.srtt / 8 ≤ hi ∧
        c'.rto = c'.srtt / 8 + c'.rttvar ∧ lo ≤ c'.rto ∧ c'.rto ≤ 5 * M + 3 := by
  intro c'
  have hbefore : ∀ m ∈ before, 1 ≤ m ∧ m ≤ M := fun m hm => hs m (by simp [hsplit, hm])
  have hrtt : 1 ≤ rtt ∧ rtt ≤ M := hs rtt (by simp [hsplit])
  have hseen : ∀ m ∈ before ++ [rtt], 1 ≤ m ∧ m ≤ M := by
    intro m hm
    rcases List.mem_append.mp hm with hm | hm
    · exact hbefore m hm
    · rw [List.mem_singleton.mp hm]
      exact hrtt
  obtain ⟨lo, hi, hl, hg, ht⟩ := tracks_samples c M hM h0 (before ++ [rtt]) (by simp) hseen
  have hlo := hseen lo hl.1
  have hhi := hseen hi hg.1
  obtain ⟨h1, h2, h3, h4⟩ : Tracks c' lo hi := ht
  refine ⟨noWrap_samples c M hM h0 before hbefore rtt hrtt, ⟨?_, ?_⟩, by omega,
    lo, hi, hl, hg, by omega, by omega, h4, by omega, by omega⟩
  · intro hz
    by_contra hne
    obtain ⟨lo, hi, hl, -, ht⟩ := tracks_samples c M hM h0 before hne hbefore
    have hpos := hbefore lo hl.1
    have hlow := ht.low
    omega
  · rintro rfl
    exact h0

theorem minipUpdateRto_stable_three :
    let c' := updateRtoAll (pepdnaConAlloc .tcp2minip ⟨0, 0, 0, 0⟩ 1) ([100, 40] ++ [300])
    NoWrap (updateRtoAll (pepdnaConAlloc .tcp2minip ⟨0, 0, 0, 0⟩ 1) [100, 40]) 300 ∧
      c'.srtt ≠ 0 ∧ ∃ lo hi, IsLeast {x | x ∈ [100, 40] ++ [300]} lo ∧
        IsGreatest {x | x ∈ [100, 40] ++ [300]} hi ∧ lo ≤ c'.rto ∧ c'.srtt / 8 ≤ hi := by
  have h := minipUpdateRto_stable 300 (by decide) (pepdnaConAlloc .tcp2minip ⟨0, 0, 0, 0⟩ 1) rfl
    [100, 40, 300] (by decide) [100, 40] 300 [] rfl
  obtain ⟨h1, -, h3, lo, hi, hl, hg, -, h5, -, h6, -⟩ := h
  exact ⟨h1, h3, lo, hi, hl, hg, h6, h5⟩

end PepDna.Minip
