import Ephemera.Capacity
import Mathlib.Algebra.Group.Nat.Defs
import Mathlib.Data.Nat.Log

/-!
# Powers of two

Every number of chains is a power of two: a new table starts with one, and growing doubles
it. `isPowerOfTwo` is the test that the library runs; here it is shown to decide what its
name says, to hold of every rounded request, and to survive doubling. Rounding stays between
`leastCapacity` and `maximalCapacity`, and under a power of two the chain of a hash is its
remainder. What a request above 2^59 is rounded to cannot be allocated.
-/

namespace Ephemera

/-- A power of two is its own least power of two. -/
theorem leastPowerOfTwo_two_pow (k : Nat) : leastPowerOfTwo (2 ^ k) = 2 ^ k := by
  cases k with
  | zero => rfl
  | succ k =>
    have hlow : 2 ^ k ≤ 2 ^ (k + 1) - 1 := by
      have := Nat.one_le_two_pow (n := k)
      omega
    have hhigh : 2 ^ (k + 1) - 1 < 2 ^ (k + 1) := by
      have := Nat.one_le_two_pow (n := k + 1)
      omega
    have hlog : (2 ^ (k + 1) - 1).log2 = k :=
      (Nat.log2_eq_iff (by omega)).mpr ⟨hlow, hhigh⟩
    have hnot : ¬ 2 ^ (k + 1) ≤ 1 := by
      have := Nat.one_le_two_pow (n := k)
      omega
    rw [leastPowerOfTwo, if_neg hnot, hlog, Nat.one_shiftLeft]

/-- What `leastPowerOfTwo` answers is a power of two. -/
theorem exists_leastPowerOfTwo (n : Nat) : ∃ k, leastPowerOfTwo n = 2 ^ k := by
  rw [leastPowerOfTwo]
  split
  · exact ⟨0, rfl⟩
  · exact ⟨_, Nat.one_shiftLeft _⟩

/-- The test says what its name says. -/
theorem isPowerOfTwo_iff {n : Nat} : isPowerOfTwo n = true ↔ ∃ k, n = 2 ^ k := by
  rw [isPowerOfTwo, beq_iff_eq]
  constructor
  · intro h
    obtain ⟨k, hk⟩ := exists_leastPowerOfTwo n
    exact ⟨k, h.symm.trans hk⟩
  · rintro ⟨k, rfl⟩
    exact leastPowerOfTwo_two_pow k

/-- A power of two is positive. -/
theorem pos_of_isPowerOfTwo {n : Nat} (h : isPowerOfTwo n = true) : 0 < n := by
  obtain ⟨k, rfl⟩ := isPowerOfTwo_iff.mp h
  exact Nat.two_pow_pos k

/-- Doubling a power of two any number of times leaves a power of two. -/
theorem isPowerOfTwo_mul_two_pow {n : Nat} (h : isPowerOfTwo n = true) (k : Nat) :
    isPowerOfTwo (n * 2 ^ k) = true := by
  obtain ⟨j, rfl⟩ := isPowerOfTwo_iff.mp h
  exact isPowerOfTwo_iff.mpr ⟨j + k, (Nat.pow_add 2 j k).symm⟩

/-- Twice a power of two is a power of two. -/
theorem isPowerOfTwo_double {n : Nat} (h : isPowerOfTwo n = true) :
    isPowerOfTwo (2 * n) = true := by
  have hmul := isPowerOfTwo_mul_two_pow h 1
  rwa [Nat.pow_one, Nat.mul_comm] at hmul

/-- Every request is rounded to a power of two. -/
theorem isPowerOfTwo_roundedCapacity (request : Nat) :
    isPowerOfTwo (roundedCapacity request) = true := by
  obtain ⟨k, hk⟩ := exists_leastPowerOfTwo (min (max request leastCapacity) maximalCapacity)
  exact isPowerOfTwo_iff.mpr ⟨k, hk⟩

/-! ## Between which bounds -/

/-- No number is above its least power of two. -/
theorem le_leastPowerOfTwo (n : Nat) : n ≤ leastPowerOfTwo n := by
  rw [leastPowerOfTwo]
  split
  · assumption
  · have hlog : n - 1 < 2 ^ ((n - 1).log2 + 1) := Nat.lt_log2_self
    rw [Nat.one_shiftLeft]
    omega

/-- There is no lesser power of two that a number is not above. -/
theorem leastPowerOfTwo_le {n k : Nat} (h : n ≤ 2 ^ k) : leastPowerOfTwo n ≤ 2 ^ k := by
  rw [leastPowerOfTwo]
  split
  · exact Nat.one_le_two_pow
  · have hlog : (n - 1).log2 < k := (Nat.log2_lt (by omega)).mpr (by omega)
    rw [Nat.one_shiftLeft]
    exact Nat.pow_le_pow_right Nat.two_pos hlog

theorem leastCapacity_le_roundedCapacity (request : Nat) :
    leastCapacity ≤ roundedCapacity request := by
  have hle := le_leastPowerOfTwo (min (max request leastCapacity) maximalCapacity)
  have hbound : leastCapacity ≤ min (max request leastCapacity) maximalCapacity :=
    Nat.le_min.mpr ⟨Nat.le_max_right .., by decide⟩
  exact hbound.trans hle

theorem roundedCapacity_le_maximalCapacity (request : Nat) :
    roundedCapacity request ≤ maximalCapacity := by
  have hmaximal : maximalCapacity = 2 ^ 62 := Nat.one_shiftLeft 62
  rw [hmaximal]
  apply leastPowerOfTwo_le
  rw [← hmaximal]
  exact Nat.min_le_right ..

/-! ## What can be allocated -/

theorem isOversized_iff {count : Nat} : isOversized count = true ↔ 2 ^ 60 ≤ count := by
  rw [isOversized, decide_eq_true_eq, Nat.one_shiftLeft]
  omega

/-- A power of two passes the checks as it is, unless it is too large. -/
theorem checkedCount_eq {count : Nat} (h : isPowerOfTwo count = true) :
    checkedCount count = if isOversized count then .error .overflow else .ok count := by
  simp [checkedCount, h]

/-- What passes the checks is left as it is. -/
theorem checkedCount_eq_ok_iff {count count' : Nat} : checkedCount count = .ok count' ↔
    isPowerOfTwo count = true ∧ isOversized count = false ∧ count = count' := by
  rw [checkedCount]
  cases isPowerOfTwo count <;> cases isOversized count <;> simp

/-- Rounding a request above 2^59 makes 2^60 of it or more. -/
theorem isOversized_roundedCapacity (request : Nat) :
    isOversized (roundedCapacity request) = decide (2 ^ 59 < request) := by
  have hleast : leastCapacity = 2 ^ 4 := rfl
  have hmaximal : maximalCapacity = 2 ^ 62 := Nat.one_shiftLeft 62
  rw [Bool.eq_iff_iff, isOversized_iff, decide_eq_true_eq, roundedCapacity]
  constructor
  · intro h
    by_contra hfits
    have hrounded : leastPowerOfTwo (min (max request leastCapacity) maximalCapacity) ≤ 2 ^ 59 :=
      leastPowerOfTwo_le (by omega)
    omega
  · intro h
    obtain ⟨k, hk⟩ := exists_leastPowerOfTwo (min (max request leastCapacity) maximalCapacity)
    have hle := le_leastPowerOfTwo (min (max request leastCapacity) maximalCapacity)
    -- a power of two above 2^59 has a greater exponent
    have hlt : 2 ^ 59 < 2 ^ k := by omega
    rw [hk]
    exact Nat.pow_le_pow_right Nat.two_pos ((Nat.pow_lt_pow_iff_right Nat.one_lt_two).mp hlt)

/-! ## The chain of a hash -/

/-- Under a power of two the mask leaves the remainder. -/
theorem chainIndex_eq_mod {count : Nat} (h : isPowerOfTwo count = true) (hash : UInt64) :
    chainIndex count hash = hash.toNat % count := by
  obtain ⟨k, rfl⟩ := isPowerOfTwo_iff.mp h
  exact Nat.and_two_pow_sub_one_eq_mod hash.toNat k

/-- Among twice as many chains a hash belongs to one that comes from its old chain. -/
theorem chainIndex_double_mod {count : Nat} (h : isPowerOfTwo count = true) (hash : UInt64) :
    chainIndex (2 * count) hash % count = chainIndex count hash := by
  rw [chainIndex_eq_mod h, chainIndex_eq_mod (isPowerOfTwo_double h)]
  exact Nat.mod_mod_of_dvd _ ⟨2, Nat.mul_comm 2 count⟩

end Ephemera
