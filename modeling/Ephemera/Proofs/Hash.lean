import Ephemera.Hash
import Mathlib.Data.Int.ModEq
import Mathlib.RingTheory.Coprime.Lemmas
import Mathlib.Tactic.NormNum
import Mathlib.Tactic.Ring

/-!
# What hashes tell

The hash of an address forgets nothing: the factor is odd, so a product with it can be undone, and
what was folded onto the low half can be taken off again. The hash of a sequence is a number whose
digits, to the base 31, are the hashes of the parts, as far as 64 bits go. 31 is odd too, so the
hash changes with any one of its digits (`sequenceHash_one`).

Two digits in each other's place are another matter (`sequenceHash_swap`). The difference they make
is a multiple of a power of 31 less one, which is even. An odd power of 31 less one is not a
multiple of four, so over an odd distance exactly one bit of the two digits, the highest, does not
count (`mul_pow_add_eq_iff`).
-/

namespace Ephemera

variable {p q x y : UInt64} {m : Nat}

/-! ## Addresses -/

/-- The high half, folded onto the low one twice, is gone again. -/
theorem fold_fold (word : UInt64) :
    (word ^^^ (word >>> 32)) ^^^ ((word ^^^ (word >>> 32)) >>> 32) = word := by
  have hgone : word >>> 32 >>> 32 = 0 := by
    apply UInt64.toNat_inj.mp
    have hlt := word.toNat_lt
    simp only [UInt64.toNat_shiftRight, UInt64.reduceToNat, Nat.shiftRight_eq_div_pow,
      Nat.reduceMod]
    omega
  rw [UInt64.shiftRight_xor, hgone, UInt64.xor_zero, UInt64.xor_assoc, UInt64.xor_self,
    UInt64.xor_zero]

/-- The factor that undoes `spreadFactor`. -/
def gatherFactor : UInt64 := 0xF1DE83E19937733D

/-- The address with a hash. -/
def addressOfHash (hash : UInt64) : UInt64 :=
  (hash ^^^ (hash >>> 32)) * gatherFactor

theorem addressOfHash_addressHash : Function.LeftInverse addressOfHash addressHash := by
  intro address
  have hfactors : spreadFactor * gatherFactor = 1 := by decide
  rw [addressHash, addressOfHash, fold_fold, UInt64.mul_assoc, hfactors, UInt64.mul_one]

/-- Different addresses have different hashes. -/
theorem addressHash_injective : Function.Injective addressHash :=
  addressOfHash_addressHash.injective

theorem addressHash_addressOfHash : Function.RightInverse addressOfHash addressHash := by
  intro hash
  have hfactors : gatherFactor * spreadFactor = 1 := by decide
  rw [addressHash, addressOfHash, UInt64.mul_assoc, hfactors, UInt64.mul_one, fold_fold]

/-- Every word is the hash of one address. -/
theorem addressHash_bijective : Function.Bijective addressHash :=
  ⟨addressHash_injective, addressHash_addressOfHash.surjective⟩

/-! ## One part of a sequence -/

/-- A factor of 31 can be undone. -/
theorem mul_thirtyOne_inj : x * 31 = y * 31 ↔ x = y := by
  refine ⟨fun h => ?_, congrArg (· * 31)⟩
  have hfactors : (31 : UInt64) * 0xEF7BDEF7BDEF7BDF = 1 := by decide
  have hundone := congrArg (· * 0xEF7BDEF7BDEF7BDF) h
  simpa only [UInt64.mul_assoc, hfactors, UInt64.mul_one] using hundone

/-- The seed counts, whatever follows. -/
theorem sequenceHash_inj (parts : List UInt64) :
    sequenceHash x parts = sequenceHash y parts ↔ x = y := by
  induction parts generalizing x y with
  | nil => rfl
  | cons part parts ih =>
    rw [sequenceHash_cons, sequenceHash_cons, ih, mixHash, mixHash, UInt64.add_left_inj,
      mul_thirtyOne_inj]

/-- Every part counts. -/
theorem sequenceHash_one (seed : UInt64) (before after : List UInt64) :
    sequenceHash seed (before ++ p :: after) = sequenceHash seed (before ++ q :: after)
      ↔ p = q := by
  rw [sequenceHash_append, sequenceHash_append, sequenceHash_cons, sequenceHash_cons,
    sequenceHash_inj, mixHash, mixHash, UInt64.add_right_inj]

/-! ## Two parts in each other's place -/

/-- What is added to a seed is carried to the left by the parts that follow. -/
theorem sequenceHash_add (x y : UInt64) (parts : List UInt64) :
    sequenceHash (x + y) parts = sequenceHash x parts + y * 31 ^ parts.length := by
  induction parts generalizing x y with
  | nil => rw [sequenceHash_nil, sequenceHash_nil, List.length_nil, UInt64.pow_zero, UInt64.mul_one]
  | cons part parts ih =>
    have hmix : mixHash (x + y) part = mixHash x part + y * 31 := by
      rw [mixHash, mixHash, UInt64.add_mul, UInt64.add_assoc, UInt64.add_assoc,
        UInt64.add_comm (y * 31)]
    rw [sequenceHash_cons, sequenceHash_cons, hmix, ih, UInt64.mul_assoc, List.length_cons,
      UInt64.pow_succ, UInt64.mul_comm 31]

/-- An odd power of 31 less one is even, and not a multiple of four. -/
theorem exists_of_odd_pow (hodd : m % 2 = 1) : ∃ v, 31 ^ m = 2 * (2 * v + 1) + 1 := by
  obtain ⟨n, rfl⟩ : ∃ n, m = 2 * n + 1 := ⟨m / 2, by omega⟩
  have hsquare : 31 ^ 2 ≡ 1 [MOD 4] := rfl
  have hmod := (hsquare.pow n).mul_right 31
  rw [← pow_mul, ← pow_succ, one_pow, one_mul] at hmod
  have hrest : 31 ^ (2 * n + 1) % 4 = 3 := hmod
  exact ⟨31 ^ (2 * n + 1) / 4, by omega⟩

/-- Carried to the left is multiplied, as far as 64 bits go. -/
theorem toNat_mul_pow (x : UInt64) (m : Nat) :
    (x * 31 ^ m).toNat = x.toNat * 31 ^ m % 2 ^ 64 := by
  induction m with
  | zero => rw [UInt64.pow_zero, UInt64.mul_one, pow_zero, mul_one, Nat.mod_eq_of_lt x.toNat_lt]
  | succ m ih =>
    rw [UInt64.pow_succ, ← UInt64.mul_assoc, UInt64.toNat_mul, ih, Nat.mod_mul_mod, pow_succ 31 m,
      ← mul_assoc]
    rfl

/-- Over an odd distance all bits but the highest tell two parts apart. -/
theorem mul_pow_add_eq_iff (hodd : m % 2 = 1) :
    p * 31 ^ m + q = q * 31 ^ m + p ↔ p.toNat % 2 ^ 63 = q.toNat % 2 ^ 63 := by
  obtain ⟨v, hv⟩ := exists_of_odd_pow hodd
  have hword : ∀ x y : UInt64,
      (x * 31 ^ m + y).toNat = (x.toNat * 31 ^ m + y.toNat) % 2 ^ 64 := by
    intro x y
    rw [UInt64.toNat_add, toNat_mul_pow, Nat.mod_add_mod]
  -- words have no order, so the two sides are subtracted as integers
  have hdiff : ((q.toNat * 31 ^ m + p.toNat : Nat) : Int) - (p.toNat * 31 ^ m + q.toNat : Nat)
      = 2 * ((2 * v + 1) * (q.toNat - p.toNat)) := by
    rw [hv]
    push_cast
    ring
  have hcoprime : IsCoprime (2 ^ 63 : Int) (2 * v + 1) := IsCoprime.pow_left ⟨-v, 1, by ring⟩
  have hhalf : ((2 ^ 64 : Nat) : Int) = 2 * 2 ^ 63 := by norm_num
  rw [← UInt64.toNat_inj, hword, hword]
  change _ ≡ _ [MOD 2 ^ 64] ↔ _ ≡ _ [MOD 2 ^ 63]
  rw [Nat.modEq_iff_dvd, Nat.modEq_iff_dvd, hdiff, hhalf, mul_dvd_mul_iff_left two_ne_zero,
    Nat.cast_pow, Nat.cast_ofNat]
  exact ⟨hcoprime.dvd_of_dvd_mul_left, fun h => h.mul_left _⟩

/-- Words that agree in all bits but the highest are one word or differ by 2^63. -/
theorem toNat_mod_eq_iff (hne : p ≠ q) : p.toNat % 2 ^ 63 = q.toNat % 2 ^ 63
    ↔ p.toNat = q.toNat + 2 ^ 63 ∨ q.toNat = p.toNat + 2 ^ 63 := by
  have hne' : p.toNat ≠ q.toNat := fun h => hne (UInt64.toNat_inj.mp h)
  have hp := p.toNat_lt
  have hq := q.toNat_lt
  omega

/-- Whether two parts make a difference in each other's place depends on nothing but the distance
between them. -/
theorem sequenceHash_swap (seed : UInt64) (before between after : List UInt64) :
    sequenceHash seed (before ++ p :: (between ++ q :: after))
        = sequenceHash seed (before ++ q :: (between ++ p :: after))
      ↔ p * 31 ^ (between.length + 1) + q = q * 31 ^ (between.length + 1) + p := by
  have hsplit : ∀ p q, sequenceHash seed (before ++ p :: (between ++ q :: after))
      = sequenceHash (sequenceHash (sequenceHash seed before * 31) between * 31
          + (p * 31 ^ (between.length + 1) + q)) after := by
    intro p q
    rw [sequenceHash_append, sequenceHash_cons, sequenceHash_append, sequenceHash_cons, mixHash,
      mixHash, sequenceHash_add _ p, UInt64.add_mul, UInt64.mul_assoc, ← UInt64.pow_succ,
      UInt64.add_assoc]
  rw [hsplit, hsplit, sequenceHash_inj, UInt64.add_right_inj]

end Ephemera
