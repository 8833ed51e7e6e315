import Ephemera.Memo
import Ephemera.Pool
import Ephemera.Proofs.Table.Placement

/-!
# How requests for chains are rounded

A request for a number of chains is a 64-bit word, and so is everything on the way from it to the
capacity of a new table. `wordCapacity?` goes that way on words and gives up where a bit would be
shifted out. It never does (`wordCapacity?_eq`), because the request is brought under
`maximalCapacity` before it is rounded: above 2^63 there is no power of two left
(`wordPowerOfTwo?_eq`).

`ReportsRounded` collects what a caller can rely on about the capacities that are reported for
requests. It is the same for tables, for memos and for pools (`ofCapacity_reportsRounded`).
-/

namespace Ephemera

/-! ## On words -/

/-- The least power of two that is not below a word, if there is one among words. -/
def wordPowerOfTwo? (n : UInt64) : Option UInt64 :=
  if n ≤ 1 then some 1
  else
    let places := (n - 1).log2 + 1
    if places < 64 then some (1 <<< places) else none

/-- The number of chains for a request, all on words. -/
def wordCapacity? (request : UInt64) : Option UInt64 :=
  wordPowerOfTwo? (min (max request 16) ((1 : UInt64) <<< 62))

/-- The number of places is no more than a word has. -/
theorem toNat_places {n : UInt64} (hn : 1 < n.toNat) :
    ((n - 1).log2 + 1).toNat = (n.toNat - 1).log2 + 1 := by
  have hlog : (n - 1).log2.toNat = (n - 1).toNat.log2 := rfl
  have hone : (1 : UInt64) ≤ n := UInt64.le_iff_toNat_le.mpr (Nat.le_of_lt hn)
  have hbound : (n.toNat - 1).log2 < 64 := by
    have hlt := n.toNat_lt
    exact (Nat.log2_lt (by omega)).mpr (by omega)
  rw [UInt64.toNat_add, hlog, UInt64.toNat_sub_of_le _ _ hone, UInt64.toNat_one]
  exact Nat.mod_eq_of_lt (by omega)

/-- Shifted by less than its width, a bit stays in the word. -/
theorem toNat_one_shiftLeft {places : UInt64} (h : places.toNat < 64) :
    ((1 : UInt64) <<< places).toNat = 1 <<< places.toNat := by
  have hpow : 2 ^ places.toNat < 2 ^ 64 := Nat.pow_lt_pow_right Nat.one_lt_two h
  rw [UInt64.toNat_shiftLeft, UInt64.toNat_one, Nat.mod_eq_of_lt h, Nat.one_shiftLeft,
    Nat.mod_eq_of_lt hpow]

/-- Words up to 2^63 are rounded as numbers are; above it there is no power of two left. -/
theorem wordPowerOfTwo?_eq (n : UInt64) : (wordPowerOfTwo? n).map UInt64.toNat
    = if n.toNat ≤ 2 ^ 63 then some (leastPowerOfTwo n.toNat) else none := by
  rw [wordPowerOfTwo?, leastPowerOfTwo]
  rcases Nat.lt_or_ge 1 n.toNat with hlt | hle
  · have hplaces := toNat_places hlt
    have hfits : (n - 1).log2 + 1 < 64 ↔ n.toNat ≤ 2 ^ 63 := by
      have hlog : (n.toNat - 1).log2 < 63 ↔ n.toNat - 1 < 2 ^ 63 := Nat.log2_lt (by omega)
      have hwidth : (64 : UInt64).toNat = 64 := rfl
      rw [UInt64.lt_iff_toNat_lt, hplaces, hwidth]
      omega
    have hmore : ¬ n ≤ 1 := fun h => Nat.not_le_of_lt hlt (UInt64.le_iff_toNat_le.mp h)
    rw [if_neg hmore, if_neg (Nat.not_le_of_lt hlt)]
    by_cases h : n.toNat ≤ 2 ^ 63
    · have hword := UInt64.lt_iff_toNat_lt.mp (hfits.mpr h)
      rw [if_pos (hfits.mpr h), if_pos h, Option.map_some, toNat_one_shiftLeft hword, hplaces]
    · rw [if_neg (fun hword => h (hfits.mp hword)), if_neg h, Option.map_none]
  · rw [if_pos (UInt64.le_iff_toNat_le.mpr hle), if_pos (by omega), if_pos hle, Option.map_some,
      UInt64.toNat_one]

/-- What is rounded is at most `maximalCapacity`, so nothing is lost on words. -/
theorem wordCapacity?_eq (request : UInt64) :
    (wordCapacity? request).map UInt64.toNat = some (roundedCapacity request.toNat) := by
  have hclamped : (min (max request 16) ((1 : UInt64) <<< 62)).toNat
      = min (max request.toNat leastCapacity) maximalCapacity := by
    rw [UInt64.toNat_min, UInt64.toNat_max]
    rfl
  have hle : min (max request.toNat leastCapacity) maximalCapacity ≤ 2 ^ 63 :=
    (Nat.min_le_right ..).trans (by decide)
  rw [wordCapacity?, wordPowerOfTwo?_eq, hclamped, if_pos hle, roundedCapacity]

/-- Rounded first, a request could be lost. -/
example : wordPowerOfTwo? 0x8000000000000001 = none := by decide

/-! ## On numbers -/

variable {n n' : Nat}

/-- Rounding makes less than twice as much. -/
theorem leastPowerOfTwo_lt (hpos : 0 < n) : leastPowerOfTwo n < 2 * n := by
  rw [leastPowerOfTwo]
  split
  · omega
  · have hlow : 2 ^ (n - 1).log2 ≤ n - 1 := Nat.log2_self_le (by omega)
    rw [Nat.one_shiftLeft, Nat.pow_succ]
    omega

theorem leastPowerOfTwo_mono (h : n ≤ n') : leastPowerOfTwo n ≤ leastPowerOfTwo n' := by
  obtain ⟨k, hk⟩ := exists_leastPowerOfTwo n'
  have hle := h.trans (le_leastPowerOfTwo n')
  rw [hk] at hle ⊢
  exact leastPowerOfTwo_le hle

theorem maximalCapacity_eq : maximalCapacity = 2 ^ 62 :=
  Nat.one_shiftLeft 62

/-- The upper bound does not matter for a request that is not above it. -/
theorem roundedCapacity_of_le (h : n ≤ maximalCapacity) :
    roundedCapacity n = leastPowerOfTwo (max n leastCapacity) := by
  have hle : max n leastCapacity ≤ maximalCapacity := Nat.max_le.mpr ⟨h, by decide⟩
  rw [roundedCapacity, Nat.min_eq_left hle]

/-- A greater request comes to the upper bound, which is a power of two itself. -/
theorem roundedCapacity_of_ge (h : maximalCapacity ≤ n) :
    roundedCapacity n = maximalCapacity := by
  have hge : maximalCapacity ≤ max n leastCapacity := h.trans (Nat.le_max_left ..)
  rw [roundedCapacity, Nat.min_eq_right hge, maximalCapacity_eq, leastPowerOfTwo_two_pow]

theorem roundedCapacity_mono (h : n ≤ n') : roundedCapacity n ≤ roundedCapacity n' := by
  have hmax : max n leastCapacity ≤ max n' leastCapacity :=
    Nat.max_le.mpr ⟨h.trans (Nat.le_max_left ..), Nat.le_max_right ..⟩
  apply leastPowerOfTwo_mono
  exact Nat.le_min.mpr ⟨(Nat.min_le_left ..).trans hmax, Nat.min_le_right ..⟩

/-- What was rounded stays as it is. -/
theorem roundedCapacity_roundedCapacity (n : Nat) :
    roundedCapacity (roundedCapacity n) = roundedCapacity n := by
  rw [roundedCapacity_of_le (roundedCapacity_le_maximalCapacity n),
    Nat.max_eq_left (leastCapacity_le_roundedCapacity n)]
  exact beq_iff_eq.mp (isPowerOfTwo_roundedCapacity n)

/-! ## What is reported -/

/-- The capacities that are reported for requests. -/
structure ReportsRounded (capacity : UInt64 → Nat) : Prop where
  /-- they are powers of two -/
  power : ∀ c, ∃ k, capacity c = 2 ^ k
  /-- they are between two bounds -/
  between : ∀ c, 16 ≤ capacity c ∧ capacity c ≤ 2 ^ 62
  /-- they are what comes out on words, where no bit is lost -/
  onWords : ∀ c, (wordCapacity? c).map UInt64.toNat = some (capacity c)
  /-- where a request is not above the upper bound, they are the least powers of two that are below
  neither the request nor the lower bound -/
  least : ∀ c, c.toNat ≤ 2 ^ 62 → max c.toNat 16 ≤ capacity c ∧
    capacity c < 2 * max c.toNat 16 ∧ ∀ k, max c.toNat 16 ≤ 2 ^ k → capacity c ≤ 2 ^ k
  /-- where it is above, they are the upper bound -/
  greatest : ∀ c, 2 ^ 62 < c.toNat → capacity c = 2 ^ 62
  /-- who asks for more gets no less -/
  mono : ∀ c c', c ≤ c' → capacity c ≤ capacity c'
  /-- who asks for what was reported gets it -/
  again : ∀ c, capacity (.ofNat (capacity c)) = capacity c
  /-- so many chains pass the check for a power of two; as many are made, unless the request was
  above 2^59 and they are too many to be allocated -/
  chains : ∀ (c : UInt64) (α : Type), isPowerOfTwo (capacity c) = true ∧
    Table.emptyChains (capacity c) = if 2 ^ 59 < c.toNat then .error .overflow
      else .ok (Array.replicate (capacity c) ([] : Chain α))

/-- A new table, a new memo and a new pool report the request that they were made for, rounded. -/
theorem ofCapacity_reportsRounded {α ν τ : Type} :
    ReportsRounded (fun c => (Table.ofCapacity c.toNat : Table α).capacity) ∧
      ReportsRounded (fun c => (Memo.ofCapacity c.toNat : Memo ν).capacity) ∧
      ReportsRounded (fun c => (Pool.ofCapacity c.toNat : Pool τ).capacity) := by
  have hrounded : ReportsRounded fun c => roundedCapacity c.toNat :=
    { power := fun c => exists_leastPowerOfTwo _
      between := fun c => ⟨leastCapacity_le_roundedCapacity c.toNat,
        maximalCapacity_eq ▸ roundedCapacity_le_maximalCapacity c.toNat⟩
      onWords := wordCapacity?_eq
      least := ?_
      greatest := ?_
      mono := fun c c' h => roundedCapacity_mono (UInt64.le_iff_toNat_le.mp h)
      again := ?_
      chains := ?_ }
  · exact ⟨hrounded, hrounded, hrounded⟩
  · intro c hle
    rw [roundedCapacity_of_le (maximalCapacity_eq ▸ hle)]
    have hpos : 0 < max c.toNat 16 := Nat.lt_of_lt_of_le (by decide) (Nat.le_max_right ..)
    exact ⟨le_leastPowerOfTwo _, leastPowerOfTwo_lt hpos, fun k => leastPowerOfTwo_le⟩
  · intro c hlt
    rw [roundedCapacity_of_ge (maximalCapacity_eq ▸ Nat.le_of_lt hlt), maximalCapacity_eq]
  · intro c
    -- what a request is rounded to is a word again, so it can be asked for
    have hword : roundedCapacity c.toNat < 2 ^ 64 :=
      Nat.lt_of_le_of_lt (roundedCapacity_le_maximalCapacity c.toNat) (by decide)
    rw [UInt64.toNat_ofNat', Nat.mod_eq_of_lt hword, roundedCapacity_roundedCapacity]
  · intro c α
    have hpower := isPowerOfTwo_roundedCapacity c.toNat
    refine ⟨hpower, ?_⟩
    have hoversized := isOversized_roundedCapacity c.toNat
    by_cases hlarge : 2 ^ 59 < c.toNat
    · rw [decide_eq_true hlarge] at hoversized
      rw [if_pos hlarge, Table.emptyChains_of_oversized hpower hoversized]
    · rw [decide_eq_false hlarge] at hoversized
      rw [if_neg hlarge, Table.emptyChains_of_fits hpower hoversized]

end Ephemera
