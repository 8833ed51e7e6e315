import Ephemera.Proofs.Capacity
import Ephemera.Proofs.Chain
import Ephemera.Proofs.Table.Placement
import Ephemera.Table.Erase

/-!
# Sound tables

`Table.Sound` is the representation invariant of a table. The number of its chains is what it
started with, doubled any number of times, so it is a power of two. Every link, living or
cleared, is in the chain of its hash, and `size` is exactly the number of links. A new table
is sound, and so is what any request leaves behind, whichever entries are alive at that
moment and whatever tests the request comes with.

A table may have been told to start with more chains than can be allocated. Such a table never
has any, so it never has links, and it refuses all requests that are to find or install
(`Sound.obtain_of_oversized`). Of any other table it does not matter whether it has chains yet.
-/

namespace Ephemera

namespace Table

variable {α : Type} {live accepts removable : α → Bool} {hash : UInt64} {new : α}
  {chains : Array (Chain α)} {t : Table α}

/-- The representation invariant of a table. -/
structure Sound (t : Table α) : Prop where
  /-- a new table starts with a power of two -/
  initial : isPowerOfTwo t.initial = true
  /-- it has chains only if those that it started with could be allocated -/
  allocated : ∀ chains, t.chains = some chains → isOversized t.initial = false
  /-- its chains were doubled some number of times -/
  doubled : ∀ chains, t.chains = some chains → ∃ k, chains.size = t.initial * 2 ^ k
  /-- every link is in the chain of its hash -/
  placed : ∀ chains, t.chains = some chains → Placed chains
  /-- the size is the number of links, cleared ones included -/
  counted : t.size = t.links.length

theorem links_of_chains (h : t.chains = some chains) : t.links = allLinks chains := by
  rw [links, h]

theorem sound_ofCapacity (request : Nat) : (ofCapacity request : Table α).Sound where
  initial := isPowerOfTwo_roundedCapacity request
  allocated _ h := nomatch h
  doubled _ h := nomatch h
  placed _ h := nomatch h
  counted := rfl

/-- The number of chains is a power of two at any time. -/
theorem Sound.isPowerOfTwo_size (hs : t.Sound) (h : t.chains = some chains) :
    isPowerOfTwo chains.size = true := by
  obtain ⟨k, hk⟩ := hs.doubled chains h
  rw [hk]
  exact isPowerOfTwo_mul_two_pow hs.initial k

theorem Sound.isPowerOfTwo_capacity (hs : t.Sound) : isPowerOfTwo t.capacity = true := by
  cases h : t.chains with
  | none => simpa [capacity, h] using hs.initial
  | some chains => simpa [capacity, h] using hs.isPowerOfTwo_size h

theorem Sound.size_pos (hs : t.Sound) (h : t.chains = some chains) : 0 < chains.size :=
  pos_of_isPowerOfTwo (hs.isPowerOfTwo_size h)

/-- Growing makes a power of two of a power of two. -/
theorem Sound.isPowerOfTwo_double (hs : t.Sound) (h : t.chains = some chains) :
    isPowerOfTwo (2 * chains.size) = true :=
  Ephemera.isPowerOfTwo_double (hs.isPowerOfTwo_size h)

/-- No chain is longer than the table is large. -/
theorem Sound.length_chainAt_le (hs : t.Sound) (h : t.chains = some chains) {index : Nat}
    (hindex : index < chains.size) : (chainAt chains index).length ≤ t.size := by
  obtain ⟨before, after, hall, -⟩ := allLinks_split hindex
  rw [hs.counted, links_of_chains h, hall]
  simp only [List.length_append]
  omega

/-- A search through one chain sees what a search through the table sees. -/
theorem Sound.candidates_eq (hs : t.Sound) (live : α → Bool) (hash : UInt64) :
    t.candidates live hash = t.links.candidates live hash := by
  cases h : t.chains with
  | none => simp [candidates, links, h, Chain.candidates]
  | some chains =>
    rw [links_of_chains h, candidates, h]
    exact candidates_chainAt (hs.placed chains h) live hash

/-! ## Requests that install -/

/-- A table that has no chains yet gets empty ones if they can be allocated, and nothing else
changes. -/
theorem Sound.chainsOrNew_eq (hs : t.Sound) (hfits : isOversized t.initial = false) :
    ∃ chains, t.chainsOrNew = .ok chains ∧ ({ t with chains := some chains } : Table α).Sound ∧
      allLinks chains = t.links := by
  cases h : t.chains with
  | none =>
    refine ⟨Array.replicate t.initial [], ?_, ⟨hs.initial, fun _ _ => hfits, ?_, ?_, ?_⟩, ?_⟩
    · rw [chainsOrNew, h]
      exact emptyChains_of_fits hs.initial hfits
    · rintro _ ⟨⟩
      exact ⟨0, by simp⟩
    · rintro _ ⟨⟩
      exact placed_replicate t.initial
    · simpa [links, h] using hs.counted
    · simp [links, h]
  | some chains =>
    refine ⟨chains, by rw [chainsOrNew, h], ?_, by rw [links, h]⟩
    rw [← h]
    exact hs

/-- A table that cannot get the chains it is to start with has none. -/
theorem Sound.chains_of_oversized (hs : t.Sound) (h : isOversized t.initial = true) :
    t.chains = none := by
  cases hchains : t.chains with
  | none => rfl
  | some chains =>
    rw [hs.allocated chains hchains] at h
    cases h

theorem Sound.links_of_oversized (hs : t.Sound) (h : isOversized t.initial = true) :
    t.links = [] := by
  rw [links, hs.chains_of_oversized h]

/-- It refuses all requests to find or install, and that is all. -/
theorem Sound.obtain_of_oversized (hs : t.Sound) (h : isOversized t.initial = true)
    (live : α → Bool) (hash : UInt64) (accepts : α → Bool) (new : α) :
    t.obtain live hash accepts new = { outcome := .error .overflow, table := t, notes := [] } := by
  rw [obtain, chainsOrNew, hs.chains_of_oversized h]
  dsimp only
  rw [emptyChains_of_oversized hs.initial h]

/-- The links of a table whose chains are dealt out anew. -/
theorem redeal_of_sound (hs : t.Sound) (h : t.chains = some chains) (entry : Entry α)
    (links : Chain α) (notes : List (Note α)) :
    t.redeal entry links notes chains =
      { outcome := .ok entry
        table := { t with chains := some (deal (2 * chains.size) links), size := links.length }
        notes := notes ++ [.told (.resized chains.size (2 * chains.size) links.length)] } := by
  rw [redeal, if_pos (hs.isPowerOfTwo_double h)]

theorem Sound.redeal (hs : t.Sound) (h : t.chains = some chains) (entry : Entry α)
    (links : Chain α) (notes : List (Note α)) :
    (t.redeal entry links notes chains).table.Sound := by
  rw [redeal_of_sound hs h]
  obtain ⟨k, hk⟩ := hs.doubled chains h
  refine ⟨hs.initial, fun _ _ => hs.allocated chains h, ?_, ?_, ?_⟩
  · rintro _ ⟨⟩
    exact ⟨k + 1, by rw [size_deal, hk, Nat.pow_succ, Nat.mul_comm 2, Nat.mul_assoc]⟩
  · rintro _ ⟨⟩
    exact placed_deal _ _
  · have hpos : 0 < 2 * chains.size := by
      have := hs.size_pos h
      omega
    exact (allLinks_deal_perm hpos links).length_eq.symm

theorem Sound.grow (hs : t.Sound) (h : t.chains = some chains) :
    (t.grow live hash accepts new chains).table.Sound := by
  unfold Table.grow
  dsimp only
  split
  · exact hs.redeal h ..
  · exact hs.redeal h ..
  · exact hs

/-- A chain of links that belong to its index can take the place of the chain there. -/
theorem Sound.set (hs : t.Sound) (h : t.chains = some chains) {index : Nat}
    (hindex : index < chains.size) {chain : Chain α} {size : Nat}
    (hchain : ∀ link ∈ chain, chainIndex chains.size link.hash = index)
    (hsize : size + (chainAt chains index).length = t.size + chain.length) :
    ({ t with chains := some (chains.setIfInBounds index chain), size } : Table α).Sound where
  initial := hs.initial
  allocated _ _ := hs.allocated chains h
  doubled := by
    rintro _ ⟨⟩
    rw [Array.size_setIfInBounds]
    exact hs.doubled chains h
  placed := by
    rintro _ ⟨⟩
    exact placed_set (hs.placed chains h) hindex hchain
  counted := by
    obtain ⟨before, after, hall, hset, -⟩ := allLinks_split hindex
    have hcount := hs.counted
    rw [links_of_chains h, hall] at hcount
    change size = (allLinks (chains.setIfInBounds index chain)).length
    rw [hset]
    simp only [List.length_append] at hcount ⊢
    omega

theorem Sound.tidy (hs : t.Sound) (h : t.chains = some chains) :
    (t.tidy live hash accepts new chains).table.Sound := by
  unfold Table.tidy
  dsimp only
  split
  · exact hs
  · have hindex := chainIndex_lt (hs.size_pos h) hash
    refine hs.set h hindex ?_ ?_
    · intro link hmem
      rcases List.mem_cons.mp hmem with rfl | hmem
      · rfl
      · have hold := (List.mem_filter.mp (List.mem_reverse.mp hmem)).1
        exact hs.placed chains h _ link hold
    · have hparts := Chain.length_living_add_cleared live
        (chainAt chains (chainIndex chains.size hash))
      have hle := hs.length_chainAt_le h hindex
      simp only [List.length_cons, List.length_reverse]
      omega

/-- A request to find or install leaves a sound table. -/
theorem Sound.obtain (hs : t.Sound) : (t.obtain live hash accepts new).table.Sound := by
  cases hfits : isOversized t.initial with
  | true =>
    rw [hs.obtain_of_oversized hfits]
    exact hs
  | false =>
    obtain ⟨chains, hchains, hs', -⟩ := hs.chainsOrNew_eq hfits
    rw [Table.obtain]
    rw [hchains]
    dsimp only
    split
    · exact hs'.grow rfl
    · exact hs'.tidy rfl

/-! ## Requests that erase -/

theorem Sound.rebuild (hs : t.Sound) (h : t.chains = some chains) {takes : Link α → Bool}
    {index taken : Nat} (hindex : index < chains.size)
    (htaken : taken = ((chainAt chains index).living live).countP takes) :
    (t.rebuild live takes index taken chains).Sound := by
  rw [Table.rebuild]
  refine hs.set h hindex ?_ ?_
  · intro link hmem
    have hkept := (List.mem_filter.mp (List.mem_reverse.mp hmem)).1
    exact hs.placed chains h index link (List.mem_filter.mp hkept).1
  · have hparts := Chain.length_living_add_cleared live (chainAt chains index)
    have hle := hs.length_chainAt_le h hindex
    have hsum : (((chainAt chains index).living live).filter fun link => !takes link).length
        + taken = ((chainAt chains index).living live).length := by
      rw [htaken, ← List.countP_eq_length_filter, Nat.add_comm]
      simpa using (List.length_eq_countP_add_countP takes).symm
    rw [List.length_reverse]
    omega

/-- As many links are taken out as candidates qualify. -/
theorem countP_takes (live accepts removable : α → Bool) (hash : UInt64) (chain : Chain α) :
    (chain.living live).countP
        (fun link => link.hash == hash && (accepts link.referent && removable link.referent))
      = ((chain.candidates live hash).filter fun e => accepts e && removable e).length := by
  rw [Chain.filter_candidates, List.length_map, List.countP_eq_length_filter]

/-- A request to erase leaves a sound table. -/
theorem Sound.erase (hs : t.Sound) : (t.erase live hash accepts removable).table.Sound := by
  rw [Table.erase]
  split
  · exact hs
  · next chains h =>
    have hindex := chainIndex_lt (hs.size_pos h) hash
    dsimp only
    split
    · next hnone =>
      split
      · exact hs
      · apply hs.rebuild h hindex
        rw [countP_takes, hnone]
        rfl
    · next hone =>
      apply hs.rebuild h hindex
      rw [countP_takes, hone]
      rfl
    · exact hs

/-! ## The number of chains to start with -/

theorem initial_redeal (entry : Entry α) (links : Chain α) (notes : List (Note α))
    (chains : Array (Chain α)) (t : Table α) :
    (t.redeal entry links notes chains).table.initial = t.initial := by
  rw [redeal]
  split <;> rfl

@[simp]
theorem initial_obtain : (t.obtain live hash accepts new).table.initial = t.initial := by
  rw [obtain]
  split
  · rfl
  · dsimp only
    split
    · rw [grow]
      split
      · exact initial_redeal ..
      · exact initial_redeal ..
      · rfl
    · rw [tidy]
      dsimp only
      split <;> rfl

@[simp]
theorem initial_erase : (t.erase live hash accepts removable).table.initial = t.initial := by
  rw [erase]
  split
  · rfl
  · dsimp only
    split
    · split <;> rfl
    · rfl
    · rfl

end Table

end Ephemera
