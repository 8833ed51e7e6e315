import Ephemera.Proofs.Capacity
import Ephemera.Table.Obtain
import Mathlib.Data.List.Induction
import Mathlib.Tactic.ByContra

/-!
# Where links are

A link is found through its hash, so it has to be in the chain that the hash belongs to:
`Placed` says that all of them are. A request looks at one chain, or at all of them when the
table grows, and under `Placed` the two see the same links of a hash
(`filter_allLinks_of_placed`). Putting a chain in the place of another and dealing links out
anew both keep links where they belong.
-/

namespace Ephemera

namespace Table

variable {α : Type} {chains : Array (Chain α)}

/-- Every link is in the chain of its hash. -/
def Placed (chains : Array (Chain α)) : Prop :=
  ∀ index, ∀ link ∈ chainAt chains index, chainIndex chains.size link.hash = index

/-! ## One chain and all of them -/

theorem chainAt_of_lt {index : Nat} (h : index < chains.size) :
    chainAt chains index = chains[index] := by
  simp [chainAt, h]

theorem chainAt_of_le {index : Nat} (h : chains.size ≤ index) : chainAt chains index = [] := by
  simp [chainAt, h]

/-- Where a link is, there is a chain. -/
theorem lt_size_of_mem_chainAt {index : Nat} {link : Link α} (h : link ∈ chainAt chains index) :
    index < chains.size := by
  by_contra hge
  rw [chainAt_of_le (by omega)] at h
  exact absurd h List.not_mem_nil

theorem mem_allLinks {link : Link α} :
    link ∈ allLinks chains ↔ ∃ index, link ∈ chainAt chains index := by
  rw [allLinks, List.mem_flatten]
  constructor
  · rintro ⟨chain, hchain, hmem⟩
    obtain ⟨index, hlt, rfl⟩ := List.mem_iff_getElem.mp hchain
    rw [Array.length_toList] at hlt
    refine ⟨index, ?_⟩
    rwa [chainAt_of_lt hlt, ← Array.getElem_toList]
  · rintro ⟨index, hmem⟩
    have hlt := lt_size_of_mem_chainAt hmem
    rw [chainAt_of_lt hlt] at hmem
    exact ⟨chains[index], by simp, hmem⟩

/-- The links of a chain stand together among all links. Another chain in its place changes
nothing on either side, and what is on either side is in other chains. -/
theorem allLinks_split {index : Nat} (h : index < chains.size) :
    ∃ before after : Chain α,
      allLinks chains = before ++ chainAt chains index ++ after ∧
      (∀ chain, allLinks (chains.setIfInBounds index chain) = before ++ chain ++ after) ∧
      ∀ link ∈ before ++ after, ∃ other, other ≠ index ∧ link ∈ chainAt chains other := by
  have hlen : index < chains.toList.length := h
  refine ⟨(chains.toList.take index).flatten, (chains.toList.drop (index + 1)).flatten, ?_, ?_, ?_⟩
  · have hsplit : chains.toList = chains.toList.take index
        ++ chains.toList[index] :: chains.toList.drop (index + 1) := by
      rw [← List.drop_eq_getElem_cons hlen, List.take_append_drop]
    rw [chainAt_of_lt h, ← Array.getElem_toList]
    calc allLinks chains
        = (chains.toList.take index
            ++ chains.toList[index] :: chains.toList.drop (index + 1)).flatten :=
          congrArg List.flatten hsplit
      _ = _ := by simp
  · intro chain
    rw [allLinks, Array.toList_setIfInBounds, List.set_eq_take_append_cons_drop, if_pos hlen]
    simp
  · intro link hmem
    rcases List.mem_append.mp hmem with hbefore | hafter
    · obtain ⟨chain, hchain, hlink⟩ := List.mem_flatten.mp hbefore
      obtain ⟨other, hother, rfl⟩ := List.mem_take_iff_getElem.mp hchain
      have hlt : other < chains.size := by
        rw [Array.length_toList] at hother
        omega
      -- what is taken from the front keeps its number
      refine ⟨other, by omega, ?_⟩
      rwa [chainAt_of_lt hlt, ← Array.getElem_toList]
    · obtain ⟨chain, hchain, hlink⟩ := List.mem_flatten.mp hafter
      obtain ⟨other, hother, rfl⟩ := List.mem_drop_iff_getElem.mp hchain
      have hlt : index + 1 + other < chains.size := by
        rw [Array.length_toList] at hother
        omega
      -- what comes after is counted from the next chain on
      refine ⟨index + 1 + other, by omega, ?_⟩
      rwa [chainAt_of_lt hlt, ← Array.getElem_toList]

/-- A test that only links of one chain can pass is as well put to that chain alone. -/
theorem filter_allLinks_of_placed (hplaced : Placed chains) {p : Link α → Bool} {index : Nat}
    (hp : ∀ link, p link = true → chainIndex chains.size link.hash = index) :
    (allLinks chains).filter p = (chainAt chains index).filter p := by
  by_cases hlt : index < chains.size
  · obtain ⟨before, after, hall, -, hothers⟩ := allLinks_split hlt
    -- a link elsewhere has another chain's hash, so the test fails it
    have hnone : ∀ link ∈ before ++ after, ¬ p link = true := by
      intro link hmem hpass
      obtain ⟨other, hne, hlink⟩ := hothers link hmem
      exact hne ((hplaced other link hlink).symm.trans (hp link hpass))
    have hbefore : before.filter p = [] :=
      List.filter_eq_nil_iff.mpr fun link hmem => hnone link (List.mem_append_left after hmem)
    have hafter : after.filter p = [] :=
      List.filter_eq_nil_iff.mpr fun link hmem => hnone link (List.mem_append_right before hmem)
    rw [hall, List.filter_append, List.filter_append, hbefore, hafter, List.nil_append,
      List.append_nil]
  · rw [chainAt_of_le (by omega), List.filter_nil, List.filter_eq_nil_iff]
    intro link hmem hpass
    obtain ⟨other, hlink⟩ := mem_allLinks.mp hmem
    have hother := lt_size_of_mem_chainAt hlink
    have := (hplaced other link hlink).symm.trans (hp link hpass)
    omega

/-- A search through the chain of a hash sees what a search through all chains sees. -/
theorem candidates_chainAt (hplaced : Placed chains) (live : α → Bool) (hash : UInt64) :
    (chainAt chains (chainIndex chains.size hash)).candidates live hash
      = (allLinks chains).candidates live hash := by
  rw [Chain.candidates, Chain.candidates, filter_allLinks_of_placed hplaced]
  intro link hpass
  rw [Bool.and_eq_true, beq_iff_eq] at hpass
  rw [hpass.1]

/-! ## A chain in the place of another -/

theorem chainAt_set_self {index : Nat} (h : index < chains.size) (chain : Chain α) :
    chainAt (chains.setIfInBounds index chain) index = chain := by
  simp [chainAt, h]

theorem chainAt_set_ne {index other : Nat} (h : index ≠ other) (chain : Chain α) :
    chainAt (chains.setIfInBounds index chain) other = chainAt chains other := by
  simp [chainAt, Array.getElem?_setIfInBounds_ne h]

theorem placed_set (hplaced : Placed chains) {index : Nat} (h : index < chains.size)
    {chain : Chain α} (hchain : ∀ link ∈ chain, chainIndex chains.size link.hash = index) :
    Placed (chains.setIfInBounds index chain) := by
  intro other link hmem
  rw [Array.size_setIfInBounds]
  by_cases hindex : index = other
  · subst hindex
    rw [chainAt_set_self h] at hmem
    exact hchain link hmem
  · rw [chainAt_set_ne hindex] at hmem
    exact hplaced other link hmem

/-! ## Empty chains -/

section

variable {count : Nat}

theorem emptyChains_of_fits (hpower : isPowerOfTwo count = true)
    (hfits : isOversized count = false) :
    emptyChains count = .ok (Array.replicate count ([] : Chain α)) := by
  rw [emptyChains, checkedCount_eq hpower, hfits]
  rfl

theorem emptyChains_of_oversized (hpower : isPowerOfTwo count = true)
    (h : isOversized count = true) :
    (emptyChains count : Except Fault (Array (Chain α))) = .error .overflow := by
  rw [emptyChains, checkedCount_eq hpower, if_pos h]
  rfl

/-- What is made are as many empty chains as were asked for. -/
theorem eq_replicate_of_emptyChains (h : emptyChains count = .ok chains) :
    chains = Array.replicate count [] := by
  rw [emptyChains] at h
  cases hcount : checkedCount count with
  | error fault =>
    rw [hcount] at h
    cases h
  | ok count' =>
    obtain ⟨-, -, rfl⟩ := checkedCount_eq_ok_iff.mp hcount
    rw [hcount] at h
    exact (Except.ok.inj h).symm

end

theorem placed_replicate (count : Nat) : Placed (Array.replicate count ([] : Chain α)) := by
  intro index link hmem
  have hlt := lt_size_of_mem_chainAt hmem
  rw [chainAt_of_lt hlt, Array.getElem_replicate] at hmem
  exact absurd hmem List.not_mem_nil

@[simp]
theorem allLinks_replicate (count : Nat) :
    allLinks (Array.replicate count ([] : Chain α)) = [] := by
  simp [allLinks]

/-! ## Dealing links out -/

/-- The last link is dealt out on top of the others. -/
theorem deal_concat (count : Nat) (links : Chain α) (link : Link α) :
    deal count (links ++ [link])
      = (deal count links).modify (chainIndex count link.hash) (link :: ·) := by
  simp [deal, List.foldl_append]

@[simp]
theorem size_deal (count : Nat) (links : Chain α) : (deal count links).size = count := by
  induction links using List.reverseRecOn with
  | nil => simp [deal]
  | append_singleton links link ih => rw [deal_concat, Array.size_modify, ih]

theorem modify_eq_set (index : Nat) (f : Chain α → Chain α) :
    chains.modify index f = chains.setIfInBounds index (f (chainAt chains index)) := by
  apply Array.ext
  · simp
  · intro other h h'
    rw [Array.getElem_modify, Array.getElem_setIfInBounds]
    split
    · next heq =>
      subst heq
      rw [chainAt_of_lt (by simpa using h)]
    · rfl

/-- The chain at an index gets the links that belong there, the last one first. -/
theorem chainAt_deal {count index : Nat} (h : index < count) (links : Chain α) :
    chainAt (deal count links) index
      = (links.filter fun link => chainIndex count link.hash == index).reverse := by
  induction links using List.reverseRecOn with
  | nil => simp [deal, chainAt, h]
  | append_singleton links link ih =>
    rw [deal_concat, modify_eq_set, List.filter_append, List.reverse_append]
    by_cases hindex : chainIndex count link.hash = index
    · rw [hindex, chainAt_set_self (by rwa [size_deal]), ih]
      simp [hindex]
    · rw [chainAt_set_ne hindex, ih]
      simp [hindex]

theorem placed_deal (count : Nat) (links : Chain α) : Placed (deal count links) := by
  intro index link hmem
  have hlt := lt_size_of_mem_chainAt hmem
  rw [size_deal] at hlt ⊢
  rw [chainAt_deal hlt, List.mem_reverse, List.mem_filter, beq_iff_eq] at hmem
  exact hmem.2

/-- Dealing out loses no link and makes none. -/
theorem allLinks_deal_perm {count : Nat} (hpos : 0 < count) (links : Chain α) :
    (allLinks (deal count links)).Perm links := by
  induction links using List.reverseRecOn with
  | nil => simp [deal]
  | append_singleton links link ih =>
    have hlt : chainIndex count link.hash < (deal count links).size := by
      rw [size_deal]
      exact chainIndex_lt hpos link.hash
    obtain ⟨before, after, hall, hset, -⟩ := allLinks_split hlt
    rw [deal_concat, modify_eq_set, hset]
    rw [hall] at ih
    have hfront : (before ++ (link :: chainAt (deal count links) (chainIndex count link.hash))
        ++ after).Perm (link :: links) := by
      refine List.Perm.trans ?_ (ih.cons link)
      rw [List.append_assoc, List.cons_append, List.append_assoc]
      exact List.perm_middle
    exact hfront.trans (List.perm_append_singleton link links).symm

end Table

end Ephemera
