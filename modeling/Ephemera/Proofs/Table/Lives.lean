import Ephemera.Pool
import Ephemera.Proofs.Table.Placement

/-!
# Whose lives matter to a table

A request comes with a test that tells which entries are alive. It is put to linked entries only,
so two tests that agree on those lead to the same: the same answer, the same table and the same
notes. A caller of several tables may therefore tell each of them about its own entries.
-/

namespace Ephemera

namespace Chain

variable {α : Type} {live live' : α → Bool} {chain : Chain α}

theorem living_congr (h : ∀ link ∈ chain, live link.referent = live' link.referent) :
    chain.living live = chain.living live' :=
  List.filter_congr h

theorem cleared_congr (h : ∀ link ∈ chain, live link.referent = live' link.referent) :
    chain.cleared live = chain.cleared live' :=
  List.countP_congr fun link hmem => by rw [h link hmem]

theorem candidates_congr (h : ∀ link ∈ chain, live link.referent = live' link.referent)
    (hash : UInt64) : chain.candidates live hash = chain.candidates live' hash :=
  congrArg (List.map Link.referent) (List.filter_congr fun link hmem => by rw [h link hmem])

end Chain

namespace Table

variable {α : Type} {live live' : α → Bool} {chains : Array (Chain α)} {t : Table α}

theorem mem_links_of_mem_chainAt (h : t.chains = some chains) {index : Nat} {link : Link α}
    (hmem : link ∈ chainAt chains index) : link ∈ t.links := by
  rw [links, h]
  exact mem_allLinks.mpr ⟨index, hmem⟩

/-- Getting chains is getting no links. -/
theorem allLinks_of_chainsOrNew (h : t.chainsOrNew = .ok chains) : allLinks chains = t.links := by
  rw [chainsOrNew] at h
  split at h
  · next hnone =>
    rw [eq_replicate_of_emptyChains h]
    simp [links, hnone]
  · next hsome =>
    cases h
    rw [links, hsome]

section

variable (h : ∀ link ∈ t.links, live link.referent = live' link.referent)

include h

theorem search_congr (hash : UInt64) (accepts : α → Bool) :
    t.search live hash accepts = t.search live' hash accepts := by
  have hcandidates : t.candidates live hash = t.candidates live' hash := by
    rw [candidates, candidates]
    split
    · rfl
    · next chains hchains =>
      exact Chain.candidates_congr (fun link hmem => h link (mem_links_of_mem_chainAt hchains hmem))
        hash
  rw [search, search, hcandidates]

theorem count_congr (accepts : α → Bool) : t.count live accepts = t.count live' accepts := by
  rw [count, count, Chain.living_congr h]

theorem obtain_congr (hash : UInt64) (accepts : α → Bool) (new : α) :
    t.obtain live hash accepts new = t.obtain live' hash accepts new := by
  rw [obtain, obtain]
  cases hchains : t.chainsOrNew with
  | error fault => rfl
  | ok chains =>
    rw [← allLinks_of_chainsOrNew hchains] at h
    have hchain : ∀ link ∈ chainAt chains (chainIndex chains.size hash),
        live link.referent = live' link.referent :=
      fun link hmem => h link (mem_allLinks.mpr ⟨_, hmem⟩)
    have hliving : ∀ link ∈ (allLinks chains).living live',
        live link.referent = live' link.referent :=
      fun link hmem => h link (List.mem_filter.mp hmem).1
    simp only [grow, tidy, Chain.living_congr h, Chain.candidates_congr hliving,
      Chain.living_congr hchain, Chain.cleared_congr hchain, Chain.candidates_congr hchain]

end

end Table

namespace Pool

variable {κ τ : Type} [Shareable κ τ] {live live' : Instance τ → Bool} {p : Pool τ}
  (h : ∀ link ∈ p.table.links, live link.referent = live' link.referent)

include h

/-- A pool need only be told about its own instances. -/
theorem share_congr (number : Nat) (request : κ) :
    p.share live number request = p.share live' number request := by
  simp only [share, Table.search_congr h, Table.obtain_congr h]

omit [Shareable κ τ] in
theorem count_congr : p.count live = p.count live' := by
  rw [count, count, Table.count_congr h]

end Pool

end Ephemera
