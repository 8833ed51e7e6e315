import Ephemera.Chain
import Mathlib.Data.List.Perm.Subperm
import Mathlib.Data.List.Nodup

/-!
# What becomes of links

Chains are reversed, dealt out to others and put together again, so the order of links says
little; and cleared links go at any of these moments. `Chain.Sheds` is what remains true: the
links afterwards are the links before, in any order, without some of the cleared ones. From
it follows what a reader of living links can rely on (`Sheds.living_perm`).
-/

namespace Ephemera

namespace Chain

variable {α : Type} {live : α → Bool}

/-! ## Candidates -/

/-- The candidates under a hash are the living targets of links with that hash. -/
@[simp]
theorem mem_candidates {hash : UInt64} {chain : Chain α} {v : α} :
    v ∈ chain.candidates live hash ↔ ⟨v, hash⟩ ∈ chain ∧ live v = true := by
  simp only [candidates, List.mem_map, List.mem_filter, Bool.and_eq_true, beq_iff_eq]
  constructor
  · rintro ⟨⟨_, _⟩, ⟨hmem, rfl, hlive⟩, rfl⟩
    exact ⟨hmem, hlive⟩
  · rintro ⟨hmem, hlive⟩
    exact ⟨⟨v, hash⟩, ⟨hmem, rfl, hlive⟩, rfl⟩

/-- Cleared links have no part in a search. -/
theorem candidates_living (hash : UInt64) (chain : Chain α) :
    (chain.living live).candidates live hash = chain.candidates live hash := by
  rw [candidates, candidates, living, List.filter_filter]
  congr 1
  refine List.filter_congr fun link _ => ?_
  cases live link.referent <;> simp

theorem living_append (chain chain' : Chain α) :
    living live (chain ++ chain') = chain.living live ++ chain'.living live :=
  List.filter_append ..

theorem candidates_append (hash : UInt64) (chain chain' : Chain α) :
    candidates live hash (chain ++ chain')
      = chain.candidates live hash ++ chain'.candidates live hash := by
  rw [candidates, List.filter_append, List.map_append]
  rfl

/-- As the living links are, so are the candidates. -/
theorem candidates_perm {chain chain' : Chain α} (hash : UInt64)
    (h : (chain.living live).Perm (chain'.living live)) :
    (chain.candidates live hash).Perm (chain'.candidates live hash) := by
  rw [← candidates_living, ← candidates_living hash chain']
  exact (h.filter _).map _

theorem living_cons_of_live {link : Link α} (h : live link.referent = true) (chain : Chain α) :
    living live (link :: chain) = link :: chain.living live :=
  List.filter_cons_of_pos h

/-- The candidates that pass a further test, as targets of links. -/
theorem filter_candidates (live : α → Bool) (hash : UInt64) (q : α → Bool) (chain : Chain α) :
    (chain.candidates live hash).filter q
      = ((chain.living live).filter fun link => link.hash == hash && q link.referent).map
          Link.referent := by
  rw [candidates, List.filter_map, living, List.filter_filter, List.filter_filter]
  congr 1
  refine List.filter_congr fun link _ => ?_
  cases live link.referent <;> simp [Bool.and_comm]

/-- No target is a candidate twice if no target is linked twice. -/
theorem nodup_candidates {hash : UInt64} {chain : Chain α}
    (h : (chain.map Link.referent).Nodup) : (chain.candidates live hash).Nodup :=
  h.sublist (List.filter_sublist.map Link.referent)

/-! ## Shedding cleared links -/

/-- `chain'` holds the links of `chain`, in any order, without some of the cleared ones. -/
def Sheds (live : α → Bool) (chain chain' : Chain α) : Prop :=
  ∃ dropped : Chain α, chain.Perm (chain' ++ dropped) ∧
    ∀ link ∈ dropped, live link.referent = false

theorem Sheds.of_perm {chain chain' : Chain α} (h : chain.Perm chain') :
    Sheds live chain chain' :=
  ⟨[], by rwa [List.append_nil], fun _ hmem => absurd hmem List.not_mem_nil⟩

theorem Sheds.refl (chain : Chain α) : Sheds live chain chain :=
  .of_perm (.refl chain)

/-- Whatever is left comes from the links before, each as often as before at most. -/
theorem Sheds.subperm {chain chain' : Chain α} (h : Sheds live chain chain') :
    chain'.Subperm chain := by
  obtain ⟨dropped, hperm, -⟩ := h
  exact (List.sublist_append_left chain' dropped).subperm.trans hperm.symm.subperm

theorem Sheds.length_le {chain chain' : Chain α} (h : Sheds live chain chain') :
    chain'.length ≤ chain.length :=
  h.subperm.length_le

theorem Sheds.subset {chain chain' : Chain α} (h : Sheds live chain chain') :
    chain' ⊆ chain :=
  h.subperm.subset

/-- A living link stays. -/
theorem Sheds.mem_of_live {chain chain' : Chain α} (h : Sheds live chain chain')
    {link : Link α} (hmem : link ∈ chain) (hlive : live link.referent = true) :
    link ∈ chain' := by
  obtain ⟨dropped, hperm, hdead⟩ := h
  rcases List.mem_append.mp (hperm.subset hmem) with hkept | hdropped
  · exact hkept
  · have := hdead link hdropped
    rw [hlive] at this
    cases this

/-- Names that tell all links apart still do so. -/
theorem Sheds.nodup_map {β : Type} {name : Link α → β} {chain chain' : Chain α}
    (h : Sheds live chain chain') (hnodup : (chain.map name).Nodup) :
    (chain'.map name).Nodup := by
  obtain ⟨dropped, hperm, -⟩ := h
  have := (hperm.map name).nodup_iff.mp hnodup
  rw [List.map_append] at this
  exact this.of_append_left

/-- For whoever sees no more than the living links, nothing has happened. The test may be
a later one: what has died since is missing on both sides. -/
theorem Sheds.living_perm {live' : α → Bool} {chain chain' : Chain α}
    (h : Sheds live chain chain')
    (hlater : ∀ link ∈ chain, live' link.referent = true → live link.referent = true) :
    (chain.living live').Perm (chain'.living live') := by
  obtain ⟨dropped, hperm, hdead⟩ := h
  have hnone : dropped.living live' = [] := by
    refine List.filter_eq_nil_iff.mpr fun link hmem hlive => ?_
    have := hlater link (hperm.symm.subset (List.mem_append_right chain' hmem)) hlive
    rw [hdead link hmem] at this
    cases this
  have := hperm.filter fun link => live' link.referent
  rw [List.filter_append] at this
  change (chain.living live').Perm (chain'.living live' ++ dropped.living live') at this
  rwa [hnone, List.append_nil] at this

/-- Links that are put beside others do not keep those from being shed. -/
theorem Sheds.append {before chain chain' after : Chain α} (h : Sheds live chain chain') :
    Sheds live (before ++ chain ++ after) (before ++ chain' ++ after) := by
  obtain ⟨dropped, hperm, hdead⟩ := h
  refine ⟨dropped, ?_, hdead⟩
  have hmove : (dropped ++ after).Perm (after ++ dropped) := List.perm_append_comm
  calc (before ++ chain ++ after).Perm (before ++ (chain' ++ dropped) ++ after) :=
        (hperm.append_left before).append_right after
    _ = before ++ chain' ++ (dropped ++ after) := by simp only [List.append_assoc]
    _ |>.Perm (before ++ chain' ++ (after ++ dropped)) := hmove.append_left _
    _ = before ++ chain' ++ after ++ dropped := by simp only [List.append_assoc]

/-- Keeping the living links sheds the others. -/
theorem sheds_living (live : α → Bool) (chain : Chain α) :
    Sheds live chain (chain.living live) := by
  refine ⟨chain.filter fun link => !live link.referent, ?_, ?_⟩
  · exact (List.filter_append_perm (fun link => live link.referent) chain).symm
  · intro link hmem
    simpa using (List.mem_filter.mp hmem).2

theorem Sheds.trans_perm {chain chain' chain'' : Chain α} (h : Sheds live chain chain')
    (hperm : chain'.Perm chain'') : Sheds live chain chain'' := by
  obtain ⟨dropped, hperm', hdead⟩ := h
  exact ⟨dropped, hperm'.trans (hperm.append_right dropped), hdead⟩

end Chain

end Ephemera
