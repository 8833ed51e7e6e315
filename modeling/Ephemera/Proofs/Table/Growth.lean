import Ephemera.Proofs.Table.Agreement

/-!
# What a table is like that has grown

Growing goes through all chains and deals out their living links to twice as many. Since a hash
that belongs to a chain among twice as many belongs to the chain of the remainder before, each of
the new chains gets its links from one old chain only, and gets them in reverse; the new link, if
there is one, stands in front of its chain (`chainAt_deal_double`). No cleared link is left then,
so the size is the number of living entries, and it is what the log is told.
-/

namespace Ephemera

namespace Table

variable {α : Type} {live accepts : α → Bool} {hash : UInt64} {new : α}
  {chains : Array (Chain α)} {t : Table α}

/-- The living links that belong to a chain among twice as many are all in one chain before. -/
theorem Sound.filter_living_double (hs : t.Sound) (h : t.chains = some chains) (index : Nat) :
    (t.links.living live).filter (fun link => chainIndex (2 * chains.size) link.hash == index)
      = ((chainAt chains (index % chains.size)).living live).filter
          (fun link => chainIndex (2 * chains.size) link.hash == index) := by
  rw [links_of_chains h, Chain.living, Chain.living, List.filter_filter, List.filter_filter]
  refine filter_allLinks_of_placed (hs.placed chains h) fun link hpass => ?_
  rw [Bool.and_eq_true, beq_iff_eq] at hpass
  rw [← hpass.1, chainIndex_double_mod (hs.isPowerOfTwo_size h)]

/-- Dealing the living links and some more out to twice as many chains puts into each of them, in
reverse, the living links of one old chain that belong there, and the others in front. -/
theorem Sound.chainAt_deal_double (hs : t.Sound) (h : t.chains = some chains) {index : Nat}
    (hindex : index < 2 * chains.size) (more : Chain α) :
    chainAt (deal (2 * chains.size) (t.links.living live ++ more)) index
      = (more.filter fun link => link.hash.toNat % (2 * chains.size) == index).reverse
        ++ (((chainAt chains (index % chains.size)).living live).filter
          fun link => link.hash.toNat % (2 * chains.size) == index).reverse := by
  have hmod : ∀ link : Link α, link.hash.toNat % (2 * chains.size)
      = chainIndex (2 * chains.size) link.hash :=
    fun link => (chainIndex_eq_mod (hs.isPowerOfTwo_double h) link.hash).symm
  simp only [hmod]
  rw [chainAt_deal hindex, List.filter_append, List.reverse_append, hs.filter_living_double h]

theorem joining_filter (index count : Nat) :
    ((t.joining live hash accepts new).filter fun link => link.hash.toNat % count == index).reverse
      = if ((t.links.candidates live hash).filter accepts).length = 0 ∧ hash.toNat % count = index
        then [⟨new, hash⟩] else [] := by
  rw [joining]
  cases (t.links.candidates live hash).filter accepts with
  | nil => by_cases h : hash.toNat % count = index <;> simp [h]
  | cons entry rest => simp

/-- All links that are dealt out are alive. -/
theorem live_of_mem_dealt (hlive : live new = true) {link : Link α}
    (hmem : link ∈ t.links.living live ++ t.joining live hash accepts new) :
    live link.referent = true := by
  rcases List.mem_append.mp hmem with hliving | hjoining
  · exact (List.mem_filter.mp hliving).2
  · rw [joining] at hjoining
    split at hjoining
    · obtain rfl := List.mem_singleton.mp hjoining
      exact hlive
    · cases hjoining

/-- A table that has grown has no cleared links. -/
theorem Sound.cleared_grow (hs : t.Sound) (h : t.chains = some chains) (hlive : live new = true)
    (hfew : ((t.links.candidates live hash).filter accepts).length ≤ 1) :
    (t.grow live hash accepts new chains).table.links.cleared live = 0 := by
  obtain ⟨-, htable, -⟩ := grow_of_few hs h new hfew
  have hpos : 0 < 2 * chains.size := pos_of_isPowerOfTwo (hs.isPowerOfTwo_double h)
  rw [htable, Chain.cleared, List.countP_eq_zero]
  intro link hmem
  have hdealt := (allLinks_deal_perm hpos _).subset hmem
  rw [live_of_mem_dealt hlive hdealt]
  exact Bool.false_ne_true

end Table

namespace TableSession

variable {τ : Type}

/-- What a table is like after a request `o` that made it grow from some chains to others. -/
structure Regrown (s : TableSession) (hash : UInt64) (accepts : Key → Bool) (new : Key)
    (o : Obtained Key) (chains chains' : Array (Chain Key)) : Prop where
  /-- these are the chains before -/
  before : s.table.chains = some chains
  /-- these are the chains afterwards -/
  after : o.table.chains = some chains'
  /-- they are twice as many -/
  doubled : chains'.size = 2 * chains.size
  /-- a chain holds the living links of one old chain that belong to it, in reverse, and in front
  of them the new link, if no link is accepted and the new one belongs to this chain -/
  dealt : ∀ index, index < 2 * chains.size →
    Table.chainAt chains' index
      = (if (s.bag.under hash accepts).card = 0 ∧ hash.toNat % (2 * chains.size) = index
          then [⟨new, hash⟩] else [])
        ++ (((Table.chainAt chains (index % chains.size)).living s.isLive).filter
          fun link => link.hash.toNat % (2 * chains.size) == index).reverse
  /-- no link is cleared -/
  uncleared : o.table.links.cleared s.isLive = 0
  /-- the size is the number of living entries -/
  counted : o.table.size = (o.table.count s.isLive fun _ => true).1
  /-- and this is the number that the log is told, with those of the chains -/
  told : (Note.messages o.notes).map Message.text
    = ["bucket array resized: " ++ toString chains.size ++ " -> " ++ toString (2 * chains.size)
        ++ " buckets, " ++ toString o.table.size ++ " live entries"]

theorem regrown_of_loaded {s : TableSession} {made : Nat} {hash : UInt64} {accepts : Key → Bool}
    {new : Key} {e : Entry Key} (h : s.table.Loaded made)
    (hcrowded : s.table.capacity / 2 ≤ s.table.size) (hlive : s.isLive new = true)
    (houtcome : (s.table.obtain s.isLive hash accepts new).outcome = .ok e) :
    ∃ chains chains', Regrown s hash accepts new (s.table.obtain s.isLive hash accepts new)
      chains chains' := by
  have hs := h.sound
  obtain ⟨chains, hchains, hgrow⟩ := hs.obtain_of_crowded h.ample hcrowded
  have hs' : (s.table.obtain s.isLive hash accepts new).table.Sound := hs.obtain
  rw [hgrow] at houtcome hs' ⊢
  -- an answer was given, so it was not refused
  have hfew : ((s.table.links.candidates s.isLive hash).filter accepts).length ≤ 1 := by
    by_contra hmany
    obtain ⟨hrefused, -⟩ := Table.grow_of_many hchains new (Nat.lt_of_not_le hmany)
    rw [houtcome] at hrefused
    cases hrefused
  obtain ⟨-, htable, htold⟩ := Table.grow_of_few hs hchains new hfew
  have hcleared := hs.cleared_grow hchains hlive hfew
  have hcount := hs'.count_add_cleared s.isLive
  refine ⟨chains, _,
    { before := hchains
      after := congrArg Table.chains htable
      doubled := Table.size_deal ..
      dealt := fun index hindex => ?_
      uncleared := hcleared
      counted := by omega
      told := ?_ }⟩
  · rw [hs.chainAt_deal_double hchains hindex, Table.joining_filter, card_under]
  · rw [htold, htable]
    rfl

/-- Whatever was asked of a table before, a request that makes it grow and is answered deals its
living links out to twice as many chains. -/
theorem after_regrown (passes : τ → Key → Bool) (request : Nat) (requests : List (TableRequest τ))
    (hash : UInt64) (accepts : Key → Bool) (new : Key) (e : Entry Key) :
    let s := (ofCapacity request).after passes requests
    let o := s.table.obtain s.isLive hash accepts new
    s.table.capacity / 2 ≤ s.table.size → s.isLive new = true → o.outcome = .ok e →
      ∃ chains chains', Regrown s hash accepts new o chains chains' :=
  regrown_of_loaded (loaded passes request requests)

/-- Some links are cleared, and two of the others and the new one belong to one chain. -/
theorem after_regrown_cleared :
    let link (name : String) (hash : UInt64) : TableAction := .obtain hash .nothing name
    let requests := [.key (.make "a" "t" none), .key (.make "b" "t" none)]
      ++ [1, 17, 33, 2].map (link "a") ++ [1, 17, 18, 2].map (link "b") ++ [.key (.letGo "b")]
    let s := (ofCapacity 0).after Test.passes requests
    let a : Key := ⟨0, "a", "t", 17592186044416⟩
    let o := s.table.obtain s.isLive 17 Test.nothing.passes a
    s.table.size = 8 ∧ o.table.size = 5 ∧
      ∃ chains chains', Regrown s 17 Test.nothing.passes a o chains chains' := by
  intro link requests s a o
  have houtcome : o.outcome = .ok ⟨a, true⟩ := by decide +kernel
  exact ⟨by decide, by decide, after_regrown Test.passes 0 requests 17 Test.nothing.passes a _
    (by decide) (by decide) houtcome⟩

end TableSession

end Ephemera
