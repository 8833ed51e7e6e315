import Ephemera.Proofs.Table.Refusal

/-!
# What requests leave alone

A request that does not make the table grow is about one chain, the one of its hash, and here is
exactly what becomes of this chain: nothing at all where a request to find or install finds its
entry, or where a request to erase has nothing to take out and no cleared link to drop; and
otherwise the living links that stay, in reverse, with the new link in front if there is one. All
other chains are left alone (`Replaces`), and the size goes by the links that came and went.
-/

namespace Ephemera

/-- Whether a link leads, under a hash, to a living entry that passes a test. -/
def Link.Meets {α : Type} (live : α → Bool) (hash : UInt64) (passes : α → Bool) (link : Link α) :
    Prop :=
  link.hash = hash ∧ live link.referent = true ∧ passes link.referent = true

/-- Where one element passes a test at most, the others stand on either side of it. -/
theorem exists_sides {β : Type} (p : β → Bool) {elements : List β}
    (hfew : (elements.filter p).length ≤ 1) :
    ∃ before after, elements = before ++ elements.filter p ++ after ∧
      (∀ e ∈ before ++ after, ¬ p e = true) ∧
        elements.filter (fun e => !p e) = before ++ after := by
  have hothers : ∀ l : List β, (∀ e ∈ l, ¬ p e = true) → l.filter (fun e => !p e) = l :=
    fun l hl => List.filter_eq_self.mpr fun e he => by simpa using hl e he
  match hpass : elements.filter p, hfew with
  | [], _ =>
    have hnone : ∀ e ∈ elements, ¬ p e = true := List.filter_eq_nil_iff.mp hpass
    exact ⟨elements, [], by simp, by simpa using hnone, by simpa using hothers elements hnone⟩
  | [e], _ =>
    obtain ⟨before, after, rfl, hbefore, he, hafter⟩ := List.filter_eq_cons_iff.mp hpass
    have hnone : ∀ e ∈ before ++ after, ¬ p e = true := by
      intro e' hmem
      rcases List.mem_append.mp hmem with h | h
      · exact hbefore e' h
      · exact List.filter_eq_nil_iff.mp hafter e' h
    refine ⟨before, after, by simp, hnone, ?_⟩
    rw [← hothers _ hnone]
    simp [he]

namespace Chain

variable {α : Type} {live passes : α → Bool} {hash : UInt64} {chain : Chain α}

/-- The links of a chain that a request is about. -/
def meant (live : α → Bool) (hash : UInt64) (passes : α → Bool) (chain : Chain α) : Chain α :=
  (chain.living live).filter fun link => link.hash == hash && passes link.referent

theorem mem_meant {link : Link α} :
    link ∈ chain.meant live hash passes ↔ link ∈ chain ∧ link.Meets live hash passes := by
  simp only [meant, living, List.mem_filter, Bool.and_eq_true, beq_iff_eq, Link.Meets]
  constructor
  · rintro ⟨⟨hmem, hlive⟩, hhash, hpasses⟩
    exact ⟨hmem, hhash, hlive, hpasses⟩
  · rintro ⟨hmem, hhash, hlive, hpasses⟩
    exact ⟨⟨hmem, hlive⟩, hhash, hpasses⟩

/-- The candidates that pass a test are what these links lead to. -/
theorem filter_candidates_eq_map :
    (chain.candidates live hash).filter passes
      = (chain.meant live hash passes).map Link.referent :=
  filter_candidates live hash passes chain

theorem meant_eq_nil_iff :
    chain.meant live hash passes = [] ↔ ¬ ∃ link ∈ chain, link.Meets live hash passes := by
  rw [List.eq_nil_iff_forall_not_mem, not_exists]
  exact forall_congr' fun link => not_congr mem_meant

/-- A link that is meant is known by its entry, and those that stay stand on either side of it. -/
theorem exists_parts (hfew : (chain.meant live hash passes).length ≤ 1) {result : Option α}
    (hresult : result = (chain.meant live hash passes).head?.map Link.referent) :
    let taken : Chain α := result.toList.map fun entry => ⟨entry, hash⟩
    ∃ before after, chain.living live = before ++ taken ++ after ∧
      (∀ link ∈ taken, link.Meets live hash passes) ∧
      (∀ link ∈ before ++ after, ¬ link.Meets live hash passes) ∧
      (chain.living live).filter (fun link => !(link.hash == hash && passes link.referent))
        = before ++ after ∧ taken.length = (chain.meant live hash passes).length := by
  have hmeets : ∀ link ∈ chain.meant live hash passes, link.Meets live hash passes :=
    fun link hmem => (mem_meant.mp hmem).2
  have htaken : (result.toList.map fun entry => (⟨entry, hash⟩ : Link α))
      = chain.meant live hash passes := by
    rw [hresult]
    match chain.meant live hash passes, hfew, hmeets with
    | [], _, _ => rfl
    | [link], _, hmeets =>
      obtain ⟨rfl, -⟩ := hmeets link List.mem_cons_self
      rfl
  obtain ⟨before, after, hliving, hothers, hkept⟩ := exists_sides _ hfew
  rw [htaken]
  refine ⟨before, after, hliving, hmeets, fun link hmem hmeets => hothers link hmem ?_, hkept, rfl⟩
  rw [Bool.and_eq_true, beq_iff_eq]
  exact ⟨hmeets.1, hmeets.2.2⟩

end Chain

namespace Table

variable {α : Type} {live accepts removable : α → Bool} {hash : UInt64} {new : α}
  {chains : Array (Chain α)} {t : Table α} {index : Nat}

/-- The chain of a table at an index, empty where there is none. -/
def chain (t : Table α) (index : Nat) : Chain α :=
  match t.chains with
  | none => []
  | some chains => chainAt chains index

/-- A table `t'` is a table `t` with another chain at an index. -/
structure Replaces (index : Nat) (chain : Chain α) (t t' : Table α) : Prop where
  /-- this is the chain there now -/
  replaced : t'.chain index = chain
  /-- the other chains are the ones before -/
  others : ∀ other, other ≠ index → t'.chain other = t.chain other
  /-- there are as many chains as before -/
  capacity : t'.capacity = t.capacity

theorem chain_of_chains (h : t.chains = some chains) : t.chain index = chainAt chains index := by
  rw [chain, h]

/-- The chains that a table gets are empty, and those that it has are the ones it had. -/
theorem chain_of_chainsOrNew (h : t.chainsOrNew = .ok chains) :
    t.chain index = chainAt chains index := by
  cases hchains : t.chains with
  | some chains' =>
    rw [chainsOrNew, hchains] at h
    cases h
    exact chain_of_chains hchains
  | none =>
    rw [chainsOrNew, hchains] at h
    dsimp only at h
    have hnone : ∀ link, link ∉ chainAt (Array.replicate t.initial ([] : Chain α)) index :=
      fun link hmem => by simpa using mem_allLinks.mpr ⟨index, hmem⟩
    rw [eq_replicate_of_emptyChains h, chain, hchains, List.eq_nil_iff_forall_not_mem.mpr hnone]

/-- Putting a chain in the place of another leaves the others alone. -/
theorem replaces_set (h : t.chainsOrNew = .ok chains) (hindex : index < chains.size)
    (chain : Chain α) (size : Nat) :
    Replaces index chain t { t with chains := some (chains.setIfInBounds index chain), size } where
  replaced := chainAt_set_self hindex chain
  others other hne := by
    rw [chain_of_chainsOrNew h]
    exact chainAt_set_ne (Ne.symm hne) chain
  capacity := by
    rw [← size_of_chainsOrNew h]
    exact Array.size_setIfInBounds

/-! ## Finding or installing -/

/-- The candidates of a search are those of one chain. -/
theorem candidates_eq_chain :
    t.candidates live hash = (t.chain (chainIndex t.capacity hash)).candidates live hash := by
  cases h : t.chains with
  | none =>
    rw [candidates, chain, h]
    rfl
  | some chains => rw [candidates_of_chains h, chain_of_chains h, capacity_of_chains h]

theorem search_eq_none_iff : (t.search live hash accepts).1 = none ↔
    ¬ ∃ link ∈ t.chain (chainIndex t.capacity hash), link.Meets live hash accepts := by
  rw [search, candidates_eq_chain, ← Chain.meant_eq_nil_iff, ← List.head?_filter,
    List.head?_eq_none_iff, Chain.filter_candidates_eq_map, List.map_eq_nil_iff]

/-- Where there is room, a request that finds its entry leaves the table as it is. -/
theorem obtain_of_met (hroomy : t.size < t.capacity / 2)
    (hmet : ∃ link ∈ t.chain (chainIndex t.capacity hash), link.Meets live hash accepts) :
    let o := t.obtain live hash accepts new
    (∃ entry, o.outcome = .ok ⟨entry, false⟩) ∧ o.table = t ∧ Note.messages o.notes = [] := by
  obtain ⟨entry, hfind⟩ := Option.ne_none_iff_exists'.mp fun h => search_eq_none_iff.mp h hmet
  obtain ⟨chains, hchains⟩ : ∃ chains, t.chains = some chains := by
    obtain ⟨link, hmem, -⟩ := hmet
    cases h : t.chains with
    | some chains => exact ⟨chains, rfl⟩
    | none =>
      rw [chain, h] at hmem
      cases hmem
  have hsame : ({ t with chains := some chains } : Table α) = t := by rw [← hchains]
  have hchains' : t.chainsOrNew = .ok chains := by rw [chainsOrNew, hchains]
  rw [Table.obtain_of_roomy hchains' hroomy, hsame, tidy_of_some hchains hfind]
  exact ⟨⟨entry, rfl⟩, rfl, Note.messages_asked _⟩

/-- Where there is room, a request that finds nothing puts the new link in front of the living
links of its chain, which are reversed. -/
theorem Sound.obtain_of_unmet (hs : t.Sound) (hfits : isOversized t.initial = false)
    (hroomy : t.size < t.capacity / 2)
    (hunmet : ¬ ∃ link ∈ t.chain (chainIndex t.capacity hash), link.Meets live hash accepts) :
    let index := chainIndex t.capacity hash
    let o := t.obtain live hash accepts new
    o.outcome = .ok ⟨new, true⟩ ∧
      Replaces index (⟨new, hash⟩ :: ((t.chain index).living live).reverse) t o.table ∧
        o.table.size + (t.chain index).cleared live = t.size + 1 ∧
          Note.messages o.notes = [] := by
  obtain ⟨chains, hchains, hs', -⟩ := hs.chainsOrNew_eq hfits
  have hsize := size_of_chainsOrNew hchains
  have hlt : chainIndex chains.size hash < chains.size := chainIndex_lt (hs'.size_pos rfl) hash
  have hfind := search_eq_none_iff.mpr hunmet
  rw [← hs.search_of_chainsOrNew hfits hchains] at hfind
  dsimp only
  rw [← hsize, chain_of_chainsOrNew hchains, obtain_of_roomy hchains hroomy, tidy_of_none rfl hfind]
  refine ⟨rfl, replaces_set hchains hlt _ _, ?_, by simp [search]⟩
  -- the size covers the links of a chain, so nothing is cut off when they are taken off it
  have hle := hs'.length_chainAt_le rfl hlt
  have hparts := Chain.length_living_add_cleared live (chainAt chains (chainIndex chains.size hash))
  dsimp only at hle ⊢
  omega

/-! ## Erasing -/

/-- Erasing tells the log nothing by its tests. -/
theorem messages_erasureNotes (accepts removable : α → Bool) (entries : List α) :
    Note.messages (erasureNotes accepts removable entries) = [] := by
  refine List.filterMap_eq_nil_iff.mpr fun note hmem => ?_
  obtain ⟨entry, rfl | rfl⟩ := of_mem_erasureNotes hmem <;> rfl

/-- Two links that are meant are a fault. -/
theorem erase_of_many (h : t.chains = some chains)
    (hmany : 2 ≤ ((chainAt chains (chainIndex chains.size hash)).meant live hash
      fun e => accepts e && removable e).length) :
    (t.erase live hash accepts removable).outcome = .error .duplicate := by
  rw [← List.length_map Link.referent, ← Chain.filter_candidates_eq_map] at hmany
  rw [erase, h]
  dsimp only
  split
  · next hnone =>
    rw [hnone, List.length_nil] at hmany
    omega
  · next hone =>
    rw [hone, List.length_singleton] at hmany
    omega
  · rfl

/-- Where one link is meant at most, it is taken out, and the chain is built anew if there is
anything to lose. -/
theorem erase_of_few (h : t.chains = some chains)
    (hfew : ((chainAt chains (chainIndex chains.size hash)).meant live hash
      fun e => accepts e && removable e).length ≤ 1) :
    let qualifies := fun e => accepts e && removable e
    let index := chainIndex chains.size hash
    let chain := chainAt chains index
    let taken := chain.meant live hash qualifies
    let lost := chain.cleared live + taken.length
    let o := t.erase live hash accepts removable
    o.outcome = .ok (taken.head?.map Link.referent) ∧
      (lost = 0 → o.table = t ∧ Note.messages o.notes = []) ∧
        (0 < lost → o.table = t.rebuild live
            (fun link => link.hash == hash && qualifies link.referent) index taken.length chains ∧
          Note.messages o.notes = [.rebuilt index (chain.cleared live)]) := by
  rw [erase, h]
  dsimp only
  rw [Chain.filter_candidates_eq_map]
  generalize (chainAt chains (chainIndex chains.size hash)).meant live hash
    (fun e => accepts e && removable e) = taken at hfew ⊢
  -- nothing is meant, one link is, or several are, against `hfew`
  rcases taken with - | ⟨link, - | ⟨other, rest⟩⟩
  · by_cases hcleared : (chainAt chains (chainIndex chains.size hash)).cleared live = 0
    · simp [hcleared, messages_erasureNotes]
    · simp [hcleared, messages_erasureNotes]
  · simp [messages_erasureNotes]
  · exact absurd hfew (by simp)

/-- A request to erase with nothing to lose leaves the table as it is. -/
theorem erase_of_spare (hcleared : (t.chain (chainIndex t.capacity hash)).cleared live = 0)
    (hunmet : ¬ ∃ link ∈ t.chain (chainIndex t.capacity hash),
      link.Meets live hash fun e => accepts e && removable e) :
    let o := t.erase live hash accepts removable
    o.outcome = .ok none ∧ o.table = t ∧ Note.messages o.notes = [] := by
  cases h : t.chains with
  | none =>
    rw [erase, h]
    exact ⟨rfl, rfl, rfl⟩
  | some chains =>
    rw [chain_of_chains h, capacity_of_chains h] at hcleared hunmet
    have hnone := Chain.meant_eq_nil_iff.mpr hunmet
    have hfew : ((chainAt chains (chainIndex chains.size hash)).meant live hash
        fun e => accepts e && removable e).length ≤ 1 := by
      rw [hnone]
      exact Nat.zero_le 1
    obtain ⟨houtcome, hspare, -⟩ := erase_of_few h hfew
    rw [hnone] at houtcome hspare
    exact ⟨houtcome, hspare (by rw [hcleared]; rfl)⟩

/-- A request to erase that is answered and has something to lose puts the living links that stay,
in reverse, in the place of its chain. -/
theorem Sound.erase_of_loss (hs : t.Sound) {result : Option α}
    (houtcome : (t.erase live hash accepts removable).outcome = .ok result)
    (hloss : 0 < (t.chain (chainIndex t.capacity hash)).cleared live ∨
      ∃ link ∈ t.chain (chainIndex t.capacity hash),
        link.Meets live hash fun e => accepts e && removable e) :
    let index := chainIndex t.capacity hash
    let chain := t.chain index
    let taken := chain.meant live hash fun e => accepts e && removable e
    let o := t.erase live hash accepts removable
    result = taken.head?.map Link.referent ∧ taken.length ≤ 1 ∧
      Replaces index ((chain.living live).filter fun link =>
        !(link.hash == hash && (accepts link.referent && removable link.referent))).reverse
          t o.table ∧
        o.table.size + (chain.cleared live + taken.length) = t.size ∧
          Note.messages o.notes = [.rebuilt index (chain.cleared live)] := by
  cases h : t.chains with
  | none =>
    rw [chain, h] at hloss
    rcases hloss with hcleared | ⟨link, hmem, -⟩
    · cases hcleared
    · cases hmem
  | some chains =>
    have hchains : t.chainsOrNew = .ok chains := by rw [chainsOrNew, h]
    have hindex : chainIndex chains.size hash < chains.size := chainIndex_lt (hs.size_pos h) hash
    -- from here on all is about the chain of the hash
    rw [capacity_of_chains h] at hloss ⊢
    simp only [chain_of_chains h] at hloss ⊢
    -- two that are meant would have kept the request from being answered
    have hfew : ((chainAt chains (chainIndex chains.size hash)).meant live hash
        fun e => accepts e && removable e).length ≤ 1 := by
      by_contra hmany
      rw [erase_of_many h (Nat.lt_of_not_le hmany)] at houtcome
      cases houtcome
    obtain ⟨hanswer, -, hrebuilt⟩ := erase_of_few h hfew
    obtain ⟨htable, htold⟩ := hrebuilt <| by
      rcases hloss with hcleared | hmet
      · omega
      · have hsome := List.length_pos_iff.mpr fun hnil => Chain.meant_eq_nil_iff.mp hnil hmet
        omega
    refine ⟨Except.ok.inj (houtcome.symm.trans hanswer), hfew, ?_, ?_, htold⟩
    · rw [htable]
      exact replaces_set hchains hindex _ _
    · -- the size covers the links of the chain
      have hle := hs.length_chainAt_le h hindex
      have hparts := Chain.length_living_add_cleared live
        (chainAt chains (chainIndex chains.size hash))
      have htaken : ((chainAt chains (chainIndex chains.size hash)).meant live hash
          fun e => accepts e && removable e).length
            ≤ ((chainAt chains (chainIndex chains.size hash)).living live).length :=
        List.length_filter_le _ _
      rw [htable, Table.rebuild]
      dsimp only
      omega

end Table

namespace TableSession

variable {τ : Type}

/-- What a request that does not make a table grow leaves alone, and what becomes of the one chain
that it is about, where the caller had asked for so many chains. -/
structure Framed (wanted : Nat) (s : TableSession) (hash : UInt64)
    (accepts removable : Key → Bool) (new : Key)
    (index : Nat) (chain : Chain Key) : Prop where
  /-- where there is room, a request to find or install that finds its entry leaves everything as
  it is -/
  found : s.table.size < s.table.capacity / 2 →
    (∃ link ∈ chain, link.Meets s.isLive hash accepts) →
      let o := s.table.obtain s.isLive hash accepts new
      (∃ entry, o.outcome = .ok ⟨entry, false⟩) ∧ o.table = s.table ∧ Note.messages o.notes = []
  /-- if it finds nothing, the chain is replaced by the new link and the living links in reverse,
  and the size counts the new link and no cleared ones -/
  missed : wanted ≤ 2 ^ 59 → s.table.size < s.table.capacity / 2 →
    (¬ ∃ link ∈ chain, link.Meets s.isLive hash accepts) →
      let o := s.table.obtain s.isLive hash accepts new
      o.outcome = .ok ⟨new, true⟩ ∧
        Table.Replaces index (⟨new, hash⟩ :: (chain.living s.isLive).reverse) s.table o.table ∧
          o.table.size + chain.cleared s.isLive = s.table.size + 1 ∧
            Note.messages o.notes = []
  /-- where more chains were asked for than can be allocated, it leaves everything as it is, too -/
  overflowed : 2 ^ 59 < wanted →
    s.table.obtain s.isLive hash accepts new = ⟨.error .overflow, s.table, []⟩
  /-- a request to erase that has nothing to take out and no cleared link to drop leaves everything
  as it is -/
  spared : chain.cleared s.isLive = 0 →
    (¬ ∃ link ∈ chain, link.Meets s.isLive hash fun key => accepts key && removable key) →
      let o := s.table.erase s.isLive hash accepts removable
      o.outcome = .ok none ∧ o.table = s.table ∧ Note.messages o.notes = []
  /-- any other that is answered replaces the chain by the living links in reverse, without the one
  that is taken out; the size goes down by the links that are lost, and the log is told -/
  erased : ∀ result,
    let o := s.table.erase s.isLive hash accepts removable
    o.outcome = .ok result →
      (0 < chain.cleared s.isLive ∨
        ∃ link ∈ chain, link.Meets s.isLive hash fun key => accepts key && removable key) →
        let taken : Chain Key := result.toList.map fun entry => ⟨entry, hash⟩
        ∃ before after, chain.living s.isLive = before ++ taken ++ after ∧
          (∀ link ∈ taken, link.Meets s.isLive hash fun key => accepts key && removable key) ∧
          (∀ link ∈ before ++ after,
            ¬ link.Meets s.isLive hash fun key => accepts key && removable key) ∧
          Table.Replaces index (before ++ after).reverse s.table o.table ∧
          o.table.size + (chain.cleared s.isLive + taken.length) = s.table.size ∧
          (Note.messages o.notes).map (fun message => (message.level, message.text))
            = [(.trace, "chain " ++ toString index ++ " rebuilt on removal: "
                ++ toString (chain.cleared s.isLive) ++ " cleared link(s) dropped")]

/-- Whatever was asked of a table before, a request that does not make it grow is about one chain
and leaves all else alone, for any hash and any tests. -/
theorem after_framed (passes : τ → Key → Bool) (request : Nat)
    (requests : List (TableRequest τ)) (hash : UInt64) (accepts removable : Key → Bool)
    (new : Key) :
    let s := (ofCapacity request).after passes requests
    let index := chainIndex s.table.capacity hash
    Framed request s hash accepts removable new index (s.table.chain index) := by
  have hs := (loaded passes request requests).sound
  have hfits := fits_after passes request requests
  have hoversized := isOversized_after passes request requests
  generalize (ofCapacity request).after passes requests = s at hs hfits hoversized
  dsimp only
  refine
    { found := fun hroomy hmet => Table.obtain_of_met hroomy hmet
      missed := fun h hroomy hunmet => hs.obtain_of_unmet (hfits h) hroomy hunmet
      overflowed := fun h => hs.obtain_of_oversized (hoversized.trans (decide_eq_true h)) _ _ _ _
      spared := fun hcleared hunmet => Table.erase_of_spare hcleared hunmet
      erased := fun result houtcome hloss => ?_ }
  obtain ⟨hresult, hfew, hreplaces, hsize, htold⟩ := hs.erase_of_loss houtcome hloss
  obtain ⟨before, after, hliving, hmeets, hothers, hkept, hlength⟩ :=
    Chain.exists_parts hfew hresult
  rw [hkept] at hreplaces
  rw [← hlength] at hsize
  exact ⟨before, after, hliving, hmeets, hothers, hreplaces, hsize, by rw [htold]; rfl⟩

/-- A chain loses a cleared link, and the others come out in reverse. -/
example :
    let chain : Chain Nat := [⟨3, 33⟩, ⟨2, 17⟩, ⟨1, 1⟩]
    let t : Table Nat := ⟨16, some ((Array.replicate 16 []).set! 1 chain), 3⟩
    let o := t.erase (· != 2) 1 (fun _ => false) fun _ => true
    o.table.links = [⟨1, 1⟩, ⟨3, 33⟩] ∧ o.table.size = 2 := by
  decide

end TableSession

end Ephemera
