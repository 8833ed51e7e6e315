import Ephemera.Proofs.Table.Effect

/-!
# The two ways of a request

A request to find or install goes one of two ways. A *crowded* table, one with a link or more for
every other chain, grows; any other is made tidy. Here it is said, in equations, what comes of a
request on either way.

Tidying is a search, with an installation behind it if the search finds nothing (`tidy_of_some`,
`tidy_of_none`). Growing is refused where two candidates are accepted, and nothing at all happens
then (`grow_of_many`); otherwise the living links are dealt out to twice as many chains, the new
one last if there is need of it (`grow_of_few`). Nothing happens either where a table has no chains
and cannot get them. `Turns` puts all this together.
-/

namespace Ephemera

/-! ## Notes -/

/-- The entries that a test was put to, among notes. -/
def Note.askings {α : Type} (notes : List (Note α)) : List α :=
  notes.filterMap fun
    | asked entry => some entry
    | _ => none

namespace Note

variable {α : Type}

@[simp]
theorem askings_append (notes notes' : List (Note α)) :
    askings (notes ++ notes') = askings notes ++ askings notes' :=
  List.filterMap_append

@[simp]
theorem askings_made (entry : α) : askings [made entry] = [] := rfl

@[simp]
theorem askings_told (message : Message) : askings [(told message : Note α)] = [] := rfl

@[simp]
theorem askings_asked (entries : List α) : askings (entries.map asked) = entries := by
  induction entries with
  | nil => rfl
  | cons entry rest ih => exact congrArg (entry :: ·) ih

@[simp]
theorem messages_nil : messages ([] : List (Note α)) = [] := rfl

@[simp]
theorem messages_append (notes notes' : List (Note α)) :
    messages (notes ++ notes') = messages notes ++ messages notes' :=
  List.filterMap_append

@[simp]
theorem messages_asked (entries : List α) : messages (entries.map asked) = [] := by
  induction entries with
  | nil => rfl
  | cons entry rest ih => exact ih

@[simp]
theorem messages_made (entry : α) (notes : List (Note α)) :
    messages (made entry :: notes) = messages notes := rfl

@[simp]
theorem messages_told (message : Message) (notes : List (Note α)) :
    messages (told message :: notes) = message :: messages notes := rfl

end Note

namespace Table

variable {α : Type} {live accepts : α → Bool} {hash : UInt64} {new entry : α}
  {chains : Array (Chain α)} {t : Table α}

/-! ## Which way -/

theorem capacity_of_chains (h : t.chains = some chains) : t.capacity = chains.size := by
  rw [capacity, h]

/-- There are as many chains as was said there would be. -/
theorem size_of_chainsOrNew (h : t.chainsOrNew = .ok chains) : chains.size = t.capacity := by
  rw [chainsOrNew] at h
  split at h
  · next hnone =>
    rw [eq_replicate_of_emptyChains h, Array.size_replicate, capacity, hnone]
  · next hsome =>
    cases h
    rw [capacity_of_chains hsome]

/-- A crowded table grows. -/
theorem obtain_of_crowded (hchains : t.chainsOrNew = .ok chains)
    (hcrowded : t.capacity / 2 ≤ t.size) :
    t.obtain live hash accepts new
      = ({ t with chains := some chains } : Table α).grow live hash accepts new chains := by
  rw [obtain, hchains]
  dsimp only
  rw [size_of_chainsOrNew hchains, if_pos hcrowded]

/-- Any other table is made tidy. -/
theorem obtain_of_roomy (hchains : t.chainsOrNew = .ok chains)
    (hroomy : t.size < t.capacity / 2) :
    t.obtain live hash accepts new
      = ({ t with chains := some chains } : Table α).tidy live hash accepts new chains := by
  rw [obtain, hchains]
  dsimp only
  rw [size_of_chainsOrNew hchains, if_neg (Nat.not_le_of_lt hroomy)]

theorem Sound.initial_le_capacity (hs : t.Sound) : t.initial ≤ t.capacity := by
  cases h : t.chains with
  | none => rw [capacity, h]
  | some chains =>
    obtain ⟨k, hk⟩ := hs.doubled chains h
    rw [capacity_of_chains h, hk]
    exact Nat.le_mul_of_pos_right _ (Nat.two_pow_pos k)

/-- The chains can be halved in number. -/
theorem Sound.two_dvd_capacity (hs : t.Sound) (htwo : 2 ≤ t.initial) : 2 ∣ t.capacity := by
  obtain ⟨k, hk⟩ := isPowerOfTwo_iff.mp hs.isPowerOfTwo_capacity
  have hle := hs.initial_le_capacity
  cases k with
  | zero => omega
  | succ k => exact ⟨2 ^ k, by rw [hk, Nat.pow_succ, Nat.mul_comm]⟩

/-- A crowded table is one that is half full. -/
theorem Sound.crowded_iff (hs : t.Sound) (htwo : 2 ≤ t.initial) :
    t.capacity / 2 ≤ t.size ↔ t.capacity ≤ 2 * t.size := by
  have hdvd := hs.two_dvd_capacity htwo
  omega

/-- A crowded table has links, and so it has chains. -/
theorem Sound.exists_chains (hs : t.Sound) (htwo : 2 ≤ t.initial)
    (hcrowded : t.capacity / 2 ≤ t.size) : ∃ chains, t.chains = some chains := by
  cases h : t.chains with
  | some chains => exact ⟨chains, rfl⟩
  | none =>
    have hcount := hs.counted
    have hle := hs.initial_le_capacity
    rw [links, h, List.length_nil] at hcount
    omega

/-- A crowded table grows as it is: it need not get chains first. -/
theorem Sound.obtain_of_crowded (hs : t.Sound) (htwo : 2 ≤ t.initial)
    (hcrowded : t.capacity / 2 ≤ t.size) : ∃ chains, t.chains = some chains ∧
      ∀ live hash accepts new,
        t.obtain live hash accepts new = t.grow live hash accepts new chains := by
  obtain ⟨chains, h⟩ := hs.exists_chains htwo hcrowded
  have hsame : ({ t with chains := some chains } : Table α) = t := by rw [← h]
  refine ⟨chains, h, fun live hash accepts new => ?_⟩
  rw [Table.obtain_of_crowded (by rw [chainsOrNew, h]) hcrowded, hsame]

/-! ## Tidying -/

theorem candidates_of_chains (h : t.chains = some chains) : t.candidates live hash
    = (chainAt chains (chainIndex chains.size hash)).candidates live hash := by
  rw [candidates, h]

/-- Getting chains puts nothing in the way of a search. -/
theorem Sound.search_of_chainsOrNew (hs : t.Sound) (hfits : isOversized t.initial = false)
    (h : t.chainsOrNew = .ok chains) (live : α → Bool) (hash : UInt64) (accepts : α → Bool) :
    ({ t with chains := some chains } : Table α).search live hash accepts
      = t.search live hash accepts := by
  obtain ⟨chains', h', hs', hlinks⟩ := hs.chainsOrNew_eq hfits
  obtain rfl : chains' = chains := Except.ok.inj (h'.symm.trans h)
  have hsame : ({ t with chains := some chains' } : Table α).links = t.links := hlinks
  rw [search, search, hs'.candidates_eq, hs.candidates_eq, hsame]

/-- What a search finds is the answer, and it was found by searching. -/
theorem tidy_of_some (h : t.chains = some chains)
    (hfound : (t.search live hash accepts).1 = some entry) :
    t.tidy live hash accepts new chains =
      { outcome := .ok ⟨entry, false⟩
        table := t
        notes := (t.search live hash accepts).2 } := by
  rw [search, candidates_of_chains h] at hfound ⊢
  dsimp only at hfound
  rw [tidy]
  dsimp only
  rw [hfound]

/-- After a search in vain the new link is put in front of the living ones of its chain. -/
theorem tidy_of_none (h : t.chains = some chains)
    (hmissed : (t.search live hash accepts).1 = none) :
    let index := chainIndex chains.size hash
    let chain := chainAt chains index
    t.tidy live hash accepts new chains =
      { outcome := .ok ⟨new, true⟩
        table := { t with
          chains := some (chains.setIfInBounds index (⟨new, hash⟩ :: (chain.living live).reverse))
          size := t.size - chain.cleared live + 1 }
        notes := (t.search live hash accepts).2 ++ [.made new] } := by
  rw [search, candidates_of_chains h] at hmissed ⊢
  dsimp only at hmissed
  rw [tidy]
  dsimp only
  rw [hmissed]

/-! ## Growing -/

/-- The link that a request adds to a table: the new one, if no candidate is accepted. -/
def joining (live : α → Bool) (hash : UInt64) (accepts : α → Bool) (new : α) (t : Table α) :
    Chain α :=
  if ((t.links.candidates live hash).filter accepts).isEmpty then [⟨new, hash⟩] else []

theorem joining_of_nil (h : (t.links.candidates live hash).filter accepts = []) :
    t.joining live hash accepts new = [⟨new, hash⟩] := by
  rw [joining, h]
  rfl

theorem joining_of_cons {rest : List α}
    (h : (t.links.candidates live hash).filter accepts = entry :: rest) :
    t.joining live hash accepts new = [] := by
  rw [joining, h]
  rfl

/-- Where one candidate is accepted at most, the living links are dealt out to twice as many
chains, and nothing else is left. -/
theorem grow_of_few (hs : t.Sound) (h : t.chains = some chains) (new : α)
    (hfew : ((t.links.candidates live hash).filter accepts).length ≤ 1) :
    let dealt := t.links.living live ++ t.joining live hash accepts new
    let o := t.grow live hash accepts new chains
    (∃ entry, o.outcome = .ok entry) ∧
      o.table = { t with chains := some (deal (2 * chains.size) dealt), size := dealt.length } ∧
      Note.messages o.notes = [.resized chains.size (2 * chains.size) dealt.length] := by
  unfold grow
  dsimp only
  rw [Chain.candidates_living, ← links_of_chains h]
  split
  · next hnone =>
    rw [redeal_of_sound hs h, joining_of_nil hnone]
    exact ⟨⟨_, rfl⟩, rfl, by simp⟩
  · next entry hone =>
    rw [redeal_of_sound hs h, joining_of_cons hone]
    simp
  · next hmany =>
    rw [hmany, List.length_cons, List.length_cons] at hfew
    omega

/-- Two candidates that are accepted keep the table from growing, and it is left as it was. -/
theorem grow_of_many (h : t.chains = some chains) (new : α)
    (hmany : 2 ≤ ((t.links.candidates live hash).filter accepts).length) :
    let o := t.grow live hash accepts new chains
    o.outcome = .error .duplicate ∧ o.table = t ∧ Note.makings o.notes = [] := by
  unfold grow
  dsimp only
  rw [Chain.candidates_living, ← links_of_chains h]
  split
  · next hnone =>
    rw [hnone, List.length_nil] at hmany
    omega
  · next hone =>
    rw [hone, List.length_singleton] at hmany
    omega
  · exact ⟨rfl, rfl, by simp⟩

/-! ## How requests turn out -/

/-- How a request to find or install turns out, told by the load of the table. -/
inductive Turns (live : α → Bool) (hash : UInt64) (accepts : α → Bool) (t : Table α)
    (o : Obtained α) : Prop where
  /-- a crowded table is given twice as many chains -/
  | doubled (entry : Entry α)
      (hcrowded : t.capacity ≤ 2 * t.size)
      (hfew : ((t.links.candidates live hash).filter accepts).length ≤ 1)
      (houtcome : o.outcome = .ok entry)
      (hcapacity : o.table.capacity = 2 * t.capacity)
  /-- a crowded table with two candidates that are accepted is left as it was -/
  | refused
      (hcrowded : t.capacity ≤ 2 * t.size)
      (hmany : 2 ≤ ((t.links.candidates live hash).filter accepts).length)
      (houtcome : o.outcome = .error .duplicate)
      (htable : o.table = t)
      (hmade : Note.makings o.notes = [])
  /-- any other table has as many chains as before -/
  | tidied (entry : Entry α)
      (hfits : isOversized t.initial = false)
      (hroomy : 2 * t.size < t.capacity)
      (houtcome : o.outcome = .ok entry)
      (hcapacity : o.table.capacity = t.capacity)
  /-- only a table that has no chains and cannot get them is left as it was, without links -/
  | overflowed
      (hoversized : isOversized t.initial = true)
      (hlinks : t.links = [])
      (houtcome : o.outcome = .error .overflow)
      (htable : o.table = t)
      (hmade : Note.makings o.notes = [])

theorem tidy_turns (h : t.chains = some chains) (live : α → Bool) (hash : UInt64)
    (accepts : α → Bool) (new : α) :
    let o := t.tidy live hash accepts new chains
    (∃ entry, o.outcome = .ok entry) ∧ o.table.capacity = t.capacity := by
  dsimp only
  cases hfind : (t.search live hash accepts).1 with
  | some entry =>
    rw [tidy_of_some h hfind]
    exact ⟨⟨_, rfl⟩, rfl⟩
  | none =>
    rw [tidy_of_none h hfind, capacity_of_chains h]
    exact ⟨⟨_, rfl⟩, Array.size_setIfInBounds⟩

theorem Sound.turns_of_roomy (hs : t.Sound) (hfits : isOversized t.initial = false)
    (hroomy : t.size < t.capacity / 2) (live : α → Bool) (hash : UInt64) (accepts : α → Bool)
    (new : α) : Turns live hash accepts t (t.obtain live hash accepts new) := by
  obtain ⟨chains, hchains, -⟩ := hs.chainsOrNew_eq hfits
  have h : ({ t with chains := some chains } : Table α).chains = some chains := rfl
  have hcapacity : ({ t with chains := some chains } : Table α).capacity = t.capacity :=
    size_of_chainsOrNew hchains
  obtain ⟨⟨entry, houtcome⟩, hsame⟩ := tidy_turns h live hash accepts new
  rw [obtain_of_roomy hchains hroomy]
  exact .tidied entry hfits (by omega) houtcome (hsame.trans hcapacity)

theorem Sound.turns_of_crowded (hs : t.Sound) (htwo : 2 ≤ t.initial)
    (hcrowded : t.capacity / 2 ≤ t.size) (live : α → Bool) (hash : UInt64) (accepts : α → Bool)
    (new : α) : Turns live hash accepts t (t.obtain live hash accepts new) := by
  obtain ⟨chains, h, hgrow⟩ := hs.obtain_of_crowded htwo hcrowded
  have hcrowded' := (hs.crowded_iff htwo).mp hcrowded
  rw [hgrow]
  rcases Nat.lt_or_ge ((t.links.candidates live hash).filter accepts).length 2 with hfew | hmany
  · obtain ⟨⟨entry, houtcome⟩, htable, -⟩ := grow_of_few hs h new (Nat.le_of_lt_succ hfew)
    refine .doubled entry hcrowded' (Nat.le_of_lt_succ hfew) houtcome ?_
    rw [htable, capacity_of_chains h]
    exact size_deal ..
  · obtain ⟨houtcome, htable, hmade⟩ := grow_of_many h new hmany
    exact .refused hcrowded' hmany houtcome htable hmade

/-- How a request to find or install turns out. -/
theorem Sound.turns (hs : t.Sound) (htwo : 2 ≤ t.initial) (live : α → Bool) (hash : UInt64)
    (accepts : α → Bool) (new : α) :
    Turns live hash accepts t (t.obtain live hash accepts new) := by
  cases hfits : isOversized t.initial with
  | true =>
    rw [hs.obtain_of_oversized hfits]
    exact .overflowed hfits (hs.links_of_oversized hfits) rfl rfl rfl
  | false =>
    rcases Nat.lt_or_ge t.size (t.capacity / 2) with hroomy | hcrowded
    · exact hs.turns_of_roomy hfits hroomy live hash accepts new
    · exact hs.turns_of_crowded htwo hcrowded live hash accepts new

end Table

end Ephemera
