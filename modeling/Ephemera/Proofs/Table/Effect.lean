import Ephemera.Proofs.Table.Sound

/-!
# What requests do to the links of a table

`Obtains` and `Erases` say all there is to say about a request to a sound table without a word
on chains: which entry is answered, what happens to the links as a whole, and whether a new
entry is made. A caller of the table takes cases on them and need not look inside. Whatever
path a request goes, the entries that it chooses from are the candidates among all links.
`Obtains` is about tables that have chains or can get them; of others `Sound.obtain_of_oversized`
says all there is to say.
-/

namespace Ephemera

/-- The entries that were made, among notes. -/
def Note.makings {α : Type} (notes : List (Note α)) : List α :=
  notes.filterMap fun
    | made entry => some entry
    | _ => none

namespace Note

variable {α : Type}

@[simp]
theorem makings_nil : makings ([] : List (Note α)) = [] := rfl

@[simp]
theorem makings_append (notes notes' : List (Note α)) :
    makings (notes ++ notes') = makings notes ++ makings notes' :=
  List.filterMap_append

@[simp]
theorem makings_asked (entries : List α) : makings (entries.map asked) = [] := by
  induction entries with
  | nil => rfl
  | cons entry rest ih => exact ih

@[simp]
theorem makings_made (entry : α) (notes : List (Note α)) :
    makings (made entry :: notes) = entry :: makings notes := rfl

@[simp]
theorem makings_told (message : Message) (notes : List (Note α)) :
    makings (told message :: notes) = makings notes := rfl

end Note

namespace Table

variable {α : Type} {live accepts removable : α → Bool} {hash : UInt64} {new : α}
  {chains : Array (Chain α)} {t : Table α}

/-! ## Finding or installing -/

/-- What a request to find or install leads to. -/
inductive Obtains (live : α → Bool) (hash : UInt64) (accepts : α → Bool) (new : α)
    (t : Table α) (o : Obtained α) : Prop where
  /-- the first candidate that is accepted is the answer; only cleared links may go -/
  | found (entry : α) (rest : List α)
      (hentries : (t.links.candidates live hash).filter accepts = entry :: rest)
      (houtcome : o.outcome = .ok ⟨entry, false⟩)
      (hlinks : Chain.Sheds live t.links o.table.links)
      (hmade : Note.makings o.notes = [])
  /-- no candidate is accepted, so the new entry is made and linked -/
  | installed (rest : Chain α)
      (hentries : (t.links.candidates live hash).filter accepts = [])
      (houtcome : o.outcome = .ok ⟨new, true⟩)
      (hlinks : o.table.links.Perm (⟨new, hash⟩ :: rest))
      (hrest : Chain.Sheds live t.links rest)
      (hmade : Note.makings o.notes = [new])
  /-- two candidates are accepted, and nothing happens -/
  | refused (entry entry' : α) (rest : List α)
      (hentries : (t.links.candidates live hash).filter accepts = entry :: entry' :: rest)
      (houtcome : o.outcome = .error .duplicate)
      (hlinks : o.table.links = t.links)
      (hmade : Note.makings o.notes = [])

theorem grow_obtains (hs : t.Sound) (h : t.chains = some chains) :
    Obtains live hash accepts new t (t.grow live hash accepts new chains) := by
  have hpos : 0 < 2 * chains.size := by
    have := hs.size_pos h
    omega
  have hlinks := links_of_chains h
  unfold grow
  dsimp only
  rw [Chain.candidates_living, ← hlinks]
  split
  · next hnone =>
    rw [redeal_of_sound hs h]
    refine .installed (t.links.living live) hnone rfl ?_ (Chain.sheds_living live _) (by simp)
    exact (allLinks_deal_perm hpos _).trans (List.perm_append_singleton _ _)
  · next entry hone =>
    rw [redeal_of_sound hs h]
    refine .found entry [] hone rfl ?_ (by simp)
    exact (Chain.sheds_living live _).trans_perm (allLinks_deal_perm hpos _).symm
  · next entry entry' rest htwo => exact .refused entry entry' rest htwo rfl rfl (by simp)

theorem tidy_obtains (hs : t.Sound) (h : t.chains = some chains) :
    Obtains live hash accepts new t (t.tidy live hash accepts new chains) := by
  have hindex := chainIndex_lt (hs.size_pos h) hash
  have hlinks := links_of_chains h
  unfold tidy
  dsimp only
  rw [candidates_chainAt (hs.placed chains h), ← hlinks]
  split
  · next entry hfind =>
    obtain ⟨rest, hrest⟩ : ∃ rest,
        (t.links.candidates live hash).filter accepts = entry :: rest := by
      rw [← List.head?_filter] at hfind
      exact ⟨_, List.eq_cons_of_mem_head? hfind⟩
    exact .found entry rest hrest rfl (Chain.Sheds.refl _) (by simp)
  · next hfind =>
    obtain ⟨before, after, hall, hset, -⟩ := allLinks_split hindex
    -- the chain is replaced where it stands, so the links on either side are as before
    let chain := chainAt chains (chainIndex chains.size hash)
    refine .installed (before ++ (chain.living live).reverse ++ after) ?_ rfl ?_ ?_ (by simp)
    · rwa [← List.head?_filter, List.head?_eq_none_iff] at hfind
    · change (allLinks (chains.setIfInBounds _ _)).Perm _
      rw [hset, List.append_assoc, List.cons_append, List.append_assoc]
      exact List.perm_middle
    · rw [hlinks, hall]
      exact ((Chain.sheds_living live chain).trans_perm (List.reverse_perm _).symm).append

/-- What a request to find or install does to a sound table that has chains or can get them. -/
theorem Sound.obtains (hs : t.Sound) (hfits : isOversized t.initial = false) (live : α → Bool)
    (hash : UInt64) (accepts : α → Bool) (new : α) :
    Obtains live hash accepts new t (t.obtain live hash accepts new) := by
  obtain ⟨chains, hchains, hs', hlinks⟩ := hs.chainsOrNew_eq hfits
  have hcases : Obtains live hash accepts new { t with chains := some chains }
      (t.obtain live hash accepts new) := by
    rw [Table.obtain]
    rw [hchains]
    dsimp only
    split
    · exact grow_obtains hs' rfl
    · exact tidy_obtains hs' rfl
  -- the chains may be new, but they hold the same links
  have hsame : ({ t with chains := some chains } : Table α).links = t.links := hlinks
  cases hcases with
  | found entry rest hentries houtcome hlinks hmade =>
    rw [hsame] at hentries hlinks
    exact .found entry rest hentries houtcome hlinks hmade
  | installed rest hentries houtcome hlinks hrest hmade =>
    rw [hsame] at hentries hrest
    exact .installed rest hentries houtcome hlinks hrest hmade
  | refused entry entry' rest hentries houtcome hlinks hmade =>
    rw [hsame] at hentries hlinks
    exact .refused entry entry' rest hentries houtcome hlinks hmade

/-! ## Erasing -/

/-- What a request to erase leads to. -/
inductive Erases (live : α → Bool) (hash : UInt64) (accepts removable : α → Bool)
    (t : Table α) (o : Erased α) : Prop where
  /-- no candidate qualifies; only cleared links may go -/
  | missed
      (hentries : (t.links.candidates live hash).filter (fun e => accepts e && removable e) = [])
      (houtcome : o.outcome = .ok none)
      (hlinks : Chain.Sheds live t.links o.table.links)
  /-- one candidate qualifies, and its link goes -/
  | taken (entry : α)
      (hentries : (t.links.candidates live hash).filter (fun e => accepts e && removable e)
        = [entry])
      (houtcome : o.outcome = .ok (some entry))
      (hlinks : Chain.Sheds live t.links (⟨entry, hash⟩ :: o.table.links))
  /-- two candidates qualify, and nothing happens -/
  | refused (entry entry' : α) (rest : List α)
      (hentries : (t.links.candidates live hash).filter (fun e => accepts e && removable e)
        = entry :: entry' :: rest)
      (houtcome : o.outcome = .error .duplicate)
      (htable : o.table = t)

/-- Rebuilding a chain sheds its cleared links and parts with the links taken out. -/
theorem rebuild_sheds (h : t.chains = some chains) {index : Nat} (taken : Nat)
    (hindex : index < chains.size) {takes : Link α → Bool} {out : Chain α}
    (hout : ((chainAt chains index).living live).filter takes = out) :
    Chain.Sheds live t.links (out ++ (t.rebuild live takes index taken chains).links) := by
  obtain ⟨before, after, hall, hset, -⟩ := allLinks_split hindex
  let living := (chainAt chains index).living live
  let kept := living.filter fun link => !takes link
  have hparts : living.Perm (out ++ kept.reverse) := by
    rw [← hout]
    exact (List.filter_append_perm takes living).symm.trans
      ((List.reverse_perm kept).symm.append_left _)
  have hchain := (Chain.sheds_living live (chainAt chains index)).trans_perm hparts
  have hrebuilt : (t.rebuild live takes index taken chains).links
      = before ++ kept.reverse ++ after := hset kept.reverse
  rw [links_of_chains h, hall, hrebuilt]
  apply hchain.append.trans_perm
  rw [List.append_assoc before, List.append_assoc out, List.append_assoc before]
  exact List.perm_append_comm_assoc before out _

/-- While candidates are gone through nothing happens but that tests are put to them. -/
theorem of_mem_erasureNotes {entries : List α} {note : Note α}
    (h : note ∈ erasureNotes accepts removable entries) :
    ∃ entry, note = .asked entry ∨ note = .offered entry := by
  obtain ⟨entry, -, hnote⟩ := List.mem_flatMap.mp h
  split at hnote
  · exact ⟨entry, List.mem_pair.mp hnote⟩
  · exact ⟨entry, .inl (List.mem_singleton.mp hnote)⟩

theorem makings_erasureNotes (accepts removable : α → Bool) (entries : List α) :
    Note.makings (erasureNotes accepts removable entries) = [] := by
  refine List.filterMap_eq_nil_iff.mpr fun note hmem => ?_
  obtain ⟨entry, rfl | rfl⟩ := of_mem_erasureNotes hmem <;> rfl

/-- Erasing makes nothing. -/
theorem makings_erase (live : α → Bool) (hash : UInt64) (accepts removable : α → Bool)
    (t : Table α) : Note.makings (t.erase live hash accepts removable).notes = [] := by
  rw [erase]
  dsimp only
  repeat' split
  all_goals simp [makings_erasureNotes]

/-- What a request to erase does to a sound table. -/
theorem Sound.erases (hs : t.Sound) (live : α → Bool) (hash : UInt64)
    (accepts removable : α → Bool) :
    Erases live hash accepts removable t (t.erase live hash accepts removable) := by
  rw [Table.erase]
  split
  · next h =>
    have hlinks : t.links = [] := by rw [links, h]
    refine .missed ?_ rfl (Chain.Sheds.refl _)
    rw [hlinks]
    rfl
  · next chains h =>
    have hindex := chainIndex_lt (hs.size_pos h) hash
    have hcandidates := candidates_chainAt (hs.placed chains h) live hash
    have htakes := Chain.filter_candidates live hash (fun e => accepts e && removable e)
      (chainAt chains (chainIndex chains.size hash))
    dsimp only
    -- what qualifies stands in one chain, so the others are left alone
    rw [hcandidates, ← links_of_chains h] at htakes ⊢
    split
    · next hnone =>
      rw [hnone, eq_comm, List.map_eq_nil_iff] at htakes
      split
      · exact .missed hnone rfl (Chain.Sheds.refl _)
      · exact .missed hnone rfl (rebuild_sheds h 0 hindex htakes)
    · next entry hone =>
      rw [hone, eq_comm, List.map_eq_singleton_iff] at htakes
      obtain ⟨⟨referent, hash'⟩, hout, rfl⟩ := htakes
      have hmem : (⟨referent, hash'⟩ : Link α) ∈ [⟨referent, hash'⟩] := List.mem_singleton_self _
      rw [← hout, List.mem_filter, Bool.and_eq_true, beq_iff_eq] at hmem
      -- the link that is taken out was found under the hash that was asked for
      obtain rfl : hash' = hash := hmem.2.1
      exact .taken referent hone rfl (rebuild_sheds h 1 hindex hout)
    · next entry entry' rest htwo => exact .refused entry entry' rest htwo rfl rfl

end Table

end Ephemera
