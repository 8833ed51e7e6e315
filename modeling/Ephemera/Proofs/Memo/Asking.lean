import Ephemera.Proofs.Hash
import Ephemera.Proofs.Memo.Sound
import Ephemera.Proofs.Table.Agreement
import Ephemera.Proofs.Table.Lives
import Mathlib.Data.List.Find

/-!
# Whose slots are asked

A table puts the test of a request to candidates and to nothing else: to living entries that are
linked under the hash of the request. What the test would say of anything else has no influence, on
the answer or on the table. A memo links every slot under the hash of its key, and different
addresses have different hashes. So no two links of a memo have the same hash, and the question
whether a slot is the one of a key is put to the current slot of this key alone, be it by a look, by
a demand or by a removal. Any test does as well that lets the slots of the key pass
(`Sound.decides`).
-/

namespace Ephemera

/-- A search looks at nothing else than what there is. -/
theorem upTo_subset {α : Type} (hit : α → Bool) (n : Nat) (entries : List α) :
    upTo hit n entries ⊆ entries := by
  induction entries generalizing n with
  | nil => cases n <;> exact List.Subset.refl []
  | cons entry rest ih =>
    cases n with
    | zero => exact List.nil_subset _
    | succ n => exact List.cons_subset_cons entry (ih _)

theorem upTo_congr {α : Type} {hit hit' : α → Bool} {entries : List α}
    (h : ∀ entry ∈ entries, hit entry = hit' entry) (n : Nat) :
    upTo hit n entries = upTo hit' n entries := by
  induction entries generalizing n with
  | nil => cases n <;> rfl
  | cons entry rest ih =>
    cases n with
    | zero => rfl
    | succ n =>
      rw [upTo, upTo, h entry List.mem_cons_self,
        ih (fun other hmem => h other (List.mem_cons_of_mem entry hmem))]

namespace Table

variable {α : Type} {live accepts accepts' removable : α → Bool} {hash : UInt64} {new : α}
  {chains : Array (Chain α)} {t : Table α}

/-! ## What a table asks -/

theorem Sound.askings_search_subset (hs : t.Sound) :
    Note.askings (t.search live hash accepts).2 ⊆ t.links.candidates live hash := by
  rw [search, ← hs.candidates_eq, Note.askings_asked]
  exact upTo_subset accepts 1 _

/-- A table that grows stops at the second hit. -/
theorem Sound.askings_grow (hs : t.Sound) (h : t.chains = some chains) :
    Note.askings (t.grow live hash accepts new chains).notes
      = upTo accepts 2 (t.links.candidates live hash) := by
  unfold Table.grow
  dsimp only
  rw [Chain.candidates_living, ← links_of_chains h]
  split
  · simp only [redeal_of_sound hs h, Note.askings_append, Note.askings_asked, Note.askings_made,
      Note.askings_told, List.append_nil]
  · simp only [redeal_of_sound hs h, Note.askings_append, Note.askings_asked, Note.askings_told,
      List.append_nil]
  · rw [Note.askings_asked]

theorem Sound.askings_obtain_subset (hs : t.Sound) :
    Note.askings (t.obtain live hash accepts new).notes ⊆ t.links.candidates live hash := by
  cases hfits : isOversized t.initial with
  | true =>
    rw [hs.obtain_of_oversized hfits]
    exact List.nil_subset _
  | false =>
    rcases Nat.lt_or_ge t.size (t.capacity / 2) with hroomy | hcrowded
    · rw [hs.askings_obtain hroomy]
      exact hs.askings_search_subset
    · obtain ⟨chains, hchains, hs', hlinks⟩ := hs.chainsOrNew_eq hfits
      have hcandidates : ({ t with chains := some chains } : Table α).links = allLinks chains :=
        links_of_chains rfl
      rw [Table.obtain_of_crowded hchains hcrowded, hs'.askings_grow rfl, hcandidates, hlinks]
      exact upTo_subset accepts 2 _

theorem askings_erasureNotes (accepts removable : α → Bool) (entries : List α) :
    Note.askings (erasureNotes accepts removable entries)
      = upTo (fun entry => accepts entry && removable entry) 2 entries := by
  rw [erasureNotes]
  generalize upTo (fun entry => accepts entry && removable entry) 2 entries = looked
  induction looked with
  | nil => rfl
  | cons entry rest ih =>
    rw [List.flatMap_cons, Note.askings_append, ih]
    split <;> rfl

theorem Sound.askings_erase_subset (hs : t.Sound) :
    Note.askings (t.erase live hash accepts removable).notes ⊆ t.links.candidates live hash := by
  rw [Table.erase]
  split
  · exact List.nil_subset _
  · next chains h =>
    have hentries := hs.candidates_eq live hash
    rw [candidates_of_chains h] at hentries
    have hasked : Note.askings (erasureNotes accepts removable
        ((chainAt chains (chainIndex chains.size hash)).candidates live hash))
          ⊆ t.links.candidates live hash := by
      rw [askings_erasureNotes, ← hentries]
      exact upTo_subset _ 2 _
    dsimp only
    split
    · split
      · exact hasked
      · rwa [Note.askings_append, Note.askings_told, List.append_nil]
    · rwa [Note.askings_append, Note.askings_told, List.append_nil]
    · exact hasked

/-! ## Tests that agree on candidates -/

theorem erasureNotes_congr {entries : List α} (removable : α → Bool)
    (h : ∀ entry ∈ entries, accepts entry = accepts' entry) :
    erasureNotes accepts removable entries = erasureNotes accepts' removable entries := by
  have hqualifies : ∀ entry ∈ entries,
      (accepts entry && removable entry) = (accepts' entry && removable entry) :=
    fun entry hmem => by rw [h entry hmem]
  rw [erasureNotes, erasureNotes, upTo_congr hqualifies]
  exact List.flatMap_congr fun entry hmem => by rw [h entry (upTo_subset _ 2 _ hmem)]

/-- Nothing else than candidates is taken out. -/
theorem rebuild_congr {takes takes' : α → Bool} {index : Nat}
    (h : ∀ entry ∈ (chainAt chains index).candidates live hash, takes entry = takes' entry)
    (taken : Nat) :
    t.rebuild live (fun link => link.hash == hash && takes link.referent) index taken chains
      = t.rebuild live (fun link => link.hash == hash && takes' link.referent) index taken
        chains := by
  have hkept : ∀ link ∈ (chainAt chains index).living live,
      (!(link.hash == hash && takes link.referent))
        = !(link.hash == hash && takes' link.referent) := by
    rintro ⟨entry, own⟩ hmem
    obtain ⟨hmem, hlive⟩ := List.mem_filter.mp hmem
    by_cases hhash : own = hash
    · subst hhash
      rw [h entry (Chain.mem_candidates.mpr ⟨hmem, hlive⟩)]
    · rw [beq_eq_false_iff_ne.mpr hhash, Bool.false_and, Bool.false_and]
  rw [rebuild, rebuild, List.filter_congr hkept]

section

variable (hs : t.Sound)
  (h : ∀ entry ∈ t.links.candidates live hash, accepts entry = accepts' entry)

include hs h

theorem Sound.search_of_agree : t.search live hash accepts = t.search live hash accepts' := by
  rw [search, search, hs.candidates_eq, List.find?_congr h, upTo_congr h]

theorem Sound.obtain_of_agree (new : α) :
    t.obtain live hash accepts new = t.obtain live hash accepts' new := by
  cases hfits : isOversized t.initial with
  | true => rw [hs.obtain_of_oversized hfits, hs.obtain_of_oversized hfits]
  | false =>
    obtain ⟨chains, hchains, hs', hlinks⟩ := hs.chainsOrNew_eq hfits
    have hchain : (chainAt chains (chainIndex chains.size hash)).candidates live hash
        = t.links.candidates live hash := by
      rw [candidates_chainAt (hs'.placed chains rfl), hlinks]
    have hliving : ((allLinks chains).living live).candidates live hash
        = t.links.candidates live hash := by
      rw [Chain.candidates_living, hlinks]
    rw [Table.obtain, Table.obtain, hchains]
    simp only [Table.grow, Table.tidy, hchain, hliving, List.find?_congr h, List.filter_congr h,
      upTo_congr h]

theorem Sound.erase_of_agree (removable : α → Bool) :
    t.erase live hash accepts removable = t.erase live hash accepts' removable := by
  cases hchains : t.chains with
  | none => rw [Table.erase, Table.erase, hchains]
  | some chains =>
    have hchain : (chainAt chains (chainIndex chains.size hash)).candidates live hash
        = t.links.candidates live hash := by
      rw [← candidates_of_chains hchains, hs.candidates_eq]
    rw [← hchain] at h
    have hqualifies : ∀ entry ∈ (chainAt chains (chainIndex chains.size hash)).candidates live hash,
        (accepts entry && removable entry) = (accepts' entry && removable entry) :=
      fun entry hmem => by rw [h entry hmem]
    simp only [Table.erase, hchains, erasureNotes_congr removable h, List.filter_congr hqualifies,
      rebuild_congr hqualifies]

end

end Table

namespace Memo

variable {ν : Type} {live life : Key → Bool} {m : Memo ν} {key : Key} {position : Nat}

/-! ## Hashes of links -/

/-- A link under the hash of a key leads to the current slot of the key. -/
theorem Sound.current_of_hash (hs : Sound live m) (hknows : m.Knows key) {link : Link Nat}
    (hlink : link ∈ m.table.links) (hhash : link.hash = key.hash) :
    m.Current key link.referent := by
  obtain ⟨slot, hslot, hown, hgeneration⟩ := hs.linked link hlink
  have haddress : slot.key.address = key.address := addressHash_injective (hown.symm.trans hhash)
  exact ⟨slot, hslot, hknows link.referent slot hslot haddress, hgeneration⟩

theorem Sound.eq_of_hash (hs : Sound live m) (hknows : m.Knows key) {link link' : Link Nat}
    (hlink : link ∈ m.table.links) (hlink' : link' ∈ m.table.links) (hhash : link.hash = key.hash)
    (hhash' : link'.hash = key.hash) : link = link' := by
  have hreferent := hs.current_unique (hs.current_of_hash hknows hlink hhash)
    (hs.current_of_hash hknows hlink' hhash')
  exact List.inj_on_of_nodup_map hs.once hlink hlink' hreferent

/-! ## Slots that are asked -/

/-- The slots that a look asks whether they are the one of a key. -/
def askedByLook (live : Key → Bool) (key : Key) (m : Memo ν) : List Nat :=
  Note.askings (m.table.search (m.isLive live) key.hash (m.isFor key)).2

/-- The slots that a demand asks. -/
def askedByDemand (live : Key → Bool) (key : Key) (m : Memo ν) : List Nat :=
  Note.askings (m.table.obtain (m.isLive live) key.hash (m.isFor key) m.slots.size).notes

/-- The slots that a removal asks. -/
def askedByRemoval (live : Key → Bool) (key : Key) (m : Memo ν) : List Nat :=
  Note.askings (m.table.erase (m.isLive live) key.hash (m.isFor key) m.isFilled).notes

/-- Candidates are asked, and the current slot of the key is the only one. -/
theorem Sound.current_of_asked (hs : Sound live m) (hknows : m.Knows key)
    (h : position ∈ m.askedByLook life key ++ m.askedByDemand life key
      ++ m.askedByRemoval life key) : m.Current key position := by
  have hcandidate : position ∈ m.table.links.candidates (m.isLive life) key.hash := by
    rcases List.mem_append.mp h with h | h
    · rcases List.mem_append.mp h with h | h
      · exact hs.table.askings_search_subset h
      · exact hs.table.askings_obtain_subset h
    · exact hs.table.askings_erase_subset h
  exact hs.current_of_hash hknows (Chain.mem_candidates.mp hcandidate).1 rfl

/-! ## Tests in the place of the test for a key -/

/-- Requests for a key do the same with this test as with the test for the key. -/
structure Decides (m : Memo ν) (live : Key → Bool) (key : Key) (test : Nat → Bool) : Prop where
  /-- a look does -/
  look : m.table.search (m.isLive live) key.hash test
    = m.table.search (m.isLive live) key.hash (m.isFor key)
  /-- a demand does -/
  demand : m.table.obtain (m.isLive live) key.hash test m.slots.size
    = m.table.obtain (m.isLive live) key.hash (m.isFor key) m.slots.size
  /-- a removal does -/
  removal : m.table.erase (m.isLive live) key.hash test m.isFilled
    = m.table.erase (m.isLive live) key.hash (m.isFor key) m.isFilled

/-- What a test says of the slots of other keys has no influence. -/
theorem Sound.decides (hs : Sound live m) (hknows : m.Knows key) (life : Key → Bool)
    {test : Nat → Bool} (h : ∀ (position : Nat) (slot : Slot ν), m.slots[position]? = some slot →
      slot.key = key → test position = true) : m.Decides life key test := by
  have hagree : ∀ position ∈ m.table.links.candidates (m.isLive life) key.hash,
      test position = m.isFor key position := by
    intro position hmem
    obtain ⟨slot, hslot, hkey, -⟩ :=
      hs.current_of_hash hknows (Chain.mem_candidates.mp hmem).1 rfl
    have hfor : m.isFor key position = true :=
      slotIs_iff.mpr ⟨slot, hslot, Key.same_iff.mpr (congrArg Key.address hkey)⟩
    rw [h position slot hslot hkey, hfor]
  exact
    { look := hs.table.search_of_agree hagree
      demand := hs.table.obtain_of_agree hagree _
      removal := hs.table.erase_of_agree hagree _ }

end Memo

end Ephemera
