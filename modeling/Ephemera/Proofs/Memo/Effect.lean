import Ephemera.Proofs.Memo.Sound

/-!
# What requests do to a memo

Every request is about one living key, and what comes of it depends on the current slot of this
key alone. A demand answers with the value there, or issues a ticket of generation zero for this
slot or for a new one. A value that is handed in for such a ticket goes into the slot if that
has not been filled since. And a value is taken away if there is one; the slot is then
unlinked and done with, and otherwise it stays where it is.

None of this meets a fault, but that a memo may have been told to start with more chains than can
be allocated. It meets no demand then, and stays empty.
-/

namespace Ephemera

namespace Memo

variable {ν : Type} {live : Key → Bool} {m : Memo ν} {key : Key} {position : Nat}
  {slot slot' : Slot ν}

/-- The slots with one of them replaced. -/
theorem getElem?_replace (h : m.slots[position]? = some slot) (slot' : Slot ν) (index : Nat) :
    (m.slots.setIfInBounds position slot')[index]?
      = if position = index then some slot' else m.slots[index]? := by
  obtain ⟨hlt, -⟩ := Array.getElem?_eq_some_iff.mp h
  rw [Array.getElem?_setIfInBounds]
  by_cases heq : position = index
  · rw [if_pos heq, if_pos heq, if_pos (heq ▸ hlt)]
  · rw [if_neg heq, if_neg heq]

/-! ## Demands -/

/-- A memo stays sound when cleared links go. -/
theorem Sound.shed (hs : Sound live m) {table : Table Nat} (htable : table.Sound)
    (hsheds : Chain.Sheds (m.isLive live) m.table.links table.links) :
    Sound live { m with table } where
  table := htable
  proper := hs.proper
  linked link h := hs.linked link (hsheds.subset h)
  once := hsheds.nodup_map hs.once
  latest := hs.latest
  kept position slot hslot hlive hgeneration := by
    obtain ⟨link, hlink, rfl⟩ := List.mem_map.mp (hs.kept position slot hslot hlive hgeneration)
    have hkept := hsheds.mem_of_live hlink (slotIs_iff.mpr ⟨slot, hslot, hlive⟩)
    exact List.mem_map_of_mem hkept

/-- A memo stays sound when a key without a current slot gets a new one. -/
theorem Sound.install (hs : Sound live m) (hknows : m.Knows key)
    (hnone : ∀ position, ¬ m.Current key position) {table : Table Nat} {rest : Chain Nat}
    (htable : table.Sound) (hlinks : table.links.Perm (⟨m.slots.size, key.hash⟩ :: rest))
    (hrest : Chain.Sheds (m.isLive live) m.table.links rest) :
    Sound live ⟨table, m.slots.push (.vacant key)⟩ := by
  have hcases : ∀ {position : Nat} {slot : Slot ν},
      (m.slots.push (.vacant key))[position]? = some slot →
        m.slots[position]? = some slot ∨ position = m.slots.size ∧ slot = .vacant key := by
    intro position slot h
    rw [Array.getElem?_push] at h
    split at h
    · next heq => exact .inr ⟨heq, (Option.some.inj h).symm⟩
    · exact .inl h
  have hnew : (m.slots.push (.vacant key))[m.slots.size]? = some (.vacant key) :=
    Array.getElem?_push_size
  have hold : ∀ {position : Nat} {slot : Slot ν}, m.slots[position]? = some slot →
      (m.slots.push (.vacant key))[position]? = some slot := by
    intro position slot h
    obtain ⟨hlt, -⟩ := Array.getElem?_eq_some_iff.mp h
    rwa [Array.getElem?_push_lt hlt, ← Array.getElem?_eq_getElem hlt]
  refine ⟨htable, ?_, ?_, ?_, ?_, ?_⟩
  · intro position slot hslot
    rcases hcases hslot with h | ⟨-, rfl⟩
    · exact hs.proper position slot h
    · exact Slot.proper_vacant key
  · intro link hlink
    rcases List.mem_cons.mp (hlinks.subset hlink) with rfl | h
    · exact ⟨_, hnew, rfl, Nat.zero_le 1⟩
    · obtain ⟨slot, hslot, hhash, hgeneration⟩ := hs.linked link (hrest.subset h)
      exact ⟨slot, hold hslot, hhash, hgeneration⟩
  · refine (hlinks.map Link.referent).nodup_iff.mpr
      (List.nodup_cons.mpr ⟨?_, hrest.nodup_map hs.once⟩)
    intro hmem
    obtain ⟨link, hlink, hsize⟩ := List.mem_map.mp hmem
    obtain ⟨slot, hslot, -⟩ := hs.linked link (hrest.subset hlink)
    obtain ⟨hlt, -⟩ := Array.getElem?_eq_some_iff.mp hslot
    exact Nat.ne_of_lt hlt hsize
  · intro earlier later slot slot' hlt hslot hslot' haddress
    rcases hcases hslot with h | ⟨rfl, -⟩
    · rcases hcases hslot' with h' | ⟨-, rfl⟩
      · exact hs.latest earlier later slot slot' hlt h h' haddress
      · -- were the earlier slot not done with, it would be the current slot of the key
        by_contra hgeneration
        have hbounded := (hs.proper earlier slot h).bounded
        exact hnone earlier ⟨slot, h, hknows earlier slot h haddress, by omega⟩
    · obtain ⟨hbound, -⟩ := Array.getElem?_eq_some_iff.mp hslot'
      rw [Array.size_push] at hbound
      omega
  · intro position slot hslot hlive hgeneration
    rcases hcases hslot with h | ⟨rfl, -⟩
    · obtain ⟨link, hlink, rfl⟩ := List.mem_map.mp (hs.kept position slot h hlive hgeneration)
      have hkept := hrest.mem_of_live hlink (slotIs_iff.mpr ⟨slot, h, hlive⟩)
      exact List.mem_map_of_mem (hlinks.symm.subset (List.mem_cons_of_mem _ hkept))
    · exact List.mem_map.mpr ⟨_, hlinks.symm.subset List.mem_cons_self, rfl⟩

/-- What a demand for a key leads to. -/
inductive Reserves (key : Key) (m : Memo ν) (r : Reservation ν) : Prop where
  /-- the key has its value -/
  | present (position : Nat) (value : ν) (table : Table Nat) (hcurrent : m.Current key position)
      (hvalue : m.valueAt position = some value)
      (houtcome : r.outcome = .ok (.value value)) (hmemo : r.memo = { m with table })
  /-- its slot was never filled -/
  | vacant (position : Nat) (slot : Slot ν) (table : Table Nat)
      (hslot : m.slots[position]? = some slot) (hkey : slot.key = key)
      (hgeneration : slot.generation = 0)
      (houtcome : r.outcome = .ok (.vacant ⟨position, 0⟩)) (hmemo : r.memo = { m with table })
  /-- it has no current slot and gets one -/
  | fresh (table : Table Nat) (hnone : ∀ position, ¬ m.Current key position)
      (houtcome : r.outcome = .ok (.vacant ⟨m.slots.size, 0⟩))
      (hmemo : r.memo = ⟨table, m.slots.push (.vacant key)⟩)
  /-- it has none and gets none, because no chains can be allocated -/
  | overflowed (hoversized : isOversized m.table.initial = true)
      (hnone : ∀ position, ¬ m.Current key position)
      (houtcome : r.outcome = .error .overflow) (hmemo : r.memo = m)

/-- A request for a living key means one slot at most. -/
theorem Sound.length_met_le (hs : Sound live m) (hknows : m.Knows key) (hlive : live key = true) :
    (m.met live key).length ≤ 1 := by
  by_cases h : ∃ position, m.Current key position
  · obtain ⟨position, hcurrent⟩ := h
    rw [hs.met_of_current hknows hlive hcurrent]
    exact Nat.le_refl 1
  · rw [hs.met_of_not_current hknows hlive (not_exists.mp h)]
    exact Nat.zero_le 1

/-- A memo whose chains cannot be allocated meets no demand, whichever keys are alive. -/
theorem Sound.reserve_of_oversized (hs : Sound live m)
    (hoversized : isOversized m.table.initial = true) (life : Key → Bool) (key : Key) :
    m.reserve life key = { outcome := .error .overflow, memo := m, messages := [] } := by
  rw [Memo.reserve, hs.table.obtain_of_oversized hoversized]
  rfl

theorem Sound.fits_of_reserve (hs : Sound live m) {life : Key → Bool} {access : Access ν}
    (houtcome : (m.reserve life key).outcome = .ok access) :
    isOversized m.table.initial = false := by
  rw [← Bool.not_eq_true]
  intro hoversized
  rw [hs.reserve_of_oversized hoversized] at houtcome
  cases houtcome

/-- Neither has a living key a current slot in it. -/
theorem Sound.not_current_of_oversized (hs : Sound live m)
    (hoversized : isOversized m.table.initial = true) (hlive : live key = true) (position : Nat) :
    ¬ m.Current key position := by
  rintro ⟨slot, hslot, rfl, hgeneration⟩
  have hmem := hs.kept position slot hslot hlive hgeneration
  rw [positions, hs.table.links_of_oversized hoversized] at hmem
  cases hmem

/-- A demand for a living key is met by the current slot if chains can be allocated. -/
theorem Sound.reserve_of_fits (hs : Sound live m) (hfits : isOversized m.table.initial = false)
    (hknows : m.Knows key) (hlive : live key = true) :
    Sound live (m.reserve live key).memo ∧ Reserves key m (m.reserve live key) := by
  have htable : (m.table.obtain (m.isLive live) key.hash (m.isFor key) m.slots.size).table.Sound :=
    hs.table.obtain
  rw [Memo.reserve]
  cases hs.table.obtains hfits (m.isLive live) key.hash (m.isFor key) m.slots.size with
  | found position rest hentries houtcome hlinks hmade =>
    have hcurrent : m.Current key position := by
      refine (hs.mem_met hknows hlive).mp ?_
      rw [met, hentries]
      exact List.mem_cons_self
    obtain ⟨slot, hslot, hkey, hgeneration⟩ := hcurrent
    have hproper := hs.proper position slot hslot
    simp only [houtcome, Bool.false_eq_true, if_false, hslot]
    refine ⟨hs.shed htable hlinks, ?_⟩
    cases hvalue : slot.value with
    | some value =>
      refine .present position value _ ⟨slot, hslot, hkey, hgeneration⟩ ?_ rfl rfl
      rw [valueAt, hslot]
      exact hvalue
    | none =>
      have hvacant : slot.generation = 0 := by
        have hne := hproper.generation_ne_one hvalue
        omega
      rw [hvacant]
      exact .vacant position slot _ hslot hkey hvacant rfl rfl
  | installed rest hentries houtcome hlinks hrest hmade =>
    have hnone : ∀ position, ¬ m.Current key position := by
      intro position hcurrent
      have := (hs.mem_met hknows hlive).mpr hcurrent
      rw [met, hentries] at this
      cases this
    simp only [houtcome, if_true, Array.getElem?_push_size]
    exact ⟨hs.install hknows hnone htable hlinks hrest, .fresh _ hnone rfl rfl⟩
  | refused position position' rest hentries =>
    -- a key has one current slot at most
    have hlength := hs.length_met_le hknows hlive
    rw [met, hentries] at hlength
    simp at hlength

/-- What a demand for a living key leads to depends on its current slot, and the memo stays
sound. -/
theorem Sound.reserve (hs : Sound live m) (hknows : m.Knows key) (hlive : live key = true) :
    Sound live (m.reserve live key).memo ∧ Reserves key m (m.reserve live key) := by
  cases hfits : isOversized m.table.initial with
  | true =>
    rw [hs.reserve_of_oversized hfits]
    exact ⟨hs, .overflowed hfits (hs.not_current_of_oversized hfits hlive) rfl rfl⟩
  | false => exact hs.reserve_of_fits hfits hknows hlive

/-! ## Slots that go to another stage -/

section

variable (hslot : m.slots[position]? = some slot) (hproper : slot'.Proper)
  (hkey : slot'.key = slot.key) (hlater : slot.generation ≤ slot'.generation)

include hslot hkey hlater

/-- Every slot is there as before, perhaps in an earlier stage. -/
theorem exists_of_replace {index : Nat} {other : Slot ν}
    (h : (m.slots.setIfInBounds position slot')[index]? = some other) :
    ∃ old, m.slots[index]? = some old ∧ other.key = old.key ∧
      old.generation ≤ other.generation := by
  rw [getElem?_replace hslot] at h
  split at h
  · next heq =>
    obtain rfl := Option.some.inj h
    exact ⟨slot, heq ▸ hslot, hkey, hlater⟩
  · exact ⟨other, h, rfl, Nat.le_refl _⟩

include hproper

omit hkey hlater in
theorem Sound.proper_replace (hs : Sound live m) {index : Nat} {other : Slot ν}
    (h : (m.slots.setIfInBounds position slot')[index]? = some other) : other.Proper := by
  rw [getElem?_replace hslot] at h
  split at h
  · obtain rfl := Option.some.inj h
    exact hproper
  · exact hs.proper index other h

theorem Sound.latest_replace (hs : Sound live m) {earlier later : Nat} {first second : Slot ν}
    (hlt : earlier < later)
    (hfirst : (m.slots.setIfInBounds position slot')[earlier]? = some first)
    (hsecond : (m.slots.setIfInBounds position slot')[later]? = some second)
    (haddress : first.key.address = second.key.address) : first.generation = 2 := by
  have hbounded := (hs.proper_replace hslot hproper hfirst).bounded
  obtain ⟨old, hold, hkey₁, hle⟩ := exists_of_replace hslot hkey hlater hfirst
  obtain ⟨old', hold', hkey₂, -⟩ := exists_of_replace hslot hkey hlater hsecond
  rw [hkey₁, hkey₂] at haddress
  have := hs.latest earlier later old old' hlt hold hold' haddress
  omega

/-- A memo stays sound when a slot goes to another stage, but not the last one. -/
theorem Sound.replace (hs : Sound live m) (hlinked : slot'.generation ≤ 1) :
    Sound live { m with slots := m.slots.setIfInBounds position slot' } where
  table := hs.table
  proper _ _ h := hs.proper_replace hslot hproper h
  linked link hlink := by
    obtain ⟨other, hother, hhash, hgeneration⟩ := hs.linked link hlink
    dsimp only
    rw [getElem?_replace hslot]
    split
    · next heq =>
      subst heq
      obtain rfl := Option.some.inj (hslot.symm.trans hother)
      exact ⟨slot', rfl, by rw [hkey, hhash], hlinked⟩
    · exact ⟨other, hother, hhash, hgeneration⟩
  once := hs.once
  latest _ _ _ _ hlt h h' := hs.latest_replace hslot hproper hkey hlater hlt h h'
  kept index other h hlive hgeneration := by
    obtain ⟨old, hold, hkey', hle⟩ := exists_of_replace hslot hkey hlater h
    rw [hkey'] at hlive
    exact hs.kept index old hold hlive (Nat.le_trans hle hgeneration)

/-- A memo stays sound when a slot is unlinked and goes to the last stage. -/
theorem Sound.unlink (hs : Sound live m) (hdone : slot'.generation = 2) {table : Table Nat}
    {hash : UInt64} (htable : table.Sound)
    (hsheds : Chain.Sheds (m.isLive live) m.table.links (⟨position, hash⟩ :: table.links)) :
    Sound live ⟨table, m.slots.setIfInBounds position slot'⟩ := by
  obtain ⟨hunlinked, honce⟩ := List.nodup_cons.mp (hsheds.nodup_map hs.once)
  refine
    { table := htable
      proper := fun _ _ h => hs.proper_replace hslot hproper h
      linked := ?_
      once := honce
      latest := fun _ _ _ _ hlt h h' => hs.latest_replace hslot hproper hkey hlater hlt h h'
      kept := ?_ }
  · intro link hlink
    obtain ⟨other, hother, hrest⟩ := hs.linked link (hsheds.subset (List.mem_cons_of_mem _ hlink))
    -- the slot itself is not linked any more, so links see no change
    have hne : position ≠ link.referent := by
      rintro rfl
      exact hunlinked (List.mem_map.mpr ⟨link, hlink, rfl⟩)
    dsimp only
    rw [getElem?_replace hslot, if_neg hne]
    exact ⟨other, hother, hrest⟩
  · intro index other h hlive hgeneration
    dsimp only at h
    rw [getElem?_replace hslot] at h
    split at h
    · obtain rfl := Option.some.inj h
      omega
    · next hne =>
      obtain ⟨link, hlink, rfl⟩ := List.mem_map.mp (hs.kept index other h hlive hgeneration)
      have hkept := hsheds.mem_of_live hlink (slotIs_iff.mpr ⟨other, h, hlive⟩)
      rcases List.mem_cons.mp hkept with rfl | hkept
      · exact absurd rfl hne
      · exact List.mem_map_of_mem hkept

end

/-! ## Values handed in -/

/-- The slot after it was filled. -/
def filledWith (slot : Slot ν) (value : ν) : Slot ν :=
  { slot with value := some value, generation := 1 }

theorem proper_filledWith (slot : Slot ν) (value : ν) : (filledWith slot value).Proper where
  bounded := Nat.le_succ 1
  filled := by simp [filledWith]

/-- Filling a slot that was never filled meets no fault. -/
theorem fill_eq (hslot : m.slots[position]? = some slot) (hgeneration : slot.generation = 0)
    (value : ν) : m.fill position value
      = .ok { m with slots := m.slots.setIfInBounds position (filledWith slot value) } := by
  simp [fill, Slot.fill, filledWith, hslot, hgeneration, Except.map]

theorem Sound.fill (hs : Sound live m) (hslot : m.slots[position]? = some slot)
    (hgeneration : slot.generation = 0) (value : ν) :
    Sound live { m with slots := m.slots.setIfInBounds position (filledWith slot value) } := by
  have hlater : slot.generation ≤ (filledWith slot value).generation := by
    rw [hgeneration]
    exact Nat.zero_le 1
  exact hs.replace hslot (proper_filledWith slot value) rfl hlater (Nat.le_refl 1)

/-- What handing in a value leads to. -/
inductive Settles (position : Nat) (value : ν) (m : Memo ν) : Settlement ν → Prop where
  /-- the slot was filled by someone else, and what is there wins -/
  | filled (slot : Slot ν) (earlier : ν) (hslot : m.slots[position]? = some slot)
      (hgeneration : slot.generation = 1) (hvalue : slot.value = some earlier) :
      Settles position value m (.settled earlier m)
  /-- the slot is as it was, and gets the value -/
  | vacant (slot : Slot ν) (hslot : m.slots[position]? = some slot)
      (hgeneration : slot.generation = 0) :
      Settles position value m
        (.settled value { m with slots := m.slots.setIfInBounds position (filledWith slot value) })
  /-- the slot is done with -/
  | outdated (slot : Slot ν) (hslot : m.slots[position]? = some slot)
      (hgeneration : slot.generation = 2) : Settles position value m .outdated

/-- A value that is handed in for a ticket of generation zero meets no fault. -/
theorem Sound.settles (hs : Sound live m) (hslot : m.slots[position]? = some slot) (value : ν) :
    Settles position value m (m.settle ⟨position, 0⟩ value) := by
  have hproper := hs.proper position slot hslot
  simp only [settle, hslot]
  cases hvalue : slot.value with
  | some earlier =>
    exact .filled slot earlier hslot (hproper.generation_eq_one hvalue) hvalue
  | none =>
    dsimp only
    by_cases hgeneration : slot.generation = 0
    · rw [if_pos hgeneration, fill_eq hslot hgeneration]
      exact .vacant slot hslot hgeneration
    · rw [if_neg hgeneration]
      have hne := hproper.generation_ne_one hvalue
      have hbounded := hproper.bounded
      exact .outdated slot hslot (by omega)

/-! ## Values taken away -/

/-- The slot after it was emptied. -/
def emptied (slot : Slot ν) : Slot ν :=
  { slot with value := none, generation := 2 }

theorem proper_emptied (slot : Slot ν) : (emptied slot).Proper where
  bounded := Nat.le_refl 2
  filled := by simp [emptied]

/-- What taking a value away leads to. -/
inductive Forgets (key : Key) (m : Memo ν) (c : Clearing ν) : Prop where
  /-- there was a value -/
  | taken (position : Nat) (slot : Slot ν) (table : Table Nat)
      (hslot : m.slots[position]? = some slot) (hkey : slot.key = key)
      (hgeneration : slot.generation = 1)
      (houtcome : c.outcome = .ok true)
      (hmemo : c.memo = ⟨table, m.slots.setIfInBounds position (emptied slot)⟩)
  /-- there was none -/
  | missed (table : Table Nat)
      (hnone : ∀ (position : Nat) (slot : Slot ν), m.slots[position]? = some slot →
        slot.key = key → slot.generation ≠ 1)
      (houtcome : c.outcome = .ok false) (hmemo : c.memo = { m with table })

/-- Taking away the value of a living key meets no fault, and the memo stays sound. -/
theorem Sound.forget (hs : Sound live m) (hknows : m.Knows key) (hlive : live key = true) :
    Sound live (m.forget live key).memo ∧ Forgets key m (m.forget live key) := by
  have htable : (m.table.erase (m.isLive live) key.hash (m.isFor key) m.isFilled).table.Sound :=
    hs.table.erase
  have hfilter : (m.table.links.candidates (m.isLive live) key.hash).filter
      (fun position => m.isFor key position && m.isFilled position)
      = (m.met live key).filter m.isFilled := by
    rw [met, List.filter_filter]
    exact List.filter_congr fun _ _ => Bool.and_comm _ _
  rw [Memo.forget]
  cases hs.table.erases (m.isLive live) key.hash (m.isFor key) m.isFilled with
  | missed hentries houtcome hlinks =>
    rw [hfilter] at hentries
    simp only [houtcome]
    refine ⟨hs.shed htable hlinks, .missed _ ?_ rfl rfl⟩
    intro position slot hslot hkey hgeneration
    have hmet := (hs.mem_met hknows hlive).mpr ⟨slot, hslot, hkey, Nat.le_of_eq hgeneration⟩
    have hfilled : m.isFilled position = true := by
      refine slotIs_iff.mpr ⟨slot, hslot, ?_⟩
      rw [Slot.isFilled, hgeneration]
      rfl
    have hmem := List.mem_filter.mpr ⟨hmet, hfilled⟩
    rw [hentries] at hmem
    cases hmem
  | taken position hentries houtcome hlinks =>
    -- the slot is the current one of the key, and it is filled, so its generation is 1
    rw [hfilter] at hentries
    have hmem : position ∈ (m.met live key).filter m.isFilled := by
      rw [hentries]
      exact List.mem_singleton_self position
    obtain ⟨hmet, hfilled⟩ := List.mem_filter.mp hmem
    obtain ⟨slot, hslot, hkey, hbounded⟩ := (hs.mem_met hknows hlive).mp hmet
    obtain ⟨_, hslot', hodd⟩ := slotIs_iff.mp hfilled
    obtain rfl := Option.some.inj (hslot.symm.trans hslot')
    have hgeneration : slot.generation = 1 := by
      rw [Slot.isFilled, beq_iff_eq] at hodd
      omega
    have hempty : slot.empty = .ok (emptied slot) := by
      simp [Slot.empty, emptied, hgeneration]
    simp only [houtcome, hslot, hempty]
    have hlater : slot.generation ≤ (emptied slot).generation := by
      rw [hgeneration]
      exact Nat.le_succ 1
    exact ⟨hs.unlink hslot (proper_emptied slot) rfl hlater rfl htable hlinks,
      .taken position slot _ hslot hkey hgeneration rfl rfl⟩
  | refused position position' rest hentries =>
    rw [hfilter] at hentries
    have hlength := Nat.le_trans (List.length_filter_le m.isFilled _)
      (hs.length_met_le hknows hlive)
    rw [hentries] at hlength
    simp at hlength

end Memo

end Ephemera
