import Ephemera.Memo
import Ephemera.Proofs.Table.Effect

/-!
# Sound memos

A slot goes through three stages: it was never filled, it has its value, it was emptied for
good. `Memo.Sound` relates these stages to the links. A linked slot is in one of the first two
stages and is linked once; as long as its key is alive, a slot in these stages stays linked; and
a key gets another slot only when its slots so far are in the last stage. So a key has at most
one slot that is not done with, its *current* one (`Current`), and a request for the key finds
that one and no other.

What a request does is said by cases, in terms of the current slot: `Reserves`, `Settles` and
`Forgets`. Each comes with the statement that the memo stays sound.
-/

namespace Ephemera

variable {ν : Type}

/-- Slots are filled once at most and emptied once at most. -/
structure Slot.Proper (s : Slot ν) : Prop where
  /-- never filled, filled, or emptied -/
  bounded : s.generation ≤ 2
  /-- there is a value in the middle of these stages -/
  filled : s.value.isSome = true ↔ s.generation = 1

namespace Slot

variable {s : Slot ν}

theorem proper_vacant (key : Key) : (vacant key : Slot ν).Proper where
  bounded := Nat.zero_le 2
  filled := by simp [vacant]

/-- The parity of the generation tells whether there is a value. -/
theorem Proper.isFilled_eq (h : s.Proper) : s.isFilled = s.value.isSome := by
  have hbounded := h.bounded
  have hparity : s.generation % 2 = 1 ↔ s.generation = 1 := by omega
  rw [Bool.eq_iff_iff, isFilled, beq_iff_eq, hparity, h.filled]

theorem Proper.generation_eq_one (h : s.Proper) {value : ν} (hvalue : s.value = some value) :
    s.generation = 1 := by
  apply h.filled.mp
  rw [hvalue]
  rfl

theorem Proper.value_eq_none (h : s.Proper) (hgeneration : s.generation ≠ 1) :
    s.value = none := by
  cases hvalue : s.value with
  | none => rfl
  | some value => exact absurd (h.generation_eq_one hvalue) hgeneration

theorem Proper.generation_ne_one (h : s.Proper) (hvalue : s.value = none) :
    s.generation ≠ 1 := by
  intro hgeneration
  have hfilled := h.filled.mpr hgeneration
  rw [hvalue] at hfilled
  cases hfilled

theorem Proper.exists_value (h : s.Proper) (hgeneration : s.generation = 1) :
    ∃ value, s.value = some value :=
  Option.isSome_iff_exists.mp (h.filled.mpr hgeneration)

end Slot

namespace Memo

variable {live live' : Key → Bool} {m : Memo ν} {key : Key} {position : Nat}

/-- The positions of the slots that are linked. -/
def positions (m : Memo ν) : List Nat :=
  m.table.links.map Link.referent

/-- The invariant of a memo, given which keys are alive. -/
structure Sound (live : Key → Bool) (m : Memo ν) : Prop where
  /-- the table is sound -/
  table : m.table.Sound
  /-- slots are filled once at most and emptied once at most -/
  proper : ∀ (position : Nat) (slot : Slot ν), m.slots[position]? = some slot → slot.Proper
  /-- links lead to slots that are not done with, under the hash of the key -/
  linked : ∀ link ∈ m.table.links, ∃ slot, m.slots[link.referent]? = some slot ∧
    link.hash = slot.key.hash ∧ slot.generation ≤ 1
  /-- no slot is linked twice -/
  once : m.positions.Nodup
  /-- a key gets another slot only when those that it has are done with -/
  latest : ∀ (earlier later : Nat) (slot slot' : Slot ν), earlier < later →
    m.slots[earlier]? = some slot → m.slots[later]? = some slot' →
    slot.key.address = slot'.key.address → slot.generation = 2
  /-- a slot that is not done with stays linked while its key is alive -/
  kept : ∀ (position : Nat) (slot : Slot ν), m.slots[position]? = some slot →
    live slot.key = true → slot.generation ≤ 1 → position ∈ m.positions

theorem sound_ofCapacity (live : Key → Bool) (request : Nat) :
    Sound live (ofCapacity request : Memo ν) where
  table := Table.sound_ofCapacity request
  proper position slot h := by simp [ofCapacity] at h
  linked _ h := nomatch h
  once := List.nodup_nil
  latest earlier later slot slot' _ h := by simp [ofCapacity] at h
  kept position slot h := by simp [ofCapacity] at h

/-- When keys die the memo stays sound. -/
theorem Sound.mono (hs : Sound live m)
    (h : ∀ (position : Nat) (slot : Slot ν), m.slots[position]? = some slot →
      live' slot.key = true → live slot.key = true) : Sound live' m :=
  { hs with
    kept := fun position slot hslot hlive => hs.kept position slot hslot (h _ _ hslot hlive) }

/-! ## The slot of a key -/

theorem slotIs_iff {test : Slot ν → Bool} :
    m.slotIs test position = true ↔
      ∃ slot, m.slots[position]? = some slot ∧ test slot = true := by
  rw [slotIs, Option.any_eq_true]

/-- The slot of a key that is not done with. -/
def Current (m : Memo ν) (key : Key) (position : Nat) : Prop :=
  ∃ slot, m.slots[position]? = some slot ∧ slot.key = key ∧ slot.generation ≤ 1

/-- A key is the only one with its address. -/
def Knows (m : Memo ν) (key : Key) : Prop :=
  ∀ (position : Nat) (slot : Slot ν), m.slots[position]? = some slot →
    slot.key.address = key.address → slot.key = key

theorem Sound.current_unique (hs : Sound live m) {position' : Nat} (h : m.Current key position)
    (h' : m.Current key position') : position = position' := by
  obtain ⟨slot, hslot, rfl, hgeneration⟩ := h
  obtain ⟨slot', hslot', hkey, hgeneration'⟩ := h'
  have haddress : slot'.key.address = slot.key.address := congrArg Key.address hkey
  rcases Nat.lt_trichotomy position position' with hlt | heq | hgt
  · have := hs.latest position position' slot slot' hlt hslot hslot' haddress.symm
    omega
  · exact heq
  · have := hs.latest position' position slot' slot hgt hslot' hslot haddress
    omega

/-- A key has one link at most. -/
theorem Sound.link_unique (hs : Sound live m) {link link' : Link Nat}
    (hlink : link ∈ m.table.links) (hlink' : link' ∈ m.table.links) {slot slot' : Slot ν}
    (hslot : m.slots[link.referent]? = some slot) (hslot' : m.slots[link'.referent]? = some slot')
    (hkey : slot.key = slot'.key) : link = link' := by
  obtain ⟨_, h, -, hgeneration⟩ := hs.linked link hlink
  obtain ⟨_, h', -, hgeneration'⟩ := hs.linked link' hlink'
  obtain rfl := Option.some.inj (hslot.symm.trans h)
  obtain rfl := Option.some.inj (hslot'.symm.trans h')
  have hreferent := hs.current_unique ⟨slot, hslot, rfl, hgeneration⟩
    ⟨slot', hslot', hkey.symm, hgeneration'⟩
  exact List.inj_on_of_nodup_map hs.once hlink hlink' hreferent

/-- The entries that a request for a key can mean. -/
def met (live : Key → Bool) (key : Key) (m : Memo ν) : List Nat :=
  (m.table.links.candidates (m.isLive live) key.hash).filter (m.isFor key)

/-- A request for a living key means its current slot. -/
theorem Sound.mem_met (hs : Sound live m) (hknows : m.Knows key) (hlive : live key = true) :
    position ∈ m.met live key ↔ m.Current key position := by
  rw [met, List.mem_filter, Chain.mem_candidates]
  constructor
  · rintro ⟨⟨hlink, -⟩, hfor⟩
    obtain ⟨slot, hslot, -, hgeneration⟩ := hs.linked _ hlink
    obtain ⟨_, hslot', hsame⟩ := slotIs_iff.mp hfor
    obtain rfl := Option.some.inj (hslot.symm.trans hslot')
    exact ⟨slot, hslot, hknows position slot hslot (Key.same_iff.mp hsame), hgeneration⟩
  · rintro ⟨slot, hslot, rfl, hgeneration⟩
    obtain ⟨⟨_, hash⟩, hlink, rfl⟩ :=
      List.mem_map.mp (hs.kept position slot hslot hlive hgeneration)
    obtain ⟨_, hslot', rfl, -⟩ := hs.linked _ hlink
    obtain rfl := Option.some.inj (hslot.symm.trans hslot')
    exact ⟨⟨hlink, slotIs_iff.mpr ⟨slot, hslot, hlive⟩⟩,
      slotIs_iff.mpr ⟨slot, hslot, Key.same_iff.mpr rfl⟩⟩

theorem Sound.met_of_current (hs : Sound live m) (hknows : m.Knows key) (hlive : live key = true)
    (h : m.Current key position) : m.met live key = [position] := by
  have hnodup : (m.met live key).Nodup := (Chain.nodup_candidates hs.once).filter _
  refine List.perm_singleton.mp
    ((List.perm_ext_iff_of_nodup hnodup (List.nodup_singleton position)).mpr ?_)
  intro position'
  rw [hs.mem_met hknows hlive, List.mem_singleton]
  constructor
  · intro h'
    exact hs.current_unique h' h
  · rintro rfl
    exact h

theorem Sound.met_of_not_current (hs : Sound live m) (hknows : m.Knows key)
    (hlive : live key = true) (h : ∀ position, ¬ m.Current key position) :
    m.met live key = [] := by
  refine List.eq_nil_iff_forall_not_mem.mpr fun position hmem => ?_
  exact h position ((hs.mem_met hknows hlive).mp hmem)

/-- A look finds what is in the current slot. -/
theorem Sound.value?_of_current (hs : Sound live m) (hknows : m.Knows key) (hlive : live key = true)
    (h : m.Current key position) : m.value? live key = m.valueAt position := by
  have hmet := hs.met_of_current hknows hlive h
  rw [met] at hmet
  rw [value?, Table.search]
  dsimp only
  rw [hs.table.candidates_eq, ← List.head?_filter, hmet]
  rfl

theorem Sound.value?_of_not_current (hs : Sound live m) (hknows : m.Knows key)
    (hlive : live key = true) (h : ∀ position, ¬ m.Current key position) :
    m.value? live key = none := by
  have hmet := hs.met_of_not_current hknows hlive h
  rw [met] at hmet
  rw [value?, Table.search]
  dsimp only
  rw [hs.table.candidates_eq, ← List.head?_filter, hmet]
  rfl

end Memo

end Ephemera
