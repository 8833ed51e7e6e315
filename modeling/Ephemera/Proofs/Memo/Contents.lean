import Ephemera.Proofs.Memo.Effect
import Ephemera.Proofs.Memo.Later
import Mathlib.Logic.Function.Basic

/-!
# The contents of a memo

For each key a memo has a value or none (`valueOf`), and it has taken away the value of the key
some number of times (`removals`, the number of slots that the key is done with). Here is how
requests change these two, and how they are read off the memo: a look answers with the value,
and counting counts the living keys that have one. Tables and links no longer appear.

A ticket of generation zero tells whether the value of the key was taken away since it was
issued: its slot is done with if and only if there are more removals now
(`Sound.removals_eq`, `Sound.removals_ne`).
-/

namespace Ephemera

namespace Memo

variable {ν : Type} {live live' : Key → Bool} {m m' : Memo ν} {key : Key} {position : Nat}
  {slot slot' : Slot ν}

/-- The value of a key. -/
def valueOf (m : Memo ν) (key : Key) : Option ν :=
  m.slots.toList.findSome? fun slot => if slot.key = key then slot.value else none

/-- Whether a slot is one that a key is done with. -/
def isRemoval (key : Key) (slot : Slot ν) : Bool :=
  decide (slot.key = key ∧ slot.generation = 2)

theorem isRemoval_iff : isRemoval key slot = true ↔ slot.key = key ∧ slot.generation = 2 :=
  decide_eq_true_iff

/-- How often the value of a key was taken away. -/
def removals (m : Memo ν) (key : Key) : Nat :=
  m.slots.toList.countP (isRemoval key)

/-! ## Values -/

/-- A slot with a value is the current one of its key. -/
theorem Sound.current_of_value (hs : Sound live m) (hslot : m.slots[position]? = some slot)
    (hkey : slot.key = key) {value : ν} (hvalue : slot.value = some value) :
    m.Current key position :=
  ⟨slot, hslot, hkey, Nat.le_of_eq ((hs.proper position slot hslot).generation_eq_one hvalue)⟩

/-- The value of a key is in one of its slots, and in no other. -/
theorem Sound.valueOf_eq_some (hs : Sound live m) {value : ν} : m.valueOf key = some value ↔
    ∃ (position : Nat) (slot : Slot ν),
      m.slots[position]? = some slot ∧ slot.key = key ∧ slot.value = some value := by
  have hfind : ∀ value, m.valueOf key = some value → ∃ (position : Nat) (slot : Slot ν),
      m.slots[position]? = some slot ∧ slot.key = key ∧ slot.value = some value := by
    intro value h
    obtain ⟨slot, hmem, hvalue⟩ := List.exists_of_findSome?_eq_some h
    split at hvalue
    · next hkey =>
      obtain ⟨position, hslot⟩ := List.mem_iff_getElem?.mp hmem
      rw [Array.getElem?_toList] at hslot
      exact ⟨position, slot, hslot, hkey, hvalue⟩
    · cases hvalue
  constructor
  · exact hfind value
  · rintro ⟨position, slot, hslot, hkey, hvalue⟩
    cases hfound : m.valueOf key with
    | none =>
      have hmem : slot ∈ m.slots.toList := by
        rw [List.mem_iff_getElem?]
        exact ⟨position, by rwa [Array.getElem?_toList]⟩
      have hnone := List.findSome?_eq_none_iff.mp hfound slot hmem
      rw [if_pos hkey, hvalue] at hnone
      cases hnone
    | some value' =>
      obtain ⟨position', slot', hslot', hkey', hvalue'⟩ := hfind value' hfound
      -- both slots are current ones of the key, so they are the same
      obtain rfl := hs.current_unique (hs.current_of_value hslot hkey hvalue)
        (hs.current_of_value hslot' hkey' hvalue')
      obtain rfl := Option.some.inj (hslot.symm.trans hslot')
      exact hvalue'.symm.trans hvalue

theorem Sound.valueOf_of_slot (hs : Sound live m) (hslot : m.slots[position]? = some slot)
    (hkey : slot.key = key) (hgeneration : slot.generation ≤ 1) : m.valueOf key = slot.value := by
  refine Option.ext fun value => ?_
  rw [hs.valueOf_eq_some]
  constructor
  · rintro ⟨position', slot', hslot', hkey', hvalue⟩
    obtain rfl := hs.current_unique ⟨slot, hslot, hkey, hgeneration⟩
      (hs.current_of_value hslot' hkey' hvalue)
    obtain rfl := Option.some.inj (hslot.symm.trans hslot')
    exact hvalue
  · exact fun hvalue => ⟨position, slot, hslot, hkey, hvalue⟩

theorem Sound.valueOf_of_not_current (hs : Sound live m)
    (h : ∀ (position : Nat) (slot : Slot ν), m.slots[position]? = some slot → slot.key = key →
      slot.generation ≠ 1) : m.valueOf key = none := by
  refine Option.eq_none_iff_forall_ne_some.mpr fun value hvalue => ?_
  obtain ⟨position, slot, hslot, hkey, hfilled⟩ := hs.valueOf_eq_some.mp hvalue
  exact h position slot hslot hkey ((hs.proper position slot hslot).generation_eq_one hfilled)

/-- The value of a key is what is in its current slot. -/
theorem Sound.valueOf_of_current (hs : Sound live m) (h : m.Current key position) :
    m.valueOf key = m.valueAt position := by
  obtain ⟨slot, hslot, hkey, hgeneration⟩ := h
  rw [hs.valueOf_of_slot hslot hkey hgeneration, valueAt, hslot]
  rfl

/-- A look at a living key answers with its value. -/
theorem Sound.value?_eq (hs : Sound live m) (hknows : m.Knows key) (hlive : live key = true) :
    m.value? live key = m.valueOf key := by
  by_cases h : ∃ position, m.Current key position
  · obtain ⟨position, hcurrent⟩ := h
    rw [hs.value?_of_current hknows hlive hcurrent, hs.valueOf_of_current hcurrent]
  · have hnone := not_exists.mp h
    rw [hs.value?_of_not_current hknows hlive hnone]
    refine (hs.valueOf_of_not_current fun position slot hslot hkey hgeneration => ?_).symm
    exact hnone position ⟨slot, hslot, hkey, Nat.le_of_eq hgeneration⟩

/-! ## What requests change -/

theorem toList_eq (hslot : m.slots[position]? = some slot) : m.slots.toList
    = m.slots.toList.take position ++ slot :: m.slots.toList.drop (position + 1) := by
  obtain ⟨hlt, heq⟩ := Array.getElem?_eq_some_iff.mp hslot
  have hlength : position < m.slots.toList.length := by simpa using hlt
  have hdrop := List.drop_eq_getElem_cons hlength
  rw [Array.getElem_toList, heq] at hdrop
  rw [← hdrop, List.take_append_drop]

theorem toList_replace (hslot : m.slots[position]? = some slot) (slot' : Slot ν) :
    (m.slots.setIfInBounds position slot').toList
      = m.slots.toList.take position ++ slot' :: m.slots.toList.drop (position + 1) := by
  obtain ⟨hlt, -⟩ := Array.getElem?_eq_some_iff.mp hslot
  rw [Array.toList_setIfInBounds, List.set_eq_take_append_cons_drop, if_pos (by simpa using hlt)]

/-- The values of keys do not depend on slots without a value. -/
theorem Sound.valueOf_congr (hs : Sound live m) (hs' : Sound live' m')
    (h : ∀ (position : Nat) (slot : Slot ν), slot.key = key → slot.value.isSome = true →
      (m'.slots[position]? = some slot ↔ m.slots[position]? = some slot)) :
    m'.valueOf key = m.valueOf key := by
  refine Option.ext fun value => ?_
  rw [hs.valueOf_eq_some, hs'.valueOf_eq_some]
  constructor
  · rintro ⟨position, slot, hslot, hkey, hvalue⟩
    refine ⟨position, slot, (h position slot hkey ?_).mp hslot, hkey, hvalue⟩
    rw [hvalue]
    rfl
  · rintro ⟨position, slot, hslot, hkey, hvalue⟩
    refine ⟨position, slot, (h position slot hkey ?_).mpr hslot, hkey, hvalue⟩
    rw [hvalue]
    rfl

/-- A demand changes no contents. -/
theorem Reserves.contents {r : Reservation ν} (h : Reserves key m r) (hs : Sound live m)
    (hs' : Sound live' r.memo) : r.memo.valueOf = m.valueOf ∧ r.memo.removals = m.removals := by
  cases h with
  | present position value table hcurrent hvalue houtcome hmemo =>
    rw [hmemo]
    exact ⟨rfl, rfl⟩
  | vacant position slot table hslot hkey hgeneration houtcome hmemo =>
    rw [hmemo]
    exact ⟨rfl, rfl⟩
  | fresh table hnone houtcome hmemo =>
    rw [hmemo] at hs' ⊢
    constructor
    · funext key'
      -- the slot that is added is vacant, so no key has its value there
      refine hs.valueOf_congr hs' fun position slot hkey hvalue => ?_
      rw [Array.getElem?_push]
      split
      · next heq =>
        rw [heq, Array.getElem?_size]
        constructor
        · intro h
          obtain rfl := Option.some.inj h
          cases hvalue
        · intro h
          cases h
      · rfl
    · funext key'
      simp [removals, isRemoval, Slot.vacant]
  | overflowed hoversized hnone houtcome hmemo =>
    rw [hmemo]
    exact ⟨rfl, rfl⟩

/-- A current slot that goes to another stage has the value of its key then. -/
theorem Sound.valueOf_replace (hs : Sound live m) (hslot : m.slots[position]? = some slot)
    (hgeneration : slot.generation ≤ 1) (hkey : slot'.key = slot.key) {table : Table Nat}
    (hs' : Sound live' ⟨table, m.slots.setIfInBounds position slot'⟩) :
    (⟨table, m.slots.setIfInBounds position slot'⟩ : Memo ν).valueOf
      = Function.update m.valueOf slot.key slot'.value := by
  have hreplace := getElem?_replace hslot slot'
  funext key
  by_cases heq : key = slot.key
  · subst heq
    rw [Function.update_self]
    refine Option.ext fun value => ?_
    rw [hs'.valueOf_eq_some]
    constructor
    · rintro ⟨index, other, hother, hotherkey, hvalue⟩
      dsimp only at hother
      rw [hreplace] at hother
      split at hother
      · obtain rfl := Option.some.inj hother
        exact hvalue
      · next hne =>
        -- another slot of the key would have to be its current one
        exact absurd (hs.current_unique ⟨slot, hslot, rfl, hgeneration⟩
          (hs.current_of_value hother hotherkey hvalue)) hne
    · intro hvalue
      refine ⟨position, slot', ?_, hkey, hvalue⟩
      dsimp only
      rw [hreplace, if_pos rfl]
  · rw [Function.update_of_ne heq]
    refine hs.valueOf_congr hs' fun index other hotherkey _ => ?_
    dsimp only
    rw [hreplace]
    split
    · next hindex =>
      subst hindex
      constructor
      · intro h
        obtain rfl := Option.some.inj h
        exact absurd (hotherkey.symm.trans hkey) heq
      · intro h
        obtain rfl := Option.some.inj (hslot.symm.trans h)
        exact absurd hotherkey.symm heq
    · rfl

/-- The removals of a key are those before a slot, this one perhaps, and those after it. -/
theorem removals_eq (hslot : m.slots[position]? = some slot) (key : Key) : m.removals key
    = (m.slots.toList.take position).countP (isRemoval key)
      + ((m.slots.toList.drop (position + 1)).countP (isRemoval key)
        + if isRemoval key slot = true then 1 else 0) := by
  have := congrArg (List.countP (isRemoval key)) (toList_eq hslot)
  rwa [List.countP_append, List.countP_cons] at this

theorem removals_replace (hslot : m.slots[position]? = some slot)
    (hgeneration : slot.generation ≤ 1) (hkey : slot'.key = slot.key) (table : Table Nat) :
    (⟨table, m.slots.setIfInBounds position slot'⟩ : Memo ν).removals
      = if slot'.generation = 2 then Function.update m.removals slot.key (m.removals slot.key + 1)
        else m.removals := by
  have hbefore : slot.generation ≠ 2 := by omega
  funext key
  -- only the slot at this position can make a difference
  have hold := removals_eq hslot key
  rw [if_neg fun h => hbefore (isRemoval_iff.mp h).2, Nat.add_zero] at hold
  have hnew : (⟨table, m.slots.setIfInBounds position slot'⟩ : Memo ν).removals key
      = m.removals key + if isRemoval key slot' = true then 1 else 0 := by
    have := congrArg (List.countP (isRemoval key)) (toList_replace hslot slot')
    rw [List.countP_append, List.countP_cons, ← Nat.add_assoc, ← hold] at this
    exact this
  rw [hnew]
  by_cases hdone : slot'.generation = 2
  · rw [if_pos hdone]
    by_cases heq : slot.key = key
    · subst heq
      rw [Function.update_self, if_pos (isRemoval_iff.mpr ⟨hkey, hdone⟩)]
    · have hother : ¬ isRemoval key slot' = true := fun h =>
        heq (hkey.symm.trans (isRemoval_iff.mp h).1)
      rw [Function.update_of_ne (Ne.symm heq), if_neg hother, Nat.add_zero]
  · rw [if_neg hdone, if_neg fun h => hdone (isRemoval_iff.mp h).2, Nat.add_zero]

/-- Filling a slot is giving its key the value. -/
theorem Sound.contents_fill (hs : Sound live m) (hslot : m.slots[position]? = some slot)
    (hgeneration : slot.generation = 0) (value : ν) :
    let m' : Memo ν :=
      { m with slots := m.slots.setIfInBounds position (filledWith slot value) }
    m'.valueOf = Function.update m.valueOf slot.key (some value) ∧ m'.removals = m.removals := by
  have hbounded : slot.generation ≤ 1 := by omega
  have hkey : (filledWith slot value).key = slot.key := rfl
  exact ⟨hs.valueOf_replace hslot hbounded hkey (hs.fill hslot hgeneration value),
    removals_replace hslot hbounded hkey m.table⟩

/-- Taking a value away leaves the key without one, and is one more removal. -/
theorem Forgets.contents {c : Clearing ν} (h : Forgets key m c) (hs : Sound live m)
    (hs' : Sound live' c.memo) :
    (∃ value, m.valueOf key = some value ∧ c.outcome = .ok true ∧
      c.memo.valueOf = Function.update m.valueOf key none ∧
        c.memo.removals = Function.update m.removals key (m.removals key + 1)) ∨
    m.valueOf key = none ∧ c.outcome = .ok false ∧ c.memo.valueOf = m.valueOf ∧
      c.memo.removals = m.removals := by
  cases h with
  | taken position slot table hslot hkey hgeneration houtcome hmemo =>
    subst hkey
    rw [hmemo] at hs' ⊢
    have hbounded : slot.generation ≤ 1 := Nat.le_of_eq hgeneration
    obtain ⟨value, hvalue⟩ := (hs.proper position slot hslot).exists_value hgeneration
    have hkey : (emptied slot).key = slot.key := rfl
    refine .inl ⟨value, ?_, houtcome, hs.valueOf_replace hslot hbounded hkey hs',
      removals_replace hslot hbounded hkey table⟩
    rw [hs.valueOf_of_slot hslot rfl hbounded, hvalue]
  | missed table hnone houtcome hmemo =>
    rw [hmemo]
    exact .inr ⟨hs.valueOf_of_not_current hnone, houtcome, rfl, rfl⟩

/-! ## What tickets tell -/

/-- The key of a slot is done with all of its slots before that one. -/
theorem Sound.countP_before (hs : Sound live m) (hslot : m.slots[position]? = some slot) :
    (m.slots.toList.take position).countP (isRemoval slot.key)
      = (m.slots.toList.take position).countP fun other => decide (other.key = slot.key) := by
  refine List.countP_congr fun other hmem => ?_
  obtain ⟨index, hindex⟩ := List.mem_iff_getElem?.mp hmem
  rw [List.getElem?_take] at hindex
  split at hindex
  · next hlt =>
    rw [Array.getElem?_toList] at hindex
    rw [isRemoval_iff, decide_eq_true_eq]
    exact and_iff_left_of_imp fun hkey =>
      hs.latest index position other slot hlt hindex hslot (congrArg Key.address hkey)
  · cases hindex

/-- While a slot is not done with, the removals of its key are the slots before it. -/
theorem Sound.removals_of_current (hs : Sound live m) (hslot : m.slots[position]? = some slot)
    (hgeneration : slot.generation ≤ 1) : m.removals slot.key
      = (m.slots.toList.take position).countP fun other => decide (other.key = slot.key) := by
  have hafter : (m.slots.toList.drop (position + 1)).countP (isRemoval slot.key) = 0 := by
    refine List.countP_eq_zero.mpr fun other hmem hremoval => ?_
    obtain ⟨index, hindex⟩ := List.mem_iff_getElem?.mp hmem
    rw [List.getElem?_drop, Array.getElem?_toList] at hindex
    have hkey := (isRemoval_iff.mp hremoval).1
    have := hs.latest position (position + 1 + index) slot other (by omega) hslot hindex
      (congrArg Key.address hkey.symm)
    omega
  have hself : ¬ isRemoval slot.key slot = true := by
    rw [isRemoval_iff]
    omega
  rw [removals_eq hslot, hs.countP_before hslot, hafter, if_neg hself, Nat.add_zero]

/-- Once a slot is done with, there are more removals of its key than slots before it. -/
theorem Sound.removals_of_done (hs : Sound live m) (hslot : m.slots[position]? = some slot)
    (hgeneration : slot.generation = 2) :
    (m.slots.toList.take position).countP (fun other => decide (other.key = slot.key))
      < m.removals slot.key := by
  have hself : isRemoval slot.key slot = true := isRemoval_iff.mpr ⟨rfl, hgeneration⟩
  rw [removals_eq hslot, hs.countP_before hslot, if_pos hself]
  omega

/-- Later slots have the keys of earlier ones. -/
theorem Later.countP_take (h : m.Later m') (hslot : m.slots[position]? = some slot) (key : Key) :
    (m'.slots.toList.take position).countP (fun other => decide (other.key = key))
      = (m.slots.toList.take position).countP fun other => decide (other.key = key) := by
  have hkeys : (m'.slots.toList.take position).map Slot.key
      = (m.slots.toList.take position).map Slot.key := by
    obtain ⟨hlt, -⟩ := Array.getElem?_eq_some_iff.mp hslot
    refine List.ext_getElem? fun index => ?_
    simp only [List.getElem?_map, List.getElem?_take, Array.getElem?_toList]
    split
    · next hindex =>
      have hold : m.slots[index]? = some m.slots[index] := Array.getElem?_eq_getElem (by omega)
      obtain ⟨slot', hslot', hkey, -⟩ := h.slots index _ hold
      rw [hold, hslot', Option.map_some, Option.map_some, hkey]
    · rfl
  have := congrArg (List.countP fun other => decide (other = key)) hkeys
  rwa [List.countP_map, List.countP_map] at this

/-- As long as the slot of a ticket is not done with, nothing was taken away. -/
theorem Sound.removals_eq (hs : Sound live m) (hs' : Sound live' m') (hlater : m.Later m')
    (hslot : m.slots[position]? = some slot) (hgeneration : slot.generation ≤ 1)
    (hslot' : m'.slots[position]? = some slot') (hgeneration' : slot'.generation ≤ 1) :
    m'.removals slot.key = m.removals slot.key := by
  obtain ⟨_, hfound, hkey, -⟩ := hlater.slots position slot hslot
  obtain rfl := Option.some.inj (hslot'.symm.trans hfound)
  rw [hs.removals_of_current hslot hgeneration, ← hkey,
    hs'.removals_of_current hslot' hgeneration', hlater.countP_take hslot]

/-- When the slot of a ticket is done with, something was taken away. -/
theorem Sound.removals_ne (hs : Sound live m) (hs' : Sound live' m') (hlater : m.Later m')
    (hslot : m.slots[position]? = some slot) (hgeneration : slot.generation ≤ 1)
    (hslot' : m'.slots[position]? = some slot') (hgeneration' : slot'.generation = 2) :
    m'.removals slot.key ≠ m.removals slot.key := by
  obtain ⟨_, hfound, hkey, -⟩ := hlater.slots position slot hslot
  obtain rfl := Option.some.inj (hslot'.symm.trans hfound)
  have hlt := hs'.removals_of_done hslot' hgeneration'
  rw [hlater.countP_take hslot, hkey] at hlt
  rw [hs.removals_of_current hslot hgeneration]
  exact Nat.ne_of_gt hlt

/-! ## Counting -/

/-- The linked slots of living keys that have a value. -/
def filledPositions (live : Key → Bool) (m : Memo ν) : List Nat :=
  ((m.table.links.living (m.isLive live)).map Link.referent).filter m.isFilled

theorem Sound.nodup_filledPositions (hs : Sound live m) : (m.filledPositions live).Nodup :=
  (hs.once.sublist (List.filter_sublist.map Link.referent)).filter _

theorem Sound.mem_filledPositions (hs : Sound live m) :
    position ∈ m.filledPositions live ↔ ∃ slot, m.slots[position]? = some slot ∧
      slot.generation = 1 ∧ live slot.key = true := by
  rw [filledPositions, List.mem_filter, List.mem_map]
  constructor
  · rintro ⟨⟨link, hlink, rfl⟩, hfilled⟩
    obtain ⟨hmem, halive⟩ := List.mem_filter.mp hlink
    obtain ⟨slot, hslot, hlive⟩ := slotIs_iff.mp halive
    obtain ⟨slot', hslot', hodd⟩ := slotIs_iff.mp hfilled
    obtain rfl := Option.some.inj (hslot.symm.trans hslot')
    have hproper := hs.proper _ slot hslot
    rw [hproper.isFilled_eq] at hodd
    exact ⟨slot, hslot, hproper.filled.mp hodd, hlive⟩
  · rintro ⟨slot, hslot, hgeneration, hlive⟩
    obtain ⟨link, hlink, rfl⟩ := List.mem_map.mp
      (hs.kept position slot hslot hlive (Nat.le_of_eq hgeneration))
    have hproper := hs.proper _ slot hslot
    refine ⟨⟨link, List.mem_filter.mpr ⟨hlink, slotIs_iff.mpr ⟨slot, hslot, hlive⟩⟩, rfl⟩, ?_⟩
    refine slotIs_iff.mpr ⟨slot, hslot, ?_⟩
    rw [hproper.isFilled_eq]
    exact hproper.filled.mpr hgeneration

/-- The number of living keys with a value, among keys that are all different and include
those of all slots. -/
theorem Sound.count_eq (hs : Sound live m) {keys : List Key} (hnodup : keys.Nodup)
    (hknown : ∀ (position : Nat) (slot : Slot ν), m.slots[position]? = some slot →
      slot.key ∈ keys) :
    m.count live = keys.countP fun key => live key && (m.valueOf key).isSome := by
  -- the keys at filled positions are the keys to be counted, in another order
  let keyAt : Nat → Option Key := fun position => m.slots[position]?.map Slot.key
  let owners := keys.filter fun key => live key && (m.valueOf key).isSome
  have hkeyAt : ((m.filledPositions live).map keyAt).Nodup := by
    refine List.Nodup.map_on ?_ hs.nodup_filledPositions
    intro position hmem position' hmem' heq
    obtain ⟨slot, hslot, hgeneration, -⟩ := hs.mem_filledPositions.mp hmem
    obtain ⟨slot', hslot', hgeneration', -⟩ := hs.mem_filledPositions.mp hmem'
    simp only [keyAt, hslot, hslot', Option.map_some, Option.some.injEq] at heq
    exact hs.current_unique ⟨slot, hslot, heq, Nat.le_of_eq hgeneration⟩
      ⟨slot', hslot', rfl, Nat.le_of_eq hgeneration'⟩
  have howners : (owners.map some).Nodup := (hnodup.filter _).map fun _ _ => Option.some.inj
  have hperm : ((m.filledPositions live).map keyAt).Perm (owners.map some) := by
    refine (List.perm_ext_iff_of_nodup hkeyAt howners).mpr fun owner => ?_
    rw [List.mem_map, List.mem_map]
    constructor
    · rintro ⟨position, hmem, rfl⟩
      obtain ⟨slot, hslot, hgeneration, hlive⟩ := hs.mem_filledPositions.mp hmem
      have hvalue := hs.valueOf_of_slot hslot rfl (Nat.le_of_eq hgeneration)
      refine ⟨slot.key, List.mem_filter.mpr ⟨hknown position slot hslot, ?_⟩, ?_⟩
      · rw [hlive, hvalue, Bool.true_and]
        exact (hs.proper position slot hslot).filled.mpr hgeneration
      · simp only [keyAt, hslot, Option.map_some]
    · rintro ⟨key, hmem, rfl⟩
      obtain ⟨-, hboth⟩ := List.mem_filter.mp hmem
      obtain ⟨hlive, hsome⟩ := Bool.and_eq_true_iff.mp hboth
      obtain ⟨value, hvalue⟩ := Option.isSome_iff_exists.mp hsome
      obtain ⟨position, slot, hslot, rfl, hfilled⟩ := hs.valueOf_eq_some.mp hvalue
      have hgeneration := (hs.proper position slot hslot).generation_eq_one hfilled
      refine ⟨position, hs.mem_filledPositions.mpr ⟨slot, hslot, hgeneration, hlive⟩, ?_⟩
      simp only [keyAt, hslot, Option.map_some]
  have hlength := hperm.length_eq
  rw [List.length_map, List.length_map] at hlength
  rw [count, Table.count, List.countP_eq_length_filter, List.countP_eq_length_filter]
  exact hlength

end Memo

end Ephemera
