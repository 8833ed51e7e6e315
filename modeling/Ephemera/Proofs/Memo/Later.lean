import Ephemera.Memo
import Ephemera.Proofs.Table.Sound

/-!
# Later memos

Slots are never given up. Whatever is done to a memo, sound or not, every slot stays at its
position, keeps its key, and its generation does not go back. This is what a ticket relies on
while a computation is under way. Nor does the number of chains change that the table was told to
start with, so a memo whose chains cannot be allocated stays one.
-/

namespace Ephemera

namespace Memo

variable {ν : Type} {m m' m'' : Memo ν}

/-- What is done to a memo can only add to it. -/
structure Later (m m' : Memo ν) : Prop where
  /-- every slot of `m` is there in `m'`, perhaps in a later stage -/
  slots : ∀ (position : Nat) (slot : Slot ν), m.slots[position]? = some slot →
    ∃ slot', m'.slots[position]? = some slot' ∧ slot'.key = slot.key ∧
      slot.generation ≤ slot'.generation
  /-- the table is to start with the same number of chains -/
  initial : m'.table.initial = m.table.initial

theorem Later.refl (m : Memo ν) : m.Later m where
  slots _ slot h := ⟨slot, h, rfl, Nat.le_refl _⟩
  initial := rfl

theorem Later.trans (h : m.Later m') (h' : m'.Later m'') : m.Later m'' where
  slots position slot hslot := by
    obtain ⟨slot', hslot', hkey, hle⟩ := h.slots position slot hslot
    obtain ⟨slot'', hslot'', hkey', hle'⟩ := h'.slots position slot' hslot'
    exact ⟨slot'', hslot'', hkey'.trans hkey, Nat.le_trans hle hle'⟩
  initial := h'.initial.trans h.initial

section

variable {table : Table Nat} (htable : table.initial = m.table.initial)

include htable

/-- Links may come and go. -/
theorem later_relink : m.Later { m with table } where
  slots _ slot h := ⟨slot, h, rfl, Nat.le_refl _⟩
  initial := htable

theorem later_push (slot : Slot ν) : m.Later ⟨table, m.slots.push slot⟩ := by
  refine ⟨fun position old hold => ?_, htable⟩
  obtain ⟨hlt, -⟩ := Array.getElem?_eq_some_iff.mp hold
  refine ⟨old, ?_, rfl, Nat.le_refl _⟩
  dsimp only
  rwa [Array.getElem?_push_lt hlt, ← Array.getElem?_eq_getElem hlt]

theorem later_replace {position : Nat} {slot slot' : Slot ν}
    (hslot : m.slots[position]? = some slot) (hkey : slot'.key = slot.key)
    (hle : slot.generation ≤ slot'.generation) :
    m.Later ⟨table, m.slots.setIfInBounds position slot'⟩ := by
  refine ⟨fun index old hold => ?_, htable⟩
  dsimp only
  by_cases heq : position = index
  · subst heq
    obtain rfl := Option.some.inj (hslot.symm.trans hold)
    obtain ⟨hlt, -⟩ := Array.getElem?_eq_some_iff.mp hold
    exact ⟨slot', Array.getElem?_setIfInBounds_self_of_lt hlt, hkey, hle⟩
  · rw [Array.getElem?_setIfInBounds_ne heq]
    exact ⟨old, hold, rfl, Nat.le_refl _⟩

end

theorem later_reserve (live : Key → Bool) (key : Key) (m : Memo ν) :
    m.Later (m.reserve live key).memo := by
  rw [reserve]
  dsimp only
  split
  · exact later_relink Table.initial_obtain
  · dsimp only
    split
    · exact later_push Table.initial_obtain _
    · exact later_relink Table.initial_obtain

theorem later_fill {position : Nat} {value : ν} (h : m.fill position value = .ok m') :
    m.Later m' := by
  rw [fill] at h
  split at h
  · cases h
    exact Later.refl m
  · next slot hslot =>
    rw [Slot.fill] at h
    split at h
    · cases h
      exact later_replace rfl hslot rfl (Nat.le_succ _)
    · cases h

theorem later_settle {ticket : Ticket} {value value' : ν}
    (h : m.settle ticket value = .settled value' m') : m.Later m' := by
  rw [settle] at h
  split at h
  · cases h
  · split at h
    · cases h
      exact Later.refl m
    · split at h
      · split at h
        · next hfill =>
          cases h
          exact later_fill hfill
        · cases h
      · cases h

theorem later_forget (live : Key → Bool) (key : Key) (m : Memo ν) :
    m.Later (m.forget live key).memo := by
  rw [forget]
  dsimp only
  split
  · exact later_relink Table.initial_erase
  · exact later_relink Table.initial_erase
  · split
    · exact later_relink Table.initial_erase
    · next slot hslot =>
      split
      · exact later_relink Table.initial_erase
      · next hempty =>
        rw [Slot.empty] at hempty
        split at hempty
        · cases hempty
          exact later_replace Table.initial_erase hslot rfl (Nat.le_succ _)
        · cases hempty

end Memo

end Ephemera
