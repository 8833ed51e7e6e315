import Ephemera.Proofs.Keyring
import Ephemera.Proofs.Memo.Effect
import Ephemera.Session.Memo

/-!
# Sound sessions

A key is alive for one of four reasons: its maker holds it, it is pinned, it is in use, or a
value keeps it. `MemoSession.Sound` says that the memo is sound for this notion of life, and
that all keys that have a part in it are on the ring. The ring tells keys apart by their
addresses, which is all that the memo looks at.

Nothing brings a key back to life. A key comes to be in use, is pinned, or gets a value only
while it is alive for another reason already; so the memo stays sound.
-/

namespace Ephemera

namespace MemoSession

variable {s : MemoSession} {inUse inUse' : List Key} {key : Key}

/-- The reasons for which a key is alive. -/
theorem isLive_iff : s.isLive inUse key = true ↔
    s.keys.holds key = true ∨ (∃ key' ∈ s.pinned, key'.address = key.address) ∨
      (∃ key' ∈ inUse, key'.address = key.address) ∨
        s.keeping = true ∧ ∃ (position : Nat) (slot : Slot String),
          s.memo.slots[position]? = some slot ∧ slot.value.isSome = true ∧
            slot.key.address = key.address := by
  have hkeeps : s.memo.keeps key = true ↔ ∃ (position : Nat) (slot : Slot String),
      s.memo.slots[position]? = some slot ∧ slot.value.isSome = true ∧
        slot.key.address = key.address := by
    rw [Memo.keeps, Array.any_eq_true]
    constructor
    · rintro ⟨position, hlt, h⟩
      rw [Bool.and_eq_true, Key.same_iff] at h
      exact ⟨position, _, Array.getElem?_eq_getElem hlt, h⟩
    · rintro ⟨position, slot, hslot, h⟩
      obtain ⟨hlt, rfl⟩ := Array.getElem?_eq_some_iff.mp hslot
      exact ⟨position, hlt, by rwa [Bool.and_eq_true, Key.same_iff]⟩
  simp only [isLive, Bool.or_eq_true, Bool.and_eq_true, List.any_eq_true, Key.same_iff, hkeeps,
    or_assoc]

theorem isLive_of_holds (h : s.keys.holds key = true) : s.isLive inUse key = true :=
  isLive_iff.mpr (.inl h)

theorem isLive_of_mem (h : key ∈ inUse) : s.isLive inUse key = true :=
  isLive_iff.mpr (.inr (.inr (.inl ⟨key, h, rfl⟩)))

/-- The invariant of a session, given which keys are in use. -/
structure Sound (inUse : List Key) (s : MemoSession) : Prop where
  /-- keys are numbered by their positions -/
  numbered : s.keys.Numbered
  /-- no two keys share an address -/
  distinct : s.keys.Distinct
  /-- slots are those of keys of the caller -/
  known : ∀ (position : Nat) (slot : Slot String), s.memo.slots[position]? = some slot →
    slot.key ∈ s.keys.keys
  /-- pinned keys are keys of the caller -/
  pinned : ∀ key ∈ s.pinned, key ∈ s.keys.keys
  /-- keys in use are keys of the caller -/
  used : ∀ key ∈ inUse, key ∈ s.keys.keys
  /-- the memo is sound -/
  memo : s.memo.Sound (s.isLive inUse)

theorem sound_ofCapacity (request : Nat) (scripts : Scripts) (keeping : Bool) :
    (ofCapacity request scripts keeping).Sound [] where
  numbered := Keyring.numbered_empty
  distinct := List.nodup_nil
  known position slot h := by simp [ofCapacity, Memo.ofCapacity] at h
  pinned _ h := nomatch h
  used _ h := nomatch h
  memo := Memo.sound_ofCapacity _ request

/-- A key of the caller is the only one with its address. -/
theorem Sound.knows (hs : s.Sound inUse) (hkey : key ∈ s.keys.keys) : s.memo.Knows key :=
  fun position slot hslot haddress =>
    hs.distinct.eq_of_address (hs.known position slot hslot) hkey haddress

/-! ## Keys in use -/

/-- Fewer keys may be in use at any time. -/
theorem Sound.sub (hs : s.Sound inUse) (hsub : inUse' ⊆ inUse) : s.Sound inUse' where
  numbered := hs.numbered
  distinct := hs.distinct
  known := hs.known
  pinned := hs.pinned
  used key h := hs.used key (hsub h)
  memo := by
    refine hs.memo.mono fun position slot hslot hlive => ?_
    rcases isLive_iff.mp hlive with h | h | ⟨key', hkey', haddress⟩ | h
    · exact isLive_iff.mpr (.inl h)
    · exact isLive_iff.mpr (.inr (.inl h))
    · exact isLive_iff.mpr (.inr (.inr (.inl ⟨key', hsub hkey', haddress⟩)))
    · exact isLive_iff.mpr (.inr (.inr (.inr h)))

/-- A living key may come to be in use. -/
theorem Sound.use (hs : s.Sound inUse) (hkey : key ∈ s.keys.keys)
    (hlive : s.isLive inUse key = true) : s.Sound (key :: inUse) where
  numbered := hs.numbered
  distinct := hs.distinct
  known := hs.known
  pinned := hs.pinned
  used := List.forall_mem_cons.mpr ⟨hkey, hs.used⟩
  memo := by
    refine hs.memo.mono fun position slot hslot hlive' => ?_
    rcases isLive_iff.mp hlive' with h | h | ⟨key', hkey', haddress⟩ | h
    · exact isLive_iff.mpr (.inl h)
    · exact isLive_iff.mpr (.inr (.inl h))
    · rcases List.mem_cons.mp hkey' with rfl | hkey'
      · rwa [hs.distinct.eq_of_address (hs.known position slot hslot) hkey haddress.symm]
      · exact isLive_iff.mpr (.inr (.inr (.inl ⟨key', hkey', haddress⟩)))
    · exact isLive_iff.mpr (.inr (.inr (.inr h)))

/-! ## What happens to the memo -/

/-- The memo may change as long as it stays sound, all slots are those of keys of the caller, and
a value goes only into the slot of a living key. -/
theorem Sound.setMemo (hs : s.Sound inUse) {memo : Memo String}
    (hmemo : memo.Sound (s.isLive inUse))
    (hslots : ∀ (position : Nat) (slot : Slot String), memo.slots[position]? = some slot →
      slot.key ∈ s.keys.keys ∧ (slot.value.isSome = true →
        s.keeping = true → s.isLive inUse slot.key = true)) :
    ({ s with memo } : MemoSession).Sound inUse where
  numbered := hs.numbered
  distinct := hs.distinct
  known position slot hslot := (hslots position slot hslot).1
  pinned := hs.pinned
  used := hs.used
  memo := by
    refine hmemo.mono fun position slot hslot hlive => ?_
    rcases isLive_iff.mp hlive with
      h | h | h | ⟨hkeeping, position', slot', hslot', hvalue, haddress⟩
    · exact isLive_iff.mpr (.inl h)
    · exact isLive_iff.mpr (.inr (.inl h))
    · exact isLive_iff.mpr (.inr (.inr (.inl h)))
    · obtain ⟨hkey, hlive'⟩ := hslots position' slot' hslot'
      rw [← hs.distinct.eq_of_address hkey (hslots position slot hslot).1 haddress]
      exact hlive' hvalue hkeeping

/-- What is in the slots of a session meets the conditions of `Sound.setMemo`. -/
theorem Sound.slot (hs : s.Sound inUse) {position : Nat} {slot : Slot String}
    (hslot : s.memo.slots[position]? = some slot) :
    slot.key ∈ s.keys.keys ∧ (slot.value.isSome = true →
      s.keeping = true → s.isLive inUse slot.key = true) :=
  ⟨hs.known position slot hslot, fun hvalue hkeeping =>
    isLive_iff.mpr (.inr (.inr (.inr ⟨hkeeping, position, slot, hslot, hvalue, rfl⟩)))⟩

/-- A demand for a key in use keeps a session sound. -/
theorem Sound.reserve (hs : s.Sound inUse) (hkey : key ∈ inUse) :
    ({ s with memo := (s.memo.reserve (s.isLive inUse) key).memo } : MemoSession).Sound inUse := by
  obtain ⟨hmemo, hreserves⟩ := hs.memo.reserve (hs.knows (hs.used key hkey)) (isLive_of_mem hkey)
  refine hs.setMemo hmemo fun position slot hslot => ?_
  cases hreserves with
  | present _ _ _ _ _ _ hmemo =>
    rw [hmemo] at hslot
    exact hs.slot hslot
  | vacant _ _ _ _ _ _ _ hmemo =>
    rw [hmemo] at hslot
    exact hs.slot hslot
  | fresh _ _ _ hmemo =>
    rw [hmemo, Array.getElem?_push] at hslot
    split at hslot
    · obtain rfl := Option.some.inj hslot
      exact ⟨hs.used key hkey, fun h => nomatch h⟩
    · exact hs.slot hslot
  | overflowed _ _ _ hmemo =>
    rw [hmemo] at hslot
    exact hs.slot hslot

/-- Filling the slot of a key in use keeps a session sound. -/
theorem Sound.fill (hs : s.Sound inUse) {position : Nat} {slot : Slot String}
    (hslot : s.memo.slots[position]? = some slot) (hgeneration : slot.generation = 0)
    (hkey : slot.key ∈ inUse) (value : String) :
    ({ s with
        memo :=
          { s.memo with
            slots := s.memo.slots.setIfInBounds position (Memo.filledWith slot value) } } :
      MemoSession).Sound inUse := by
  refine hs.setMemo (hs.memo.fill hslot hgeneration value) fun index other hother => ?_
  dsimp only at hother
  rw [Memo.getElem?_replace hslot] at hother
  split at hother
  · obtain rfl := Option.some.inj hother
    exact ⟨hs.known position slot hslot, fun _ _ => isLive_of_mem hkey⟩
  · exact hs.slot hother

/-- Taking the value of a living key away keeps a session sound. -/
theorem Sound.forget (hs : s.Sound inUse) (hkey : key ∈ s.keys.keys)
    (hlive : s.isLive inUse key = true) :
    ({ s with memo := (s.memo.forget (s.isLive inUse) key).memo } : MemoSession).Sound inUse := by
  obtain ⟨hmemo, hforgets⟩ := hs.memo.forget (hs.knows hkey) hlive
  refine hs.setMemo hmemo fun position slot hslot => ?_
  cases hforgets with
  | taken position' slot' _ hslot' _ _ _ hmemo =>
    rw [hmemo] at hslot
    dsimp only at hslot
    rw [Memo.getElem?_replace hslot'] at hslot
    split at hslot
    · obtain rfl := Option.some.inj hslot
      exact ⟨hs.known position' slot' hslot', fun h => nomatch h⟩
    · exact hs.slot hslot
  | missed _ _ _ hmemo =>
    rw [hmemo] at hslot
    exact hs.slot hslot

/-! ## What a caller does -/

/-- A living key may be pinned. -/
theorem Sound.pin (hs : s.Sound inUse) (hkey : key ∈ s.keys.keys)
    (hlive : s.isLive inUse key = true) :
    ({ s with pinned := key :: s.pinned } : MemoSession).Sound inUse where
  numbered := hs.numbered
  distinct := hs.distinct
  known := hs.known
  pinned := List.forall_mem_cons.mpr ⟨hkey, hs.pinned⟩
  used := hs.used
  memo := by
    refine hs.memo.mono fun position slot hslot hlive' => ?_
    rcases isLive_iff.mp hlive' with h | ⟨key', hkey', haddress⟩ | h
    · exact isLive_iff.mpr (.inl h)
    · rcases List.mem_cons.mp hkey' with rfl | hkey'
      · rwa [hs.distinct.eq_of_address (hs.known position slot hslot) hkey haddress.symm]
      · exact isLive_iff.mpr (.inr (.inl ⟨key', hkey', haddress⟩))
    · exact isLive_iff.mpr (.inr (.inr h))

/-- An action on keys keeps a session sound, if no address is used twice. -/
theorem Sound.perform (hs : s.Sound inUse) (action : KeyAction)
    (hdistinct : (s.keys.perform (s.isLive inUse) action).1.Distinct) :
    ({ s with keys := (s.keys.perform (s.isLive inUse) action).1 } : MemoSession).Sound inUse := by
  have hsubset := (s.keys.keys_perform (s.isLive inUse) action).subset
  refine
    { numbered := hs.numbered.perform _ action
      distinct := hdistinct
      known := fun position slot hslot => hsubset (hs.known position slot hslot)
      pinned := fun key h => hsubset (hs.pinned key h)
      used := fun key h => hsubset (hs.used key h)
      memo := ?_ }
  refine hs.memo.mono fun position slot hslot hlive => ?_
  rcases isLive_iff.mp hlive with h | h
  · exact Keyring.live_of_holds_perform hs.numbered (fun key _ => isLive_of_holds)
      (hs.known position slot hslot) h
  · exact isLive_iff.mpr (.inr h)

/-- Whatever a caller does keeps a session sound, if no address is used twice. -/
theorem Sound.act (hs : s.Sound inUse) (action : BriefAction)
    (hdistinct : (s.act inUse action).state.keys.Distinct) :
    (s.act inUse action).state.Sound inUse := by
  cases action with
  | key action => exact hs.perform action hdistinct
  | look name =>
    rw [MemoSession.act]
    split <;> exact hs
  | forget name =>
    rw [MemoSession.act]
    split
    · exact hs
    · next key hheld =>
      have hkey := Keyring.mem_keys_of_held? hheld
      have hholds := Keyring.holds_of_held? hheld
      dsimp only
      split
      · exact (hs.pin hkey (isLive_of_holds hholds)).forget hkey (isLive_of_holds hholds)
      · exact hs.forget hkey (isLive_of_holds hholds)
  | count | isEmpty | capacity | describe isExpanded => exact hs

/-- An action fails only where a name stands for nothing. -/
theorem Sound.act_fault (hs : s.Sound inUse) {action : BriefAction} {fault : Fault}
    (h : (s.act inUse action).result = .error fault) : ∃ name, fault = .unheld name := by
  cases action with
  | look name =>
    rw [MemoSession.act] at h
    split at h
    · exact ⟨name, (Except.error.inj h).symm⟩
    · cases h
  | forget name =>
    rw [MemoSession.act] at h
    split at h
    · exact ⟨name, (Except.error.inj h).symm⟩
    · next key hheld =>
      have hkey := Keyring.mem_keys_of_held? hheld
      have hlive : s.isLive inUse key = true := isLive_of_holds (Keyring.holds_of_held? hheld)
      -- a memo never refuses to forget, because a key has one slot
      have hforgets : ∀ {s : MemoSession}, s.Sound inUse → key ∈ s.keys.keys →
          s.isLive inUse key = true →
          ∃ taken, (s.memo.forget (s.isLive inUse) key).outcome = .ok taken := by
        intro s hs hkey hlive
        cases (hs.memo.forget (hs.knows hkey) hlive).2 with
        | taken _ _ _ _ _ _ houtcome _ => exact ⟨true, houtcome⟩
        | missed _ _ houtcome _ => exact ⟨false, houtcome⟩
      dsimp only at h
      split at h
      · obtain ⟨taken, houtcome⟩ := hforgets (hs.pin hkey hlive) hkey
          (isLive_of_holds (Keyring.holds_of_held? hheld))
        rw [houtcome] at h
        cases h
      · obtain ⟨taken, houtcome⟩ := hforgets hs hkey hlive
        rw [houtcome] at h
        cases h
  | key action => cases h
  | count | isEmpty | capacity | describe isExpanded => cases h

end MemoSession

end Ephemera
