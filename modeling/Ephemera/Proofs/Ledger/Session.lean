import Ephemera.Proofs.Ledger.Basic
import Ephemera.Proofs.Machine.Session
import Ephemera.Proofs.Memo.Contents

/-!
# The ledger of a session

`MemoSession.ledger` forgets everything about a session but its ledger. The two agree on which
keys are alive and on how many of these have a value, and whatever a caller does without
computing anything, it can do to the ledger as well, with the same answer.
-/

namespace Ephemera

/-- Only the lives of keys on the ring matter to an action. -/
theorem Keyring.perform_congr {r : Keyring} {live live' : Key → Bool}
    (h : ∀ key ∈ r.keys, live key = live' key) (action : KeyAction) :
    r.perform live action = r.perform live' action := by
  cases action with
  | make name text address => rfl
  | letGo name => rfl
  | alive name =>
    simp only [perform]
    cases hkey : r.key? name with
    | none => rfl
    | some key => simp only [Option.any_some, h key (mem_keys_of_key? hkey)]
  | retake name =>
    simp only [perform]
    cases hkey : r.key? name with
    | none => rfl
    | some key => simp only [h key (mem_keys_of_key? hkey)]

namespace MemoSession

variable {s : MemoSession} {inUse : List Key} {key : Key}

/-- The ledger of a session. -/
def ledger (s : MemoSession) : Ledger where
  keys := s.keys
  values := s.memo.valueOf
  removals := s.memo.removals
  scripts := s.scripts
  calls := s.calls
  keeping := s.keeping
  pinned := s.pinned
  barred := isOversized s.memo.table.initial

@[simp]
theorem keys_ledger (s : MemoSession) : s.ledger.keys = s.keys := rfl

theorem ledger_ofCapacity (request : Nat) (scripts : Scripts) (keeping : Bool) :
    (ofCapacity request scripts keeping).ledger = .empty request scripts keeping := by
  rw [Ledger.empty, ← isOversized_roundedCapacity]
  rfl

/-- A session and its ledger agree on which keys are alive. -/
theorem Sound.isLive_ledger (hs : s.Sound inUse) (hkey : key ∈ s.keys.keys) :
    s.ledger.isLive inUse key = s.isLive inUse key := by
  -- a key is told by its address, as long as it is one of the ring
  have hmem : ∀ {keys : List Key}, (∀ key' ∈ keys, key' ∈ s.keys.keys) →
      (key ∈ keys ↔ ∃ key' ∈ keys, key'.address = key.address) := by
    intro keys hkeys
    constructor
    · exact fun h => ⟨key, h, rfl⟩
    · rintro ⟨key', hkey', haddress⟩
      rwa [← hs.distinct.eq_of_address (hkeys key' hkey') hkey haddress]
  have hvalue : (s.memo.valueOf key).isSome = true ↔ ∃ (position : Nat) (slot : Slot String),
      s.memo.slots[position]? = some slot ∧ slot.value.isSome = true ∧
        slot.key.address = key.address := by
    constructor
    · intro h
      obtain ⟨value, hvalue⟩ := Option.isSome_iff_exists.mp h
      obtain ⟨position, slot, hslot, rfl, hfilled⟩ := hs.memo.valueOf_eq_some.mp hvalue
      exact ⟨position, slot, hslot, Option.isSome_iff_exists.mpr ⟨value, hfilled⟩, rfl⟩
    · rintro ⟨position, slot, hslot, hfilled, haddress⟩
      obtain ⟨value, hvalue⟩ := Option.isSome_iff_exists.mp hfilled
      have hslotkey := hs.distinct.eq_of_address (hs.known position slot hslot) hkey haddress
      exact Option.isSome_iff_exists.mpr
        ⟨value, hs.memo.valueOf_eq_some.mpr ⟨position, slot, hslot, hslotkey, hvalue⟩⟩
  rw [Bool.eq_iff_iff, isLive_iff, ← hmem hs.pinned, ← hmem hs.used, ← hvalue]
  simp only [Ledger.isLive, Bool.or_eq_true, Bool.and_eq_true, decide_eq_true_eq, or_assoc]
  rfl

/-- A session and its ledger agree on how many living keys have a value. -/
theorem Sound.count_ledger (hs : s.Sound inUse) :
    s.ledger.count inUse = s.memo.count (s.isLive inUse) := by
  rw [hs.memo.count_eq (List.Nodup.of_map _ hs.distinct) hs.known]
  refine List.countP_congr fun key hkey => ?_
  rw [hs.isLive_ledger hkey]
  rfl

/-- A demand does not change the ledger. -/
theorem Sound.reserve_ledger (hs : s.Sound inUse) (hkey : key ∈ inUse) :
    ({ s with memo := (s.memo.reserve (s.isLive inUse) key).memo } : MemoSession).ledger
      = s.ledger := by
  obtain ⟨hmemo, hreserves⟩ := hs.memo.reserve (hs.knows (hs.used key hkey)) (isLive_of_mem hkey)
  obtain ⟨hvalues, hremovals⟩ := hreserves.contents hs.memo hmemo
  have hinitial := (Memo.later_reserve (s.isLive inUse) key s.memo).initial
  simp only [ledger, hvalues, hremovals, hinitial]

/-- Filling a slot is the same for a session and its ledger. -/
theorem Sound.fill_ledger (hs : s.Sound inUse) {position : Nat} {slot : Slot String}
    (hslot : s.memo.slots[position]? = some slot) (hgeneration : slot.generation = 0)
    (value : String) :
    ({ s with
        memo :=
          { s.memo with
            slots := s.memo.slots.setIfInBounds position (Memo.filledWith slot value) } } :
      MemoSession).ledger = s.ledger.put slot.key value := by
  obtain ⟨hvalues, hremovals⟩ := hs.memo.contents_fill hslot hgeneration value
  simp only [ledger, Ledger.put, hvalues, hremovals]

/-- Taking a value away is the same for a session and its ledger. -/
theorem Sound.forget_ledger (hs : s.Sound inUse) (hkey : key ∈ s.keys.keys)
    (hlive : s.isLive inUse key = true) :
    let c := s.memo.forget (s.isLive inUse) key
    (∃ value, s.ledger.values key = some value ∧ c.outcome = .ok true ∧
      ({ s with memo := c.memo } : MemoSession).ledger = s.ledger.take key) ∨
    s.ledger.values key = none ∧ c.outcome = .ok false ∧
      ({ s with memo := c.memo } : MemoSession).ledger = s.ledger := by
  intro c
  obtain ⟨hmemo, hforgets⟩ := hs.memo.forget (hs.knows hkey) hlive
  have hinitial := (Memo.later_forget (s.isLive inUse) key s.memo).initial
  rcases hforgets.contents hs.memo hmemo with
    ⟨value, hvalue, houtcome, hvalues, hremovals⟩ | ⟨hvalue, houtcome, hvalues, hremovals⟩
  · refine .inl ⟨value, hvalue, houtcome, ?_⟩
    simp only [ledger, Ledger.take, c, hvalues, hremovals, hinitial]
  · refine .inr ⟨hvalue, houtcome, ?_⟩
    simp only [ledger, c, hvalues, hremovals, hinitial]

/-- Pinning a key is the same for a session and its ledger. -/
theorem Sound.pin_ledger (hs : s.Sound inUse) (hkey : key ∈ s.keys.keys)
    (hlive : s.isLive inUse key = true) :
    let s' : MemoSession := if s.keeping then { s with pinned := key :: s.pinned } else s
    s'.Sound inUse ∧ s'.keys = s.keys ∧ s'.ledger = s.ledger.pin key := by
  simp only [Ledger.pin, show s.ledger.keeping = s.keeping from rfl]
  split
  · exact ⟨hs.pin hkey hlive, rfl, rfl⟩
  · exact ⟨hs, rfl, rfl⟩

/-- What a caller does without computing anything comes to the same for a session and its
ledger. -/
def Agrees (s : MemoSession) (inUse : List Key) (action : BriefAction) : Prop :=
  (s.act inUse action).state.ledger = (s.ledger.brief inUse action).state ∧
    (s.act inUse action).result.map MemoReply.visible = (s.ledger.brief inUse action).result ∧
      (s.ledger.brief inUse action).events = []

theorem Sound.agrees_forget (hs : s.Sound inUse) (name : String) :
    s.Agrees inUse (.forget name) := by
  rw [Agrees, MemoSession.act, Ledger.brief, keys_ledger]
  cases hheld : s.keys.held? name with
  | none => exact ⟨rfl, rfl, rfl⟩
  | some key =>
    have hkey := Keyring.mem_keys_of_held? hheld
    have hholds := Keyring.holds_of_held? hheld
    obtain ⟨hs', hkeys, hledger⟩ := hs.pin_ledger hkey (isLive_of_holds hholds)
    rw [← hkeys] at hkey hholds
    -- to pin a key is nothing to its value
    have hvalues : s.ledger.values key = (s.ledger.pin key).values key := by
      rw [Ledger.pin]
      split <;> rfl
    dsimp only
    rw [hvalues, ← hledger]
    let answer : Except Fault Bool → Except Fault MemoReply := fun outcome =>
      (outcome.map fun taken => .flag (some taken)).map MemoReply.visible
    rcases hs'.forget_ledger hkey (isLive_of_holds hholds) with
      ⟨value, hvalue, houtcome, hstate⟩ | ⟨hvalue, houtcome, hstate⟩
    · rw [hvalue]
      exact ⟨hstate, congrArg answer houtcome, rfl⟩
    · rw [hvalue]
      exact ⟨hstate, congrArg answer houtcome, rfl⟩

theorem Sound.agrees (hs : s.Sound inUse) (action : BriefAction) : s.Agrees inUse action := by
  cases action with
  | key action =>
    have hperform := Keyring.perform_congr (fun key hkey => hs.isLive_ledger hkey) action
    rw [Agrees, MemoSession.act, Ledger.brief, keys_ledger, hperform]
    exact ⟨rfl, rfl, rfl⟩
  | look name =>
    rw [Agrees, MemoSession.act, Ledger.brief, keys_ledger]
    cases hheld : s.keys.held? name with
    | none => exact ⟨rfl, rfl, rfl⟩
    | some key =>
      have hlive : s.isLive inUse key = true := isLive_of_holds (Keyring.holds_of_held? hheld)
      dsimp only
      rw [hs.memo.value?_eq (hs.knows (Keyring.mem_keys_of_held? hheld)) hlive]
      exact ⟨rfl, rfl, rfl⟩
  | forget name => exact hs.agrees_forget name
  | count =>
    rw [Agrees, MemoSession.act, Ledger.brief, hs.count_ledger]
    exact ⟨rfl, rfl, rfl⟩
  | isEmpty =>
    rw [Agrees, MemoSession.act, Ledger.brief, hs.count_ledger]
    exact ⟨rfl, rfl, rfl⟩
  | capacity => exact ⟨rfl, rfl, rfl⟩
  | describe isExpanded => exact ⟨rfl, rfl, rfl⟩

end MemoSession

end Ephemera
