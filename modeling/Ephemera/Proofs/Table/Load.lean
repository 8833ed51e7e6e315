import Ephemera.Proofs.Table.Represented
import Ephemera.Proofs.Table.Ways

/-!
# The load of a table

A table is never more than half full: there is at most one link for every other chain. Nothing
checks this. A request that may install first looks whether the table is half full and doubles the
chains then, so there is room for the one link that it puts in; and nothing else changes the number
of chains.

A table that grows has as many links as half its chains, and each of them was made once. So the
chains are no more than four for each entry that was ever made, unless there were more to start
with, and it would take more entries than can be made for their number to leave 64 bits
(`after_spacious`).
-/

namespace Ephemera

namespace Table

variable {α : Type} {live accepts removable : α → Bool} {hash : UInt64} {new : α} {t : Table α}
  {made : Nat}

/-! ## How many links there are -/

/-- A request adds a link for the entry that it makes, and may lose some. -/
theorem Sound.size_obtain_le (hs : t.Sound) (live : α → Bool) (hash : UInt64)
    (accepts : α → Bool) (new : α) :
    let o := t.obtain live hash accepts new
    o.table.size ≤ t.size + (Note.makings o.notes).length ∧ (Note.makings o.notes).length ≤ 1 := by
  cases hfits : isOversized t.initial with
  | true =>
    rw [hs.obtain_of_oversized hfits]
    exact ⟨Nat.le_refl _, Nat.zero_le 1⟩
  | false =>
    have hs' : (t.obtain live hash accepts new).table.Sound := hs.obtain
    dsimp only
    rw [hs'.counted, hs.counted]
    cases hs.obtains hfits live hash accepts new with
    | found entry rest hentries houtcome hlinks hmade =>
      rw [hmade]
      exact ⟨hlinks.length_le, Nat.zero_le 1⟩
    | installed rest hentries houtcome hlinks hrest hmade =>
      rw [hmade, hlinks.length_eq]
      exact ⟨Nat.succ_le_succ hrest.length_le, Nat.le_refl 1⟩
    | refused entry entry' rest hentries houtcome hlinks hmade =>
      rw [hmade, hlinks]
      exact ⟨Nat.le_refl _, Nat.zero_le 1⟩

theorem Sound.size_erase_le (hs : t.Sound) (live : α → Bool) (hash : UInt64)
    (accepts removable : α → Bool) :
    (t.erase live hash accepts removable).table.size ≤ t.size := by
  have hs' : (t.erase live hash accepts removable).table.Sound := hs.erase
  rw [hs'.counted, hs.counted]
  cases hs.erases live hash accepts removable with
  | missed hentries houtcome hlinks => exact hlinks.length_le
  | taken entry hentries houtcome hlinks => exact (Nat.le_succ _).trans hlinks.length_le
  | refused entry entry' rest hentries houtcome htable => rw [htable]

/-- Erasing leaves the number of chains. -/
theorem capacity_erase : (t.erase live hash accepts removable).table.capacity = t.capacity := by
  rw [erase]
  split
  · rfl
  · next chains h =>
    have hrebuild : ∀ takes index taken,
        (t.rebuild live takes index taken chains).capacity = t.capacity := by
      intro takes index taken
      rw [capacity_of_chains h]
      exact Array.size_setIfInBounds
    dsimp only
    split
    · split
      · rfl
      · exact hrebuild ..
    · exact hrebuild ..
    · rfl

/-! ## The load -/

/-- The load of a table for which so many entries were made. -/
structure Loaded (made : Nat) (t : Table α) : Prop where
  /-- the table is sound -/
  sound : t.Sound
  /-- it started with two chains or more -/
  ample : 2 ≤ t.initial
  /-- it is at most half full -/
  half : 2 * t.size ≤ t.capacity
  /-- whatever is linked was made -/
  covered : t.size ≤ made
  /-- it has no more chains than it started with, or than four for each entry -/
  bounded : t.capacity ≤ max t.initial (4 * made)

theorem loaded_ofCapacity (request : Nat) : (ofCapacity request : Table α).Loaded 0 where
  sound := sound_ofCapacity request
  ample := Nat.le_trans (by decide) (leastCapacity_le_roundedCapacity request)
  half := Nat.zero_le _
  covered := Nat.le_refl 0
  bounded := Nat.le_max_left ..

/-- A table that is half full grows before it takes another link, and has the room then. -/
theorem Loaded.obtain (h : t.Loaded made) :
    let o := t.obtain live hash accepts new
    o.table.Loaded (made + (Note.makings o.notes).length) := by
  obtain ⟨hsize, hone⟩ := h.sound.size_obtain_le live hash accepts new
  have hdvd := h.sound.two_dvd_capacity h.ample
  have hinitial := h.sound.initial_le_capacity
  obtain ⟨hsound, hample, hhalf, hcovered, hbounded⟩ := h
  have hload : 2 * (t.obtain live hash accepts new).table.size
        ≤ (t.obtain live hash accepts new).table.capacity ∧
      (t.obtain live hash accepts new).table.capacity
        ≤ max t.initial
          (4 * (made + (Note.makings (t.obtain live hash accepts new).notes).length)) := by
    -- only doubling changes the number of chains, and it is paid for by what was made
    cases hsound.turns hample live hash accepts new with
    | doubled entry hcrowded hfew houtcome hcapacity => omega
    | refused hcrowded hmany houtcome htable hmade =>
      rw [htable]
      omega
    | tidied entry hfits hroomy houtcome hcapacity => omega
    | overflowed hoversized hlinks houtcome htable hmade =>
      rw [htable]
      omega
  exact
    { sound := hsound.obtain
      ample := by rwa [initial_obtain]
      half := hload.1
      covered := by omega
      bounded := by
        rw [initial_obtain]
        exact hload.2 }

theorem Loaded.erase (h : t.Loaded made) :
    (t.erase live hash accepts removable).table.Loaded made := by
  have hsize := h.sound.size_erase_le live hash accepts removable
  refine
    { sound := h.sound.erase
      ample := ?_
      half := ?_
      covered := hsize.trans h.covered
      bounded := ?_ }
  · rw [initial_erase]
    exact h.ample
  · rw [capacity_erase]
    exact (Nat.mul_le_mul_left 2 hsize).trans h.half
  · rw [capacity_erase, initial_erase]
    exact h.bounded

end Table

namespace TableSession

variable {τ : Type} {passes : τ → Key → Bool} {s : TableSession} {made : Nat}

/-- How many entries are made for some requests. -/
def makes (passes : τ → Key → Bool) (s : TableSession) (requests : List (TableRequest τ)) : Nat :=
  ((s.answers passes requests).flatMap Prod.fst).length

theorem loaded_act (h : s.table.Loaded made) (passes : τ → Key → Bool) (request : TableRequest τ) :
    let o := s.act passes request
    o.state.table.Loaded (made + (Note.makings o.events).length) := by
  cases request with
  | key action => exact h
  | obtain hash accepts new =>
    rw [act]
    split
    · exact h
    · exact h.obtain
  | search hash accepts =>
    rw [act, Table.search]
    dsimp only
    rw [Note.makings_asked]
    exact h
  | erase hash accepts removable =>
    rw [act]
    dsimp only
    rw [Table.makings_erase]
    exact h.erase
  | count accepts =>
    rw [act, Table.count]
    dsimp only
    rw [Note.makings_asked]
    exact h

theorem loaded_after (h : s.table.Loaded made) (passes : τ → Key → Bool)
    (requests : List (TableRequest τ)) :
    (s.after passes requests).table.Loaded (made + s.makes passes requests) := by
  induction requests generalizing s made with
  | nil => exact h
  | cons request requests ih =>
    have hrest := ih (loaded_act h passes request)
    rw [Nat.add_assoc, makes, ← List.length_append] at hrest
    exact hrest

/-- The load of a table after any requests. -/
theorem loaded (passes : τ → Key → Bool) (request : Nat) (requests : List (TableRequest τ)) :
    ((ofCapacity request).after passes requests).table.Loaded
      ((ofCapacity request).makes passes requests) := by
  have hstart : (ofCapacity request).table.Loaded 0 := Table.loaded_ofCapacity request
  have hload := loaded_after hstart passes requests
  rwa [Nat.zero_add] at hload

/-! ## The number of chains -/

/-- A request to find or install doubles the chains of a table that is half full, unless it is
refused, and leaves their number otherwise. -/
theorem capacity_act_obtain (h : s.table.Loaded made) (passes : τ → Key → Bool) (hash : UInt64)
    (accepts : τ) (new : String) :
    let o := s.act passes (.obtain hash accepts new)
    let doubling := 2 * s.table.size = s.table.capacity ∧ ∃ answer, o.result = .ok answer
    doubling ∧ o.state.table.capacity = 2 * s.table.capacity ∨
      ¬ doubling ∧ o.state.table.capacity = s.table.capacity := by
  have hhalf := h.half
  cases hkey : s.keys.held? new with
  | none =>
    rw [act, hkey]
    refine .inr ⟨?_, rfl⟩
    rintro ⟨-, answer, hresult⟩
    cases hresult
  | some key =>
    rw [act, hkey]
    dsimp only
    -- chains are doubled when they are half full, unless the request is refused before
    cases h.sound.turns h.ample s.isLive hash (passes accepts) key with
    | doubled entry hcrowded hfew houtcome hcapacity =>
      rw [houtcome]
      exact .inl ⟨⟨by omega, _, rfl⟩, hcapacity⟩
    | refused hcrowded hmany houtcome htable hmade =>
      rw [houtcome, htable]
      refine .inr ⟨?_, rfl⟩
      rintro ⟨-, answer, hresult⟩
      cases hresult
    | tidied entry hfits hroomy houtcome hcapacity =>
      refine .inr ⟨?_, hcapacity⟩
      rintro ⟨hcrowded, -⟩
      omega
    | overflowed hoversized hlinks houtcome htable hmade =>
      rw [houtcome, htable]
      refine .inr ⟨?_, rfl⟩
      rintro ⟨-, answer, hresult⟩
      cases hresult

/-- No other request changes the number of chains. -/
theorem capacity_keeps (h : s.table.Loaded made) (passes : τ → Key → Bool) (next : TableRequest τ) :
    let o := s.act passes next
    o.state.table.capacity = s.table.capacity ∨
      o.state.table.capacity = 2 * s.table.capacity ∧
        ∃ hash accepts new, next = .obtain hash accepts new := by
  cases next with
  | obtain hash accepts new =>
    rcases capacity_act_obtain h passes hash accepts new with ⟨-, hdoubled⟩ | ⟨-, hsame⟩
    · exact .inr ⟨hdoubled, hash, accepts, new, rfl⟩
    · exact .inl hsame
  | erase hash accepts removable => exact .inl Table.capacity_erase
  | key action | search hash accepts | count accepts => exact .inl rfl

theorem capacity_le_after (h : s.table.Loaded made) (passes : τ → Key → Bool)
    (requests : List (TableRequest τ)) :
    s.table.capacity ≤ (s.after passes requests).table.capacity := by
  induction requests generalizing s made with
  | nil => exact Nat.le_refl _
  | cons request requests ih =>
    have hstep : s.table.capacity ≤ (s.act passes request).state.table.capacity := by
      rcases capacity_keeps h passes request with hsame | ⟨hdoubled, -⟩
      · exact Nat.le_of_eq hsame.symm
      · omega
    exact hstep.trans (ih (loaded_act h passes request))

/-- Growing never asks for more chains than can be allocated, as long as fewer than 2^58 entries
were made: the links that make a table grow are half as many as its chains. -/
theorem fits_double (passes : τ → Key → Bool) (request : Nat) (requests : List (TableRequest τ))
    (hfew : (ofCapacity request).makes passes requests < 2 ^ 58) :
    let t := ((ofCapacity request).after passes requests).table
    t.capacity ≤ 2 * t.size → isOversized (2 * t.capacity) = false := by
  intro t hcrowded
  have hcovered : t.size ≤ (ofCapacity request).makes passes requests :=
    (loaded passes request requests).covered
  rw [← Bool.not_eq_true, isOversized_iff]
  omega

/-- What is known of the number of chains of a table for which so many entries were made. -/
structure Spacious (passes : τ → Key → Bool) (request made : Nat) (s : TableSession) : Prop where
  /-- there is at most one link for every other chain -/
  half : 2 * s.table.size ≤ s.table.capacity
  /-- there are no more chains than at first, or than four for each entry -/
  bounded : s.table.capacity ≤ max (roundedCapacity request) (4 * made)
  /-- a number twice as large still is a 64-bit word -/
  fits : 2 * s.table.capacity < 2 ^ 64
  /-- a request to find or install doubles the chains if and only if the table is half full and
  the request is not refused -/
  doubles : ∀ hash accepts new,
    let o := s.act passes (.obtain hash accepts new)
    o.state.table.capacity = 2 * s.table.capacity ↔
      2 * s.table.size = s.table.capacity ∧ ∃ answer, o.result = .ok answer
  /-- where it does not double them it leaves their number, as all other requests do -/
  keeps : ∀ next,
    let o := s.act passes next
    o.state.table.capacity = s.table.capacity ∨
      o.state.table.capacity = 2 * s.table.capacity ∧
        ∃ hash accepts new, next = .obtain hash accepts new
  /-- so the number never falls -/
  grows : ∀ more, s.table.capacity ≤ (s.after passes more).table.capacity

/-- Whatever is asked of a table, it is at most half full at any time, and the number of its chains
follows from that. Fewer entries are made than it would take to leave 64 bits. -/
theorem after_spacious (passes : τ → Key → Bool) (request : Nat)
    (requests : List (TableRequest τ))
    (hfew : (ofCapacity request).makes passes requests < 2 ^ 60) :
    Spacious passes request ((ofCapacity request).makes passes requests)
      ((ofCapacity request).after passes requests) := by
  have hload := loaded passes request requests
  have hbounded := hload.bounded
  have hinitial : ((ofCapacity request).after passes requests).table.initial
      = roundedCapacity request := initial_after requests
  rw [hinitial] at hbounded
  refine
    { half := hload.half
      bounded := hbounded
      fits := ?_
      doubles := fun hash accepts new => ?_
      keeps := capacity_keeps hload passes
      grows := capacity_le_after hload passes }
  · have hmaximal : maximalCapacity = 2 ^ 62 := Nat.one_shiftLeft 62
    have hrounded := roundedCapacity_le_maximalCapacity request
    omega
  · have hpos := hload.sound.initial_le_capacity.trans' hload.ample
    -- chains are at least two, so to double them is not to keep them
    rcases capacity_act_obtain hload passes hash accepts new with
      ⟨hdoubling, hcapacity⟩ | ⟨hkept, hcapacity⟩
    · exact iff_of_true hcapacity hdoubling
    · exact iff_of_false (by omega) hkept

/-- A table that is half full gets twice as many chains even if all its links are cleared. -/
theorem after_spacious_cleared :
    let requests : List TableAction := .key (.make "a" "t" none) ::
      List.replicate 8 (.obtain 7 .nothing "a") ++ [.key (.make "b" "t" none), .key (.letGo "a")]
    let s := (ofCapacity 0).after Test.passes requests
    (ofCapacity 0).makes Test.passes requests = 8 ∧ s.living = [] ∧
      2 * s.table.size = s.table.capacity ∧
      (s.act Test.passes (.obtain 7 .all "b")).state.table.capacity = 2 * s.table.capacity := by
  intro requests s
  have hmade : (ofCapacity 0).makes Test.passes requests = 8 := by decide
  have hspacious := after_spacious Test.passes 0 requests (by rw [hmade]; decide)
  have hhalf : 2 * s.table.size = s.table.capacity := by decide
  exact ⟨hmade, by decide, hhalf, (hspacious.doubles 7 .all "b").mpr ⟨hhalf, _, rfl⟩⟩

end TableSession

end Ephemera
