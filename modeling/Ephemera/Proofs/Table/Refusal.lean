import Ephemera.Proofs.Table.Agreement

/-!
# When a table refuses a request

Where one entry is meant and two are found, a table gives no answer. It does not look for a second
entry everywhere: a search never does, and a request to find or install does only when the table
grows. A request to erase always does. So here is said exactly which requests are refused for this
reason (`Guarded.obtain`, `Guarded.erase`).

There is one more: a table that was told to start with more chains than can be allocated refuses
all requests to find or install (`Guarded.overflowed`), before it has asked about anything. There
is no third, and it takes nothing to undo what was begun: what is seen after a refusal is what was
there before.
-/

namespace Ephemera

/-- Rewording an answer leaves a fault. -/
theorem map_eq_error_iff {ρ ρ' : Type} {f : ρ → ρ'} {result : Except Fault ρ} {fault : Fault} :
    result.map f = .error fault ↔ result = .error fault := by
  cases result with
  | ok answer => exact iff_of_false (fun h => nomatch h) fun h => nomatch h
  | error fault' => exact ⟨fun h => congrArg _ (Except.error.inj h),
      fun h => congrArg _ (Except.error.inj h)⟩

namespace Table

variable {α : Type} {live accepts removable : α → Bool} {hash : UInt64} {new : α} {t : Table α}

/-- A request to find or install is refused if and only if the table is crowded and two candidates
are accepted. -/
theorem Sound.obtain_refused_iff (hs : t.Sound) (htwo : 2 ≤ t.initial) :
    (t.obtain live hash accepts new).outcome = .error .duplicate ↔
      t.capacity ≤ 2 * t.size ∧ 2 ≤ ((t.links.candidates live hash).filter accepts).length := by
  cases hs.turns htwo live hash accepts new with
  | doubled e hcrowded hfew houtcome hcapacity =>
    rw [houtcome]
    exact iff_of_false (fun h => nomatch h) fun ⟨_, hmany⟩ => by omega
  | refused hcrowded hmany houtcome htable hmade => exact iff_of_true houtcome ⟨hcrowded, hmany⟩
  | tidied e hfits hroomy houtcome hcapacity =>
    rw [houtcome]
    exact iff_of_false (fun h => nomatch h) fun ⟨hcrowded, _⟩ => by omega
  | overflowed hoversized hlinks houtcome htable hmade =>
    -- without links there are no two candidates either
    rw [houtcome, hlinks]
    exact iff_of_false (fun h => nomatch h) fun ⟨_, hmany⟩ => nomatch hmany

/-- After a refusal the table is what it was, and nothing was made. -/
theorem Sound.obtain_refused (hs : t.Sound) (htwo : 2 ≤ t.initial) {fault : Fault}
    (h : (t.obtain live hash accepts new).outcome = .error fault) :
    (fault = .duplicate ∨ fault = .overflow ∧ isOversized t.initial = true) ∧
      (t.obtain live hash accepts new).table = t ∧
        Note.makings (t.obtain live hash accepts new).notes = [] := by
  cases hs.turns htwo live hash accepts new with
  | doubled e hcrowded hfew houtcome hcapacity =>
    rw [h] at houtcome
    cases houtcome
  | refused hcrowded hmany houtcome htable hmade =>
    rw [h] at houtcome
    exact ⟨.inl (Except.error.inj houtcome), htable, hmade⟩
  | tidied e hfits hroomy houtcome hcapacity =>
    rw [h] at houtcome
    cases houtcome
  | overflowed hoversized hlinks houtcome htable hmade =>
    rw [h] at houtcome
    exact ⟨.inr ⟨Except.error.inj houtcome, hoversized⟩, htable, hmade⟩

/-- A request to erase is refused if and only if two candidates qualify. -/
theorem Sound.erase_refused_iff (hs : t.Sound) :
    (t.erase live hash accepts removable).outcome = .error .duplicate ↔
      2 ≤ ((t.links.candidates live hash).filter fun e => accepts e && removable e).length := by
  cases hs.erases live hash accepts removable with
  | missed hentries houtcome hlinks =>
    rw [houtcome, hentries]
    exact iff_of_false (fun h => nomatch h) (Nat.not_succ_le_zero 1)
  | taken entry hentries houtcome hlinks =>
    rw [houtcome, hentries]
    exact iff_of_false (fun h => nomatch h) (Nat.not_succ_le_self 1)
  | refused entry entry' rest hentries houtcome htable =>
    rw [hentries]
    exact iff_of_true houtcome (Nat.le_add_left 2 rest.length)

theorem Sound.erase_refused (hs : t.Sound) {fault : Fault}
    (h : (t.erase live hash accepts removable).outcome = .error fault) :
    fault = .duplicate ∧ (t.erase live hash accepts removable).table = t := by
  cases hs.erases live hash accepts removable with
  | missed hentries houtcome hlinks =>
    rw [h] at houtcome
    cases houtcome
  | taken entry hentries houtcome hlinks =>
    rw [h] at houtcome
    cases houtcome
  | refused entry entry' rest hentries houtcome htable =>
    rw [h] at houtcome
    exact ⟨Except.error.inj houtcome, htable⟩

end Table

namespace TableSession

variable {τ : Type} {passes : τ → Key → Bool} {s : TableSession} {made : Nat}

/-- What is known at some moment of the requests that are refused, where the caller had asked for
so many chains. -/
structure Guarded (passes : τ → Key → Bool) (wanted : Nat) (s : TableSession) : Prop where
  /-- to find or install is refused as ambiguous if and only if the table is crowded and two links
  are accepted -/
  obtain : ∀ hash accepts new key, s.keys.held? new = some key →
    ((s.act passes (.obtain hash accepts new)).result = .error .duplicate ↔
      s.table.capacity ≤ 2 * s.table.size ∧ 2 ≤ (s.bag.under hash (passes accepts)).card)
  /-- to erase is refused as ambiguous if and only if two links are accepted and removable -/
  erase : ∀ hash accepts removable,
    (s.act passes (.erase hash accepts removable)).result = .error .duplicate ↔
      2 ≤ (s.bag.under hash fun key => passes accepts key && passes removable key).card
  /-- a search is always answered -/
  search : ∀ hash accepts, ∃ entry,
    (s.act passes (.search hash accepts)).result = .ok (.entry entry)
  /-- counting is always answered -/
  count : ∀ accepts, ∃ number, (s.act passes (.count accepts)).result = .ok (.count number)
  /-- where more chains were asked for than can be allocated, to find or install is refused for
  this, before anything was asked, made or changed -/
  overflowed : 2 ^ 59 < wanted → ∀ hash accepts new key, s.keys.held? new = some key →
    s.act passes (.obtain hash accepts new) = ⟨s, [], .error .overflow⟩
  /-- there is no other fault, but that of a caller who does not hold what is to be installed -/
  others : ∀ request fault, (s.act passes request).result = .error fault →
    fault = .duplicate ∨ ∃ hash accepts new, request = .obtain hash accepts new ∧
      (fault = .overflow ∧ 2 ^ 59 < wanted ∨
        fault = .unheld new ∧ s.keys.held? new = none)
  /-- wherever a request looks for a chain, there is one -/
  within : wanted ≤ 2 ^ 59 → ∃ chains, s.table.chainsOrNew = .ok chains ∧ ∀ hash,
    chainIndex chains.size hash < chains.size ∧
      chainIndex (2 * chains.size) hash < 2 * chains.size
  /-- after a fault keys and table are what they were, and nothing was made -/
  untouched : ∀ request fault, (s.act passes request).result = .error fault →
    (s.act passes request).state = s ∧ Note.makings (s.act passes request).events = []
  /-- this is what the two refusals say -/
  messages : Fault.duplicate.message = "two live entries for the same key" ∧
    Fault.overflow.message = "capacity overflow"

/-- A fault is a refusal by the table, which leaves everything as it was, or the caller does not
hold the key that is to be installed. -/
theorem act_refused (h : s.table.Loaded made) {request : TableRequest τ} {fault : Fault}
    (hfault : (s.act passes request).result = .error fault) :
    ((s.act passes request).state = s ∧ Note.makings (s.act passes request).events = []) ∧
      (fault = .duplicate ∨ ∃ hash accepts new, request = .obtain hash accepts new ∧
        (fault = .overflow ∧ isOversized s.table.initial = true ∨
          fault = .unheld new ∧ s.keys.held? new = none)) := by
  cases request with
  | key action => cases hfault
  | search hash accepts => cases hfault
  | count accepts => cases hfault
  | obtain hash accepts new =>
    cases hkey : s.keys.held? new with
    | none =>
      rw [act, hkey] at hfault ⊢
      -- the table is not even asked
      have hunheld : fault = .unheld new := (Except.error.inj hfault).symm
      exact ⟨⟨rfl, rfl⟩, .inr ⟨hash, accepts, new, rfl, .inr ⟨hunheld, hkey⟩⟩⟩
    | some key =>
      rw [act, hkey] at hfault ⊢
      obtain ⟨hreason, htable, hmade⟩ :=
        h.sound.obtain_refused h.ample (map_eq_error_iff.mp hfault)
      refine ⟨⟨?_, hmade⟩, hreason.imp_right fun h' => ⟨hash, accepts, new, rfl, .inl h'⟩⟩
      dsimp only
      rw [htable]
  | erase hash accepts removable =>
    obtain ⟨hduplicate, htable⟩ := h.sound.erase_refused (map_eq_error_iff.mp hfault)
    refine ⟨⟨?_, Table.makings_erase ..⟩, .inl hduplicate⟩
    rw [act]
    dsimp only
    rw [htable]

/-- Whatever was asked of a table before, it refuses a request only where two links qualify and
one is meant, or where its chains cannot be allocated, and then it is as if the request had not
been. -/
theorem after_guarded (passes : τ → Key → Bool) (request : Nat)
    (requests : List (TableRequest τ)) :
    Guarded passes request ((ofCapacity request).after passes requests) := by
  have hload := loaded passes request requests
  have hfits := fits_after passes request requests
  have hoversized := isOversized_after passes request requests
  generalize (ofCapacity request).after passes requests = s at hload hfits hoversized
  have hlarge : isOversized s.table.initial = true ↔ 2 ^ 59 < request := by
    rw [hoversized, decide_eq_true_eq]
  refine
    { obtain := fun hash accepts new key hkey => ?_
      erase := fun hash accepts removable => ?_
      search := fun hash accepts => ⟨_, rfl⟩
      count := fun accepts => ⟨_, rfl⟩
      overflowed := fun h hash accepts new key hkey => ?_
      others := fun next fault hfault => ?_
      within := fun h => ?_
      untouched := fun next fault hfault => (act_refused hload hfault).1
      messages := ⟨rfl, rfl⟩ }
  · rw [act, hkey, card_under]
    exact map_eq_error_iff.trans (hload.sound.obtain_refused_iff hload.ample)
  · rw [act, card_under]
    exact map_eq_error_iff.trans hload.sound.erase_refused_iff
  · rw [act, hkey]
    dsimp only
    rw [hload.sound.obtain_of_oversized (hlarge.mpr h)]
    rfl
  · have hreason := (act_refused hload hfault).2
    rwa [hlarge] at hreason
  · obtain ⟨chains, hchains, hs', -⟩ := hload.sound.chainsOrNew_eq (hfits h)
    have hpos := hs'.size_pos rfl
    exact ⟨chains, hchains, fun hash => ⟨chainIndex_lt hpos hash, chainIndex_lt (by omega) hash⟩⟩

/-- A request to install is refused though the table has no links at all. -/
theorem others_overflowed :
    let s := (ofCapacity (2 ^ 64 - 1)).after Test.passes [.key (.make "a" "t" none)]
    let o := s.act Test.passes (.obtain 7 .all "a")
    s.keys.held? "a" = some ⟨0, "a", "t", 17592186044416⟩ ∧ s.table.capacity = maximalCapacity ∧
      s.table.size = 0 ∧ o.result = .error .overflow := by
  decide

/-- Two links lead to one key: while there is room it can be obtained, but not erased. -/
example :
    let requests : List TableAction :=
      [.key (.make "a" "t" none), .obtain 7 .nothing "a", .obtain 7 .nothing "a"]
    let s := (ofCapacity 0).after Test.passes requests
    (s.act Test.passes (.obtain 7 .all "a")).result
        = .ok (.entry (some ⟨0, "a", "t", 17592186044416⟩)) ∧
      (s.act Test.passes (.erase 7 .all .all)).result = .error .duplicate := by
  decide

end TableSession

end Ephemera
