import Ephemera.Keyring
import Mathlib.Data.List.Nodup

/-!
# What a keyring knows

The ring only grows, and the keys on it never change; only the holds on them come and go. A
key's number is its position, and if no two keys share an address (`Distinct`), its address
is as good a name for it (`eq_of_address`). No action brings a key back: what is held
afterwards and was on the ring before was alive before.
-/

namespace Ephemera

namespace Keyring

variable {r : Keyring} {key key' : Key} {name : String}

/-- The keys that were ever made, in order. -/
def keys (r : Keyring) : List Key :=
  r.holdings.toList.map Holding.key

/-- The number of a key is its position. -/
def Numbered (r : Keyring) : Prop :=
  ∀ (index : Nat) (key : Key), r.keys[index]? = some key → key.number = index

/-- No two keys share an address. -/
def Distinct (r : Keyring) : Prop :=
  (r.keys.map Key.address).Nodup

/-! ## Names for keys -/

/-- Two keys of one address are one key. -/
theorem Distinct.eq_of_address (h : r.Distinct) (hkey : key ∈ r.keys) (hkey' : key' ∈ r.keys)
    (haddress : key.address = key'.address) : key = key' :=
  List.inj_on_of_nodup_map h hkey hkey' haddress

/-- Two keys of one number are one key. -/
theorem Numbered.eq_of_number (h : r.Numbered) (hkey : key ∈ r.keys) (hkey' : key' ∈ r.keys)
    (hnumber : key.number = key'.number) : key = key' := by
  obtain ⟨index, hindex⟩ := List.mem_iff_getElem?.mp hkey
  obtain ⟨index', hindex'⟩ := List.mem_iff_getElem?.mp hkey'
  obtain rfl : index = index' := by
    rw [← h index key hindex, ← h index' key' hindex', hnumber]
  exact Option.some.inj (hindex.symm.trans hindex')

/-- Fewer keys have no more addresses in common. -/
theorem Distinct.of_isPrefix {r' : Keyring} (h : r'.Distinct) (hle : r.keys <+: r'.keys) :
    r.Distinct :=
  h.sublist (hle.sublist.map Key.address)

/-- What a name stands for is a matter of the keys alone. -/
theorem key?_eq (name : String) (r : Keyring) :
    r.key? name = r.keys.reverse.find? fun key => key.name == name := by
  rw [key?, keys, ← List.map_reverse, List.find?_map]
  rfl

theorem key?_congr {r' : Keyring} (h : r'.keys = r.keys) : r'.key? name = r.key? name := by
  rw [key?_eq, key?_eq, h]

theorem mem_keys_of_key? (h : r.key? name = some key) : key ∈ r.keys := by
  obtain ⟨holding, hfind, rfl⟩ := Option.map_eq_some_iff.mp h
  exact List.mem_map_of_mem (List.mem_reverse.mp (List.mem_of_find?_eq_some hfind))

theorem key?_of_held? (h : r.held? name = some key) : r.key? name = some key :=
  (Option.filter_eq_some_iff.mp h).1

theorem holds_of_held? (h : r.held? name = some key) : r.holds key = true :=
  (Option.filter_eq_some_iff.mp h).2

theorem mem_keys_of_held? (h : r.held? name = some key) : key ∈ r.keys :=
  mem_keys_of_key? (key?_of_held? h)

/-! ## What an action leaves -/

@[simp]
theorem keys_empty : empty.keys = [] := rfl

@[simp]
theorem keys_mark (key : Key) (held : Bool) (r : Keyring) : (r.mark key held).keys = r.keys := by
  apply List.ext_getElem?
  intro index
  simp only [keys, mark, List.getElem?_map, Array.getElem?_toList, Array.getElem?_modify]
  split
  · cases r.holdings[index]? <;> rfl
  · rfl

@[simp]
theorem keys_release (name : String) (r : Keyring) : (r.release name).keys = r.keys := by
  rw [release]
  split
  · rfl
  · exact keys_mark ..

@[simp]
theorem keys_make (name text : String) (address : Option UInt64) (r : Keyring) :
    (r.make name text address).keys
      = r.keys ++ [⟨r.keys.length, name, text, address.getD r.nextAddress⟩] := by
  have hkeys := keys_release name r
  have hsize : r.keys.length = r.holdings.size := by simp [keys]
  rw [keys] at hkeys
  simp [make, keys, hkeys]

/-- A ring only grows. -/
theorem keys_perform (live : Key → Bool) (r : Keyring) (action : KeyAction) :
    r.keys <+: (r.perform live action).1.keys := by
  cases action with
  | make name text address =>
    simp only [perform, keys_make]
    exact List.prefix_append ..
  | letGo name => simp [perform]
  | alive name => exact List.prefix_rfl
  | retake name =>
    simp only [perform]
    split
    · exact List.prefix_rfl
    · simp

theorem numbered_empty : empty.Numbered := by
  intro index key h
  simp at h

/-- Numbers are a matter of the keys alone. -/
theorem Numbered.of_keys_eq {r' : Keyring} (h : r.Numbered) (hkeys : r'.keys = r.keys) :
    r'.Numbered := by
  rw [Numbered]
  rwa [hkeys]

/-- A new key gets the next number. -/
theorem Numbered.perform (h : r.Numbered) (live : Key → Bool) (action : KeyAction) :
    (r.perform live action).1.Numbered := by
  cases action with
  | make name text address =>
    intro index key hkey
    simp only [Keyring.perform, keys_make] at hkey
    rcases Nat.lt_trichotomy index r.keys.length with hlt | heq | hgt
    · rw [List.getElem?_append_left hlt] at hkey
      exact h index key hkey
    · subst heq
      simp only [List.getElem?_concat_length, Option.some.injEq] at hkey
      rw [← hkey]
    · rw [List.getElem?_eq_none (by simp; omega)] at hkey
      cases hkey
  | letGo name => exact h.of_keys_eq (keys_release name r)
  | alive name => exact h
  | retake name =>
    simp only [Keyring.perform]
    split
    · exact h
    · exact h.of_keys_eq (keys_mark ..)

/-! ## Who is held -/

theorem holds_mark_ne {held : Bool} (h : key'.number ≠ key.number) :
    (r.mark key' held).holds key = r.holds key := by
  simp [holds, mark, Array.getElem?_modify, h]

theorem Numbered.exists_holding (hnumbered : r.Numbered) (hkey : key ∈ r.keys) :
    ∃ holding, r.holdings[key.number]? = some holding := by
  obtain ⟨index, hindex⟩ := List.mem_iff_getElem?.mp hkey
  rw [hnumbered index key hindex]
  rw [keys, List.getElem?_map, Array.getElem?_toList] at hindex
  obtain ⟨holding, hholding, -⟩ := Option.map_eq_some_iff.mp hindex
  exact ⟨holding, hholding⟩

theorem holds_mark_self (hnumbered : r.Numbered) (hkey : key ∈ r.keys) (held : Bool) :
    (r.mark key held).holds key = held := by
  obtain ⟨holding, hholding⟩ := hnumbered.exists_holding hkey
  simp [holds, mark, Array.getElem?_modify, hholding]

theorem holds_of_holds_mark {held : Bool} (h : (r.mark key' held).holds key = true) :
    r.holds key = true ∨ key'.number = key.number ∧ held = true := by
  by_cases hnumber : key'.number = key.number
  · simp only [holds, mark, Array.getElem?_modify, if_pos hnumber] at h ⊢
    cases hold : r.holdings[key.number]? with
    | none => simp [hold] at h
    | some holding =>
      simp only [hold, Option.map_some, Option.any_some] at h
      exact .inr ⟨hnumber, h⟩
  · rw [holds_mark_ne hnumber] at h
    exact .inl h

/-- What can still be held after a hold was dropped: all that was held, but the key that the
name stood for. -/
theorem holds_release (hnumbered : r.Numbered) (name : String) (hkey : key ∈ r.keys) :
    (r.release name).holds key = (r.holds key && !decide (r.held? name = some key)) := by
  rw [release]
  split
  · next hnone => simp [held?, hnone]
  · next key' hkey' =>
    by_cases heq : key' = key
    · subst heq
      rw [holds_mark_self hnumbered hkey]
      cases hheld : r.holds key' <;> simp [held?, hkey', hheld]
    · have hnumber : key'.number ≠ key.number := fun h =>
        heq (hnumbered.eq_of_number (mem_keys_of_key? hkey') hkey h)
      rw [holds_mark_ne hnumber]
      simp [held?, hkey', heq]

theorem holds_of_holds_release (h : (r.release name).holds key = true) : r.holds key = true := by
  rw [release] at h
  split at h
  · exact h
  · rcases holds_of_holds_mark h with hold | ⟨-, hfalse⟩
    · exact hold
    · cases hfalse

/-- Making a key leaves the holds on earlier ones as dropping the name does. -/
theorem holds_make (hnumbered : r.Numbered) (name text : String) (address : Option UInt64)
    (hkey : key ∈ r.keys) :
    (r.make name text address).holds key = (r.release name).holds key := by
  have hlt : key.number < (r.release name).holdings.size := by
    have hrelease := hnumbered.of_keys_eq (keys_release name r)
    rw [← keys_release name r] at hkey
    obtain ⟨holding, hholding⟩ := hrelease.exists_holding hkey
    exact (Array.getElem?_eq_some_iff.mp hholding).1
  simp only [make, holds, Array.getElem?_push_lt hlt]
  simp [hlt]

/-- The key whose maker loses hold of it by an action. -/
def lost (r : Keyring) : KeyAction → Option Key
  | .make name _ _ => r.held? name
  | .letGo name => r.held? name
  | .alive _ => none
  | .retake _ => none

/-- Where a key is alive as long as it is held, an action takes the life of one key at most,
and gives none. -/
theorem holds_perform (hnumbered : r.Numbered) (action : KeyAction) (hkey : key ∈ r.keys) :
    (r.perform r.holds action).1.holds key
      = (r.holds key && !decide (r.lost action = some key)) := by
  cases action with
  | make name text address =>
    exact (holds_make hnumbered name text address hkey).trans (holds_release hnumbered name hkey)
  | letGo name => exact holds_release hnumbered name hkey
  | alive name => simp [perform, lost]
  | retake name =>
    simp only [perform, lost, reduceCtorEq, decide_false, Bool.not_false, Bool.and_true]
    split
    · rfl
    · next key' hkey' =>
      by_cases heq : key' = key
      · subst heq
        exact holds_mark_self hnumbered hkey _
      · have hnumber : key'.number ≠ key.number := fun h =>
          heq (hnumbered.eq_of_number (mem_keys_of_key? hkey') hkey h)
        exact holds_mark_ne hnumber

/-- No action brings a key back to life. -/
theorem live_of_holds_perform (hnumbered : r.Numbered) {live : Key → Bool} {action : KeyAction}
    (hlive : ∀ key ∈ r.keys, r.holds key = true → live key = true) (hkey : key ∈ r.keys)
    (h : (r.perform live action).1.holds key = true) : live key = true := by
  cases action with
  | make name text address =>
    rw [perform, holds_make hnumbered name text address hkey] at h
    exact hlive key hkey (holds_of_holds_release h)
  | letGo name => exact hlive key hkey (holds_of_holds_release h)
  | alive name => exact hlive key hkey h
  | retake name =>
    simp only [perform] at h
    split at h
    · exact hlive key hkey h
    · next key' hkey' =>
      rcases holds_of_holds_mark h with hold | ⟨hnumber, hheld⟩
      · exact hlive key hkey hold
      · obtain rfl := hnumbered.eq_of_number (mem_keys_of_key? hkey') hkey hnumber
        exact hheld

end Keyring

end Ephemera
