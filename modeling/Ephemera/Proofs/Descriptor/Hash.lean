import Ephemera.Proofs.Descriptor.Edit
import Ephemera.Proofs.Hash

/-!
# How much of a descriptor its hash shows

To a hash function a descriptor is the sequence of its components, the result first, and a component
is its address. Another object in any one place changes the hash (`hash_withComponent`). The order
counts as well, with one exception: where two components an odd distance apart are exchanged, the
hash stays as it is if nothing but the highest bit tells their own hashes apart (`hash_exchanged`).
-/

namespace Ephemera

namespace Descriptor

variable {d : Descriptor} {index i j : Nat} {key old k k' : Key}

/-- With another component at a position. The result has position 0, and the parameter at `i` has
position `i + 1`. -/
def withComponent (index : Nat) (key : Key) (d : Descriptor) : Descriptor :=
  match index with
  | 0 => d.withResult key
  | index + 1 =>
    match d.withParam index key with
    | .ok d' => d'
    | .error _ => d

@[simp]
theorem components_withComponent (index : Nat) (key : Key) (d : Descriptor) :
    (d.withComponent index key).components = d.components.set index key := by
  cases index with
  | zero => rfl
  | succ index =>
    rw [withComponent, withParam]
    by_cases hlt : index < d.params.length
    · rw [if_pos hlt]
      rfl
    · rw [if_neg hlt, components, List.set_cons_succ, List.set_eq_of_length_le (Nat.not_lt.mp hlt)]

/-- The result is one more part, before which there is nothing. -/
theorem hash_eq_sequenceHash (d : Descriptor) :
    Shareable.hash Descriptor d = sequenceHash 0 (d.components.map Key.hash) := by
  rw [components, List.map_cons, sequenceHash_cons, mixHash, UInt64.zero_mul, UInt64.zero_add]
  rfl

/-- The hash tells a component from another one in its place if and only if it is another object. -/
theorem hash_withComponent (h : d.components[index]? = some old) (key : Key) :
    Shareable.hash Descriptor (d.withComponent index key) = Shareable.hash Descriptor d
      ↔ key.address = old.address := by
  obtain ⟨before, after, hparts, rfl⟩ := exists_around h
  rw [hash_eq_sequenceHash, hash_eq_sequenceHash, components_withComponent, hparts,
    set_around, List.map_append, List.map_cons, List.map_append, List.map_cons, sequenceHash_one]
  exact addressHash_injective.eq_iff

/-- The result in place of a parameter with the same text, and the parameter itself under another
name. -/
theorem hash_withComponent_lookalike :
    let k : Key := ⟨0, "k", "t", 64⟩
    let d : Descriptor := ⟨k, [k, ⟨1, "l", "t", 128⟩]⟩
    Shareable.hash Descriptor (d.withComponent 2 k) ≠ Shareable.hash Descriptor d ∧
      Shareable.hash Descriptor (d.withComponent 2 ⟨1, "m", "t", 128⟩)
        = Shareable.hash Descriptor d := by
  intro k d
  have hsecond : d.components[2]? = some ⟨1, "l", "t", 128⟩ := rfl
  exact ⟨fun h => absurd ((hash_withComponent hsecond k).mp h) (by decide),
    (hash_withComponent hsecond _).mpr rfl⟩

/-- Two components that are exchanged stand on either side of those between them. -/
theorem components_exchanged (hi : d.components[i]? = some k) (hj : d.components[j]? = some k')
    (hlt : i < j) : ∃ before between after,
      d.components = before ++ k :: (between ++ k' :: after) ∧
      ((d.withComponent i k').withComponent j k).components
        = before ++ k' :: (between ++ k :: after) ∧ between.length + 1 = j - i := by
  obtain ⟨front, after, hparts, rfl⟩ := exists_around hj
  rw [hparts, List.getElem?_append_left hlt] at hi
  obtain ⟨before, between, rfl, rfl⟩ := exists_around hi
  have hlength : (before ++ k :: between).length = (before ++ k' :: between).length := by simp
  refine ⟨before, between, after, by simpa using hparts, ?_, by simp⟩
  rw [components_withComponent, components_withComponent, hparts, hlength, List.append_assoc,
    List.cons_append, set_around, ← List.cons_append, ← List.append_assoc, set_around,
    List.append_assoc, List.cons_append]

/-- Over an odd distance two components can be exchanged without a trace in the hash if and only if
their own hashes agree in all bits but the highest. -/
theorem hash_exchanged (hi : d.components[i]? = some k) (hj : d.components[j]? = some k')
    (hlt : i < j) (hodd : (j - i) % 2 = 1) :
    let exchanged := (d.withComponent i k').withComponent j k
    (Shareable.hash Descriptor exchanged = Shareable.hash Descriptor d
      ↔ (addressHash k.address).toNat % 2 ^ 63 = (addressHash k'.address).toNat % 2 ^ 63) ∧
    (k.address ≠ k'.address →
      (Shareable.hash Descriptor exchanged = Shareable.hash Descriptor d
        ↔ (addressHash k.address).toNat = (addressHash k'.address).toNat + 2 ^ 63 ∨
          (addressHash k'.address).toNat = (addressHash k.address).toNat + 2 ^ 63)) := by
  intro exchanged
  have hagree : Shareable.hash Descriptor exchanged = Shareable.hash Descriptor d
      ↔ k.hash.toNat % 2 ^ 63 = k'.hash.toNat % 2 ^ 63 := by
    obtain ⟨before, between, after, hparts, hexchanged, hlength⟩ := components_exchanged hi hj hlt
    rw [← hlength] at hodd
    rw [hash_eq_sequenceHash, hash_eq_sequenceHash, hexchanged, hparts]
    simp only [List.map_append, List.map_cons]
    rw [eq_comm, sequenceHash_swap, List.length_map, mul_pow_add_eq_iff hodd]
  exact ⟨hagree, fun hne => hagree.trans (toNat_mod_eq_iff (addressHash_injective.ne hne))⟩

/-- The hashes of the result and the first parameter differ in the highest bit only, so nothing
shows if these two are exchanged; that the two parameters are exchanged does show. -/
theorem hash_exchanged_unseen :
    let k : Key := ⟨0, "k", "t", 64⟩
    let k' : Key := ⟨1, "l", "t", 0xB364466180000040⟩
    let k'' : Key := ⟨2, "m", "t", 128⟩
    let d : Descriptor := ⟨k, [k', k'']⟩
    Shareable.hash Descriptor ((d.withComponent 0 k').withComponent 1 k)
        = Shareable.hash Descriptor d ∧
      Shareable.hash Descriptor ((d.withComponent 1 k'').withComponent 2 k')
        ≠ Shareable.hash Descriptor d := by
  intro k k' k'' d
  have h₀ : d.components[0]? = some k := rfl
  have h₁ : d.components[1]? = some k' := rfl
  have h₂ : d.components[2]? = some k'' := rfl
  constructor
  · exact ((hash_exchanged h₀ h₁ (by decide) rfl).2 (by decide)).mpr (.inl (by decide))
  · exact fun h => absurd ((hash_exchanged h₁ h₂ (by decide) rfl).1.mp h) (by decide)

end Descriptor

end Ephemera
