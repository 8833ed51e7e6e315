import Ephemera.Proofs.Table.Bag

/-!
# What the representation of a table can be relied on for

`Table.Sound` is kept by every request. Here is what it comes to for whoever looks inside of a
table that callers have used: how many chains there are, where the links are, and what `size`
says. The size is the exact number of links, so it is never less than the number of living
entries, what it exceeds that number by are the cleared links that are still around, and whatever
a request takes off it can be taken off.

All of it holds after any requests, and those that ended in a fault are no exception.
-/

namespace Ephemera

namespace Table

variable {α : Type} {live accepts removable : α → Bool} {hash : UInt64} {new : α} {t : Table α}

/-! ## What the size says -/

/-- The size is the number of living entries and of cleared links together. -/
theorem Sound.count_add_cleared (hs : t.Sound) (live : α → Bool) :
    (t.count live fun _ => true).1 + t.links.cleared live = t.size := by
  have hliving : (t.count live fun _ => true).1 = (t.links.living live).length := by
    simp [count]
  rw [hliving, hs.counted]
  exact Chain.length_living_add_cleared live t.links

/-- While a chain is gone through link by link, the size covers each link that is lost. -/
theorem Sound.countP_before_lt (hs : t.Sound) {chains : Array (Chain α)}
    (h : t.chains = some chains) {index : Nat} {before after : Chain α} {link : Link α}
    (hchain : chainAt chains index = before ++ link :: after) (lost : Link α → Bool) :
    before.countP lost < t.size := by
  have hmem : link ∈ chainAt chains index := by
    rw [hchain]
    exact List.mem_append_right before List.mem_cons_self
  have hlength := hs.length_chainAt_le h (lt_size_of_mem_chainAt hmem)
  have hcount : before.countP lost ≤ before.length := List.countP_le_length
  rw [hchain, List.length_append, List.length_cons] at hlength
  omega

end Table

namespace TableSession

variable {τ : Type} {passes : τ → Key → Bool} {s : TableSession}

theorem Sound.after (hs : s.Sound) (requests : List (TableRequest τ)) :
    (s.after passes requests).Sound := by
  induction requests generalizing s with
  | nil => exact hs
  | cons request requests ih => exact ih (hs.act request)

/-- What is known of the table of a caller who asked for so many chains. -/
structure Represented (request : Nat) (s : TableSession) : Prop where
  /-- the request was rounded -/
  initial : s.table.initial = roundedCapacity request
  /-- the chains were doubled some number of times, so their number is a power of two -/
  doubled : ∀ chains, s.table.chains = some chains →
    (∃ k, chains.size = s.table.initial * 2 ^ k) ∧ ∃ k, chains.size = 2 ^ k
  /-- a link is in the chain of its hash, be it living or cleared -/
  placed : ∀ chains, s.table.chains = some chains → ∀ index,
    ∀ link ∈ Table.chainAt chains index, chainIndex chains.size link.hash = index
  /-- the size is the number of links in all chains -/
  counted : s.table.size = s.table.links.length
  /-- it is not less than the number of living entries -/
  covers : (s.table.count s.isLive fun _ => true).1 ≤ s.table.size
  /-- it exceeds that number by that of the cleared links -/
  cleared : s.table.size - (s.table.count s.isLive fun _ => true).1
    = s.table.links.cleared s.isLive
  /-- whichever links of a chain are taken off the size, one after the other, there is
  something left to take each of them off -/
  unsaturated : ∀ chains, s.table.chains = some chains → ∀ index before link after,
    Table.chainAt chains index = before ++ link :: after →
      ∀ lost : Link Key → Bool, 0 < s.table.size - before.countP lost

/-- The table is represented as it should be after any requests, with tests of any kind, under any
hashes, and whichever keys were let go in between. -/
theorem after_represented (passes : τ → Key → Bool) (request : Nat)
    (requests : List (TableRequest τ)) :
    Represented request ((ofCapacity request).after passes requests) := by
  have hs : ((ofCapacity request).after passes requests).Sound :=
    (sound_ofCapacity request).after requests
  generalize hfinal : (ofCapacity request).after passes requests = s at hs
  have hsum := hs.table.count_add_cleared s.isLive
  refine
    { initial := ?_
      doubled := fun chains h =>
        ⟨hs.table.doubled chains h, isPowerOfTwo_iff.mp (hs.table.isPowerOfTwo_size h)⟩
      placed := hs.table.placed
      counted := hs.table.counted
      covers := by omega
      cleared := by omega
      unsaturated := ?_ }
  · rw [← hfinal, initial_after]
    rfl
  · intro chains h index before link after hchain lost
    have hlt := hs.table.countP_before_lt h hchain lost
    omega

end TableSession

end Ephemera
