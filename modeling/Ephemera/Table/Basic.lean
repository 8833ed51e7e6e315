import Ephemera.Capacity
import Ephemera.Chain
import Ephemera.Message

/-!
# The table of links

A table spreads its links over chains by their hashes. It has no chains until the first
request that may install something, and from then on at least sixteen. Its `size` is the
number of links in all chains, cleared ones included.

Every operation takes from its caller what the table cannot know: the test `live` for
the targets of links, and tests that single out an entry. It also reports, as a list of
`Note`s, which entries the caller's tests were put to and in which order, whether the new
entry was used, and what there is for the log.

This module holds the operations that only look: `search` finds the first candidate that is
accepted, and `count` goes through all chains.
-/

namespace Ephemera

/-- What happened during an operation on a table. -/
inductive Note (α : Type) where
  /-- an entry was put to the test that a request is about -/
  | asked (entry : α)
  /-- an entry that had passed was put to the test whether it may go -/
  | offered (entry : α)
  /-- the new entry was made -/
  | made (entry : α)
  /-- a line for the log -/
  | told (message : Message)
deriving Repr, DecidableEq

/-- The lines for the log among notes. -/
def Note.messages {α : Type} (notes : List (Note α)) : List Message :=
  notes.filterMap fun
    | told message => some message
    | _ => none

/-- A hash table that does not keep its entries alive. -/
structure Table (α : Type) where
  /-- the number of chains it has once there is something to put in -/
  initial : Nat
  /-- its chains, if it has any yet -/
  chains : Option (Array (Chain α))
  /-- the number of links in its chains, cleared ones included -/
  size : Nat
deriving Repr

namespace Table

variable {α : Type}

/-- An empty table for a caller who asks for so many chains. -/
def ofCapacity (request : Nat) : Table α :=
  ⟨roundedCapacity request, none, 0⟩

/-- The number of chains, or the number there will be. -/
def capacity (t : Table α) : Nat :=
  match t.chains with
  | none => t.initial
  | some chains => chains.size

/-- The chain at an index, empty where there is none. -/
def chainAt (chains : Array (Chain α)) (index : Nat) : Chain α :=
  chains.getD index []

/-- All links of several chains, chain by chain. -/
def allLinks (chains : Array (Chain α)) : Chain α :=
  chains.toList.flatten

/-- The links of a table, chain by chain. -/
def links (t : Table α) : Chain α :=
  match t.chains with
  | none => []
  | some chains => allLinks chains

/-- The living entries under a hash, in the order of its chain. -/
def candidates (live : α → Bool) (hash : UInt64) (t : Table α) : List α :=
  match t.chains with
  | none => []
  | some chains => (chainAt chains (chainIndex chains.size hash)).candidates live hash

/-- The first living entry under a hash that is accepted. -/
def search (live : α → Bool) (hash : UInt64) (accepts : α → Bool) (t : Table α) :
    Option α × List (Note α) :=
  let entries := t.candidates live hash
  (entries.find? accepts, (upTo accepts 1 entries).map .asked)

/-- The number of living links whose entries are accepted. -/
def count (live : α → Bool) (accepts : α → Bool) (t : Table α) : Nat × List (Note α) :=
  let entries := (t.links.living live).map Link.referent
  (entries.countP accepts, entries.map .asked)

end Table

end Ephemera
