import Ephemera.Table.Basic

/-!
# Obtaining an entry

`Table.obtain` answers with a living entry that is accepted, or installs the new one. What it
does on the way depends on the load. With at least one link for every other chain the table
has to `grow`: all living links are dealt out anew to twice as many chains. Otherwise only
the chain of the hash is looked at, and made `tidy` if nothing is found there.

Links are put in front of their chains one after the other, so a chain that is built from
another one comes out reversed. Growing goes through every candidate, and two that are
accepted are a fault; nothing is changed then, and no new entry is made.

Chains are made in two places: for a table that has none yet, and for one that grows. Both
insist on a power of two, and the first also on a number that can be allocated. For the
second, 2^58 entries would have to be made first, and these have no room in memory.
-/

namespace Ephemera

/-- An entry that answers a request. -/
structure Entry (α : Type) where
  /-- the entry -/
  target : α
  /-- whether the request installed it -/
  fresh : Bool
deriving Repr, DecidableEq

/-- What became of a request to find or install. -/
structure Obtained (α : Type) where
  /-- the entry, unless two qualified -/
  outcome : Except Fault (Entry α)
  /-- the table afterwards -/
  table : Table α
  /-- what happened -/
  notes : List (Note α)

namespace Table

variable {α : Type}

/-- Links dealt out one after the other, each to the front of its chain. -/
def deal (count : Nat) (links : Chain α) : Array (Chain α) :=
  links.foldl (fun chains link => chains.modify (chainIndex count link.hash) (link :: ·))
    (Array.replicate count [])

/-- Empty chains for a table that has none yet. -/
def emptyChains (count : Nat) : Except Fault (Array (Chain α)) :=
  (checkedCount count).map fun count => Array.replicate count []

/-- The end of a request that found its entry: links are dealt out to twice as many chains,
and nothing but these links stays. -/
def redeal (entry : Entry α) (links : Chain α) (notes : List (Note α))
    (chains : Array (Chain α)) (t : Table α) : Obtained α :=
  let count := 2 * chains.size
  let notes := notes ++ [.told (.resized chains.size count links.length)]
  if isPowerOfTwo count then
    { outcome := .ok entry
      table := { t with chains := some (deal count links), size := links.length }
      notes }
  else { outcome := .error .notPowerOfTwo, table := t, notes }

/-- A request met while the table doubles its chains. All living links are dealt out
anew, and the cleared ones are left behind. -/
def grow (live : α → Bool) (hash : UInt64) (accepts : α → Bool) (new : α)
    (chains : Array (Chain α)) (t : Table α) : Obtained α :=
  let living := (allLinks chains).living live
  let entries := living.candidates live hash
  let notes := (upTo accepts 2 entries).map Note.asked
  match entries.filter accepts with
  | [] =>
    -- the new link is dealt out last, so it comes to the front of its chain
    t.redeal ⟨new, true⟩ (living ++ [⟨new, hash⟩]) (notes ++ [.made new]) chains
  | [entry] => t.redeal ⟨entry, false⟩ living notes chains
  | _ :: _ :: _ => { outcome := .error .duplicate, table := t, notes := notes }

/-- A request met by looking at one chain. If nothing is found there, its cleared links
are dropped and the new link is put in front. -/
def tidy (live : α → Bool) (hash : UInt64) (accepts : α → Bool) (new : α)
    (chains : Array (Chain α)) (t : Table α) : Obtained α :=
  let index := chainIndex chains.size hash
  let chain := chainAt chains index
  let entries := chain.candidates live hash
  let notes := (upTo accepts 1 entries).map Note.asked
  match entries.find? accepts with
  | some entry => { outcome := .ok ⟨entry, false⟩, table := t, notes := notes }
  | none =>
    { outcome := .ok ⟨new, true⟩
      table := { t with
        chains := some (chains.setIfInBounds index (⟨new, hash⟩ :: (chain.living live).reverse))
        size := t.size - chain.cleared live + 1 }
      notes := notes ++ [.made new] }

/-- The chains of a table, empty ones if it has none yet. -/
def chainsOrNew (t : Table α) : Except Fault (Array (Chain α)) :=
  match t.chains with
  | none => emptyChains t.initial
  | some chains => .ok chains

/-- The living entry under a hash that is accepted, or the new one, which is installed. -/
def obtain (live : α → Bool) (hash : UInt64) (accepts : α → Bool) (new : α) (t : Table α) :
    Obtained α :=
  match t.chainsOrNew with
  | .error fault => { outcome := .error fault, table := t, notes := [] }
  | .ok chains =>
    let t := { t with chains := some chains }
    if chains.size / 2 ≤ t.size then t.grow live hash accepts new chains
    else t.tidy live hash accepts new chains

end Table

end Ephemera
