import Ephemera.Table.Basic

/-!
# Erasing an entry

`Table.erase` takes out the living entry under a hash that a request accepts, provided that it
may go: the second test, `removable`, is put only to entries that passed the first. On the way
the chain loses its cleared links. A chain with nothing to lose stays as it is; otherwise it
is built anew, link by link, and so comes out reversed.

All candidates are gone through, and two that qualify are a fault; nothing is changed then.
-/

namespace Ephemera

/-- What became of a request to erase. -/
structure Erased (α : Type) where
  /-- the entry that was taken out, if any, unless two qualified -/
  outcome : Except Fault (Option α)
  /-- the table afterwards -/
  table : Table α
  /-- what happened -/
  notes : List (Note α)

namespace Table

variable {α : Type}

/-- The tests put to candidates: each is asked, and offered if it passes, until a second
one qualifies. -/
def erasureNotes (accepts removable : α → Bool) (entries : List α) : List (Note α) :=
  (upTo (fun entry => accepts entry && removable entry) 2 entries).flatMap fun entry =>
    if accepts entry then [.asked entry, .offered entry] else [.asked entry]

/-- The table with the chain at an index built anew, without its cleared links and without
those that a test takes out, `taken` in number. -/
def rebuild (live : α → Bool) (takes : Link α → Bool) (index taken : Nat)
    (chains : Array (Chain α)) (t : Table α) : Table α :=
  let chain := chainAt chains index
  let kept := (chain.living live).filter fun link => !takes link
  { t with
    chains := some (chains.setIfInBounds index kept.reverse)
    size := t.size - chain.cleared live - taken }

/-- Takes out the living entry under a hash that is accepted and removable. -/
def erase (live : α → Bool) (hash : UInt64) (accepts removable : α → Bool) (t : Table α) :
    Erased α :=
  match t.chains with
  | none => { outcome := .ok none, table := t, notes := [] }
  | some chains =>
    let index := chainIndex chains.size hash
    let chain := chainAt chains index
    let cleared := chain.cleared live
    let qualifies := fun entry => accepts entry && removable entry
    let takes := fun (link : Link α) => link.hash == hash && qualifies link.referent
    let entries := chain.candidates live hash
    let notes := erasureNotes accepts removable entries
    match entries.filter qualifies with
    | [] =>
      if cleared = 0 then { outcome := .ok none, table := t, notes := notes }
      else
        { outcome := .ok none
          table := t.rebuild live takes index 0 chains
          notes := notes ++ [.told (.rebuilt index cleared)] }
    | [entry] =>
      { outcome := .ok (some entry)
        table := t.rebuild live takes index 1 chains
        notes := notes ++ [.told (.rebuilt index cleared)] }
    | _ :: _ :: _ => { outcome := .error .duplicate, table := t, notes := notes }

end Table

end Ephemera
