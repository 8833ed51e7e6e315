import Ephemera.Key
import Ephemera.Table.Erase
import Ephemera.Table.Obtain
import Ephemera.Text.Layout

/-!
# The memo: values computed once per key

A memo keeps a value for each key, from the first demand on until the value is forgotten.
Each key it knows has a slot; a table links the slots, and a link is alive as long as the
key of its slot is. The generation of a slot counts how often it was filled and emptied,
so it is odd exactly while there is a value.

The memo does not run computations. `reserve` either answers with a value or issues a
`Ticket`: the slot is empty, and this is its generation. Whoever holds the ticket computes a
value and comes back with `settle`, and anything may have happened to the memo in between. If
the slot was filled meanwhile, the value there wins. If it was filled and emptied, the ticket
is outdated and its holder has to `reserve` again. Otherwise the slot is filled.

`forget` takes a value away. It leaves a slot without a value linked, since someone may hold
a ticket for it; so a slot that is unlinked while its key is alive has been emptied, and
its generation tells so to every holder of a ticket.
-/

namespace Ephemera

/-- The place of one key's value. -/
structure Slot (ν : Type) where
  /-- the key -/
  key : Key
  /-- its value, while there is one -/
  value : Option ν
  /-- how often the slot was filled and emptied -/
  generation : Nat
deriving Repr

namespace Slot

variable {ν : Type}

/-- A slot that was never filled. -/
def vacant (key : Key) : Slot ν :=
  ⟨key, none, 0⟩

/-- Whether there is a value, by the parity of the generation. -/
def isFilled (s : Slot ν) : Bool :=
  s.generation % 2 == 1

/-- The slot with a value put in; only an empty one may be filled. -/
def fill (value : ν) (s : Slot ν) : Except Fault (Slot ν) :=
  if s.generation % 2 = 0 then
    .ok { s with value := some value, generation := s.generation + 1 }
  else .error (.generation (s.generation % 2) 0)

/-- The slot with its value taken out; only a filled one may be emptied. -/
def empty (s : Slot ν) : Except Fault (Slot ν) :=
  if s.generation % 2 = 1 then .ok { s with value := none, generation := s.generation + 1 }
  else .error (.generation (s.generation % 2) 1)

end Slot

/-- The right to fill a slot that was empty when the ticket was issued. -/
structure Ticket where
  /-- the position of the slot -/
  slot : Nat
  /-- the generation it had -/
  generation : Nat
deriving Repr, DecidableEq

/-- A table of slots. Slots are never reused: a position means the same slot for ever. -/
structure Memo (ν : Type) where
  /-- links to slots, by their positions -/
  table : Table Nat
  /-- all slots that were ever made -/
  slots : Array (Slot ν)
deriving Repr

/-- What there is for whoever demands a value. -/
inductive Access (ν : Type) where
  /-- there is a value -/
  | value (value : ν)
  /-- there is none, and whoever asked may compute it -/
  | vacant (ticket : Ticket)
deriving Repr

/-- The answer to `reserve`. -/
structure Reservation (ν : Type) where
  /-- a value or a ticket -/
  outcome : Except Fault (Access ν)
  /-- the memo afterwards -/
  memo : Memo ν
  /-- lines for the log -/
  messages : List Message

/-- The answer to `settle`. -/
inductive Settlement (ν : Type) where
  /-- the value of the key, be it the computed one or one that was there before -/
  | settled (value : ν) (memo : Memo ν)
  /-- the slot was filled and emptied since the ticket was issued -/
  | outdated
  /-- the slot could not be filled -/
  | broken (fault : Fault)

/-- The answer to `forget`. -/
structure Clearing (ν : Type) where
  /-- whether there was a value -/
  outcome : Except Fault Bool
  /-- the memo afterwards -/
  memo : Memo ν
  /-- lines for the log -/
  messages : List Message

namespace Memo

variable {ν : Type}

/-- An empty memo for a caller who asks for so many chains. -/
def ofCapacity (request : Nat) : Memo ν :=
  ⟨.ofCapacity request, #[]⟩

/-- Whether the slot at a position is one that passes a test. -/
def slotIs (test : Slot ν → Bool) (m : Memo ν) (position : Nat) : Bool :=
  m.slots[position]?.any test

/-- A slot is alive as long as its key is. -/
def isLive (live : Key → Bool) (m : Memo ν) : Nat → Bool :=
  m.slotIs fun slot => live slot.key

/-- Whether a slot is that of a key. -/
def isFor (key : Key) (m : Memo ν) : Nat → Bool :=
  m.slotIs fun slot => slot.key.same key

/-- Whether a slot has a value. -/
def isFilled (m : Memo ν) : Nat → Bool :=
  m.slotIs Slot.isFilled

/-- The value in the slot at a position. -/
def valueAt (m : Memo ν) (position : Nat) : Option ν :=
  m.slots[position]?.bind Slot.value

/-- The value of a key, if it has one. Nothing is changed. -/
def value? (live : Key → Bool) (key : Key) (m : Memo ν) : Option ν :=
  (m.table.search (m.isLive live) key.hash (m.isFor key)).1.bind m.valueAt

/-- Finds or makes the slot of a key, and answers with its value or a ticket. A new slot
gets the next position. -/
def reserve (live : Key → Bool) (key : Key) (m : Memo ν) : Reservation ν :=
  let r := m.table.obtain (m.isLive live) key.hash (m.isFor key) m.slots.size
  let messages := Note.messages r.notes
  match r.outcome with
  | .error fault => { outcome := .error fault, memo := { m with table := r.table }, messages }
  | .ok entry =>
    let slots := if entry.fresh then m.slots.push (.vacant key) else m.slots
    let outcome : Access ν :=
      match slots[entry.target]? with
      | none => .vacant ⟨entry.target, 0⟩
      | some slot =>
        match slot.value with
        | some value => .value value
        | none => .vacant ⟨entry.target, slot.generation⟩
    { outcome := .ok outcome, memo := { table := r.table, slots }, messages }

/-- Fills the slot at a position. -/
def fill (position : Nat) (value : ν) (m : Memo ν) : Except Fault (Memo ν) :=
  match m.slots[position]? with
  | none => .ok m
  | some slot => (slot.fill value).map fun slot =>
    { m with slots := m.slots.setIfInBounds position slot }

/-- Hands in the value that was computed for a ticket. -/
def settle (ticket : Ticket) (value : ν) (m : Memo ν) : Settlement ν :=
  match m.slots[ticket.slot]? with
  | none => .outdated
  | some slot =>
    match slot.value with
    | some earlier => .settled earlier m
    | none =>
      if slot.generation = ticket.generation then
        match m.fill ticket.slot value with
        | .ok memo => .settled value memo
        | .error fault => .broken fault
      else .outdated

/-- Takes the value of a key away, so that the next demand computes it again. The slot is
unlinked first and emptied then. -/
def forget (live : Key → Bool) (key : Key) (m : Memo ν) : Clearing ν :=
  let r := m.table.erase (m.isLive live) key.hash (m.isFor key) m.isFilled
  let messages := Note.messages r.notes
  let unlinked := { m with table := r.table }
  match r.outcome with
  | .error fault => { outcome := .error fault, memo := unlinked, messages }
  | .ok none => { outcome := .ok false, memo := unlinked, messages }
  | .ok (some position) =>
    match m.slots[position]? with
    | none => { outcome := .ok true, memo := unlinked, messages }
    | some slot =>
      match slot.empty with
      | .error fault => { outcome := .error fault, memo := unlinked, messages }
      | .ok slot =>
        { outcome := .ok true
          memo := { unlinked with slots := m.slots.setIfInBounds position slot }
          messages }

/-- The number of living keys that have a value. -/
def count (live : Key → Bool) (m : Memo ν) : Nat :=
  (m.table.count (m.isLive live) m.isFilled).1

/-- Whether some slot holds a value of a key. -/
def keeps (key : Key) (m : Memo ν) : Bool :=
  m.slots.any fun slot => slot.value.isSome && slot.key.same key

/-- The number of chains. -/
def capacity (m : Memo ν) : Nat :=
  m.table.capacity

/-- A memo as a reader sees it. -/
def layout (m : Memo ν) : Text.Layout :=
  .record "LazyCache" [("capacity", .nat m.table.capacity), ("size_estimate", .nat m.table.size)]
    true

end Memo

end Ephemera
