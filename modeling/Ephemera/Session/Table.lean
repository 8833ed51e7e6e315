import Ephemera.Keyring
import Ephemera.Plan
import Ephemera.Table.Erase
import Ephemera.Table.Obtain

/-!
# Sessions with a table of keys

A caller makes keys and puts them into a table under hashes of its own choice. The table
keeps none of them: a key is alive as long as its maker holds it. Entries are singled out
by tests, and every time one is put to a test shows among the events.

A request can name its tests in any form `τ`, as long as it is known which keys pass them;
any predicate on keys is such a form. Callers write theirs as `Test`s.
-/

namespace Ephemera

/-- Which keys a caller means. -/
inductive Test where
  /-- all of them -/
  | all
  /-- none of them -/
  | nothing
  /-- those with one of these names -/
  | named (names : List String)
  /-- those that hold this text -/
  | holding (text : String)
deriving Repr, DecidableEq

/-- Whether a key is meant. -/
def Test.passes : Test → Key → Bool
  | .all, _ => true
  | .nothing, _ => false
  | .named names, key => names.contains key.name
  | .holding text, key => key.text == text

/-- What a caller may do, with tests of the form `τ`. -/
inductive TableRequest (τ : Type) where
  /-- something with its keys -/
  | key (action : KeyAction)
  /-- find an entry, or install the key of a name -/
  | obtain (hash : UInt64) (accepts : τ) (new : String)
  /-- find an entry -/
  | search (hash : UInt64) (accepts : τ)
  /-- take an entry out -/
  | erase (hash : UInt64) (accepts removable : τ)
  /-- count living entries -/
  | count (accepts : τ)
deriving Repr, DecidableEq

/-- What a caller may do. -/
abbrev TableAction := TableRequest Test

/-- The answers. -/
inductive TableReply where
  /-- to an action on keys; nothing to making one -/
  | flag (answer : Option Bool)
  /-- an entry, if there is one -/
  | entry (key : Option Key)
  /-- a number of entries -/
  | count (number : Nat)
deriving Repr, DecidableEq

/-- A caller's keys and its table. -/
structure TableSession where
  /-- the keys -/
  keys : Keyring
  /-- the table -/
  table : Table Key

namespace TableSession

/-- No keys, and an empty table for a caller who asks for so many chains. -/
def ofCapacity (request : Nat) : TableSession :=
  ⟨.empty, .ofCapacity request⟩

/-- A key is alive while its maker holds it. -/
def isLive (s : TableSession) (key : Key) : Bool :=
  s.keys.holds key

/-- Carries out one request, given which keys pass its tests. -/
def act {τ : Type} (passes : τ → Key → Bool) (s : TableSession) :
    TableRequest τ → Outcome TableSession (Note Key) TableReply
  | .key action =>
    let (keys, answer) := s.keys.perform s.isLive action
    ⟨{ s with keys }, [], .ok (.flag answer)⟩
  | .obtain hash accepts new =>
    match s.keys.held? new with
    | none => ⟨s, [], .error (.unheld new)⟩
    | some key =>
      let r := s.table.obtain s.isLive hash (passes accepts) key
      ⟨{ s with table := r.table }, r.notes, r.outcome.map fun e => .entry (some e.target)⟩
  | .search hash accepts =>
    let (entry, notes) := s.table.search s.isLive hash (passes accepts)
    ⟨s, notes, .ok (.entry entry)⟩
  | .erase hash accepts removable =>
    let r := s.table.erase s.isLive hash (passes accepts) (passes removable)
    ⟨{ s with table := r.table }, r.notes, r.outcome.map .entry⟩
  | .count accepts =>
    let (number, notes) := s.table.count s.isLive (passes accepts)
    ⟨s, notes, .ok (.count number)⟩

/-- The load of the table, and the number of living entries. -/
def survey (s : TableSession) : String × Nat :=
  (toString s.table.size ++ "/" ++ toString s.table.capacity,
    (s.table.count s.isLive fun _ => true).1)

/-- Carries out plans and reports after each. -/
def play (s : TableSession) (plans : List (Plan TableAction)) :
    List (Report (Note Key) TableReply) :=
  Ephemera.play (Plan.run (act Test.passes)) survey s plans

end TableSession

end Ephemera
