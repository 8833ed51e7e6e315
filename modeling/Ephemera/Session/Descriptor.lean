import Ephemera.Descriptor
import Ephemera.Keyring
import Ephemera.Plan
import Ephemera.Shelf

/-!
# Sessions with pools of descriptors

A caller makes keys, and from them descriptors, in one or more pools. It keeps descriptors in
places that it names. A descriptor is alive while some place holds it, and a key is alive
while its maker holds it or it is a component of a descriptor that is alive.

Instances are numbered over all pools. A descriptor is asked for by keys, by handles that may
refer to nothing, or by an edit of one that stands in a place; the edited one may have come
from another pool than the one that is asked.
-/

namespace Ephemera

open Text

/-- Which descriptor is asked for. -/
inductive Derivation where
  /-- the one of these keys -/
  | ofKeys (result : String) (params : List String)
  /-- the one of the keys that these handles refer to -/
  | ofHandles (result : String) (params : List String)
  /-- another result -/
  | withResult (place result : String)
  /-- another parameter at a position -/
  | withParam (place : String) (index : Nat) (param : String)
  /-- more parameters before a position -/
  | insertAt (place : String) (index : Nat) (params : List String)
  /-- more parameters at the end -/
  | append (place : String) (params : List String)
  /-- without the parameters of a range -/
  | eraseRange (place : String) (start stop : Nat)
deriving Repr, DecidableEq

/-- What a caller may ask without changing anything. -/
inductive DescriptorQuestion where
  /-- all components of a descriptor -/
  | components (place : String)
  /-- the parameter at a position -/
  | param (place : String) (index : Nat)
  /-- whether two descriptors are equal, and whether they are one instance -/
  | compare (place place' : String)
  /-- what a descriptor feeds to a hash function -/
  | hash (place : String)
  /-- the hash under which the descriptor of some components is kept -/
  | requestHash (result : String) (params : List String)
  /-- whether a descriptor has these components -/
  | answers (place result : String) (params : List String)
  /-- the text of a descriptor with its components in fields -/
  | render (place : String) (field : Field)
  /-- the structure of a descriptor -/
  | describe (place : String) (isExpanded : Bool)
  /-- a pool's text -/
  | describePool (pool : Nat) (isExpanded : Bool)
  /-- the number of living instances of a pool -/
  | count (pool : Nat)
  /-- whether no instance of a pool is alive -/
  | isEmpty (pool : Nat)
  /-- the number of chains of a pool -/
  | capacity (pool : Nat)
deriving Repr, DecidableEq

/-- What a caller may do. -/
inductive DescriptorAction where
  /-- something with its keys -/
  | key (action : KeyAction)
  /-- have another pool -/
  | addPool (request : Nat)
  /-- ask a pool for a descriptor, and perhaps keep it in a place -/
  | derive (pool : Nat) (derivation : Derivation) (place : Option String)
  /-- empty a place -/
  | clear (place : String)
  /-- ask a question -/
  | ask (question : DescriptorQuestion)
deriving Repr, DecidableEq

/-- The answers. -/
inductive DescriptorReply where
  /-- to an action on keys or a question; nothing to making a key -/
  | flag (answer : Option Bool)
  /-- a descriptor -/
  | instance (inst : Instance Descriptor)
  /-- there is no such descriptor -/
  | refused (refusal : DescriptorRefusal)
  /-- the components of a descriptor -/
  | components (descriptor : Descriptor)
  /-- a parameter, if there is one -/
  | param (key : Option Key)
  /-- whether two descriptors are equal, and whether they are one instance -/
  | comparison (isEqual isOne : Bool)
  /-- what a descriptor feeds to a hash function -/
  | hashes (words : List UInt64)
  /-- a hash -/
  | hash (word : UInt64)
  /-- a number of instances, or that of a pool -/
  | count (number : Nat)
  /-- a number of chains -/
  | capacity (number : Nat)
  /-- a text -/
  | text (text : String)
deriving Repr, DecidableEq

/-- A caller's keys, pools and places. -/
structure DescriptorSession where
  /-- the keys -/
  keys : Keyring
  /-- the pools -/
  pools : Array (Pool Descriptor)
  /-- the places -/
  shelf : Shelf Descriptor
  /-- the number of instances made so far, in all pools -/
  made : Nat

namespace DescriptorSession

/-- No keys, and one pool for a caller who asks for so many chains. -/
def ofCapacity (request : Nat) : DescriptorSession :=
  ⟨.empty, #[.ofCapacity request], .empty, 0⟩

/-- Whether a key is a component of a descriptor that is alive. -/
def isComponent (s : DescriptorSession) (key : Key) : Bool :=
  s.shelf.places.any fun place => place.2.value.components.any (·.same key)

/-- Whether a key is alive. -/
def isLive (s : DescriptorSession) (key : Key) : Bool :=
  s.keys.holds key || s.isComponent key

/-! ## What names stand for -/

/-- The key of a name that its maker holds. -/
def key (s : DescriptorSession) (name : String) : Except Fault Key :=
  match s.keys.held? name with
  | none => .error (.unheld name)
  | some key => .ok key

/-- The keys of several names. -/
def keysOf (s : DescriptorSession) (names : List String) : Except Fault (List Key) :=
  names.mapM s.key

/-- What a handle refers to: the key of a name if it is alive. -/
def handle (s : DescriptorSession) (name : String) : Option Key :=
  (s.keys.key? name).filter s.isLive

/-- The instance in a place. -/
def instanceAt (s : DescriptorSession) (place : String) : Except Fault (Instance Descriptor) :=
  match s.shelf.at? place with
  | none => .error (.unheld place)
  | some inst => .ok inst

/-- The pool of a number. -/
def pool (s : DescriptorSession) (number : Nat) : Except Fault (Pool Descriptor) :=
  match s.pools[number]? with
  | none => .error (.unheld (toString number))
  | some pool => .ok pool

/-- The descriptor of some keys. -/
def descriptorOf (s : DescriptorSession) (result : String) (params : List String) :
    Except Fault Descriptor := do
  let result ← s.key result
  let params ← s.keysOf params
  return ⟨result, params⟩

/-- The descriptor that is asked for, if there is one. -/
def target (s : DescriptorSession) :
    Derivation → Except Fault (Except DescriptorRefusal Descriptor)
  | .ofKeys result params => do
    let descriptor ← s.descriptorOf result params
    return .ok descriptor
  | .ofHandles result params =>
    .ok (Descriptor.ofHandles (s.handle result) (params.map s.handle))
  | .withResult place result => do
    let inst ← s.instanceAt place
    let result ← s.key result
    return .ok (inst.value.withResult result)
  | .withParam place index param => do
    let inst ← s.instanceAt place
    let param ← s.key param
    return inst.value.withParam index param
  | .insertAt place index params => do
    let inst ← s.instanceAt place
    let params ← s.keysOf params
    return inst.value.insertAt index params
  | .append place params => do
    let inst ← s.instanceAt place
    let params ← s.keysOf params
    return .ok (inst.value.append params)
  | .eraseRange place start stop => do
    let inst ← s.instanceAt place
    return inst.value.eraseRange start stop

/-! ## Actions -/

/-- Asks a pool for a descriptor and puts the instance in a place. -/
def share (s : DescriptorSession) (number : Nat) (descriptor : Descriptor)
    (place : Option String) :
    Outcome DescriptorSession (Note (Instance Descriptor)) DescriptorReply :=
  match s.pool number with
  | .error fault => ⟨s, [], .error fault⟩
  | .ok pool =>
    let r := pool.share s.shelf.holds s.made descriptor
    let pools := s.pools.setIfInBounds number r.pool
    match r.outcome with
    | .error fault => ⟨{ s with pools }, r.notes, .error fault⟩
    | .ok entry =>
      -- the place is emptied only now: what it held was still alive during the search
      ⟨{ s with
          pools
          shelf := s.shelf.put place entry.target
          made := if entry.fresh then s.made + 1 else s.made },
        r.notes, .ok (.instance entry.target)⟩

/-- The answer to a question. -/
def answer (s : DescriptorSession) : DescriptorQuestion → Except Fault DescriptorReply
  | .components place => do
    let inst ← s.instanceAt place
    return .components inst.value
  | .param place index => do
    let inst ← s.instanceAt place
    return .param inst.value.params[index]?
  | .compare place place' => do
    let inst ← s.instanceAt place
    let inst' ← s.instanceAt place'
    return .comparison (inst.value.same inst'.value) (inst.number == inst'.number)
  | .hash place => do
    let inst ← s.instanceAt place
    return .hashes [inst.value.hash]
  | .requestHash result params => do
    let descriptor ← s.descriptorOf result params
    return .hash (Shareable.hash Descriptor descriptor)
  | .answers place result params => do
    let inst ← s.instanceAt place
    let descriptor ← s.descriptorOf result params
    return .flag (some (Shareable.answers inst.value descriptor))
  | .render place field => do
    let inst ← s.instanceAt place
    return .text (inst.value.render field)
  | .describe place isExpanded => do
    let inst ← s.instanceAt place
    return .text (inst.value.layout.write isExpanded)
  | .describePool number isExpanded => do
    let pool ← s.pool number
    return .text (pool.layout.write isExpanded)
  | .count number => do
    let pool ← s.pool number
    return .count (pool.count s.shelf.holds)
  | .isEmpty number => do
    let pool ← s.pool number
    return .flag (some (pool.count s.shelf.holds == 0))
  | .capacity number => do
    let pool ← s.pool number
    return .capacity pool.capacity

/-- Carries out one action. -/
def act (s : DescriptorSession) :
    DescriptorAction → Outcome DescriptorSession (Note (Instance Descriptor)) DescriptorReply
  | .key action =>
    let (keys, answer) := s.keys.perform s.isLive action
    ⟨{ s with keys }, [], .ok (.flag answer)⟩
  | .addPool request =>
    ⟨{ s with pools := s.pools.push (.ofCapacity request) }, [], .ok (.count s.pools.size)⟩
  | .derive number derivation place =>
    match s.target derivation with
    | .error fault => ⟨s, [], .error fault⟩
    | .ok (.error refusal) => ⟨s, [], .ok (.refused refusal)⟩
    | .ok (.ok descriptor) => s.share number descriptor place
  | .clear place =>
    ⟨{ s with shelf := s.shelf.clear place }, [], .ok (.flag (some (s.shelf.at? place).isSome))⟩
  | .ask question => ⟨s, [], s.answer question⟩

/-- The texts of all pools, and the number of their living instances. -/
def survey (s : DescriptorSession) : String × Nat :=
  (" ".intercalate (s.pools.toList.map fun p => p.layout.inline),
    s.pools.foldl (fun total p => total + p.count s.shelf.holds) 0)

/-- Carries out plans and reports after each. -/
def play (s : DescriptorSession) (plans : List (Plan DescriptorAction)) :
    List (Report (Note (Instance Descriptor)) DescriptorReply) :=
  Ephemera.play (Plan.run act) survey s plans

end DescriptorSession

end Ephemera
