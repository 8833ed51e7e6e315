import Ephemera.Memo
import Ephemera.Session.Script

/-!
# The machine that runs computations

A computation may demand values of the memo that is waiting for it, also its own, and those
demands may start computations in turn. The machine keeps what is under way on a stack of
`Frame`s: lists of plans, and computations with the ticket they run for. One `step` either
carries out the next thing of the top frame or ends that frame and hands its reply to the
frame below. A fault takes frames off the stack until it comes to plans that are shielded.
Every state in the middle of nested computations is a `Machine`, so what holds of all of
them can be said of steps.

A key is alive while its maker holds it, while a computation for it is under way, and, if
values keep their keys, while some slot has a value of it.
-/

namespace Ephemera

/-- A caller's keys and its memo, and what is known about computations. -/
structure MemoSession where
  /-- the keys -/
  keys : Keyring
  /-- the memo -/
  memo : Memo String
  /-- the scripts of the computations to come -/
  scripts : Scripts
  /-- the number of computations begun so far -/
  calls : Nat
  /-- whether a value keeps its key alive -/
  keeping : Bool
  /-- keys that stay alive to the end -/
  pinned : List Key

/-- What happened. -/
inductive MemoEvent where
  /-- a computation of a key began, the one of this number -/
  | begun (key : Key) (call : Nat)
  /-- it ended with a value -/
  | returned (key : Key) (call : Nat)
  /-- it ended with a failure -/
  | failed (key : Key) (call : Nat)
  /-- it gave up -/
  | gaveUp (key : Key) (call : Nat)
  /-- a computation carried out a plan of its script -/
  | did (plan : Plan MemoAction) (reply : Reply MemoReply)
  /-- a line for the log -/
  | told (message : Message)

/-- What is under way. -/
inductive Frame where
  /-- several plans: where they come from, whether they are shielded from each other, those
  still to come, and the replies so far, the latest first -/
  | several (origin : Plan MemoAction) (isShielded : Bool) (pending : List (Plan MemoAction))
      (replies : List (Reply MemoReply))
  /-- a computation: what demanded it, its key and number, the ticket it runs for if its
  value is to be kept, the plans still to come, and how it ends -/
  | computing (origin : Plan MemoAction) (key : Key) (call : Nat) (ticket : Option Ticket)
      (pending : List (Plan MemoAction)) (ending : Ending)

/-- A session in the middle of something, with the events so far, the latest first. -/
structure Scene where
  /-- the session -/
  session : MemoSession
  /-- the events, the latest first -/
  events : List MemoEvent

/-- How far things are. -/
inductive Phase where
  /-- something is under way, the latest first -/
  | running (top : Frame) (rest : List Frame)
  /-- all is done -/
  | finished (result : Except Fault (Reply MemoReply))

/-- A scene and what is under way in it. -/
structure Machine where
  /-- the scene -/
  scene : Scene
  /-- how far things are -/
  phase : Phase

namespace MemoSession

/-- Whether a key is alive while computations for some keys are under way. -/
def isLive (s : MemoSession) (inUse : List Key) (key : Key) : Bool :=
  s.keys.holds key || s.pinned.any (·.same key) || inUse.any (·.same key)
    || (s.keeping && s.memo.keeps key)

/-- Carries out an action that computes nothing. If values keep their keys, the key of a
removal stays alive for good. -/
def act (s : MemoSession) (inUse : List Key) :
    BriefAction → Outcome MemoSession Message MemoReply
  | .key action =>
    let (keys, answer) := s.keys.perform (s.isLive inUse) action
    ⟨{ s with keys }, [], .ok (.flag answer)⟩
  | .look name =>
    match s.keys.held? name with
    | none => ⟨s, [], .error (.unheld name)⟩
    | some key => ⟨s, [], .ok (.seen (s.memo.value? (s.isLive inUse) key))⟩
  | .forget name =>
    match s.keys.held? name with
    | none => ⟨s, [], .error (.unheld name)⟩
    | some key =>
      let s := if s.keeping then { s with pinned := key :: s.pinned } else s
      let r := s.memo.forget (s.isLive inUse) key
      ⟨{ s with memo := r.memo }, r.messages, r.outcome.map fun answer => .flag (some answer)⟩
  | .count => ⟨s, [], .ok (.count (s.memo.count (s.isLive inUse)))⟩
  | .isEmpty => ⟨s, [], .ok (.flag (some (s.memo.count (s.isLive inUse) == 0)))⟩
  | .capacity => ⟨s, [], .ok (.capacity s.memo.capacity)⟩
  | .describe isExpanded => ⟨s, [], .ok (.text (s.memo.layout.write isExpanded))⟩

end MemoSession

namespace Frame

/-- The key of a computation. -/
def key? : Frame → Option Key
  | several .. => none
  | computing _ key .. => some key

end Frame

/-- The keys of the computations on a stack. -/
def keysInUse (stack : List Frame) : List Key :=
  stack.filterMap Frame.key?

namespace Scene

/-- The scene after an event. -/
def emit (e : MemoEvent) (w : Scene) : Scene :=
  { w with events := e :: w.events }

/-- The scene after lines for the log. -/
def tell (messages : List Message) (w : Scene) : Scene :=
  { w with events := (messages.map MemoEvent.told).reverse ++ w.events }

end Scene

namespace Machine

/-- Hands a reply to the frame that waits for it. A computation takes note of it; several
plans collect it. -/
def deliver (origin : Plan MemoAction) (reply : Reply MemoReply) (w : Scene) :
    List Frame → Machine
  | [] => ⟨w, .finished (.ok reply)⟩
  | .several origin' isShielded pending replies :: rest =>
    ⟨w, .running (.several origin' isShielded pending (reply :: replies)) rest⟩
  | .computing origin' key call ticket pending ending :: rest =>
    ⟨w.emit (.did origin reply), .running (.computing origin' key call ticket pending ending) rest⟩

/-- Takes frames off the stack until there are plans that a fault does not go through. -/
def unwind (fault : Fault) (w : Scene) : List Frame → Machine
  | [] => ⟨w, .finished (.error fault)⟩
  | .several origin true pending replies :: rest =>
    ⟨w, .running (.several origin true pending (.struck fault :: replies)) rest⟩
  | .several _ false _ _ :: rest => unwind fault w rest
  | .computing .. :: rest => unwind fault w rest

/-- The value of a computation that does not choose one. -/
def standardValue (key : Key) (call : Nat) : String :=
  key.text ++ "#" ++ toString call

/-- Begins a computation. If no script is left for the key it is over at once; nothing
has happened to the slot then, so the slot is filled without another look. -/
def compute (origin : Plan MemoAction) (key : Key) (ticket : Option Ticket) (w : Scene)
    (rest : List Frame) : Machine :=
  let call := w.session.calls
  let session := { w.session with calls := call + 1 }
  let w := { w with session }.emit (.begun key call)
  match session.scripts.next? key.name with
  | some (script, scripts) =>
    ⟨{ w with session := { session with scripts } },
      .running (.computing origin key call ticket script.plans script.ending) rest⟩
  | none =>
    let value := standardValue key call
    let w := w.emit (.returned key call)
    match ticket with
    | none => deliver origin (.single (.value value)) w rest
    | some ticket =>
      match session.memo.fill ticket.slot value with
      | .error fault => unwind fault w rest
      | .ok memo =>
        deliver origin (.single (.value value)) { w with session := { session with memo } } rest

/-- Asks the memo for a value or for a ticket to compute it. The key is in use from here
on until the demand is met. -/
def enter (origin : Plan MemoAction) (key : Key) (w : Scene) (rest : List Frame) : Machine :=
  let live := w.session.isLive (key :: keysInUse rest)
  let r := w.session.memo.reserve live key
  let w := { w with session := { w.session with memo := r.memo } }.tell r.messages
  match r.outcome with
  | .error fault => unwind fault w rest
  | .ok (.value value) => deliver origin (.single (.value value)) w rest
  | .ok (.vacant ticket) => compute origin key (some ticket) w rest

/-- Demands the value of a key; one that is there is found without asking for a ticket. -/
def demand (origin : Plan MemoAction) (key : Key) (w : Scene) (rest : List Frame) : Machine :=
  match w.session.memo.value? (w.session.isLive (key :: keysInUse rest)) key with
  | some value => deliver origin (.single (.value value)) w rest
  | none => enter origin key w rest

/-- Hands in the value of a computation. If its ticket is outdated the demand starts over. -/
def settle (origin : Plan MemoAction) (key : Key) (ticket : Option Ticket) (value : String)
    (w : Scene) (rest : List Frame) : Machine :=
  match ticket with
  | none => deliver origin (.single (.value value)) w rest
  | some ticket =>
    match w.session.memo.settle ticket value with
    | .settled value memo =>
      deliver origin (.single (.value value)) { w with session := { w.session with memo } } rest
    | .outdated => enter origin key (w.tell [.outdated ticket.generation]) rest
    | .broken fault => unwind fault w rest

/-- Ends a computation. -/
def conclude (origin : Plan MemoAction) (key : Key) (call : Nat) (ticket : Option Ticket)
    (w : Scene) (rest : List Frame) : Ending → Machine
  | .value value => settle origin key ticket value (w.emit (.returned key call)) rest
  | .standard =>
    settle origin key ticket (standardValue key call) (w.emit (.returned key call)) rest
  | .fail message =>
    let reply :=
      match ticket with
      | none => MemoReply.failed message
      | some _ => MemoReply.refused (.failed message)
    deliver origin (.single reply) (w.emit (.failed key call)) rest
  | .giveUp message => unwind (.raised message) (w.emit (.gaveUp key call)) rest

/-- Starts a plan on a stack that waits for its reply. -/
def start (w : Scene) (stack : List Frame) : Plan MemoAction → Machine
  | .apart plans => ⟨w, .running (.several (.apart plans) true plans []) stack⟩
  | .together plans => ⟨w, .running (.several (.together plans) false plans []) stack⟩
  | .act (.brief action) =>
    let o := w.session.act (keysInUse stack) action
    let w := { w with session := o.state }.tell o.events
    match o.result with
    | .error fault => unwind fault w stack
    | .ok reply => deliver (.act (.brief action)) (.single reply) w stack
  | .act (.demand .held name) =>
    match w.session.keys.held? name with
    | none => unwind (.unheld name) w stack
    | some key => demand (.act (.demand .held name)) key w stack
  | .act (.demand .handle name) =>
    let origin := .act (.demand .handle name)
    match (w.session.keys.key? name).filter (w.session.isLive (keysInUse stack)) with
    | none => deliver origin (.single (.refused .gone)) w stack
    | some key => demand origin key w stack
  | .act (.demand .unkept name) =>
    match w.session.keys.held? name with
    | none => unwind (.unheld name) w stack
    | some key => compute (.act (.demand .unkept name)) key none w stack

/-- Does the next thing. -/
def step (w : Scene) (top : Frame) (rest : List Frame) : Machine :=
  match top with
  | .several origin _ [] replies => deliver origin (.several replies.reverse) w rest
  | .several origin isShielded (plan :: pending) replies =>
    start w (.several origin isShielded pending replies :: rest) plan
  | .computing origin key call ticket [] ending =>
    conclude origin key call ticket w rest ending
  | .computing origin key call ticket (plan :: pending) ending =>
    start w (.computing origin key call ticket pending ending :: rest) plan

end Machine

end Ephemera
