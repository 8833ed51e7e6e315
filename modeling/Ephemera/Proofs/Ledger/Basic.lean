import Ephemera.Proofs.Machine.Later
import Mathlib.Logic.Function.Basic

/-!
# The ledger: what a memo is to its caller

A `Ledger` has no tables, links, slots, tickets or stacks. It knows the value of each key that
has one, and how often each key's value was taken away. What a caller may do is defined by
recursion on plans, and a computation is carried out right where its value is demanded:
`Ledger.keep` says when the value is kept, when one that came in between wins, and when
the demand has to be repeated.

A value counts only while its key is alive. Nobody holds a key that is not, so it does not
matter whether the ledger still has a value for it.

Of all that a caller can say about tables a ledger knows one thing: whether more chains were asked
for than can be allocated. It is barred then, and every demand for a value that is to be kept ends
in a fault, before anything is computed.

Computations may be nested to any depth, and a demand may be repeated any number of times, but
each time a script is used up. `Ledger.serve` is defined by recursion on a number of scripts,
those that may still be used up, and `Ledger.meet` takes all that are left.
-/

namespace Ephemera

/-! ## What shows -/

mutual

/-- A reply with all answers changed. -/
def Reply.map {ρ σ : Type} (f : ρ → σ) : Reply ρ → Reply σ
  | .single answer => .single (f answer)
  | .several replies => .several (mapAll f replies)
  | .struck fault => .struck fault

/-- Replies with all answers changed. -/
def Reply.mapAll {ρ σ : Type} (f : ρ → σ) : List (Reply ρ) → List (Reply σ)
  | [] => []
  | reply :: rest => reply.map f :: mapAll f rest

end

/-- An answer without what depends on the number of chains. -/
def MemoReply.visible : MemoReply → MemoReply
  | .capacity _ => .capacity 0
  | .text _ => .text ""
  | reply => reply

/-- A reply without what depends on the number of chains. -/
def Reply.visible (reply : Reply MemoReply) : Reply MemoReply :=
  reply.map MemoReply.visible

/-- An event that is not a line for the log. -/
def MemoEvent.visible? : MemoEvent → Option MemoEvent
  | .did plan reply => some (.did plan reply.visible)
  | .told _ => none
  | event => some event

/-- A report without lines for the log, and without what depends on the number of chains. -/
def Report.visible (report : Report MemoEvent MemoReply) : Report MemoEvent MemoReply where
  reply := report.reply.visible
  events := report.events.filterMap MemoEvent.visible?
  state := ""
  living := report.living

/-! ## The ledger -/

/-- A caller's keys, the values of keys, and what is known about computations. -/
structure Ledger where
  /-- the keys -/
  keys : Keyring
  /-- the values of the keys that have one -/
  values : Key → Option String
  /-- how often the value of a key was taken away -/
  removals : Key → Nat
  /-- the scripts of the computations to come -/
  scripts : Scripts
  /-- the number of computations begun so far -/
  calls : Nat
  /-- whether a value keeps its key alive -/
  keeping : Bool
  /-- keys that stay alive to the end -/
  pinned : List Key
  /-- whether no value can be kept -/
  barred : Bool

namespace Ledger

/-- No keys and no values, for a caller who asks for so many chains. -/
def empty (request : Nat) (scripts : Scripts) (keeping : Bool) : Ledger where
  keys := .empty
  values _ := none
  removals _ := 0
  scripts := scripts
  calls := 0
  keeping := keeping
  pinned := []
  barred := decide (2 ^ 59 < request)

/-- Whether a key is alive while computations for some keys are under way. -/
def isLive (l : Ledger) (inUse : List Key) (key : Key) : Bool :=
  l.keys.holds key || decide (key ∈ l.pinned) || decide (key ∈ inUse)
    || (l.keeping && (l.values key).isSome)

/-- The number of living keys that have a value. -/
def count (l : Ledger) (inUse : List Key) : Nat :=
  l.keys.keys.countP fun key => l.isLive inUse key && (l.values key).isSome

/-- A key gets its value. -/
def put (key : Key) (value : String) (l : Ledger) : Ledger :=
  { l with values := Function.update l.values key (some value) }

/-- The value of a key is taken away. -/
def take (key : Key) (l : Ledger) : Ledger :=
  { l with
    values := Function.update l.values key none
    removals := Function.update l.removals key (l.removals key + 1) }

/-- A living key that stays alive for good, if values keep their keys. -/
def pin (key : Key) (l : Ledger) : Ledger :=
  if l.keeping then { l with pinned := key :: l.pinned } else l

/-- Carries out an action that computes nothing. -/
def brief (l : Ledger) (inUse : List Key) : BriefAction → Outcome Ledger MemoEvent MemoReply
  | .key action =>
    let (keys, answer) := l.keys.perform (l.isLive inUse) action
    ⟨{ l with keys }, [], .ok (.flag answer)⟩
  | .look name =>
    match l.keys.held? name with
    | none => ⟨l, [], .error (.unheld name)⟩
    | some key => ⟨l, [], .ok (.seen (l.values key))⟩
  | .forget name =>
    match l.keys.held? name with
    | none => ⟨l, [], .error (.unheld name)⟩
    | some key =>
      match l.values key with
      | none => ⟨l.pin key, [], .ok (.flag (some false))⟩
      | some _ => ⟨(l.pin key).take key, [], .ok (.flag (some true))⟩
  | .count => ⟨l, [], .ok (.count (l.count inUse))⟩
  | .isEmpty => ⟨l, [], .ok (.flag (some (l.count inUse == 0)))⟩
  | .capacity => ⟨l, [], .ok (.capacity 0)⟩
  | .describe _ => ⟨l, [], .ok (.text "")⟩

/-! ## Computations -/

section

variable (act : Ledger → MemoAction → Outcome Ledger MemoEvent MemoReply)

/-- Carries out the plans of a computation one after the other and takes note of the replies. -/
def carryOut (l : Ledger) : List (Plan MemoAction) → Outcome Ledger MemoEvent Unit
  | [] => ⟨l, [], .ok ()⟩
  | plan :: rest =>
    let o := plan.run act l
    match o.result with
    | .error fault => ⟨o.state, o.events, .error fault⟩
    | .ok reply =>
      let os := carryOut o.state rest
      ⟨os.state, o.events ++ .did plan reply :: os.events, os.result⟩

theorem carryOut_of_error {act} {l : Ledger} {plan : Plan MemoAction} {fault : Fault}
    (h : (plan.run act l).result = .error fault) (rest : List (Plan MemoAction)) :
    l.carryOut act (plan :: rest)
      = ⟨(plan.run act l).state, (plan.run act l).events, .error fault⟩ := by
  rw [carryOut]
  simp only [h]

theorem carryOut_of_ok {act} {l : Ledger} {plan : Plan MemoAction} {reply : Reply MemoReply}
    (h : (plan.run act l).result = .ok reply) (rest : List (Plan MemoAction)) :
    l.carryOut act (plan :: rest)
      = ⟨((plan.run act l).state.carryOut act rest).state,
          (plan.run act l).events
            ++ .did plan reply :: ((plan.run act l).state.carryOut act rest).events,
          ((plan.run act l).state.carryOut act rest).result⟩ := by
  rw [carryOut]
  simp only [h]

/-- How a computation ends: the event, and a value, a failure or a fault. -/
def conclude (key : Key) (call : Nat) : Ending → MemoEvent × Except Fault (Except String String)
  | .value value => (.returned key call, .ok (.ok value))
  | .standard => (.returned key call, .ok (.ok (Machine.standardValue key call)))
  | .fail message => (.failed key call, .ok (.error message))
  | .giveUp message => (.gaveUp key call, .error (.raised message))

/-- A computation of a key. One for which no script is left does nothing. -/
def compute (key : Key) (l : Ledger) : Outcome Ledger MemoEvent (Except String String) :=
  let call := l.calls
  let l := { l with calls := call + 1 }
  match l.scripts.next? key.name with
  | none =>
    ⟨l, [.begun key call, .returned key call], .ok (.ok (Machine.standardValue key call))⟩
  | some (script, scripts) =>
    let o := carryOut act { l with scripts } script.plans
    match o.result with
    | .error fault => ⟨o.state, .begun key call :: o.events, .error fault⟩
    | .ok () =>
      let (event, result) := conclude key call script.ending
      ⟨o.state, .begun key call :: (o.events ++ [event]), result⟩

theorem compute_of_none {act} {l : Ledger} {key : Key} (h : l.scripts.next? key.name = none) :
    l.compute act key = ⟨{ l with calls := l.calls + 1 },
      [.begun key l.calls, .returned key l.calls],
      .ok (.ok (Machine.standardValue key l.calls))⟩ := by
  rw [compute]
  simp only [h]

/-- The ledger when a computation has taken its script. -/
def begin (scripts : Scripts) (l : Ledger) : Ledger :=
  { l with calls := l.calls + 1, scripts }

theorem compute_of_error {act} {l : Ledger} {key : Key} {script : Script} {scripts : Scripts}
    {fault : Fault} (h : l.scripts.next? key.name = some (script, scripts))
    (hfault : ((l.begin scripts).carryOut act script.plans).result = .error fault) :
    l.compute act key = ⟨((l.begin scripts).carryOut act script.plans).state,
      .begun key l.calls :: ((l.begin scripts).carryOut act script.plans).events,
      .error fault⟩ := by
  rw [begin] at hfault ⊢
  rw [compute]
  simp only [h, hfault]

theorem compute_of_ok {act} {l : Ledger} {key : Key} {script : Script} {scripts : Scripts}
    (h : l.scripts.next? key.name = some (script, scripts))
    (hok : ((l.begin scripts).carryOut act script.plans).result = .ok ()) :
    l.compute act key = ⟨((l.begin scripts).carryOut act script.plans).state,
      .begun key l.calls :: (((l.begin scripts).carryOut act script.plans).events
        ++ [(conclude key l.calls script.ending).1]),
      (conclude key l.calls script.ending).2⟩ := by
  rw [begin] at hok ⊢
  rw [compute]
  simp only [h, hok]

/-- The answer to a demand that is met past the memo. -/
def answer : Except String String → MemoReply
  | .ok value => .value value
  | .error message => .failed message

/-- A demand that is met past the memo. -/
def direct (key : Key) (l : Ledger) : Outcome Ledger MemoEvent MemoReply :=
  let o := l.compute act key
  ⟨o.state, o.events, o.result.map answer⟩

/-- A computed value comes to a key. If the key has a value by now, that wins; if it had one in
between and lost it, the demand is repeated; otherwise the computed value is kept. `before` is
how often the key had lost its value when the computation began. -/
def keep (again : Ledger → Outcome Ledger MemoEvent MemoReply) (before : Nat) (key : Key)
    (value : String) (l : Ledger) : Outcome Ledger MemoEvent MemoReply :=
  match l.values key with
  | some earlier => ⟨l, [], .ok (.value earlier)⟩
  | none =>
    if l.removals key = before then ⟨l.put key value, [], .ok (.value value)⟩ else again l

/-- A demand for a key without a value: the value is computed, and kept if possible. A failure
and a fault are passed on. A barred ledger computes nothing that it cannot keep. -/
def round (again : Ledger → Outcome Ledger MemoEvent MemoReply) (key : Key) (l : Ledger) :
    Outcome Ledger MemoEvent MemoReply :=
  if l.barred then ⟨l, [], .error .overflow⟩
  else
    let o := l.compute act key
    match o.result with
    | .error fault => ⟨o.state, o.events, .error fault⟩
    | .ok (.error message) => ⟨o.state, o.events, .ok (.refused (.failed message))⟩
    | .ok (.ok value) =>
      let os := o.state.keep again (l.removals key) key value
      ⟨os.state, o.events ++ os.events, os.result⟩

theorem round_of_barred {act} {l : Ledger} (h : l.barred = true)
    (again : Ledger → Outcome Ledger MemoEvent MemoReply) (key : Key) :
    l.round act again key = ⟨l, [], .error .overflow⟩ := by
  rw [round, if_pos h]

end

/-- A demand: a value that is there is the answer. Otherwise `serve` meets the demand. -/
def demand (serve : Key → Ledger → Outcome Ledger MemoEvent MemoReply) (key : Key) (l : Ledger) :
    Outcome Ledger MemoEvent MemoReply :=
  match l.values key with
  | some value => ⟨l, [], .ok (.value value)⟩
  | none => serve key l

/-- Carries out an action. `serve` meets a demand for which there is no value: whether the
value is to be kept, the keys in use, and the key. -/
def act (serve : Bool → List Key → Key → Ledger → Outcome Ledger MemoEvent MemoReply)
    (inUse : List Key) (l : Ledger) : MemoAction → Outcome Ledger MemoEvent MemoReply
  | .brief action => l.brief inUse action
  | .demand .held name =>
    match l.keys.held? name with
    | none => ⟨l, [], .error (.unheld name)⟩
    | some key => l.demand (serve true inUse) key
  | .demand .handle name =>
    match (l.keys.key? name).filter (l.isLive inUse) with
    | none => ⟨l, [], .ok (.refused .gone)⟩
    | some key => l.demand (serve true inUse) key
  | .demand .unkept name =>
    match l.keys.held? name with
    | none => ⟨l, [], .error (.unheld name)⟩
    | some key => serve false inUse key l

/-- Meets a demand for which there is no value, when at most so many scripts are left. -/
def serve : Nat → Bool → List Key → Key → Ledger → Outcome Ledger MemoEvent MemoReply
  | 0, true, _, key, l => l.round (fun l _ => ⟨l, [], .ok (.flag none)⟩)
      (fun l => ⟨l, [], .ok (.flag none)⟩) key
  | 0, false, _, key, l => l.direct (fun l _ => ⟨l, [], .ok (.flag none)⟩) key
  | n + 1, true, inUse, key, l =>
    l.round (act (serve n) (key :: inUse)) (serve n true inUse key) key
  | n + 1, false, inUse, key, l => l.direct (act (serve n) (key :: inUse)) key

/-- Meets a demand for which there is no value. -/
def meet (isKept : Bool) (inUse : List Key) (key : Key) (l : Ledger) :
    Outcome Ledger MemoEvent MemoReply :=
  serve l.scripts.count isKept inUse key l

/-- Carries out a plan, with all computations that it leads to. -/
def run (l : Ledger) (plan : Plan MemoAction) : Outcome Ledger MemoEvent (Reply MemoReply) :=
  plan.run (act meet []) l

/-- Carries out plans and reports after each. -/
def play (l : Ledger) (plans : List (Plan MemoAction)) : List (Report MemoEvent MemoReply) :=
  Ephemera.play run (fun l => ("", l.count [])) l plans

end Ledger

end Ephemera
