import Ephemera.Proofs.Machine.Lifecycle
import Ephemera.Proofs.Memo.Asking

/-!
# What a machine asks

Looks, demands and removals ask slots whether they are the one of a key, and nothing else asks. The
functions here say which slots a step asks, going through the same cases as the machine does. In
every state that a caller can bring about, whatever is asked next is asked of the current slot of
its key, so the answer is always yes, and it would not matter what the test said of other slots; and
no two links have the same hash (`Discerns`). All of this is a matter of hashes: no two addresses
share one, and every word is the hash of an address.
-/

namespace Ephemera

/-- A slot is asked whether it is the one of a key. -/
structure Asking where
  /-- the key -/
  key : Key
  /-- the position of the slot -/
  slot : Nat
deriving Repr, DecidableEq

/-- The slot that is asked is the one of the key, and not done with. -/
def Asking.Apt (m : Memo String) (a : Asking) : Prop :=
  m.Current a.key a.slot

namespace Machine

/-! ## What a step asks -/

/-- What a look asks. -/
def lookAskings (key : Key) (s : MemoSession) (inUse : List Key) : List Asking :=
  (s.memo.askedByLook (s.isLive inUse) key).map (Asking.mk key)

/-- What an action that computes nothing asks. -/
def actAskings (s : MemoSession) (inUse : List Key) : BriefAction → List Asking
  | .look name =>
    match s.keys.held? name with
    | none => []
    | some key => lookAskings key s inUse
  | .forget name =>
    match s.keys.held? name with
    | none => []
    | some key =>
      let pinned := if s.keeping then { s with pinned := key :: s.pinned } else s
      (s.memo.askedByRemoval (pinned.isLive inUse) key).map (Asking.mk key)
  | _ => []

/-- What is asked when the memo is to give a value or a ticket. -/
def enterAskings (key : Key) (s : MemoSession) (rest : List Frame) : List Asking :=
  (s.memo.askedByDemand (s.isLive (key :: keysInUse rest)) key).map (Asking.mk key)

/-- What a demand asks. A look comes first, and asks even if it is all that is needed. -/
def demandAskings (key : Key) (s : MemoSession) (rest : List Frame) : List Asking :=
  lookAskings key s (key :: keysInUse rest) ++
    match s.memo.value? (s.isLive (key :: keysInUse rest)) key with
    | some _ => []
    | none => enterAskings key s rest

/-- What is asked when a value is handed in; only one that comes too late makes for questions. -/
def settleAskings (key : Key) (ticket : Option Ticket) (value : String) (s : MemoSession)
    (rest : List Frame) : List Asking :=
  match ticket with
  | none => []
  | some ticket =>
    match s.memo.settle ticket value with
    | .outdated => enterAskings key s rest
    | _ => []

/-- What is asked when a computation ends. -/
def concludeAskings (key : Key) (call : Nat) (ticket : Option Ticket) (s : MemoSession)
    (rest : List Frame) : Ending → List Asking
  | .value value => settleAskings key ticket value s rest
  | .standard => settleAskings key ticket (standardValue key call) s rest
  | .fail _ => []
  | .giveUp _ => []

/-- What is asked when a plan is started. -/
def startAskings (s : MemoSession) (stack : List Frame) : Plan MemoAction → List Asking
  | .act (.brief action) => actAskings s (keysInUse stack) action
  | .act (.demand .held name) =>
    match s.keys.held? name with
    | none => []
    | some key => demandAskings key s stack
  | .act (.demand .handle name) =>
    match (s.keys.key? name).filter (s.isLive (keysInUse stack)) with
    | none => []
    | some key => demandAskings key s stack
  | _ => []

/-- What a step asks. -/
def stepAskings (s : MemoSession) (top : Frame) (rest : List Frame) : List Asking :=
  match top with
  | .several _ _ [] _ => []
  | .several origin isShielded (plan :: pending) replies =>
    startAskings s (.several origin isShielded pending replies :: rest) plan
  | .computing _ key call ticket [] ending => concludeAskings key call ticket s rest ending
  | .computing origin key call ticket (plan :: pending) ending =>
    startAskings s (.computing origin key call ticket pending ending :: rest) plan

/-- What a machine asks next: in its next step or, where all is done, for the next plan of its
caller. -/
def nextAskings (plan : Plan MemoAction) (m : Machine) : List Asking :=
  match m.phase with
  | .running top rest => stepAskings m.scene.session top rest
  | .finished _ => startAskings m.scene.session [] plan

/-! ## It is asked of the right slot -/

section

variable {s : MemoSession} {inUse : List Key} {rest : List Frame} {key : Key} {live : Key → Bool}

/-- Whatever a request for a key of the caller asks is apt, whichever keys are alive. -/
theorem apt_of_asked (hs : s.Sound inUse) (hkey : key ∈ s.keys.keys) {positions : List Nat}
    (hasked : positions ⊆ s.memo.askedByLook live key ++ s.memo.askedByDemand live key
      ++ s.memo.askedByRemoval live key) :
    ∀ a ∈ positions.map (Asking.mk key), a.Apt s.memo := by
  intro a hmem
  obtain ⟨position, hposition, rfl⟩ := List.mem_map.mp hmem
  exact hs.memo.current_of_asked (hs.knows hkey) (hasked hposition)

theorem apt_look (hs : s.Sound inUse) (hkey : key ∈ s.keys.keys) (inUse' : List Key) :
    ∀ a ∈ lookAskings key s inUse', a.Apt s.memo :=
  apt_of_asked hs hkey fun _ h => List.mem_append_left _ (List.mem_append_left _ h)

theorem apt_enter (hs : s.Sound inUse) (hkey : key ∈ s.keys.keys) :
    ∀ a ∈ enterAskings key s rest, a.Apt s.memo :=
  apt_of_asked hs hkey fun _ h => List.mem_append_left _ (List.mem_append_right _ h)

theorem apt_removal (hs : s.Sound inUse) (hkey : key ∈ s.keys.keys) :
    ∀ a ∈ (s.memo.askedByRemoval live key).map (Asking.mk key), a.Apt s.memo :=
  apt_of_asked hs hkey fun _ h => List.mem_append_right _ h

theorem apt_demand (hs : s.Sound inUse) (hkey : key ∈ s.keys.keys) :
    ∀ a ∈ demandAskings key s rest, a.Apt s.memo := by
  rw [demandAskings, List.forall_mem_append]
  refine ⟨apt_look hs hkey _, ?_⟩
  split
  · exact List.forall_mem_nil _
  · exact apt_enter hs hkey

theorem apt_settle (hs : s.Sound inUse) (hkey : key ∈ s.keys.keys) (ticket : Option Ticket)
    (value : String) : ∀ a ∈ settleAskings key ticket value s rest, a.Apt s.memo := by
  unfold settleAskings
  split
  · exact List.forall_mem_nil _
  · split
    · exact apt_enter hs hkey
    · exact List.forall_mem_nil _

theorem apt_conclude (hs : s.Sound inUse) (hkey : key ∈ s.keys.keys) (call : Nat)
    (ticket : Option Ticket) (ending : Ending) :
    ∀ a ∈ concludeAskings key call ticket s rest ending, a.Apt s.memo := by
  cases ending with
  | value value => exact apt_settle hs hkey ticket value
  | standard => exact apt_settle hs hkey ticket _
  | fail message => exact List.forall_mem_nil _
  | giveUp message => exact List.forall_mem_nil _

theorem apt_act (hs : s.Sound inUse) (action : BriefAction) :
    ∀ a ∈ actAskings s inUse action, a.Apt s.memo := by
  cases action with
  | look name =>
    rw [actAskings]
    split
    · exact List.forall_mem_nil _
    · next key hheld => exact apt_look hs (Keyring.mem_keys_of_held? hheld) inUse
  | forget name =>
    rw [actAskings]
    split
    · exact List.forall_mem_nil _
    · next key hheld => exact apt_removal hs (Keyring.mem_keys_of_held? hheld)
  | key | count | isEmpty | capacity | describe => exact List.forall_mem_nil _

theorem apt_start (stack : List Frame) (hs : s.Sound (keysInUse stack)) (plan : Plan MemoAction) :
    ∀ a ∈ startAskings s stack plan, a.Apt s.memo := by
  unfold startAskings
  split
  · exact apt_act hs _
  · split
    · exact List.forall_mem_nil _
    · next key hheld => exact apt_demand hs (Keyring.mem_keys_of_held? hheld)
  · split
    · exact List.forall_mem_nil _
    · next key hfilter =>
      exact apt_demand hs (Keyring.mem_keys_of_key? (Option.filter_eq_some_iff.mp hfilter).1)
  · exact List.forall_mem_nil _

/-- Whatever a step asks is apt. -/
theorem apt_step {top : Frame} (hs : s.Sound (keysInUse (top :: rest))) :
    ∀ a ∈ stepAskings s top rest, a.Apt s.memo := by
  rcases top with ⟨origin, isShielded, _ | ⟨plan, pending⟩, replies⟩ |
    ⟨origin, key, call, ticket, _ | ⟨plan, pending⟩, ending⟩
  · exact List.forall_mem_nil _
  · exact apt_start (.several origin isShielded pending replies :: rest) hs plan
  · exact apt_conclude hs (hs.used key List.mem_cons_self) call ticket ending
  · exact apt_start (.computing origin key call ticket pending ending :: rest) hs plan

end

/-! ## In every state -/

/-- Where nothing is under way the caller may have another plan. -/
theorem Next.of_idle {m : Machine} (h : m.phase.stack.isEmpty = true) (plan : Plan MemoAction) :
    Next m (Machine.start ⟨m.scene.session, []⟩ [] plan) := by
  obtain ⟨w, ⟨top, rest⟩ | result⟩ := m
  · cases h
  · exact .start w result plan

/-- What can be said at any time of hashes, and of what is asked. -/
structure Discerns (m : Machine) : Prop where
  /-- a link has the hash of the key of its slot -/
  own : ∀ link ∈ m.scene.session.memo.table.links, ∃ slot,
    m.scene.session.memo.slots[link.referent]? = some slot ∧
      link.hash = addressHash slot.key.address
  /-- links with one hash are one link, for one key -/
  unique : ∀ link ∈ m.scene.session.memo.table.links,
    ∀ link' ∈ m.scene.session.memo.table.links, link.hash = link'.hash → link = link' ∧
      ∃ slot slot' : Slot String, m.scene.session.memo.slots[link.referent]? = some slot ∧
        m.scene.session.memo.slots[link'.referent]? = some slot' ∧ slot.key = slot'.key
  /-- no request for a key of the caller asks the slot of another key, whichever keys are alive -/
  requests : ∀ key ∈ m.scene.session.keys.keys, ∀ (live : Key → Bool),
    ∀ position ∈ m.scene.session.memo.askedByLook live key
        ++ m.scene.session.memo.askedByDemand live key
        ++ m.scene.session.memo.askedByRemoval live key,
      ∃ slot, m.scene.session.memo.slots[position]? = some slot ∧ slot.key = key
  /-- so a test need only let the slots of the key pass to do in the place of the test for the
  key -/
  others : ∀ key ∈ m.scene.session.keys.keys, ∀ (live : Key → Bool) (test : Nat → Bool),
    (∀ (position : Nat) (slot : Slot String), m.scene.session.memo.slots[position]? = some slot →
      slot.key = key → test position = true) → m.scene.session.memo.Decides live key test
  /-- nothing that happens next asks the slot of another key -/
  next : ∀ plan, ∀ a ∈ m.nextAskings plan, ∃ slot,
    m.scene.session.memo.slots[a.slot]? = some slot ∧ slot.key = a.key

/-- Hashes are as good as addresses: they are in one-to-one correspondence. So in every state that a
caller can bring about, in the middle of computations too, hashes tell all links apart, and no slot
is asked that is not the one of the key. The addresses of keys have to be different. -/
theorem discerns : Function.Bijective addressHash ∧
    ∀ {request : Nat} {scripts : Scripts} {keeping : Bool} {m : Machine},
      Leads (idle request scripts keeping) m → m.scene.session.keys.Distinct → m.Discerns := by
  refine ⟨addressHash_bijective, fun {request scripts keeping m} hleads hdistinct => ?_⟩
  have hs := (hleads.sound (sound_idle request scripts keeping) hdistinct).scene.session
  refine
    { own := fun link hlink => ?_
      unique := fun link hlink link' hlink' hhash => ?_
      requests := fun key hkey live position hasked => ?_
      others := fun key hkey live test htest => hs.memo.decides (hs.knows hkey) live htest
      next := fun plan a hmem => ?_ }
  · obtain ⟨slot, hslot, hhash, -⟩ := hs.memo.linked link hlink
    exact ⟨slot, hslot, hhash⟩
  · obtain ⟨slot, hslot, hown, -⟩ := hs.memo.linked link hlink
    obtain rfl := hs.memo.eq_of_hash (hs.knows (hs.known _ slot hslot)) hlink hlink' hown
      (hhash ▸ hown)
    exact ⟨rfl, slot, slot, hslot, hslot, rfl⟩
  · obtain ⟨slot, hslot, hslotkey, -⟩ := hs.memo.current_of_asked (hs.knows hkey) hasked
    exact ⟨slot, hslot, hslotkey⟩
  · -- asked next by a step that is due, or else by the plan that is given
    have hapt : ∀ a ∈ m.nextAskings plan, a.Apt m.scene.session.memo := by
      obtain ⟨w, ⟨top, rest⟩ | ⟨result⟩⟩ := m
      · exact apt_step hs
      · exact apt_start [] hs plan
    obtain ⟨slot, hslot, hslotkey, -⟩ := hapt a hmem
    exact ⟨slot, hslot, hslotkey⟩

/-- Two slots are linked in one chain. A demand for the key of the second asks that one only. -/
theorem discerns_neighbours :
    let go (m : Machine) (action : MemoAction) := start ⟨m.scene.session, []⟩ [] (.act action)
    let m₁ := go (idle 0 [] false) (.brief (.key (.make "a" "t" (some 64))))
    let m₂ := go m₁ (.brief (.key (.make "b" "t" (some 128))))
    let m₃ := go m₂ (.demand .held "a")
    let m := go m₃ (.demand .held "b")
    (m.scene.session.memo.table.links.map fun link => chainIndex 16 link.hash) = [15, 15] ∧
      m.scene.session.memo.positions = [1, 0] ∧
      (m.nextAskings (.act (.demand .held "a"))).map Asking.slot = [0] ∧ m.Discerns := by
  intro go m₁ m₂ m₃ m
  have h₁ : Next (idle 0 [] false) m₁ := .of_idle rfl _
  have h₂ : Next m₁ m₂ := .of_idle (by decide) _
  have h₃ : Next m₂ m₃ := .of_idle (by decide) _
  have h₄ : Next m₃ m := .of_idle (by decide) _
  have hleads : Leads (idle 0 [] false) m :=
    (((Relation.ReflTransGen.single h₁).tail h₂).tail h₃).tail h₄
  have hdistinct : (m.scene.session.keys.keys.map Key.address).Nodup := by decide
  exact ⟨by decide, by decide, by decide, discerns.2 hleads hdistinct⟩

end Machine

end Ephemera
