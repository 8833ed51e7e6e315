import Ephemera.Proofs.Descriptor.Sound

/-!
# Equal descriptors of one pool are one object

Descriptors are equal if they have the same components, and being one instance is something else:
two pools may each have an instance of equal descriptors. `Identified` says that nothing but the
pool makes this difference. It also says that hashes see no more than equality does, which is
what allows a pool to look for a descriptor under its hash, and that a pool counts its own
instances. All of this holds in whatever state a caller can bring about (`reached_identified`),
by any means of asking for descriptors and letting go of them.
-/

namespace Ephemera

namespace Descriptor

/-- Two descriptors have the same objects at the same positions. -/
structure Coincide (d d' : Descriptor) : Prop where
  /-- the results are one object -/
  result : d.result.address = d'.result.address
  /-- there are as many parameters -/
  length : d.params.length = d'.params.length
  /-- parameters at one position are one object -/
  params : ∀ (i : Nat) (k k' : Key), d.params[i]? = some k → d'.params[i]? = some k' →
    k.address = k'.address

theorem same_iff_coincide {d d' : Descriptor} : d.same d' = true ↔ d.Coincide d' := by
  rw [same_iff]
  constructor
  · rintro ⟨hresult, hparams⟩
    refine ⟨hresult, by simpa using congrArg List.length hparams, fun i k k' hk hk' => ?_⟩
    have hi := congrArg (fun addresses => addresses[i]?) hparams
    simpa [hk, hk'] using hi
  · rintro ⟨hresult, hlength, hparams⟩
    refine ⟨hresult, List.ext_getElem (by simpa using hlength) fun i hi hi' => ?_⟩
    rw [List.length_map] at hi hi'
    rw [List.getElem_map, List.getElem_map]
    exact hparams i _ _ (List.getElem?_eq_getElem hi) (List.getElem?_eq_getElem hi')

/-- A hash is made of addresses. -/
theorem hash_eq (d : Descriptor) : d.hash =
    sequenceHash (addressHash d.result.address)
      ((d.params.map Key.address).map addressHash) := by
  rw [hash, List.map_map]
  rfl

/-- Hashes see no more than equality does. -/
theorem hash_eq_of_same {d d' : Descriptor} (h : d.same d' = true) : d.hash = d'.hash := by
  obtain ⟨hresult, hparams⟩ := same_iff.mp h
  rw [hash_eq, hash_eq, hresult, hparams]

end Descriptor

namespace Shelf

variable {τ : Type} {s : Shelf τ} {place : String} {inst : Instance τ}

theorem mem_held_of_at? (h : s.at? place = some inst) : inst ∈ s.held := by
  obtain ⟨before, after, hplaces, -⟩ := List.lookup_eq_some_iff.mp h
  rw [held, hplaces]
  simp

end Shelf

namespace DescriptorSession

variable {births : List Birth} {s : DescriptorSession} {inst inst' : Instance Descriptor}
  {place place' : String}

/-! ## Runs -/

/-- What an action makes, and in which pool. -/
def born (s : DescriptorSession) : DescriptorAction → List Birth
  | .derive number derivation place =>
    bornBy number (s.act (.derive number derivation place)).events
  | _ => []

/-- The numbers of chains that an action asks for. -/
def wanted : DescriptorAction → List Nat
  | .addPool request => [request]
  | _ => []

/-- The states that a caller can bring about, each with the numbers of chains that were asked for,
pool by pool, and with what has been made. -/
inductive Reached : List Nat → List Birth → DescriptorSession → Prop where
  | start (request : Nat) : Reached [request] [] (ofCapacity request)
  | act {requests : List Nat} {births : List Birth} {s : DescriptorSession}
      (h : Reached requests births s) (action : DescriptorAction) :
      Reached (requests ++ wanted action) (births ++ s.born action) (s.act action).state

/-- What callers can rely on in a state, given what was made and where. -/
structure Identified (births : List Birth) (s : DescriptorSession) : Prop where
  /-- descriptors are equal if their components are, and one instance if they also come from
  one pool -/
  compare : ∀ place place' inst inst', s.shelf.at? place = some inst →
    s.shelf.at? place' = some inst' →
      ∃ isEqual isOne, s.answer (.compare place place') = .ok (.comparison isEqual isOne) ∧
        (isEqual = true ↔ inst.value.Coincide inst'.value) ∧ (isOne = true ↔ inst = inst') ∧
        (isOne = true ↔ isEqual = true ∧ origin births inst = origin births inst')
  /-- equal descriptors have one hash, for pools and for any other hash table -/
  hash : ∀ place place' inst inst', s.shelf.at? place = some inst →
    s.shelf.at? place' = some inst' → inst.value.same inst'.value = true →
      Shareable.hash Descriptor inst.value = Shareable.hash Descriptor inst'.value ∧
        s.answer (.hash place) = s.answer (.hash place')
  /-- a descriptor answers only requests that have its hash -/
  answers : ∀ place inst, s.shelf.at? place = some inst → ∀ d,
    Shareable.answers inst.value d = true →
      Shareable.hash Descriptor d = Shareable.hash Descriptor inst.value
  /-- so this is the hash that is told for the components of such a request -/
  requestHash : ∀ place inst result params, s.shelf.at? place = some inst →
    s.answer (.answers place result params) = .ok (.flag (some true)) →
      s.answer (.requestHash result params) = .ok (.hash (Shareable.hash Descriptor inst.value))
  /-- a pool counts the instances in places that come from it, each once -/
  count : ∀ number < s.pools.size, ∃ instances : List (Instance Descriptor), instances.Nodup ∧
    (∀ inst, inst ∈ instances ↔ inst ∈ s.shelf.held ∧ origin births inst = some number) ∧
      s.answer (.count number) = .ok (.count instances.length)
  /-- whatever a pool is asked for, it answers with an instance that comes from it -/
  derive : ∀ number derivation place inst,
    (s.act (.derive number derivation place)).result = .ok (.instance inst) →
      origin (births ++ s.born (.derive number derivation place)) inst = some number

/-! ## What comes of requests -/

/-- What comes of a request for a descriptor, if it is one that there can be. -/
def Requested (s : DescriptorSession) (number : Nat) (place : Option String)
    (o : Outcome DescriptorSession (Note (Instance Descriptor)) DescriptorReply) : Prop :=
  (∃ d pool, s.pools[number]? = some pool ∧ o = s.share number d place) ∨
    ∃ result, o = ⟨s, [], result⟩ ∧ ∀ inst, result ≠ .ok (.instance inst)

/-- A pool may be there or not. -/
theorem requested_share (s : DescriptorSession) (number : Nat) (d : Descriptor)
    (place : Option String) : s.Requested number place (s.share number d place) := by
  cases hpool : s.pools[number]? with
  | some pool => exact .inl ⟨d, pool, hpool, rfl⟩
  | none =>
    rw [share, pool, hpool]
    exact .inr ⟨_, rfl, by simp⟩

/-- A derivation is a request for a descriptor. -/
theorem requested_derive (s : DescriptorSession) (number : Nat) (derivation : Derivation)
    (place : Option String) :
    s.Requested number place (s.act (.derive number derivation place)) := by
  rw [act]
  cases s.target derivation with
  | error fault => exact .inr ⟨_, rfl, by simp⟩
  | ok target =>
    cases target with
    | error refusal => exact .inr ⟨_, rfl, by simp⟩
    | ok d => exact s.requested_share number d place

/-- No pool goes away. -/
theorem Requested.size_eq {number : Nat} {place : Option String}
    {o : Outcome DescriptorSession (Note (Instance Descriptor)) DescriptorReply}
    (h : s.Requested number place o) : o.state.pools.size = s.pools.size := by
  obtain ⟨d, pool, hpool, rfl⟩ | ⟨result, rfl, -⟩ := h
  · rw [share, DescriptorSession.pool, hpool]
    dsimp only
    cases (pool.share s.shelf.holds s.made d).outcome with
    | error fault => exact Array.size_setIfInBounds
    | ok entry => exact Array.size_setIfInBounds
  · rfl

/-- No request changes the numbers of chains that pools are to start with. -/
theorem Requested.initialAt_eq {number : Nat} {place : Option String}
    {o : Outcome DescriptorSession (Note (Instance Descriptor)) DescriptorReply}
    (h : s.Requested number place o) : o.state.initialAt = s.initialAt := by
  obtain ⟨d, pool, hpool, rfl⟩ | ⟨result, rfl, -⟩ := h
  · have hlt := (Array.getElem?_eq_some_iff.mp hpool).1
    have hupdate : ({ s with
        pools := s.pools.setIfInBounds number (pool.share s.shelf.holds s.made d).pool } :
          DescriptorSession).initialAt = s.initialAt := by
      funext other
      rw [initialAt, initialAt]
      dsimp only
      by_cases heq : number = other
      · subst heq
        rw [Array.getElem?_setIfInBounds_self_of_lt hlt, hpool, Option.map_some, Option.map_some,
          Pool.initial_share]
      · rw [Array.getElem?_setIfInBounds_ne heq]
    rw [share, DescriptorSession.pool, hpool]
    dsimp only
    cases (pool.share s.shelf.holds s.made d).outcome with
    | error fault => exact hupdate
    | ok entry => exact hupdate
  · rfl

/-- Neither does any other action; another pool comes with its own. -/
theorem initialAt_act (s : DescriptorSession) (action : DescriptorAction) {number : Nat}
    {initial : Nat} (h : s.initialAt number = some initial) :
    (s.act action).state.initialAt number = some initial := by
  cases action with
  | derive number' derivation place =>
    rw [(s.requested_derive number' derivation place).initialAt_eq]
    exact h
  | addPool request =>
    obtain ⟨pool, hpool, hinitial⟩ := Option.map_eq_some_iff.mp h
    have hlt := (Array.getElem?_eq_some_iff.mp hpool).1
    rw [act, initialAt, Array.getElem?_push_lt hlt, ← Array.getElem?_eq_getElem hlt, hpool,
      Option.map_some, hinitial]
  | key action | clear place | ask question => exact h

/-- Requests for descriptors keep all pools sound. -/
theorem Sound.requested (hs : Sound births s) {number : Nat} {place : Option String}
    {o : Outcome DescriptorSession (Note (Instance Descriptor)) DescriptorReply}
    (h : s.Requested number place o) :
    Sound (births ++ bornBy number o.events) o.state ∧
      ∀ inst, o.result = .ok (.instance inst) →
        origin (births ++ bornBy number o.events) inst = some number := by
  have hnothing : Sound (births ++ bornBy number []) s := by
    rw [bornBy, Note.makings_nil, List.map_nil, List.append_nil]
    exact hs
  obtain ⟨d, pool, hpool, rfl⟩ | ⟨result, rfl, hnone⟩ := h
  · cases hfits : isOversized pool.table.initial with
    | true =>
      rw [hs.share_of_oversized hpool hfits]
      refine ⟨hnothing, fun inst h => ?_⟩
      cases h
    | false =>
      obtain ⟨inst, hderives⟩ := hs.share ⟨_, initialAt_of_pool hpool, hfits⟩ d place
      refine ⟨hderives.sound, fun inst' h => ?_⟩
      obtain rfl : inst = inst' := by simpa [hderives.result] using h
      exact hderives.origin
  · exact ⟨hnothing, fun inst h => absurd h (hnone inst)⟩

/-! ## Every state is sound -/

/-- Asking for descriptors keeps all pools sound. -/
theorem Sound.derive (hs : Sound births s) (number : Nat) (derivation : Derivation)
    (place : Option String) :
    let action := DescriptorAction.derive number derivation place
    Sound (births ++ s.born action) (s.act action).state ∧
      ∀ inst, (s.act action).result = .ok (.instance inst) →
        origin (births ++ s.born action) inst = some number :=
  hs.requested (s.requested_derive number derivation place)

/-- Every action keeps all pools sound. -/
theorem Sound.act (hs : Sound births s) (action : DescriptorAction) :
    Sound (births ++ s.born action) (s.act action).state := by
  cases action with
  | derive number derivation place => exact (hs.derive number derivation place).1
  | key action =>
    simp only [DescriptorSession.born, List.append_nil]
    exact hs.withKeys _
  | addPool request =>
    simp only [DescriptorSession.born, List.append_nil]
    exact hs.addPool request
  | clear place =>
    simp only [DescriptorSession.born, List.append_nil]
    exact hs.clear place
  | ask question =>
    simp only [DescriptorSession.born, List.append_nil]
    exact hs

theorem Reached.sound {requests : List Nat} (h : Reached requests births s) : Sound births s := by
  induction h with
  | start request => exact sound_ofCapacity request
  | act h action ih => exact ih.act action

/-- There are as many pools as numbers of chains that were asked for. -/
theorem Reached.size_eq {requests : List Nat} (h : Reached requests births s) :
    s.pools.size = requests.length := by
  induction h with
  | start request => rfl
  | @act requests _ s _ action ih =>
    cases action with
    | derive number derivation place =>
      rw [(s.requested_derive number derivation place).size_eq, ih]
      exact (congrArg List.length (List.append_nil requests)).symm
    | addPool request =>
      rw [List.length_append, ← ih]
      exact Array.size_push _
    | key action | clear place | ask question =>
      exact ih.trans (congrArg List.length (List.append_nil requests)).symm

/-- A pool is to start with as many chains as were asked for, rounded. -/
theorem Reached.initialAt_eq {requests : List Nat} (h : Reached requests births s)
    {number request : Nat} (hrequest : requests[number]? = some request) :
    s.initialAt number = some (roundedCapacity request) := by
  induction h with
  | start request' =>
    obtain ⟨rfl, rfl⟩ : number = 0 ∧ request' = request := by
      simpa [List.getElem?_singleton] using hrequest
    rfl
  | @act requests _ s h action ih =>
    rcases Nat.lt_or_ge number requests.length with hlt | hge
    · rw [List.getElem?_append_left hlt] at hrequest
      exact initialAt_act s action (ih hrequest)
    · -- the pool is the one that the action adds
      rw [List.getElem?_append_right hge] at hrequest
      cases action with
      | addPool request' =>
        rw [wanted, List.getElem?_singleton] at hrequest
        obtain ⟨hnumber, rfl⟩ : number - requests.length = 0 ∧ request' = request := by
          simpa using hrequest
        obtain rfl : number = s.pools.size := by
          rw [h.size_eq]
          omega
        rw [DescriptorSession.act, initialAt, Array.getElem?_push_size]
        rfl
      | derive _ _ _ | key _ | clear _ | ask _ => cases hrequest

/-- Whether the chains of a pool can be allocated is decided by what was asked for. -/
theorem Reached.isOversized_eq {requests : List Nat} (h : Reached requests births s)
    {number request : Nat} (hrequest : requests[number]? = some request) :
    ∃ pool, s.pools[number]? = some pool ∧
      isOversized pool.table.initial = decide (2 ^ 59 < request) := by
  obtain ⟨pool, hpool, hinitial⟩ := Option.map_eq_some_iff.mp (h.initialAt_eq hrequest)
  exact ⟨pool, hpool, by rw [hinitial, isOversized_roundedCapacity]⟩

theorem Reached.allocates {requests : List Nat} (h : Reached requests births s)
    {number request : Nat} (hrequest : requests[number]? = some request)
    (hle : request ≤ 2 ^ 59) : s.Allocates number := by
  obtain ⟨pool, hpool, hoversized⟩ := h.isOversized_eq hrequest
  exact ⟨_, initialAt_of_pool hpool,
    hoversized.trans (decide_eq_false (Nat.not_lt.mpr hle))⟩

theorem Reached.share_of_lt {requests : List Nat} (h : Reached requests births s)
    {number request : Nat} (hrequest : requests[number]? = some request)
    (hlt : 2 ^ 59 < request) (d : Descriptor) (place : Option String) :
    s.share number d place = ⟨s, [], .error .overflow⟩ := by
  obtain ⟨pool, hpool, hoversized⟩ := h.isOversized_eq hrequest
  exact h.sound.share_of_oversized hpool (hoversized.trans (decide_eq_true hlt)) d place

/-! ## What this means for comparisons -/

theorem instanceAt_of_at? (h : s.shelf.at? place = some inst) : s.instanceAt place = .ok inst := by
  rw [instanceAt, h]

theorem answer_compare (h : s.shelf.at? place = some inst) (h' : s.shelf.at? place' = some inst') :
    s.answer (.compare place place') =
      .ok (.comparison (inst.value.same inst'.value) (inst.number == inst'.number)) := by
  rw [answer, instanceAt_of_at? h, instanceAt_of_at? h']
  rfl

theorem answer_hash (h : s.shelf.at? place = some inst) :
    s.answer (.hash place) = .ok (.hashes [inst.value.hash]) := by
  rw [answer, instanceAt_of_at? h]
  rfl

/-- To be asked for a descriptor is to know its hash. -/
theorem answer_requestHash_of_answers {result : String} {params : List String}
    (h : s.shelf.at? place = some inst)
    (hanswer : s.answer (.answers place result params) = .ok (.flag (some true))) :
    ∃ d, s.answer (.requestHash result params) = .ok (.hash (Shareable.hash Descriptor d)) ∧
      inst.value.same d = true := by
  rw [answer, instanceAt_of_at? h] at hanswer
  rw [answer]
  cases hrequest : s.descriptorOf result params with
  | error fault =>
    rw [hrequest] at hanswer
    cases hanswer
  | ok d =>
    rw [hrequest] at hanswer
    refine ⟨d, rfl, ?_⟩
    change Except.ok (DescriptorReply.flag (some (inst.value.same d))) = _ at hanswer
    simpa using hanswer

/-- A number stands for one instance, whichever pool made it. -/
theorem Sound.eq_of_number (hs : Sound births s) (h : inst ∈ s.shelf.held)
    (h' : inst' ∈ s.shelf.held) (hnumber : inst.number = inst'.number) : inst = inst' :=
  (hs.born h).eq_of_number (hs.born h') hnumber

/-- Equal descriptors from one pool are one instance. -/
theorem Sound.eq_of_same (hs : Sound births s) (h : inst ∈ s.shelf.held)
    (h' : inst' ∈ s.shelf.held) (hsame : inst.value.same inst'.value = true)
    (horigin : origin births inst = origin births inst') : inst = inst' := by
  obtain ⟨number, hlt, hnumber⟩ := hs.placed inst h
  have hview := hs.views number s.pools[number] (Array.getElem?_eq_getElem hlt)
  refine hview.unique inst (mem_held_own.mpr ⟨h, hnumber⟩) inst'
    (mem_held_own.mpr ⟨h', horigin.symm.trans hnumber⟩) _ _ (hs.born h) (hs.born h') ?_
  exact ⟨Descriptor.hash_eq_of_same hsame, hsame⟩

/-- In its view a pool counts what it counts. -/
theorem Sound.count (hs : Sound births s) {number : Nat} (hlt : number < s.pools.size) :
    ∃ instances : List (Instance Descriptor), instances.Nodup ∧
      (∀ inst, inst ∈ instances ↔ inst ∈ s.shelf.held ∧ origin births inst = some number) ∧
        s.answer (.count number) = .ok (.count instances.length) := by
  have hpool := Array.getElem?_eq_getElem hlt
  obtain ⟨instances, hnodup, hmem, hcount⟩ := (hs.views number _ hpool).count
  refine ⟨instances, hnodup, fun inst => (hmem inst).trans mem_held_own, ?_⟩
  have hsame : s.pools[number].count s.shelf.holds = instances.length :=
    (Pool.count_congr (hs.holds_own hpool)).trans hcount
  rw [answer, pool, hpool, ← hsame]
  rfl

/-- Callers can rely on sound pools. -/
theorem Sound.identified (hs : Sound births s) : Identified births s where
  compare place place' inst inst' h h' := by
    have hheld := Shelf.mem_held_of_at? h
    have hheld' := Shelf.mem_held_of_at? h'
    have hone : (inst.number == inst'.number) = true ↔ inst = inst' := by
      rw [beq_iff_eq]
      exact ⟨hs.eq_of_number hheld hheld', congrArg Instance.number⟩
    refine ⟨_, _, answer_compare h h', Descriptor.same_iff_coincide, hone, ?_⟩
    rw [hone]
    constructor
    · rintro rfl
      exact ⟨Descriptor.same_iff.mpr ⟨rfl, rfl⟩, rfl⟩
    · rintro ⟨hsame, horigin⟩
      exact hs.eq_of_same hheld hheld' hsame horigin
  hash place place' inst inst' h h' hsame := by
    have hhash := Descriptor.hash_eq_of_same hsame
    refine ⟨hhash, ?_⟩
    rw [answer_hash h, answer_hash h', hhash]
  answers place inst h d hanswers := (Descriptor.hash_eq_of_same hanswers).symm
  requestHash place inst result params h hanswer := by
    obtain ⟨d, hrequest, hsame⟩ := answer_requestHash_of_answers h hanswer
    rw [hrequest]
    exact congrArg (Except.ok ∘ DescriptorReply.hash) (Descriptor.hash_eq_of_same hsame).symm
  count number hlt := hs.count hlt
  derive number derivation place := (hs.derive number derivation place).2

/-- In every state that a caller can bring about, equal descriptors of one pool are one object,
and nothing but the pool tells equal descriptors apart. -/
theorem reached_identified {requests : List Nat} (h : Reached requests births s) :
    Identified births s :=
  h.sound.identified

/-- A descriptor in one pool, an equal one in another, and the first once more. -/
theorem reached_identified_twins :
    let s := [DescriptorAction.addPool 0, .key (.make "r" "t" none),
      .derive 0 (.ofKeys "r" []) (some "x"), .derive 1 (.append "x" []) (some "y"),
      .derive 0 (.withResult "y" "r") (some "z")].foldl (fun s action => (s.act action).state)
        (ofCapacity 0)
    s.answer (.compare "x" "y") = .ok (.comparison true false) ∧
      s.answer (.compare "x" "z") = .ok (.comparison true true) := by
  intro s
  have hreached : Reached _ _ s :=
    .act (.act (.act (.act (.act (.start 0) _) _) _) _) _
  have hidentified := reached_identified hreached
  let d : Descriptor := ⟨⟨0, "r", "t", 17592186044416⟩, []⟩
  have hx : s.shelf.at? "x" = some ⟨0, d⟩ := by decide
  have hy : s.shelf.at? "y" = some ⟨1, d⟩ := by decide
  have hz : s.shelf.at? "z" = some ⟨0, d⟩ := by decide
  have hcoincide : d.Coincide d := Descriptor.same_iff_coincide.mp (by decide)
  constructor
  · obtain ⟨isEqual, isOne, hanswer, hequal, hone, -⟩ := hidentified.compare _ _ _ _ hx hy
    rw [hanswer, hequal.mpr hcoincide, Bool.eq_false_iff.mpr fun h => nomatch hone.mp h]
  · obtain ⟨isEqual, isOne, hanswer, hequal, hone, -⟩ := hidentified.compare _ _ _ _ hx hz
    rw [hanswer, hequal.mpr hcoincide, hone.mpr rfl]

end DescriptorSession

end Ephemera
