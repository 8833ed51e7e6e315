import Ephemera.Proofs.Pool.Canonical
import Ephemera.Proofs.Table.Lives
import Ephemera.Session.Descriptor

/-!
# Several pools behind one shelf

Descriptors of all pools stand on one shelf, and instances are numbered over all pools. `births`
lists what was made: instance `n` is of the `n`-th descriptor, and its pool, the `origin`, is
listed with it. A pool concerns itself with its own instances only, so as far as it can tell, the
shelf holds no others: this is its `view`, a session with one pool. `Sound` says that every view
is sound, and what is known of sessions with one pool carries over. In particular, a pool answers
with an instance of its own, unless it was told to start with more chains than can be allocated
(`Allocates`).
-/

namespace Ephemera

/-! ## A part of a shelf -/

namespace Shelf

variable {τ : Type} {s : Shelf τ} {which which' : Instance τ → Bool} {inst inst' : Instance τ}

/-- The places whose instances pass a test. -/
def only (which : Instance τ → Bool) (s : Shelf τ) : Shelf τ :=
  ⟨s.places.filter fun place => which place.2⟩

@[simp]
theorem mem_held_only : inst ∈ (s.only which).held ↔ inst ∈ s.held ∧ which inst = true := by
  simp [only, held]

theorem only_congr (h : ∀ inst ∈ s.held, which inst = which' inst) :
    s.only which = s.only which' :=
  congrArg Shelf.mk (List.filter_congr fun place hmem => h place.2 (List.mem_map_of_mem hmem))

theorem only_clear (which : Instance τ → Bool) (name : String) (s : Shelf τ) :
    (s.clear name).only which = (s.only which).clear name := by
  simp only [only, clear, List.filter_filter, Bool.and_comm]

/-- What passes the test is put into the part. -/
theorem only_put (which : Instance τ → Bool) (h : which inst = true) (place : Option String)
    (s : Shelf τ) : (s.put place inst).only which = (s.only which).put place inst := by
  cases place with
  | none => rfl
  | some name =>
    have hclear := congrArg Shelf.places (only_clear which name s)
    have hcons := List.filter_cons_of_pos (p := fun place => which place.2) (a := (name, inst))
      (l := (s.clear name).places) h
    exact congrArg Shelf.mk (hcons.trans (congrArg ((name, inst) :: ·) hclear))

/-- For instances that pass the test, the part tells as much as the whole. -/
theorem holds_only (h : ∀ inst', inst'.number = inst.number → which inst' = true) :
    (s.only which).holds inst = s.holds inst := by
  rw [Bool.eq_iff_iff, holds_iff, holds_iff]
  constructor
  · rintro ⟨inst', hheld, hnumber⟩
    exact ⟨inst', (mem_held_only.mp hheld).1, hnumber⟩
  · rintro ⟨inst', hheld, hnumber⟩
    exact ⟨inst', mem_held_only.mpr ⟨hheld, h inst' hnumber⟩, hnumber⟩

end Shelf

namespace PoolSession

variable {κ τ : Type} [Shareable κ τ] {births : List κ} {s : PoolSession τ}

/-- Numbers that are used up elsewhere do not concern a pool. -/
theorem Sound.later (hs : Sound births s) (later : List κ) :
    Sound (births ++ later) { s with made := s.made + later.length } where
  table := hs.table
  made := by rw [List.length_append, hs.made]
  born link hmem := by
    obtain ⟨k, hborn, hhash⟩ := hs.born link hmem
    exact ⟨k, hborn.append later, hhash⟩
  once := hs.once
  linked := hs.linked
  unique inst hheld inst' hheld' k k' hborn hborn' :=
    hs.unique inst hheld inst' hheld' k k' (hs.born_of_append hheld hborn)
      (hs.born_of_append hheld' hborn')

end PoolSession

namespace DescriptorSession

/-- Which pool an instance was made in, and for which descriptor. -/
structure Birth where
  /-- the number of the pool -/
  pool : Nat
  /-- what was asked for -/
  descriptor : Descriptor

variable {births : List Birth} {s : DescriptorSession} {number : Nat} {pool : Pool Descriptor}
  {inst inst' : Instance Descriptor}

/-! ## Origins and views -/

/-- The pool that an instance was made in. -/
def origin (births : List Birth) (inst : Instance Descriptor) : Option Nat :=
  births[inst.number]?.map Birth.pool

/-- Later births do not change where an instance came from. -/
theorem origin_append (h : origin births inst = some number) (later : List Birth) :
    origin (births ++ later) inst = some number := by
  obtain ⟨birth, hbirth, hpool⟩ := Option.map_eq_some_iff.mp h
  have hlt := (List.getElem?_eq_some_iff.mp hbirth).1
  rw [origin, List.getElem?_append_left hlt, hbirth, Option.map_some, hpool]

theorem origin_new (births : List Birth) (birth : Birth) (value : Descriptor) :
    origin (births ++ [birth]) ⟨births.length, value⟩ = some birth.pool := by
  rw [origin, List.getElem?_concat_length, Option.map_some]

/-- A pool's own part of the shelf. -/
def own (births : List Birth) (number : Nat) (shelf : Shelf Descriptor) : Shelf Descriptor :=
  shelf.only fun inst => origin births inst == some number

theorem mem_held_own {shelf : Shelf Descriptor} :
    inst ∈ (own births number shelf).held ↔
      inst ∈ shelf.held ∧ origin births inst = some number := by
  simp [own]

theorem own_clear (name : String) (shelf : Shelf Descriptor) :
    own births number (shelf.clear name) = (own births number shelf).clear name :=
  Shelf.only_clear _ name shelf

theorem own_put (h : origin births inst = some number) (place : Option String)
    (shelf : Shelf Descriptor) :
    own births number (shelf.put place inst) = (own births number shelf).put place inst :=
  Shelf.only_put (fun inst => origin births inst == some number) (beq_iff_eq.mpr h) place shelf

/-- The session as a pool sees it. -/
def view (births : List Birth) (number : Nat) (pool : Pool Descriptor) (s : DescriptorSession) :
    PoolSession Descriptor :=
  ⟨pool, own births number s.shelf, s.made⟩

/-- The number of chains that a pool is to start with. -/
def initialAt (s : DescriptorSession) (number : Nat) : Option Nat :=
  s.pools[number]?.map fun pool => pool.table.initial

theorem initialAt_of_pool (hpool : s.pools[number]? = some pool) :
    s.initialAt number = some pool.table.initial := by
  rw [initialAt, hpool, Option.map_some]

/-- A pool is there whose chains can be allocated. -/
def Allocates (s : DescriptorSession) (number : Nat) : Prop :=
  ∃ count, s.initialAt number = some count ∧ isOversized count = false

theorem Allocates.exists_pool (h : s.Allocates number) :
    ∃ pool, s.pools[number]? = some pool ∧ isOversized pool.table.initial = false := by
  obtain ⟨count, hcount, hfits⟩ := h
  obtain ⟨pool, hpool, rfl⟩ := Option.map_eq_some_iff.mp hcount
  exact ⟨pool, hpool, hfits⟩

/-! ## The invariant -/

/-- The invariant of several pools, given what was made and where. -/
structure Sound (births : List Birth) (s : DescriptorSession) : Prop where
  /-- the next number is that of the next birth -/
  made : s.made = births.length
  /-- every pool is sound, as far as its own instances are concerned -/
  views : ∀ number pool, s.pools[number]? = some pool →
    PoolSession.Sound (births.map Birth.descriptor) (s.view births number pool)
  /-- a pool links its own instances -/
  linked : ∀ number pool, s.pools[number]? = some pool → ∀ link ∈ pool.table.links,
    origin births link.referent = some number
  /-- what stands in a place came from one of the pools -/
  placed : ∀ inst ∈ s.shelf.held, ∃ number < s.pools.size, origin births inst = some number

theorem sound_ofCapacity (request : Nat) : Sound [] (ofCapacity request) where
  made := rfl
  views number pool h := by
    obtain ⟨-, rfl⟩ : number = 0 ∧ Pool.ofCapacity request = pool := by
      simpa [ofCapacity, List.getElem?_singleton] using h
    exact PoolSession.sound_ofCapacity request
  linked number pool h link hmem := by
    obtain ⟨-, rfl⟩ : number = 0 ∧ Pool.ofCapacity request = pool := by
      simpa [ofCapacity, List.getElem?_singleton] using h
    cases hmem
  placed _ h := nomatch h

/-- What stands in a place was made for its own descriptor. -/
theorem Sound.born (hs : Sound births s) (h : inst ∈ s.shelf.held) :
    PoolSession.Born (births.map Birth.descriptor) inst inst.value := by
  obtain ⟨number, hlt, horigin⟩ := hs.placed inst h
  have hview := hs.views number s.pools[number] (Array.getElem?_eq_getElem hlt)
  obtain ⟨k, hborn⟩ := hview.born_of_held (mem_held_own.mpr ⟨h, horigin⟩)
  have hvalue : inst.value = k := hborn.2
  rwa [hvalue]

/-- A pool of which an instance is held has got its chains. -/
theorem Sound.allocates_of_held (hs : Sound births s) (hheld : inst ∈ s.shelf.held)
    (horigin : origin births inst = some number) : s.Allocates number := by
  obtain ⟨number', hlt, horigin'⟩ := hs.placed inst hheld
  obtain rfl : number = number' := Option.some.inj (horigin.symm.trans horigin')
  have hpool := Array.getElem?_eq_getElem hlt
  refine ⟨_, initialAt_of_pool hpool, ?_⟩
  rw [← Bool.not_eq_true]
  intro hoversized
  have hnone : (own births number s.shelf).held = [] :=
    (hs.views number _ hpool).held_of_oversized hoversized
  have hown := mem_held_own.mpr ⟨hheld, horigin⟩
  rw [hnone] at hown
  cases hown

/-- A pool is asked about its own instances only. -/
theorem Sound.holds_own (hs : Sound births s) (hpool : s.pools[number]? = some pool) :
    ∀ link ∈ pool.table.links,
      s.shelf.holds link.referent = (own births number s.shelf).holds link.referent := by
  intro link hmem
  refine (Shelf.holds_only fun inst' hnumber => beq_iff_eq.mpr ?_).symm
  rw [origin, hnumber]
  exact hs.linked number pool hpool link hmem

/-- A part of the shelf is not changed by births. -/
theorem Sound.own_append (hs : Sound births s) (number : Nat) (later : List Birth) :
    own (births ++ later) number s.shelf = own births number s.shelf := by
  refine Shelf.only_congr fun inst hheld => ?_
  obtain ⟨number', -, horigin⟩ := hs.placed inst hheld
  rw [origin_append horigin later, horigin]

/-! ## Actions that make nothing -/

/-- Nothing is said about keys. -/
theorem Sound.withKeys (hs : Sound births s) (keys : Keyring) :
    Sound births { s with keys } :=
  ⟨hs.made, hs.views, hs.linked, hs.placed⟩

theorem Sound.clear (hs : Sound births s) (name : String) :
    Sound births { s with shelf := s.shelf.clear name } where
  made := hs.made
  views number pool hpool := by
    have hview := (hs.views number pool hpool).clear name
    rw [view, own_clear]
    exact hview
  linked := hs.linked
  placed inst h := hs.placed inst (Shelf.held_clear_subset name s.shelf h)

/-- The newest pool has no instances yet. -/
theorem Sound.addPool (hs : Sound births s) (request : Nat) :
    Sound births { s with pools := s.pools.push (.ofCapacity request) } where
  made := hs.made
  views number pool hpool := by
    rw [Array.getElem?_push] at hpool
    split at hpool
    · next hnumber =>
      cases hpool
      -- what is held came from a pool that was there before
      have hnone : ∀ inst, inst ∉ (own births number s.shelf).held := by
        intro inst hheld
        obtain ⟨hheld, horigin⟩ := mem_held_own.mp hheld
        obtain ⟨number', hlt, horigin'⟩ := hs.placed inst hheld
        obtain rfl : number = number' := Option.some.inj (horigin.symm.trans horigin')
        exact Nat.ne_of_lt hlt hnumber
      exact
        { table := Table.sound_ofCapacity request
          made := by rw [List.length_map, ← hs.made]; rfl
          born := fun _ h => nomatch h
          once := List.nodup_nil
          linked := fun inst h => absurd h (hnone inst)
          unique := fun inst h => absurd h (hnone inst) }
    · exact hs.views number pool hpool
  linked number pool hpool := by
    rw [Array.getElem?_push] at hpool
    split at hpool
    · cases hpool
      exact fun _ h => nomatch h
    · exact hs.linked number pool hpool
  placed inst h := by
    obtain ⟨number, hlt, horigin⟩ := hs.placed inst h
    refine ⟨number, ?_, horigin⟩
    rw [Array.size_push]
    exact Nat.lt_succ_of_lt hlt

/-! ## Asking for a descriptor -/

/-- The view of the pool that was asked answers for all: it changes, some instances may have been
made for it, and what it hands out is its own. The other pools go by what they were. -/
theorem Sound.update (hs : Sound births s) (hpool : s.pools[number]? = some pool)
    {pool' : Pool Descriptor} (later : List Birth) (place : Option String)
    (horigin : origin (births ++ later) inst = some number)
    (hview : PoolSession.Sound ((births ++ later).map Birth.descriptor)
      ⟨pool', (own births number s.shelf).put place inst, s.made + later.length⟩)
    (hlinked : ∀ link ∈ pool'.table.links,
      origin (births ++ later) link.referent = some number) :
    Sound (births ++ later)
      { s with
        pools := s.pools.setIfInBounds number pool'
        shelf := s.shelf.put place inst
        made := s.made + later.length } := by
  have hlt := (Array.getElem?_eq_some_iff.mp hpool).1
  constructor
  case made => rw [List.length_append, ← hs.made]
  case views =>
    intro other pool'' hother
    by_cases heq : number = other
    · subst heq
      obtain rfl : pool' = pool'' := by simpa [hlt] using hother
      rwa [view, own_put horigin, hs.own_append]
    · -- what is put into a place is not one of theirs, so they can only lose an instance
      rw [Array.getElem?_setIfInBounds_ne heq] at hother
      have hold := (hs.views other pool'' hother).later (later.map Birth.descriptor)
      rw [← List.map_append, List.length_map] at hold
      refine hold.release fun inst' hheld => ?_
      obtain ⟨hheld, horigin'⟩ := mem_held_own.mp hheld
      change inst' ∈ (own births other s.shelf).held
      rw [← hs.own_append other later]
      rcases Shelf.mem_held_put hheld with rfl | hkept
      · exact absurd (Option.some.inj (horigin.symm.trans horigin')) heq
      · exact mem_held_own.mpr ⟨hkept, horigin'⟩
  case linked =>
    intro other pool'' hother link hmem
    by_cases heq : number = other
    · subst heq
      obtain rfl : pool' = pool'' := by simpa [hlt] using hother
      exact hlinked link hmem
    · rw [Array.getElem?_setIfInBounds_ne heq] at hother
      exact origin_append (hs.linked other pool'' hother link hmem) later
  case placed =>
    intro inst' hheld
    rw [Array.size_setIfInBounds]
    rcases Shelf.mem_held_put hheld with rfl | hkept
    · exact ⟨number, hlt, horigin⟩
    · obtain ⟨number', hlt', horigin'⟩ := hs.placed inst' hkept
      exact ⟨number', hlt', origin_append horigin' later⟩

/-- To ask a pool is to ask it in its view. -/
theorem Sound.share_view (hs : Sound births s) (hpool : s.pools[number]? = some pool)
    (d : Descriptor) (place : Option String)
    {o : Outcome (PoolSession Descriptor) (Note (Instance Descriptor)) (PoolReply Descriptor)}
    (ho : o = (s.view births number pool).share d place)
    (hresult : o.result = .ok (.instance inst)) :
    s.share number d place =
      ⟨{ s with
          pools := s.pools.setIfInBounds number o.state.pool
          shelf := s.shelf.put place inst
          made := o.state.made },
        o.events, .ok (.instance inst)⟩ := by
  have hsame := Pool.share_congr (hs.holds_own hpool) s.made d
  have hfound : s.pool number = .ok pool := by rw [DescriptorSession.pool, hpool]
  -- the pool looks at no instance of another one, so the view shows all of what it sees
  rw [PoolSession.share, view, ← hsame] at ho
  rw [share, hfound]
  dsimp only at ho ⊢
  cases houtcome : (pool.share s.shelf.holds s.made d).outcome with
  | error fault =>
    rw [houtcome] at ho
    rw [ho] at hresult
    cases hresult
  | ok entry =>
    rw [houtcome] at ho
    subst ho
    obtain rfl : entry.target = inst := by simpa using hresult
    rfl

/-- What was made when a pool was asked. -/
def bornBy (number : Nat) (events : List (Note (Instance Descriptor))) : List Birth :=
  (Note.makings events).map fun inst => ⟨number, inst.value⟩

/-- What asking a pool for a descriptor leads to. -/
structure Derives (births : List Birth) (number : Nat)
    (o : Outcome DescriptorSession (Note (Instance Descriptor)) DescriptorReply)
    (inst : Instance Descriptor) : Prop where
  /-- an instance is the answer -/
  result : o.result = .ok (.instance inst)
  /-- it comes from the pool that was asked -/
  origin : origin (births ++ bornBy number o.events) inst = some number
  /-- all pools are sound afterwards -/
  sound : Sound (births ++ bornBy number o.events) o.state

/-- A pool whose chains cannot be allocated answers no request, and nothing changes. -/
theorem Sound.share_of_oversized (hs : Sound births s) (hpool : s.pools[number]? = some pool)
    (hoversized : isOversized pool.table.initial = true) (d : Descriptor)
    (place : Option String) : s.share number d place = ⟨s, [], .error .overflow⟩ := by
  have hfound : s.pool number = .ok pool := by rw [DescriptorSession.pool, hpool]
  have htable : pool.table.Sound := (hs.views number pool hpool).table
  obtain ⟨hlt, rfl⟩ := Array.getElem?_eq_some_iff.mp hpool
  rw [share, hfound]
  dsimp only
  rw [Pool.share_of_oversized htable hoversized]
  dsimp only
  rw [Array.setIfInBounds_def, dif_pos hlt, Array.set_getElem_self]

/-- A pool whose chains can be allocated answers with an instance of its own. -/
theorem Sound.share (hs : Sound births s) (hallocates : s.Allocates number) (d : Descriptor)
    (place : Option String) : ∃ inst, Derives births number (s.share number d place) inst := by
  obtain ⟨pool, hpool, hfits⟩ := hallocates.exists_pool
  have hview := hs.views number pool hpool
  have hshared := PoolSession.Sound.share PoolSession.descriptor_classes hview d place
  cases PoolSession.Sound.shares PoolSession.descriptor_classes hview d place with
  | hit inst hmet hmade hresult hstate =>
    -- the instance is the pool's own already
    have hown := mem_held_own.mp (hview.mem_met.mp (PoolSession.mem_met_of_eq hmet)).1
    rw [hmade, hstate] at hshared
    refine ⟨inst, ?_⟩
    rw [hs.share_view hpool d place rfl hresult, hstate]
    constructor
    case result => rfl
    all_goals rw [bornBy, hmade]
    case origin => exact origin_append hown.2 []
    case sound =>
      refine hs.update hpool [] place (origin_append hown.2 []) ?_ ?_
      · rw [List.map_append]
        exact hshared
      · exact fun link hmem => origin_append (hs.linked number pool hpool link hmem) []
  | miss table rest hmet hmade hresult hstate htable hlinks hrest =>
    -- the instance is new, and its birth is the next one
    have hnew : DescriptorSession.origin (births ++ [⟨number, d⟩]) ⟨s.made, d⟩ = some number := by
      rw [hs.made]
      exact origin_new births ⟨number, d⟩ d
    rw [hmade, hstate] at hshared
    refine ⟨⟨s.made, d⟩, ?_⟩
    rw [hs.share_view hpool d place rfl hresult, hstate]
    constructor
    case result => rfl
    all_goals rw [bornBy, hmade]
    case origin => exact hnew
    case sound =>
      refine hs.update hpool [⟨number, d⟩] place hnew ?_ ?_
      · rw [List.map_append]
        exact hshared
      · intro link hmem
        rcases List.mem_cons.mp (hlinks.subset hmem) with rfl | hold
        · exact hnew
        · exact origin_append (hs.linked number pool hpool link (hrest.subset hold)) _
  | overflowed hoversized hmet hall =>
    cases hfits.symm.trans hoversized

end DescriptorSession

end Ephemera
