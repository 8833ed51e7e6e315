import Ephemera.Proofs.Machine.Sound

/-!
# The life of a slot

A slot is made for a key and linked, may get its value once, and may lose it once; it is
unlinked then, and that was all. `Lifecycle` says this of the state of a machine together with
what computations, finished or not, have come to rely on, and it holds of whatever state a
caller can bring about, in the middle of computations that are nested in any way, and after
some that failed or gave up. In particular no check inside of the memo ever fails: all faults
are the doing of callers and computations.

One thing that a caller can do is to ask for more chains than can be allocated. Nothing is ever
linked then, and every demand that needs a slot ends in the same fault.
-/

namespace Ephemera

namespace Machine

/-! ## Runs -/

/-- Nothing was asked yet of a memo for a caller who wants so many chains. -/
def idle (request : Nat) (scripts : Scripts) (keeping : Bool) : Machine :=
  ⟨⟨.ofCapacity request scripts keeping, []⟩, .finished (.ok (.several []))⟩

/-- How a machine goes on: it does the next thing, or its caller has another plan. -/
inductive Next : Machine → Machine → Prop where
  | step {m m' : Machine} (h : Step m m') : Next m m'
  | start (w : Scene) (result : Except Fault (Reply MemoReply)) (plan : Plan MemoAction) :
      Next ⟨w, .finished result⟩ (start ⟨w.session, []⟩ [] plan)

/-- A machine comes to another one by its own steps and by plans of its caller. -/
def Leads : Machine → Machine → Prop :=
  Relation.ReflTransGen Next

theorem Next.later {m m' : Machine} (h : Next m m') : m.scene.session.Later m'.scene.session := by
  cases h with
  | step h =>
    cases h with
    | next w top rest => exact later_step w top rest
  | start w result plan => exact later_start ⟨w.session, []⟩ [] plan

theorem Leads.later {m m' : Machine} (h : Leads m m') :
    m.scene.session.Later m'.scene.session := by
  induction h with
  | refl => exact .refl _
  | tail _ hnext ih => exact ih.trans hnext.later

/-- Whether chains can be allocated is decided by what the caller has asked for. -/
theorem Leads.isOversized_eq {request : Nat} {scripts : Scripts} {keeping : Bool} {m : Machine}
    (h : Leads (idle request scripts keeping) m) :
    isOversized m.scene.session.memo.table.initial = decide (2 ^ 59 < request) := by
  rw [h.later.memo.initial, ← isOversized_roundedCapacity]
  rfl

/-! ## Every state is sound -/

theorem sound_idle (request : Nat) (scripts : Scripts) (keeping : Bool) :
    (idle request scripts keeping).Sound where
  scene := Scene.sound_fresh (MemoSession.sound_ofCapacity request scripts keeping)
  excused _ h := nomatch h

/-- A machine stays sound as it goes on, if no address is used twice. -/
theorem Next.sound {m m' : Machine} (h : Next m m') (hs : m.Sound)
    (hdistinct : m'.scene.session.keys.Distinct) : m'.Sound := by
  cases h with
  | step h =>
    cases h with
    | next w top rest => exact sound_step hs hdistinct
  | start w result plan => exact sound_start (Scene.sound_fresh hs.scene.session) hdistinct

theorem Leads.sound {m m' : Machine} (h : Leads m m') (hs : m.Sound)
    (hdistinct : m'.scene.session.keys.Distinct) : m'.Sound := by
  induction h with
  | refl => exact hs
  | tail _ hnext ih => exact hnext.sound (ih (hdistinct.of_isPrefix hnext.later.keys)) hdistinct

/-! ## What holds in every state -/

/-- What can be said at any time of slots, links, computations and faults, where the caller had
asked for so many chains. -/
structure Lifecycle (wanted : Nat) (m : Machine) : Prop where
  /-- a generation is 0, 1 or 2, and there is a value exactly in generation 1 -/
  stages : ∀ (position : Nat) (slot : Slot String),
    m.scene.session.memo.slots[position]? = some slot →
      slot.generation ≤ 2 ∧ (slot.value.isSome = true ↔ slot.generation = 1)
  /-- what is linked is a slot of generation 0 or 1 -/
  linked : ∀ position ∈ m.scene.session.memo.positions, ∃ slot,
    m.scene.session.memo.slots[position]? = some slot ∧ slot.generation ≤ 1
  /-- for these the two ways to tell whether there is a value agree -/
  agree : ∀ position ∈ m.scene.session.memo.positions,
    m.scene.session.memo.isFilled position = (m.scene.session.memo.valueAt position).isSome
  /-- a key has one link at most -/
  unique : ∀ link ∈ m.scene.session.memo.table.links,
    ∀ link' ∈ m.scene.session.memo.table.links, ∀ slot slot' : Slot String,
      m.scene.session.memo.slots[link.referent]? = some slot →
        m.scene.session.memo.slots[link'.referent]? = some slot' → slot.key = slot'.key →
          link = link' ∧ (m.scene.session.memo.positions.count link.referent = 1)
  /-- a slot is linked as long as its key is alive and it was not emptied; so nothing unlinks
  a slot without a value -/
  kept : ∀ (position : Nat) (slot : Slot String),
    m.scene.session.memo.slots[position]? = some slot → slot.generation ≤ 1 →
      m.scene.session.isLive (keysInUse m.phase.stack) slot.key = true →
        position ∈ m.scene.session.memo.positions
  /-- a slot that was in generation 2 at any time before still is, is not linked, and has no
  value -/
  spent : ∀ m₀ : Machine, Leads m₀ m → ∀ (position : Nat) (slot : Slot String),
    m₀.scene.session.memo.slots[position]? = some slot → slot.generation = 2 →
      position ∉ m.scene.session.memo.positions ∧ ∃ slot',
        m.scene.session.memo.slots[position]? = some slot' ∧ slot'.key = slot.key ∧
          slot'.generation = 2 ∧ slot'.value = none
  /-- a computation that runs for a ticket took note of generation 0, and of a slot of its key -/
  recorded : ∀ origin key call t pending ending,
    Frame.computing origin key call (some t) pending ending ∈ m.phase.stack →
      t.generation = 0 ∧ ∃ slot, m.scene.session.memo.slots[t.slot]? = some slot ∧ slot.key = key
  /-- the number of chains is a power of two -/
  chains : isPowerOfTwo m.scene.session.memo.capacity = true
  /-- all faults come from names that stand for nothing, from computations that gave up, and from
  asking for more chains than can be allocated -/
  faults : ∀ fault ∈ m.scene.faults ++ m.phase.faults, (∃ name, fault = .unheld name) ∨
    (fault = .overflow ∧ 2 ^ 59 < wanted) ∨
      ∃ message key call, fault = .raised message ∧ MemoEvent.gaveUp key call ∈ m.scene.events
  /-- whoever has asked for so many never gets a link, and demands that need one change nothing -/
  overflowed : 2 ^ 59 < wanted → m.scene.session.memo.positions = [] ∧ ∀ live key,
    m.scene.session.memo.reserve live key = ⟨.error .overflow, m.scene.session.memo, []⟩

/-- In every state that a caller can bring about, in the middle of computations too, slots are
where they should be in their lives. The addresses of keys have to be different. -/
theorem lifecycle {request : Nat} {scripts : Scripts} {keeping : Bool} {m : Machine}
    (hleads : Leads (idle request scripts keeping) m)
    (hdistinct : m.scene.session.keys.Distinct) : m.Lifecycle request := by
  have hs := hleads.sound (sound_idle request scripts keeping) hdistinct
  have hmemo := hs.scene.session.memo
  have hoversized := hleads.isOversized_eq
  have hlinked : ∀ position ∈ m.scene.session.memo.positions, ∃ slot,
      m.scene.session.memo.slots[position]? = some slot ∧ slot.generation ≤ 1 := by
    intro position hmem
    obtain ⟨link, hlink, rfl⟩ := List.mem_map.mp hmem
    obtain ⟨slot, hslot, -, hgeneration⟩ := hmemo.linked link hlink
    exact ⟨slot, hslot, hgeneration⟩
  refine
    { stages := fun position slot hslot => ?_
      linked := hlinked
      agree := ?_
      unique := ?_
      kept := fun position slot hslot hgeneration hlive =>
        hmemo.kept position slot hslot hlive hgeneration
      spent := ?_
      recorded := fun origin key call t pending ending hmem => hs.scene.tickets _ hmem t rfl
      chains := hmemo.table.isPowerOfTwo_capacity
      faults := ?_
      overflowed := ?_ }
  · have hproper := hmemo.proper position slot hslot
    exact ⟨hproper.bounded, hproper.filled⟩
  · intro position hmem
    obtain ⟨slot, hslot, -⟩ := hlinked position hmem
    have hproper := hmemo.proper position slot hslot
    rw [Memo.isFilled, Memo.slotIs, Memo.valueAt, hslot]
    exact hproper.isFilled_eq
  · intro link hlink link' hlink' slot slot' hslot hslot' hkey
    refine ⟨hmemo.link_unique hlink hlink' hslot hslot' hkey, ?_⟩
    exact List.count_eq_one_of_mem hmemo.once (List.mem_map_of_mem hlink)
  · -- generations never go down, so a slot that was emptied once stays so
    intro m₀ hleads₀ position slot hslot hgeneration
    obtain ⟨slot', hslot', hkey, hle⟩ := hleads₀.later.memo.slots position slot hslot
    have hproper := hmemo.proper position slot' hslot'
    have hbounded := hproper.bounded
    have hdone : slot'.generation = 2 := by omega
    refine ⟨fun hmem => ?_, slot', hslot', hkey, hdone, hproper.value_eq_none (by omega)⟩
    obtain ⟨_, hslot'', hgeneration'⟩ := hlinked position hmem
    obtain rfl := Option.some.inj (hslot'.symm.trans hslot'')
    omega
  · -- both the faults told already and the one being passed on are excused
    intro fault hmem
    have hexcuses : m.scene.Excuses fault := by
      rcases List.mem_append.mp hmem with h | h
      · exact hs.scene.excused fault h
      · exact hs.excused fault h
    rwa [Scene.Excuses, hoversized, decide_eq_true_eq] at hexcuses
  · intro hlarge
    rw [decide_eq_true hlarge] at hoversized
    refine ⟨?_, hmemo.reserve_of_oversized hoversized⟩
    rw [Memo.positions, hmemo.table.links_of_oversized hoversized]
    rfl

/-- The memo gives up, and no computation has begun. -/
theorem faults_overflowed :
    let ready := start ⟨.ofCapacity (2 ^ 60) [] false, []⟩ []
      (.act (.brief (.key (.make "a" "t" none))))
    let m := start ⟨ready.scene.session, []⟩ [] (.act (.demand .held "a"))
    m.phase.faults = [.overflow] ∧ m.scene.events.length = 0 := by
  decide

/-- A computation that will take its own value away is under way. -/
theorem lifecycle_midway :
    let scripts : Scripts := [("a", [⟨[.act (.brief (.forget "a"))], .value "v"⟩])]
    let ready := start ⟨.ofCapacity 0 scripts false, []⟩ []
      (.act (.brief (.key (.make "a" "t" none))))
    let m := start ⟨ready.scene.session, []⟩ [] (.act (.demand .held "a"))
    m.phase.stack.length = 1 ∧ m.scene.session.memo.positions = [0] ∧ m.Lifecycle 0 := by
  intro scripts ready m
  have hready : Next (idle 0 scripts false) ready := .start _ _ _
  have hm : Next ready m := .start ready.scene _ _
  have hleads : Leads (idle 0 scripts false) m :=
    (Relation.ReflTransGen.single hready).tail hm
  have hdistinct : (m.scene.session.keys.keys.map Key.address).Nodup := by decide
  exact ⟨by decide, by decide, lifecycle hleads hdistinct⟩

end Machine

end Ephemera
