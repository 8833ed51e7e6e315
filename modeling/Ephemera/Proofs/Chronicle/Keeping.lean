import Ephemera.Proofs.Chronicle.Annals
import Ephemera.Proofs.Chronicle.Stable

/-!
# Values that keep their keys

Where values keep their keys, the memo decides by its own contents what is alive: a slot keeps its
value, the value keeps the key, and while the key is alive the slot stays linked. Only the slot's
own value can be in this circle, since what a computation returns too late is put into no slot. So
the circle holds until the value is taken away (`Annals.slot_stays`), and what the maker of the key
does with it makes no difference (`offers`). Without a value there is no circle, and nothing but
the maker, computations under way and requests to take the value away can keep the key alive
(`Sound.isLive_eq_false`).
-/

namespace Ephemera

namespace MemoSession

variable {s : MemoSession} {inUse : List Key} {key : Key} {name value : String}

/-! ## Which keys are alive -/

/-- A slot with a value is linked, and its key is alive. -/
theorem Sound.kept (hs : s.Sound inUse) (hkeeping : s.keeping = true) {position : Nat}
    {slot : Slot String} (hslot : s.memo.slots[position]? = some slot)
    (hvalue : slot.value.isSome = true) :
    s.isLive inUse slot.key = true ∧ position ∈ s.memo.positions := by
  have hlive : s.isLive inUse slot.key = true :=
    isLive_iff.mpr (.inr (.inr (.inr ⟨hkeeping, position, slot, hslot, hvalue, rfl⟩)))
  have hgeneration := (hs.memo.proper position slot hslot).filled.mp hvalue
  exact ⟨hlive, hs.memo.kept position slot hslot hlive (Nat.le_of_eq hgeneration)⟩

theorem Sound.isLive_of_value (hs : s.Sound inUse) (hkeeping : s.keeping = true)
    (hvalue : s.memo.valueOf key = some value) : s.isLive inUse key = true := by
  obtain ⟨position, slot, hslot, rfl, hfilled⟩ := hs.memo.valueOf_eq_some.mp hvalue
  exact (hs.kept hkeeping hslot (Option.isSome_iff_exists.mpr ⟨value, hfilled⟩)).1

/-- The number of living keys that have a value is the number of keys that have one. -/
theorem Sound.count_kept (hs : s.Sound inUse) (hkeeping : s.keeping = true) :
    s.memo.count (s.isLive inUse)
      = s.keys.keys.countP fun key => (s.memo.valueOf key).isSome := by
  rw [hs.memo.count_eq (List.Nodup.of_map _ hs.distinct) hs.known]
  refine List.countP_congr fun key _ => ?_
  rw [Bool.and_eq_true]
  refine and_iff_right_of_imp fun hsome => ?_
  obtain ⟨value, hvalue⟩ := Option.isSome_iff_exists.mp hsome
  exact hs.isLive_of_value hkeeping hvalue

/-- Without a value, a key is dead when nobody else keeps it. -/
theorem Sound.isLive_eq_false (hs : s.Sound inUse) (hkey : key ∈ s.keys.keys)
    (hnone : s.memo.valueOf key = none) (hholds : s.keys.holds key = false)
    (hpinned : key ∉ s.pinned) (hused : key ∉ inUse) : s.isLive inUse key = false := by
  rw [Bool.eq_false_iff]
  intro hlive
  rcases isLive_iff.mp hlive with h | ⟨key', hkey', haddress⟩ | ⟨key', hkey', haddress⟩ |
    ⟨-, position, slot, hslot, hvalue, haddress⟩
  · rw [hholds] at h
    cases h
  · obtain rfl := hs.distinct.eq_of_address (hs.pinned key' hkey') hkey haddress
    exact hpinned hkey'
  · obtain rfl := hs.distinct.eq_of_address (hs.used key' hkey') hkey haddress
    exact hused hkey'
  · obtain rfl := hs.distinct.eq_of_address (hs.known position slot hslot) hkey haddress
    obtain ⟨value, hvalue⟩ := Option.isSome_iff_exists.mp hvalue
    cases hnone.symm.trans (hs.memo.valueOf_eq_some.mpr ⟨position, slot, hslot, rfl, hvalue⟩)

/-! ## Letting go of keys -/

/-- The session after the caller let go of some keys. -/
def letGo (inUse : List Key) (s : MemoSession) (names : List String) : MemoSession :=
  names.foldl (fun s name => (s.act inUse (.key (.letGo name))).state) s

/-- Letting go of keys leaves everything but the holds on them. -/
theorem exists_letGo (inUse : List Key) (s : MemoSession) (names : List String) :
    ∃ keys : Keyring, keys.keys = s.keys.keys ∧ s.letGo inUse names = { s with keys } := by
  induction names generalizing s with
  | nil => exact ⟨s.keys, rfl, rfl⟩
  | cons name names ih =>
    obtain ⟨keys, hkeys, heq⟩ := ih (s.act inUse (.key (.letGo name))).state
    exact ⟨keys, hkeys.trans (Keyring.keys_release name s.keys), heq⟩

theorem Sound.letGo (hs : s.Sound inUse) (names : List String) :
    (s.letGo inUse names).Sound inUse := by
  induction names generalizing s with
  | nil => exact hs
  | cons name names ih =>
    refine ih (hs.act (.key (.letGo name)) ?_)
    rw [Keyring.Distinct, MemoSession.act, Keyring.perform, Keyring.keys_release]
    exact hs.distinct

end MemoSession

namespace Machine

variable {request : Nat} {scripts : Scripts} {keeping : Bool} {deeds ds : List Deed}
  {rounds rs : List Round} {calls cs : List Call} {m m₀ m' : Machine} {w : Scene}
  {s s' s'' : MemoSession} {inUse : List Key} {stack rest : List Frame} {top : Frame}
  {plan : Plan MemoAction}
  {key : Key} {name value : String}

/-- A key has a value for whoever asks, also if nobody holds the key. -/
structure Offers (w : Scene) (stack : List Frame) (name : String) (key : Key)
    (value : String) : Prop where
  /-- the memo finds it -/
  found : w.session.memo.value? (w.session.isLive (keysInUse stack)) key = some value
  /-- a demand by a handle is met with it right away -/
  demand : start w stack (.act (.demand .handle name))
    = deliver (.act (.demand .handle name)) (.single (.value value)) w stack
  /-- the key can be taken up again -/
  retake : (w.session.act (keysInUse stack) (.key (.retake name))).result
    = .ok (.flag (some true))
  /-- and a look shows the value then -/
  look : ((w.session.act (keysInUse stack) (.key (.retake name))).state.act (keysInUse stack)
    (.look name)).result = .ok (.seen (some value))

/-- A living key that is taken up again is held by its maker. -/
theorem act_retake (hname : s.keys.key? name = some key) (hlive : s.isLive inUse key = true) :
    (s.act inUse (.key (.retake name))).state = { s with keys := s.keys.mark key true } ∧
      (s.act inUse (.key (.retake name))).result = .ok (.flag (some true)) := by
  rw [MemoSession.act, Keyring.perform, hname]
  dsimp only
  rw [hlive]
  exact ⟨rfl, rfl⟩

/-- A value that keeps its key is there for everybody. -/
theorem offers (hs : w.session.Sound (keysInUse stack)) (hkeeping : w.session.keeping = true)
    (hname : w.session.keys.key? name = some key)
    (hvalue : w.session.memo.valueOf key = some value) : Offers w stack name key value := by
  have hkey := Keyring.mem_keys_of_key? hname
  have hlive := hs.isLive_of_value hkeeping hvalue
  obtain ⟨hstate, hresult⟩ := act_retake hname hlive
  constructor
  case found => rw [hs.memo.value?_eq (hs.knows hkey) hlive, hvalue]
  case demand =>
    have hs' := hs.use hkey hlive
    have hfound := hs'.memo.value?_eq (hs'.knows hkey)
      (MemoSession.isLive_of_mem List.mem_cons_self)
    rw [hvalue] at hfound
    -- the handle finds the key, and the memo its value
    rw [start, hname, Option.filter_some, if_pos hlive]
    dsimp only
    rw [Machine.demand, hfound]
  case retake => exact hresult
  case look =>
    have hkeys := Keyring.keys_mark key true w.session.keys
    have hs' : ({ w.session with keys := w.session.keys.mark key true } : MemoSession).Sound
        (keysInUse stack) := by
      rw [← hstate]
      refine hs.act (.key (.retake name)) ?_
      rw [hstate, Keyring.Distinct, hkeys]
      exact hs.distinct
    have hholds := Keyring.holds_mark_self hs.numbered hkey true
    -- to look for it, the caller has to hold it again
    have hheld : (w.session.keys.mark key true).held? name = some key := by
      rw [Keyring.held?, Keyring.key?_congr hkeys, hname, Option.filter_some, if_pos hholds]
    rw [← hkeys] at hkey
    have hfound := hs'.memo.value?_eq (hs'.knows hkey) (MemoSession.isLive_of_holds hholds)
    rw [hstate, MemoSession.act]
    dsimp only
    rw [hheld]
    exact congrArg (Except.ok ∘ MemoReply.seen) (hfound.trans hvalue)

/-! ## Along a run -/

/-- What later sessions owe to an earlier one and to the requests since then. -/
structure Carries (s s' : MemoSession) (calls : List Call) : Prop where
  /-- whether values keep their keys was settled at first -/
  keeping : s'.keeping = s.keeping
  /-- only a request to take its value away pins a key -/
  pinned : ∀ key ∈ s'.pinned, key ∈ s.pinned ∨ .forget key ∈ calls

theorem Carries.trans (h : Carries s s' calls) (h' : Carries s' s'' cs) :
    Carries s s'' (calls ++ cs) := by
  refine ⟨h'.keeping.trans h.keeping, fun key hkey => ?_⟩
  rcases h'.pinned key hkey with hold | hmem
  · rcases h.pinned key hold with hold | hmem
    · exact .inl hold
    · exact .inr (List.mem_append_left _ hmem)
  · exact .inr (List.mem_append_right _ hmem)

theorem carries_act (s : MemoSession) (inUse : List Key) (action : BriefAction) :
    Carries s (s.act inUse action).state (startCalls s (.act (.brief action))) := by
  cases action with
  | forget name =>
    rw [MemoSession.act, startCalls]
    cases hheld : s.keys.held? name with
    | none => exact ⟨rfl, fun _ => .inl⟩
    | some key =>
      dsimp only
      split
      · exact ⟨rfl, fun key' hmem => (List.mem_cons.mp hmem).symm.imp_right
          fun heq => List.mem_singleton.mpr (congrArg _ heq)⟩
      · exact ⟨rfl, fun _ => .inl⟩
  | look name =>
    rw [MemoSession.act]
    split <;> exact ⟨rfl, fun _ => .inl⟩
  | key action | count | isEmpty | capacity | describe => exact ⟨rfl, fun _ => .inl⟩

theorem Proceeds.carries {origin : Plan MemoAction} (h : Proceeds origin key s stack deeds m)
    (calls : List Call) : Carries s m.scene.session calls := by
  cases h with
  | ended events result =>
    rw [session_resume]
    exact ⟨rfl, fun _ => .inl⟩
  | began => exact ⟨rfl, fun _ => .inl⟩

theorem Opens.carries (h : Opens s stack plan deeds m) :
    Carries s m.scene.session (startCalls s plan) := by
  cases h with
  | plans => exact ⟨rfl, fun _ => .inl⟩
  | brief action events result =>
    rw [session_resume]
    exact carries_act s _ action
  | unmet how name events result =>
    rw [session_resume]
    exact ⟨rfl, fun _ => .inl⟩
  | demanded hkey hheld h => exact h.carries _

theorem Moves.carries (h : Moves s top rest deeds m) :
    Carries s m.scene.session (stepCalls s top) := by
  cases h with
  | done htop events =>
    rw [session_resume]
    exact ⟨rfl, fun _ => .inl⟩
  | concludes htop h => exact h.carries _
  | opens htake h =>
    rw [stepCalls, htake]
    exact h.carries

theorem Annals.carries (h : Annals m₀ deeds rounds calls m) :
    Carries m₀.scene.session m.scene.session calls := by
  induction h with
  | here => exact ⟨rfl, fun _ => .inl⟩
  | step h ih => exact ih.trans (moves_step _ _ _).carries
  | start h plan ih => exact ih.trans (opens_start (w := ⟨_, []⟩) plan).carries

/-- A slot keeps its value until this is taken away. -/
theorem Annals.slot_stays (h : Annals m ds rs cs m')
    (hearlier : Chronicle request scripts keeping deeds m)
    (hdistinct : m'.scene.session.keys.Distinct) {position : Nat} {slot : Slot String}
    (hslot : m.scene.session.memo.slots[position]? = some slot) (hvalue : slot.value = some value)
    (hkept : .emptied slot.key ∉ ds) :
    ∃ slot', m'.scene.session.memo.slots[position]? = some slot' ∧ slot'.value = some value := by
  have hdistinct' := hdistinct.of_isPrefix h.leads.later.keys
  have hs := hearlier.sound hdistinct'
  have hs' := h.leads.sound hs hdistinct
  obtain ⟨slot', hslot', hkey, hle⟩ := h.leads.later.memo.slots position slot hslot
  have hgeneration := (hs.scene.session.memo.proper position slot hslot).generation_eq_one hvalue
  have hproper := hs'.scene.session.memo.proper position slot' hslot'
  -- the slot is not done with, or else there would be a deed that says so
  have hfilled : slot'.generation ≤ 1 := by
    by_contra hne
    have hbounded := hproper.bounded
    rcases h.attested hs hdistinct position slot' hslot' (by omega) with hold | hmem
    · obtain rfl := Option.some.inj (hslot.symm.trans hold)
      omega
    · rw [hkey] at hmem
      exact hkept hmem
  have htold := hearlier.told hdistinct'
  have htold' := (h.extends hearlier).told hdistinct
  have hbook : (Book.empty.after deeds).values slot.key = some value := by
    rw [← htold.fits.values, hs.scene.session.memo.valueOf_of_slot hslot rfl (by omega), hvalue]
  have hafter := ((Book.allowsAll_append.mp htold'.allows).2.respects hbook hkept).2
  rw [← Book.after_append, ← htold'.fits.values,
    hs'.scene.session.memo.valueOf_of_slot hslot' hkey hfilled] at hafter
  exact ⟨slot', hslot', hafter⟩

/-- The number of living keys that have a value. -/
def living (m : Machine) : Nat :=
  m.scene.session.memo.count (m.scene.session.isLive (keysInUse m.phase.stack))

/-- Every value that was put in counts until it is taken away, since it keeps its key alive. -/
theorem Chronicle.count_living (h : Chronicle request scripts keeping deeds m)
    (hdistinct : m.scene.session.keys.Distinct) (hkeeping : m.scene.session.keeping = true) :
    (changes deeds).countP Prod.snd
      = (changes deeds).countP (fun change => !change.2) + living m := by
  have hs := h.sound hdistinct
  refine count_valued hs (h.told hdistinct) fun key _ hsome => ?_
  obtain ⟨value, hvalue⟩ := Option.isSome_iff_exists.mp hsome
  exact hs.scene.session.isLive_of_value hkeeping hvalue

/-- What can be said at any time if values keep their keys. -/
structure Anchored (deeds : List Deed) (calls : List Call) (m : Machine) : Prop where
  /-- what has a value is linked, and its key is alive -/
  live : ∀ (position : Nat) (slot : Slot String),
    m.scene.session.memo.slots[position]? = some slot → slot.value.isSome = true →
      m.scene.session.isLive (keysInUse m.phase.stack) slot.key = true ∧
        position ∈ m.scene.session.memo.positions
  /-- whatever happens from now on, it stays linked, with this value, until the value is taken
  away -/
  stays : ∀ (ds : List Deed) (rs : List Round) (cs : List Call) (m' : Machine),
    Annals m ds rs cs m' → m'.scene.session.keys.Distinct →
      ∀ (position : Nat) (slot : Slot String) (value : String),
        m.scene.session.memo.slots[position]? = some slot → slot.value = some value →
          .emptied slot.key ∉ ds → position ∈ m'.scene.session.memo.positions ∧
            m'.scene.session.memo.valueAt position = some value
  /-- what was put in and not taken away is there -/
  installed : ∀ key value before after, deeds = before ++ .filled key value :: after →
    .emptied key ∉ after → m.scene.session.memo.valueOf key = some value
  /-- the number of keys that are counted goes up when a value is put in and down when one is
  taken away, and never otherwise -/
  balance : ∀ (ds : List Deed) (rs : List Round) (cs : List Call) (m' : Machine),
    Annals m ds rs cs m' → m'.scene.session.keys.Distinct →
      living m + (changes ds).countP Prod.snd
        = living m' + (changes ds).countP fun change => !change.2
  /-- it does not change when keys are let go, and a key with a value has it for whoever asks then
  as before -/
  released : ∀ names : List String,
    let w : Scene := ⟨m.scene.session.letGo (keysInUse m.phase.stack) names, m.scene.events⟩
    (w.session.act (keysInUse m.phase.stack) .count).result = .ok (.count (living m)) ∧
      ∀ name key value, m.scene.session.keys.key? name = some key →
        m.scene.session.memo.valueOf key = some value → Offers w m.phase.stack name key value
  /-- a key without a value is dead if nobody holds it, no computation is under way for it, and its
  value was never to be taken away -/
  dead : ∀ key ∈ m.scene.session.keys.keys, m.scene.session.memo.valueOf key = none →
    m.scene.session.keys.holds key = false → key ∉ keysInUse m.phase.stack →
      .forget key ∉ calls → m.scene.session.isLive (keysInUse m.phase.stack) key = false

/-- In every run with values that keep their keys, in the middle of computations too, what has a
value stays alive until the value is taken away, and what has none is not kept alive by the memo.
The addresses of keys have to be different. -/
theorem annals_anchored (h : Annals (idle request scripts true) deeds rounds calls m)
    (hdistinct : m.scene.session.keys.Distinct) : Anchored deeds calls m := by
  have hs := h.chronicle.sound hdistinct
  have hsession := hs.scene.session
  have htold := h.chronicle.told hdistinct
  have hkeeping : m.scene.session.keeping = true := h.carries.keeping
  constructor
  case live => exact fun position slot hslot hvalue => hsession.kept hkeeping hslot hvalue
  case stays =>
    intro ds rs cs m' hlater hdistinct' position slot value hslot hvalue hkept
    obtain ⟨slot', hslot', hvalue'⟩ :=
      hlater.slot_stays h.chronicle hdistinct' hslot hvalue hkept
    have hsession' := (hlater.leads.sound hs hdistinct').scene.session
    refine ⟨(hsession'.kept (hlater.carries.keeping.trans hkeeping) hslot' ?_).2, ?_⟩
    · exact Option.isSome_iff_exists.mpr ⟨value, hvalue'⟩
    · rw [Memo.valueAt, hslot', Option.bind_some, hvalue']
  case installed =>
    rintro key value before after rfl hkept
    rw [htold.fits.values]
    exact (values_of_filled htold.allows hkept).2
  case balance =>
    intro ds rs cs m' hlater hdistinct'
    -- both counts are fillings less takings, and what came between is the rest
    have hnow := h.chronicle.count_living hdistinct hkeeping
    have hthen := (hlater.extends h.chronicle).count_living hdistinct'
      (hlater.carries.keeping.trans hkeeping)
    simp only [changes, List.filterMap_append, List.countP_append] at hnow hthen ⊢
    omega
  case released =>
    intro names w
    obtain ⟨keys, hkeys, heq⟩ := m.scene.session.exists_letGo (keysInUse m.phase.stack) names
    have hw : w.session.Sound (keysInUse m.phase.stack) := hsession.letGo names
    have hstate : w.session = { m.scene.session with keys } := heq
    have hwkeeping : w.session.keeping = true := by rw [hstate]; exact hkeeping
    -- with values that keep keys, no count looks at who holds what
    have hliving :
        w.session.memo.count (w.session.isLive (keysInUse m.phase.stack)) = living m := by
      rw [living, hw.count_kept hwkeeping, hsession.count_kept hkeeping, hstate]
      exact congrArg _ hkeys
    refine ⟨congrArg (Except.ok ∘ MemoReply.count) hliving, fun name key value hname hvalue => ?_⟩
    refine offers hw hwkeeping ?_ ?_
    · rwa [hstate, Keyring.key?_congr hkeys]
    · rwa [hstate]
  case dead =>
    intro key hkey hnone hholds hused hnever
    refine hsession.isLive_eq_false hkey hnone hholds (fun hpinned => ?_) hused
    -- nothing but a request to take its value away pins a key
    rcases h.carries.pinned key hpinned with hold | hmem
    · cases hold
    · exact hnever hmem

/-- A value is computed, and its key is let go. -/
theorem annals_anchored_released :
    let plan : Plan MemoAction := .apart [.act (.brief (.key (.make "a" "t" none))),
      .act (.demand .held "a"), .act (.brief (.key (.letGo "a")))]
    let s : MemoSession := .ofCapacity 0 [] true
    let c := follow 4 (startDeeds s [] plan, startRounds s [] plan, startCalls s plan,
      start ⟨s, []⟩ [] plan)
    let a : Key := ⟨0, "a", "t", 17592186044416⟩
    c.1 = [.begun a 0, .filled a "t#0", .answered a "t#0"] ∧
      c.2.2.2.scene.session.keys.holds a = false ∧
        c.2.2.2.scene.session.memo.valueOf a = some "t#0" ∧ Anchored c.1 c.2.2.1 c.2.2.2 := by
  intro plan s c a
  have h : Annals (idle 0 [] true) c.1 c.2.1 c.2.2.1 c.2.2.2 := .follow (.start .here plan) 4
  have hdistinct : (c.2.2.2.scene.session.keys.keys.map Key.address).Nodup := by decide
  exact ⟨by decide, by decide, by decide, annals_anchored h hdistinct⟩

end Machine

end Ephemera
