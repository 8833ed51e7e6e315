import Ephemera.Proofs.Chronicle.Claims
import Ephemera.Proofs.Chronicle.Return

/-!
# Demands that start over

A demand runs another computation when the last one came too late, and it has no bound of its own
for this. But a computation comes too late only if the value of its key was taken away while it was
under way, and it can only be the computation itself that brought this about. So a computation whose
script is empty, or missing, is the last one of its demand. All others have a script, and there are
only so many of these.

`Tracks` says what the rounds so far and the computations under way have to do with each other: each
claim has a deed with which it began, and if its slot is done with by now, a later deed says so. No
claim is one with an empty script, except for a moment: it is on top of the stack then, nothing was
done since it began, and the next step ends it (`Tracked`).
-/

namespace Ephemera

namespace Machine

variable {s s' : MemoSession} {w : Scene} {stack rest : List Frame} {top waiting : Frame}
  {origin plan : Plan MemoAction} {key key' : Key} {call call' : Nat} {ending : Ending}
  {deeds ds : List Deed} {rounds rs : List Round} {calls : List Call} {former : Option Nat}
  {m m₀ : Machine} {t : Ticket} {cs cs' : List Claim} {live : Key → Bool}

/-! ## What is kept beside a run -/

/-- What the rounds so far have to do with the computations that are under way. -/
structure Tracks (deeds : List Deed) (rounds : List Round) (s : MemoSession)
    (cs : List Claim) : Prop where
  /-- numbers of computations go up -/
  numbered : ∀ r ∈ rounds, r.call < s.calls ∧ ∀ call, r.former = some call → call < r.call
  /-- computations under way have begun before -/
  begun : ∀ c ∈ cs, c.call < s.calls
  /-- if the slot of a claim is done with, its value was taken away since the claim began -/
  watched : ∀ c ∈ cs, ∀ t, c.ticket = some t → ∃ before during,
    deeds = before ++ .begun c.key c.call :: during ∧
      ∀ slot, s.memo.slots[t.slot]? = some slot → slot.generation = 2 → .emptied c.key ∈ during
  /-- nothing comes after a computation with an empty script -/
  lone : ∀ r ∈ rounds, ∀ r' ∈ rounds, r'.former = some r.call → r.isBare = false

theorem Tracks.mono (h : Tracks deeds rounds s cs) (hsub : cs' ⊆ cs) :
    Tracks deeds rounds s cs' :=
  ⟨h.numbered, fun c hc => h.begun c (hsub hc), fun c hc => h.watched c (hsub hc), h.lone⟩

/-- No computation under way has an empty script. -/
def Busy (rounds : List Round) (cs : List Claim) : Prop :=
  ∀ r ∈ rounds, r.isBare = true → ∀ c ∈ cs, c.call ≠ r.call

theorem Busy.mono (h : Busy rounds cs) (hsub : cs' ⊆ cs) : Busy rounds cs' :=
  fun r hr hbare c hc => h r hr hbare c (hsub hc)

/-- What is kept beside a machine. -/
structure Tracked (deeds : List Deed) (rounds : List Round) (m : Machine) : Prop where
  /-- rounds and computations -/
  tracks : Tracks deeds rounds m.scene.session (claims m.phase.stack)
  /-- a computation with an empty script is just about to end, if there is one -/
  bare : Busy rounds (claims m.phase.stack) ∨ ∃ origin key call ticket ending rest,
    m.phase = .running (.computing origin key call ticket [] ending) rest ∧
      Busy rounds (claims rest) ∧ ∀ t slot, ticket = some t →
        m.scene.session.memo.slots[t.slot]? = some slot → slot.generation ≠ 2

theorem tracked_empty (m : Machine) (hstack : m.phase.stack = []) : Tracked [] [] m := by
  have hclaims : claims m.phase.stack = [] := by rw [hstack]; rfl
  constructor
  · rw [hclaims]
    constructor <;> simp
  · exact .inl fun r hr => absurd hr List.not_mem_nil

/-- Rounds that follow on those so far: all have the next number and start over from the same
computation. -/
structure Follow (s s' : MemoSession) (rounds : List Round) (former : Option Nat)
    (rs : List Round) : Prop where
  /-- the computation has begun -/
  calls : s.calls ≤ s'.calls
  /-- its number is the next one -/
  next : ∀ r ∈ rs, r.call = s.calls ∧ s.calls < s'.calls ∧ r.former = former
  /-- what started over had begun before, and its script was not empty -/
  former : ∀ r ∈ rs, ∀ call, former = some call →
    call < s.calls ∧ ∀ r' ∈ rounds, r'.call = call → r'.isBare = false

theorem Tracks.extend (h : Tracks deeds rounds s cs) (hfollow : Follow s s' rounds former rs)
    (hmemo : Attested s.memo s'.memo ds) (hsub : cs' ⊆ cs)
    (htickets : ∀ c ∈ cs', ∀ t, c.ticket = some t →
      ∃ slot, s'.memo.slots[t.slot]? = some slot ∧ slot.key = c.key) :
    Tracks (deeds ++ ds) (rounds ++ rs) s' cs' where
  numbered r hr := by
    rcases List.mem_append.mp hr with hold | hnew
    · obtain ⟨hlt, hformer⟩ := h.numbered r hold
      exact ⟨Nat.lt_of_lt_of_le hlt hfollow.calls, hformer⟩
    · obtain ⟨hcall, hlt, hformer⟩ := hfollow.next r hnew
      rw [hcall]
      refine ⟨hlt, fun call hsome => ?_⟩
      exact (hfollow.former r hnew call (hformer.symm.trans hsome)).1
  begun c hc := Nat.lt_of_lt_of_le (h.begun c (hsub hc)) hfollow.calls
  watched c hc t ht := by
    obtain ⟨before, during, hdeeds, hdone⟩ := h.watched c (hsub hc) t ht
    obtain ⟨slot, hslot, hkey⟩ := htickets c hc t ht
    refine ⟨before, during ++ ds, by rw [hdeeds, List.append_assoc, List.cons_append], ?_⟩
    intro slot' hslot' hgeneration
    obtain rfl := Option.some.inj (hslot.symm.trans hslot')
    rcases hmemo t.slot slot hslot hgeneration with hold | hmem
    · exact List.mem_append_left _ (hdone slot hold hgeneration)
    · rw [hkey] at hmem
      exact List.mem_append_right _ hmem
  lone r hr r' hr' hafter := by
    rcases List.mem_append.mp hr' with hold' | hnew'
    · rcases List.mem_append.mp hr with hold | hnew
      · exact h.lone r hold r' hold' hafter
      · -- a new round has a higher number than any that starts over so far
        have hcall := (hfollow.next r hnew).1
        obtain ⟨hlt, hformer⟩ := h.numbered r' hold'
        have := hformer r.call hafter
        omega
    · have hformer := (hfollow.next r' hnew').2.2.symm.trans hafter
      obtain ⟨hlt, hbusy⟩ := hfollow.former r' hnew' r.call hformer
      rcases List.mem_append.mp hr with hold | hnew
      · exact hbusy r hold rfl
      · have hcall := (hfollow.next r hnew).1
        omega

/-- A computation that was under way before is not one of the new rounds. -/
theorem Busy.extend (h : Busy rounds cs) (hfollow : Follow s s' rounds former rs)
    (hbegun : ∀ c ∈ cs, c.call < s.calls) : Busy (rounds ++ rs) cs := by
  intro r hr hbare c hc
  rcases List.mem_append.mp hr with hold | hnew
  · exact h r hold hbare c hc
  · have hcall := (hfollow.next r hnew).1
    have hlt := hbegun c hc
    omega

/-- Rounds are put down for computations that begin. -/
theorem mem_rounds {scripts : Scripts} {r : Round}
    (h : r ∈ ds.filterMap (round? scripts former)) :
    ∃ key call, .begun key call ∈ ds ∧ r = ⟨key, call, former, scripts.isBare key.name⟩ := by
  obtain ⟨d, hmem, heq⟩ := List.mem_filterMap.mp h
  cases d with
  | begun key call => exact ⟨key, call, hmem, (Option.some.inj heq).symm⟩
  | _ => cases heq

/-! ## Along the machine -/

/-- What is kept beside a demand, before anything comes of it. -/
structure Awaits (deeds : List Deed) (rounds : List Round) (s : MemoSession) (cs : List Claim)
    (former : Option Nat) (ds : List Deed) : Prop where
  /-- rounds and computations -/
  tracks : Tracks deeds rounds s cs
  /-- no computation under way has an empty script -/
  busy : Busy rounds cs
  /-- the demand starts over from a computation that had begun -/
  older : ∀ call, former = some call → call < s.calls
  /-- and whose script was not empty, if it begins another one -/
  former : ∀ key' call', .begun key' call' ∈ ds → ∀ call, former = some call →
    ∀ r ∈ rounds, r.call = call → r.isBare = false

/-- A demand that does not start over has nothing to do with earlier rounds. -/
theorem Tracks.awaits (h : Tracks deeds rounds s cs) (hbusy : Busy rounds cs) (ds : List Deed) :
    Awaits deeds rounds s cs none ds where
  tracks := h
  busy := hbusy
  older _ hformer := nomatch hformer
  former _ _ _ _ hformer := nomatch hformer

theorem Awaits.follow (h : Awaits deeds rounds s cs former ds) (hle : s.calls ≤ s'.calls)
    (hbegun : ∀ key' call, .begun key' call ∈ ds → call = s.calls ∧ s.calls < s'.calls) :
    Follow s s' rounds former (ds.filterMap (round? s.scripts former)) where
  calls := hle
  next r hr := by
    obtain ⟨key, call, hmem, rfl⟩ := mem_rounds hr
    obtain ⟨hcall, hlt⟩ := hbegun key call hmem
    exact ⟨hcall, hlt, rfl⟩
  former r hr call hformer := by
    obtain ⟨key', call', hmem, -⟩ := mem_rounds hr
    exact ⟨h.older call hformer, h.former key' call' hmem call hformer⟩

/-- A stack goes on with a result. -/
theorem Awaits.resume {result : Except Fault (Reply MemoReply)}
    (h : Awaits deeds rounds s (claims stack) former ds) (hle : s.calls ≤ w.session.calls)
    (hbegun : ∀ key' call, .begun key' call ∈ ds → call = s.calls ∧ s.calls < w.session.calls)
    (hmemo : Attested s.memo w.session.memo ds) (hs : (resume origin result w stack).Sound) :
    Tracked (deeds ++ ds) (rounds ++ ds.filterMap (round? s.scripts former))
      (resume origin result w stack) := by
  have hsub : claims (Machine.resume origin result w stack).phase.stack ⊆ claims stack :=
    (claims_resume result).subset
  have hfollow := h.follow hle hbegun
  constructor
  · rw [session_resume]
    refine h.tracks.extend hfollow hmemo hsub fun c hc t ht => ?_
    have hticket := (hs.claim hc ht).2
    rwa [session_resume] at hticket
  · exact .inl ((h.busy.extend hfollow h.tracks.begun).mono hsub)

theorem Proceeds.tracked (h : Proceeds origin key s stack ds m)
    (hawaits : Awaits deeds rounds s (claims stack) former ds) (hs : m.Sound) :
    Tracked (deeds ++ ds) (rounds ++ ds.filterMap (round? s.scripts former)) m := by
  cases h with
  | ended events result hmemo hle hge hbegun =>
    exact hawaits.resume hle hbegun (hmemo.more _) hs
  | @began memo script scripts events ticket hmemo hnext hticket =>
    let s' : MemoSession := { s with memo, scripts, calls := s.calls + 1 }
    let ds : List Deed := ticket.toList.map fun _ => .begun key s.calls
    have hbegun : ∀ key' call, .begun key' call ∈ ds → call = s.calls ∧ s.calls < s'.calls := by
      intro key' call hmem
      obtain ⟨t, -, heq⟩ := List.mem_map.mp hmem
      cases heq
      exact ⟨rfl, Nat.lt_succ_self _⟩
    have hfollow := hawaits.follow (Nat.le_succ _) hbegun
    have hbusy := hawaits.busy.extend hfollow hawaits.tracks.begun
    have hextend := hawaits.tracks.extend hfollow (hmemo.more ds) (List.Subset.refl _)
      fun c hc t ht => (hs.claim (List.mem_cons_of_mem _ hc) ht).2
    -- the slot of the new computation was not filled yet
    have hvacant : ∀ t slot, ticket = some t → memo.slots[t.slot]? = some slot →
        slot.generation ≠ 2 := by
      intro t slot ht hslot
      have hgeneration := (hs.claim (c := ⟨key, s.calls, ticket⟩) List.mem_cons_self ht).1
      rw [hticket t ht slot hslot, hgeneration]
      exact Nat.zero_ne_add_one 1
    refine ⟨⟨hextend.numbered, ?_, ?_, hextend.lone⟩, ?_⟩
    · exact List.forall_mem_cons.mpr ⟨Nat.lt_succ_self _, hextend.begun⟩
    · refine List.forall_mem_cons.mpr ⟨fun t ht => ?_, hextend.watched⟩
      obtain rfl : ticket = some t := ht
      exact ⟨deeds, [], rfl, fun slot hslot hdone => absurd hdone (hvacant t slot rfl hslot)⟩
    · cases hplans : script.plans with
      | nil => exact .inr ⟨_, _, _, _, _, _, rfl, hbusy, hvacant⟩
      | cons plan pending =>
        refine .inl fun r hr hbare => List.forall_mem_cons.mpr ⟨?_, hbusy r hr hbare⟩
        rintro (hcall : s.calls = r.call)
        rcases List.mem_append.mp hr with hold | hnew
        · have := (hawaits.tracks.numbered r hold).1
          omega
        · obtain ⟨key', call', hmem, rfl⟩ := mem_rounds hnew
          obtain ⟨t, -, heq⟩ := List.mem_map.mp hmem
          cases heq
          simp [Scripts.isBare, hnext, hplans] at hbare

theorem begun_notMem_actDeeds {inUse : List Key} (action : BriefAction) :
    .begun key call ∉ actDeeds s inUse action := by
  cases action with
  | look name | forget name =>
    rw [actDeeds]
    split <;> simp
  | _ => exact List.not_mem_nil

theorem Opens.tracked (h : Opens s stack plan ds m)
    (hawaits : Awaits deeds rounds s (claims stack) none ds) (hsession : s.Sound (keysInUse stack))
    (hs : m.Sound) :
    Tracked (deeds ++ ds) (rounds ++ ds.filterMap (round? s.scripts none)) m := by
  cases h with
  | plans plan events isShielded pending =>
    rw [List.append_nil, List.filterMap_nil, List.append_nil]
    exact ⟨hawaits.tracks, .inl hawaits.busy⟩
  | brief action events result =>
    refine hawaits.resume (Nat.le_of_eq (calls_act s _ action).symm) ?_
      (attested_act hsession action) hs
    exact fun key' call hmem => absurd hmem (begun_notMem_actDeeds action)
  | unmet how name events result =>
    exact hawaits.resume (Nat.le_refl _) (fun _ _ hmem => nomatch hmem) (.refl _ _) hs
  | demanded hkey hheld h => exact h.tracked hawaits hs

/-! ## When a computation comes too late -/

/-- A ticket is outdated only if its slot is done with. -/
theorem done_of_outdated {memo : Memo String} {slot : Slot String} {value : String}
    (hs : memo.Sound live) (hslot : memo.slots[t.slot]? = some slot) (ht : t.generation = 0)
    (h : memo.settle t value = .outdated) : slot.generation = 2 := by
  obtain ⟨position, generation⟩ := t
  obtain rfl : generation = 0 := ht
  have hsettles := hs.settles hslot value
  rw [h] at hsettles
  cases hsettles with
  | outdated slot' hslot' hgeneration =>
    obtain rfl := Option.some.inj (hslot.symm.trans hslot')
    exact hgeneration

/-- Only a computation whose ticket is outdated is followed by another one. -/
theorem outdated_of_begun
    (h : .begun key' call' ∈ concludeDeeds key call (some t) s rest ending) :
    ∃ value, s.memo.settle t value = .outdated := by
  have hsettle : ∀ value, .begun key' call' ∈ settleDeeds key (some t) value s rest →
      s.memo.settle t value = .outdated := by
    intro value hmem
    rw [settleDeeds] at hmem
    cases hsettle : s.memo.settle t value with
    | settled answer memo =>
      rw [hsettle] at hmem
      cases hvalue : s.memo.valueAt t.slot <;> simp [hvalue] at hmem
    | outdated => rfl
    | broken fault =>
      rw [hsettle] at hmem
      cases hmem
  cases ending with
  | value value => exact ⟨value, hsettle value h⟩
  | standard => exact ⟨_, hsettle _ h⟩
  | fail message => simp [concludeDeeds] at h
  | giveUp message => simp [concludeDeeds] at h

/-! ## One step and all of them -/

/-- A computation that is followed by another one does not have an empty script. -/
theorem Tracked.isBare_of_begun (h : Tracked deeds rounds ⟨w, .running top rest⟩)
    (hs : (⟨w, .running top rest⟩ : Machine).Sound) :
    ∀ key' call', .begun key' call' ∈ stepDeeds w.session top rest →
      ∀ call, top.closing? = some call → ∀ r ∈ rounds, r.call = call → r.isBare = false := by
  rintro key' call' hmem call hclosing r hr rfl
  obtain ⟨origin, key, t, ending, rfl⟩ := Frame.exists_of_closing? hclosing
  obtain ⟨value, houtdated⟩ := outdated_of_begun hmem
  obtain ⟨ht, slot, hslot, -⟩ := hs.claim (c := ⟨key, r.call, some t⟩) List.mem_cons_self rfl
  have hdone := done_of_outdated hs.scene.session.memo hslot ht houtdated
  cases hbare : r.isBare with
  | false => rfl
  | true =>
    obtain hbusy | ⟨_, _, _, _, _, _, hphase, -, hvacant⟩ := h.bare
    · exact absurd rfl (hbusy r hr hbare _ List.mem_cons_self)
    · cases hphase
      exact absurd hdone (hvacant t slot rfl hslot)

/-- Unless a computation is about to end, all computations under way have a script. -/
theorem Tracked.busy (h : Tracked deeds rounds ⟨w, .running top rest⟩) :
    Busy rounds (claims (top :: rest)) ∨ ∃ origin key call ticket ending,
      top = .computing origin key call ticket [] ending ∧ Busy rounds (claims rest) := by
  obtain hbusy | ⟨_, _, _, _, _, _, hphase, hbusy, -⟩ := h.bare
  · exact .inl hbusy
  · cases hphase
    exact .inr ⟨_, _, _, _, _, rfl, hbusy⟩

theorem Tracked.step (h : Tracked deeds rounds ⟨w, .running top rest⟩)
    (hs : (⟨w, .running top rest⟩ : Machine).Sound) (hs' : (step w top rest).Sound) :
    Tracked (deeds ++ stepDeeds w.session top rest) (rounds ++ stepRounds w.session top rest)
      (step w top rest) := by
  have hsession : w.session.Sound (keysInUse (top :: rest)) := hs.scene.session
  have htracks : Tracks deeds rounds w.session (claims (top :: rest)) := h.tracks
  have hlast := h.isBare_of_begun hs
  have hbusy := h.busy
  have hmoves := moves_step w top rest
  rw [stepRounds]
  -- from here on the step is known by the kind of move that it is
  generalize stepDeeds w.session top rest = ds at hmoves hlast ⊢
  generalize Machine.step w top rest = m at hmoves hs' ⊢
  cases hmoves with
  | done htop events =>
    subst htop
    have hawaits : Awaits deeds rounds w.session (claims rest) none [] :=
      htracks.awaits (hbusy.resolve_right (by simp)) []
    exact hawaits.resume (Nat.le_refl _) (fun _ _ hmem => nomatch hmem) (.refl _ _) hs'
  | @concludes origin key call ticket ending _ _ htop hproceeds =>
    subst htop
    have hsub : claims rest ⊆ claims (.computing origin key call ticket [] ending :: rest) :=
      List.subset_cons_self ..
    -- whether or not the script that ends was empty, those below it were not
    have hrest : Busy rounds (claims rest) := by
      obtain hbusy | ⟨_, _, _, _, _, heq, hbusy⟩ := hbusy
      · exact hbusy.mono hsub
      · exact hbusy
    refine hproceeds.tracked ⟨htracks.mono hsub, hrest, fun call' hclosing => ?_, hlast⟩ hs'
    obtain ⟨_, _, _, _, heq⟩ := Frame.exists_of_closing? hclosing
    cases heq
    exact htracks.begun _ List.mem_cons_self
  | @opens plan waiting _ _ htake h =>
    have hbusy := hbusy.resolve_right fun ⟨_, _, _, _, _, htop, _⟩ => by
      rw [htop] at htake
      cases htake
    rw [← claims_of_take? htake] at htracks hbusy
    rw [← keysInUse_of_take? htake] at hsession
    rw [Frame.closing?_of_take? htake]
    exact h.tracked (htracks.awaits hbusy ds) hsession hs'

/-- What is kept beside a run that begins with nothing under way. No address may be used twice. -/
theorem Annals.tracked (h : Annals m₀ deeds rounds calls m) (hstack : m₀.phase.stack = [])
    (hs : m₀.Sound) (hdistinct : m.scene.session.keys.Distinct) : Tracked deeds rounds m := by
  induction h with
  | here => exact tracked_empty m₀ hstack
  | step h ih =>
    have hdistinct' := hdistinct.of_isPrefix (later_step _ _ _).keys
    exact (ih hdistinct').step (h.leads.sound hs hdistinct') (h.step.leads.sound hs hdistinct)
  | start h plan ih =>
    have hdistinct' := hdistinct.of_isPrefix (later_start _ [] plan).keys
    have hsession := (h.leads.sound hs hdistinct').scene.session
    have htracks := (ih hdistinct').tracks
    exact (opens_start (w := ⟨_, []⟩) plan).tracked
      (htracks.awaits (fun _ _ _ c hc => nomatch hc) _) hsession
      ((h.start plan).leads.sound hs hdistinct)

/-! ## What bounds a demand -/

/-- Of computations that start over from each other, only the last one may have an empty script. -/
theorem countP_isBare_le {demand : List Round}
    (hlone : ∀ r ∈ demand, ∀ r' ∈ demand, r'.former = some r.call → r.isBare = false)
    (hchain : demand.IsChain fun r r' => r'.former = some r.call) :
    demand.countP Round.isBare ≤ 1 := by
  induction demand with
  | nil => exact Nat.zero_le 1
  | cons r rest ih =>
    cases rest with
    | nil => exact List.countP_le_length
    | cons r' rest =>
      obtain ⟨hformer, hrest⟩ := List.isChain_cons_cons.mp hchain
      have hr := hlone r List.mem_cons_self r' (by simp) hformer
      rw [List.countP_cons, hr]
      refine ih (fun r hr r' hr' => ?_) hrest
      exact hlone r (List.mem_cons_of_mem _ hr) r' (List.mem_cons_of_mem _ hr')

/-- What bounds the demands of a run that began in a session with nothing under way. -/
structure Bounded (s : MemoSession) (deeds : List Deed) (rounds : List Round) (calls : List Call)
    (m : Machine) : Prop where
  /-- a demand that is made now, at whatever depth, is over after some steps, and the stack that
  waits for it goes on -/
  ends : ∀ stack how name, ∃ result w, Steps (start m.scene stack (.act (.demand how name)))
    (resume (.act (.demand how name)) result w stack)
  /-- when a computation comes too late, so that its demand starts over, the value of its key was
  taken away since it began -/
  again : ∀ origin key call t ending rest value,
    m.phase = .running (.computing origin key call (some t) [] ending) rest →
      m.scene.session.memo.settle t value = .outdated →
        ∃ before during, deeds = before ++ .begun key call :: during ∧ .emptied key ∈ during
  /-- among the computations that a demand runs one after the other, one at most has an empty
  script -/
  lone : ∀ demand : List Round, demand ⊆ rounds →
    demand.IsChain (fun r r' => r'.former = some r.call) → demand.countP Round.isBare ≤ 1
  /-- no more computations have begun than there were scripts and demands -/
  count : m.scene.session.calls ≤ s.calls + s.scripts.count + calls.countP Call.isDemand

/-- Whatever a caller has done so far, and whatever computations do from then on, demands are
bounded, the one that the caller makes as well as those made by computations, and so are the
computations that they run. The addresses of keys have to be different. -/
theorem annals_bounded {request : Nat} {scripts : Scripts} {keeping : Bool}
    {result : Except Fault (Reply MemoReply)}
    (hleads : Leads (idle request scripts keeping) ⟨w, .finished result⟩)
    (h : Annals ⟨w, .finished result⟩ deeds rounds calls m)
    (hdistinct : m.scene.session.keys.Distinct) : Bounded w.session deeds rounds calls m := by
  have hs₀ := hleads.sound (sound_idle request scripts keeping)
    (hdistinct.of_isPrefix h.leads.later.keys)
  have hs := h.leads.sound hs₀ hdistinct
  have htracks := (h.tracked rfl hs₀ hdistinct).tracks
  constructor
  case ends => exact fun stack how name => start_returns m.scene stack (.act (.demand how name))
  case again =>
    intro origin key call t ending rest value hphase houtdated
    -- the claim of this computation has been watched since it began
    have hclaim : ⟨key, call, some t⟩ ∈ claims m.phase.stack := by
      rw [hphase]
      exact List.mem_cons_self
    obtain ⟨ht, slot, hslot, -⟩ := hs.claim hclaim rfl
    obtain ⟨before, during, hdeeds, hdone⟩ := htracks.watched _ hclaim t rfl
    exact ⟨before, during, hdeeds,
      hdone slot hslot (done_of_outdated hs.scene.session.memo hslot ht houtdated)⟩
  case lone =>
    intro demand hsub hchain
    exact countP_isBare_le (fun r hr r' hr' => htracks.lone r (hsub hr) r' (hsub hr')) hchain
  case count =>
    -- the caller was idle, so there were no claims to begin with
    have hbudget := h.budget_le
    have hstack : (claims (Phase.finished result).stack).length = 0 := rfl
    simp only [budget, hstack] at hbudget
    omega

/-- A computation demands its own value and takes it away again, so it comes too late, and its
demand runs another one. -/
theorem annals_bounded_again :
    let scripts : Scripts := [("a", [
      ⟨[.act (.demand .held "a"), .act (.brief (.forget "a"))], .value "v"⟩])]
    let ready := start ⟨.ofCapacity 0 scripts false, []⟩ []
      (.act (.brief (.key (.make "a" "t" none))))
    let a : Key := ⟨0, "a", "t", 17592186044416⟩
    let get : Plan MemoAction := .act (.demand .held "a")
    let c := follow 3 (startDeeds ready.scene.session [] get,
      startRounds ready.scene.session [] get, startCalls ready.scene.session get,
      start ⟨ready.scene.session, []⟩ [] get)
    c.1 = [.begun a 0, .begun a 1, .filled a "t#1", .answered a "t#1", .emptied a, .begun a 2,
        .filled a "t#2", .answered a "t#2"] ∧
      c.2.1 = [⟨a, 0, none, false⟩, ⟨a, 1, none, true⟩, ⟨a, 2, some 0, true⟩] ∧
        c.2.2.1 = [.demand .held "a", .demand .held "a", .forget a] ∧
          c.2.2.2.scene.session.calls = 3 ∧
            Bounded ready.scene.session c.1 c.2.1 c.2.2.1 c.2.2.2 := by
  intro scripts ready a get c
  have hready : Leads (idle 0 scripts false) ready := .single (.start _ _ _)
  have h : Annals ready c.1 c.2.1 c.2.2.1 c.2.2.2 := .follow (.start .here get) 3
  have hdistinct : (c.2.2.2.scene.session.keys.keys.map Key.address).Nodup := by decide
  exact ⟨by decide, by decide, by decide, by decide, annals_bounded hready h hdistinct⟩

end Machine

end Ephemera
