import Ephemera.Proofs.Ledger.Session
import Ephemera.Proofs.Machine.Sound

/-!
# What the machine does to the ledger

The machine takes steps, and the ledger carries out a plan at once. `Ends` relates the two: from
some state on, the machine comes to the end of the plan, with the reply, the events and the
ledger that are the outcome there. The stack below the plan has no part in this, which is why
computations can be nested.

All states that the machine comes through are assumed to be sound (`Secure`). A secure machine
has secure successors, so the assumption is made once for a whole run.
-/

namespace Ephemera

/-- The events of a scene that show, the earliest first. -/
def Scene.visible (w : Scene) : List MemoEvent :=
  w.events.reverse.filterMap MemoEvent.visible?

@[simp]
theorem Scene.visible_emit (e : MemoEvent) (w : Scene) :
    (w.emit e).visible = w.visible ++ e.visible?.toList := by
  cases h : e.visible? <;> simp [visible, emit, h]

@[simp]
theorem Scene.visible_tell (messages : List Message) (w : Scene) :
    (w.tell messages).visible = w.visible := by
  induction messages with
  | nil => simp [visible, tell]
  | cons message rest ih => simp [visible, tell, MemoEvent.visible?]

/-- A scene comes out of another one with the ledger and the events of an outcome. -/
structure Outcome.Matches {ρ : Type} (o : Outcome Ledger MemoEvent ρ) (w w' : Scene) : Prop where
  /-- the ledger is that of the outcome -/
  ledger : w'.session.ledger = o.state
  /-- the events of the outcome are new -/
  visible : w'.visible = w.visible ++ o.events

namespace Machine

open Ledger (act serve)

variable {w w' : Scene} {origin plan : Plan MemoAction} {stack rest : List Frame} {key : Key}
  {ticket : Option Ticket} {m m' : Machine}

/-- All states that a machine comes through are sound. -/
def Secure (m : Machine) : Prop :=
  ∀ m', Steps m m' → m'.Sound

theorem Secure.sound (h : m.Secure) : m.Sound :=
  h m .refl

theorem Secure.steps (h : m.Secure) (hsteps : Steps m m') : m'.Secure :=
  fun _ hsteps' => h _ (hsteps.trans hsteps')

theorem steps_step (w : Scene) (top : Frame) (rest : List Frame) :
    Steps ⟨w, .running top rest⟩ (step w top rest) :=
  .single (.next w top rest)

/-- A stack takes the result of a plan. -/
def resume (origin : Plan MemoAction) (result : Except Fault (Reply MemoReply)) (w : Scene)
    (stack : List Frame) : Machine :=
  match result with
  | .ok reply => deliver origin reply w stack
  | .error fault => unwind fault w stack

/-- From a state on, the machine ends a plan that was started in a scene as the outcome says. -/
def Ends (origin : Plan MemoAction) (w : Scene) (stack : List Frame) (m : Machine)
    (o : Outcome Ledger MemoEvent (Reply MemoReply)) : Prop :=
  ∃ (result : Except Fault (Reply MemoReply)) (w' : Scene),
    Steps m (resume origin result w' stack) ∧ result.map Reply.visible = o.result ∧
      o.Matches w w'

/-- The same for an action with a single answer. -/
def Meets (origin : Plan MemoAction) (w : Scene) (stack : List Frame) (m : Machine)
    (o : Outcome Ledger MemoEvent MemoReply) : Prop :=
  Ends origin w stack m ⟨o.state, o.events, o.result.map .single⟩

/-! ## Actions without computations -/

/-- What is met without a step. -/
theorem Meets.of_eq {o : Outcome Ledger MemoEvent MemoReply} (result : Except Fault MemoReply)
    (w' : Scene) (heq : m = resume origin (result.map .single) w' stack)
    (hresult : result.map MemoReply.visible = o.result) (hmatches : o.Matches w w') :
    Meets origin w stack m o := by
  refine ⟨result.map .single, w', ?_, ?_, hmatches.ledger, hmatches.visible⟩
  · rw [heq]
    exact .refl
  · rw [← hresult]
    cases result <;> rfl

theorem brief_meets (hs : w.Sound (keysInUse stack) stack) (action : BriefAction) :
    Meets (.act (.brief action)) w stack (start w stack (.act (.brief action)))
      (w.session.ledger.brief (keysInUse stack) action) := by
  obtain ⟨hledger, hresult, hevents⟩ := hs.session.agrees action
  let o := w.session.act (keysInUse stack) action
  refine Meets.of_eq o.result (Scene.tell o.events { w with session := o.state }) ?_ hresult
    ⟨hledger, ?_⟩
  · rw [start]
    cases o.result <;> rfl
  · rw [hevents, Scene.visible_tell, List.append_nil]
    rfl

/-! ## Demands -/

section

variable (hs : w.Sound (key :: keysInUse rest) rest)

include hs

/-- The scene after the memo was asked for a value or a ticket. -/
theorem sound_reserve :
    let r := w.session.memo.reserve (w.session.isLive (key :: keysInUse rest)) key
    let w' := Scene.tell r.messages { w with session := { w.session with memo := r.memo } }
    w'.Sound (key :: keysInUse rest) rest ∧ w'.session.ledger = w.session.ledger ∧
      w'.visible = w.visible ∧ Memo.Reserves key w.session.memo r := by
  intro r w'
  have hkey : key ∈ key :: keysInUse rest := List.mem_cons_self
  obtain ⟨-, hreserves⟩ := hs.session.memo.reserve (hs.session.knows (hs.session.used key hkey))
    (MemoSession.isLive_of_mem hkey)
  refine ⟨(hs.setSession (hs.session.reserve hkey) (Memo.later_reserve _ key _)).tell _,
    hs.session.reserve_ledger hkey, ?_, hreserves⟩
  rw [Scene.visible_tell]
  rfl

/-- A demand for a key with a value is met at once. -/
theorem enter_present (origin : Plan MemoAction) {value : String}
    (hvalue : w.session.ledger.values key = some value) :
    ∃ w' : Scene, enter origin key w rest = deliver origin (.single (.value value)) w' rest ∧
      w'.session.ledger = w.session.ledger ∧ w'.visible = w.visible := by
  obtain ⟨-, hledger, hvisible, hreserves⟩ := sound_reserve hs
  refine ⟨_, ?_, hledger, hvisible⟩
  change w.session.memo.valueOf key = some value at hvalue
  rw [enter]
  cases hreserves with
  | present position value' table hcurrent hvalue' houtcome hmemo =>
    rw [hs.session.memo.valueOf_of_current hcurrent] at hvalue
    obtain rfl := Option.some.inj (hvalue.symm.trans hvalue')
    simp only [houtcome]
  | vacant position slot table hslot hkey hgeneration houtcome hmemo =>
    have hproper := hs.session.memo.proper position slot hslot
    rw [hs.session.memo.valueOf_of_slot hslot hkey (by omega),
      hproper.value_eq_none (by omega)] at hvalue
    cases hvalue
  | fresh table hnone houtcome hmemo =>
    obtain ⟨position, slot, hslot, hkey, hfilled⟩ := hs.session.memo.valueOf_eq_some.mp hvalue
    exact absurd (hs.session.memo.current_of_value hslot hkey hfilled) (hnone position)
  | overflowed hoversized hnone houtcome hmemo =>
    obtain ⟨position, slot, hslot, hkey, hfilled⟩ := hs.session.memo.valueOf_eq_some.mp hvalue
    exact absurd (hs.session.memo.current_of_value hslot hkey hfilled) (hnone position)

/-- A memo whose ledger is barred meets a demand with a fault. -/
theorem enter_barred (origin : Plan MemoAction) (hbarred : w.session.ledger.barred = true) :
    ∃ w' : Scene, enter origin key w rest = unwind .overflow w' rest ∧
      w'.session.ledger = w.session.ledger ∧ w'.visible = w.visible := by
  obtain ⟨-, hledger, hvisible, -⟩ := sound_reserve hs
  refine ⟨_, ?_, hledger, hvisible⟩
  rw [enter, hs.session.memo.reserve_of_oversized hbarred]

/-- A demand for a key without a value starts a computation, unless the ledger is barred. -/
theorem enter_vacant (origin : Plan MemoAction) (hfree : ¬ w.session.ledger.barred = true)
    (hvalue : w.session.ledger.values key = none) :
    ∃ (w' : Scene) (position : Nat) (slot : Slot String),
      enter origin key w rest = compute origin key (some ⟨position, 0⟩) w' rest ∧
        w'.Sound (key :: keysInUse rest) rest ∧ w'.session.ledger = w.session.ledger ∧
          w'.visible = w.visible ∧ w'.session.memo.slots[position]? = some slot ∧
            slot.key = key ∧ slot.generation = 0 := by
  obtain ⟨hs', hledger, hvisible, hreserves⟩ := sound_reserve hs
  change w.session.memo.valueOf key = none at hvalue
  rw [enter]
  cases hreserves with
  | present position value' table hcurrent hvalue' houtcome hmemo =>
    rw [hs.session.memo.valueOf_of_current hcurrent] at hvalue
    cases hvalue.symm.trans hvalue'
  | vacant position slot table hslot hkey hgeneration houtcome hmemo =>
    refine ⟨_, position, slot, ?_, hs', hledger, hvisible, ?_, hkey, hgeneration⟩
    · simp only [houtcome]
    · rw [Scene.tell, hmemo]
      exact hslot
  | fresh table hnone houtcome hmemo =>
    refine ⟨_, w.session.memo.slots.size, .vacant key, ?_, hs', hledger, hvisible, ?_, rfl, rfl⟩
    · simp only [houtcome]
    · rw [Scene.tell, hmemo]
      exact Array.getElem?_push_size
  | overflowed hoversized hnone houtcome hmemo => exact absurd hoversized hfree

end

/-! ## Computations -/

/-- Actions on the ledger tell how the machine ends a plan, with so many scripts left and with
these keys in use. -/
def Follows (act : Ledger → MemoAction → Outcome Ledger MemoEvent MemoReply) (bound : Nat)
    (inUse : List Key) (plan : Plan MemoAction) : Prop :=
  ∀ (w : Scene) (stack : List Frame), keysInUse stack = inUse → w.Sound inUse stack →
    w.session.scripts.count ≤ bound → (start w stack plan).Secure →
      Ends plan w stack (start w stack plan) (plan.run act w.session.ledger)

/-- A computation carries out its plans, or a fault strikes one of them and goes through it. -/
theorem carryOut_steps {act : Ledger → MemoAction → Outcome Ledger MemoEvent MemoReply}
    {bound : Nat} (hact : ∀ plan, Follows act bound (key :: keysInUse rest) plan) {call : Nat}
    {ending : Ending} (plans : List (Plan MemoAction)) {w : Scene}
    (hcount : w.session.scripts.count ≤ bound)
    (hsecure : (⟨w, .running (.computing origin key call ticket plans ending) rest⟩ :
      Machine).Secure) :
    let m : Machine := ⟨w, .running (.computing origin key call ticket plans ending) rest⟩
    let o := w.session.ledger.carryOut act plans
    ∃ w', o.Matches w w' ∧
      match o.result with
      | .ok () => Steps m ⟨w', .running (.computing origin key call ticket [] ending) rest⟩
      | .error fault => Steps m (unwind fault w' rest) := by
  induction plans generalizing w with
  | nil => exact ⟨w, ⟨rfl, by simp [Ledger.carryOut]⟩, .refl⟩
  | cons plan plans ih =>
    have hscene := hsecure.sound.scene
    have hstart : Steps
        ⟨w, .running (.computing origin key call ticket (plan :: plans) ending) rest⟩
        (start w (.computing origin key call ticket plans ending :: rest) plan) :=
      steps_step w _ rest
    obtain ⟨result, w₁, hsteps, hresult, hmatches⟩ := hact plan w
      (.computing origin key call ticket plans ending :: rest) rfl hscene.pending_computing hcount
      (hsecure.steps hstart)
    have hall := hstart.trans hsteps
    cases result with
    | error fault =>
      have hfault : (plan.run act w.session.ledger).result = .error fault := hresult.symm
      dsimp only
      rw [Ledger.carryOut_of_error hfault]
      exact ⟨w₁, ⟨hmatches.ledger, hmatches.visible⟩, hall⟩
    | ok reply =>
      have hreply : (plan.run act w.session.ledger).result = .ok reply.visible := hresult.symm
      -- the reply is noted, and the other plans go on from there
      have hcount₁ : w₁.session.scripts.count ≤ bound := by
        have := (Steps.later hall).scripts
        rw [resume, session_deliver] at this
        exact Nat.le_trans this hcount
      obtain ⟨w₂, hmatches₂, hrest⟩ := ih (w := w₁.emit (.did plan reply)) hcount₁
        (hsecure.steps hall)
      have hledger : (w₁.emit (.did plan reply)).session.ledger
          = (plan.run act w.session.ledger).state := hmatches.ledger
      rw [hledger] at hmatches₂ hrest
      dsimp only
      rw [Ledger.carryOut_of_ok hreply]
      refine ⟨w₂, ⟨hmatches₂.ledger, ?_⟩, ?_⟩
      · rw [hmatches₂.visible, Scene.visible_emit, hmatches.visible]
        simp [MemoEvent.visible?]
      · dsimp only
        split at hrest
        · exact hall.trans hrest
        · exact hall.trans hrest

/-- The reply to a demand whose computation failed. -/
def failure (ticket : Option Ticket) (message : String) : MemoReply :=
  match ticket with
  | none => .failed message
  | some _ => .refused (.failed message)

/-- A machine takes over what a computation came to: a value is handed in, a failure is the
reply, and a fault goes down the stack. -/
def takeOver (origin : Plan MemoAction) (key : Key) (ticket : Option Ticket)
    (result : Except Fault (Except String String)) (w : Scene) (rest : List Frame) : Machine :=
  match result with
  | .error fault => unwind fault w rest
  | .ok (.error message) => deliver origin (.single (failure ticket message)) w rest
  | .ok (.ok value) => settle origin key ticket value w rest

theorem conclude_eq (origin : Plan MemoAction) (key : Key) (call : Nat) (ticket : Option Ticket)
    (w : Scene) (rest : List Frame) (ending : Ending) :
    conclude origin key call ticket w rest ending
      = takeOver origin key ticket (Ledger.conclude key call ending).2
          (w.emit (Ledger.conclude key call ending).1) rest := by
  cases ending with
  | fail message => cases ticket <;> rfl
  | value value | standard | giveUp message => rfl

/-- The event at the end of a computation shows, and has no fault in it. -/
theorem conclude_event (key : Key) (call : Nat) (ending : Ending) :
    let event := (Ledger.conclude key call ending).1
    event.visible? = some event ∧ event.faults = [] := by
  cases ending <;> exact ⟨rfl, rfl⟩

/-- The scene when a computation has begun, with the scripts that are left. -/
def begin (key : Key) (scripts : Scripts) (w : Scene) : Scene :=
  Scene.emit (.begun key w.session.calls)
    { w with session := { w.session with calls := w.session.calls + 1, scripts } }

theorem ledger_begin (key : Key) (scripts : Scripts) (w : Scene) :
    (begin key scripts w).session.ledger = w.session.ledger.begin scripts := rfl

theorem visible_begin (key : Key) (scripts : Scripts) (w : Scene) :
    (begin key scripts w).visible = w.visible ++ [.begun key w.session.calls] :=
  Scene.visible_emit _ _

theorem sound_begin {inUse : List Key} (hs : w.Sound inUse stack) (scripts : Scripts) :
    (begin key scripts w).Sound inUse stack :=
  (hs.count scripts (w.session.calls + 1)).note _ rfl

theorem compute_of_some {script : Script} {left : Scripts}
    (h : w.session.scripts.next? key.name = some (script, left)) :
    compute origin key ticket w rest
      = ⟨begin key left w, .running
          (.computing origin key w.session.calls ticket script.plans script.ending) rest⟩ := by
  rw [compute]
  simp only [h]
  rfl

/-- A computation for which no script is left hands in its value at once. -/
theorem compute_of_none (hs : w.Sound (key :: keysInUse rest) rest)
    (hnone : w.session.scripts.next? key.name = none)
    (hticket : ∀ t, ticket = some t → Usable w.session.memo key t) :
    compute origin key ticket w rest
      = settle origin key ticket (standardValue key w.session.calls)
          ((begin key w.session.scripts w).emit (.returned key w.session.calls)) rest := by
  rw [compute]
  simp only [hnone]
  cases ticket with
  | none => rfl
  | some ticket =>
    obtain ⟨position, generation⟩ := ticket
    obtain ⟨hgeneration, slot, hslot, hkey, hvacant⟩ := hticket _ rfl
    obtain rfl : generation = 0 := hgeneration
    have hproper := hs.session.memo.proper position slot hslot
    have hvalue := hproper.value_eq_none (by omega)
    have hfill := Memo.fill_eq hslot hvacant (standardValue key w.session.calls)
    have hsettle : w.session.memo.settle ⟨position, 0⟩ (standardValue key w.session.calls)
        = .settled (standardValue key w.session.calls) { w.session.memo with
            slots := w.session.memo.slots.setIfInBounds position
              (Memo.filledWith slot (standardValue key w.session.calls)) } := by
      simp only [Memo.settle, hslot, hvalue, hvacant, if_true, hfill]
    rw [settle]
    simp only [hfill, Scene.emit, begin, hsettle]

/-- A computation comes to what the outcome says. If no fault strikes it, the scene is still sound
for its key, and either nothing happened to the memo or a script was used up. -/
def Computes (origin : Plan MemoAction) (key : Key) (ticket : Option Ticket) (w : Scene)
    (rest : List Frame) (o : Outcome Ledger MemoEvent (Except String String)) : Prop :=
  ∃ w', Steps (compute origin key ticket w rest) (takeOver origin key ticket o.result w' rest) ∧
    o.Matches w w' ∧ ∀ ended, o.result = .ok ended →
      w'.Sound (key :: keysInUse rest) rest ∧ w.session.Later w'.session ∧
        (w'.session.memo = w.session.memo ∨ w'.session.scripts.count < w.session.scripts.count)

section

variable {act : Ledger → MemoAction → Outcome Ledger MemoEvent MemoReply}
  (hs : w.Sound (key :: keysInUse rest) rest)

include hs

theorem computes_of_none (hnone : w.session.scripts.next? key.name = none)
    (hticket : ∀ t, ticket = some t → Usable w.session.memo key t) :
    Computes origin key ticket w rest (w.session.ledger.compute act key) := by
  have hcompute : w.session.ledger.compute act key = _ := Ledger.compute_of_none hnone
  rw [hcompute]
  refine ⟨(begin key w.session.scripts w).emit (.returned key w.session.calls), ?_, ⟨rfl, ?_⟩,
    fun _ _ => ⟨(sound_begin hs _).note _ rfl, ?_, .inl rfl⟩⟩
  · rw [compute_of_none hs hnone hticket]
    exact .refl
  · rw [Scene.visible_emit, visible_begin, List.append_assoc]
    rfl
  · exact ⟨List.prefix_rfl, .refl _, Nat.le_refl _⟩

omit hs in
theorem computes_of_some {script : Script} {left : Scripts}
    (hnext : w.session.scripts.next? key.name = some (script, left))
    (hact : ∀ plan, Follows act left.count (key :: keysInUse rest) plan)
    (hsecure : (compute origin key ticket w rest).Secure) :
    Computes origin key ticket w rest (w.session.ledger.compute act key) := by
  have hlater := later_compute origin key ticket w rest
  rw [Computes]
  rw [compute_of_some hnext] at hsecure hlater ⊢
  obtain ⟨w₁, hmatches, hsteps⟩ := carryOut_steps hact script.plans (Nat.le_refl _) hsecure
  rw [ledger_begin] at hmatches hsteps
  cases hresult : ((w.session.ledger.begin left).carryOut act script.plans).result with
  | error fault =>
    have hcompute : w.session.ledger.compute act key = _ := Ledger.compute_of_error hnext hresult
    rw [hresult] at hsteps
    rw [hcompute]
    refine ⟨w₁, hsteps, ⟨hmatches.ledger, ?_⟩, fun _ h => nomatch h⟩
    rw [hmatches.visible, visible_begin, List.append_assoc]
    rfl
  | ok _ =>
    have hcompute : w.session.ledger.compute act key = _ := Ledger.compute_of_ok hnext hresult
    rw [hresult] at hsteps
    rw [hcompute]
    obtain ⟨hshows, hfaults⟩ := conclude_event key w.session.calls script.ending
    -- all plans are carried out, and the next step ends the computation
    have hlast := hsteps.trans (steps_step w₁ _ rest)
    rw [step, conclude_eq] at hlast
    refine ⟨w₁.emit (Ledger.conclude key w.session.calls script.ending).1, hlast,
      ⟨hmatches.ledger, ?_⟩, fun _ _ => ⟨?_, hlater.trans hsteps.later, .inr ?_⟩⟩
    · rw [Scene.visible_emit, hmatches.visible, visible_begin, hshows]
      simp only [List.append_assoc, List.cons_append, List.nil_append, Option.toList_some]
      rfl
    · have hscene := (hsecure.steps hsteps).sound.scene
      exact hscene.tail.note _ hfaults
    · have hcount := Scripts.count_of_next? hnext
      have hleft : w₁.session.scripts.count ≤ left.count := hsteps.later.scripts
      change w₁.session.scripts.count < _
      omega

/-- A computation comes to what it comes to on the ledger. -/
theorem computes (hact : ∀ script left, w.session.scripts.next? key.name = some (script, left) →
      ∀ plan, Follows act left.count (key :: keysInUse rest) plan)
    (hticket : ∀ t, ticket = some t → Usable w.session.memo key t)
    (hsecure : (compute origin key ticket w rest).Secure) :
    Computes origin key ticket w rest (w.session.ledger.compute act key) := by
  cases hnext : w.session.scripts.next? key.name with
  | none => exact computes_of_none hs hnext hticket
  | some pair => exact computes_of_some hnext (hact pair.1 pair.2 hnext) hsecure

end

/-- What comes first can be added to what is met. -/
theorem Meets.of_steps {ρ : Type} {o : Outcome Ledger MemoEvent ρ}
    {o' : Outcome Ledger MemoEvent MemoReply} (h : Meets origin w' stack m' o')
    (hsteps : Steps m m') (hmatches : o.Matches w w') :
    Meets origin w stack m ⟨o'.state, o.events ++ o'.events, o'.result⟩ := by
  obtain ⟨result, w'', hsteps', hresult, hmatches'⟩ := h
  refine ⟨result, w'', hsteps.trans hsteps', hresult, hmatches'.ledger, ?_⟩
  rw [hmatches'.visible, hmatches.visible, List.append_assoc]

/-- A demand past the memo is met as it is on the ledger. -/
theorem direct_meets {act : Ledger → MemoAction → Outcome Ledger MemoEvent MemoReply}
    (hs : w.Sound (key :: keysInUse rest) rest)
    (hact : ∀ script left, w.session.scripts.next? key.name = some (script, left) →
      ∀ plan, Follows act left.count (key :: keysInUse rest) plan)
    (hsecure : (compute origin key none w rest).Secure) :
    Meets origin w rest (compute origin key none w rest) (w.session.ledger.direct act key) := by
  have hticket : ∀ t, (none : Option Ticket) = some t → Usable w.session.memo key t :=
    fun _ h => nomatch h
  obtain ⟨w', hsteps, hmatches, -⟩ := computes hs hact hticket hsecure
  refine ⟨(w.session.ledger.compute act key).result.map fun ended => .single (Ledger.answer ended),
    w', ?_, ?_, hmatches.ledger, hmatches.visible⟩
  · rcases hresult : (w.session.ledger.compute act key).result with fault | message | value
    all_goals
      rw [hresult] at hsteps
      exact hsteps
  · rw [Ledger.direct]
    rcases (w.session.ledger.compute act key).result with fault | message | value
    all_goals rfl

/-- What becomes of a computed value is what becomes of it on the ledger. -/
theorem settle_meets {again : Ledger → Outcome Ledger MemoEvent MemoReply} {s : MemoSession}
    {live : Key → Bool} {position : Nat} {slot : Slot String}
    (hs : s.memo.Sound live) (hslot : s.memo.slots[position]? = some slot) (hkey : slot.key = key)
    (hgeneration : slot.generation = 0) (hs' : w.Sound (key :: keysInUse rest) rest)
    (hlater : s.Later w.session)
    (hagain : w.session.memo ≠ s.memo → w.session.ledger.values key = none →
      (enter origin key (w.tell [.outdated 0]) rest).Secure →
        Meets origin (w.tell [.outdated 0]) rest (enter origin key (w.tell [.outdated 0]) rest)
          (again w.session.ledger))
    (value : String) (hsecure : (settle origin key (some ⟨position, 0⟩) value w rest).Secure) :
    Meets origin w rest (settle origin key (some ⟨position, 0⟩) value w rest)
      (w.session.ledger.keep again (s.ledger.removals key) key value) := by
  obtain ⟨slot', hslot', hkey', -⟩ := hlater.memo.slots position slot hslot
  rw [hkey] at hkey'
  have hbefore : slot.generation ≤ 1 := by omega
  have hmemo := hs'.session.memo
  have hsettles := hmemo.settles hslot' value
  rw [Ledger.keep]
  rw [settle] at hsecure ⊢
  generalize w.session.memo.settle ⟨position, 0⟩ value = settlement at hsettles hsecure ⊢
  cases hsettles with
  | filled slot'' earlier hslot'' hgeneration' hearlier =>
    -- a nested demand was faster
    obtain rfl := Option.some.inj (hslot'.symm.trans hslot'')
    have hvalue : w.session.ledger.values key = some earlier :=
      (hmemo.valueOf_of_slot hslot' hkey' (by omega)).trans hearlier
    rw [hvalue]
    exact Meets.of_eq (.ok (.value earlier)) w rfl rfl ⟨rfl, (List.append_nil _).symm⟩
  | vacant slot'' hslot'' hgeneration' =>
    -- the slot is still current, so the key has not lost a value since
    obtain rfl := Option.some.inj (hslot'.symm.trans hslot'')
    have hproper := hmemo.proper position slot' hslot'
    have hvalue : w.session.ledger.values key = none :=
      (hmemo.valueOf_of_slot hslot' hkey' (by omega)).trans (hproper.value_eq_none (by omega))
    have hremovals : w.session.ledger.removals key = s.ledger.removals key := by
      have := hs.removals_eq hmemo hlater.memo hslot hbefore hslot' (by omega)
      rwa [hkey] at this
    rw [hvalue]
    dsimp only
    rw [if_pos hremovals, ← hkey']
    exact Meets.of_eq (.ok (.value value)) _ rfl rfl
      ⟨hs'.session.fill_ledger hslot' hgeneration' value, (List.append_nil _).symm⟩
  | outdated slot'' hslot'' hgeneration' =>
    -- the key has lost a value, and may have got another one in a new slot
    obtain rfl := Option.some.inj (hslot'.symm.trans hslot'')
    have hwarned : (w.tell [.outdated 0]).Sound (key :: keysInUse rest) rest := hs'.tell _
    cases hvalue : w.session.ledger.values key with
    | some earlier =>
      obtain ⟨w₁, henter, hledger, hvisible⟩ := enter_present hwarned origin hvalue
      refine Meets.of_eq (.ok (.value earlier)) w₁ henter rfl ⟨hledger, ?_⟩
      rw [hvisible, Scene.visible_tell, List.append_nil]
    | none =>
      have hremovals : w.session.ledger.removals key ≠ s.ledger.removals key := by
        have := hs.removals_ne hmemo hlater.memo hslot hbefore hslot' hgeneration'
        rwa [hkey] at this
      have hchanged : w.session.memo ≠ s.memo := by
        intro h
        exact hremovals (congrFun (congrArg Memo.removals h) key)
      dsimp only
      rw [if_neg hremovals]
      -- the line for the log does not show
      have htold : (⟨w.session.ledger, [], .ok ()⟩ : Outcome Ledger MemoEvent Unit).Matches w
          (w.tell [.outdated 0]) :=
        ⟨rfl, by rw [Scene.visible_tell, List.append_nil]⟩
      exact (hagain hchanged hvalue hsecure).of_steps .refl htold

/-- A demand for a key without a value is met as it is on the ledger. -/
theorem enter_meets {act : Ledger → MemoAction → Outcome Ledger MemoEvent MemoReply}
    {again : Ledger → Outcome Ledger MemoEvent MemoReply}
    (hs : w.Sound (key :: keysInUse rest) rest) (hvalue : w.session.ledger.values key = none)
    (hact : ∀ script left, w.session.scripts.next? key.name = some (script, left) →
      ∀ plan, Follows act left.count (key :: keysInUse rest) plan)
    (hagain : ∀ w' : Scene, w'.Sound (key :: keysInUse rest) rest →
      w'.session.scripts.count < w.session.scripts.count → w'.session.ledger.values key = none →
        (enter origin key w' rest).Secure →
          Meets origin w' rest (enter origin key w' rest) (again w'.session.ledger))
    (hsecure : (enter origin key w rest).Secure) :
    Meets origin w rest (enter origin key w rest) (w.session.ledger.round act again key) := by
  by_cases hbarred : w.session.ledger.barred = true
  · obtain ⟨w₁, henter, hledger₁, hvisible₁⟩ := enter_barred hs origin hbarred
    rw [Ledger.round_of_barred hbarred]
    refine Meets.of_eq (.error .overflow) w₁ henter rfl ⟨hledger₁, ?_⟩
    rw [hvisible₁, List.append_nil]
  obtain ⟨w₁, position, slot, henter, hs₁, hledger₁, hvisible₁, hslot, hkey, hgeneration⟩ :=
    enter_vacant hs origin hbarred hvalue
  have hscripts : w₁.session.scripts = w.session.scripts := congrArg Ledger.scripts hledger₁
  have hticket : ∀ t, some (⟨position, 0⟩ : Ticket) = some t → Usable w₁.session.memo key t := by
    rintro _ ⟨⟩
    exact ⟨rfl, slot, hslot, hkey, hgeneration⟩
  rw [henter] at hsecure ⊢
  rw [← hscripts] at hact
  obtain ⟨w₂, hsteps, hmatches, hok⟩ := computes hs₁ hact hticket hsecure
  rw [hledger₁] at hsteps hmatches hok
  have hmatches' : (w.session.ledger.compute act key).Matches w w₂ :=
    ⟨hmatches.ledger, hvisible₁ ▸ hmatches.visible⟩
  rw [Ledger.round, if_neg hbarred]
  dsimp only
  cases hresult : (w.session.ledger.compute act key).result with
  | error fault =>
    rw [hresult] at hsteps
    exact ⟨.error fault, w₂, hsteps, rfl, hmatches'.ledger, hmatches'.visible⟩
  | ok ended =>
    obtain ⟨hs₂, hlater, hcount⟩ := hok ended hresult
    rw [hresult] at hsteps
    cases ended with
    | error message =>
      exact ⟨.ok (.single (.refused (.failed message))), w₂, hsteps, rfl, hmatches'.ledger,
        hmatches'.visible⟩
    | ok value =>
      have hbefore : w.session.ledger.removals key = w₁.session.ledger.removals key := by
        rw [hledger₁]
      dsimp only
      rw [hbefore, ← hmatches'.ledger]
      refine (settle_meets hs₁.session.memo hslot hkey hgeneration hs₂ hlater ?_ value
        (hsecure.steps hsteps)).of_steps hsteps hmatches'
      intro hchanged hnone hsecure₂
      -- something happened to the memo in between, so it was a script that did it
      have hfewer := hcount.resolve_left hchanged
      rw [hscripts] at hfewer
      exact hagain (w₂.tell _) (hs₂.tell _) hfewer hnone hsecure₂

end Machine

end Ephemera
