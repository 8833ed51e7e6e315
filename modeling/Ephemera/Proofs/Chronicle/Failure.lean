import Ephemera.Proofs.Chronicle.Machine

/-!
# When a computation fails

A computation that fails, or gives up, puts no value in. It does not follow that its key is without
a value then: the computation may itself have demanded the value of its key, and that demand may
have been met by another computation. What that one put in stays. So whether there is a value after
a failure depends on what happened to the key since the computation began: there is none if and
only if the value was taken away as often as it was put in (`chronicle_failure`).
-/

namespace Ephemera

namespace Machine

/-- How a demand goes on: it is met with a value, or begins a computation if there is none. -/
def response (key : Key) (call : Nat) : Option String → Deed
  | some value => .answered key value
  | none => .begun key call

/-- What there is for whoever asks for the value of a key now, by a name for it: what a look
answers, and how a demand goes on, be it by the key itself or by a handle. -/
structure Shows (m : Machine) (name : String) (key : Key) (answer : Option String) : Prop where
  /-- a look answers so -/
  look : (m.scene.session.act (keysInUse m.phase.stack) (.look name)).result = .ok (.seen answer)
  /-- a demand goes on accordingly -/
  demand : ∀ how, how ≠ .unkept →
    (startDeeds m.scene.session m.phase.stack (.act (.demand how name))).head?
      = some (response key m.scene.session.calls answer)

variable {request : Nat} {scripts : Scripts} {keeping : Bool} {deeds : List Deed} {m : Machine}
  {b : Book} {w : Scene} {stack : List Frame} {key : Key} {call : Nat} {name : String}

/-- A demand goes on according to the book, if chains can be allocated. -/
theorem head?_demandDeeds (hs : w.Sound (key :: keysInUse stack) stack)
    (hfits : Fits b w.session.memo stack)
    (hallocated : isOversized w.session.memo.table.initial = false) :
    (demandDeeds key w.session stack).head?
      = some (response key w.session.calls (b.values key)) := by
  have hkey : key ∈ key :: keysInUse stack := List.mem_cons_self
  have hknown := hs.session.used key hkey
  have hlive : w.session.isLive (key :: keysInUse stack) key = true :=
    MemoSession.isLive_of_mem hkey
  rw [demandDeeds, look_eq hs.session hfits hknown hlive]
  cases hvalue : b.values key with
  | some value => rfl
  | none =>
    obtain ⟨-, hreserves⟩ := hs.session.memo.reserve (hs.session.knows hknown) hlive
    rw [enterDeeds]
    dsimp only
    cases hreserves with
    | present position value table hcurrent hpresent houtcome hmemo =>
      -- a value that is present would be in the book
      rw [← hfits.values, hs.session.memo.valueOf_of_current hcurrent, hpresent] at hvalue
      cases hvalue
    | vacant position slot table hslot hslotkey hgeneration houtcome hmemo =>
      rw [houtcome]
      rfl
    | fresh table hnone houtcome hmemo =>
      rw [houtcome]
      rfl
    | overflowed hoversized hnone houtcome hmemo =>
      rw [hallocated] at hoversized
      cases hoversized

/-- Whoever asks is told what is on the book, if some computation has begun. -/
theorem Told.shows (htold : Told b deeds m) (hs : m.Sound) {c : Key × Nat}
    (hbegun : c ∈ (b.after deeds).begun)
    (hheld : m.scene.session.keys.held? name = some key) :
    Shows m name key ((b.after deeds).values key) := by
  have hkey := Keyring.mem_keys_of_held? hheld
  have hlive : m.scene.session.isLive (keysInUse m.phase.stack) key = true :=
    MemoSession.isLive_of_holds (Keyring.holds_of_held? hheld)
  constructor
  case look =>
    rw [MemoSession.act, hheld]
    exact congrArg (Except.ok ∘ MemoReply.seen) (look_eq hs.scene.session htold.fits hkey hlive)
  case demand =>
    have hdemand := head?_demandDeeds (hs.scene.use hkey hlive) htold.fits
      (htold.fits.allocated c hbegun)
    rintro (_ | _ | _) hhow
    · rw [startDeeds, hheld]
      exact hdemand
    · rw [startDeeds, Keyring.key?_of_held? hheld, Option.filter_some, if_pos hlive]
      exact hdemand
    · exact absurd rfl hhow

/-- What a failure leaves behind: a computation that began among the deeds so far, and for whoever
asks, nothing, if the value of the key was taken away as often as it was put in since then, and
otherwise the value that was put in last. -/
structure Failure (deeds : List Deed) (key : Key) (call : Nat) (m : Machine) : Prop where
  /-- the computation began before -/
  begun : ∃ before during, deeds = before ++ .begun key call :: during
  /-- the key is left without a value -/
  bare : ∀ before during, deeds = before ++ .begun key call :: during →
    (changesOf key during).count true = (changesOf key during).count false →
      ∀ name, m.scene.session.keys.held? name = some key → Shows m name key none
  /-- the key is left with what was put in while the computation was under way -/
  filled : ∀ before during, deeds = before ++ .begun key call :: during →
    (changesOf key during).count true ≠ (changesOf key during).count false →
      ∃ earlier value later, during = earlier ++ .filled key value :: later ∧
        .emptied key ∉ later ∧
          ∀ name, m.scene.session.keys.held? name = some key → Shows m name key (some value)

/-- In every run a computation that fails or gives up leaves its key without a value if and only if
the value was taken away as often as it was put in while the computation was under way. The
addresses of keys have to be different. -/
theorem chronicle_failure {last : Deed}
    (h : Chronicle request scripts keeping (deeds ++ [last]) m)
    (hdistinct : m.scene.session.keys.Distinct) (hlast : last.ended? = some (key, call)) :
    Failure deeds key call m := by
  have htold := h.told hdistinct
  have hs := h.sound hdistinct
  obtain ⟨hallows, hallowed, -⟩ := Book.allowsAll_append.mp htold.allows
  -- such a deed changes no values, and it is in order only if the computation has begun
  have hend : (Book.empty.after (deeds ++ [last])).values = (Book.empty.after deeds).values ∧
      (key, call) ∈ (Book.empty.after (deeds ++ [last])).begun ∧
        (key, call) ∈ (Book.empty.after deeds).begun := by
    rw [Book.after_append]
    cases last with
    | failed key' call' message | gaveUp key' call' message =>
      cases hlast
      exact ⟨rfl, hallowed, hallowed⟩
    | _ => cases hlast
  have hshows : ∀ name, m.scene.session.keys.held? name = some key →
      Shows m name key ((Book.empty.after deeds).values key) := by
    intro name hheld
    rw [← hend.1]
    exact htold.shows hs hend.2.1 hheld
  -- there was no value when the computation began
  have hsplit : ∀ before during, deeds = before ++ .begun key call :: during →
      ∃ b : Book, b.values key = none ∧ b.AllowsAll during ∧
        b.after during = Book.empty.after deeds := by
    rintro before during rfl
    obtain ⟨-, hbegun, hduring⟩ := Book.allowsAll_append.mp hallows
    exact ⟨(Book.empty.after before).enter (.begun key call), hbegun, hduring,
      by rw [Book.after_append, Book.after_cons]⟩
  constructor
  case begun =>
    rcases Book.begun_of_mem hend.2.2 with hnone | hmem
    · cases hnone
    · exact List.append_of_mem hmem
  case bare =>
    intro before during hdeeds hequal name hheld
    obtain ⟨b, hnone, hduring, hafter⟩ := hsplit before during hdeeds
    have hcount := hduring.count_changesOf key
    rw [hnone, hafter, hequal] at hcount
    have hshow := hshows name hheld
    cases hvalue : (Book.empty.after deeds).values key with
    | none => rwa [hvalue] at hshow
    | some value =>
      rw [hvalue] at hcount
      simp at hcount
  case filled =>
    intro before during hdeeds hne
    obtain ⟨b, hnone, hduring, hafter⟩ := hsplit before during hdeeds
    have hcount := hduring.count_changesOf key
    rw [hnone, hafter] at hcount
    cases hvalue : (Book.empty.after deeds).values key with
    | none =>
      rw [hvalue] at hcount
      simp [hne] at hcount
    | some value =>
      rw [← hafter] at hvalue
      obtain ⟨hbefore, -⟩ | ⟨earlier, later, hlater, hkept⟩ := hduring.exists_filled hvalue
      · rw [hnone] at hbefore
        cases hbefore
      · refine ⟨earlier, value, later, hlater, hkept, fun name hheld => ?_⟩
        rw [← hvalue, hafter]
        exact hshows name hheld

/-- A computation demands the value of its own key, which another computation puts in, and fails
then. -/
theorem chronicle_failure_nested :
    let scripts : Scripts := [("a", [⟨[.act (.demand .held "a")], .fail "boom"⟩, ⟨[], .value "v"⟩])]
    let make : Plan MemoAction := .act (.brief (.key (.make "a" "t" none)))
    let get : Plan MemoAction := .act (.demand .held "a")
    let ready := start ⟨.ofCapacity 0 scripts false, []⟩ [] make
    let c := advance 3
      (startDeeds ready.scene.session [] get, start ⟨ready.scene.session, []⟩ [] get)
    let a : Key := ⟨0, "a", "t", 17592186044416⟩
    let deeds : List Deed := [.begun a 0, .begun a 1, .filled a "v", .answered a "v"]
    c.1 = deeds ++ [.failed a 0 "boom"] ∧ Failure deeds a 0 c.2 := by
  intro scripts make get ready c a deeds
  have hdeeds : c.1 = deeds ++ [.failed a 0 "boom"] := by decide
  have hready : Chronicle 0 scripts false [] ready := .start .idle make
  have hc : Chronicle 0 scripts false c.1 c.2 := .advance (.start hready get) 3
  rw [hdeeds] at hc
  have hdistinct : (c.2.scene.session.keys.keys.map Key.address).Nodup := by decide
  exact ⟨hdeeds, chronicle_failure hc hdistinct rfl⟩

/-- The same as its caller sees it: the demand is refused, and there is a value all the same. -/
theorem play_failure_nested :
    let scripts : Scripts := [("a", [⟨[.act (.demand .held "a")], .fail "boom"⟩, ⟨[], .value "v"⟩])]
    let plans : List (Plan MemoAction) := [.act (.brief (.key (.make "a" "t" none))),
      .act (.demand .held "a"), .act (.brief (.look "a"))]
    ((MemoSession.ofCapacity 0 scripts false).play plans).map Report.reply
      = [.single (.flag none), .single (.refused (.failed "boom")),
        .single (.seen (some "v"))] := by
  rfl

end Machine

end Ephemera
