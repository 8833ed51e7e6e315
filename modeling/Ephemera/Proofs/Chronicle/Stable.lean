import Ephemera.Proofs.Chronicle.Machine

/-!
# Values are computed once and stay

However computations are nested, fail or give up, the memo keeps its promise: a key gets a value
only when it has none, and from then on, until the value is taken away, this is the value of the
key for everybody; nothing is computed for the key, and what comes out of computations that were
under way already is not put in. `Stable` says this of a chronicle, and that the memo counts
what was put in and not taken away.
-/

namespace Ephemera

namespace Machine

/-- What can be said of the deeds up to some point of a run. -/
structure Stable (deeds : List Deed) (m : Machine) : Prop where
  /-- a key gets a value and loses it by turns, and first it gets one -/
  alternate : ∀ key, Alternate true (changesOf key deeds)
  /-- from when a key got a value until it is taken away, no computation of the key begins, no
  other value is put in, and all answers are this value -/
  respected : ∀ key value before during after,
    deeds = before ++ .filled key value :: (during ++ after) → .emptied key ∉ during →
      ∀ d ∈ during, d.Respects key value
  /-- a value that was not taken away is in the memo -/
  present : ∀ key value before after, deeds = before ++ .filled key value :: after →
    .emptied key ∉ after → m.scene.session.memo.valueOf key = some value
  /-- if all keys are still alive, what was put in is what was taken away and what is counted -/
  count : (∀ key ∈ m.scene.session.keys.keys,
      m.scene.session.isLive (keysInUse m.phase.stack) key = true) →
    ∃ number, (m.scene.session.act (keysInUse m.phase.stack) .count).result = .ok (.count number) ∧
      (changes deeds).countP Prod.snd = (changes deeds).countP (fun change => !change.2) + number

variable {request : Nat} {scripts : Scripts} {keeping : Bool} {deeds : List Deed} {m : Machine}

/-- Where deeds are in order, a value that was put in is on the book. -/
theorem values_of_filled {key : Key} {value : String} {before during : List Deed} {b : Book}
    (h : b.AllowsAll (before ++ .filled key value :: during)) (hkept : .emptied key ∉ during) :
    (∀ d ∈ during, d.Respects key value) ∧
      (b.after (before ++ .filled key value :: during)).values key = some value := by
  obtain ⟨-, hfilled⟩ := Book.allowsAll_append.mp h
  rw [Book.after_append, Book.after_cons]
  exact hfilled.2.respects (Function.update_self ..) hkept

/-- The memo counts the keys with a value, if all of them are still alive. -/
theorem count_valued (hs : m.Sound) (htold : Told .empty deeds m)
    (hlive : ∀ key ∈ m.scene.session.keys.keys, (m.scene.session.memo.valueOf key).isSome = true →
      m.scene.session.isLive (keysInUse m.phase.stack) key = true) :
    (changes deeds).countP Prod.snd = (changes deeds).countP (fun change => !change.2)
      + m.scene.session.memo.count (m.scene.session.isLive (keysInUse m.phase.stack)) := by
  have hsession := hs.scene.session
  have hnodup := List.Nodup.of_map _ hsession.distinct
  have hvalued : ∀ key, (Book.empty.after deeds).values key ≠ none →
      key ∈ m.scene.session.keys.keys := by
    intro key hne
    rw [← htold.fits.values] at hne
    obtain ⟨value, hvalue⟩ := Option.ne_none_iff_exists'.mp hne
    obtain ⟨position, slot, hslot, rfl, -⟩ := hsession.memo.valueOf_eq_some.mp hvalue
    exact hsession.known position slot hslot
  rw [htold.allows.count_changes hnodup hvalued, hsession.memo.count_eq hnodup hsession.known,
    ← htold.fits.values]
  refine congrArg _ (List.countP_congr fun key hmem => ?_)
  rw [Bool.and_eq_true]
  exact (and_iff_right_of_imp (hlive key hmem)).symm

/-- The memo counts the keys with a value, if all keys are still alive. -/
theorem count_told (hs : m.Sound) (htold : Told .empty deeds m)
    (hlive : ∀ key ∈ m.scene.session.keys.keys,
      m.scene.session.isLive (keysInUse m.phase.stack) key = true) :
    (changes deeds).countP Prod.snd = (changes deeds).countP (fun change => !change.2)
      + m.scene.session.memo.count (m.scene.session.isLive (keysInUse m.phase.stack)) :=
  count_valued hs htold fun key hmem _ => hlive key hmem

/-- In every run, in the middle of computations too, a value is computed once and stays until it
is taken away. The addresses of keys have to be different. -/
theorem chronicle_stable (h : Chronicle request scripts keeping deeds m)
    (hdistinct : m.scene.session.keys.Distinct) : Stable deeds m where
  alternate key := (h.told hdistinct).allows.alternate key
  respected key value before during after hdeeds hkept := by
    have hallows := (h.told hdistinct).allows
    rw [hdeeds, ← List.cons_append, ← List.append_assoc] at hallows
    exact (values_of_filled (Book.allowsAll_append.mp hallows).1 hkept).1
  present key value before after hdeeds hkept := by
    have htold := h.told hdistinct
    rw [htold.fits.values]
    subst hdeeds
    exact (values_of_filled htold.allows hkept).2
  count hlive := ⟨_, rfl, count_told (h.sound hdistinct) (h.told hdistinct) hlive⟩

/-- A computation demands the value of its own key, and that demand is met by another computation.
The value of the first one comes too late then. -/
theorem chronicle_stable_twice :
    let scripts : Scripts := [("a", [⟨[.act (.demand .held "a")], .value "u"⟩, ⟨[], .value "v"⟩])]
    let make : Plan MemoAction := .act (.brief (.key (.make "a" "t" none)))
    let get : Plan MemoAction := .act (.demand .held "a")
    let ready := start ⟨.ofCapacity 0 scripts false, []⟩ [] make
    let c := advance 3
      (startDeeds ready.scene.session [] get, start ⟨ready.scene.session, []⟩ [] get)
    let a : Key := ⟨0, "a", "t", 17592186044416⟩
    c.1 = [.begun a 0, .begun a 1, .filled a "v", .answered a "v", .answered a "v"] ∧
      Stable c.1 c.2 := by
  intro scripts make get ready c a
  have hready : Chronicle 0 scripts false [] ready := .start .idle make
  have hc : Chronicle 0 scripts false c.1 c.2 := .advance (.start hready get) 3
  have hdistinct : (c.2.scene.session.keys.keys.map Key.address).Nodup := by decide
  exact ⟨by decide, chronicle_stable hc hdistinct⟩

end Machine

end Ephemera
