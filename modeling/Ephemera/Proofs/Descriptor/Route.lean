import Ephemera.Proofs.Descriptor.Edit

/-!
# Edits one after the other

What was inserted can be erased again, and what was replaced can be put back; and some descriptors
can be had by one edit as well as by two others. `Interchangeable` lists such ways to one
descriptor. A pool that is asked to go such a way hands out an instance at each step, and meanwhile
anything may happen to it. Where two ways end, it hands out one instance, as long as what came of
the first is held when the last step of the second is asked for (`reached_interchanged`).

Instances and not places are edited here, and the keys of an edit need not have names: they may have
been taken out of a descriptor.
-/

namespace Ephemera

namespace Descriptor

variable {d d' x : Descriptor} {e : Edit} {before after way way' : List Edit}

/-! ## Ways to one descriptor -/

/-- What several edits make of a descriptor, one after the other. -/
inductive EditsAll : Descriptor → List Edit → Descriptor → Prop where
  | nil {d : Descriptor} : EditsAll d [] d
  | cons {d d' x : Descriptor} {e : Edit} {edits : List Edit} (h : d.Edits e d')
      (hrest : EditsAll d' edits x) : EditsAll d (e :: edits) x

/-- Ways from a descriptor to one and the same descriptor. -/
inductive Interchangeable (d : Descriptor) : List Edit → List Edit → Prop where
  /-- what was inserted is erased -/
  | inserted (index : Nat) (keys : List Key) (h : index ≤ d.params.length) :
      Interchangeable d [.insert index keys, .erase index (index + keys.length)] []
  /-- to append is to insert at the end -/
  | appended (keys : List Key) :
      Interchangeable d [.append keys] [.insert d.params.length keys]
  /-- what was replaced is put back -/
  | replaced (index : Nat) (key old : Key) (h : d.params[index]? = some old) :
      Interchangeable d [.param index key, .param index old] []
  /-- to replace is to erase and to insert -/
  | reinserted (index : Nat) (key : Key) (h : index < d.params.length) :
      Interchangeable d [.param index key] [.erase index (index + 1), .insert index [key]]
  /-- the result is put back -/
  | result (key : Key) : Interchangeable d [.result key, .result d.result] []
  /-- nothing is inserted -/
  | insertedNone (index : Nat) (h : index ≤ d.params.length) :
      Interchangeable d [.insert index []] []
  /-- nothing is appended -/
  | appendedNone : Interchangeable d [.append []] []
  /-- nothing is erased -/
  | erasedNone (index : Nat) (h : index ≤ d.params.length) :
      Interchangeable d [.erase index index] []

theorem editsAll_append_iff :
    d.EditsAll (before ++ after) x ↔ ∃ d', d.EditsAll before d' ∧ d'.EditsAll after x := by
  induction before generalizing d with
  | nil =>
    refine ⟨fun h => ⟨d, .nil, h⟩, fun ⟨d', hnil, h⟩ => ?_⟩
    cases hnil
    exact h
  | cons e before ih =>
    constructor
    · rintro (_ | ⟨hedit, hrest⟩)
      obtain ⟨d', hbefore, hafter⟩ := ih.mp hrest
      exact ⟨d', .cons hedit hbefore, hafter⟩
    · rintro ⟨d', _ | ⟨hedit, hbefore⟩, hafter⟩
      exact .cons hedit (ih.mpr ⟨d', hbefore, hafter⟩)

/-- Interchangeable ways lead to one descriptor. -/
theorem Interchangeable.editsAll (h : d.Interchangeable way way') :
    ∃ x, d.EditsAll way x ∧ d.EditsAll way' x := by
  obtain ⟨result, params⟩ := d
  cases h with
  | inserted index keys h =>
    -- cut at the position, the list shows what each of the edits does
    obtain ⟨before, after, rfl, rfl⟩ := exists_cut h
    exact ⟨_, .cons (.insert before after keys rfl) (.cons (.erase before keys after rfl) .nil),
      .nil⟩
  | appended keys =>
    have hinsert := Edits.insert (d := ⟨result, params⟩) params [] keys
      (List.append_nil params).symm
    rw [List.append_nil] at hinsert
    exact ⟨_, .cons (.append keys) .nil, .cons hinsert .nil⟩
  | replaced index key old h =>
    obtain ⟨before, after, rfl, rfl⟩ := exists_around h
    exact ⟨_, .cons (.param before old after key rfl)
      (.cons (.param before key after old rfl) .nil), .nil⟩
  | reinserted index key h =>
    obtain ⟨old, hold⟩ : ∃ old, params[index]? = some old := ⟨_, List.getElem?_eq_getElem h⟩
    obtain ⟨before, after, rfl, rfl⟩ := exists_around hold
    have herase := Edits.erase (d := ⟨result, before ++ old :: after⟩) before [old] after (by simp)
    have hinsert := Edits.insert (d := ⟨result, before ++ after⟩) before after [key] rfl
    rw [List.append_assoc, List.singleton_append] at hinsert
    exact ⟨_, .cons (.param before old after key rfl) .nil, .cons herase (.cons hinsert .nil)⟩
  | result key => exact ⟨_, .cons (.result key) (.cons (.result result) .nil), .nil⟩
  | insertedNone index h =>
    obtain ⟨before, after, rfl, rfl⟩ := exists_cut h
    have hinsert := Edits.insert (d := ⟨result, before ++ after⟩) before after [] rfl
    rw [List.append_nil] at hinsert
    exact ⟨_, .cons hinsert .nil, .nil⟩
  | appendedNone =>
    have happend := Edits.append (d := ⟨result, params⟩) []
    rw [List.append_nil] at happend
    exact ⟨_, .cons happend .nil, .nil⟩
  | erasedNone index h =>
    obtain ⟨before, after, rfl, rfl⟩ := exists_cut h
    have herase := Edits.erase (d := ⟨result, before ++ after⟩) before [] after (by simp)
    exact ⟨_, .cons herase .nil, .nil⟩

/-! ## Edits of equal descriptors -/

theorem edits_iff : d.Edits e d' ↔ d.edit e = .ok d' := by
  refine ⟨Edits.edit_eq, fun h => ?_⟩
  obtain ⟨refusal, hrefuses⟩ | ⟨d'', hedits⟩ := refuses_or_edits d e
  · cases hrefuses.edit_eq.symm.trans h
  · obtain rfl := Except.ok.inj (hedits.edit_eq.symm.trans h)
    exact hedits

/-- Equal descriptors are edited alike. -/
theorem Edits.of_same (h : d.Edits e x) (hsame : d.same d' = true) :
    ∃ x', d'.Edits e x' ∧ x.same x' = true := by
  obtain ⟨hresult, hparams⟩ := same_iff.mp hsame
  have hlength : d.params.length = d'.params.length := by simpa using congrArg List.length hparams
  -- edits look at parameters by position only, so they commute with taking addresses
  rw [edits_iff] at h
  simp only [edits_iff]
  cases e with
  | result key =>
    cases h
    exact ⟨_, rfl, same_iff.mpr ⟨rfl, hparams⟩⟩
  | param index key =>
    simp only [edit, withParam, ← hlength] at h ⊢
    split at h
    · next hlt =>
      cases h
      refine ⟨_, if_pos hlt, same_iff.mpr ⟨hresult, ?_⟩⟩
      rw [List.map_set, List.map_set, hparams]
    · cases h
  | insert index keys =>
    simp only [edit, insertAt, ← hlength] at h ⊢
    split at h
    · next hle =>
      cases h
      refine ⟨_, if_pos hle, same_iff.mpr ⟨hresult, ?_⟩⟩
      simp only [List.map_append, List.map_take, List.map_drop, hparams]
    · cases h
  | append keys =>
    cases h
    refine ⟨_, rfl, same_iff.mpr ⟨hresult, ?_⟩⟩
    change (d.params ++ keys).map Key.address = (d'.params ++ keys).map Key.address
    rw [List.map_append, List.map_append, hparams]
  | erase start stop =>
    simp only [edit, eraseRange, ← hlength] at h ⊢
    split at h
    · next hrange =>
      cases h
      refine ⟨_, if_pos hrange, same_iff.mpr ⟨hresult, ?_⟩⟩
      simp only [List.map_append, List.map_take, List.map_drop, hparams]
    · cases h

end Descriptor

namespace DescriptorSession

variable {births births' : List Birth} {s s' : DescriptorSession} {number : Nat}
  {inst inst' mid : Instance Descriptor} {e : Edit} {edits way way' : List Edit}
  {derivation : Derivation} {place : Option String} {d x : Descriptor}

/-! ## Asking for an edit -/

/-- Asks a pool for what an edit makes of an instance. The keys of the edit need not have names:
they may have been taken out of a descriptor. -/
def ask (s : DescriptorSession) (number : Nat) (inst : Instance Descriptor) (e : Edit)
    (place : Option String) :
    Outcome DescriptorSession (Note (Instance Descriptor)) DescriptorReply :=
  match inst.value.edit e with
  | .error refusal => ⟨s, [], .ok (.refused refusal)⟩
  | .ok d => s.share number d place

/-- A derivation asks for the edit that it means. -/
theorem Means.act_eq (h : s.Means derivation inst e) (number : Nat) (place : Option String) :
    s.act (.derive number derivation place) = s.ask number inst e place := by
  rw [act, h.target_eq, ask]
  cases inst.value.edit e with
  | error refusal => rfl
  | ok d => rfl

theorem ask_of_edits (h : inst.value.Edits e d) (s : DescriptorSession) (number : Nat)
    (place : Option String) : s.ask number inst e place = s.share number d place := by
  rw [ask, h.edit_eq]

theorem requested_ask (s : DescriptorSession) (number : Nat) (inst : Instance Descriptor) (e : Edit)
    (place : Option String) : s.Requested number place (s.ask number inst e place) := by
  rw [ask]
  cases inst.value.edit e with
  | error refusal => exact .inr ⟨_, rfl, by simp⟩
  | ok d => exact s.requested_share number d place

/-- An edit of an equal descriptor is answered with the pool's own instance of what comes out. -/
theorem Sound.ask_same (hs : Sound births s) (hallocates : s.Allocates number)
    (hsame : mid.value.same d = true) (hedits : d.Edits e x) (place : Option String) :
    ∃ inst, (s.ask number mid e place).result = .ok (.instance inst) ∧ inst.value.same x = true ∧
      ∀ inst' ∈ s.shelf.held, origin births inst' = some number → inst'.value.same x = true →
        inst' = inst := by
  obtain ⟨x', hedits', hsame'⟩ := hedits.of_same (PoolSession.descriptor_classes.symm hsame)
  obtain ⟨inst, hresult, hinst, hunique⟩ := hs.share_same hallocates x' place
  rw [ask_of_edits hedits']
  refine ⟨inst, hresult,
    PoolSession.descriptor_classes.trans hinst (PoolSession.descriptor_classes.symm hsame'), ?_⟩
  intro inst' hheld horigin hinst'
  exact hunique inst' hheld horigin (PoolSession.descriptor_classes.trans hinst' hsame')

/-- A stretch of a run on which a pool is asked for edits: first of an instance, and then of what it
answered with. Anything else may be done in between, by actions or by asking for other edits. -/
inductive Route (number : Nat) (births : List Birth) (s : DescriptorSession)
    (inst : Instance Descriptor) :
    List Edit → List Birth → DescriptorSession → Instance Descriptor → Prop where
  /-- nothing has been done -/
  | start : Route number births s inst [] births s inst
  /-- the pool is asked for the next edit -/
  | ask {edits : List Edit} {births' : List Birth} {s' : DescriptorSession}
      {mid inst' : Instance Descriptor} (h : Route number births s inst edits births' s' mid)
      (e : Edit) (place : Option String)
      (hresult : (s'.ask number mid e place).result = .ok (.instance inst')) :
      Route number births s inst (edits ++ [e])
        (births' ++ bornBy number (s'.ask number mid e place).events)
        (s'.ask number mid e place).state inst'
  /-- something else is done -/
  | act {edits : List Edit} {births' : List Birth} {s' : DescriptorSession}
      {mid : Instance Descriptor} (h : Route number births s inst edits births' s' mid)
      (action : DescriptorAction) :
      Route number births s inst edits (births' ++ s'.born action) (s'.act action).state mid
  /-- some pool is asked for some edit -/
  | aside {edits : List Edit} {births' : List Birth} {s' : DescriptorSession}
      {mid : Instance Descriptor} (h : Route number births s inst edits births' s' mid)
      (number' : Nat) (other : Instance Descriptor) (e : Edit) (place : Option String) :
      Route number births s inst edits
        (births' ++ bornBy number' (s'.ask number' other e place).events)
        (s'.ask number' other e place).state mid

/-- A derivation that means the next edit is a step of the way. -/
theorem Route.derive (h : Route number births s inst edits births' s' mid)
    (hmeans : s'.Means derivation mid e) (place : Option String)
    (hresult : (s'.act (.derive number derivation place)).result = .ok (.instance inst')) :
    Route number births s inst (edits ++ [e])
      (births' ++ s'.born (.derive number derivation place))
      (s'.act (.derive number derivation place)).state inst' := by
  rw [hmeans.act_eq] at hresult
  rw [born, hmeans.act_eq]
  exact h.ask e place hresult

/-- What comes of going two ways from an instance. -/
structure Meets (births : List Birth) (s : DescriptorSession) (number : Nat)
    (inst : Instance Descriptor) (way way' : List Edit) : Prop where
  /-- no step of the ways is refused, whatever has been done in between -/
  answered : ∀ before e after, way = before ++ e :: after ∨ way' = before ++ e :: after →
    ∀ births' s' mid place, Route number births s inst before births' s' mid →
      ∃ inst', (s'.ask number mid e place).result = .ok (.instance inst')
  /-- what came of the first way comes of the last step of the second one, if it is held then -/
  one : ∀ before e, way' = before ++ [e] → ∀ births' s' inst' mid place,
    Route number births s inst way births' s' inst' →
      Route number births s inst before births' s' mid → inst' ∈ s'.shelf.held →
        (s'.ask number mid e place).result = .ok (.instance inst')
  /-- derivations ask for the edits that they mean -/
  named : ∀ s' derivation mid e place, Means s' derivation mid e →
    s'.act (.derive number derivation place) = s'.ask number mid e place

/-! ## What holds along a route -/

/-- A pool that has its chains, or can get them, is asked all the way. -/
theorem Route.allocates (h : Route number births s inst edits births' s' mid)
    (hallocates : s.Allocates number) : s'.Allocates number := by
  induction h with
  | start => exact hallocates
  | ask _ e place _ ih =>
    rw [Allocates, (requested_ask _ number _ e place).initialAt_eq]
    exact ih
  | act _ action ih =>
    obtain ⟨count, hcount, hfits⟩ := ih
    exact ⟨count, initialAt_act _ action hcount, hfits⟩
  | aside _ number' other e place ih =>
    rw [Allocates, (requested_ask _ number' other e place).initialAt_eq]
    exact ih

theorem Route.sound (h : Route number births s inst edits births' s' mid) (hs : Sound births s) :
    Sound births' s' := by
  induction h with
  | start => exact hs
  | ask _ e place _ ih => exact (ih.requested (requested_ask _ number _ e place)).1
  | act _ action ih => exact ih.act action
  | aside _ number' other e place ih =>
    exact (ih.requested (requested_ask _ number' other e place)).1

/-- All instances on the way come from the pool that is asked. -/
theorem Route.origin_eq (h : Route number births s inst edits births' s' mid)
    (hs : Sound births s) (horigin : origin births inst = some number) :
    origin births' mid = some number := by
  induction h with
  | start => exact horigin
  | ask h e place hresult _ =>
    exact ((h.sound hs).requested (requested_ask _ number _ e place)).2 _ hresult
  | act _ action ih => exact origin_append ih _
  | aside _ number' other e place ih => exact origin_append ih _

/-- What stands at the end of the way has been edited as the way says. -/
theorem Route.same (h : Route number births s inst edits births' s' mid) (hs : Sound births s)
    (hallocates : s.Allocates number) (hedits : inst.value.EditsAll edits d) :
    mid.value.same d = true := by
  induction h generalizing d with
  | start =>
    cases hedits
    exact PoolSession.descriptor_classes.refl inst.value
  | ask h e place hresult ih =>
    obtain ⟨d', hbefore, hlast⟩ := Descriptor.editsAll_append_iff.mp hedits
    obtain _ | ⟨hedit, ⟨⟩⟩ := hlast
    obtain ⟨inst'', hresult', hsame, -⟩ :=
      (h.sound hs).ask_same (h.allocates hallocates) (ih hbefore) hedit place
    obtain rfl : _ = inst'' := by simpa [hresult] using hresult'
    exact hsame
  | act _ _ ih => exact ih hedits
  | aside _ _ _ _ _ ih => exact ih hedits

/-- The next step is answered, by the instance that is held if there is one. -/
theorem Route.next {before after : List Edit}
    (h : Route number births s inst before births' s' mid) (hs : Sound births s)
    (hallocates : s.Allocates number) (hedits : inst.value.EditsAll (before ++ e :: after) x)
    (place : Option String) :
    ∃ d inst', d.EditsAll after x ∧ (s'.ask number mid e place).result = .ok (.instance inst') ∧
      ∀ inst'' ∈ s'.shelf.held, origin births' inst'' = some number → inst''.value.same d = true →
        inst'' = inst' := by
  obtain ⟨d', hbefore, hrest⟩ := Descriptor.editsAll_append_iff.mp hedits
  obtain _ | ⟨hedit, hafter⟩ := hrest
  obtain ⟨inst', hresult, -, hunique⟩ := (h.sound hs).ask_same (h.allocates hallocates)
    (h.same hs hallocates hbefore) hedit place
  exact ⟨_, inst', hafter, hresult, hunique⟩

/-- In every state that a caller can bring about, interchangeable ways from an instance, on which
its own pool is asked for edits, lead to one instance. -/
theorem reached_interchanged {requests : List Nat} (h : Reached requests births s)
    (hheld : inst ∈ s.shelf.held) (horigin : origin births inst = some number)
    (hways : inst.value.Interchangeable way way' ∨ inst.value.Interchangeable way' way) :
    Meets births s number inst way way' := by
  have hs := h.sound
  -- the pool that the instance came from has its chains, so no step can fail for want of them
  have hallocates := hs.allocates_of_held hheld horigin
  obtain ⟨x, hway, hway'⟩ : ∃ x, inst.value.EditsAll way x ∧ inst.value.EditsAll way' x := by
    rcases hways with hways | hways
    · exact hways.editsAll
    · exact hways.editsAll.imp fun _ => And.symm
  refine
    { answered := ?_
      one := ?_
      named := fun s' derivation mid e place hmeans => hmeans.act_eq number place }
  · intro before e after hparts births' s' mid place hroute
    have hedits : inst.value.EditsAll (before ++ e :: after) x := by
      rcases hparts with rfl | rfl
      · exact hway
      · exact hway'
    obtain ⟨-, inst', -, hresult, -⟩ := hroute.next hs hallocates hedits place
    exact ⟨inst', hresult⟩
  · rintro before e rfl births' s' inst' mid place hroute hroute' hheld'
    obtain ⟨d, inst'', hlast, hresult, hunique⟩ := hroute'.next hs hallocates hway' place
    cases hlast
    rw [hresult,
      hunique inst' hheld' (hroute.origin_eq hs horigin) (hroute.same hs hallocates hway)]

/-- A key is inserted twice and erased again. Meanwhile its maker has let go of it, and another
descriptor has been made. -/
theorem reached_interchanged_inserted :
    let s := [DescriptorAction.key (.make "r" "t" none), .key (.make "p" "t" none),
      .key (.make "q" "t" none), .derive 0 (.ofKeys "r" ["p"]) (some "x")].foldl
        (fun s action => (s.act action).state) (ofCapacity 0)
    let s' := [DescriptorAction.derive 0 (.insertAt "x" 0 ["q", "q"]) (some "y"), .key (.letGo "q"),
      .derive 0 (.ofKeys "p" []) (some "z")].foldl (fun s action => (s.act action).state) s
    let inst : Instance Descriptor :=
      ⟨0, ⟨⟨0, "r", "t", 17592186044416⟩, [⟨1, "p", "t", 17592186044480⟩]⟩⟩
    (s'.act (.derive 0 (.eraseRange "y" 0 2) (some "y"))).result = .ok (.instance inst) := by
  intro s s' inst
  obtain ⟨requests, births, hreached, horigin⟩ :
      ∃ requests births, Reached requests births s ∧ origin births inst = some 0 :=
    ⟨_, _, .act (.act (.act (.act (.start 0) _) _) _) _, by decide⟩
  let q : Key := ⟨2, "q", "t", 17592186044544⟩
  let mid : Instance Descriptor := ⟨1, ⟨inst.value.result, q :: q :: inst.value.params⟩⟩
  have hx : s.shelf.at? "x" = some inst := by decide
  have hx' : s'.shelf.at? "x" = some inst := by decide
  have hy' : s'.shelf.at? "y" = some mid := by decide
  have hinsert : s.Means (.insertAt "x" 0 ["q", "q"]) inst (.insert 0 [q, q]) :=
    .insert "x" 0 ["q", "q"] inst [q, q] hx (by decide)
  have hmeets := reached_interchanged hreached (Shelf.mem_held_of_at? hx) horigin
    (.inr (.inserted 0 [q, q] (by decide)))
  rw [hmeets.named s' _ mid (.erase 0 2) (some "y") (.erase "y" 0 2 mid hy')]
  exact hmeets.one [.insert 0 [q, q]] (.erase 0 2) rfl _ s' inst mid (some "y")
    (.act (.act (.act .start _) _) _)
    (.act (.act (Route.start.derive hinsert (some "y") (by decide)) _) _)
    (Shelf.mem_held_of_at? hx')

end DescriptorSession

end Ephemera
