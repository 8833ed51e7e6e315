import Ephemera.Proofs.Descriptor.Identity

/-!
# Edits of descriptors

A descriptor is derived from another one by an edit of its list of parameters. `Edits` says what
each edit makes of the list, by the parts that the list falls into at the positions of the edit,
and `Refuses` says where there are no such parts. Every edit is either refused, and then nothing
happens at all, or its result is asked for of the pool as any other descriptor is: the answer is
the one instance of this pool with these components (`reached_edited`). The edited descriptor may
come from another pool, and this pool may be one that has no chains and cannot get any; then it
answers nothing.
-/

namespace Ephemera

/-! ## Positions in a list -/

section

variable {α : Type} {l : List α} {a : α} {index : Nat}

/-- What is at a position has a list before and one after it. -/
theorem exists_around (h : l[index]? = some a) :
    ∃ before after, l = before ++ a :: after ∧ before.length = index := by
  obtain ⟨hlt, rfl⟩ := List.getElem?_eq_some_iff.mp h
  refine ⟨l.take index, l.drop (index + 1), ?_, List.length_take_of_le (Nat.le_of_lt hlt)⟩
  rw [← List.drop_eq_getElem_cons hlt, List.take_append_drop]

/-- What is before a position and what is from there on. -/
theorem exists_cut (h : index ≤ l.length) : ∃ before after, l = before ++ after ∧
    before.length = index :=
  ⟨l.take index, l.drop index, (List.take_append_drop index l).symm, List.length_take_of_le h⟩

/-- Only what is at the position is replaced. -/
theorem set_around (before : List α) (a b : α) (after : List α) :
    (before ++ a :: after).set before.length b = before ++ b :: after := by
  rw [List.set_append_right _ _ (Nat.le_refl _), Nat.sub_self, List.set_cons_zero]

end

/-- An edit of a descriptor. -/
inductive Edit where
  /-- another result -/
  | result (key : Key)
  /-- another parameter at a position -/
  | param (index : Nat) (key : Key)
  /-- more parameters before a position -/
  | insert (index : Nat) (keys : List Key)
  /-- more parameters at the end -/
  | append (keys : List Key)
  /-- without the parameters from `start` on and before `stop` -/
  | erase (start stop : Nat)

namespace Descriptor

/-- What an edit makes of a descriptor. -/
inductive Edits (d : Descriptor) : Edit → Descriptor → Prop where
  | result (key : Key) : Edits d (.result key) ⟨key, d.params⟩
  | param (before : List Key) (old : Key) (after : List Key) (key : Key)
      (h : d.params = before ++ old :: after) :
      Edits d (.param before.length key) ⟨d.result, before ++ key :: after⟩
  | insert (before after keys : List Key) (h : d.params = before ++ after) :
      Edits d (.insert before.length keys) ⟨d.result, before ++ keys ++ after⟩
  | append (keys : List Key) : Edits d (.append keys) ⟨d.result, d.params ++ keys⟩
  | erase (before cut after : List Key) (h : d.params = before ++ cut ++ after) :
      Edits d (.erase before.length (before.length + cut.length)) ⟨d.result, before ++ after⟩

/-- Which edits are refused, and how. -/
inductive Refuses (d : Descriptor) : Edit → DescriptorRefusal → Prop where
  | param (index : Nat) (key : Key) (h : d.params.length ≤ index) :
      Refuses d (.param index key) (.outOfBounds index d.params.length)
  | insert (index : Nat) (keys : List Key) (h : d.params.length < index) :
      Refuses d (.insert index keys) (.outOfBounds index d.params.length)
  | erase (start stop : Nat) (h : stop < start ∨ d.params.length < stop) :
      Refuses d (.erase start stop) (.badRange start stop d.params.length)

/-- The positions of an edit are positions in a list of `count` parameters, and none of the
differences between them is cut off when the list comes to have `count'` of them. -/
def Within (count count' : Nat) : Edit → Prop
  | .result _ => count' = count
  | .param index _ => index < count ∧ count' = count
  | .insert index keys => index ≤ count ∧ count' = count + keys.length
  | .append keys => count' = count + keys.length
  | .erase start stop =>
    start ≤ stop ∧ stop ≤ count ∧ stop - start ≤ count ∧ count' = count - (stop - start)

/-- The descriptor after an edit. -/
def edit (d : Descriptor) : Edit → Except DescriptorRefusal Descriptor
  | .result key => .ok (d.withResult key)
  | .param index key => d.withParam index key
  | .insert index keys => d.insertAt index keys
  | .append keys => .ok (d.append keys)
  | .erase start stop => d.eraseRange start stop

variable {d d' : Descriptor} {e : Edit} {refusal : DescriptorRefusal}

/-! ## What edits do -/

theorem withParam_eq (before : List Key) (old : Key) (after : List Key) (key : Key)
    (h : d.params = before ++ old :: after) :
    d.withParam before.length key = .ok ⟨d.result, before ++ key :: after⟩ := by
  have hlt : before.length < d.params.length := by simp [h]
  rw [withParam, if_pos hlt, h, set_around]

theorem insertAt_eq (before after keys : List Key) (h : d.params = before ++ after) :
    d.insertAt before.length keys = .ok ⟨d.result, before ++ keys ++ after⟩ := by
  have hle : before.length ≤ d.params.length := by simp [h]
  rw [insertAt, if_pos hle, h, List.take_left, List.drop_left]

theorem eraseRange_eq (before cut after : List Key) (h : d.params = before ++ cut ++ after) :
    d.eraseRange before.length (before.length + cut.length) = .ok ⟨d.result, before ++ after⟩ := by
  have hle : before.length + cut.length ≤ d.params.length := by simp [h]
  rw [eraseRange, if_pos ⟨Nat.le_add_right _ _, hle⟩, h, ← List.length_append, List.drop_left,
    List.append_assoc, List.take_left]

/-- An edit makes of a descriptor what it says. -/
theorem Edits.edit_eq (h : d.Edits e d') : d.edit e = .ok d' := by
  cases h with
  | result key => rfl
  | param before old after key h => exact withParam_eq before old after key h
  | insert before after keys h => exact insertAt_eq before after keys h
  | append keys => rfl
  | erase before cut after h => exact eraseRange_eq before cut after h

/-- An edit that is not refused stays within the list. -/
theorem Edits.within (h : d.Edits e d') : Within d.params.length d'.params.length e := by
  cases h with
  | result key => rfl
  | param before old after key h => simp [Within, h]
  | insert before after keys h =>
    simp only [Within, h, List.length_append]
    omega
  | append keys => exact List.length_append
  | erase before cut after h =>
    simp only [Within, h, List.length_append]
    omega

/-- An edit is refused as it says. -/
theorem Refuses.edit_eq (h : d.Refuses e refusal) : d.edit e = .error refusal := by
  cases h with
  | param index key h => exact if_neg (Nat.not_lt.mpr h)
  | insert index keys h => exact if_neg (Nat.not_le.mpr h)
  | erase start stop h =>
    refine if_neg fun ⟨hstart, hstop⟩ => ?_
    omega

/-- Every edit is refused or does something. -/
theorem refuses_or_edits (d : Descriptor) (e : Edit) :
    (∃ refusal, d.Refuses e refusal) ∨ ∃ d', d.Edits e d' := by
  cases e with
  | result key => exact .inr ⟨_, .result key⟩
  | append keys => exact .inr ⟨_, .append keys⟩
  | param index key =>
    rcases Nat.lt_or_ge index d.params.length with hlt | hge
    · obtain ⟨before, after, hparts, rfl⟩ := exists_around (List.getElem?_eq_getElem hlt)
      exact .inr ⟨_, .param before _ after key hparts⟩
    · exact .inl ⟨_, .param index key hge⟩
  | insert index keys =>
    rcases Nat.lt_or_ge d.params.length index with hlt | hge
    · exact .inl ⟨_, .insert index keys hlt⟩
    · obtain ⟨before, after, hparts, rfl⟩ := exists_cut hge
      exact .inr ⟨_, .insert before after keys hparts⟩
  | erase start stop =>
    by_cases h : start ≤ stop ∧ stop ≤ d.params.length
    · obtain ⟨hstart, hstop⟩ := h
      obtain ⟨front, after, hparts, rfl⟩ := exists_cut hstop
      obtain ⟨before, cut, rfl, rfl⟩ := exists_cut hstart
      rw [List.length_append]
      exact .inr ⟨_, .erase before cut after hparts⟩
    · exact .inl ⟨_, .erase start stop (by omega)⟩

theorem refuses_iff : d.Refuses e refusal ↔ d.edit e = .error refusal := by
  refine ⟨Refuses.edit_eq, fun h => ?_⟩
  obtain ⟨refusal', hrefuses⟩ | ⟨d', hedits⟩ := refuses_or_edits d e
  · obtain rfl := Except.error.inj (hrefuses.edit_eq.symm.trans h)
    exact hrefuses
  · cases hedits.edit_eq.symm.trans h

end Descriptor

namespace Shelf

variable {τ : Type} {name other : String}

/-- What is put into a place is nothing to the other places. -/
theorem at?_put_of_ne {place : Option String} (h : place ≠ some other) (inst : Instance τ)
    (s : Shelf τ) : (s.put place inst).at? other = s.at? other := by
  have hfilter : ∀ (name : String) (places : List (String × Instance τ)), name ≠ other →
      (places.filter fun place => place.1 != name).lookup other = places.lookup other := by
    intro name places hne
    induction places with
    | nil => rfl
    | cons place rest ih =>
      obtain ⟨name', inst'⟩ := place
      by_cases heq : name' = name
      · have hother : (other == name') = false := beq_eq_false_iff_ne.mpr (heq ▸ Ne.symm hne)
        simp [heq, List.lookup_cons, ih, heq ▸ hother]
      · simp [heq, List.lookup_cons, ih]
  cases place with
  | none => rfl
  | some name =>
    have hne : name ≠ other := fun heq => h (congrArg some heq)
    have hother : (other == name) = false := beq_eq_false_iff_ne.mpr (Ne.symm hne)
    rw [put, at?, at?, List.lookup_cons, hother]
    exact hfilter name s.places hne

end Shelf

namespace DescriptorSession

variable {births : List Birth} {s : DescriptorSession} {number : Nat} {pool : Pool Descriptor}
  {inst : Instance Descriptor} {derivation : Derivation} {e : Edit}

/-- Which edit of which instance a derivation asks for, by the places and keys that its names stand
for. -/
inductive Means (s : DescriptorSession) : Derivation → Instance Descriptor → Edit → Prop where
  | result (place name : String) (inst : Instance Descriptor) (key : Key)
      (hplace : s.shelf.at? place = some inst) (hkey : s.keys.held? name = some key) :
      Means s (.withResult place name) inst (.result key)
  | param (place : String) (index : Nat) (name : String) (inst : Instance Descriptor) (key : Key)
      (hplace : s.shelf.at? place = some inst) (hkey : s.keys.held? name = some key) :
      Means s (.withParam place index name) inst (.param index key)
  | insert (place : String) (index : Nat) (names : List String) (inst : Instance Descriptor)
      (keys : List Key) (hplace : s.shelf.at? place = some inst)
      (hkeys : names.map s.keys.held? = keys.map some) :
      Means s (.insertAt place index names) inst (.insert index keys)
  | append (place : String) (names : List String) (inst : Instance Descriptor) (keys : List Key)
      (hplace : s.shelf.at? place = some inst)
      (hkeys : names.map s.keys.held? = keys.map some) :
      Means s (.append place names) inst (.append keys)
  | erase (place : String) (start stop : Nat) (inst : Instance Descriptor)
      (hplace : s.shelf.at? place = some inst) :
      Means s (.eraseRange place start stop) inst (.erase start stop)

/-- What comes of asking a pool, which was asked for a number of chains when it was set up, for an
edited descriptor. -/
structure Derived (births : List Birth) (s : DescriptorSession) (number request : Nat)
    (inst : Instance Descriptor) (e : Edit) (place : Option String)
    (o : Outcome DescriptorSession (Note (Instance Descriptor)) DescriptorReply) : Prop where
  /-- either the edit is refused, or it makes one descriptor -/
  decided : (∃ refusal, inst.value.Refuses e refusal) ∨
    ∃ d, inst.value.Edits e d ∧ ∀ d', inst.value.Edits e d' → d' = d
  /-- the answer is a refusal if and only if the edit is refused, and it is that one -/
  refused : ∀ refusal, o.result = .ok (.refused refusal) ↔ inst.value.Refuses e refusal
  /-- nothing happens then -/
  untouched : ∀ refusal, o.result = .ok (.refused refusal) → o.state = s ∧ o.events = []
  /-- an edit that is not refused finds all its positions in the list -/
  within : ∀ d, inst.value.Edits e d →
    Descriptor.Within inst.value.params.length d.params.length e
  /-- if the chains of the pool can be allocated, the answer is then an instance with the components
  of the edited descriptor, which comes from the pool that was asked; it is the one that was there
  already, if there was one, and that which any other request for these components to the pool is
  answered with -/
  answered : request ≤ 2 ^ 59 → ∀ d, inst.value.Edits e d → ∃ inst',
    o.result = .ok (.instance inst') ∧ inst'.value.Coincide d ∧
    origin (births ++ bornBy number o.events) inst' = some number ∧
    (∀ inst'' ∈ s.shelf.held, origin births inst'' = some number → inst''.value.Coincide d →
      inst'' = inst') ∧
    o = s.share number d place
  /-- if they cannot, the request fails as any other request for these components does, and nothing
  happens -/
  overflowed : 2 ^ 59 < request → ∀ d, inst.value.Edits e d →
    o = ⟨s, [], .error .overflow⟩ ∧ o = s.share number d place
  /-- whatever stands in another place is what it was, the edited descriptor included -/
  kept : ∀ other, place ≠ some other → o.state.shelf.at? other = s.shelf.at? other

/-! ## What names stand for -/

theorem key_of_held? {name : String} {key : Key} (h : s.keys.held? name = some key) :
    s.key name = .ok key := by
  rw [DescriptorSession.key, h]

theorem keysOf_of_held? {names : List String} {keys : List Key}
    (h : names.map s.keys.held? = keys.map some) : s.keysOf names = .ok keys := by
  induction names generalizing keys with
  | nil =>
    obtain rfl : keys = [] := by simpa using h.symm
    rfl
  | cons name names ih =>
    cases keys with
    | nil => cases h
    | cons key keys =>
      obtain ⟨hkey, hkeys⟩ := List.cons.inj h
      have hrest := ih hkeys
      rw [keysOf] at hrest ⊢
      rw [List.mapM_cons, key_of_held? hkey, hrest]
      rfl

/-- The descriptor that is asked for is the edited one. -/
theorem Means.target_eq (h : s.Means derivation inst e) :
    s.target derivation = .ok (inst.value.edit e) := by
  cases h with
  | result place name inst key hplace hkey =>
    rw [target, instanceAt_of_at? hplace, key_of_held? hkey]
    rfl
  | param place index name inst key hplace hkey =>
    rw [target, instanceAt_of_at? hplace, key_of_held? hkey]
    rfl
  | insert place index names inst keys hplace hkeys =>
    rw [target, instanceAt_of_at? hplace, keysOf_of_held? hkeys]
    rfl
  | append place names inst keys hplace hkeys =>
    rw [target, instanceAt_of_at? hplace, keysOf_of_held? hkeys]
    rfl
  | erase place start stop inst hplace =>
    rw [target, instanceAt_of_at? hplace]
    rfl

/-! ## What a pool answers -/

/-- A pool that is asked for a descriptor refuses nothing. -/
theorem share_ne_refused (s : DescriptorSession) (number : Nat) (d : Descriptor)
    (place : Option String) (refusal : DescriptorRefusal) :
    (s.share number d place).result ≠ .ok (.refused refusal) := by
  rw [share]
  cases s.pool number with
  | error fault => simp
  | ok pool =>
    dsimp only
    cases (pool.share s.shelf.holds s.made d).outcome with
    | error fault => simp
    | ok entry => simp

/-- It puts its instance nowhere else than it was told. -/
theorem at?_share {place : Option String} {other : String} (h : place ≠ some other)
    (s : DescriptorSession) (number : Nat) (d : Descriptor) :
    (s.share number d place).state.shelf.at? other = s.shelf.at? other := by
  rw [share]
  cases s.pool number with
  | error fault => rfl
  | ok pool =>
    dsimp only
    cases (pool.share s.shelf.holds s.made d).outcome with
    | error fault => rfl
    | ok entry => exact Shelf.at?_put_of_ne h entry.target s.shelf

/-- A pool whose chains can be allocated answers with an instance of the components that it is asked
for, and with the one that it has, if it has one. -/
theorem Sound.share_same (hs : Sound births s) (hallocates : s.Allocates number)
    (d : Descriptor) (place : Option String) :
    ∃ inst, (s.share number d place).result = .ok (.instance inst) ∧ inst.value.same d = true ∧
      ∀ inst' ∈ s.shelf.held, origin births inst' = some number →
        inst'.value.same d = true → inst' = inst := by
  obtain ⟨pool, hpool, hfits⟩ := hallocates.exists_pool
  have hview := hs.views number pool hpool
  have hmeets : ∀ inst, inst ∈ (s.view births number pool).met d ↔
      inst ∈ s.shelf.held ∧ origin births inst = some number ∧ inst.value.same d = true := by
    intro inst
    rw [hview.mem_met]
    constructor
    · rintro ⟨hheld, k, hborn, -, hsame⟩
      obtain ⟨hheld', horigin⟩ := mem_held_own.mp hheld
      have hvalue : inst.value = k := hborn.2
      exact ⟨hheld', horigin, hvalue ▸ hsame⟩
    · rintro ⟨hheld, horigin, hsame⟩
      exact ⟨mem_held_own.mpr ⟨hheld, horigin⟩, inst.value, hs.born hheld,
        Descriptor.hash_eq_of_same hsame, hsame⟩
  -- the pool has such an instance, or it makes one because it has none
  cases PoolSession.Sound.shares PoolSession.descriptor_classes hview d place with
  | hit inst hmet hmade hresult hstate =>
    have hmem := PoolSession.mem_met_of_eq hmet
    rw [hs.share_view hpool d place rfl hresult]
    refine ⟨inst, rfl, ((hmeets inst).mp hmem).2.2, fun inst' hheld horigin hsame => ?_⟩
    have hmem' := (hmeets inst').mpr ⟨hheld, horigin, hsame⟩
    rw [hmet] at hmem'
    exact List.mem_singleton.mp hmem'
  | miss table rest hmet hmade hresult hstate htable hlinks hrest =>
    rw [hs.share_view hpool d place rfl hresult]
    refine ⟨⟨s.made, d⟩, rfl, Descriptor.same_iff.mpr ⟨rfl, rfl⟩,
      fun inst' hheld horigin hsame => ?_⟩
    have hmem' := (hmeets inst').mpr ⟨hheld, horigin, hsame⟩
    rw [hmet] at hmem'
    cases hmem'
  | overflowed hoversized hmet hall =>
    cases hfits.symm.trans hoversized

/-- In every state that a caller can bring about, an edit of a descriptor is refused or answered by
the pool's own instance of the edited components, whichever pool the descriptor came from, unless
the chains of the pool cannot be allocated. -/
theorem reached_edited {requests : List Nat} (hreached : Reached requests births s)
    {request : Nat} (hrequest : requests[number]? = some request)
    (hmeans : s.Means derivation inst e) (place : Option String) :
    Derived births s number request inst e place (s.act (.derive number derivation place)) := by
  have hs := hreached.sound
  obtain ⟨refusal, hrefuses⟩ | ⟨d, hedits⟩ := inst.value.refuses_or_edits e
  · have hact : s.act (.derive number derivation place)
        = ⟨s, [], .ok (.refused refusal)⟩ := by
      rw [act, hmeans.target_eq, hrefuses.edit_eq]
    have hnone : ∀ d, ¬ inst.value.Edits e d := by
      intro d hedits
      cases hedits.edit_eq.symm.trans hrefuses.edit_eq
    rw [hact]
    refine
      { decided := .inl ⟨refusal, hrefuses⟩
        within := fun d h => h.within
        refused := fun refusal' => ?_
        untouched := fun _ _ => ⟨rfl, rfl⟩
        answered := fun _ d hedits => absurd hedits (hnone d)
        overflowed := fun _ d hedits => absurd hedits (hnone d)
        kept := fun _ _ => rfl }
    rw [Descriptor.refuses_iff, hrefuses.edit_eq]
    simp
  · have hact : s.act (.derive number derivation place) = s.share number d place := by
      rw [act, hmeans.target_eq, hedits.edit_eq]
    have honly : ∀ d', inst.value.Edits e d' → d' = d := fun d' h =>
      Except.ok.inj (h.edit_eq.symm.trans hedits.edit_eq)
    have hnone : ∀ refusal, ¬ inst.value.Refuses e refusal := by
      intro refusal hrefuses
      cases hrefuses.edit_eq.symm.trans hedits.edit_eq
    rw [hact]
    refine
      { decided := .inr ⟨d, hedits, honly⟩
        within := fun d h => h.within
        refused := fun refusal => iff_of_false (share_ne_refused _ _ _ _ _) (hnone refusal)
        untouched := fun refusal hrefused => absurd hrefused (share_ne_refused _ _ _ _ _)
        answered := fun hle d' h => ?_
        overflowed := fun hlt d' h => ?_
        kept := fun other hother => at?_share hother s number d }
    · obtain rfl := honly d' h
      have hallocates := hreached.allocates hrequest hle
      obtain ⟨inst', hresult, hsame, hcanonical⟩ := hs.share_same hallocates d' place
      obtain ⟨inst'', hderives⟩ := hs.share hallocates d' place
      -- both lemmas speak of the one instance that was the answer
      obtain rfl : inst' = inst'' := by simpa [hderives.result] using hresult.symm
      exact ⟨inst', hresult, Descriptor.same_iff_coincide.mp hsame, hderives.origin,
        fun inst'' hheld horigin hcoincide => hcanonical inst'' hheld horigin
          (Descriptor.same_iff_coincide.mpr hcoincide), rfl⟩
    · obtain rfl := honly d' h
      exact ⟨hreached.share_of_lt hrequest hlt d' place, rfl⟩

/-- A descriptor from one pool is edited for another, which has an instance of what comes out; and
once more, beyond its end. -/
theorem reached_edited_elsewhere :
    let s := [DescriptorAction.addPool 0, .key (.make "r" "t" none), .key (.make "p" "t" none),
      .derive 0 (.ofKeys "r" ["p", "r"]) (some "x"), .derive 1 (.ofKeys "r" ["r"]) (some "y")].foldl
        (fun s action => (s.act action).state) (ofCapacity 0)
    let r : Key := ⟨0, "r", "t", 17592186044416⟩
    (s.act (.derive 1 (.eraseRange "x" 0 1) none)).result = .ok (.instance ⟨1, ⟨r, [r]⟩⟩) ∧
      (s.act (.derive 1 (.eraseRange "x" 1 3) none)).result = .ok (.refused (.badRange 1 3 2)) := by
  intro s r
  let twin : Instance Descriptor := ⟨1, ⟨r, [r]⟩⟩
  obtain ⟨requests, births, hreached, hrequest, horigin⟩ : ∃ requests births,
      Reached requests births s ∧ requests[1]? = some 0 ∧ origin births twin = some 1 :=
    ⟨_, _, .act (.act (.act (.act (.act (.start 0) _) _) _) _) _, rfl, by decide⟩
  let p : Key := ⟨1, "p", "t", 17592186044480⟩
  let inst : Instance Descriptor := ⟨0, ⟨r, [p, r]⟩⟩
  have hx : s.shelf.at? "x" = some inst := by decide
  have hy : s.shelf.at? "y" = some twin := by decide
  constructor
  · have hderived := reached_edited hreached hrequest (.erase "x" 0 1 inst hx) none
    obtain ⟨inst', hresult, -, -, hcanonical, -⟩ :=
      hderived.answered (by decide) _ (.erase [] [p] [r] rfl)
    have htwin := hcanonical twin (Shelf.mem_held_of_at? hy) horigin
      (Descriptor.same_iff_coincide.mp (by decide))
    rw [hresult, ← htwin]
  · have hderived := reached_edited hreached hrequest (.erase "x" 1 3 inst hx) none
    exact (hderived.refused _).mpr (.erase 1 3 (.inr (by decide)))

/-- A pool that was asked for too many chains answers no edit, of whatever pool's descriptor. -/
theorem answered_overflowed :
    let s := [DescriptorAction.addPool (2 ^ 60), .key (.make "r" "t" none),
      .key (.make "p" "t" none), .derive 0 (.ofKeys "r" []) (some "s")].foldl
        (fun s action => (s.act action).state) (ofCapacity 0)
    (s.act (.derive 1 (.append "s" ["p"]) none)).result = .error .overflow ∧
      (s.act (.derive 0 (.append "s" ["p"]) none)).result =
        .ok (.instance ⟨1, ⟨⟨0, "r", "t", 17592186044416⟩, [⟨1, "p", "t", 17592186044480⟩]⟩⟩) := by
  decide

end DescriptorSession

end Ephemera
