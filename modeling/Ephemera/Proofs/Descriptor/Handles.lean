import Ephemera.Proofs.Descriptor.Edit
import Ephemera.Proofs.Keyring

/-!
# Descriptors by handles

A handle refers to a key as long as that key is alive, and a caller who has no more than handles may
ask for the descriptor of what they refer to. The request is refused if some handle refers to
nothing: the first position of such a handle is named, and nothing has happened. Otherwise it is as
good as taking up the keys and asking for their descriptor (`reached_tried`).
-/

namespace Ephemera

namespace Descriptor

/-! ## The first handle without a key -/

theorem keysOfHandles_of_some (index : Nat) (keys : List Key) :
    keysOfHandles index (keys.map some) = .ok keys := by
  induction keys generalizing index with
  | nil => rfl
  | cons key keys ih =>
    rw [List.map_cons, keysOfHandles, ih]
    rfl

theorem keysOfHandles_of_none (index : Nat) (before : List Key) (after : List (Option Key)) :
    keysOfHandles index (before.map some ++ none :: after)
      = .error (.missing (index + before.length)) := by
  induction before generalizing index with
  | nil => rfl
  | cons key before ih =>
    rw [List.map_cons, List.cons_append, keysOfHandles, ih, List.length_cons, Nat.add_assoc,
      Nat.add_comm 1]
    rfl

theorem ofHandles_of_some (key : Key) (keys : List Key) :
    ofHandles (some key) (keys.map some) = .ok ⟨key, keys⟩ := by
  rw [ofHandles, keysOfHandles_of_some]
  rfl

/-- The result counts as the first position. -/
theorem ofHandles_of_none {result : Option Key} {params : List (Option Key)} (before : List Key)
    (after : List (Option Key)) (h : result :: params = before.map some ++ none :: after) :
    ofHandles result params = .error (.missing before.length) := by
  cases before with
  | nil =>
    obtain ⟨rfl, -⟩ := List.cons.inj h
    rfl
  | cons key before =>
    obtain ⟨rfl, rfl⟩ : result = some key ∧ params = before.map some ++ none :: after := by
      simpa using h
    rw [ofHandles, keysOfHandles_of_none, List.length_cons, Nat.add_comm 1]
    rfl

end Descriptor

namespace Keyring

variable {r : Keyring} {key : Key}

/-- To hold one more key is to hold no other one less. -/
theorem holds_mark_of_holds (key' : Key) (h : r.holds key = true) :
    (r.mark key' true).holds key = true := by
  by_cases hnumber : key'.number = key.number
  · rw [holds, Option.any_eq_true] at h
    obtain ⟨holding, hholding, -⟩ := h
    simp [holds, mark, Array.getElem?_modify, hnumber, hholding]
  · rw [holds_mark_ne hnumber, h]

end Keyring

namespace DescriptorSession

variable {births : List Birth} {s : DescriptorSession} {number : Nat} {name result : String}
  {names params : List String} {key : Key} {keys : List Key}

/-- What the handle of a name refers to: the key of that name, as long as it is alive. -/
def Refers (s : DescriptorSession) (name : String) (key : Key) : Prop :=
  s.keys.key? name = some key ∧ s.isLive key = true

theorem handle_eq_some_iff : s.handle name = some key ↔ s.Refers name key :=
  Option.filter_eq_some_iff

theorem handle_eq_none_iff : s.handle name = none ↔ ∀ key, ¬ s.Refers name key := by
  simp only [← handle_eq_some_iff, Option.eq_none_iff_forall_ne_some, ne_eq]

/-- The caller takes up the keys that handles refer to. -/
def takeUp (names : List String) (s : DescriptorSession) : DescriptorSession :=
  names.foldl (fun s name => (s.act (.key (.retake name))).state) s

@[simp]
theorem takeUp_cons (name : String) (names : List String) (s : DescriptorSession) :
    s.takeUp (name :: names) = (s.act (.key (.retake name))).state.takeUp names := rfl

/-- What comes of asking a pool, which was asked for a number of chains when it was set up, for the
descriptor of what handles refer to. -/
structure Tried (s : DescriptorSession) (number request : Nat) (result : String)
    (params : List String) (place : Option String)
    (o : Outcome DescriptorSession (Note (Instance Descriptor)) DescriptorReply) : Prop where
  /-- the request is refused if and only if some handle refers to nothing -/
  refused : (∃ refusal, o.result = .ok (.refused refusal)) ↔
    ∃ name ∈ result :: params, ∀ key, ¬ s.Refers name key
  /-- the refusal tells how many handles there are before the first such one -/
  first : ∀ refusal, o.result = .ok (.refused refusal) → ∃ before name after,
    result :: params = before ++ name :: after ∧ refusal = .missing before.length ∧
      (∀ key, ¬ s.Refers name key) ∧ ∀ earlier ∈ before, ∃ key, s.Refers earlier key
  /-- nothing has happened then, to any pool or to any key -/
  untouched : ∀ refusal, o.result = .ok (.refused refusal) → o.state = s ∧ o.events = []
  /-- otherwise the pool is asked for the keys, and answers with an instance of them, if its chains
  can be allocated -/
  answered : ∀ key keys, List.Forall₂ s.Refers (result :: params) (key :: keys) →
    (request ≤ 2 ^ 59 →
      ∃ inst, o.result = .ok (.instance inst) ∧ inst.value.Coincide ⟨key, keys⟩) ∧
      o = s.share number ⟨key, keys⟩ place
  /-- if they cannot, this is no refusal, and still nothing has happened -/
  overflowed : 2 ^ 59 < request → (∀ name ∈ result :: params, ∃ key, s.Refers name key) →
    o = ⟨s, [], .error .overflow⟩
  /-- a caller who takes up the keys first and asks for them by name has the same answer and leaves
  everything but its own hold on these keys the same -/
  takenUp : (∀ name ∈ result :: params, ∃ key, s.Refers name key) →
    let s' := s.takeUp (result :: params)
    s'.act (.derive number (.ofKeys result params) place)
      = ⟨{ o.state with keys := s'.keys }, o.events, o.result⟩

/-! ## Keys that are taken up -/

/-- A pool does not look at the ring. -/
theorem share_withKeys (keys : Keyring) (d : Descriptor) (place : Option String) :
    ({ s with keys } : DescriptorSession).share number d place
      = ⟨{ (s.share number d place).state with keys }, (s.share number d place).events,
          (s.share number d place).result⟩ := by
  have hpool : ({ s with keys } : DescriptorSession).pool number = s.pool number := rfl
  rw [share, share, hpool]
  cases s.pool number with
  | error fault => rfl
  | ok pool =>
    dsimp only
    cases (pool.share s.shelf.holds s.made d).outcome with
    | error fault => rfl
    | ok entry => rfl

/-- Rings number their keys, whatever is done. -/
theorem Reached.numbered {requests : List Nat} (h : Reached requests births s) :
    s.keys.Numbered := by
  induction h with
  | start request => exact Keyring.numbered_empty
  | @act _ _ s _ action ih =>
    cases action with
    | key action => exact ih.perform s.isLive action
    | addPool request => exact ih
    | clear place => exact ih
    | ask question => exact ih
    | derive number derivation place =>
      obtain ⟨d, pool, -, hact⟩ | ⟨result, hact, -⟩ := s.requested_derive number derivation place
      · rw [hact, share_withKeys s.keys]
        exact ih
      · rw [hact]
        exact ih

/-- What can be said of a caller who has taken up keys: nothing else has changed, none of the keys
that were held before has been let go, and those that the handles refer to are held now. -/
structure TakenUp (s : DescriptorSession) (names : List String) (s' : DescriptorSession) :
    Prop where
  /-- nothing but the ring has changed -/
  rest : s' = { s with keys := s'.keys }
  /-- the ring has the same keys -/
  keys : s'.keys.keys = s.keys.keys
  /-- what was held is held -/
  kept : ∀ key, s.keys.holds key = true → s'.keys.holds key = true
  /-- the keys that were taken up are held -/
  held : ∀ name ∈ names, ∀ key, s.Refers name key → s'.keys.held? name = some key

/-- To hold a key is not to let go of what handles refer to. -/
theorem Refers.mark (h : s.Refers name key) (key' : Key) :
    Refers { s with keys := s.keys.mark key' true } name key := by
  obtain ⟨hkey, hlive⟩ := h
  refine ⟨(Keyring.key?_congr (Keyring.keys_mark key' true s.keys)).trans hkey, ?_⟩
  rw [isLive, Bool.or_eq_true] at hlive ⊢
  exact hlive.imp_left (Keyring.holds_mark_of_holds key')

theorem Refers.retake_eq (h : s.Refers name key) :
    (s.act (.key (.retake name))).state = { s with keys := s.keys.mark key true } := by
  obtain ⟨hkey, hlive⟩ := h
  simp only [act, Keyring.perform, hkey, hlive]

theorem takenUp_takeUp (hnumbered : s.keys.Numbered)
    (hrefers : ∀ name ∈ names, ∃ key, s.Refers name key) : s.TakenUp names (s.takeUp names) := by
  induction names generalizing s with
  | nil => exact ⟨rfl, rfl, fun _ h => h, fun _ h => nomatch h⟩
  | cons name names ih =>
    obtain ⟨key, hrefer⟩ := hrefers name List.mem_cons_self
    have hkeys := Keyring.keys_mark key true s.keys
    have hrest := ih (s := { s with keys := s.keys.mark key true }) (hnumbered.of_keys_eq hkeys)
      fun name' hmem => (hrefers name' (List.mem_cons_of_mem name hmem)).imp
        fun _ hrefer' => hrefer'.mark key
    rw [takeUp_cons, hrefer.retake_eq]
    refine ⟨hrest.rest, hrest.keys.trans hkeys,
      fun key' hholds => hrest.kept key' (Keyring.holds_mark_of_holds key hholds), ?_⟩
    intro name' hmem key' hrefer'
    rcases List.mem_cons.mp hmem with rfl | hmem
    · obtain rfl : key = key' := Option.some.inj (hrefer.1.symm.trans hrefer'.1)
      have hmark := Keyring.holds_mark_self hnumbered (Keyring.mem_keys_of_key? hrefer.1) true
      rw [Keyring.held?, Keyring.key?_congr (hrest.keys.trans hkeys), hrefer.1]
      exact Option.filter_eq_some_iff.mpr ⟨rfl, hrest.kept key hmark⟩
    · exact hrest.held name' hmem key' (hrefer'.mark key)

/-! ## Asking by handles -/

/-- Handles refer to as many keys, or there is a first one that refers to nothing. -/
theorem refer_or_first (s : DescriptorSession) (names : List String) :
    (∃ keys, List.Forall₂ s.Refers names keys) ∨
    ∃ before name after keys, names = before ++ name :: after ∧
      List.Forall₂ s.Refers before keys ∧ ∀ key, ¬ s.Refers name key := by
  induction names with
  | nil => exact .inl ⟨[], .nil⟩
  | cons name names ih =>
    by_cases hname : ∃ key, s.Refers name key
    · obtain ⟨key, hkey⟩ := hname
      obtain ⟨keys, hkeys⟩ | ⟨before, name', after, keys, rfl, hkeys, hnone⟩ := ih
      · exact .inl ⟨key :: keys, .cons hkey hkeys⟩
      · exact .inr ⟨name :: before, name', after, key :: keys, rfl, .cons hkey hkeys, hnone⟩
    · exact .inr ⟨[], name, names, [], rfl, .nil, not_exists.mp hname⟩

theorem map_handle_eq (h : List.Forall₂ s.Refers names keys) :
    names.map s.handle = keys.map some := by
  induction h with
  | nil => rfl
  | cons hkey _ ih => rw [List.map_cons, List.map_cons, ih, handle_eq_some_iff.mpr hkey]

theorem exists_of_refers (h : List.Forall₂ s.Refers names keys) :
    ∀ name ∈ names, ∃ key, s.Refers name key := by
  intro name hmem
  have hhandle := List.mem_map_of_mem (f := s.handle) hmem
  rw [map_handle_eq h] at hhandle
  obtain ⟨key, -, hkey⟩ := List.mem_map.mp hhandle
  exact ⟨key, handle_eq_some_iff.mp hkey.symm⟩

/-- Handles that refer to keys ask for these keys. -/
theorem act_ofHandles_of_refers (hkeys : List.Forall₂ s.Refers (result :: params) (key :: keys))
    (number : Nat) (place : Option String) :
    s.act (.derive number (.ofHandles result params) place) = s.share number ⟨key, keys⟩ place := by
  obtain ⟨hresult, hparams⟩ := List.cons.inj (map_handle_eq hkeys)
  rw [act, target, hresult, hparams, Descriptor.ofHandles_of_some]

/-- The first handle that refers to nothing ends the request. -/
theorem act_ofHandles_of_none {before after : List String}
    (hnames : result :: params = before ++ name :: after)
    (hkeys : List.Forall₂ s.Refers before keys) (hnone : ∀ key, ¬ s.Refers name key)
    (number : Nat) (place : Option String) :
    s.act (.derive number (.ofHandles result params) place)
      = ⟨s, [], .ok (.refused (.missing before.length))⟩ := by
  have hhandles : s.handle result :: params.map s.handle
      = keys.map some ++ none :: after.map s.handle := by
    rw [← List.map_cons, hnames, List.map_append, List.map_cons, map_handle_eq hkeys,
      handle_eq_none_iff.mpr hnone]
  rw [act, target, Descriptor.ofHandles_of_none keys _ hhandles, hkeys.length_eq]

theorem TakenUp.map_held?_eq {s' : DescriptorSession} (h : s.TakenUp names s')
    (hkeys : List.Forall₂ s.Refers names keys) : names.map s'.keys.held? = keys.map some := by
  rw [← map_handle_eq hkeys]
  refine List.map_congr_left fun name hmem => ?_
  obtain ⟨key, hkey⟩ := exists_of_refers hkeys name hmem
  rw [h.held name hmem key hkey, handle_eq_some_iff.mpr hkey]

/-- Keys that are taken up can be asked for by name. -/
theorem TakenUp.act_ofKeys {s' : DescriptorSession} (h : s.TakenUp (result :: params) s')
    (hkeys : List.Forall₂ s.Refers (result :: params) (key :: keys)) (number : Nat)
    (place : Option String) :
    s'.act (.derive number (.ofKeys result params) place) = s'.share number ⟨key, keys⟩ place := by
  obtain ⟨hresult, hparams⟩ := List.cons.inj (h.map_held?_eq hkeys)
  rw [act, target, descriptorOf, key_of_held? hresult, keysOf_of_held? hparams]
  rfl

/-- In every state that a caller can bring about, what is asked for by handles is refused at the
first handle that refers to nothing, or it is what the keys themselves would be answered with. -/
theorem reached_tried {requests : List Nat} (h : Reached requests births s) {request : Nat}
    (hrequest : requests[number]? = some request) (result : String) (params : List String)
    (place : Option String) :
    Tried s number request result params place
      (s.act (.derive number (.ofHandles result params) place)) := by
  obtain ⟨_ | ⟨key, keys⟩, hkeys⟩ | ⟨before, name, after, keys, hnames, hkeys, hnone⟩ :=
    s.refer_or_first (result :: params)
  · cases hkeys
  · -- all handles refer to keys, and to no others than these: the pool is asked for them
    have hrefers := exists_of_refers hkeys
    have honly : ∀ key' keys', List.Forall₂ s.Refers (result :: params) (key' :: keys') →
        key = key' ∧ keys = keys' := by
      intro key' keys' hkeys'
      have hsome := (map_handle_eq hkeys).symm.trans (map_handle_eq hkeys')
      exact List.cons.inj (List.map_inj_right (fun _ _ => Option.some.inj) |>.mp hsome)
    rw [act_ofHandles_of_refers hkeys]
    refine
      { refused := iff_of_false (fun ⟨_, hrefused⟩ => share_ne_refused _ _ _ _ _ hrefused) ?_
        first := fun _ hrefused => absurd hrefused (share_ne_refused _ _ _ _ _)
        untouched := fun _ hrefused => absurd hrefused (share_ne_refused _ _ _ _ _)
        answered := ?_
        overflowed := fun hlt _ => h.share_of_lt hrequest hlt ⟨key, keys⟩ place
        takenUp := ?_ }
    · rintro ⟨name, hmem, hnone⟩
      obtain ⟨key, hkey⟩ := hrefers name hmem
      exact absurd hkey (hnone key)
    · intro key' keys' hkeys'
      obtain ⟨rfl, rfl⟩ := honly key' keys' hkeys'
      refine ⟨fun hle => ?_, rfl⟩
      obtain ⟨inst, hresult, hsame, -⟩ :=
        h.sound.share_same (h.allocates hrequest hle) ⟨key, keys⟩ place
      exact ⟨inst, hresult, Descriptor.same_iff_coincide.mp hsame⟩
    · -- what differs after taking up the keys is the ring, and pools do not look at rings
      intro hrefers s'
      have htaken := takenUp_takeUp h.numbered hrefers
      rw [htaken.act_ofKeys hkeys, ← share_withKeys s'.keys, ← htaken.rest]
  · -- no pool is asked; all that holds of keys of all handles holds because there are none
    have hmem : name ∈ result :: params := by
      rw [hnames]
      exact List.mem_append_right before List.mem_cons_self
    have hnot : ¬ ∀ name ∈ result :: params, ∃ key, s.Refers name key := by
      intro hrefers
      obtain ⟨key, hkey⟩ := hrefers name hmem
      exact hnone key hkey
    rw [act_ofHandles_of_none hnames hkeys hnone]
    refine
      { refused := ⟨fun _ => ⟨name, hmem, hnone⟩, fun _ => ⟨_, rfl⟩⟩
        first := fun refusal hrefused => ?_
        untouched := fun _ _ => ⟨rfl, rfl⟩
        answered := fun _ _ hkeys' => absurd (exists_of_refers hkeys') hnot
        overflowed := fun _ hrefers => absurd hrefers hnot
        takenUp := fun hrefers => absurd hrefers hnot }
    obtain rfl : .missing before.length = refusal := by simpa using hrefused
    exact ⟨before, name, after, hnames, rfl, hnone, exists_of_refers hkeys⟩

/-- A key that is let go of is still a component, so handles find it; another one is dead, and a
handle that comes after it never was one to a key. -/
theorem reached_tried_dead :
    let s := [DescriptorAction.key (.make "r" "t" none), .key (.make "p" "t" none),
      .key (.make "q" "t" none), .derive 0 (.ofKeys "r" ["p"]) (some "x"), .key (.letGo "p"),
      .key (.letGo "q")].foldl (fun s action => (s.act action).state) (ofCapacity 0)
    let r : Key := ⟨0, "r", "t", 17592186044416⟩
    let p : Key := ⟨1, "p", "t", 17592186044480⟩
    let found := s.act (.derive 0 (.ofHandles "r" ["p"]) none)
    let missed := s.act (.derive 0 (.ofHandles "r" ["p", "q", "nobody"]) (some "x"))
    (∃ inst, found.result = .ok (.instance inst) ∧ inst.value.Coincide ⟨r, [p]⟩) ∧
      missed.result = .ok (.refused (.missing 2)) ∧ missed.state = s := by
  intro s r p found missed
  obtain ⟨requests, births, hreached, hrequest⟩ :
      ∃ requests births, Reached requests births s ∧ requests[0]? = some 0 :=
    ⟨_, _, .act (.act (.act (.act (.act (.act (.start 0) _) _) _) _) _) _, rfl⟩
  have hr : s.Refers "r" r := handle_eq_some_iff.mp (by decide)
  have hp : s.Refers "p" p := handle_eq_some_iff.mp (by decide)
  have hmissed : missed.result = .ok (.refused (.missing 2)) := by decide
  exact ⟨((reached_tried hreached hrequest "r" ["p"] none).answered r [p]
      (.cons hr (.cons hp .nil))).1 (by decide), hmissed,
    ((reached_tried hreached hrequest "r" ["p", "q", "nobody"] (some "x")).untouched _ hmissed).1⟩

end DescriptorSession

end Ephemera
