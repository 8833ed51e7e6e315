import Ephemera.Proofs.Table.Effect
import Ephemera.Session.Pool

/-!
# Sound pools

What a pool knows of an instance is its number and its value, and for what it was made has long
been forgotten. The invariant of a pool is about just that, so it is stated for a history:
`births` lists the requests for which instances were made, and instance `n` was made for the
`n`-th of them. `Sound` says that the links and the places lead to such instances, that no
instance is linked twice, and that no two instances in places were made for requests that are
`Alike`.

Here the answers to requests have to fall into classes. The requests that the value for a
request answers must be those of one class; this is `hclasses` below.
-/

namespace Ephemera

/-! ## Places -/

namespace Shelf

variable {τ : Type} {s : Shelf τ} {inst inst' : Instance τ}

/-- The instances in places, as often as they stand there. -/
def held (s : Shelf τ) : List (Instance τ) :=
  s.places.map Prod.snd

theorem holds_iff : s.holds inst = true ↔ ∃ inst' ∈ s.held, inst'.number = inst.number := by
  simp only [holds, held, List.any_eq_true, beq_iff_eq, List.mem_map, exists_exists_and_eq_and]

theorem holds_of_mem (h : inst ∈ s.held) : s.holds inst = true :=
  holds_iff.mpr ⟨inst, h, rfl⟩

theorem held_clear_subset (place : String) (s : Shelf τ) : (s.clear place).held ⊆ s.held :=
  List.map_subset _ (List.filter_subset_self _)

/-- Only what is put into a place comes to be held. -/
theorem mem_held_put {place : Option String} (h : inst' ∈ (s.put place inst).held) :
    inst' = inst ∨ inst' ∈ s.held := by
  cases place with
  | none => exact .inr h
  | some place =>
    rcases List.mem_cons.mp h with heq | hold
    · exact .inl heq
    · exact .inr (held_clear_subset place s hold)

end Shelf

namespace Pool

variable {κ τ : Type} [Shareable κ τ]

/-- No request changes the number of chains that a pool is to start with. -/
theorem initial_share (live : Instance τ → Bool) (number : Nat) (k : κ) (p : Pool τ) :
    (p.share live number k).pool.table.initial = p.table.initial := by
  rw [share]
  dsimp only
  split
  · rfl
  · exact Table.initial_obtain

/-- A pool whose chains cannot be allocated answers no request, and stays as it is. -/
theorem share_of_oversized {p : Pool τ} (hs : p.table.Sound)
    (hoversized : isOversized p.table.initial = true) (live : Instance τ → Bool) (number : Nat)
    (k : κ) :
    p.share live number k = { outcome := .error .overflow, pool := p, notes := [] } := by
  rw [share, Table.search, hs.candidates_eq, hs.links_of_oversized hoversized,
    hs.obtain_of_oversized hoversized]
  rfl

end Pool

namespace PoolSession

variable {κ τ : Type} [Shareable κ τ] {births : List κ} {s : PoolSession τ} {k k' : κ}
  {inst inst' : Instance τ}

/-! ## Classes and histories -/

/-- Whether requests are met by the same instance: they have one hash, and the value for one of
them answers the other. -/
def Alike (τ : Type) [Shareable κ τ] (k k' : κ) : Prop :=
  Shareable.hash τ k = Shareable.hash τ k' ∧ Shareable.answers (Shareable.make k : τ) k' = true

theorem alike_equivalence
    (hclasses : Equivalence fun k k' : κ => Shareable.answers (Shareable.make k : τ) k' = true) :
    Equivalence (Alike τ : κ → κ → Prop) where
  refl k := ⟨rfl, hclasses.refl k⟩
  symm h := ⟨h.1.symm, hclasses.symm h.2⟩
  trans h h' := ⟨h.1.trans h'.1, hclasses.trans h.2 h'.2⟩

/-- An instance was made for a request. -/
def Born (births : List κ) (inst : Instance τ) (k : κ) : Prop :=
  births[inst.number]? = some k ∧ inst.value = Shareable.make k

theorem Born.request_eq (h : Born births inst k) (h' : Born births inst k') : k = k' :=
  Option.some.inj (h.1.symm.trans h'.1)

/-- A number stands for one instance. -/
theorem Born.eq_of_number (h : Born births inst k) (h' : Born births inst' k')
    (hnumber : inst.number = inst'.number) : inst = inst' := by
  obtain ⟨number, value⟩ := inst
  obtain ⟨number', value'⟩ := inst'
  obtain rfl : number = number' := hnumber
  obtain rfl : k = k' := Option.some.inj (h.1.symm.trans h'.1)
  obtain rfl : value = _ := h.2
  obtain rfl : value' = _ := h'.2
  rfl

theorem Born.number_lt (h : Born births inst k) : inst.number < births.length :=
  (List.getElem?_eq_some_iff.mp h.1).1

/-- Later births do not change what was made before. -/
theorem Born.append (h : Born births inst k) (later : List κ) : Born (births ++ later) inst k :=
  ⟨(List.getElem?_append_left h.number_lt).trans h.1, h.2⟩

theorem born_new (births : List κ) (k : κ) :
    Born (births ++ [k]) (⟨births.length, Shareable.make k⟩ : Instance τ) k :=
  ⟨List.getElem?_concat_length, rfl⟩

/-! ## The invariant -/

/-- The invariant of a pool, given the requests for which instances were made. -/
structure Sound (births : List κ) (s : PoolSession τ) : Prop where
  /-- the table is sound -/
  table : s.pool.table.Sound
  /-- the next number is that of the next birth -/
  made : s.made = births.length
  /-- links lead to instances that were made for a request, and are kept under its hash -/
  born : ∀ link ∈ s.pool.table.links, ∃ k, Born births link.referent k ∧
    link.hash = Shareable.hash τ k
  /-- no instance is linked twice -/
  once : (s.pool.table.links.map fun link => link.referent.number).Nodup
  /-- what stands in a place is linked -/
  linked : ∀ inst ∈ s.shelf.held, ∃ link ∈ s.pool.table.links, link.referent = inst
  /-- instances in places were made for requests that are not alike -/
  unique : ∀ inst ∈ s.shelf.held, ∀ inst' ∈ s.shelf.held, ∀ k k', Born births inst k →
    Born births inst' k' → Alike τ k k' → inst = inst'

theorem sound_ofCapacity (request : Nat) : Sound [] (ofCapacity request : PoolSession τ) where
  table := Table.sound_ofCapacity request
  made := rfl
  born _ h := nomatch h
  once := List.nodup_nil
  linked _ h := nomatch h
  unique _ h := nomatch h

theorem Sound.nodup_referents (hs : Sound births s) :
    (s.pool.table.links.map Link.referent).Nodup := by
  have := hs.once
  change (s.pool.table.links.map (Instance.number ∘ Link.referent)).Nodup at this
  rw [← List.map_map] at this
  exact List.Nodup.of_map _ this

/-- What stands in a place was made for some request. -/
theorem Sound.born_of_held (hs : Sound births s) (h : inst ∈ s.shelf.held) :
    ∃ k, Born births inst k := by
  obtain ⟨link, hmem, rfl⟩ := hs.linked inst h
  obtain ⟨k, hborn, -⟩ := hs.born link hmem
  exact ⟨k, hborn⟩

/-- What is linked and alive stands in a place. -/
theorem Sound.held_of_holds (hs : Sound births s) {link : Link (Instance τ)}
    (hmem : link ∈ s.pool.table.links) (h : s.shelf.holds link.referent = true) :
    link.referent ∈ s.shelf.held := by
  obtain ⟨inst, hinst, hnumber⟩ := Shelf.holds_iff.mp h
  obtain ⟨k, hborn⟩ := hs.born_of_held hinst
  obtain ⟨k', hborn', -⟩ := hs.born link hmem
  rwa [← hborn.eq_of_number hborn' hnumber]

/-- Letting go of instances keeps a pool sound. -/
theorem Sound.release (hs : Sound births s) {shelf : Shelf τ} (h : shelf.held ⊆ s.shelf.held) :
    Sound births { s with shelf } where
  table := hs.table
  made := hs.made
  born := hs.born
  once := hs.once
  linked inst hheld := hs.linked inst (h hheld)
  unique inst hheld inst' hheld' := hs.unique inst (h hheld) inst' (h hheld')

/-! ## Looking for an instance -/

/-- The instances among which a request looks for its answer. -/
def met (s : PoolSession τ) (k : κ) : List (Instance τ) :=
  (s.pool.table.links.candidates s.shelf.holds (Shareable.hash τ k)).filter fun found =>
    Shareable.answers found.value k

/-- A request meets the instances in places that were made for requests alike. -/
theorem Sound.mem_met (hs : Sound births s) :
    inst ∈ s.met k ↔ inst ∈ s.shelf.held ∧ ∃ k', Born births inst k' ∧ Alike τ k' k := by
  rw [met, List.mem_filter, Chain.mem_candidates]
  constructor
  · rintro ⟨⟨hmem, hholds⟩, hanswers⟩
    obtain ⟨k', hborn, hhash⟩ := hs.born _ hmem
    rw [hborn.2] at hanswers
    exact ⟨hs.held_of_holds hmem hholds, k', hborn, hhash.symm, hanswers⟩
  · rintro ⟨hheld, k', hborn, hhash, hanswers⟩
    obtain ⟨⟨inst', hash⟩, hmem, rfl⟩ := hs.linked inst hheld
    obtain ⟨k'', hborn', hhash'⟩ := hs.born _ hmem
    obtain rfl := hborn.request_eq hborn'
    obtain rfl : hash = Shareable.hash τ k := hhash'.trans hhash
    rw [← hborn.2] at hanswers
    exact ⟨⟨hmem, Shelf.holds_of_mem hheld⟩, hanswers⟩

theorem mem_met_of_eq (h : s.met k = [inst]) : inst ∈ s.met k := by
  rw [h]
  exact List.mem_singleton_self inst

/-- No instance is met twice. -/
theorem Sound.nodup_met (hs : Sound births s) (k : κ) : (s.met k).Nodup :=
  (Chain.nodup_candidates hs.nodup_referents).filter _

/-- What is in a place does not change what it was made for. -/
theorem Sound.born_of_append (hs : Sound births s) (h : inst ∈ s.shelf.held) {later : List κ}
    (hborn : Born (births ++ later) inst k) : Born births inst k := by
  obtain ⟨k', hborn'⟩ := hs.born_of_held h
  obtain rfl := hborn.request_eq (hborn'.append later)
  exact hborn'

/-! ## Asking for a value -/

/-- What a request for a value leads to. -/
inductive Shares (s : PoolSession τ) (k : κ) (place : Option String)
    (o : Outcome (PoolSession τ) (Note (Instance τ)) (PoolReply τ)) : Prop where
  /-- one instance is met, and it is the answer -/
  | hit (inst : Instance τ) (hmet : s.met k = [inst])
      (hmade : Note.makings o.events = [])
      (hresult : o.result = .ok (.instance inst))
      (hstate : o.state = { s with shelf := s.shelf.put place inst })
  /-- none is met, so a new one is made and linked -/
  | miss (table : Table (Instance τ)) (rest : Chain (Instance τ)) (hmet : s.met k = [])
      (hmade : Note.makings o.events = [⟨s.made, Shareable.make k⟩])
      (hresult : o.result = .ok (.instance ⟨s.made, Shareable.make k⟩))
      (hstate : o.state = ⟨⟨table⟩, s.shelf.put place ⟨s.made, Shareable.make k⟩, s.made + 1⟩)
      (htable : table.Sound)
      (hlinks : table.links.Perm (⟨⟨s.made, Shareable.make k⟩, Shareable.hash τ k⟩ :: rest))
      (hrest : Chain.Sheds s.shelf.holds s.pool.table.links rest)
  /-- no chains can be allocated, so none is met, and nothing is made -/
  | overflowed (hoversized : isOversized s.pool.table.initial = true) (hmet : s.met k = [])
      (hall : o = ⟨s, [], .error .overflow⟩)

theorem Sound.share_of_oversized (hs : Sound births s)
    (hoversized : isOversized s.pool.table.initial = true) (k : κ) (place : Option String) :
    s.share k place = ⟨s, [], .error .overflow⟩ := by
  rw [PoolSession.share, Pool.share_of_oversized hs.table hoversized]

/-- No instance is held of a pool whose chains cannot be allocated. -/
theorem Sound.held_of_oversized (hs : Sound births s)
    (hoversized : isOversized s.pool.table.initial = true) : s.shelf.held = [] := by
  refine List.eq_nil_iff_forall_not_mem.mpr fun inst hheld => ?_
  obtain ⟨link, hmem, -⟩ := hs.linked inst hheld
  rw [hs.table.links_of_oversized hoversized] at hmem
  cases hmem

section

variable
  (hclasses : Equivalence fun k k' : κ => Shareable.answers (Shareable.make k : τ) k' = true)

include hclasses

/-- A request meets one instance at most. -/
theorem Sound.met_eq (hs : Sound births s) (h : inst ∈ s.met k) : s.met k = [inst] := by
  have hequiv := alike_equivalence hclasses
  apply List.perm_singleton.mp
  refine (List.perm_ext_iff_of_nodup (hs.nodup_met k) (List.nodup_singleton inst)).mpr ?_
  intro inst'
  rw [List.mem_singleton]
  constructor
  · intro h'
    obtain ⟨hheld, k₁, hborn, halike⟩ := hs.mem_met.mp h
    obtain ⟨hheld', k₂, hborn', halike'⟩ := hs.mem_met.mp h'
    exact hs.unique inst' hheld' inst hheld k₂ k₁ hborn' hborn
      (hequiv.trans halike' (hequiv.symm halike))
  · rintro rfl
    exact h

/-- What a request for a value does to a sound pool whose chains can be allocated. -/
theorem Sound.shares_of_fits (hs : Sound births s)
    (hfits : isOversized s.pool.table.initial = false) (k : κ) (place : Option String) :
    Shares s k place (s.share k place) := by
  have hentries : (s.pool.table.candidates s.shelf.holds (Shareable.hash τ k)).filter
      (fun found => Shareable.answers found.value k) = s.met k := by
    rw [hs.table.candidates_eq, met]
  unfold share Pool.share
  dsimp only [Table.search]
  rw [← List.head?_filter, hentries]
  cases hmet : s.met k with
  | cons inst rest =>
    have hone : s.met k = [inst] := by
      apply Sound.met_eq hclasses hs
      rw [hmet]
      exact List.mem_cons_self
    exact .hit inst hone (Note.makings_asked _) rfl rfl
  | nil =>
    -- the second look, on the way to installing, sees what the first one saw
    cases hs.table.obtains hfits s.shelf.holds (Shareable.hash τ k)
      (fun found => Shareable.answers found.value k) ⟨s.made, Shareable.make k⟩ with
    | found entry rest hfound => cases hmet.symm.trans hfound
    | refused entry entry' rest hfound => cases hmet.symm.trans hfound
    | installed rest hfound houtcome hlinks hrest hmade =>
      dsimp only [List.head?_nil]
      rw [houtcome]
      refine .miss _ rest hmet ?_ rfl rfl hs.table.obtain hlinks hrest
      rw [Note.makings_append, Note.makings_asked, hmade]
      rfl

/-- What a request for a value does to a sound pool. -/
theorem Sound.shares (hs : Sound births s) (k : κ) (place : Option String) :
    Shares s k place (s.share k place) := by
  cases hfits : isOversized s.pool.table.initial with
  | true =>
    refine .overflowed hfits ?_ (hs.share_of_oversized hfits k place)
    rw [met, hs.table.links_of_oversized hfits]
    rfl
  | false => exact Sound.shares_of_fits hclasses hs hfits k place

/-- A pool stays sound when the instance is installed that a request did not meet. -/
theorem Sound.install (hs : Sound births s) {place : Option String}
    {table : Table (Instance τ)} {rest : Chain (Instance τ)}
    (hmet : s.met k = []) (htable : table.Sound)
    (hlinks : table.links.Perm (⟨⟨s.made, Shareable.make k⟩, Shareable.hash τ k⟩ :: rest))
    (hrest : Chain.Sheds s.shelf.holds s.pool.table.links rest) :
    Sound (births ++ [k])
      ⟨⟨table⟩, s.shelf.put place ⟨s.made, Shareable.make k⟩, s.made + 1⟩ := by
  have hnew : Born (births ++ [k]) (⟨s.made, Shareable.make k⟩ : Instance τ) k := by
    rw [hs.made]
    exact born_new births k
  -- nothing that is held is like the new instance
  have hunlike : ∀ inst ∈ s.shelf.held, ∀ k', Born births inst k' → ¬ Alike τ k' k := by
    intro inst hheld k' hborn halike
    have := hs.mem_met.mpr ⟨hheld, k', hborn, halike⟩
    rw [hmet] at this
    cases this
  refine ⟨htable, ?_, ?_, ?_, ?_, ?_⟩
  · simp [hs.made]
  · intro link hmem
    rcases List.mem_cons.mp (hlinks.subset hmem) with rfl | hold
    · exact ⟨k, hnew, rfl⟩
    · obtain ⟨k', hborn, hhash⟩ := hs.born link (hrest.subset hold)
      exact ⟨k', hborn.append [k], hhash⟩
  · refine (hlinks.map _).nodup_iff.mpr (List.nodup_cons.mpr ⟨?_, hrest.nodup_map hs.once⟩)
    intro hmem
    obtain ⟨link, hlink, hnumber⟩ := List.mem_map.mp hmem
    obtain ⟨k', hborn, -⟩ := hs.born link (hrest.subset hlink)
    have hlt := hborn.number_lt
    rw [hnumber, hs.made] at hlt
    exact Nat.lt_irrefl _ hlt
  · intro inst h
    rcases Shelf.mem_held_put h with rfl | hold
    · exact ⟨_, hlinks.symm.subset List.mem_cons_self, rfl⟩
    · obtain ⟨link, hlink, rfl⟩ := hs.linked inst hold
      have hkept := hrest.mem_of_live hlink (Shelf.holds_of_mem hold)
      exact ⟨link, hlinks.symm.subset (List.mem_cons_of_mem _ hkept), rfl⟩
  · intro inst h inst' h' k₁ k₂ hborn hborn' halike
    rcases Shelf.mem_held_put h with rfl | hold
    · obtain rfl := hborn.request_eq hnew
      rcases Shelf.mem_held_put h' with rfl | hold'
      · rfl
      · exact absurd ((alike_equivalence hclasses).symm halike)
          (hunlike inst' hold' k₂ (hs.born_of_append hold' hborn'))
    · rcases Shelf.mem_held_put h' with rfl | hold'
      · obtain rfl := hborn'.request_eq hnew
        exact absurd halike (hunlike inst hold k₁ (hs.born_of_append hold hborn))
      · exact hs.unique inst hold inst' hold' k₁ k₂ (hs.born_of_append hold hborn)
          (hs.born_of_append hold' hborn') halike

/-- Requests for values keep a pool sound, if a new instance is entered into the history. -/
theorem Sound.share (hs : Sound births s) (k : κ) (place : Option String) :
    Sound (births ++ (Note.makings (s.share k place).events).map fun _ => k)
      (s.share k place).state := by
  cases Sound.shares hclasses hs k place with
  | hit inst hmet hmade hresult hstate =>
    rw [hmade, hstate, List.map_nil, List.append_nil]
    have hheld : inst ∈ s.shelf.held := (hs.mem_met.mp (mem_met_of_eq hmet)).1
    have hsubset : (s.shelf.put place inst).held ⊆ s.shelf.held := by
      intro inst' h
      rcases Shelf.mem_held_put h with rfl | hold
      · exact hheld
      · exact hold
    exact hs.release hsubset
  | miss table rest hmet hmade hresult hstate htable hlinks hrest =>
    rw [hmade, hstate, List.map_singleton]
    exact Sound.install hclasses hs hmet htable hlinks hrest
  | overflowed hoversized hmet hall =>
    rw [hall, Note.makings_nil, List.map_nil, List.append_nil]
    exact hs

end

end PoolSession

end Ephemera
