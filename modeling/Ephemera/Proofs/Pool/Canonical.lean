import Ephemera.Descriptor
import Ephemera.Proofs.Pool.Sound
import Ephemera.Word

/-!
# Values that are alike are one object

What a caller relies on in a pool is that instances can be compared in place of values. At any
time no two living instances are alike; a request is met by the living instance of its class,
and a new one is made, once, only if there is none. `Canonical` says this of a state, and it
holds of whatever state a caller can bring about, for words and for any other values whose
answers to requests fall into classes.

A caller who wanted more chains than can be allocated gets no instance at all: such a pool answers
every request with the same fault and stays as it is.
-/

namespace Ephemera

namespace Descriptor

theorem sameAll_iff {ks ks' : List Key} :
    sameAll ks ks' = true ↔ ks.map Key.address = ks'.map Key.address := by
  induction ks generalizing ks' with
  | nil => cases ks' <;> simp [sameAll]
  | cons k ks ih => cases ks' <;> simp [sameAll, ih]

/-- Descriptors are the same if their components are at the same addresses. -/
theorem same_iff {d d' : Descriptor} : d.same d' = true ↔
    d.result.address = d'.result.address ∧
      d.params.map Key.address = d'.params.map Key.address := by
  rw [same, Bool.and_eq_true, Key.same_iff, sameAll_iff]

end Descriptor

namespace PoolSession

variable {κ τ : Type} [Shareable κ τ] {births : List κ} {s : PoolSession τ}

/-! ## Runs -/

/-- The requests for which an action makes instances. -/
def born (s : PoolSession τ) : PoolAction κ → List κ
  | .share k place => (Note.makings (s.act (.share k place)).events).map fun _ => k
  | _ => []

/-- The states that a caller can bring about who asked for so many chains, each with the
requests for which instances have been made. -/
inductive Reached (request : Nat) : List κ → PoolSession τ → Prop where
  | start : Reached request [] (ofCapacity request)
  | act {births : List κ} {s : PoolSession τ} (h : Reached request births s)
      (action : PoolAction κ) : Reached request (births ++ s.born action) (s.act action).state

/-- What callers can rely on in a state who asked for `wanted` chains. `alike` tells the classes of
requests, and instance `n` was made for the `n`-th request of `births`. -/
structure Canonical (alike : κ → κ → Prop) (wanted : Nat) (births : List κ) (s : PoolSession τ) :
    Prop where
  /-- a living instance has the value that was made for its request -/
  born : ∀ inst ∈ s.shelf.held, ∃ k, Born births inst k
  /-- no two living instances are alike -/
  unique : ∀ inst ∈ s.shelf.held, ∀ inst' ∈ s.shelf.held, ∀ k k', Born births inst k →
    Born births inst' k' → alike k k' → inst = inst'
  /-- a request is met by the living instance of its class, and nothing is made -/
  hit : ∀ k place, ∀ inst ∈ s.shelf.held, ∀ k', Born births inst k' → alike k' k →
    (s.act (.share k place)).result = .ok (.instance inst) ∧
      Note.makings (s.act (.share k place)).events = []
  /-- if there is none, one instance is made for the request, with a number never used before -/
  miss : wanted ≤ 2 ^ 59 → ∀ k place,
    (∀ inst ∈ s.shelf.held, ∀ k', Born births inst k' → ¬ alike k' k) →
    (s.act (.share k place)).result = .ok (.instance ⟨births.length, Shareable.make k⟩) ∧
      Note.makings (s.act (.share k place)).events = [⟨births.length, Shareable.make k⟩]
  /-- the instances in places count, each once -/
  count : ∃ instances : List (Instance τ), instances.Nodup ∧
    (∀ inst, inst ∈ instances ↔ inst ∈ s.shelf.held) ∧
      (s.act .count).result = .ok (.count instances.length)
  /-- where more chains were asked for than can be allocated, no instance is ever held, and requests
  end in a fault before anything is asked, made or changed -/
  overflowed : 2 ^ 59 < wanted → s.shelf.held = [] ∧
    ∀ k place, s.act (.share k place) = ⟨s, [], .error .overflow⟩
  /-- no other action ends in a fault -/
  answered : ∀ action : PoolAction κ, (∃ reply, (s.act action).result = .ok reply) ∨
    2 ^ 59 < wanted ∧ ∃ k place, action = .share k place
  /-- this is what the fault says -/
  message : Fault.overflow.message = "capacity overflow"

/-! ## Every state is sound -/

/-- No request changes the number of chains that the table is to start with. -/
theorem initial_act (s : PoolSession τ) (action : PoolAction κ) :
    (s.act action).state.pool.table.initial = s.pool.table.initial := by
  cases action with
  | share k place =>
    rw [act, share]
    split <;> exact Pool.initial_share ..
  | clear place | count | isEmpty | capacity | describe isExpanded => rfl

theorem Reached.isOversized_eq {request : Nat} (h : Reached request births s) :
    isOversized s.pool.table.initial = decide (2 ^ 59 < request) := by
  induction h with
  | start => exact isOversized_roundedCapacity request
  | act h action ih => rw [initial_act, ih]

/-- Emptying a place keeps a pool sound. -/
theorem Sound.clear (hs : Sound births s) (place : String) :
    Sound births { s with shelf := s.shelf.clear place } :=
  hs.release (Shelf.held_clear_subset place s.shelf)

/-- The number of living instances is the number of different ones in places. -/
theorem Sound.count (hs : Sound births s) : ∃ instances : List (Instance τ), instances.Nodup ∧
    (∀ inst, inst ∈ instances ↔ inst ∈ s.shelf.held) ∧
      s.pool.count s.shelf.holds = instances.length := by
  refine ⟨(s.pool.table.links.living s.shelf.holds).map Link.referent, ?_, ?_, ?_⟩
  · exact hs.nodup_referents.sublist (List.filter_sublist.map Link.referent)
  · intro inst
    constructor
    · intro h
      obtain ⟨link, hmem, rfl⟩ := List.mem_map.mp h
      obtain ⟨hlink, hholds⟩ := List.mem_filter.mp hmem
      exact hs.held_of_holds hlink hholds
    · intro h
      obtain ⟨link, hlink, rfl⟩ := hs.linked inst h
      exact List.mem_map_of_mem (List.mem_filter.mpr ⟨hlink, Shelf.holds_of_mem h⟩)
  · rw [Pool.count, Table.count]
    exact congrFun List.countP_true _

section

variable
  (hclasses : Equivalence fun k k' : κ => Shareable.answers (Shareable.make k : τ) k' = true)

include hclasses

/-- Every action keeps a pool sound. -/
theorem Sound.act (hs : Sound births s) (action : PoolAction κ) :
    Sound (births ++ s.born action) (s.act action).state := by
  cases action with
  | share k place => exact Sound.share hclasses hs k place
  | clear place =>
    simp only [PoolSession.born, List.append_nil]
    exact hs.clear place
  | count | isEmpty | capacity | describe isExpanded =>
    simp only [PoolSession.born, List.append_nil]
    exact hs

theorem Reached.sound {request : Nat} (h : Reached request births s) : Sound births s := by
  induction h with
  | start => exact sound_ofCapacity request
  | act h action ih => exact Sound.act hclasses ih action

/-- Callers can rely on a sound pool. -/
theorem Sound.canonical (hs : Sound births s) {wanted : Nat}
    (hwanted : isOversized s.pool.table.initial = decide (2 ^ 59 < wanted)) :
    Canonical (Alike τ) wanted births s where
  born _ h := hs.born_of_held h
  unique := hs.unique
  hit := by
    intro k place inst hheld k' hborn halike
    have hmem := hs.mem_met.mpr ⟨hheld, k', hborn, halike⟩
    cases Sound.shares hclasses hs k place with
    | hit inst' hmet hmade hresult hstate =>
      -- what the search met is all that is held and alike
      rw [hmet, List.mem_singleton] at hmem
      rw [hmem]
      exact ⟨hresult, hmade⟩
    | miss table rest hmet hmade hresult hstate htable hlinks hrest =>
      rw [hmet] at hmem
      cases hmem
    | overflowed hoversized hmet hall =>
      rw [hmet] at hmem
      cases hmem
  miss := by
    intro hfits k place hnone
    rw [← hs.made]
    cases Sound.shares hclasses hs k place with
    | hit inst hmet hmade hresult hstate =>
      obtain ⟨hheld, k', hborn, halike⟩ := hs.mem_met.mp (mem_met_of_eq hmet)
      -- something alike is held then, against `hnone`
      exact absurd halike (hnone inst hheld k' hborn)
    | miss table rest hmet hmade hresult hstate htable hlinks hrest => exact ⟨hresult, hmade⟩
    | overflowed hoversized hmet hall =>
      rw [hwanted, decide_eq_true_eq] at hoversized
      exact absurd hoversized (Nat.not_lt_of_le hfits)
  count := by
    obtain ⟨instances, hnodup, hmem, hcount⟩ := hs.count
    refine ⟨instances, hnodup, hmem, ?_⟩
    rw [← hcount]
    rfl
  overflowed := by
    intro hlarge
    have hoversized := hwanted.trans (decide_eq_true hlarge)
    exact ⟨hs.held_of_oversized hoversized, hs.share_of_oversized hoversized⟩
  answered := by
    intro action
    cases action with
    | share k place =>
      cases Sound.shares hclasses hs k place with
      | hit inst hmet hmade hresult hstate => exact .inl ⟨_, hresult⟩
      | miss table rest hmet hmade hresult hstate htable hlinks hrest => exact .inl ⟨_, hresult⟩
      | overflowed hoversized hmet hall =>
        rw [hwanted, decide_eq_true_eq] at hoversized
        exact .inr ⟨hoversized, k, place, rfl⟩
    | clear place | count | isEmpty | capacity | describe isExpanded => exact .inl ⟨_, rfl⟩
  message := rfl

end

/-! ## Words and other values -/

/-- Words fall into classes by their letters. -/
theorem word_classes : Equivalence fun k k' : WordRequest =>
    Shareable.answers (Shareable.make k : Word) k' = true where
  refl k := beq_self_eq_true (foldCase k.text)
  symm h := beq_iff_eq.mpr (beq_iff_eq.mp h).symm
  trans h h' := beq_iff_eq.mpr ((beq_iff_eq.mp h).trans (beq_iff_eq.mp h'))

/-- For words, to be alike is to have one hash and the same letters. -/
theorem alike_word : (Alike Word : WordRequest → WordRequest → Prop)
    = fun k k' => k.hash = k'.hash ∧ foldCase k.text = foldCase k'.text := by
  funext k k'
  simp only [Alike, Shareable.hash, Shareable.answers, Shareable.make, beq_iff_eq]

/-- Descriptors fall into classes by the addresses of their components. -/
theorem descriptor_classes : Equivalence fun d d' : Descriptor =>
    Shareable.answers (Shareable.make d : Descriptor) d' = true where
  refl d := Descriptor.same_iff.mpr ⟨rfl, rfl⟩
  symm h := by
    obtain ⟨hresult, hparams⟩ := Descriptor.same_iff.mp h
    exact Descriptor.same_iff.mpr ⟨hresult.symm, hparams.symm⟩
  trans h h' := by
    obtain ⟨hresult, hparams⟩ := Descriptor.same_iff.mp h
    obtain ⟨hresult', hparams'⟩ := Descriptor.same_iff.mp h'
    exact Descriptor.same_iff.mpr ⟨hresult.trans hresult', hparams.trans hparams'⟩

/-- In every state that a caller can bring about, words with one hash and the same letters are
one object; and the same goes for any values whose answers to requests fall into classes. -/
theorem reached_canonical :
    (∀ (request : Nat) (births : List WordRequest) (s : PoolSession Word),
      Reached request births s →
        Canonical (fun k k' => k.hash = k'.hash ∧ foldCase k.text = foldCase k'.text)
          request births s) ∧
    ∀ (κ τ : Type) [Shareable κ τ],
      (Equivalence fun k k' : κ => Shareable.answers (Shareable.make k : τ) k' = true) →
        ∀ (request : Nat) (births : List κ) (s : PoolSession τ), Reached request births s →
          Canonical
            (fun k k' => Shareable.hash τ k = Shareable.hash τ k' ∧
              Shareable.answers (Shareable.make k : τ) k' = true) request births s := by
  constructor
  · intro request births s h
    rw [← alike_word]
    exact Sound.canonical word_classes (h.sound word_classes) h.isOversized_eq
  · intro κ τ _ hclasses request births s h
    exact Sound.canonical hclasses (Reached.sound hclasses h) h.isOversized_eq

/-- No word is held, and one is asked for, but none is made. -/
theorem miss_unmade :
    let s : PoolSession Word := ofCapacity (2 ^ 60)
    let o := s.act (.share ⟨1, "x"⟩ (some "s"))
    s.shelf.held = [] ∧ o.result = .error .overflow ∧ Note.makings o.events = [] := by
  decide

/-- A word in another spelling is met by the word that is there; and a pool of descriptors. -/
theorem reached_canonical_examples :
    (let s := ((ofCapacity 0 : PoolSession Word).act (.share ⟨7, "Ab"⟩ (some "x"))).state
    (s.act (.share ⟨7, "aB"⟩ none)).result = .ok (.instance ⟨0, ⟨"Ab"⟩⟩)) ∧
    let d : Descriptor := ⟨⟨0, "k", "t", 64⟩, []⟩
    let s := ((ofCapacity 0 : PoolSession Descriptor).act (.share d (some "x"))).state
    (s.act (.share d none)).result = .ok (.instance ⟨0, d⟩) := by
  constructor
  · have hreached : Reached 0 _ _ := .act (τ := Word) .start (.share ⟨7, "Ab"⟩ (some "x"))
    have hcanonical := reached_canonical.1 0 _ _ hreached
    have hletters : foldCase "Ab" = foldCase "aB" := by
      rw [← String.toList_inj, foldCase, foldCase, String.toList_map, String.toList_map]
      rfl
    exact (hcanonical.hit ⟨7, "aB"⟩ none ⟨0, ⟨"Ab"⟩⟩ (by decide) ⟨7, "Ab"⟩ ⟨rfl, rfl⟩
      ⟨rfl, hletters⟩).1
  · intro d s
    have hreached : Reached 0 _ _ := .act (τ := Descriptor) .start (.share d (some "x"))
    have hcanonical := reached_canonical.2 Descriptor Descriptor descriptor_classes 0 _ _ hreached
    exact (hcanonical.hit d none ⟨0, d⟩ (by decide) d ⟨by decide, rfl⟩ (by decide)).1

end PoolSession

end Ephemera
