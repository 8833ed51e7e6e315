import Ephemera.Proofs.Keyring
import Ephemera.Proofs.Table.Effect
import Ephemera.Session.Table
import Mathlib.Data.Multiset.Filter

/-!
# A table is a bag of living links

For its callers a table is no more than the bag of links whose entries are alive: pairs of a
hash and an entry, each as often as it was put in. `Bag.Step` says what a request does to
such a bag, with no chains, no order and no cleared links; where several entries qualify, a
search may answer with any of them. The main statement is that whatever a caller asks of a
table, with tests of any kind, under any hashes, and whichever keys it lets go of in between,
the answers are those of a run of the bag.

So however often the table grows, no living link is lost, doubled or out of reach, and no
cleared link shows. That a table is no more than a bag has one exception: one that was asked to
start with more than 2^59 chains cannot have any, and installs nothing.
-/

namespace Ephemera

/-- A caller's keys, and the links whose entries are alive. -/
structure Bag where
  /-- the keys -/
  keys : Keyring
  /-- the living links, as often as they were put in -/
  links : Multiset (Link Key)

namespace Bag

variable {τ : Type}

/-- No keys and no links. -/
def empty : Bag :=
  ⟨.empty, 0⟩

/-- The links under a hash whose entries pass a test. -/
def under (hash : UInt64) (passes : Key → Bool) (b : Bag) : Multiset (Link Key) :=
  b.links.filter fun link => link.hash = hash ∧ passes link.referent = true

/-- What one request may lead to: the entries that are made on the way, the answer, and the
bag afterwards. `passes` says which keys pass a test, and `wanted` is the number of chains that
the caller asked for at first. -/
inductive Step (wanted : Nat) (passes : τ → Key → Bool) (b : Bag) :
    TableRequest τ → List Key → Except Fault TableReply → Bag → Prop where
  /-- a key that dies takes its own links with it, and no others -/
  | key (action : KeyAction) :
      Step wanted passes b (.key action) []
        (.ok (.flag (b.keys.perform b.keys.holds action).2))
        ⟨(b.keys.perform b.keys.holds action).1,
          b.links.filter fun link => b.keys.lost action ≠ some link.referent⟩
  /-- a search finds an entry that qualifies -/
  | found (hash : UInt64) (accepts : τ) (entry : Key)
      (hmem : ⟨entry, hash⟩ ∈ b.under hash (passes accepts)) :
      Step wanted passes b (.search hash accepts) [] (.ok (.entry (some entry))) b
  /-- a search finds nothing because nothing qualifies -/
  | missed (hash : UInt64) (accepts : τ) (hnone : b.under hash (passes accepts) = 0) :
      Step wanted passes b (.search hash accepts) [] (.ok (.entry none)) b
  /-- all links count whose entries qualify -/
  | counted (accepts : τ) :
      Step wanted passes b (.count accepts) []
        (.ok (.count (b.links.countP fun link => passes accepts link.referent = true))) b
  /-- an entry that qualifies is obtained, and none is made -/
  | obtained (hash : UInt64) (accepts : τ) (new : String) (entry : Key)
      (hmem : ⟨entry, hash⟩ ∈ b.under hash (passes accepts)) :
      Step wanted passes b (.obtain hash accepts new) [] (.ok (.entry (some entry))) b
  /-- nothing qualifies, so the new entry is made and linked once -/
  | installed (hash : UInt64) (accepts : τ) (new : String) (key : Key)
      (hnew : b.keys.held? new = some key) (hnone : b.under hash (passes accepts) = 0)
      (hfits : wanted ≤ 2 ^ 59) :
      Step wanted passes b (.obtain hash accepts new) [key] (.ok (.entry (some key)))
        { b with links := ⟨key, hash⟩ ::ₘ b.links }
  /-- the one link that qualifies goes -/
  | erased (hash : UInt64) (accepts removable : τ) (entry : Key)
      (hone : b.under hash (fun key => passes accepts key && passes removable key)
        = {⟨entry, hash⟩}) :
      Step wanted passes b (.erase hash accepts removable) [] (.ok (.entry (some entry)))
        { b with links := b.links.erase ⟨entry, hash⟩ }
  /-- nothing goes because nothing qualifies -/
  | spared (hash : UInt64) (accepts removable : τ)
      (hnone : b.under hash (fun key => passes accepts key && passes removable key) = 0) :
      Step wanted passes b (.erase hash accepts removable) [] (.ok (.entry none)) b
  /-- two links qualify where one may, and nothing happens -/
  | obtainRefused (hash : UInt64) (accepts : τ) (new : String)
      (htwo : 2 ≤ (b.under hash (passes accepts)).card) :
      Step wanted passes b (.obtain hash accepts new) [] (.error .duplicate) b
  /-- two links qualify where one may, and nothing happens -/
  | eraseRefused (hash : UInt64) (accepts removable : τ)
      (htwo : 2 ≤ (b.under hash fun key => passes accepts key && passes removable key).card) :
      Step wanted passes b (.erase hash accepts removable) [] (.error .duplicate) b
  /-- as many chains as were asked for cannot be allocated, so nothing is ever linked -/
  | overflowed (hash : UInt64) (accepts : τ) (new : String) (hempty : b.links = 0)
      (hlarge : 2 ^ 59 < wanted) :
      Step wanted passes b (.obtain hash accepts new) [] (.error .overflow) b
  /-- there is no new entry to be had -/
  | unheld (hash : UInt64) (accepts : τ) (new : String) (hnew : b.keys.held? new = none) :
      Step wanted passes b (.obtain hash accepts new) [] (.error (.unheld new)) b

/-- Requests one after the other, with what each of them makes and answers. -/
inductive Run (wanted : Nat) (passes : τ → Key → Bool) :
    Bag → List (TableRequest τ) → List (List Key × Except Fault TableReply) → Bag → Prop where
  | done (b : Bag) : Run wanted passes b [] [] b
  | next {b b' b'' : Bag} {request : TableRequest τ} {requests : List (TableRequest τ)}
      {made : List Key} {answer : Except Fault TableReply}
      {answers : List (List Key × Except Fault TableReply)}
      (hstep : Step wanted passes b request made answer b')
      (hrun : Run wanted passes b' requests answers b'') :
      Run wanted passes b (request :: requests) ((made, answer) :: answers) b''

end Bag

namespace TableSession

variable {τ : Type} {passes : τ → Key → Bool} {s : TableSession} {wanted : Nat}

/-- The living links of a session's table. -/
def living (s : TableSession) : Chain Key :=
  s.table.links.living s.isLive

/-- What a session is to its caller. -/
def bag (s : TableSession) : Bag :=
  ⟨s.keys, s.living⟩

/-- The session after some requests. -/
def after (passes : τ → Key → Bool) (s : TableSession) (requests : List (TableRequest τ)) :
    TableSession :=
  requests.foldl (fun s request => (s.act passes request).state) s

/-- What is made and answered for each of some requests. -/
def answers (passes : τ → Key → Bool) (s : TableSession) :
    List (TableRequest τ) → List (List Key × Except Fault TableReply)
  | [] => []
  | request :: requests =>
    let o := s.act passes request
    (Note.makings o.events, o.result) :: answers passes o.state requests

/-- The table is sound, and what it links to was made by the caller. -/
structure Sound (s : TableSession) : Prop where
  /-- the table is sound -/
  table : s.table.Sound
  /-- keys are numbered by their positions -/
  numbered : s.keys.Numbered
  /-- links lead to keys of the caller -/
  linked : ∀ link ∈ s.table.links, link.referent ∈ s.keys.keys

theorem sound_ofCapacity (request : Nat) : (ofCapacity request).Sound where
  table := Table.sound_ofCapacity request
  numbered := Keyring.numbered_empty
  linked _ h := nomatch h

/-! ## The number of chains to start with -/

@[simp]
theorem initial_act (request : TableRequest τ) :
    (s.act passes request).state.table.initial = s.table.initial := by
  cases request with
  | obtain hash accepts new =>
    rw [act]
    split
    · rfl
    · exact Table.initial_obtain
  | erase hash accepts removable => exact Table.initial_erase
  | key action | search hash accepts | count accepts => rfl

theorem initial_after (requests : List (TableRequest τ)) :
    (s.after passes requests).table.initial = s.table.initial := by
  induction requests generalizing s with
  | nil => rfl
  | cons request requests ih => exact ih.trans (initial_act request)

/-- Whether the chains can be allocated depends on how many were asked for. -/
theorem isOversized_initial (h : s.table.initial = roundedCapacity wanted) :
    isOversized s.table.initial = decide (2 ^ 59 < wanted) := by
  rw [h, isOversized_roundedCapacity]

theorem isOversized_after (passes : τ → Key → Bool) (wanted : Nat)
    (requests : List (TableRequest τ)) :
    isOversized ((ofCapacity wanted).after passes requests).table.initial
      = decide (2 ^ 59 < wanted) :=
  isOversized_initial (initial_after requests)

/-- A table for which no more than 2^59 chains were asked for can always get its chains. -/
theorem fits_after (passes : τ → Key → Bool) (wanted : Nat) (requests : List (TableRequest τ))
    (h : wanted ≤ 2 ^ 59) :
    isOversized ((ofCapacity wanted).after passes requests).table.initial = false := by
  rw [isOversized_after, decide_eq_false (Nat.not_lt_of_le h)]

/-! ## What a request can mean -/

/-- The links of the bag that a request can mean. -/
theorem under_eq (hash : UInt64) (accepts : Key → Bool) (s : TableSession) :
    s.bag.under hash accepts
      = (s.living.filter fun link => link.hash == hash && accepts link.referent : Chain Key) := by
  rw [Bag.under, bag, Multiset.filter_coe]
  congr 1
  refine List.filter_congr fun link _ => ?_
  rw [Bool.eq_iff_iff]
  simp

/-- What the table chooses from is what the bag has. -/
theorem map_under (hash : UInt64) (accepts : Key → Bool) (s : TableSession) :
    (s.bag.under hash accepts).map Link.referent
      = ((s.table.links.candidates s.isLive hash).filter accepts : List Key) := by
  rw [under_eq, Chain.filter_candidates]
  rfl

/-- As many links can be meant as candidates pass. -/
theorem card_under (hash : UInt64) (accepts : Key → Bool) (s : TableSession) :
    (s.bag.under hash accepts).card
      = ((s.table.links.candidates s.isLive hash).filter accepts).length := by
  rw [← Multiset.card_map Link.referent, map_under, Multiset.coe_card]

theorem mem_under {hash : UInt64} {accepts : Key → Bool} {entry : Key} {rest : List Key}
    (h : (s.table.links.candidates s.isLive hash).filter accepts = entry :: rest) :
    ⟨entry, hash⟩ ∈ s.bag.under hash accepts := by
  have hmem : entry ∈ (s.table.links.candidates s.isLive hash).filter accepts := by
    rw [h]
    exact List.mem_cons_self
  obtain ⟨hcandidate, haccepts⟩ := List.mem_filter.mp hmem
  obtain ⟨hlink, hlive⟩ := Chain.mem_candidates.mp hcandidate
  have hliving : (⟨entry, hash⟩ : Link Key) ∈ s.living := List.mem_filter.mpr ⟨hlink, hlive⟩
  exact Multiset.mem_filter.mpr ⟨hliving, rfl, haccepts⟩

theorem under_eq_zero {hash : UInt64} {accepts : Key → Bool}
    (h : (s.table.links.candidates s.isLive hash).filter accepts = []) :
    s.bag.under hash accepts = 0 := by
  have := map_under hash accepts s
  rw [h] at this
  exact Multiset.map_eq_zero.mp this

theorem under_eq_singleton {hash : UInt64} {accepts : Key → Bool} {entry : Key}
    (h : (s.table.links.candidates s.isLive hash).filter accepts = [entry]) :
    s.bag.under hash accepts = {⟨entry, hash⟩} := by
  have := map_under hash accepts s
  rw [h] at this
  obtain ⟨⟨referent, hash'⟩, hlink, rfl⟩ := Multiset.map_eq_singleton.mp this
  have hmem : (⟨referent, hash'⟩ : Link Key) ∈ s.bag.under hash accepts := by
    rw [hlink]
    exact Multiset.mem_singleton_self _
  obtain rfl : hash' = hash := (Multiset.mem_filter.mp hmem).2.1
  exact hlink

theorem two_le_card_under {hash : UInt64} {accepts : Key → Bool} {entry entry' : Key}
    {rest : List Key}
    (h : (s.table.links.candidates s.isLive hash).filter accepts = entry :: entry' :: rest) :
    2 ≤ (s.bag.under hash accepts).card := by
  have hcard := congrArg Multiset.card (map_under hash accepts s)
  rw [Multiset.card_map, h, Multiset.coe_card] at hcard
  rw [hcard]
  exact Nat.le_add_left 2 rest.length

/-! ## One request -/

/-- The bag does not see that cleared links go. -/
theorem bag_of_sheds {table : Table Key} (h : Chain.Sheds s.isLive s.table.links table.links) :
    ({ s with table } : TableSession).bag = s.bag := by
  have hperm := h.living_perm fun _ _ hlive => hlive
  exact congrArg (Bag.mk s.keys) (Multiset.coe_eq_coe.mpr hperm.symm)

/-- Actions on keys change the bag only by the death of a key. -/
theorem bag_key (hs : s.Sound) (action : KeyAction) :
    ({ s with keys := (s.keys.perform s.isLive action).1 } : TableSession).bag
      = ⟨(s.keys.perform s.isLive action).1,
          s.bag.links.filter fun link => s.keys.lost action ≠ some link.referent⟩ := by
  apply congrArg (Bag.mk _)
  rw [bag, Multiset.filter_coe, living, living, Chain.living, Chain.living, List.filter_filter]
  refine congrArg _ (List.filter_congr fun link hmem => ?_)
  have hlive := Keyring.holds_perform hs.numbered action (hs.linked link hmem)
  change (s.keys.perform s.keys.holds action).1.holds link.referent = _
  rw [hlive, Bool.and_comm]
  simp [isLive]

theorem Sound.act (hs : s.Sound) (request : TableRequest τ) :
    (s.act passes request).state.Sound := by
  cases request with
  | key action =>
    refine ⟨hs.table, hs.numbered.perform s.isLive action, fun link hmem => ?_⟩
    exact (s.keys.keys_perform s.isLive action).subset (hs.linked link hmem)
  | search hash accepts => exact hs
  | count accepts => exact hs
  | obtain hash accepts new =>
    rw [TableSession.act]
    split
    · exact hs
    · next key hkey =>
      refine ⟨hs.table.obtain, hs.numbered, fun link hmem => ?_⟩
      dsimp only at hmem
      cases hfits : isOversized s.table.initial with
      | true =>
        rw [hs.table.obtain_of_oversized hfits] at hmem
        exact hs.linked link hmem
      | false =>
        cases hs.table.obtains hfits s.isLive hash (passes accepts) key with
        | found entry rest hentries houtcome hlinks hmade =>
          exact hs.linked link (hlinks.subset hmem)
        | installed rest hentries houtcome hlinks hrest hmade =>
          -- the new link is for a key that the caller holds
          rcases List.mem_cons.mp (hlinks.subset hmem) with rfl | hold
          · exact Keyring.mem_keys_of_held? hkey
          · exact hs.linked link (hrest.subset hold)
        | refused entry entry' rest hentries houtcome hlinks hmade =>
          rw [hlinks] at hmem
          exact hs.linked link hmem
  | erase hash accepts removable =>
    refine ⟨hs.table.erase, hs.numbered, fun link hmem => ?_⟩
    cases hs.table.erases s.isLive hash (passes accepts) (passes removable) with
    | missed hentries houtcome hlinks => exact hs.linked link (hlinks.subset hmem)
    | taken entry hentries houtcome hlinks =>
      exact hs.linked link (hlinks.subset (List.mem_cons_of_mem _ hmem))
    | refused entry entry' rest hentries houtcome htable =>
      rw [TableSession.act] at hmem
      dsimp only at hmem
      rw [htable] at hmem
      exact hs.linked link hmem

/-- A table that can have chains finds or installs as its bag does. -/
theorem step_obtain_of_fits (hs : s.Sound) (hfits : isOversized s.table.initial = false)
    (hwanted : wanted ≤ 2 ^ 59) {new : String} {key : Key} (hkey : s.keys.held? new = some key)
    (hash : UInt64) (accepts : τ) :
    let o := s.table.obtain s.isLive hash (passes accepts) key
    Bag.Step wanted passes s.bag (.obtain hash accepts new) (Note.makings o.notes)
      (o.outcome.map fun e => .entry (some e.target))
      ({ s with table := o.table } : TableSession).bag := by
  dsimp only
  cases hs.table.obtains hfits s.isLive hash (passes accepts) key with
  | found entry rest hentries houtcome hlinks hmade =>
    rw [hmade, houtcome, bag_of_sheds hlinks]
    exact .obtained hash accepts new entry (mem_under hentries)
  | installed rest hentries houtcome hlinks hrest hmade =>
    rw [hmade, houtcome]
    -- some cleared links may have gone, but what is alive is the same and one more
    have hliving : (s.table.obtain s.isLive hash (passes accepts) key).table.links.living s.isLive
        |>.Perm (⟨key, hash⟩ :: s.living) := by
      have hlive : s.isLive key = true := Keyring.holds_of_held? hkey
      have hkept := (hrest.living_perm fun _ _ h => h).symm.cons ⟨key, hash⟩
      refine (hlinks.filter _).trans ?_
      change (Chain.living s.isLive (⟨key, hash⟩ :: rest)).Perm _
      rw [Chain.living_cons_of_live hlive]
      exact hkept
    have hbag : ({ s with table := (s.table.obtain s.isLive hash (passes accepts) key).table } :
        TableSession).bag = { s.bag with links := ⟨key, hash⟩ ::ₘ s.bag.links } :=
      congrArg (Bag.mk s.keys) (Multiset.coe_eq_coe.mpr hliving)
    rw [hbag]
    exact .installed hash accepts new key hkey (under_eq_zero hentries) hwanted
  | refused entry entry' rest hentries houtcome hlinks hmade =>
    have hsheds : Chain.Sheds s.isLive s.table.links
        (s.table.obtain s.isLive hash (passes accepts) key).table.links := by
      rw [hlinks]
      exact Chain.Sheds.refl _
    rw [hmade, houtcome, bag_of_sheds hsheds]
    exact .obtainRefused hash accepts new (two_le_card_under hentries)

theorem step_obtain (hs : s.Sound) (hinitial : s.table.initial = roundedCapacity wanted)
    (hash : UInt64) (accepts : τ) (new : String) :
    let o := s.act passes (.obtain hash accepts new)
    Bag.Step wanted passes s.bag (.obtain hash accepts new) (Note.makings o.events) o.result
      o.state.bag := by
  have hoversized := isOversized_initial hinitial
  rw [TableSession.act]
  split
  · next hnew => exact .unheld hash accepts new hnew
  · next key hkey =>
    by_cases hlarge : 2 ^ 59 < wanted
    · rw [decide_eq_true hlarge] at hoversized
      have hempty : s.bag.links = 0 := by
        rw [bag, living, hs.table.links_of_oversized hoversized]
        rfl
      rw [hs.table.obtain_of_oversized hoversized]
      exact .overflowed hash accepts new hempty hlarge
    · rw [decide_eq_false hlarge] at hoversized
      exact step_obtain_of_fits hs hoversized (Nat.le_of_not_lt hlarge) hkey hash accepts

theorem step_erase (hs : s.Sound) (hash : UInt64) (accepts removable : τ) :
    let o := s.act passes (.erase hash accepts removable)
    Bag.Step wanted passes s.bag (.erase hash accepts removable) (Note.makings o.events) o.result
      o.state.bag := by
  rw [TableSession.act]
  dsimp only
  have hmade : Note.makings
      (s.table.erase s.isLive hash (passes accepts) (passes removable)).notes = [] :=
    Table.makings_erase ..
  rw [hmade]
  cases hs.table.erases s.isLive hash (passes accepts) (passes removable) with
  | missed hentries houtcome hlinks =>
    rw [houtcome, bag_of_sheds hlinks]
    exact .spared hash accepts removable (under_eq_zero hentries)
  | taken entry hentries houtcome hlinks =>
    rw [houtcome]
    have hone := under_eq_singleton hentries
    have hlive : s.isLive entry = true := by
      have hmem := Multiset.mem_filter.mp (mem_under hentries)
      exact (List.mem_filter.mp hmem.1).2
    have hliving : s.living.Perm (⟨entry, hash⟩ ::
        (s.table.erase s.isLive hash (passes accepts) (passes removable)).table.links.living
          s.isLive) := by
      have := hlinks.living_perm fun _ _ h => h
      rwa [Chain.living_cons_of_live hlive] at this
    have hrest : s.bag.links.erase ⟨entry, hash⟩
        = ((s.table.erase s.isLive hash (passes accepts) (passes removable)).table.links.living
          s.isLive : Chain Key) := by
      have : s.bag.links = _ := Multiset.coe_eq_coe.mpr hliving
      rw [this, ← Multiset.cons_coe]
      exact Multiset.erase_cons_head ..
    -- the bag has no other link to take, so it takes the same one
    have hstep : Bag.Step wanted passes s.bag (.erase hash accepts removable) [] _ _ :=
      .erased hash accepts removable entry hone
    rw [hrest] at hstep
    exact hstep
  | refused entry entry' rest hentries houtcome htable =>
    rw [houtcome, htable]
    exact .eraseRefused hash accepts removable (two_le_card_under hentries)

/-- Every request is a step of the bag. -/
theorem step_act (hs : s.Sound) (hinitial : s.table.initial = roundedCapacity wanted)
    (request : TableRequest τ) :
    let o := s.act passes request
    Bag.Step wanted passes s.bag request (Note.makings o.events) o.result o.state.bag := by
  cases request with
  | key action =>
    have hstep : Bag.Step wanted passes s.bag (.key action) [] _ _ := .key action
    change Bag.Step wanted passes s.bag (.key action) [] _
      ({ s with keys := (s.keys.perform s.isLive action).1 } : TableSession).bag
    rw [bag_key hs action]
    exact hstep
  | obtain hash accepts new => exact step_obtain hs hinitial hash accepts new
  | erase hash accepts removable => exact step_erase hs hash accepts removable
  | search hash accepts =>
    rw [TableSession.act, Table.search]
    dsimp only
    rw [hs.table.candidates_eq, Note.makings_asked, ← List.head?_filter]
    cases hentries : (s.table.links.candidates s.isLive hash).filter (passes accepts) with
    | nil => exact .missed hash accepts (under_eq_zero hentries)
    | cons entry rest => exact .found hash accepts entry (mem_under hentries)
  | count accepts =>
    rw [TableSession.act, Table.count]
    dsimp only
    rw [Note.makings_asked, List.countP_map]
    have hstep : Bag.Step wanted passes s.bag (.count accepts) [] _ _ := .counted accepts
    rw [bag, Multiset.coe_countP] at hstep
    simp only [Bool.decide_eq_true] at hstep
    exact hstep

/-! ## Any number of requests -/

theorem Sound.runs (hs : s.Sound) (hinitial : s.table.initial = roundedCapacity wanted)
    (requests : List (TableRequest τ)) :
    Bag.Run wanted passes s.bag requests (s.answers passes requests)
      (s.after passes requests).bag := by
  induction requests generalizing s with
  | nil => exact .done s.bag
  | cons request requests ih =>
    exact .next (step_act hs hinitial request)
      (ih (hs.act request) ((initial_act request).trans hinitial))

/-- For its caller a table is a bag of living links: in every run the table answers as the bag
may, makes an entry when the bag does, and has the same living links afterwards. -/
theorem answers_run (passes : τ → Key → Bool) (request : Nat)
    (requests : List (TableRequest τ)) :
    Bag.Run request passes .empty requests ((ofCapacity request).answers passes requests)
      ((ofCapacity request).after passes requests).bag :=
  (sound_ofCapacity request).runs rfl requests

end TableSession

end Ephemera
