import Ephemera.Proofs.Table.Load

/-!
# Searching, tidying and growing agree

Three loops look for an entry: a search stops at the first that is accepted, tidying does the same
while it builds a chain anew, and growing goes through all of them. What they answer is decided by
the candidates among all links, so they agree wherever at most one candidate is accepted; and
whether an entry is made or not they agree on in any case. Of several candidates that are accepted
a search and tidying choose the first, and no request that finds one of them puts them in another
order, so a search afterwards finds the answer again.
-/

namespace Ephemera

namespace Table

variable {α : Type} {live accepts : α → Bool} {hash : UInt64} {new entry : α} {t : Table α}
  {o o' : Obtained α} {e : Entry α}

/-! ## What decides the answer -/

/-- A search answers with the first candidate of all links that is accepted. -/
theorem Sound.search_eq (hs : t.Sound) : (t.search live hash accepts).1
    = ((t.links.candidates live hash).filter accepts).head? := by
  rw [search, hs.candidates_eq, List.head?_filter]

/-- An entry is made if and only if it joins the links. -/
theorem Obtains.makings_eq (h : Obtains live hash accepts new t o) :
    Note.makings o.notes = (t.joining live hash accepts new).map Link.referent := by
  cases h with
  | found entry rest hentries houtcome hlinks hmade =>
    rw [hmade, joining_of_cons hentries, List.map_nil]
  | installed rest hentries houtcome hlinks hrest hmade =>
    rw [hmade, joining_of_nil hentries, List.map_singleton]
  | refused entry entry' rest hentries houtcome hlinks hmade =>
    rw [hmade, joining_of_cons hentries, List.map_nil]

/-- The living links afterwards are those before and the one that joins them. -/
theorem Obtains.living_perm (h : Obtains live hash accepts new t o) :
    (o.table.links.living live).Perm
      ((t.joining live hash accepts new).living live ++ t.links.living live) := by
  cases h with
  | found entry rest hentries houtcome hlinks hmade =>
    rw [joining_of_cons hentries]
    exact (hlinks.living_perm fun _ _ hlive => hlive).symm
  | installed rest hentries houtcome hlinks hrest hmade =>
    have hkept := hrest.living_perm fun _ _ hlive => hlive
    have hjoined := hlinks.filter fun link => live link.referent
    rw [joining_of_nil hentries]
    refine hjoined.trans ?_
    change (Chain.living live ([⟨new, hash⟩] ++ rest)).Perm _
    rw [Chain.living_append]
    exact hkept.symm.append_left _
  | refused entry entry' rest hentries houtcome hlinks hmade =>
    rw [joining_of_cons hentries, hlinks]
    exact List.Perm.refl _

/-- An answer is the first candidate that is accepted, and the new entry where there is none. -/
theorem Obtains.answer_eq (h : Obtains live hash accepts new t o) (houtcome : o.outcome = .ok e) :
    e = match ((t.links.candidates live hash).filter accepts).head? with
      | some entry => ⟨entry, false⟩
      | none => ⟨new, true⟩ := by
  cases h with
  | found entry rest hentries houtcome' hlinks hmade =>
    rw [hentries]
    exact Except.ok.inj (houtcome.symm.trans houtcome')
  | installed rest hentries houtcome' hlinks hrest hmade =>
    rw [hentries]
    exact Except.ok.inj (houtcome.symm.trans houtcome')
  | refused entry entry' rest hentries houtcome' hlinks hmade =>
    rw [houtcome] at houtcome'
    cases houtcome'

/-- Where one candidate is accepted at most, there is an answer. -/
theorem Obtains.exists_of_few (h : Obtains live hash accepts new t o)
    (hfew : ((t.links.candidates live hash).filter accepts).length ≤ 1) :
    ∃ e, o.outcome = .ok e := by
  cases h with
  | found entry rest hentries houtcome hlinks hmade => exact ⟨_, houtcome⟩
  | installed rest hentries houtcome hlinks hrest hmade => exact ⟨_, houtcome⟩
  | refused entry entry' rest hentries houtcome hlinks hmade =>
    rw [hentries, List.length_cons, List.length_cons] at hfew
    omega

/-- Where one candidate is accepted at most, it does not matter how a request is met. -/
theorem Obtains.agree (h : Obtains live hash accepts new t o)
    (h' : Obtains live hash accepts new t o')
    (hfew : ((t.links.candidates live hash).filter accepts).length ≤ 1) :
    o.outcome = o'.outcome ∧ Note.makings o.notes = Note.makings o'.notes ∧
      (o.table.links.living live).Perm (o'.table.links.living live) := by
  obtain ⟨e, houtcome⟩ := h.exists_of_few hfew
  obtain ⟨e', houtcome'⟩ := h'.exists_of_few hfew
  refine ⟨?_, h.makings_eq.trans h'.makings_eq.symm, h.living_perm.trans h'.living_perm.symm⟩
  rw [houtcome, houtcome', h.answer_eq houtcome, h'.answer_eq houtcome']

/-! ## Searching before -/

/-- Where there is something to be found, the chains could be allocated. -/
theorem Sound.fits_of_found (hs : t.Sound) (hfind : (t.search live hash accepts).1 = some entry) :
    isOversized t.initial = false := by
  rw [← Bool.not_eq_true]
  intro hoversized
  rw [hs.search_eq, hs.links_of_oversized hoversized] at hfind
  cases hfind

/-- What a search finds is the answer, unless a second candidate keeps a crowded table from
answering. -/
theorem Sound.obtain_of_found (hs : t.Sound) (htwo : 2 ≤ t.initial)
    (hfind : (t.search live hash accepts).1 = some entry) :
    let o := t.obtain live hash accepts new
    Note.makings o.notes = [] ∧
      (o.outcome = .ok ⟨entry, false⟩ ∨
        o.outcome = .error .duplicate ∧ t.capacity / 2 ≤ t.size ∧
          2 ≤ ((t.links.candidates live hash).filter accepts).length) := by
  have hfits := hs.fits_of_found hfind
  have hobtains := hs.obtains hfits live hash accepts new
  rw [hs.search_eq] at hfind
  have hentries := List.eq_cons_of_mem_head? hfind
  refine ⟨by rw [hobtains.makings_eq, joining_of_cons hentries, List.map_nil], ?_⟩
  have hanswer : ∀ e, (t.obtain live hash accepts new).outcome = .ok e → e = ⟨entry, false⟩ := by
    intro e houtcome
    rw [hobtains.answer_eq houtcome, hfind]
  rw [hs.crowded_iff htwo]
  cases hs.turns htwo live hash accepts new with
  | doubled e hcrowded hfew houtcome hcapacity => exact .inl (hanswer e houtcome ▸ houtcome)
  | refused hcrowded hmany houtcome htable hmade => exact .inr ⟨houtcome, hcrowded, hmany⟩
  | tidied e _ hroomy houtcome hcapacity => exact .inl (hanswer e houtcome ▸ houtcome)
  | overflowed hoversized =>
    rw [hfits] at hoversized
    cases hoversized

/-- What a search does not find is made, once. -/
theorem Sound.obtain_of_missed (hs : t.Sound) (hfits : isOversized t.initial = false)
    (hfind : (t.search live hash accepts).1 = none) :
    let o := t.obtain live hash accepts new
    o.outcome = .ok ⟨new, true⟩ ∧ Note.makings o.notes = [new] := by
  have hobtains := hs.obtains hfits live hash accepts new
  rw [hs.search_eq] at hfind
  have hnone := List.head?_eq_none_iff.mp hfind
  obtain ⟨e, houtcome⟩ := hobtains.exists_of_few (by rw [hnone]; exact Nat.zero_le 1)
  refine ⟨?_, by rw [hobtains.makings_eq, joining_of_nil hnone, List.map_singleton]⟩
  rw [houtcome, hobtains.answer_eq houtcome, hfind]

/-- A table that is made tidy is asked about as in a search. -/
theorem Sound.askings_obtain (hs : t.Sound) (hroomy : t.size < t.capacity / 2) :
    Note.askings (t.obtain live hash accepts new).notes
      = Note.askings (t.search live hash accepts).2 := by
  cases hfits : isOversized t.initial with
  | true =>
    -- neither of them has anything to ask about
    rw [hs.obtain_of_oversized hfits, search, hs.candidates_eq, hs.links_of_oversized hfits]
    rfl
  | false =>
    obtain ⟨chains, hchains, -⟩ := hs.chainsOrNew_eq hfits
    rw [obtain_of_roomy hchains hroomy, ← hs.search_of_chainsOrNew hfits hchains]
    cases hfind : (({ t with chains := some chains } : Table α).search live hash accepts).1 with
    | some entry => rw [tidy_of_some rfl hfind]
    | none => rw [tidy_of_none rfl hfind, Note.askings_append, Note.askings_made, List.append_nil]

/-! ## Searching afterwards -/

/-- The candidates that are accepted afterwards are those before and the one that joins them. -/
theorem Obtains.accepted_perm (h : Obtains live hash accepts new t o) :
    ((o.table.links.candidates live hash).filter accepts).Perm
      (((t.joining live hash accepts new).candidates live hash).filter accepts
        ++ (t.links.candidates live hash).filter accepts) := by
  have hliving := h.living_perm
  rw [← Chain.living_append] at hliving
  rw [← List.filter_append, ← Chain.candidates_append]
  exact (Chain.candidates_perm hash hliving).filter accepts

/-- Where one candidate is accepted at most, a search afterwards finds the answer. -/
theorem Obtains.search_of_few (h : Obtains live hash accepts new t o) (hs' : o.table.Sound)
    (hlive : live new = true)
    (hfew : ((t.links.candidates live hash).filter accepts).length ≤ 1)
    (houtcome : o.outcome = .ok e) (haccepts : accepts e.target = true) :
    (o.table.search live hash accepts).1 = some e.target := by
  have hafter := h.accepted_perm
  -- a permutation of one is that one, so no order matters here
  suffices hone : ((t.joining live hash accepts new).candidates live hash).filter accepts
      ++ (t.links.candidates live hash).filter accepts = [e.target] by
    rw [hone] at hafter
    rw [hs'.search_eq, List.perm_singleton.mp hafter, List.head?_cons]
  obtain rfl := h.answer_eq houtcome
  cases hentries : (t.links.candidates live hash).filter accepts with
  | nil =>
    rw [hentries] at haccepts
    have hnew : Chain.candidates live hash [⟨new, hash⟩] = [new] := by
      simp [Chain.candidates, hlive]
    rw [joining_of_nil hentries, hnew, List.append_nil]
    exact List.filter_cons_of_pos haccepts
  | cons entry rest =>
    rw [hentries, List.length_cons] at hfew
    obtain rfl : rest = [] := List.eq_nil_of_length_eq_zero (by omega)
    rw [joining_of_cons hentries]
    rfl

/-- What a request answers with and accepts, a search afterwards finds. Of several candidates it
is still the first. -/
theorem Sound.search_obtain (hs : t.Sound) (htwo : 2 ≤ t.initial) (hlive : live new = true)
    (houtcome : (t.obtain live hash accepts new).outcome = .ok e)
    (haccepts : accepts e.target = true) :
    ((t.obtain live hash accepts new).table.search live hash accepts).1 = some e.target := by
  have hfits : isOversized t.initial = false := by
    rw [← Bool.not_eq_true]
    intro hoversized
    rw [hs.obtain_of_oversized hoversized] at houtcome
    cases houtcome
  have hobtains := hs.obtains hfits live hash accepts new
  rcases Nat.lt_or_ge t.size (t.capacity / 2) with hroomy | hcrowded
  · cases hfind : (t.search live hash accepts).1 with
    | none =>
      refine hobtains.search_of_few hs.obtain hlive ?_ houtcome haccepts
      rw [hs.search_eq, List.head?_eq_none_iff] at hfind
      rw [hfind]
      exact Nat.zero_le 1
    | some entry =>
      -- the table was not touched
      obtain ⟨chains, hchains, -⟩ := hs.chainsOrNew_eq hfits
      have hsame := hs.search_of_chainsOrNew hfits hchains live hash accepts
      rw [obtain_of_roomy hchains hroomy] at houtcome ⊢
      rw [tidy_of_some rfl (hsame ▸ hfind)] at houtcome ⊢
      obtain rfl := Except.ok.inj houtcome
      exact hsame ▸ hfind
  · refine hobtains.search_of_few hs.obtain hlive ?_ houtcome haccepts
    have hcrowded' := (hs.crowded_iff htwo).mp hcrowded
    cases hs.turns htwo live hash accepts new with
    | doubled entry hcrowded hfew houtcome' hcapacity => exact hfew
    | refused hcrowded hmany houtcome' htable hmade =>
      rw [houtcome'] at houtcome
      cases houtcome
    | tidied entry _ hroomy houtcome' hcapacity => omega
    | overflowed hoversized =>
      rw [hfits] at hoversized
      cases hoversized

end Table

namespace TableSession

variable {τ : Type} {s : TableSession}

/-- What a search and a request to find or install have in common at some moment, where the caller
had asked for so many chains. -/
structure Agrees (wanted : Nat) (s : TableSession) (hash : UInt64) (accepts : Key → Bool)
    (new : Key) : Prop where
  /-- what a search finds is the answer and none is made, but two links that are accepted may keep
  a crowded table from answering -/
  found : ∀ entry, (s.table.search s.isLive hash accepts).1 = some entry →
    let o := s.table.obtain s.isLive hash accepts new
    Note.makings o.notes = [] ∧
      (o.outcome = .ok ⟨entry, false⟩ ∨
        o.outcome = .error .duplicate ∧ s.table.capacity / 2 ≤ s.table.size ∧
          2 ≤ (s.bag.under hash accepts).card)
  /-- what a search does not find is made -/
  missed : wanted ≤ 2 ^ 59 → (s.table.search s.isLive hash accepts).1 = none →
    let o := s.table.obtain s.isLive hash accepts new
    o.outcome = .ok ⟨new, true⟩ ∧ Note.makings o.notes = [new]
  /-- only where more chains were asked for than can be allocated, nothing is found and nothing
  is made; nothing is asked and nothing changes either -/
  overflowed : 2 ^ 59 < wanted → (s.table.search s.isLive hash accepts).1 = none ∧
    s.table.obtain s.isLive hash accepts new = ⟨.error .overflow, s.table, []⟩
  /-- unless the table is crowded, the test is put to what a search puts it to, in that order -/
  asked : s.table.size < s.table.capacity / 2 →
    Note.askings (s.table.obtain s.isLive hash accepts new).notes
      = Note.askings (s.table.search s.isLive hash accepts).2
  /-- where one link is accepted at most, tidying and growing give the same answer, make the same
  entries and leave the same living links, whichever of them is called for -/
  ways : wanted ≤ 2 ^ 59 → ∃ chains, s.table.chainsOrNew = .ok chains ∧
    ((s.bag.under hash accepts).card ≤ 1 →
      let t : Table Key := { s.table with chains := some chains }
      let o := t.tidy s.isLive hash accepts new chains
      let o' := t.grow s.isLive hash accepts new chains
      o.outcome = o'.outcome ∧ Note.makings o.notes = Note.makings o'.notes ∧
        ({ s with table := o.table } : TableSession).bag
          = ({ s with table := o'.table } : TableSession).bag)
  /-- an answer that is accepted is what a search finds afterwards -/
  kept : s.isLive new = true → ∀ e : Entry Key,
    let o := s.table.obtain s.isLive hash accepts new
    o.outcome = .ok e → accepts e.target = true →
      (o.table.search s.isLive hash accepts).1 = some e.target

/-- Whatever was asked of a table before, searching, tidying and growing agree on what comes next,
for any hash and any test. -/
theorem after_agrees (passes : τ → Key → Bool) (request : Nat) (requests : List (TableRequest τ))
    (hash : UInt64) (accepts : Key → Bool) (new : Key) :
    Agrees request ((ofCapacity request).after passes requests) hash accepts new := by
  have hload := loaded passes request requests
  have hfits := fits_after passes request requests
  have hoversized := isOversized_after passes request requests
  generalize (ofCapacity request).after passes requests = s at hload hfits hoversized
  have hs := hload.sound
  refine
    { found := fun entry hfind => ?_
      missed := fun h hfind => hs.obtain_of_missed (hfits h) hfind
      overflowed := fun h => ?_
      asked := fun hroomy => hs.askings_obtain hroomy
      ways := fun h => ?_
      kept := fun hlive e houtcome haccepts =>
        hs.search_obtain hload.ample hlive houtcome haccepts }
  · rw [card_under]
    exact hs.obtain_of_found hload.ample hfind
  · rw [decide_eq_true h] at hoversized
    refine ⟨?_, hs.obtain_of_oversized hoversized _ _ _ _⟩
    rw [hs.search_eq, hs.links_of_oversized hoversized]
    rfl
  · -- tidying and growing start from the same chains, so their answers can be compared
    obtain ⟨chains, hchains, hs', hlinks⟩ := hs.chainsOrNew_eq (hfits h)
    refine ⟨chains, hchains, fun hfew => ?_⟩
    have hsame : ({ s.table with chains := some chains } : Table Key).links = s.table.links :=
      hlinks
    rw [card_under, ← hsame] at hfew
    have htidy : Table.Obtains s.isLive hash accepts new { s.table with chains := some chains } _ :=
      Table.tidy_obtains hs' rfl
    obtain ⟨houtcome, hmade, hliving⟩ := htidy.agree (Table.grow_obtains hs' rfl) hfew
    exact ⟨houtcome, hmade, congrArg (Bag.mk s.keys) (Multiset.coe_eq_coe.mpr hliving)⟩

/-- A search finds nothing, but nothing is made either: the chains cannot be allocated. -/
theorem missed_unmade :
    let s := (ofCapacity (2 ^ 60)).after Test.passes [.key (.make "a" "t" none)]
    let a : Key := ⟨0, "a", "t", 17592186044416⟩
    let o := s.table.obtain s.isLive 7 Test.all.passes a
    s.keys.held? "a" = some a ∧ (s.table.search s.isLive 7 Test.all.passes).1 = none ∧
      o.outcome = .error .overflow ∧ Note.makings o.notes = [] := by
  decide

end TableSession

end Ephemera
