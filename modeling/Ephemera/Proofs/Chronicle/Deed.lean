import Ephemera.Key
import Mathlib.Data.List.Dedup
import Mathlib.Data.List.Nodup
import Mathlib.Logic.Function.Basic

/-!
# Deeds and the book on them

Whoever looks at a memo from outside can put down what it does to the values of keys and what it
says about them, one `Deed` after the other, across all computations that are under way. A `Book`
is what deeds amount to: which keys have a value now, and which computations have begun. The book
says which deeds are in order (`Allows`): a computation begins and a value is put in only where
there is none, and answers are those of the book.

Everything else here is about lists of deeds that are in order. As far as one key is concerned,
its value is put in and taken away by turns (`AllowsAll.alternate`); while it has a value, nothing
else is done or said (`AllowsAll.respects`); and over all keys, what was put in and not taken away
is there (`AllowsAll.count_changes`).
-/

namespace Ephemera

/-- What is done to the value of a key, or comes out about it. -/
inductive Deed where
  /-- a computation began whose value is to be kept, the one of this number -/
  | begun (key : Key) (call : Nat)
  /-- the key got a value -/
  | filled (key : Key) (value : String)
  /-- its value was taken away -/
  | emptied (key : Key)
  /-- a demand was met with a value -/
  | answered (key : Key) (value : String)
  /-- a look was answered -/
  | seen (key : Key) (answer : Option String)
  /-- a computation failed, and so did the demand that it was for -/
  | failed (key : Key) (call : Nat) (message : String)
  /-- a computation gave up -/
  | gaveUp (key : Key) (call : Nat) (message : String)
deriving Repr, DecidableEq

namespace Deed

/-- Which key got a value or lost it. -/
def change? : Deed → Option (Key × Bool)
  | filled key _ => some (key, true)
  | emptied key => some (key, false)
  | _ => none

/-- Whether a key got a value or lost it. -/
def changeOf? (key : Key) (d : Deed) : Option Bool :=
  d.change?.bind fun change => if change.1 = key then some change.2 else none

/-- Which computation ended without a value. -/
def ended? : Deed → Option (Key × Nat)
  | failed key call _ => some (key, call)
  | gaveUp key call _ => some (key, call)
  | _ => none

/-- A deed that is in accord with the value that a key has: it begins no computation of the key,
puts no other value in, and gives nothing else for an answer. -/
def Respects (key : Key) (value : String) : Deed → Prop
  | begun key' _ => key' ≠ key
  | filled key' _ => key' ≠ key
  | answered key' value' => key' = key → value' = value
  | seen key' answer => key' = key → answer = some value
  | emptied _ | failed .. | gaveUp .. => True

end Deed

/-- All changes to values, in order. -/
def changes (deeds : List Deed) : List (Key × Bool) :=
  deeds.filterMap Deed.change?

/-- The changes to the value of a key, in order. -/
def changesOf (key : Key) (deeds : List Deed) : List Bool :=
  deeds.filterMap (Deed.changeOf? key)

section

variable (key : Key) (value : String) (deeds : List Deed)

@[simp]
theorem changes_filled :
    changes (.filled key value :: deeds) = (key, true) :: changes deeds := rfl

@[simp]
theorem changes_emptied : changes (.emptied key :: deeds) = (key, false) :: changes deeds := rfl

@[simp]
theorem changesOf_filled :
    changesOf key (.filled key value :: deeds) = true :: changesOf key deeds :=
  List.filterMap_cons_some (if_pos rfl)

@[simp]
theorem changesOf_emptied :
    changesOf key (.emptied key :: deeds) = false :: changesOf key deeds :=
  List.filterMap_cons_some (if_pos rfl)

variable {key deeds} in
theorem changesOf_cons_of_none {d : Deed} (h : d.changeOf? key = none) :
    changesOf key (d :: deeds) = changesOf key deeds :=
  List.filterMap_cons_none h

end

/-- The elements take turns, and it is the turn of this one. -/
def Alternate : Bool → List Bool → Prop
  | _, [] => True
  | turn, b :: rest => b = turn ∧ Alternate (!turn) rest

/-- What deeds amount to. -/
structure Book where
  /-- the values of keys -/
  values : Key → Option String
  /-- the computations that have begun, the latest first -/
  begun : List (Key × Nat)

namespace Book

variable {b : Book} {d : Deed} {deeds deeds' : List Deed} {key : Key} {call : Nat} {value : String}

/-- Nothing was done yet. -/
def empty : Book :=
  ⟨fun _ => none, []⟩

/-- The book after another deed. -/
def enter (b : Book) : Deed → Book
  | .begun key call => { b with begun := (key, call) :: b.begun }
  | .filled key value => { b with values := Function.update b.values key (some value) }
  | .emptied key => { b with values := Function.update b.values key none }
  | .answered .. | .seen .. | .failed .. | .gaveUp .. => b

/-- Whether a deed is in order. -/
def Allows (b : Book) : Deed → Prop
  | .begun key _ => b.values key = none
  | .filled key _ => b.values key = none
  | .emptied key => b.values key ≠ none
  | .answered key value => b.values key = some value
  | .seen key answer => b.values key = answer
  | .failed key call _ => (key, call) ∈ b.begun
  | .gaveUp key call _ => (key, call) ∈ b.begun

/-- The book after several deeds. -/
def after (b : Book) (deeds : List Deed) : Book :=
  deeds.foldl enter b

/-- Whether several deeds are in order, one after the other. -/
def AllowsAll : Book → List Deed → Prop
  | _, [] => True
  | b, d :: rest => b.Allows d ∧ AllowsAll (b.enter d) rest

@[simp]
theorem after_nil (b : Book) : b.after [] = b := rfl

@[simp]
theorem after_cons (b : Book) (d : Deed) (deeds : List Deed) :
    b.after (d :: deeds) = (b.enter d).after deeds := rfl

theorem after_append (b : Book) (deeds deeds' : List Deed) :
    b.after (deeds ++ deeds') = (b.after deeds).after deeds' :=
  List.foldl_append

theorem allowsAll_append :
    b.AllowsAll (deeds ++ deeds') ↔ b.AllowsAll deeds ∧ (b.after deeds).AllowsAll deeds' := by
  induction deeds generalizing b with
  | nil => simp [AllowsAll]
  | cons d rest ih => simp [AllowsAll, ih, and_assoc]

/-- A computation on the book has begun with some deed. -/
theorem begun_of_mem (h : (key, call) ∈ (b.after deeds).begun) :
    (key, call) ∈ b.begun ∨ .begun key call ∈ deeds := by
  induction deeds generalizing b with
  | nil => exact .inl h
  | cons d rest ih =>
    rcases ih h with hold | hrest
    · cases d with
      | begun key' call' =>
        rcases List.mem_cons.mp hold with heq | hmem
        · cases heq
          exact .inr List.mem_cons_self
        · exact .inl hmem
      | _ => exact .inl hold
    · exact .inr (List.mem_cons_of_mem d hrest)

/-! ## One key -/

/-- What a deed in order means for one key: nothing, or it gets a value, or it loses the one that
it has. -/
theorem Allows.change (h : b.Allows d) (key : Key) :
    (d.changeOf? key = none ∧ (b.enter d).values key = b.values key) ∨
      (∃ value, d = .filled key value ∧ b.values key = none ∧
        (b.enter d).values key = some value) ∨
      d = .emptied key ∧ (∃ value, b.values key = some value) ∧ (b.enter d).values key = none := by
  cases d with
  | filled key' value =>
    by_cases heq : key' = key
    · subst heq
      exact .inr (.inl ⟨value, rfl, h, Function.update_self ..⟩)
    · exact .inl ⟨if_neg heq, Function.update_of_ne (Ne.symm heq) ..⟩
  | emptied key' =>
    by_cases heq : key' = key
    · subst heq
      exact .inr (.inr ⟨rfl, Option.ne_none_iff_exists'.mp h, Function.update_self ..⟩)
    · exact .inl ⟨if_neg heq, Function.update_of_ne (Ne.symm heq) ..⟩
  | _ => exact .inl ⟨rfl, rfl⟩

/-- A value is put in and taken away by turns. -/
theorem AllowsAll.alternate (h : b.AllowsAll deeds) (key : Key) :
    Alternate (b.values key).isNone (changesOf key deeds) := by
  induction deeds generalizing b with
  | nil => trivial
  | cons d rest ih =>
    have hrest := ih h.2
    obtain ⟨hnone, hsame⟩ | ⟨value, rfl, hbefore, hafter⟩ | ⟨rfl, ⟨value, hbefore⟩, hafter⟩ :=
      h.1.change key
    · rw [changesOf_cons_of_none hnone, ← hsame]
      exact hrest
    · rw [changesOf_filled, hbefore]
      rw [hafter] at hrest
      exact ⟨rfl, hrest⟩
    · rw [changesOf_emptied, hbefore]
      rw [hafter] at hrest
      exact ⟨rfl, hrest⟩

/-- What was put in and not taken away is there. -/
theorem AllowsAll.count_changesOf (h : b.AllowsAll deeds) (key : Key) :
    (changesOf key deeds).count true + (b.values key).isSome.toNat
      = (changesOf key deeds).count false + ((b.after deeds).values key).isSome.toNat := by
  induction deeds generalizing b with
  | nil => rfl
  | cons d rest ih =>
    have hrest := ih h.2
    rw [after_cons]
    obtain ⟨hnone, hsame⟩ | ⟨value, rfl, hbefore, hafter⟩ | ⟨rfl, ⟨value, hbefore⟩, hafter⟩ :=
      h.1.change key
    · rw [changesOf_cons_of_none hnone, ← hsame]
      exact hrest
    · simp [hafter, hbefore] at hrest ⊢
      omega
    · simp [hafter, hbefore] at hrest ⊢
      omega

/-- A deed in order is in accord with the value of a key. -/
theorem Allows.respects (h : b.Allows d) (hvalue : b.values key = some value) :
    d.Respects key value := by
  cases d with
  | begun key' call | filled key' value' =>
    rintro rfl
    cases hvalue.symm.trans h
  | answered key' value' =>
    rintro rfl
    exact Option.some.inj (Eq.trans (Eq.symm h) hvalue)
  | seen key' answer =>
    rintro rfl
    exact Eq.trans (Eq.symm h) hvalue
  | emptied key' | failed key' call message | gaveUp key' call message => trivial

/-- As long as the value of a key is not taken away, all is in accord with it, and it stays. -/
theorem AllowsAll.respects (h : b.AllowsAll deeds) (hvalue : b.values key = some value)
    (hkept : .emptied key ∉ deeds) :
    (∀ d ∈ deeds, d.Respects key value) ∧ (b.after deeds).values key = some value := by
  induction deeds generalizing b with
  | nil => exact ⟨fun d h => absurd h List.not_mem_nil, hvalue⟩
  | cons d rest ih =>
    rw [List.mem_cons, not_or] at hkept
    have hsame : (b.enter d).values key = some value := by
      obtain ⟨-, hsame⟩ | ⟨value', rfl, hbefore, -⟩ | ⟨rfl, -, -⟩ := h.1.change key
      · rw [hsame, hvalue]
      · rw [hvalue] at hbefore
        cases hbefore
      · exact absurd rfl hkept.1
    obtain ⟨hrest, hafter⟩ := ih h.2 hsame hkept.2
    exact ⟨List.forall_mem_cons.mpr ⟨h.1.respects hvalue, hrest⟩, hafter⟩

/-- A value that is there now was there before or was put in, and was not taken away since. -/
theorem AllowsAll.exists_filled (h : b.AllowsAll deeds)
    (hvalue : (b.after deeds).values key = some value) :
    (b.values key = some value ∧ .emptied key ∉ deeds) ∨
      ∃ before after, deeds = before ++ .filled key value :: after ∧ .emptied key ∉ after := by
  induction deeds generalizing b with
  | nil => exact .inl ⟨hvalue, List.not_mem_nil⟩
  | cons d rest ih =>
    obtain ⟨hbefore, hkept⟩ | ⟨before, after, rfl, hkept⟩ := ih h.2 hvalue
    · obtain ⟨hnone, hsame⟩ | ⟨value', rfl, -, hafter⟩ | ⟨rfl, -, hafter⟩ := h.1.change key
      · refine .inl ⟨hsame ▸ hbefore, fun hmem => ?_⟩
        rcases List.mem_cons.mp hmem with rfl | hrest
        · simp [Deed.changeOf?, Deed.change?] at hnone
        · exact hkept hrest
      · obtain rfl := Option.some.inj (hafter.symm.trans hbefore)
        exact .inr ⟨[], rest, rfl, hkept⟩
      · rw [hafter] at hbefore
        cases hbefore
    · exact .inr ⟨d :: before, after, rfl, hkept⟩

/-! ## All keys -/

/-- Among different keys, one more has a value when one gets it. -/
theorem countP_update (values values' : Key → Option String) {keys : List Key}
    (hnodup : keys.Nodup) (hkey : key ∈ keys)
    (hother : ∀ key', key' ≠ key → values' key' = values key') (hbefore : values key = none)
    (hafter : (values' key).isSome = true) :
    keys.countP (fun key => (values' key).isSome)
      = keys.countP (fun key => (values key).isSome) + 1 := by
  have hperm := List.perm_cons_erase hkey
  have hrest : (keys.erase key).countP (fun key => (values' key).isSome)
      = (keys.erase key).countP fun key => (values key).isSome := by
    refine List.countP_congr fun key' hmem => ?_
    rw [hother key' (hnodup.mem_erase_iff.mp hmem).1]
  rw [hperm.countP_eq, hperm.countP_eq, List.countP_cons, List.countP_cons, hrest]
  simp [hafter, hbefore]

/-- Over keys that include all those that got a value or lost it, what was put in and not taken
away is there. -/
theorem AllowsAll.count_changes_of_mem (h : b.AllowsAll deeds) (keys : List Key)
    (hnodup : keys.Nodup) (hmem : ∀ change ∈ changes deeds, change.1 ∈ keys) :
    (changes deeds).countP Prod.snd + keys.countP (fun key => (b.values key).isSome)
      = (changes deeds).countP (fun change => !change.2)
        + keys.countP fun key => ((b.after deeds).values key).isSome := by
  induction deeds generalizing b with
  | nil => rfl
  | cons d rest ih =>
    rw [after_cons]
    cases d with
    | filled key value =>
      have hkey := hmem (key, true) List.mem_cons_self
      have hrest := ih h.2 fun change hchange => hmem change (List.mem_cons_of_mem _ hchange)
      -- the key had no value before, and it has one now
      have hcount := countP_update b.values (b.enter (.filled key value)).values hnodup hkey
        (fun key' hne => Function.update_of_ne hne ..) h.1 (by simp [enter])
      simp only [changes_filled, List.countP_cons, Bool.not_true, Bool.false_eq_true, if_true,
        if_false]
      omega
    | emptied key =>
      have hkey := hmem (key, false) List.mem_cons_self
      have hrest := ih h.2 fun change hchange => hmem change (List.mem_cons_of_mem _ hchange)
      -- the other way round: the key had a value, and it has none now
      have hcount := countP_update (b.enter (.emptied key)).values b.values hnodup hkey
        (fun key' hne => (Function.update_of_ne hne ..).symm) (Function.update_self ..)
        (Option.isSome_iff_ne_none.mpr h.1)
      simp only [changes_emptied, List.countP_cons, Bool.not_false, Bool.false_eq_true, if_true,
        if_false]
      omega
    | _ => exact ih h.2 hmem

/-- Over keys that include all those that have a value now, the same is true if there was nothing
in the beginning. -/
theorem AllowsAll.count_changes {keys : List Key} (h : empty.AllowsAll deeds)
    (hnodup : keys.Nodup) (hvalued : ∀ key, (empty.after deeds).values key ≠ none → key ∈ keys) :
    (changes deeds).countP Prod.snd = (changes deeds).countP (fun change => !change.2)
      + keys.countP fun key => ((empty.after deeds).values key).isSome := by
  let all := (keys ++ (changes deeds).map Prod.fst).dedup
  have hcount := h.count_changes_of_mem all (List.nodup_dedup _) fun change hmem =>
    List.mem_dedup.mpr (List.mem_append_right _ (List.mem_map_of_mem hmem))
  have hnone : all.countP (fun key => (empty.values key).isSome) = 0 :=
    List.countP_eq_zero.mpr fun key _ => by simp [empty]
  -- the keys that are counted are the same ones
  have hsame : all.countP (fun key => ((empty.after deeds).values key).isSome)
      = keys.countP fun key => ((empty.after deeds).values key).isSome := by
    rw [List.countP_eq_length_filter, List.countP_eq_length_filter]
    refine ((List.perm_ext_iff_of_nodup ((List.nodup_dedup _).filter _)
      (hnodup.filter _)).mpr fun key => ?_).length_eq
    rw [List.mem_filter, List.mem_filter, List.mem_dedup, List.mem_append]
    constructor
    · rintro ⟨-, hsome⟩
      exact ⟨hvalued key (Option.isSome_iff_ne_none.mp hsome), hsome⟩
    · rintro ⟨hkey, hsome⟩
      exact ⟨.inl hkey, hsome⟩
  omega

end Book

end Ephemera
