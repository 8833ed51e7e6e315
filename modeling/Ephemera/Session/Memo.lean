import Ephemera.Session.Progress

/-!
# Sessions with a memo

A caller makes keys, demands their values of a memo and takes them away again. What a
computation does is given by scripts, and a script may do whatever a caller may. Between two
plans of the caller nothing is under way, so a session is then all there is.
-/

namespace Ephemera

namespace MemoSession

/-- No keys, and an empty memo for a caller who asks for so many chains. `keeping` says
whether a value keeps its key alive. -/
def ofCapacity (request : Nat) (scripts : Scripts) (keeping : Bool) : MemoSession :=
  { keys := .empty, memo := .ofCapacity request, scripts, calls := 0, keeping, pinned := [] }

/-- Carries out a plan, with all computations that it leads to. -/
def run (s : MemoSession) (plan : Plan MemoAction) :
    Outcome MemoSession MemoEvent (Reply MemoReply) :=
  let (w, result) := (Machine.start ⟨s, []⟩ [] plan).run
  ⟨w.session, w.events.reverse, result⟩

/-- The memo's text, and the number of living keys that have a value. -/
def survey (s : MemoSession) : String × Nat :=
  (s.memo.layout.inline, s.memo.count (s.isLive []))

/-- Carries out plans and reports after each. -/
def play (s : MemoSession) (plans : List (Plan MemoAction)) :
    List (Report MemoEvent MemoReply) :=
  Ephemera.play run survey s plans

end MemoSession

end Ephemera
