/-!
# Messages

What a table and a memo tell their log. Each message is kept as its cause and its
numbers; `Message.text` is the line that is written.
-/

namespace Ephemera

/-- How much a message matters. -/
inductive Level where
  | trace
  | debug
deriving Repr, DecidableEq

/-- A line for the log. -/
inductive Message where
  /-- the chains of a table were dealt out anew to twice as many -/
  | resized (old new live : Nat)
  /-- a removal put a new chain in place of an old one -/
  | rebuilt (chain cleared : Nat)
  /-- a slot was emptied while its value was being computed -/
  | outdated (generation : Nat)
deriving Repr, DecidableEq

/-- Growth is worth noticing; the rest is only for tracing. -/
def Message.level : Message → Level
  | .resized .. => .debug
  | .rebuilt .. => .trace
  | .outdated .. => .trace

/-- The line that is written. -/
def Message.text : Message → String
  | .resized old new live =>
    "bucket array resized: " ++ toString old ++ " -> " ++ toString new ++ " buckets, "
      ++ toString live ++ " live entries"
  | .rebuilt chain cleared =>
    "chain " ++ toString chain ++ " rebuilt on removal: " ++ toString cleared
      ++ " cleared link(s) dropped"
  | .outdated generation =>
    "entry removed during computation: generation " ++ toString generation

end Ephemera
