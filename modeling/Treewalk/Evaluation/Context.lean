/-!
What bounds an evaluation: how deeply calls may nest, and how many scopes may live
before the unreachable ones are reclaimed.
-/

namespace Treewalk

/-- The bounds of an evaluation. -/
structure Context where
  /-- how deeply calls may nest, if that is limited -/
  maxCallDepth : Option Nat := none
  /-- the number of live scopes beyond which they are collected after a program -/
  collectAbove : Nat := 1024

/-- When the scopes that an evaluation leaves are given up. -/
inductive Reclamation where
  /-- when they are left, or by a collection after a program -/
  | prompt
  /-- not at all -/
  | never
deriving DecidableEq

namespace Context

/-- Calls that may nest when no limit is set: more than any store can hold. -/
def unlimitedCalls : Nat := 0x1000000000000000

/-- Nested calls enough for every evaluation within the limit. -/
def callAllowance (ctx : Context) : Nat :=
  match ctx.maxCallDepth with
  | some max => max + 1
  | none => unlimitedCalls

end Context
end Treewalk
