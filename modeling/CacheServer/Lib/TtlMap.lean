import Mathlib.Data.Int.Notation
import Mathlib.Data.Nat.Notation
import Mathlib.Logic.Function.Basic

/-!
# Maps with deadlines

A table of values with deadlines, where a value is there to be looked up until its deadline has
passed. Times are natural numbers and do not wrap, and a value without a deadline stays for good.
An `Act` is what an operation on one key of the table comes to, once it has been looked up: an
answer, or a new value that the table may grant or refuse.
-/

namespace CacheServer.TtlMap

/-- A value and the last second that it is there, if there is a last one. -/
structure Entry (ν : Type) where
  /-- The value. -/
  value : ν
  /-- Its last second, if there is one. -/
  deadline : Option ℕ
deriving DecidableEq, Repr

section Entry

variable {ν : Type}

/-- The deadline has not passed. -/
def Entry.isLive (e : Entry ν) (t : ℕ) : Bool := e.deadline.all fun d => t ≤ d

/-- The seconds that are left, and `-1` without a deadline. -/
def Entry.remaining (e : Entry ν) (t : ℕ) : ℤ := e.deadline.elim (-1) fun d => (d : ℤ) - t

end Entry

/-- The value stored under each key, whether its deadline has passed or not. -/
abbrev Table (κ ν : Type) := κ → Option (Entry ν)

/-- What an operation does once the key has been looked up. -/
inductive Act (ν ρ : Type)
  /-- Answer and leave the table alone. -/
  | answer (r : ρ)
  /-- Put an entry under the key, and answer `done` if the table grants that. -/
  | put (entry : Entry ν) (done refused : ρ)

section Table

variable {κ ν ρ : Type} [DecidableEq κ]

/-- The entry under the key, unless its deadline has passed. -/
def Table.lookup (table : Table κ ν) (t : ℕ) (key : κ) : Option (Entry ν) :=
  (table key).filter (·.isLive t)

/-- The entry is put under the key. -/
def Table.put (table : Table κ ν) (key : κ) (entry : Entry ν) : Table κ ν :=
  Function.update table key (some entry)

/-- Nothing is left under the key. -/
def Table.erase (table : Table κ ν) (key : κ) : Table κ ν := Function.update table key none

/-- The act carried out under a key. The table grants the values that `grants` holds of. -/
def Act.run (grants : ν → Bool) (key : κ) (table : Table κ ν) : Act ν ρ → ρ × Table κ ν
  | .answer r => (r, table)
  | .put entry done refused =>
    if grants entry.value then (done, table.put key entry) else (refused, table)

end Table

end CacheServer.TtlMap
