import L4Rdma.Lib.Exec

/-!
# The machine the driver runs on

The driver is C++ code. A function of it returns, or ends in an exception, or does something that
the language leaves undefined, such as an access through a null pointer, to memory that has been
freed, or outside of an array. A function of the model is a program (`EStateM`) over the part of
the state that it uses, and `Stop` says how such a program ends when it does not return.
-/

namespace L4Rdma

/-- The kinds of undefined behaviour that the model distinguishes. -/
inductive UB
  /-- An access through a null pointer. -/
  | null_deref
  /-- An access to a block of memory that has been freed. -/
  | use_after_free
  /-- An access outside of an array or of a mapped region. -/
  | out_of_bounds
  /-- A signed operation whose result does not fit its type. -/
  | signed_overflow
  /-- A division by zero. -/
  | division_by_zero
  /-- A floating point number converted to an integer type that does not have it. -/
  | bad_conversion
  deriving DecidableEq, Repr

/-- How a function ends when it does not return. -/
inductive Stop
  /-- It does something that has no defined meaning. -/
  | undefined (u : UB)
  /-- It throws. -/
  | thrown (what : String)
  /-- It runs for ever. -/
  | diverges
  deriving DecidableEq, Repr

/-- A function of the driver over the state `σ`. -/
abbrev Exec (σ α : Type) : Type := EStateM Stop σ α

end L4Rdma
