/-
Module: ExitfyCores.Lib.GoError
Layer: Lib
Purpose: Go error values as far as a caller can take them apart, the leaves of an error, and calls that may panic.
Imports: ExitfyCores.Lib.GoString, Mathlib.Data.List.ReduceOption
Trusted boundary: human-reviewed spec
Main exports: GoError, GoError.text, GoError.children, GoError.HasLeaf, GoError.children_induction, errorf, Callback
Open obligations: none
-/
import ExitfyCores.Lib.GoString
import Mathlib.Data.List.ReduceOption

namespace ExitfyCores

/-- A Go error: `os.ErrClosed` itself, an error without `Unwrap`, one with `Unwrap() error`, or one with
`Unwrap() []error`. What an `Unwrap` gives may be nil. -/
inductive GoError where
  | closed
  | leaf (text : Bytes)
  | wrap (text : Bytes) (child : Option GoError)
  | join (text : Bytes) (children : List (Option GoError))

namespace GoError

/-- `Error()` -/
def text : GoError → Bytes
  | closed => lit "file already closed"
  | leaf text | wrap text _ | join text _ => text

/-- `errors.New` -/
def new (text : String) : GoError := leaf (lit text)

/-- What its `Unwrap` gives. -/
def unwrap : GoError → List (Option GoError)
  | closed | leaf _ => []
  | wrap _ child => [child]
  | join _ children => children

/-- The errors directly inside an error. -/
def children (err : GoError) : List GoError := err.unwrap.reduceOption

theorem mem_children {err child : GoError} : child ∈ err.children ↔ some child ∈ err.unwrap :=
  List.reduceOption_mem_iff

/-- An error with nothing inside is its own leaf; the leaves of another are those of the errors inside. -/
inductive HasLeaf : GoError → GoError → Prop where
  | self {err : GoError} (bare : err.children = []) : HasLeaf err err
  | inside {err child leaf : GoError} (member : child ∈ err.children) (below : HasLeaf child leaf) : HasLeaf err leaf

/-- Induction over what is inside. -/
theorem children_induction {motive : GoError → Prop}
    (step : ∀ err, (∀ child ∈ err.children, motive child) → motive err) (err : GoError) : motive err := by
  refine @GoError.rec motive (fun option => ∀ child, option = some child → motive child)
    (fun options => ∀ child, some child ∈ options → motive child)
    ?closed ?leaf ?wrap ?join ?none ?some ?nil ?cons err
  case closed => exact step _ fun _ member => nomatch mem_children.mp member
  case leaf => exact fun _ => step _ fun _ member => nomatch mem_children.mp member
  case wrap =>
    intro text child ih
    exact step _ fun inside member => ih inside (List.mem_singleton.mp (mem_children.mp member)).symm
  case join =>
    intro text children ih
    exact step _ fun inside member => ih inside (mem_children.mp member)
  case none => exact fun _ impossible => nomatch impossible
  case some =>
    intro child ih _ same
    cases same
    exact ih
  case nil => exact fun _ member => nomatch member
  case cons =>
    intro head tail first rest child member
    rcases List.mem_cons.mp member with same | later
    · exact first child same.symm
    · exact rest child later

end GoError

/-- `fmt.Errorf` of a text that ends in `%w`. -/
def errorf (pre : String) (err : GoError) : GoError := .wrap (lit pre ++ err.text) (some err)

/-- A call into code that is not the caller's: it returns, or it panics with a value of this rendering. -/
inductive Callback (Result : Type) where
  | returned (result : Result)
  | panicked (recovered : Bytes)
deriving Repr, DecidableEq

end ExitfyCores
