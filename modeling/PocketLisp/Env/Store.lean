import PocketLisp.Env.Basic

/-!
# Stores of environments

Environments can share frames: a binding made in one frame is seen through every environment whose
chain passes through it. A store keeps environments by number, each as a frame of its own and the
number of the environment around it, which was always there before.
-/

namespace PocketLisp

/-- An environment in a store: its own frame, and the environment around it if there is one. -/
structure Cell where
  frame : Frame
  outer : Option Nat
  deriving DecidableEq, Repr

/-- Environments numbered from zero in the order in which they were made. -/
structure Store where
  cells : List Cell
  deriving DecidableEq, Repr

namespace Store

/-- The store without environments. -/
def empty : Store := ⟨[]⟩

/-- The number that the next environment gets. -/
def size (store : Store) : Nat := store.cells.length

/-- The frames from an environment outwards. A link that leads to no earlier environment ends the
chain. -/
def chain (store : Store) (i : Nat) : Env :=
  match store.cells[i]? with
  | none => []
  | some cell =>
    cell.frame ::
      match cell.outer with
      | none => []
      | some o => if o < i then store.chain o else []
termination_by i

/-- Adds an environment with the given frame. -/
def push (store : Store) (frame : Frame) (outer : Option Nat) : Store :=
  ⟨store.cells ++ [⟨frame, outer⟩]⟩

/-- Adds an environment that binds nothing yet. -/
def new (store : Store) (outer : Option Nat) : Store :=
  store.push [] outer

/-- Adds an environment in front of environment `i` that binds names to values position by position.
If a name is no symbol, no environment is made. -/
def extend (store : Store) (i : Nat) (names values : List Value) : Except Violation Store :=
  (Frame.ofNames names values).map fun frame => store.push frame (some i)

/-- The frame of environment `i` alone. -/
def frame (store : Store) (i : Nat) : Frame :=
  match store.cells[i]? with
  | none => []
  | some cell => cell.frame

/-- Binds a name in the frame of environment `i`. -/
def define (store : Store) (i : Nat) (name v : Value) : Except Violation Store :=
  ((store.frame i).define name v).map fun frame =>
    ⟨store.cells.modify i fun cell => { cell with frame := frame }⟩

/-- What a name means in environment `i`. A name that is no symbol means nothing. -/
def lookup (store : Store) (i : Nat) : Value → Option Value
  | .symbol s => (store.chain i).lookup s
  | _ => none

/-- How many frames there are from environment `i` outwards. -/
def depth (store : Store) (i : Nat) : Nat := (store.chain i).depth

end Store

end PocketLisp
