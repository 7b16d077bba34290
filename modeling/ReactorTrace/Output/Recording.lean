import ReactorTrace.Output

/-! An output that records its calls, and fails those that it is told to fail. A failed call is
recorded like any other. -/

namespace ReactorTrace

inductive OutputCall
  | title
  | row (row : Row)
  | flush
deriving DecidableEq, Inhabited

def OutputCall.render : OutputCall → String
  | title => "header"
  | row r => "row " ++ r.render
  | flush => "flush"

/-- The faults of the calls, by the number of the row call for rows, counting from zero. -/
structure OutputFaults where
  title : Option Fault
  row : Nat → Option Fault
  flush : Option Fault

def OutputFaults.none : OutputFaults := ⟨.none, fun _ => .none, .none⟩

/-- The calls so far, and how many of them were for rows. -/
structure Recording where
  calls : Array OutputCall
  rows : Nat
deriving Inhabited

namespace Recording

def empty : Recording := ⟨#[], 0⟩

def outcome : Option Fault → Except Fault Unit
  | none => .ok ()
  | some fault => .error fault

def output (faults : OutputFaults) : Output Recording where
  title s := (outcome faults.title, { s with calls := s.calls.push .title })
  row r s := (outcome (faults.row s.rows), ⟨s.calls.push (.row r), s.rows + 1⟩)
  flush s := (outcome faults.flush, { s with calls := s.calls.push .flush })

end Recording

end ReactorTrace
