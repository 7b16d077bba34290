import ReactorTrace.Output

/-! Rows as lines of text on their way to a writer. Lines are held back in a buffer; what is held
back reaches the writer at a flush, or when the next line does not fit. A writer may refuse
all text: then nothing reaches it and the buffer keeps what it holds. -/

namespace ReactorTrace

/-- The text that has reached the writer, the text held back, and the fault of a writer that takes
nothing. -/
structure TableText where
  reached : String
  pending : String
  refusal : Option IoFault
deriving DecidableEq, Inhabited

namespace TableText

/-- The size of the buffer in bytes. -/
def capacity : Nat := 8192

def empty (refusal : Option IoFault) : TableText := ⟨"", "", refusal⟩

/-- All text written, whether it has reached the writer or not. -/
def text (t : TableText) : String := t.reached ++ t.pending

/-- Hands the pending text to the writer. -/
def drain : TableText → Except Fault Unit × TableText
  | ⟨reached, pending, none⟩ => (.ok (), ⟨reached ++ pending, "", none⟩)
  | ⟨reached, pending, some fault⟩ =>
    (if pending.isEmpty then .ok () else .error (.io fault), ⟨reached, pending, some fault⟩)

/-- Hands a text that no buffer can hold to the writer. -/
def pass (piece : String) : TableText → Except Fault Unit × TableText
  | ⟨reached, pending, none⟩ => (.ok (), ⟨reached ++ piece, pending, none⟩)
  | ⟨reached, pending, some fault⟩ => (.error (.io fault), ⟨reached, pending, some fault⟩)

def hold (piece : String) : TableText → TableText
  | ⟨reached, pending, refusal⟩ => ⟨reached, pending ++ piece, refusal⟩

/-- Takes a line: into the buffer if it fits there, otherwise into the drained buffer, or past it
when the line is as long as the buffer. -/
def put (line : String) (t : TableText) : Except Fault Unit × TableText :=
  if t.pending.utf8ByteSize + line.utf8ByteSize ≤ capacity ∧ line.utf8ByteSize < capacity then
    (.ok (), t.hold line)
  else
    match t.drain with
    | (.error fault, t') => (.error fault, t')
    | (.ok (), t') => if line.utf8ByteSize < capacity then (.ok (), t'.hold line) else pass line t'

def output : Output TableText where
  title := put (Row.title ++ "\n")
  row r := put (r.render ++ "\n")
  flush := drain

/-- Drains the buffer and gives up the writer; what cannot be drained is lost. -/
def close (t : TableText) : Except Fault Unit × String := (t.drain.1, t.drain.2.reached)

end TableText

end ReactorTrace
