import ReactorTrace.Output.Table
import ReactorTrace.Proofs.Outputs

/-! The text of a table. A line that is taken goes to the end of the text, whether it waits in the buffer
or has reached the writer, and a drain adds nothing to it. A writer that takes text fails no call, so that
the table of a conversion consists of the lines of its calls (`convert_table`). -/

namespace ReactorTrace

/-- What a call adds to the text. -/
def OutputCall.line : OutputCall → String
  | title => Row.title ++ "\n"
  | row r => r.render ++ "\n"
  | flush => ""

namespace TableText

def lines (calls : List OutputCall) : String := String.join (calls.map OutputCall.line)

@[simp] theorem lines_nil : lines [] = "" := rfl

@[simp] theorem lines_cons (call : OutputCall) (calls : List OutputCall) :
    lines (call :: calls) = call.line ++ lines calls := by
  rw [lines, List.map_cons, String.join_cons, lines]

@[simp] theorem lines_append (calls more : List OutputCall) :
    lines (calls ++ more) = lines calls ++ lines more := by
  rw [lines, List.map_append, String.join_append, lines, lines]

theorem lines_rows (rows : List Row) :
    lines (rows.map .row) = String.join (rows.map fun r => r.render ++ "\n") := by
  rw [lines, List.map_map]
  rfl

/-- The title, the rows and a flush. -/
theorem lines_conversion (rows : List Row) :
    lines (.title :: (rows.map .row ++ [.flush])) =
      Row.title ++ "\n" ++ String.join (rows.map fun r => r.render ++ "\n") := by
  rw [lines_cons, lines_append, lines_rows, lines_cons, lines_nil]
  simp [OutputCall.line]

/-! ### A writer that takes text -/

variable {t : TableText}

theorem drain_of_working (h : t.refusal = none) : t.drain = (.ok (), ⟨t.text, "", none⟩) := by
  obtain ⟨reached, pending, refusal⟩ := t
  obtain rfl : refusal = none := h
  rfl

theorem pass_of_working (h : t.refusal = none) (piece : String) :
    t.pass piece = (.ok (), ⟨t.reached ++ piece, t.pending, none⟩) := by
  obtain ⟨reached, pending, refusal⟩ := t
  obtain rfl : refusal = none := h
  rfl

theorem text_hold (t : TableText) (piece : String) : (t.hold piece).text = t.text ++ piece := by
  obtain ⟨reached, pending, refusal⟩ := t
  rw [hold, text, text, String.append_assoc]

theorem put_of_working (h : t.refusal = none) (line : String) :
    ∃ t' : TableText, t.put line = (.ok (), t') ∧ t'.refusal = none ∧ t'.text = t.text ++ line := by
  unfold put
  split
  · exact ⟨_, rfl, h, t.text_hold line⟩
  · rw [drain_of_working h]
    dsimp only
    split
    · refine ⟨_, rfl, rfl, ?_⟩
      rw [text_hold]
      simp [text]
    · refine ⟨_, pass_of_working rfl line, rfl, ?_⟩
      simp [text]

/-- The writer takes text, and the text is that of the calls recorded so far. -/
structure Shows (t : TableText) (record : Recording) : Prop where
  working : t.refusal = none
  text_eq : t.text = lines record.calls.toList

open Output in
theorem Shows.put {record : Recording} (h : t.Shows record) (call : OutputCall) (rows : Nat) :
    Agree Shows (t.put call.line)
      ((.ok (), ⟨record.calls.push call, rows⟩) : Except Fault Unit × Recording) := by
  obtain ⟨t', hput, hworking, htext⟩ := put_of_working h.working call.line
  refine ⟨.ok (), t', _, hput, rfl, hworking, ?_⟩
  rw [htext, h.text_eq, Array.toList_push, lines_append, lines_cons, lines_nil, String.append_empty]

theorem title_output (t : TableText) : output.title t = t.put (Row.title ++ "\n") := by
  rw [output]

theorem row_output (r : Row) (t : TableText) : output.row r t = t.put (r.render ++ "\n") := by
  rw [output]

theorem flush_output (t : TableText) : output.flush t = t.drain := by
  rw [output]

theorem matches_recording : output.Matches (Recording.output .none) Shows where
  title t record h := by
    rw [title_output]
    exact h.put .title record.rows
  row r t record h := by
    rw [row_output]
    exact h.put (.row r) (record.rows + 1)
  flush t record h := by
    rw [flush_output, drain_of_working h.working]
    refine ⟨.ok (), _, _, rfl, rfl, rfl, ?_⟩
    rw [Array.toList_push, lines_append, ← h.text_eq]
    simp [text, OutputCall.line]

end TableText

/-- A conversion to a table whose writer takes text goes as it does by itself, and the text is that of
its calls. -/
theorem convert_table (config : Config) (source : Source) :
    let outcome := convert config TableText.output source (.empty none)
    let recorded := convert config (Recording.output .none) source .empty
    outcome.result = recorded.result ∧ outcome.printed = recorded.printed ∧
      outcome.output.text = TableText.lines (config.calls source) := by
  have hempty : (TableText.empty none).Shows .empty := ⟨rfl, rfl⟩
  obtain ⟨hresult, hprinted, -, hshows⟩ :=
    convert_matches TableText.matches_recording config source hempty
  exact ⟨hresult, hprinted, hshows.text_eq⟩

end ReactorTrace
