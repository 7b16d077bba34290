import ReactorTrace.Proofs.TableLines

/-! Text on its way to the writer of a table. A line may be handed over in pieces, cut in whatever way. What
has reached the writer and what is held back are together what was taken, in its order, so that nothing is
lost and nothing doubled. A writer that takes text fails no call; one that refuses text fails a flush
exactly if text is held back, and this text is kept (`text_of_calls`). -/

namespace ReactorTrace

variable {σ : Type}

/-- What a call returns. -/
def Output.result (out : Output σ) (s : σ) : OutputCall → Except Fault Unit
  | .title => (out.title s).1
  | .row r => (out.row r s).1
  | .flush => (out.flush s).1

theorem join_intersperse (separator : String) (texts : List String) :
    String.join (texts.intersperse separator) = separator.intercalate texts := by
  induction texts with
  | nil => rfl
  | cons text texts ih =>
    cases texts with
    | nil => simp
    | cons next texts =>
      rw [List.intersperse_cons_cons, String.join_cons, String.join_cons, ih,
        String.intercalate_cons_cons, String.append_assoc]

namespace TableText

/-- Takes pieces one after the other, up to the first that is not taken. -/
def putAll : List String → TableText → Except Fault Unit × TableText
  | [], t => (.ok (), t)
  | piece :: pieces, t =>
    match t.put piece with
    | (.error fault, t') => (.error fault, t')
    | (.ok (), t') => putAll pieces t'

/-- The pieces in which the line of each call is handed over. -/
structure Cutting where
  pieces : OutputCall → List String
  join_pieces : ∀ call, String.join (pieces call) = call.line

namespace Cutting

def output (cutting : Cutting) : Output TableText where
  title := putAll (cutting.pieces .title)
  row r := putAll (cutting.pieces (.row r))
  flush := drain

/-- Every line in one piece. -/
def whole : Cutting where
  pieces call := [call.line]
  join_pieces call := by rw [String.join_cons, String.join_nil, String.append_empty]

/-- Every field, separator and line break for itself. -/
def byField : Cutting where
  pieces
    | .title => [Row.title, "\n"]
    | .row r => r.fields.intersperse Row.separator ++ ["\n"]
    | .flush => []
  join_pieces
    | .title => by
      rw [String.join_cons, String.join_cons, String.join_nil, String.append_empty, OutputCall.line]
    | .row r => by
      rw [String.join_append, join_intersperse, String.join_cons, String.join_nil,
        String.append_empty, OutputCall.line, Row.render]
    | .flush => by rw [String.join_nil, OutputCall.line]

theorem output_whole : whole.output = TableText.output := by
  have hput (line : String) : putAll [line] = put line := by
    funext t
    rw [putAll]
    rcases t.put line with ⟨_ | _, _⟩ <;> rfl
  simp only [output, whole, TableText.output, hput]
  rfl

end Cutting

/-! ### One call -/

variable {t : TableText}

/-- A piece is taken as a whole, or the table stays as it was. -/
theorem put_cases (t : TableText) (piece : String) :
    (∃ t' : TableText, t.put piece = (.ok (), t') ∧ t'.text = t.text ++ piece) ∨
      ∃ fault, t.put piece = (.error fault, t) := by
  obtain ⟨reached, pending, refusal⟩ := t
  cases refusal with
  | none =>
    obtain ⟨t', hput, -, htext⟩ := put_of_working (t := ⟨reached, pending, none⟩) rfl piece
    exact .inl ⟨t', hput, htext⟩
  | some fault =>
    unfold put
    split
    · exact .inl ⟨_, rfl, text_hold _ piece⟩
    · by_cases hempty : pending.isEmpty
      · rw [drain, if_pos hempty]
        dsimp only
        split
        · exact .inl ⟨_, rfl, text_hold _ piece⟩
        · exact .inr ⟨_, rfl⟩
      · rw [drain, if_neg hempty]
        exact .inr ⟨_, rfl⟩

/-- Of the pieces the front is taken, and all of them unless one fails. -/
theorem exists_taken_putAll (pieces : List String) (t : TableText) :
    ∃ taken left, String.join pieces = taken ++ left ∧ (putAll pieces t).2.text = t.text ++ taken ∧
      ((putAll pieces t).1 = .ok () → left = "") := by
  induction pieces generalizing t with
  | nil => exact ⟨"", "", rfl, String.append_empty.symm, fun _ => rfl⟩
  | cons piece pieces ih =>
    rw [String.join_cons, putAll]
    rcases t.put_cases piece with ⟨t', hput, htext⟩ | ⟨fault, hput⟩
    · obtain ⟨taken, left, hjoin, htaken, hleft⟩ := ih t'
      rw [hput]
      refine ⟨piece ++ taken, left, ?_, ?_, hleft⟩
      · rw [hjoin, String.append_assoc]
      · rw [htaken, htext, String.append_assoc]
    · rw [hput]
      refine ⟨"", piece ++ String.join pieces, String.empty_append.symm, String.append_empty.symm,
        fun hok => ?_⟩
      cases hok

theorem text_drain (t : TableText) : t.drain.2.text = t.text := by
  obtain ⟨reached, pending, _ | fault⟩ := t
  · exact String.append_empty
  · rfl

/-- A call adds to the text the front of its line, and all of it unless it fails. -/
theorem exists_taken_call (cutting : Cutting) (t : TableText) (call : OutputCall) :
    ∃ taken left, call.line = taken ++ left ∧ (cutting.output.call t call).text = t.text ++ taken ∧
      (cutting.output.result t call = .ok () → left = "") := by
  rw [← cutting.join_pieces call]
  cases call with
  | title => exact exists_taken_putAll _ t
  | row r => exact exists_taken_putAll _ t
  | flush =>
    refine ⟨"", "", cutting.join_pieces .flush, ?_, fun _ => rfl⟩
    rw [String.append_empty]
    exact t.text_drain

/-! ### A writer that takes text -/

theorem putAll_of_working (h : t.refusal = none) (pieces : List String) :
    ∃ t' : TableText, putAll pieces t = (.ok (), t') ∧ t'.refusal = none ∧
      t'.text = t.text ++ String.join pieces := by
  induction pieces generalizing t with
  | nil => exact ⟨t, rfl, h, String.append_empty.symm⟩
  | cons piece pieces ih =>
    obtain ⟨t', hput, hworking, htext⟩ := put_of_working h piece
    obtain ⟨t'', hmore, hworking', htext'⟩ := ih hworking
    refine ⟨t'', ?_, hworking', ?_⟩
    · rw [putAll, hput]
      exact hmore
    · rw [htext', htext, String.join_cons, String.append_assoc]

/-- Every call succeeds, and adds its line. -/
theorem call_of_working (cutting : Cutting) (h : t.refusal = none) (call : OutputCall) :
    cutting.output.result t call = .ok () ∧ (cutting.output.call t call).refusal = none ∧
      (cutting.output.call t call).text = t.text ++ call.line := by
  rw [← cutting.join_pieces call]
  have hput : ∀ pieces : List String, (putAll pieces t).1 = .ok () ∧
      (putAll pieces t).2.refusal = none ∧
      (putAll pieces t).2.text = t.text ++ String.join pieces := by
    intro pieces
    obtain ⟨t', hput, hworking, htext⟩ := putAll_of_working h pieces
    rw [hput]
    exact ⟨rfl, hworking, htext⟩
  cases call with
  | title => exact hput _
  | row r => exact hput _
  | flush =>
    rw [cutting.join_pieces]
    have hdrain := drain_of_working h
    refine ⟨congrArg Prod.fst hdrain, congrArg (refusal ∘ Prod.snd) hdrain, ?_⟩
    exact t.text_drain.trans String.append_empty.symm

theorem calls_of_working (cutting : Cutting) (h : t.refusal = none) (calls : List OutputCall) :
    (cutting.output.calls calls t).refusal = none ∧
      (cutting.output.calls calls t).text = t.text ++ lines calls := by
  induction calls generalizing t with
  | nil => exact ⟨h, String.append_empty.symm⟩
  | cons call calls ih =>
    obtain ⟨-, hworking, htext⟩ := call_of_working cutting h call
    obtain ⟨hworking', htext'⟩ := ih hworking
    rw [Output.calls_cons]
    refine ⟨hworking', ?_⟩
    rw [htext', htext, lines_cons, String.append_assoc]

theorem close_of_working (h : t.refusal = none) : t.close = (.ok (), t.text) := by
  rw [close, drain_of_working h]

theorem close_calls (cutting : Cutting) (calls : List OutputCall) :
    (cutting.output.calls calls (.empty none)).close = (.ok (), lines calls) := by
  obtain ⟨hworking, htext⟩ := calls_of_working (t := .empty none) cutting rfl calls
  rw [close_of_working hworking, htext]
  exact congrArg _ String.empty_append

/-- Whether lines are handed over as a whole or by field is not seen in the end. -/
theorem close_calls_byField (calls : List OutputCall) :
    (Cutting.byField.output.calls calls (.empty none)).close =
      (output.calls calls (.empty none)).close := by
  rw [close_calls, ← Cutting.output_whole, close_calls]

/-! ### A writer that refuses text -/

theorem hold_hold (t : TableText) (piece more : String) :
    (t.hold piece).hold more = t.hold (piece ++ more) := by
  obtain ⟨reached, pending, refusal⟩ := t
  rw [hold, hold, hold, String.append_assoc]

theorem hold_empty (t : TableText) : t.hold "" = t := by
  obtain ⟨reached, pending, refusal⟩ := t
  rw [hold, String.append_empty]

theorem pending_hold (t : TableText) (piece : String) :
    (t.hold piece).pending = t.pending ++ piece := rfl

/-- Pieces for which there is room are held back. -/
theorem putAll_of_room {pieces : List String}
    (h : (t.pending ++ String.join pieces).utf8ByteSize < capacity) :
    putAll pieces t = (.ok (), t.hold (String.join pieces)) := by
  induction pieces generalizing t with
  | nil => rw [putAll, String.join_nil, hold_empty]
  | cons piece pieces ih =>
    rw [String.join_cons, ← String.append_assoc] at h
    have hput : t.put piece = (.ok (), t.hold piece) := by
      rw [String.utf8ByteSize_append, String.utf8ByteSize_append] at h
      exact if_pos ⟨by omega, by omega⟩
    rw [← pending_hold] at h
    rw [putAll, hput]
    dsimp only
    rw [ih h, hold_hold, String.join_cons]

theorem call_of_room (cutting : Cutting) {call : OutputCall} (hline : call ≠ .flush)
    (h : (t.pending ++ call.line).utf8ByteSize < capacity) :
    cutting.output.result t call = .ok () ∧ cutting.output.call t call = t.hold call.line := by
  rw [← cutting.join_pieces call] at h ⊢
  have hput := putAll_of_room h
  cases call with
  | title => exact ⟨congrArg Prod.fst hput, congrArg Prod.snd hput⟩
  | row r => exact ⟨congrArg Prod.fst hput, congrArg Prod.snd hput⟩
  | flush => exact absurd rfl hline

theorem drain_of_refusing {fault : IoFault} (h : t.refusal = some fault) :
    t.drain = (if t.pending = "" then .ok () else .error (.io fault), t) := by
  obtain ⟨reached, pending, refusal⟩ := t
  obtain rfl : refusal = some fault := h
  simp only [drain, String.isEmpty_iff]

/-- Lines for which there is room are held back, and no flush changes anything. -/
theorem calls_of_refusing (cutting : Cutting) {fault : IoFault} {calls : List OutputCall}
    (hrefusal : t.refusal = some fault)
    (hroom : (t.pending ++ lines calls).utf8ByteSize < capacity) :
    cutting.output.calls calls t = t.hold (lines calls) := by
  induction calls generalizing t with
  | nil => rw [Output.calls_nil, lines_nil, hold_empty]
  | cons call calls ih =>
    rw [lines_cons, ← String.append_assoc] at hroom
    have hmore := hroom
    rw [← pending_hold] at hmore
    have hcall : cutting.output.call t call = t.hold call.line := by
      by_cases hflush : call = .flush
      · rw [hflush, OutputCall.line, hold_empty]
        exact congrArg Prod.snd (drain_of_refusing hrefusal)
      · rw [String.utf8ByteSize_append] at hroom
        exact (call_of_room cutting hflush (by omega)).2
    rw [Output.calls_cons, hcall, ih (t := t.hold call.line) hrefusal hmore, hold_hold, lines_cons]

/-! ### Flushes -/

/-- A flush adds nothing to the lines. -/
theorem lines_filter (calls : List OutputCall) : lines (calls.filter (· ≠ .flush)) = lines calls := by
  induction calls with
  | nil => rfl
  | cons call calls ih =>
    by_cases hflush : call = .flush
    · rw [hflush, List.filter_cons_of_neg (by simp), ih, lines_cons, OutputCall.line,
        String.empty_append]
    · rw [List.filter_cons_of_pos (by simpa using hflush), lines_cons, lines_cons, ih]

/-- The text of a table after any calls. Each call adds the front of its line to the text, and all of it
unless it fails. With a writer that takes text every call succeeds, the text is that of the lines written
so far, a flush or a close leaves nothing behind, and the text in the end does not depend on the flushes.
With a writer that refuses text, as long as there is room in the buffer, every line is taken and held back,
a flush or a close fails exactly if text is held back, and a flush changes nothing, so that every later one
fails too. A conversion hands over every line in one piece. -/
theorem text_of_calls (cutting : Cutting) (before : List OutputCall) :
    let out := cutting.output
    let working := out.calls before (.empty none)
    Cutting.whole.output = output ∧
    (∀ (t : TableText) (call : OutputCall), ∃ taken left, call.line = taken ++ left ∧
      (out.call t call).text = t.text ++ taken ∧ (out.result t call = .ok () → left = "")) ∧
    (working.reached ++ working.pending = lines before ∧
      (∀ call, out.result working call = .ok ()) ∧
      (out.call working .flush).pending = "" ∧
      working.close = (.ok (), lines before) ∧
      ∀ other, other.filter (· ≠ .flush) = before.filter (· ≠ .flush) →
        (out.calls other (.empty none)).close = working.close) ∧
    ∀ fault, (lines before).utf8ByteSize < capacity →
      let refusing := out.calls before (.empty (some fault))
      refusing.reached = "" ∧ refusing.pending = lines before ∧
      (∀ call ≠ .flush, (lines (before ++ [call])).utf8ByteSize < capacity →
        out.result refusing call = .ok ()) ∧
      out.result refusing .flush =
        (if refusing.pending = "" then .ok () else .error (.io fault)) ∧
      out.call refusing .flush = refusing ∧
      refusing.close = (if refusing.pending = "" then .ok () else .error (.io fault), "") ∧
      (refusing.pending ≠ "" → ∀ after, (lines (before ++ after)).utf8ByteSize < capacity →
        out.result (out.calls after refusing) .flush = .error (.io fault) ∧
        (out.calls after refusing).reached = "") := by
  intro out working
  refine ⟨Cutting.output_whole, exists_taken_call cutting, ?_, fun fault hroom => ?_⟩
  · obtain ⟨hworking, htext⟩ := calls_of_working (t := .empty none) cutting rfl before
    refine ⟨htext.trans String.empty_append,
      fun call => (call_of_working cutting hworking call).1,
      congrArg (pending ∘ Prod.snd) (drain_of_working hworking), close_calls cutting before,
      fun other hother => ?_⟩
    rw [close_calls, close_calls, ← lines_filter other, hother, lines_filter]
  · have hheld {calls : List OutputCall} (h : (lines calls).utf8ByteSize < capacity) :
        out.calls calls (.empty (some fault)) = ⟨"", lines calls, some fault⟩ := by
      have hroom : ((empty (some fault)).pending ++ lines calls).utf8ByteSize < capacity := by
        rwa [empty, String.empty_append]
      rw [calls_of_refusing cutting rfl hroom, hold, empty, String.empty_append]
    have hflush (calls : List OutputCall) :
        drain ⟨"", lines calls, some fault⟩ =
          (if lines calls = "" then .ok () else .error (.io fault), ⟨"", lines calls, some fault⟩) :=
      drain_of_refusing rfl
    intro refusing
    have hrefusing : refusing = ⟨"", lines before, some fault⟩ := hheld hroom
    rw [hrefusing]
    refine ⟨rfl, rfl, fun call hline hmore => ?_, congrArg Prod.fst (hflush before),
      congrArg Prod.snd (hflush before), ?_, fun hpending after hmore => ?_⟩
    · rw [lines_append, lines_cons, lines_nil, String.append_empty] at hmore
      exact (call_of_room cutting hline hmore).1
    · rw [close, hflush]
    · have hafter : out.calls after refusing = ⟨"", lines (before ++ after), some fault⟩ := by
        rw [← Output.calls_append]
        exact hheld hmore
      rw [← hrefusing, hafter]
      refine ⟨(congrArg Prod.fst (hflush (before ++ after))).trans (if_neg ?_), rfl⟩
      rw [lines_append, String.append_eq_empty_iff]
      exact fun hempty => hpending hempty.1

end TableText

end ReactorTrace
