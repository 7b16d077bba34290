import Mathlib.Algebra.GroupWithZero.Nat
import ReactorTrace.Proofs.HeldText
import ReactorTrace.Proofs.RowText
import ReactorTrace.Proofs.Splitting

/-! Tables cut into lines, and rows into fields. Names are not quoted, so that a name counts for as many
fields as it has pieces; but no field begins in a name and ends behind it, and the numbers always stand in
the last five fields, from which they are read back (`table_splits`). -/

namespace ReactorTrace

namespace Row

open Text

theorem unbordered_separator : Split.Unbordered separator.toList :=
  Split.unbordered_pair (by decide)

theorem separator_ne_nil : separator.toList ≠ [] := by decide

theorem Fits.split_eq {text : String} (h : Fits text) : split separator text = [text] :=
  split_of_absent h.no_separator

/-- The fields behind the names. -/
def numbers (row : Row) : List String :=
  [renderReaction row.reaction, row.worker.toInt.repr, row.elapsedLogical.toInt.repr,
    row.microstep.toInt.repr, row.elapsedPhysical.toInt.repr]

theorem fields_eq (row : Row) : row.fields = row.event :: row.reactor :: row.numbers := rfl

theorem fits_numbers (row : Row) : ∀ column ∈ row.numbers, Fits column := by
  intro column hcolumn
  simp only [numbers, List.mem_cons, List.not_mem_nil, or_false] at hcolumn
  rcases hcolumn with rfl | rfl | rfl | rfl | rfl
  · exact fits_renderReaction _
  all_goals exact fits_repr _

theorem length_numbers (row : Row) : row.numbers.length = 5 := rfl

/-! ### Fields -/

theorem split_render (row : Row) :
    split separator row.render =
      split separator row.event ++ split separator row.reactor ++ row.numbers := by
  have hnumbers : row.numbers.flatMap (split separator) = row.numbers :=
    Split.flatMap_eq_self fun column hcolumn => (row.fits_numbers column hcolumn).split_eq
  rw [render, split_intercalate unbordered_separator separator_ne_nil (by simp [fields]), fields_eq,
    List.flatMap_cons, List.flatMap_cons, hnumbers, List.append_assoc]

theorem length_split_render_eq_seven_iff (row : Row) :
    (split separator row.render).length = 7 ↔
      ¬ separator.toList <:+: row.event.toList ∧ ¬ separator.toList <:+: row.reactor.toList := by
  have hlength (text : String) := length_split_eq_one_iff unbordered_separator separator_ne_nil text
  have hevent := length_split_pos separator row.event
  have hreactor := length_split_pos separator row.reactor
  rw [split_render, List.length_append, List.length_append, length_numbers, ← hlength, ← hlength]
  omega

/-- The names with the separator between them are one text before the last five separators. -/
theorem splitFromRight_render (row : Row) :
    splitFromRight separator 5 row.render =
      (row.event ++ separator ++ row.reactor, row.numbers) := by
  have hright := splitFromRight_intercalate unbordered_separator separator_ne_nil
    (row.event ++ separator ++ row.reactor)
    fun column hcolumn => (row.fits_numbers column hcolumn).no_separator
  rw [render, fields_eq, String.intercalate_cons_cons, ← String.intercalate_cons_append]
  exact hright

/-- The reaction that a column shows. -/
def readReaction? (column : String) : Option (Option UInt32) :=
  if column = noReaction then some none else column.toNat?.map fun n => some (.ofNat n)

theorem readReaction?_renderReaction (reaction : Option UInt32) :
    readReaction? (renderReaction reaction) = some reaction := by
  cases reaction with
  | none => rfl
  | some r =>
    have hdigits : renderReaction (some r) ≠ noReaction := fun heq =>
      Option.some_ne_none r (renderReaction_inj heq)
    rw [readReaction?, if_neg hdigits, renderReaction, Nat.toNat?_repr, Option.map_some,
      UInt32.ofNat_toNat]

/-! ### Line breaks -/

theorem count_intercalate {α : Type} [DecidableEq α] {a : α} {between : List α} (h : a ∉ between)
    (texts : List (List α)) :
    (between.intercalate texts).count a = (texts.map (List.count a)).sum := by
  induction texts with
  | nil => rfl
  | cons text texts ih =>
    by_cases hnil : texts = []
    · rw [hnil, List.intercalate_singleton, List.map_singleton, List.sum_singleton]
    · rw [List.intercalate_cons_of_ne_nil hnil, List.count_append, List.count_append,
        List.count_eq_zero_of_not_mem h, ih, List.map_cons, List.sum_cons, Nat.add_zero]

/-- Only names bring line breaks into a row. -/
theorem count_newline_render (row : Row) :
    row.render.toList.count '\n' = row.event.toList.count '\n' + row.reactor.toList.count '\n' := by
  have hnumbers : (row.numbers.map fun column => column.toList.count '\n').sum = 0 := by
    rw [List.sum_eq_zero_iff_forall_eq_nat]
    intro n hn
    obtain ⟨column, hcolumn, rfl⟩ := List.mem_map.1 hn
    exact List.count_eq_zero_of_not_mem (row.fits_numbers column hcolumn).no_newline
  rw [render, String.toList_intercalate, count_intercalate (by decide), List.map_map, fields_eq,
    List.map_cons, List.map_cons, List.sum_cons, List.sum_cons]
  exact congrArg _ (congrArg _ hnumbers)

/-- The text of a table with these rows. -/
def tableText (rows : List Row) : String :=
  title ++ "\n" ++ String.join (rows.map fun row => row.render ++ "\n")

theorem toList_tableText (rows : List Row) :
    (tableText rows).toList =
      (title.toList :: rows.map fun row => row.render.toList).flatMap (· ++ ['\n']) := by
  rw [tableText, String.toList_append, String.toList_append, String.toList_join, List.flatMap_cons,
    List.flatMap_map, List.flatMap_map]
  simp

theorem newline_not_mem_title : '\n' ∉ title.toList := by decide

/-- The line breaks of lines, and one for each of them. -/
theorem count_newline_lines (lines : List (List Char)) :
    (lines.flatMap (· ++ ['\n'])).count '\n' =
      lines.length + (lines.map (List.count '\n')).sum := by
  induction lines with
  | nil => rfl
  | cons line lines ih =>
    rw [List.flatMap_cons, List.count_append, List.count_append, List.count_singleton_self, ih,
      List.length_cons, List.map_cons, List.sum_cons]
    omega

theorem count_newline_tableText (rows : List Row) :
    (tableText rows).toList.count '\n' = 1 + rows.length +
      (rows.map fun row => row.event.toList.count '\n' + row.reactor.toList.count '\n').sum := by
  rw [toList_tableText, count_newline_lines, List.length_cons, List.length_map, List.map_cons,
    List.sum_cons, List.count_eq_zero_of_not_mem newline_not_mem_title, List.map_map]
  simp only [Function.comp_def, count_newline_render]
  omega

theorem split_tableText {rows : List Row}
    (h : ∀ row ∈ rows, '\n' ∉ row.event.toList ∧ '\n' ∉ row.reactor.toList) :
    Text.split "\n" (tableText rows) = title :: rows.map render ++ [""] := by
  have hlines : ∀ line ∈ title.toList :: rows.map fun row => row.render.toList, '\n' ∉ line := by
    rintro line (_ | ⟨_, hline⟩)
    · exact newline_not_mem_title
    · obtain ⟨row, hrow, rfl⟩ := List.mem_map.1 hline
      obtain ⟨hevent, hreactor⟩ := h row hrow
      rw [← List.count_eq_zero, count_newline_render, List.count_eq_zero_of_not_mem hevent,
        List.count_eq_zero_of_not_mem hreactor]
  have hpieces := Split.flatMap_eq_self fun line hline => Split.pieces_of_not_mem (hlines line hline)
  have hbreak : "\n".toList = ['\n'] := rfl
  rw [Text.split, toList_tableText, hbreak,
    Split.pieces_flatMap (Split.unbordered_singleton _) (List.cons_ne_nil _ _), hpieces]
  simp [Function.comp_def]

end Row

/-- A table cut into lines and fields. Written by calls, the text is the column names and the rows, each with a
line break. At separators a row is cut into the pieces of its names and five more fields, so that there are
seven fields exactly if no name contains a separator. From the right it is always cut into these five, and
they are read back as the values of the row. The line breaks are those of the lines and those in names, so
that without these the lines are the column names and the rows, in order. -/
theorem table_splits (rows : List Row) :
    (TableText.output.calls (.title :: rows.map .row) (.empty none)).close =
      (.ok (), Row.tableText rows) ∧
    (∀ row : Row,
      Text.split Row.separator row.render =
        Text.split Row.separator row.event ++ Text.split Row.separator row.reactor ++
          [Row.renderReaction row.reaction, row.worker.toInt.repr, row.elapsedLogical.toInt.repr,
            row.microstep.toInt.repr, row.elapsedPhysical.toInt.repr] ∧
      ((Text.split Row.separator row.render).length = 7 ↔
        ¬ Row.separator.toList <:+: row.event.toList ∧
        ¬ Row.separator.toList <:+: row.reactor.toList) ∧
      ∃ reaction worker logical microstep physical,
        Text.splitFromRight Row.separator 5 row.render =
          (row.event ++ Row.separator ++ row.reactor,
            [reaction, worker, logical, microstep, physical]) ∧
        Row.readReaction? reaction = some row.reaction ∧
        worker.toInt? = some row.worker.toInt ∧
        logical.toInt? = some row.elapsedLogical.toInt ∧
        microstep.toInt? = some row.microstep.toInt ∧
        physical.toInt? = some row.elapsedPhysical.toInt) ∧
    (Row.tableText rows).toList.count '\n' = 1 + rows.length +
      (rows.map fun row => row.event.toList.count '\n' + row.reactor.toList.count '\n').sum ∧
    ((∀ row ∈ rows, '\n' ∉ row.event.toList ∧ '\n' ∉ row.reactor.toList) →
      Text.split "\n" (Row.tableText rows) = Row.title :: rows.map Row.render ++ [""]) := by
  refine ⟨?_, fun row => ⟨row.split_render, row.length_split_render_eq_seven_iff,
    _, _, _, _, _, row.splitFromRight_render, Row.readReaction?_renderReaction _,
    Int.toInt?_repr _, Int.toInt?_repr _, Int.toInt?_repr _, Int.toInt?_repr _⟩,
    Row.count_newline_tableText rows, Row.split_tableText⟩
  rw [← TableText.Cutting.output_whole, TableText.close_calls, TableText.lines_cons,
    TableText.lines_rows]
  rfl

end ReactorTrace
