import Mathlib.Data.List.Infix
import ReactorTrace.Row
import Std.Data.String.ToInt

/-! Rows read back from their text. Fields are not quoted, so that a text keeps its fields apart only if no
separator begins in any of them, not even one that is completed by what stands behind (`Undivided`). Then
the fields of a row are determined by its line, and the rows of a table by its lines (`Row.render_inj`,
`Row.eq_of_lines`). Numbers, and what is shown for a missing reaction, are always such fields. -/

namespace ReactorTrace

variable {α : Type}

/-! ### Separators -/

/-- No separator begins in the text, whatever stands behind it. -/
def Undivided (separator text : List α) : Prop := ¬ separator <:+: text ++ separator.dropLast

section Separator

variable {separator : List α}

theorem eq_of_append_separator_of_le {text text' rest rest' : List α} (htext : Undivided separator text')
    (h : text ++ separator ++ rest = text' ++ separator ++ rest') (hle : text.length ≤ text'.length) :
    text = text' := by
  have hfirst : text <+: text' ++ separator ++ rest' := by
    rw [← h, List.append_assoc]
    exact List.prefix_append ..
  have hsecond : text' <+: text' ++ separator ++ rest' := by
    rw [List.append_assoc]
    exact List.prefix_append ..
  have hprefix : text <+: text' := List.prefix_of_prefix_length_le hfirst hsecond hle
  obtain ⟨more, rfl⟩ := hprefix
  rw [List.append_assoc, List.append_assoc, List.append_assoc, List.append_cancel_left_eq] at h
  cases more with
  | nil => rw [List.append_nil]
  | cons a more =>
    -- a separator begins within the longer one of the two texts
    have hbegin : separator <+: a :: more ++ (separator ++ rest') := h ▸ List.prefix_append ..
    have hwithin : a :: more ++ separator.dropLast <+: a :: more ++ (separator ++ rest') :=
      (List.prefix_append_right_inj _).2
        ((List.dropLast_prefix separator).trans (List.prefix_append ..))
    have hlen : separator.length ≤ (a :: more ++ separator.dropLast).length := by
      rw [List.length_append, List.length_cons, List.length_dropLast]
      omega
    have hsep := List.prefix_of_prefix_length_le hbegin hwithin hlen
    obtain ⟨after, hafter⟩ := hsep
    exact absurd ⟨text, after, by rw [List.append_assoc, hafter, ← List.append_assoc]⟩ htext

theorem append_separator_inj {text text' rest rest' : List α} (htext : Undivided separator text)
    (htext' : Undivided separator text')
    (h : text ++ separator ++ rest = text' ++ separator ++ rest') : text = text' ∧ rest = rest' := by
  have heq : text = text' := by
    rcases Nat.le_total text.length text'.length with hle | hle
    · exact eq_of_append_separator_of_le htext' h hle
    · exact (eq_of_append_separator_of_le htext h.symm hle).symm
  subst heq
  exact ⟨rfl, List.append_cancel_left h⟩

/-- As many fields, each of them undivided, are determined by what they are joined to. -/
theorem intercalate_inj {fields fields' : List (List α)} (hlen : fields.length = fields'.length)
    (hfields : ∀ field ∈ fields, Undivided separator field)
    (hfields' : ∀ field ∈ fields', Undivided separator field)
    (h : separator.intercalate fields = separator.intercalate fields') : fields = fields' := by
  induction fields generalizing fields' with
  | nil => exact (List.length_eq_zero_iff.1 hlen.symm).symm
  | cons field fields ih =>
    obtain ⟨field', fields', rfl⟩ := List.exists_cons_of_length_eq_add_one hlen.symm
    obtain ⟨hfield, hmore⟩ := List.forall_mem_cons.1 hfields
    obtain ⟨hfield', hmore'⟩ := List.forall_mem_cons.1 hfields'
    have hlen' : fields.length = fields'.length := Nat.succ.inj hlen
    by_cases hnil : fields = []
    · obtain rfl := hnil
      obtain rfl := List.length_eq_zero_iff.1 hlen'.symm
      rw [List.intercalate_singleton, List.intercalate_singleton] at h
      rw [h]
    · have hnil' : fields' ≠ [] := fun hnil' =>
        hnil (List.length_eq_zero_iff.1 (hlen'.trans (by rw [hnil', List.length_nil])))
      rw [List.intercalate_cons_of_ne_nil hnil, List.intercalate_cons_of_ne_nil hnil'] at h
      obtain ⟨rfl, hrest⟩ := append_separator_inj hfield hfield' h
      rw [ih hlen' hmore hmore' hrest]

end Separator

theorem undivided_singleton {a : α} {text : List α} (h : a ∉ text) : Undivided [a] text := by
  rintro ⟨before, after, hinfix⟩
  apply h
  rw [← List.append_nil text]
  exact hinfix ▸ by simp

/-- Lines without line breaks are determined by their text. -/
theorem lines_inj {lines lines' : List (List Char)} (hlines : ∀ line ∈ lines, '\n' ∉ line)
    (hlines' : ∀ line ∈ lines', '\n' ∉ line)
    (h : lines.flatMap (· ++ ['\n']) = lines'.flatMap (· ++ ['\n'])) : lines = lines' := by
  induction lines generalizing lines' with
  | nil => cases lines' with
    | nil => rfl
    | cons line' lines' => simp at h
  | cons line lines ih => cases lines' with
    | nil => simp at h
    | cons line' lines' =>
      obtain ⟨hline, hmore⟩ := List.forall_mem_cons.1 hlines
      obtain ⟨hline', hmore'⟩ := List.forall_mem_cons.1 hlines'
      rw [List.flatMap_cons, List.flatMap_cons] at h
      obtain ⟨rfl, hrest⟩ :=
        append_separator_inj (undivided_singleton hline) (undivided_singleton hline') h
      rw [ih hmore hmore' hrest]

namespace Row

/-! ### Fields -/

/-- A text without line breaks and without separators. -/
structure Fits (text : String) : Prop where
  no_newline : '\n' ∉ text.toList
  no_separator : ¬ separator.toList <:+: text.toList

instance (text : String) : Decidable (Fits text) :=
  decidable_of_iff ('\n' ∉ text.toList ∧ ¬ separator.toList <:+: text.toList)
    ⟨fun h => ⟨h.1, h.2⟩, fun h => ⟨h.no_newline, h.no_separator⟩⟩

theorem Fits.undivided {text : String} (h : Fits text) :
    Undivided separator.toList text.toList := by
  intro hinfix
  have hlast : separator.toList = [','] ++ [' '] := by decide
  have hfirst : separator.toList.dropLast = [','] := by decide
  rw [hfirst, List.infix_concat_iff, List.suffix_concat_iff] at hinfix
  rcases hinfix with (hnil | ⟨front, hfront, -⟩) | hinside
  · simp [hlast] at hnil
  · rw [hlast] at hfront
    simpa using (List.append_inj' hfront rfl).2
  · exact h.no_separator hinside

theorem fits_of_forall {text : String} (h : ∀ c ∈ text.toList, c = '-' ∨ c.isAlphanum) :
    Fits text := by
  constructor
  · intro hmem
    rcases h _ hmem with h | h <;> revert h <;> decide
  · rintro ⟨before, after, hinfix⟩
    have hmem : ',' ∈ text.toList := by
      rw [← hinfix]
      simp [separator]
    rcases h _ hmem with h | h <;> revert h <;> decide

theorem isAlphanum_of_mem_repr {n : Nat} {c : Char} (h : c ∈ n.repr.toList) : c.isAlphanum := by
  rw [Nat.toList_repr] at h
  have hdigit := Nat.isDigit_of_mem_toDigits (by decide) (by decide) h
  simp [Char.isAlphanum, hdigit]

theorem fits_repr (n : Int) : Fits n.repr := by
  apply fits_of_forall
  intro c hc
  cases n with
  | ofNat n => exact .inr (isAlphanum_of_mem_repr hc)
  | negSucc n =>
    rw [show (Int.negSucc n).repr = "-" ++ (n + 1).repr from rfl, String.toList_append,
      List.mem_append] at hc
    rcases hc with hc | hc
    · left
      simpa using hc
    · exact .inr (isAlphanum_of_mem_repr hc)

theorem fits_renderReaction (reaction : Option UInt32) : Fits (renderReaction reaction) := by
  apply fits_of_forall
  intro c hc
  cases reaction with
  | none =>
    have hletters : noReaction.toList.all Char.isAlphanum = true := by decide
    exact .inr (List.all_eq_true.1 hletters c hc)
  | some r => exact .inr (isAlphanum_of_mem_repr hc)

/-! ### Rows -/

/-- A row whose names fit. -/
structure FitsLine (row : Row) : Prop where
  event : Fits row.event
  reactor : Fits row.reactor

variable {row row' : Row}

theorem FitsLine.fields (h : row.FitsLine) : ∀ field ∈ row.fields, Fits field := by
  intro field hfield
  simp only [Row.fields, List.mem_cons, List.not_mem_nil, or_false] at hfield
  rcases hfield with rfl | rfl | rfl | rfl | rfl | rfl | rfl
  · exact h.event
  · exact h.reactor
  · exact fits_renderReaction _
  all_goals exact fits_repr _

theorem FitsLine.newline_not_mem_render (h : row.FitsLine) : '\n' ∉ row.render.toList := by
  have hfields := h.fields
  rw [render, String.toList_intercalate]
  generalize row.fields = fields at hfields
  induction fields with
  | nil => simp
  | cons field fields ih =>
    obtain ⟨hfield, hmore⟩ := List.forall_mem_cons.1 hfields
    by_cases hnil : fields = []
    · rw [hnil, List.map_singleton, List.intercalate_singleton]
      exact hfield.no_newline
    · rw [List.map_cons, List.intercalate_cons_of_ne_nil fun h => hnil (List.map_eq_nil_iff.1 h)]
      simp only [List.mem_append, not_or]
      exact ⟨⟨hfield.no_newline, by decide⟩, ih hmore⟩

theorem renderReaction_inj {reaction reaction' : Option UInt32}
    (h : renderReaction reaction = renderReaction reaction') : reaction = reaction' := by
  have hdigits (r : UInt32) : noReaction ≠ r.toNat.repr := by
    intro heq
    have hmem : 'n' ∈ r.toNat.repr.toList := by
      rw [← heq]
      decide
    rw [Nat.toList_repr] at hmem
    have hdigit := Nat.isDigit_of_mem_toDigits (by decide) (by decide) hmem
    revert hdigit
    decide
  cases reaction with
  | none => cases reaction' with
    | none => rfl
    | some r' => exact absurd h (hdigits r')
  | some r => cases reaction' with
    | none => exact absurd h.symm (hdigits r)
    | some r' => rw [UInt32.toNat_inj.1 (Nat.repr_injective h)]

theorem fields_inj (h : row.fields = row'.fields) : row = row' := by
  obtain ⟨event, reactor, reaction, worker, logical, microstep, physical⟩ := row
  obtain ⟨event', reactor', reaction', worker', logical', microstep', physical'⟩ := row'
  simp only [fields, List.cons.injEq, Int.repr_inj, Int32.toInt_inj, Int64.toInt_inj, and_true] at h
  obtain ⟨rfl, rfl, hreaction, rfl, rfl, rfl, rfl⟩ := h
  rw [renderReaction_inj hreaction]

theorem FitsLine.undivided (h : row.FitsLine) :
    ∀ field ∈ row.fields.map String.toList, Undivided separator.toList field := by
  intro field hfield
  obtain ⟨text, htext, rfl⟩ := List.mem_map.1 hfield
  exact (h.fields text htext).undivided

theorem render_inj (hrow : row.FitsLine) (hrow' : row'.FitsLine) (h : row.render = row'.render) :
    row = row' := by
  have hlist := congrArg String.toList h
  rw [render, render, String.toList_intercalate, String.toList_intercalate] at hlist
  have hmap := intercalate_inj (by simp [fields]) hrow.undivided hrow'.undivided hlist
  exact fields_inj ((List.map_inj_right fun _ _ => String.toList_inj.1).1 hmap)

/-- The rows of a table are determined by its text. -/
theorem eq_of_lines {rows rows' : List Row} (hrows : ∀ row ∈ rows, row.FitsLine)
    (hrows' : ∀ row ∈ rows', row.FitsLine)
    (h : String.join (rows.map fun row => row.render ++ "\n") =
      String.join (rows'.map fun row => row.render ++ "\n")) : rows = rows' := by
  have hlines (rows : List Row) : (String.join (rows.map fun row => row.render ++ "\n")).toList =
      (rows.map fun row => row.render.toList).flatMap (· ++ ['\n']) := by
    rw [String.toList_join, List.flatMap_map, List.flatMap_map]
    simp
  have hbreaks {rows : List Row} (hrows : ∀ row ∈ rows, row.FitsLine) :
      ∀ line ∈ rows.map fun row => row.render.toList, '\n' ∉ line := by
    intro line hline
    obtain ⟨row, hrow, rfl⟩ := List.mem_map.1 hline
    exact (hrows row hrow).newline_not_mem_render
  have hlist := congrArg String.toList h
  rw [hlines, hlines] at hlist
  have hmap := lines_inj (hbreaks hrows) (hbreaks hrows') hlist
  clear h hlist
  induction rows generalizing rows' with
  | nil => exact (List.map_eq_nil_iff.1 hmap.symm).symm
  | cons row rows ih =>
    obtain ⟨row', rows', rfl, hrow, hmore⟩ := List.map_eq_cons_iff.1 hmap.symm
    obtain ⟨hfits, hrows⟩ := List.forall_mem_cons.1 hrows
    obtain ⟨hfits', hrows'⟩ := List.forall_mem_cons.1 hrows'
    rw [render_inj hfits hfits' (String.toList_inj.1 hrow.symm), ih hrows hrows' hmore.symm]

end Row

end ReactorTrace
