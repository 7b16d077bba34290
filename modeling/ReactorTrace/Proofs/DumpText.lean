import ReactorTrace.Proofs.RowText
import ReactorTrace.Proofs.Symbols

/-! Object tables read back from their dumps. Descriptions are not quoted, and may be empty or look like lines
of a dump. But identities have texts of one length, from which they can be read back, and the dump ends as
every dump does: without line breaks in the descriptions, the entries and their order are determined by the
text (`dump_determines`). -/

namespace ReactorTrace

open Text

/-! ### Identities -/

namespace ObjectId

/-- Behind its mark an identity is written with 16 lowercase digits, from which it is read back. -/
theorem exists_digits (object : ObjectId) :
    ∃ digits : List Char, object.render.toList = '0' :: 'x' :: digits ∧ digits.length = 16 ∧
      (∀ c ∈ digits, c ∈ "0123456789abcdef".toList) ∧
      Hexadecimal.read? digits = some object.value.toNat := by
  refine ⟨Hexadecimal.padded (2 * width) object.value.toNat, String.toList_ofList,
    Hexadecimal.length_padded .., fun c hc => Hexadecimal.mem_alphabet_of_mem_padded hc, ?_⟩
  rw [Hexadecimal.read?_padded]
  exact congrArg some (Nat.mod_eq_of_lt object.value.toNat_lt)

theorem length_render (object : ObjectId) : object.render.toList.length = 18 := by
  obtain ⟨digits, hrender, hlen, -⟩ := object.exists_digits
  simp [hrender, hlen]

theorem newline_not_mem_render (object : ObjectId) : '\n' ∉ object.render.toList := by
  obtain ⟨digits, hrender, -, hdigits, -⟩ := object.exists_digits
  intro hmem
  simp only [hrender, List.mem_cons] at hmem
  rcases hmem with hmem | hmem | hmem
  · revert hmem
    decide
  · revert hmem
    decide
  · have halphabet := hdigits _ hmem
    revert halphabet
    decide

theorem render_inj {object object' : ObjectId} (h : object.render = object'.render) :
    object = object' := by
  obtain ⟨digits, hrender, -, -, hread⟩ := object.exists_digits
  obtain ⟨digits', hrender', -, -, hread'⟩ := object'.exists_digits
  rw [h, hrender'] at hrender
  simp only [List.cons.injEq, true_and] at hrender
  subst hrender
  have hvalue : object.value.toNat = object'.value.toNat := Option.some.inj (hread.symm.trans hread')
  exact congrArg ObjectId.mk (UInt64.toNat_inj.1 hvalue)

end ObjectId

/-! ### Lines -/

namespace SymbolEntry

/-- The line of the entry, without its line break. -/
def text (entry : SymbolEntry) : List Char :=
  entry.object.render.toList ++ (": ".toList ++ entry.description.toList)

theorem toList_line (entry : SymbolEntry) : entry.line.toList = entry.text ++ ['\n'] := by
  simp [line, text]

/-- The border between identity and description is where every identity ends. -/
theorem text_inj {entry entry' : SymbolEntry} (h : entry.text = entry'.text) : entry = entry' := by
  obtain ⟨hobject, hrest⟩ := List.append_inj h (by rw [ObjectId.length_render, ObjectId.length_render])
  have hdescription := List.append_cancel_left hrest
  cases entry
  cases entry'
  simp only [String.toList_inj] at hobject hdescription
  rw [ObjectId.render_inj hobject, hdescription]

theorem newline_not_mem_text {entry : SymbolEntry} (h : '\n' ∉ entry.description.toList) :
    '\n' ∉ entry.text := by
  simp only [text, List.mem_append, not_or]
  exact ⟨entry.object.newline_not_mem_render, by decide, h⟩

end SymbolEntry

/-! ### Tables -/

namespace SymbolTable

theorem toList_dump (table : SymbolTable) : table.dump.toList =
    dumpTitle.toList ++ (table.toList.map SymbolEntry.text).flatMap (· ++ ['\n']) ++ dumpEnd.toList := by
  simp only [dump, String.toList_append, String.toList_join, List.flatMap_map, SymbolEntry.toList_line]

/-- The end of the dump stands behind all lines, so that nothing in a description is mistaken for it. -/
theorem toList_eq_of_dump {table table' : SymbolTable}
    (h : ∀ entry ∈ table.toList, '\n' ∉ entry.description.toList)
    (h' : ∀ entry ∈ table'.toList, '\n' ∉ entry.description.toList) (hdump : table.dump = table'.dump) :
    table.toList = table'.toList := by
  have hbreaks {table : SymbolTable} (h : ∀ entry ∈ table.toList, '\n' ∉ entry.description.toList) :
      ∀ line ∈ table.toList.map SymbolEntry.text, '\n' ∉ line := by
    intro line hline
    obtain ⟨entry, hentry, rfl⟩ := List.mem_map.1 hline
    exact SymbolEntry.newline_not_mem_text (h entry hentry)
  have hlines := congrArg String.toList hdump
  rw [toList_dump, toList_dump, List.append_cancel_right_eq, List.append_cancel_left_eq] at hlines
  have hmap := lines_inj (hbreaks h) (hbreaks h') hlines
  exact (List.map_inj_right fun _ _ => SymbolEntry.text_inj).1 hmap

/-- Two tables with the same dump have the same entries in the same order, if no description has a line
break; and every identity is written with the mark `0x` and exactly 16 lowercase digits, from which it is
read back. -/
theorem dump_determines :
    (∀ table table' : SymbolTable, (∀ entry ∈ table.toList, '\n' ∉ entry.description.toList) →
      (∀ entry ∈ table'.toList, '\n' ∉ entry.description.toList) → table.dump = table'.dump →
      table.toList = table'.toList) ∧
    ∀ object : ObjectId, ∃ digits : List Char, object.render.toList = '0' :: 'x' :: digits ∧
      digits.length = 16 ∧ (∀ c ∈ digits, c ∈ "0123456789abcdef".toList) ∧
      Hexadecimal.read? digits = some object.value.toNat :=
  ⟨fun _ _ => toList_eq_of_dump, ObjectId.exists_digits⟩

/-- Descriptions that look like the end of a dump and like a line, and an identity that is described again
by nothing, in tables made with and without room. -/
theorem dump_determines_lookalikes :
    let entries : List SymbolEntry :=
      [⟨⟨16⟩, "-------"⟩, ⟨⟨17⟩, "0x0000000000000010: -------"⟩, ⟨⟨16⟩, ""⟩]
    let table := ofList entries
    let table' := (withCapacity 3).insertAll entries
    (∀ entry ∈ table.toList, '\n' ∉ entry.description.toList) ∧
      (∀ entry ∈ table'.toList, '\n' ∉ entry.description.toList) ∧ table.dump = table'.dump ∧
      table.toList = table'.toList := by
  intro entries table table'
  have htable : table.toList = entries := toList_ofList entries
  have htable' : table'.toList = entries := toList_insertAll (withCapacity 3) entries
  have hbreaks : ∀ entry ∈ entries, '\n' ∉ entry.description.toList := by decide
  have hdump : table.dump = table'.dump := by rw [dump, dump, htable, htable']
  exact ⟨htable ▸ hbreaks, htable' ▸ hbreaks, hdump,
    dump_determines.1 table table' (htable ▸ hbreaks) (htable' ▸ hbreaks) hdump⟩

end SymbolTable

end ReactorTrace
