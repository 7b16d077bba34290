import ReactorTrace.EventNames.Document
import ReactorTrace.Proofs.JsonTokens
import ReactorTrace.Proofs.Rows

/-! The documents that load as a table of event names. Each reader takes the tokens that write its part off
the front of a list and nothing else (`readNames_eq_ok_iff`, `readArray_eq_ok_iff`,
`readTable_eq_ok_iff`). With the spellings of tokens, a text loads exactly if it spells one of the two
forms of a document for a list of names that is not empty (`loads_documents`). -/

namespace ReactorTrace.EventNames

open Json

/-! ### Tokens -/

/-- The names are the only member of an object, or the only element of an array. -/
inductive DocumentForm
  | object
  | array
deriving DecidableEq, Inhabited

/-- The strings of an array behind its opening bracket, and its end. -/
def namesTokens (names : List String) : List Token :=
  (names.map .text).intersperse .comma ++ [.closeBracket]

def arrayTokens (names : List String) : List Token := .openBracket :: namesTokens names

/-- The tokens of a document that holds these names. -/
def DocumentForm.tokens (names : List String) : DocumentForm → List Token
  | object => [.openBrace, .text "event_names", .colon] ++ arrayTokens names ++ [.closeBrace]
  | array => [.openBracket] ++ arrayTokens names ++ [.closeBracket]

theorem namesTokens_cons_cons (name next : String) (names : List String) :
    namesTokens (name :: next :: names) = .text name :: .comma :: namesTokens (next :: names) := by
  rw [namesTokens, namesTokens, List.map_cons, List.map_cons, List.intersperse_cons_cons]
  rfl

theorem readNames_append {names : List String} (h : names ≠ []) (rest : List Token) :
    readNames (namesTokens names ++ rest) = .ok (names, rest) := by
  induction names with
  | nil => exact absurd rfl h
  | cons name names ih =>
    cases names with
    | nil => rfl
    | cons next names =>
      rw [namesTokens_cons_cons, List.cons_append, List.cons_append, readNames,
        ih (List.cons_ne_nil _ _)]

theorem readNames_eq_ok_iff {tokens rest : List Token} {names : List String} :
    readNames tokens = .ok (names, rest) ↔ names ≠ [] ∧ tokens = namesTokens names ++ rest := by
  constructor
  · intro h
    fun_induction readNames tokens generalizing names with
    | case1 name after =>
      obtain ⟨rfl, rfl⟩ := Prod.mk.inj (Except.ok.inj h)
      exact ⟨List.cons_ne_nil _ _, rfl⟩
    | case2 name after names' after' hread ih =>
      obtain ⟨rfl, rfl⟩ := Prod.mk.inj (Except.ok.inj h)
      obtain ⟨hne, rfl⟩ := ih hread
      obtain ⟨next, names, rfl⟩ := List.exists_cons_of_ne_nil hne
      rw [namesTokens_cons_cons]
      exact ⟨List.cons_ne_nil _ _, rfl⟩
    | case3 => cases h
    | case4 => cases h
    | case5 => cases h
    | case6 => cases h
  · rintro ⟨hne, rfl⟩
    exact readNames_append hne rest

theorem readArray_append (names : List String) (rest : List Token) :
    readArray (arrayTokens names ++ rest) = .ok (names, rest) := by
  cases names with
  | nil => rfl
  | cons name names =>
    rw [← readNames_append (List.cons_ne_nil name names) rest]
    cases names <;> rfl

theorem readArray_eq_ok_iff {tokens rest : List Token} {names : List String} :
    readArray tokens = .ok (names, rest) ↔ tokens = arrayTokens names ++ rest := by
  constructor
  · intro h
    unfold readArray at h
    split at h
    · obtain ⟨rfl, rfl⟩ := Prod.mk.inj (Except.ok.inj h)
      rfl
    · obtain ⟨-, rfl⟩ := readNames_eq_ok_iff.1 h
      rfl
    · cases h
    · cases h
  · rintro rfl
    exact readArray_append names rest

theorem readObjectEnd_eq_ok {tokens rest : List Token} (h : readObjectEnd tokens = .ok rest) :
    tokens = .closeBrace :: rest := by
  unfold readObjectEnd at h
  split at h
  · rw [Except.ok.inj h]
  · cases h
  · cases h

theorem readArrayEnd_eq_ok {tokens rest : List Token} (h : readArrayEnd tokens = .ok rest) :
    tokens = .closeBracket :: rest := by
  unfold readArrayEnd at h
  split at h
  · rw [Except.ok.inj h]
  · cases h

theorem bind_eq_ok {α β : Type} {x : Except Defect α} {f : α → Except Defect β} {b : β}
    (h : x >>= f = .ok b) : ∃ a, x = .ok a ∧ f a = .ok b := by
  cases x with
  | error => cases h
  | ok a => exact ⟨a, rfl, h⟩

theorem readTable_append (form : DocumentForm) (names : List String) (rest : List Token) :
    readTable (form.tokens names ++ rest) = .ok (names, rest) := by
  cases form with
  | object =>
    have hread := readArray_append names (.closeBrace :: rest)
    have hkey : "event_names" = Defect.fieldName := rfl
    rw [DocumentForm.tokens, List.append_assoc, List.append_assoc, List.singleton_append,
      List.cons_append, List.cons_append, List.cons_append, List.nil_append, readTable, if_pos hkey,
      readMember, hread]
    rfl
  | array =>
    have hread := readArray_append names (.closeBracket :: rest)
    rw [DocumentForm.tokens, List.append_assoc, List.append_assoc, List.singleton_append,
      List.singleton_append, readTable, hread]
    · rfl
    · rintro after ⟨⟩

theorem readMember_eq_ok {tokens rest : List Token} {names : List String}
    (h : readMember tokens = .ok (names, rest)) :
    tokens = .colon :: arrayTokens names ++ .closeBrace :: rest := by
  unfold readMember at h
  split at h
  · obtain ⟨⟨names', after⟩, hread, h⟩ := bind_eq_ok h
    obtain ⟨after', hend, h⟩ := bind_eq_ok h
    obtain ⟨rfl, rfl⟩ := Prod.mk.inj (Except.ok.inj h)
    rw [readArray_eq_ok_iff.1 hread, readObjectEnd_eq_ok hend]
    rfl
  · cases h

theorem readTable_eq_ok_iff {tokens rest : List Token} {names : List String} :
    readTable tokens = .ok (names, rest) ↔
      ∃ form : DocumentForm, tokens = form.tokens names ++ rest := by
  constructor
  · intro h
    unfold readTable at h
    split at h
    · cases h
    · split at h
      · next key after hkey =>
        refine ⟨.object, ?_⟩
        rw [hkey, readMember_eq_ok h, DocumentForm.tokens, List.append_assoc]
        rfl
      · cases h
    · cases h
    · cases h
    · obtain ⟨⟨names', after⟩, hread, h⟩ := bind_eq_ok h
      obtain ⟨after', hend, h⟩ := bind_eq_ok h
      obtain ⟨rfl, rfl⟩ := Prod.mk.inj (Except.ok.inj h)
      refine ⟨.array, ?_⟩
      rw [readArray_eq_ok_iff.1 hread, readArrayEnd_eq_ok hend, DocumentForm.tokens,
        List.append_assoc]
      rfl
    · cases h
    · cases h
  · rintro ⟨form, rfl⟩
    exact readTable_append form names rest

theorem ofTokens_eq_ok_iff {tokens : List Token} {table : EventNames} :
    ofTokens tokens = .ok table ↔
      table.names ≠ [] ∧ ∃ form : DocumentForm, tokens = form.tokens table.names := by
  constructor
  · intro h
    unfold ofTokens at h
    split at h
    · cases h
    · cases h
    · cases h
    · next names hne hread =>
      obtain rfl := Except.ok.inj h
      obtain ⟨form, hform⟩ := readTable_eq_ok_iff.1 hread
      exact ⟨fun hnil => hne hnil, form, by rw [hform, List.append_nil]⟩
  · rintro ⟨hne, form, rfl⟩
    have hread := readTable_append form table.names []
    rw [List.append_nil] at hread
    obtain ⟨name, names, hnames⟩ := List.exists_cons_of_ne_nil hne
    rw [ofTokens, hread, hnames]
    exact congrArg Except.ok (congrArg EventNames.mk hnames.symm)

theorem isStructural_namesTokens (names : List String) :
    ∀ t ∈ namesTokens names, t.IsStructural := by
  induction names with
  | nil => exact List.forall_mem_singleton.2 trivial
  | cons name names ih =>
    cases names with
    | nil => exact List.forall_mem_cons.2 ⟨trivial, ih⟩
    | cons next names =>
      rw [namesTokens_cons_cons]
      exact List.forall_mem_cons.2 ⟨trivial, List.forall_mem_cons.2 ⟨trivial, ih⟩⟩

theorem DocumentForm.isStructural_tokens (form : DocumentForm) (names : List String) :
    ∀ t ∈ form.tokens names, t.IsStructural := by
  have harray : ∀ t ∈ arrayTokens names, t.IsStructural :=
    List.forall_mem_cons.2 ⟨trivial, isStructural_namesTokens names⟩
  cases form with
  | object =>
    have hkey : ∀ t ∈ [.openBrace, .text "event_names", .colon], Token.IsStructural t := by
      simp [Token.IsStructural]
    exact List.forall_mem_append.2 ⟨List.forall_mem_append.2 ⟨hkey, harray⟩,
      List.forall_mem_singleton.2 trivial⟩
  | array =>
    exact List.forall_mem_append.2 ⟨List.forall_mem_append.2
      ⟨List.forall_mem_singleton.2 trivial, harray⟩, List.forall_mem_singleton.2 trivial⟩

/-! ### Documents -/

theorem parse_eq_ok_iff {text : String} {table : EventNames} :
    parse text = .ok table ↔
      table.names ≠ [] ∧ ∃ form : DocumentForm, Spelled (form.tokens table.names) text.toList := by
  rw [parse, ofTokens_eq_ok_iff]
  exact and_congr_right fun _ =>
    exists_congr fun form => Token.scan_eq_iff (form.isStructural_tokens table.names)

theorem DocumentForm.exists_document (form : DocumentForm) (names : List String) :
    ∃ text : String, Spelled (form.tokens names) text.toList := by
  obtain ⟨cs, hcs⟩ := Token.exists_spelled (form.isStructural_tokens names)
  exact ⟨String.ofList cs, by rwa [String.toList_ofList]⟩

theorem get?_of_toInt_eq {table : EventNames} {eventType : Int32} {index : Nat}
    (hindex : index < table.names.length) (htype : eventType.toInt = index) :
    table.get? eventType = some table.names[index] := by
  have hknows : table.Knows eventType := by
    rw [Knows, size, htype]
    omega
  rw [get?_eq, if_pos hknows, name, htype, Int.toNat_natCast,
    List.getD_eq_getElem?_getD, List.getElem?_eq_getElem hindex, Option.getD_some]

theorem get?_eq_none_iff {table : EventNames} {eventType : Int32} :
    table.get? eventType = none ↔ eventType.toInt < 0 ∨ table.names.length ≤ eventType.toInt := by
  rw [get?_eq, ite_eq_right_iff]
  simp only [reduceCtorEq, imp_false, Knows, size]
  omega

theorem isEmpty_of_parse {text : String} {table : EventNames} (h : parse text = .ok table) :
    table.isEmpty = false :=
  List.isEmpty_eq_false_iff.2 (parse_eq_ok_iff.1 h).1

/-- A text loads exactly if it spells a document of one of the two forms with a name at least, as the
names of that document, in order. Every list of names has documents, and the spelling of a character has
no raw control character and is no surrogate on its own. A loaded table is not empty and has names for
the types from zero to its size only. -/
theorem loads_documents :
    (∀ (text : String) (table : EventNames), parse text = .ok table ↔
      table.names ≠ [] ∧ ∃ form : DocumentForm, Spelled (form.tokens table.names) text.toList) ∧
    (∀ (form : DocumentForm) (names : List String), names ≠ [] →
      (∃ text : String, Spelled (form.tokens names) text.toList) ∧
      ∀ text : String, Spelled (form.tokens names) text.toList → parse text = .ok ⟨names⟩) ∧
    (∀ (c : Char) (spelling : List Char), CharacterSpelling c spelling →
      (∀ d ∈ spelling, ' ' ≤ d) ∧
      ∀ n, UnitSpelling n spelling → ¬ (0xD800 ≤ n ∧ n ≤ 0xDFFF)) ∧
    ∀ (text : String) (table : EventNames), parse text = .ok table →
      table.isEmpty = false ∧
      (∀ (index : Nat) (hindex : index < table.names.length) (eventType : Int32),
        eventType.toInt = index → table.get? eventType = some table.names[index]) ∧
      ∀ eventType : Int32, eventType.toInt < 0 ∨ table.names.length ≤ eventType.toInt →
        table.get? eventType = none := by
  refine ⟨fun text table => parse_eq_ok_iff, fun form names hne => ⟨form.exists_document names, ?_⟩,
    fun c spelling h => ⟨h.space_le, fun n hn => h.not_surrogate hn⟩, fun text table h => ⟨?_, ?_, ?_⟩⟩
  · intro text h
    exact parse_eq_ok_iff.2 ⟨hne, form, h⟩
  · exact isEmpty_of_parse h
  · exact fun index hindex eventType htype => get?_of_toInt_eq hindex htype
  · exact fun eventType => get?_eq_none_iff.2

end ReactorTrace.EventNames
