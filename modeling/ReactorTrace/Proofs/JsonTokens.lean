import ReactorTrace.Proofs.JsonStrings

/-! Texts of JSON are cut into the tokens that they are spelled from. Scanning takes the spelling of a token
off the front whatever stands behind it, and skips whitespace, so that a text spells the tokens of objects
and arrays of strings exactly if these are its tokens (`scan_eq_iff`). -/

namespace ReactorTrace.Json

namespace Token

/-- The tokens of objects and arrays of strings. -/
def IsStructural : Token → Prop
  | openBrace | closeBrace | openBracket | closeBracket | colon | comma | text _ => True
  | number _ | boolean _ | null | bad => False

theorem isBlank_iff {c : Char} : isBlank c = true ↔ c ∈ whitespace := by
  simp [isBlank, whitespace, or_assoc]

/-! ### One token -/

theorem number?_eq_some {cs rest : List Char} {t : Token} (h : number? cs = some (t, rest)) :
    ¬ t.IsStructural := by
  unfold number? at h
  split at h
  · cases h
  · obtain ⟨value, -, hvalue⟩ := Option.map_eq_some_iff.1 h
    obtain ⟨rfl, -⟩ := Prod.mk.inj hvalue
    exact id

theorem exists_spelling_of_next? {cs rest : List Char} {t : Token} (h : next? cs = some (t, rest))
    (ht : t.IsStructural) : ∃ spelling, TokenSpelling t spelling ∧ cs = spelling ++ rest := by
  unfold next? at h
  split at h
  case h_7 after =>
    obtain ⟨⟨value, after'⟩, hread, htext⟩ := Option.map_eq_some_iff.1 h
    obtain ⟨rfl, rfl⟩ := Prod.mk.inj htext
    obtain ⟨spelling, hspelling, rfl⟩ := StringLiteral.read?_eq_some_iff.1 hread
    refine ⟨'"' :: spelling ++ ['"'], .text ?_, ?_⟩
    · rwa [String.toList_ofList]
    · simp
  case h_11 => exact absurd ht (number?_eq_some h)
  case h_1 => obtain ⟨rfl, rfl⟩ := Prod.mk.inj (Option.some.inj h); exact ⟨_, .openBrace, rfl⟩
  case h_2 => obtain ⟨rfl, rfl⟩ := Prod.mk.inj (Option.some.inj h); exact ⟨_, .closeBrace, rfl⟩
  case h_3 => obtain ⟨rfl, rfl⟩ := Prod.mk.inj (Option.some.inj h); exact ⟨_, .openBracket, rfl⟩
  case h_4 => obtain ⟨rfl, rfl⟩ := Prod.mk.inj (Option.some.inj h); exact ⟨_, .closeBracket, rfl⟩
  case h_5 => obtain ⟨rfl, rfl⟩ := Prod.mk.inj (Option.some.inj h); exact ⟨_, .colon, rfl⟩
  case h_6 => obtain ⟨rfl, rfl⟩ := Prod.mk.inj (Option.some.inj h); exact ⟨_, .comma, rfl⟩
  all_goals
    obtain ⟨rfl, rfl⟩ := Prod.mk.inj (Option.some.inj h)
    cases ht

theorem next?_append {t : Token} {spelling : List Char} (h : TokenSpelling t spelling)
    (rest : List Char) : next? (spelling ++ rest) = some (t, rest) := by
  cases h with
  | @text value spelling h =>
    have hread : StringLiteral.read? (spelling ++ '"' :: rest) = some (value.toList, rest) :=
      StringLiteral.read?_eq_some_iff.2 ⟨spelling, h, rfl⟩
    rw [List.append_assoc, List.cons_append, List.singleton_append, next?, hread, Option.map_some]
    dsimp only
    rw [String.ofList_toList]
  | _ => rfl

theorem exists_cons_of_spelling {t : Token} {spelling : List Char} (h : TokenSpelling t spelling) :
    ∃ c more, spelling = c :: more ∧ isBlank c = false := by
  cases h <;> exact ⟨_, _, rfl, rfl⟩

/-! ### All tokens -/

theorem scan_cons_of_next? {c : Char} {rest after : List Char} {t : Token}
    (hblank : ¬ isBlank c = true) (hnext : next? (c :: rest) = some (t, after)) :
    scan (c :: rest) = t :: scan after := by
  rw [scan, if_neg hblank]
  split
  · next t' after' hnext' =>
    obtain ⟨rfl, rfl⟩ := Prod.mk.inj (Option.some.inj (hnext.symm.trans hnext'))
    rfl
  · next hnone => cases hnext.symm.trans hnone

theorem spelled_scan {cs : List Char} (h : ∀ t ∈ scan cs, t.IsStructural) : Spelled (scan cs) cs := by
  fun_induction scan cs with
  | case1 => exact .nil
  | case2 c rest hblank ih => exact .blank (isBlank_iff.1 hblank) (ih h)
  | case3 c rest hblank t after hnext ih =>
    obtain ⟨ht, hmore⟩ := List.forall_mem_cons.1 h
    obtain ⟨spelling, hspelling, hcs⟩ := exists_spelling_of_next? hnext ht
    rw [hcs]
    exact .token hspelling (ih hmore)
  | case4 => exact absurd (h bad List.mem_cons_self) id

theorem scan_of_spelled {tokens : List Token} {cs : List Char} (h : Spelled tokens cs) :
    scan cs = tokens := by
  induction h with
  | nil => rw [scan]
  | blank hblank _ ih => rw [scan, if_pos (isBlank_iff.2 hblank), ih]
  | @token t tokens spelling cs ht _ ih =>
    have hnext := next?_append ht cs
    obtain ⟨c, more, rfl, hblank⟩ := exists_cons_of_spelling ht
    rw [List.cons_append] at hnext ⊢
    rw [scan_cons_of_next? (by simp [hblank]) hnext, ih]

theorem exists_tokenSpelling {t : Token} (h : t.IsStructural) : ∃ spelling, TokenSpelling t spelling := by
  cases t with
  | text value =>
    obtain ⟨spelling, hspelling⟩ := exists_textSpelling value.toList
    exact ⟨_, .text hspelling⟩
  | openBrace => exact ⟨_, .openBrace⟩
  | closeBrace => exact ⟨_, .closeBrace⟩
  | openBracket => exact ⟨_, .openBracket⟩
  | closeBracket => exact ⟨_, .closeBracket⟩
  | colon => exact ⟨_, .colon⟩
  | comma => exact ⟨_, .comma⟩
  | _ => cases h

theorem exists_spelled {tokens : List Token} (h : ∀ t ∈ tokens, t.IsStructural) :
    ∃ cs, Spelled tokens cs := by
  induction tokens with
  | nil => exact ⟨[], .nil⟩
  | cons t tokens ih =>
    obtain ⟨ht, htokens⟩ := List.forall_mem_cons.1 h
    obtain ⟨spelling, hspelling⟩ := exists_tokenSpelling ht
    obtain ⟨cs, hcs⟩ := ih htokens
    exact ⟨spelling ++ cs, .token hspelling hcs⟩

/-- A text spells such tokens exactly if they are its tokens. -/
theorem scan_eq_iff {tokens : List Token} {cs : List Char} (h : ∀ t ∈ tokens, t.IsStructural) :
    scan cs = tokens ↔ Spelled tokens cs := by
  constructor
  · rintro rfl
    exact spelled_scan h
  · exact scan_of_spelled

end Token

end ReactorTrace.Json
