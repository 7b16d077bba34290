import ReactorTrace.Text.Split

/-! What cutting at a separator finds in joined texts. None of the beginnings of the separator may be one of
its ends (`Unbordered`): then it cannot begin in a text and end in what stands behind it, and the pieces of
joined texts are the pieces of these texts (`pieces_intercalate`). From the right, the last texts come off
one by one, as long as the separator is in none of them (`fromRight_intercalate`). -/

namespace ReactorTrace.Text

namespace Split

variable {α : Type}

/-! ### Separators -/

/-- No beginning of the separator is an end of it, the empty one and all of it apart. -/
def Unbordered (separator : List α) : Prop :=
  ∀ border, border <+: separator → border <:+ separator → border = [] ∨ border = separator

theorem unbordered_singleton (a : α) : Unbordered [a] := by
  intro border hprefix _
  rcases List.prefix_cons_iff.1 hprefix with rfl | ⟨more, rfl, hmore⟩
  · exact .inl rfl
  · rw [List.prefix_nil.1 hmore]
    exact .inr rfl

theorem unbordered_pair {a b : α} (hne : a ≠ b) : Unbordered [a, b] := by
  intro border hprefix hsuffix
  rcases List.prefix_cons_iff.1 hprefix with rfl | ⟨more, rfl, hmore⟩
  · exact .inl rfl
  · rcases List.prefix_cons_iff.1 hmore with rfl | ⟨more, rfl, hnil⟩
    · -- the pair does not end in its first element
      obtain ⟨front, hfront⟩ := hsuffix
      have hlast := congrArg List.getLast? hfront
      simp [hne] at hlast
    · rw [List.prefix_nil.1 hnil]
      exact .inr rfl

variable {separator text : List α}

/-- An occurrence that begins in a text ends in it. -/
theorem Unbordered.not_prefix_append (hsep : Unbordered separator) (hne : text ≠ [])
    (h : ¬ separator <+: text) (rest : List α) : ¬ separator <+: text ++ (separator ++ rest) := by
  intro hprefix
  have hlength : text.length < separator.length := by
    apply Nat.lt_of_not_le
    intro hle
    exact h (List.prefix_of_prefix_length_le hprefix (List.prefix_append ..) hle)
  have hbegin : text <+: separator :=
    List.prefix_of_prefix_length_le (List.prefix_append ..) hprefix (Nat.le_of_lt hlength)
  obtain ⟨border, rfl⟩ := hbegin
  have hborder : border <+: text ++ border :=
    List.prefix_of_prefix_length_le ((List.prefix_append_right_inj text).1 hprefix)
      (List.prefix_append ..) (by rw [List.length_append]; omega)
  rcases hsep border hborder (List.suffix_append ..) with rfl | hall
  · rw [List.append_nil] at hlength
    omega
  · exact hne (List.append_left_eq_self.1 hall.symm)

/-! ### Joined texts -/

theorem intercalate_concat {texts : List (List α)} (htexts : texts ≠ []) (text : List α) :
    separator.intercalate (texts ++ [text]) = separator.intercalate texts ++ (separator ++ text) := by
  induction texts with
  | nil => exact absurd rfl htexts
  | cons first texts ih =>
    by_cases hnil : texts = []
    · rw [hnil, List.singleton_append, List.intercalate_cons_cons,
        List.intercalate_singleton, List.intercalate_singleton, List.append_assoc]
    · rw [List.cons_append, List.intercalate_cons_of_ne_nil (by simp), ih hnil,
        List.intercalate_cons_of_ne_nil hnil, List.append_assoc, List.append_assoc, List.append_assoc]

variable [DecidableEq α]

/-! ### From left to right -/

omit [DecidableEq α] in
/-- Texts that are their only piece. -/
theorem flatMap_eq_self {β : Type} {f : β → List β} {texts : List β} (h : ∀ text ∈ texts, f text = [text]) :
    texts.flatMap f = texts := by
  rw [List.flatMap_congr h, List.flatMap_singleton']

theorem pieces_separator_append (hne : separator ≠ []) (rest : List α) :
    pieces separator (separator ++ rest) = [] :: pieces separator rest := by
  obtain ⟨a, more, rfl⟩ := List.exists_cons_of_ne_nil hne
  have hprefix : a :: more <+: a :: (more ++ rest) := List.prefix_append (a :: more) rest
  rw [List.cons_append, pieces, if_pos hprefix, List.length_cons, Nat.add_sub_cancel, List.drop_left]

theorem pieces_cons {a : α} (h : ¬ separator <+: a :: text) :
    pieces separator (a :: text) = (pieces separator text).modifyHead (a :: ·) := by
  rw [pieces, if_neg h]

theorem pieces_ne_nil (separator text : List α) : pieces separator text ≠ [] := by
  fun_induction pieces separator text with
  | case1 => simp
  | case2 => simp
  | case3 a text _ ih => simpa using ih

theorem pieces_of_absent (h : ¬ separator <:+: text) : pieces separator text = [text] := by
  fun_induction pieces separator text with
  | case1 => rfl
  | case2 a text hprefix => exact absurd hprefix.isInfix h
  | case3 a text _ ih =>
    rw [ih fun hfound => h (hfound.trans (List.suffix_cons a text).isInfix), List.modifyHead_cons]

theorem pieces_of_not_mem {a : α} (h : a ∉ text) : pieces [a] text = [text] :=
  pieces_of_absent fun hfound => h ((List.singleton_infix_iff a text).1 hfound)

theorem pieces_append (hsep : Unbordered separator) (hne : separator ≠ []) (text rest : List α) :
    pieces separator (text ++ (separator ++ rest)) =
      pieces separator text ++ pieces separator rest := by
  fun_induction pieces separator text with
  | case1 => rw [List.nil_append, pieces_separator_append hne, List.singleton_append]
  | case2 a text hprefix ih =>
    obtain ⟨after, hafter⟩ := hprefix
    have hdrop : text.drop (separator.length - 1) = after := by
      obtain ⟨b, more, rfl⟩ := List.exists_cons_of_ne_nil hne
      obtain ⟨-, rfl⟩ := List.cons_eq_cons.1 hafter
      exact List.drop_left
    rw [hdrop] at ih ⊢
    rw [← hafter, List.append_assoc, pieces_separator_append hne, ih, List.cons_append]
  | case3 a text hprefix ih =>
    have hlater : ¬ separator <+: a :: (text ++ (separator ++ rest)) :=
      hsep.not_prefix_append (List.cons_ne_nil a text) hprefix rest
    obtain ⟨first, more, hpieces⟩ := List.exists_cons_of_ne_nil (pieces_ne_nil separator text)
    rw [List.cons_append, pieces_cons hlater, ih, hpieces, List.cons_append, List.modifyHead_cons,
      List.modifyHead_cons, List.cons_append]

/-- The pieces of joined texts are those of each of them. -/
theorem pieces_intercalate (hsep : Unbordered separator) (hne : separator ≠ [])
    {texts : List (List α)} (htexts : texts ≠ []) :
    pieces separator (separator.intercalate texts) = texts.flatMap (pieces separator) := by
  induction texts with
  | nil => exact absurd rfl htexts
  | cons text texts ih =>
    by_cases hnil : texts = []
    · rw [hnil, List.intercalate_singleton, List.flatMap_singleton]
    · rw [List.intercalate_cons_of_ne_nil hnil, List.append_assoc, pieces_append hsep hne, ih hnil,
        List.flatMap_cons]

/-- Behind the last separator there is one more piece, which is empty. -/
theorem pieces_flatMap (hsep : Unbordered separator) (hne : separator ≠ []) (texts : List (List α)) :
    pieces separator (texts.flatMap (· ++ separator)) = texts.flatMap (pieces separator) ++ [[]] := by
  induction texts with
  | nil => rw [List.flatMap_nil, List.flatMap_nil, pieces, List.nil_append]
  | cons text texts ih =>
    rw [List.flatMap_cons, List.flatMap_cons, List.append_assoc, List.append_assoc,
      pieces_append hsep hne, ih]

theorem length_pieces_eq_one_iff (hsep : Unbordered separator) (hne : separator ≠ [])
    (text : List α) : (pieces separator text).length = 1 ↔ ¬ separator <:+: text := by
  constructor
  · rintro hlength ⟨before, after, htext⟩
    have hbefore := List.length_pos_iff.2 (pieces_ne_nil separator before)
    have hafter := List.length_pos_iff.2 (pieces_ne_nil separator after)
    rw [← htext, List.append_assoc, pieces_append hsep hne, List.length_append] at hlength
    omega
  · intro h
    rw [pieces_of_absent h, List.length_singleton]

/-! ### From right to left -/

theorem cutLast?_of_absent (h : ¬ separator <:+: text) : cutLast? separator text = none := by
  induction text with
  | nil => rfl
  | cons a text ih =>
    have htext := ih fun hfound => h (hfound.trans (List.suffix_cons a text).isInfix)
    rw [cutLast?, htext]
    exact if_neg fun hprefix => h hprefix.isInfix

/-- No occurrence begins in the separator behind its first element. -/
theorem cutLast?_suffix_append (hsep : Unbordered separator) (h : ¬ separator <:+: text)
    {border : List α} (hborder : border <:+ separator) (hshort : border ≠ separator) :
    cutLast? separator (border ++ text) = none := by
  induction border with
  | nil => exact cutLast?_of_absent h
  | cons a border ih =>
    have hlength := hborder.length_le
    have hinner : border <:+ separator := (List.suffix_cons a border).trans hborder
    have hinner' : border ≠ separator := by
      rintro rfl
      rw [List.length_cons] at hlength
      omega
    rw [List.cons_append, cutLast?, ih hinner hinner']
    apply if_neg
    intro hprefix
    have hbegin : a :: border <+: separator :=
      List.prefix_of_prefix_length_le (List.prefix_append ..) hprefix hlength
    rcases hsep _ hbegin hborder with hnil | hall
    · cases hnil
    · exact hshort hall

theorem cutLast?_append (hsep : Unbordered separator) (hne : separator ≠ []) (front : List α)
    (h : ¬ separator <:+: text) :
    cutLast? separator (front ++ (separator ++ text)) = some (front, text) := by
  induction front with
  | nil =>
    obtain ⟨a, more, rfl⟩ := List.exists_cons_of_ne_nil hne
    have hnone := cutLast?_suffix_append hsep h (List.suffix_cons a more) (by simp)
    have hprefix : a :: more <+: a :: (more ++ text) := List.prefix_append (a :: more) text
    rw [List.nil_append, List.cons_append, cutLast?, hnone]
    dsimp only
    rw [if_pos hprefix, List.length_cons, List.drop_succ_cons, List.drop_left]
  | cons a front ih => rw [List.cons_append, cutLast?, ih]

/-- Joined texts come off from the right, one by one. -/
theorem fromRight_intercalate (hsep : Unbordered separator) (hne : separator ≠ []) (front : List α)
    {texts : List (List α)} (h : ∀ text ∈ texts, ¬ separator <:+: text) :
    fromRight separator texts.length (separator.intercalate (front :: texts)) = (front, texts) := by
  induction texts using List.reverseRecOn with
  | nil => rw [List.intercalate_singleton]; rfl
  | append_singleton texts text ih =>
    obtain ⟨htexts, htext⟩ := List.forall_mem_append.1 h
    have hcut := cutLast?_append hsep hne (separator.intercalate (front :: texts))
      (htext text List.mem_cons_self)
    rw [← intercalate_concat (by simp), List.cons_append] at hcut
    rw [List.length_append, List.length_singleton, fromRight, hcut]
    dsimp only
    rw [ih htexts]

end Split

/-! ### Strings -/

variable {separator : String}

theorem length_split_pos (separator text : String) : 0 < (split separator text).length := by
  rw [split, List.length_map, List.length_pos_iff]
  exact Split.pieces_ne_nil separator.toList text.toList

theorem split_of_absent {text : String} (h : ¬ separator.toList <:+: text.toList) :
    split separator text = [text] := by
  rw [split, Split.pieces_of_absent h, List.map_singleton, String.ofList_toList]

theorem split_intercalate (hsep : Split.Unbordered separator.toList) (hne : separator.toList ≠ [])
    {texts : List String} (htexts : texts ≠ []) :
    split separator (separator.intercalate texts) = texts.flatMap (split separator) := by
  rw [split, String.toList_intercalate, Split.pieces_intercalate hsep hne (by simpa using htexts),
    List.flatMap_map, List.map_flatMap]
  rfl

theorem length_split_eq_one_iff (hsep : Split.Unbordered separator.toList)
    (hne : separator.toList ≠ []) (text : String) :
    (split separator text).length = 1 ↔ ¬ separator.toList <:+: text.toList := by
  rw [split, List.length_map, Split.length_pieces_eq_one_iff hsep hne]

theorem splitFromRight_intercalate (hsep : Split.Unbordered separator.toList)
    (hne : separator.toList ≠ []) (front : String) {texts : List String}
    (h : ∀ text ∈ texts, ¬ separator.toList <:+: text.toList) :
    splitFromRight separator texts.length (separator.intercalate (front :: texts)) =
      (front, texts) := by
  have hlists : ∀ text ∈ texts.map String.toList, ¬ separator.toList <:+: text := by
    simpa using h
  have hright := Split.fromRight_intercalate hsep hne front.toList hlists
  rw [List.length_map, ← List.map_cons, ← String.toList_intercalate] at hright
  rw [splitFromRight, hright]
  simp

end ReactorTrace.Text
