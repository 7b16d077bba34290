import ReactorTrace.Json.Spelling
import ReactorTrace.Proofs.Utf8

/-! Strings of JSON are read as they are spelled: reading takes exactly the spellings of characters and
texts off the front (`character?_append`, `read?_eq_some_iff`), so that neither a character nor a text is read
in two ways, and nothing else is read. Every text has a spelling (`exists_textSpelling`). -/

namespace ReactorTrace.Json

/-- No character is a surrogate. -/
theorem toNat_valid (c : Char) : c.toNat < 0xD800 ∨ 0xDFFF < c.toNat ∧ c.toNat < 0x110000 :=
  Text.Utf8.toNat_val c

namespace StringLiteral

/-! ### Digits and units -/

theorem hexValue?_of_mem {c : Char} {n : Nat} (h : (c, n) ∈ hexDigits) : hexValue? c = some n := by
  have hall : ∀ digit ∈ hexDigits, hexValue? digit.1 = some digit.2 := by decide
  exact hall _ h

theorem toNat_lt_of_hexValue? {c : Char} {n : Nat} (h : hexValue? c = some n) : c.toNat < 128 := by
  have htoNat {d : Char} (hle : c ≤ d) : c.toNat ≤ d.toNat := UInt32.le_iff_toNat_le.1 hle
  have h9 : '9'.toNat = 57 := rfl
  have hf : 'f'.toNat = 102 := rfl
  have hF : 'F'.toNat = 70 := rfl
  unfold hexValue? at h
  split at h
  · next hdigit =>
    have := htoNat hdigit.2
    omega
  · split at h
    · next hlower =>
      have := htoNat hlower.2
      omega
    · split at h
      · next hupper =>
        have := htoNat hupper.2
        omega
      · cases h

theorem hexValue?_eq_some_iff {c : Char} {n : Nat} : hexValue? c = some n ↔ (c, n) ∈ hexDigits := by
  have hascii : ∀ k < 128, ∀ n ∈ hexValue? (Char.ofNat k), (Char.ofNat k, n) ∈ hexDigits := by decide
  constructor
  · intro h
    have hmem := hascii c.toNat (toNat_lt_of_hexValue? h)
    rw [Char.ofNat_toNat] at hmem
    exact hmem n h
  · exact hexValue?_of_mem

theorem lt_of_mem_hexDigits {c : Char} {n : Nat} (h : (c, n) ∈ hexDigits) : n < 16 := by
  have hall : ∀ digit ∈ hexDigits, digit.2 < 16 := by decide
  exact hall _ h

theorem unit?_eq_some_iff {w x y z : Char} {n : Nat} :
    unit? w x y z = some n ↔ UnitSpelling n ['\\', 'u', w, x, y, z] := by
  constructor
  · intro h
    simp only [unit?, Option.bind_eq_bind, Option.bind_eq_some_iff, Option.pure_def,
      Option.some.injEq] at h
    obtain ⟨a, hw, b, hx, c, hy, d, hz, rfl⟩ := h
    exact .digits (hexValue?_eq_some_iff.1 hw) (hexValue?_eq_some_iff.1 hx)
      (hexValue?_eq_some_iff.1 hy) (hexValue?_eq_some_iff.1 hz)
  · rintro ⟨hw, hx, hy, hz⟩
    rw [unit?, hexValue?_of_mem hw, hexValue?_of_mem hx, hexValue?_of_mem hy, hexValue?_of_mem hz]
    rfl

theorem lt_of_unitSpelling {n : Nat} {spelling : List Char} (h : UnitSpelling n spelling) :
    n < 0x10000 := by
  obtain ⟨hw, hx, hy, hz⟩ := h
  have := lt_of_mem_hexDigits hw
  have := lt_of_mem_hexDigits hx
  have := lt_of_mem_hexDigits hy
  have := lt_of_mem_hexDigits hz
  omega

theorem exists_of_unitSpelling {n : Nat} {spelling : List Char} (h : UnitSpelling n spelling) :
    ∃ w x y z, spelling = ['\\', 'u', w, x, y, z] ∧ unit? w x y z = some n := by
  obtain ⟨hw, hx, hy, hz⟩ := h
  exact ⟨_, _, _, _, rfl, unit?_eq_some_iff.2 (.digits hw hx hy hz)⟩

theorem shortEscape?_eq_some_iff {c e : Char} : shortEscape? e = some c ↔ (e, c) ∈ shortEscapes := by
  constructor
  · intro h
    unfold shortEscape? at h
    split at h
    case h_9 => cases h
    all_goals
      obtain rfl := Option.some.inj h
      decide
  · intro h
    have hall : ∀ escape ∈ shortEscapes, shortEscape? escape.1 = some escape.2 := by decide
    exact hall _ h

/-! ### Characters -/

theorem isHighSurrogate_toNat (c : Char) : isHighSurrogate c.toNat = false := by
  have hvalid := toNat_valid c
  exact decide_eq_false (by omega)

theorem isLowSurrogate_toNat (c : Char) : isLowSurrogate c.toNat = false := by
  have hvalid := toNat_valid c
  exact decide_eq_false (by omega)

theorem toNat_surrogatePair {high low : Nat} (hhigh : isHighSurrogate high = true)
    (hlow : isLowSurrogate low = true) :
    (surrogatePair high low).toNat = 0x10000 + (high - 0xD800) * 0x400 + (low - 0xDC00) := by
  have hhigh' := of_decide_eq_true hhigh
  have hlow' := of_decide_eq_true hlow
  exact Text.Utf8.val_ofNat (by omega)

theorem characterSpelling_ofNat {n : Nat} {spelling : List Char} (h : UnitSpelling n spelling)
    (hhigh : ¬ isHighSurrogate n = true) (hlow : ¬ isLowSurrogate n = true) :
    CharacterSpelling (Char.ofNat n) spelling := by
  have hsmall := lt_of_unitSpelling h
  simp only [isHighSurrogate, isLowSurrogate, decide_eq_true_eq] at hhigh hlow
  have hn : (Char.ofNat n).toNat = n := Text.Utf8.val_ofNat (by omega)
  exact .unit (hn.symm ▸ h)

theorem characterSpelling_surrogatePair {n m : Nat} {high low : List Char}
    (hn : UnitSpelling n high) (hm : UnitSpelling m low) (hhigh : isHighSurrogate n = true)
    (hlow : isLowSurrogate m = true) : CharacterSpelling (surrogatePair n m) (high ++ low) := by
  have hpair := toNat_surrogatePair hhigh hlow
  simp only [isHighSurrogate, isLowSurrogate, decide_eq_true_eq] at hhigh hlow
  have hfirst : n = 0xD800 + ((surrogatePair n m).toNat - 0x10000) / 0x400 := by omega
  have hsecond : m = 0xDC00 + ((surrogatePair n m).toNat - 0x10000) % 0x400 := by omega
  exact .pair (by omega) (hfirst ▸ hn) (hsecond ▸ hm)

/-- What is read is a spelling of the character. -/
theorem exists_spelling_of_character? {cs rest : List Char} {c : Char}
    (h : character? cs = some (c, rest)) (hquote : cs.head? ≠ some '"') :
    ∃ spelling, CharacterSpelling c spelling ∧ cs = spelling ++ rest := by
  unfold character? at h
  split at h
  · next w x y z after =>
    split at h
    · cases h
    · next n hunit =>
      have hn := unit?_eq_some_iff.1 hunit
      split at h
      · cases h
      · next hlow =>
        split at h
        · next hhigh =>
          split at h
          · next w' x' y' z' after =>
            split at h
            · cases h
            · next m hunit' =>
              split at h
              · next hlow' =>
                obtain ⟨rfl, rfl⟩ := Prod.mk.inj (Option.some.inj h)
                exact ⟨_, characterSpelling_surrogatePair hn (unit?_eq_some_iff.1 hunit') hhigh hlow',
                  rfl⟩
              · cases h
          · cases h
        · next hhigh =>
          obtain ⟨rfl, rfl⟩ := Prod.mk.inj (Option.some.inj h)
          exact ⟨_, characterSpelling_ofNat hn hhigh hlow, rfl⟩
  · next e after _ =>
    obtain ⟨c', hshort, hc⟩ := Option.map_eq_some_iff.1 h
    obtain ⟨rfl, rfl⟩ := Prod.mk.inj hc
    exact ⟨_, .short (shortEscape?_eq_some_iff.1 hshort), rfl⟩
  · cases h
  · next c' after _ hlonger hsingle =>
    split at h
    · cases h
    · next hcontrol =>
      obtain ⟨rfl, rfl⟩ := Prod.mk.inj (Option.some.inj h)
      refine ⟨[c'], .plain (Char.not_lt.1 hcontrol) ?_ ?_, rfl⟩
      · rintro rfl
        exact hquote rfl
      · rintro rfl
        cases after with
        | nil => exact hsingle rfl rfl
        | cons e after => exact hlonger e after rfl rfl
  · cases h

/-- Every spelling is read, whatever stands behind it. -/
theorem character?_append {c : Char} {spelling : List Char} (h : CharacterSpelling c spelling)
    (rest : List Char) : character? (spelling ++ rest) = some (c, rest) := by
  cases h with
  | plain hcontrol hquote hbackslash =>
    rw [List.singleton_append, character?]
    · exact if_neg (Char.not_lt.2 hcontrol)
    all_goals
      intros
      simp_all
  | short h =>
    simp only [shortEscapes, List.mem_cons, Prod.mk.injEq, List.not_mem_nil, or_false] at h
    rcases h with ⟨rfl, rfl⟩ | ⟨rfl, rfl⟩ | ⟨rfl, rfl⟩ | ⟨rfl, rfl⟩ | ⟨rfl, rfl⟩ | ⟨rfl, rfl⟩ |
      ⟨rfl, rfl⟩ | ⟨rfl, rfl⟩ <;> rfl
  | unit h =>
    obtain ⟨w, x, y, z, rfl, hunit⟩ := exists_of_unitSpelling h
    simp only [List.cons_append, List.nil_append, character?, hunit, isHighSurrogate_toNat,
      isLowSurrogate_toNat, Char.ofNat_toNat]
    rfl
  | pair hlarge hhigh hlow =>
    obtain ⟨w, x, y, z, rfl, hunit⟩ := exists_of_unitSpelling hhigh
    obtain ⟨w', x', y', z', rfl, hunit'⟩ := exists_of_unitSpelling hlow
    have hvalid := toNat_valid c
    have hn : isLowSurrogate (0xD800 + (c.toNat - 0x10000) / 0x400) = false :=
      decide_eq_false (by omega)
    have hn' : isHighSurrogate (0xD800 + (c.toNat - 0x10000) / 0x400) = true :=
      decide_eq_true (by omega)
    have hm : isLowSurrogate (0xDC00 + (c.toNat - 0x10000) % 0x400) = true :=
      decide_eq_true (by omega)
    have hpair : surrogatePair (0xD800 + (c.toNat - 0x10000) / 0x400)
        (0xDC00 + (c.toNat - 0x10000) % 0x400) = c := Text.Utf8.ofNat_eq (by
      show _ = c.toNat
      omega)
    simp only [List.cons_append, List.nil_append, character?, hunit, hunit', hn, hn', hm, hpair]
    rfl

theorem head?_spelling_ne_quote {c : Char} {spelling : List Char} (h : CharacterSpelling c spelling)
    (rest : List Char) : (spelling ++ rest).head? ≠ some '"' := by
  cases h with
  | plain hcontrol hquote hbackslash => simpa using hquote
  | short h => simp
  | unit h =>
    obtain ⟨w, x, y, z, rfl, -⟩ := exists_of_unitSpelling h
    simp
  | pair hlarge hhigh hlow =>
    obtain ⟨w, x, y, z, rfl, -⟩ := exists_of_unitSpelling hhigh
    simp

/-! ### Texts -/

theorem read?_append {c : Char} {spelling : List Char} (h : CharacterSpelling c spelling)
    (rest : List Char) :
    read? (spelling ++ rest) = (read? rest).map fun (text, after) => (c :: text, after) := by
  have hquote := head?_spelling_ne_quote h rest
  have hread := character?_append h rest
  generalize spelling ++ rest = cs at hquote hread ⊢
  fun_cases read? cs with
  | case1 after => exact absurd rfl hquote
  | case2 _ _ hnone => cases hnone.symm.trans hread
  | case3 _ _ c' rest' hsome =>
    obtain ⟨rfl, rfl⟩ := Prod.mk.inj (Option.some.inj (hsome.symm.trans hread))
    rfl

/-- Reading takes the spelling of a text and a closing quote off the front, and nothing else. -/
theorem read?_eq_some_iff {cs text after : List Char} :
    read? cs = some (text, after) ↔
      ∃ spelling, TextSpelling text spelling ∧ cs = spelling ++ '"' :: after := by
  constructor
  · intro h
    fun_induction read? cs generalizing text with
    | case1 rest =>
      obtain ⟨rfl, rfl⟩ := Prod.mk.inj (Option.some.inj h)
      exact ⟨[], .nil, rfl⟩
    | case2 => cases h
    | case3 cs hquote c rest hc ih =>
      obtain ⟨⟨more, after'⟩, hread, hmap⟩ := Option.map_eq_some_iff.1 h
      obtain ⟨rfl, rfl⟩ := Prod.mk.inj hmap
      obtain ⟨spelling, htext, rfl⟩ := ih hread
      have hhead : cs.head? ≠ some '"' := fun hhead => by
        obtain ⟨more, rfl⟩ := List.head?_eq_some_iff.1 hhead
        exact hquote more rfl
      obtain ⟨first, hfirst, rfl⟩ := exists_spelling_of_character? hc hhead
      exact ⟨first ++ spelling, .cons hfirst htext, (List.append_assoc ..).symm⟩
  · rintro ⟨spelling, htext, rfl⟩
    induction htext with
    | nil => rw [List.nil_append, read?]
    | cons hc _ ih => rw [List.append_assoc, read?_append hc, ih]; rfl

end StringLiteral

/-! ### Spellings of all characters -/

theorem exists_mem_hexDigits {n : Nat} (h : n < 16) : ∃ c, (c, n) ∈ hexDigits := by
  have hall : ∀ n < 16, ∃ digit ∈ hexDigits, digit.2 = n := by decide
  obtain ⟨⟨c, _⟩, hmem, rfl⟩ := hall n h
  exact ⟨c, hmem⟩

theorem exists_unitSpelling {n : Nat} (h : n < 0x10000) : ∃ spelling, UnitSpelling n spelling := by
  obtain ⟨w, hw⟩ := exists_mem_hexDigits (show n / 4096 < 16 by omega)
  obtain ⟨x, hx⟩ := exists_mem_hexDigits (show n / 256 % 16 < 16 by omega)
  obtain ⟨y, hy⟩ := exists_mem_hexDigits (show n / 16 % 16 < 16 by omega)
  obtain ⟨z, hz⟩ := exists_mem_hexDigits (show n % 16 < 16 by omega)
  have hn : ((n / 4096 * 16 + n / 256 % 16) * 16 + n / 16 % 16) * 16 + n % 16 = n := by omega
  have hspelling := UnitSpelling.digits hw hx hy hz
  rw [hn] at hspelling
  exact ⟨_, hspelling⟩

/-- Every character may be escaped. -/
theorem exists_characterSpelling (c : Char) : ∃ spelling, CharacterSpelling c spelling := by
  have hvalid := toNat_valid c
  by_cases hlarge : 0xFFFF < c.toNat
  · obtain ⟨high, hhigh⟩ := exists_unitSpelling
      (show 0xD800 + (c.toNat - 0x10000) / 0x400 < 0x10000 by omega)
    obtain ⟨low, hlow⟩ := exists_unitSpelling
      (show 0xDC00 + (c.toNat - 0x10000) % 0x400 < 0x10000 by omega)
    exact ⟨_, .pair hlarge hhigh hlow⟩
  · obtain ⟨spelling, hspelling⟩ := exists_unitSpelling (show c.toNat < 0x10000 by omega)
    exact ⟨spelling, .unit hspelling⟩

theorem exists_textSpelling (cs : List Char) : ∃ spelling, TextSpelling cs spelling := by
  induction cs with
  | nil => exact ⟨[], .nil⟩
  | cons c cs ih =>
    obtain ⟨first, hfirst⟩ := exists_characterSpelling c
    obtain ⟨more, hmore⟩ := ih
    exact ⟨_, .cons hfirst hmore⟩

/-! ### Characters without a spelling -/

theorem UnitSpelling.space_le {n : Nat} {spelling : List Char} (h : UnitSpelling n spelling) :
    ∀ d ∈ spelling, ' ' ≤ d := by
  have hdigits : ∀ digit ∈ hexDigits, ' ' ≤ digit.1 := by decide
  obtain ⟨hw, hx, hy, hz⟩ := h
  have hw := hdigits _ hw
  have hx := hdigits _ hx
  have hy := hdigits _ hy
  have hz := hdigits _ hz
  simp only [List.forall_mem_cons]
  exact ⟨by decide, by decide, hw, hx, hy, hz, by simp⟩

theorem CharacterSpelling.space_le {c : Char} {spelling : List Char}
    (h : CharacterSpelling c spelling) : ∀ d ∈ spelling, ' ' ≤ d := by
  cases h with
  | plain hcontrol => exact List.forall_mem_singleton.2 hcontrol
  | short h =>
    have hshort : ∀ escape ∈ shortEscapes, ' ' ≤ escape.1 := by decide
    exact List.forall_mem_cons.2 ⟨by decide, List.forall_mem_singleton.2 (hshort _ h)⟩
  | unit h => exact h.space_le
  | pair _ hhigh hlow => exact List.forall_mem_append.2 ⟨hhigh.space_le, hlow.space_le⟩

theorem UnitSpelling.length_eq {n : Nat} {spelling : List Char} (h : UnitSpelling n spelling) :
    spelling.length = 6 := by
  obtain ⟨_, _, _, _⟩ := h
  rfl

theorem UnitSpelling.unique {n m : Nat} {spelling : List Char} (hn : UnitSpelling n spelling)
    (hm : UnitSpelling m spelling) : n = m := by
  obtain ⟨w, x, y, z, rfl, hunit⟩ := StringLiteral.exists_of_unitSpelling hn
  exact Option.some.inj (hunit.symm.trans (StringLiteral.unit?_eq_some_iff.2 hm))

/-- A surrogate on its own spells no character. -/
theorem CharacterSpelling.not_surrogate {c : Char} {n : Nat} {spelling : List Char}
    (h : CharacterSpelling c spelling) (hn : UnitSpelling n spelling) :
    ¬ (0xD800 ≤ n ∧ n ≤ 0xDFFF) := by
  have hlength := hn.length_eq
  cases h with
  | plain => simp at hlength
  | short => simp at hlength
  | unit h =>
    have hvalid := toNat_valid c
    rw [hn.unique h]
    omega
  | pair _ hhigh hlow =>
    rw [List.length_append, hhigh.length_eq, hlow.length_eq] at hlength
    omega

end ReactorTrace.Json
