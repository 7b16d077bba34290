import ReactorTrace.Proofs.Utf8

/-! The meaning of lossy text. Bytes split into characters and ill-formed parts: where no character
starts, the longest part that begins one, or a single byte. Lossy text has the characters themselves, and
one replacement character for each ill-formed part (`lossy_iff`). Text that is cut within a character
therefore ends in exactly one replacement character (`decodeLossy_cut`). -/

namespace ReactorTrace.Text.Utf8

/-! ### The scanner goes on while it can -/

theorem le_scanTail (more low high value taken : Nat) (bs : List UInt8) :
    taken ≤ (scanTail more low high value taken bs).2 := by
  fun_induction scanTail more low high value taken bs with
  | case1 => exact Nat.le_refl _
  | case2 => exact Nat.le_refl _
  | case3 low high value taken more b bs hrange ih => omega
  | case4 => exact Nat.le_refl _

/-- What is taken on the way to a character is taken whatever follows it. -/
theorem scanTail_of_prefix {more low high value taken n : Nat} {part tail : List UInt8} {c : Char}
    (h : scanTail more low high value taken (part ++ tail) = (some c, n))
    (hn : taken + part.length ≤ n) (rest : List UInt8) :
    taken + part.length ≤ (scanTail more low high value taken (part ++ rest)).2 := by
  induction part generalizing more low high value taken with
  | nil => exact le_scanTail ..
  | cons b part ih =>
    rw [List.length_cons] at hn ⊢
    cases more with
    | zero =>
      obtain ⟨-, rfl⟩ := scanTail_zero_eq h
      omega
    | succ more =>
      obtain ⟨b', bs, hbs, hlow, hhigh, h⟩ := scanTail_eq_some h
      obtain ⟨rfl, rfl⟩ := List.cons_eq_cons.1 hbs
      rw [List.cons_append, scanTail_cons _ hlow hhigh]
      have := ih h (by omega)
      omega

/-- Continuation bytes make a character of anything that waits for them. -/
theorem scanTail_replicate (more value taken : Nat) :
    ∃ c, scanTail more 0x80 0xBF value taken (List.replicate more 0x80) = (some c, taken + more) := by
  induction more generalizing value taken with
  | zero => exact ⟨_, scanTail_zero ..⟩
  | succ more ih =>
    obtain ⟨c, hc⟩ := ih (64 * value + ((0x80 : UInt8).toNat - 0x80)) (taken + 1)
    refine ⟨c, ?_⟩
    rw [List.replicate_succ, scanTail_cons _ (by decide) (by decide), hc]
    congr 1
    omega

theorem scanTail_completed {more low high value taken n : Nat} {bs : List UInt8}
    (h : scanTail more low high value taken bs = (none, n)) (hn : taken < n) :
    ∃ fill c, scanTail more low high value taken (bs.take (n - taken) ++ fill) =
      (some c, taken + more) := by
  induction more generalizing low high value taken bs with
  | zero =>
    rw [scanTail_zero] at h
    simp at h
  | succ more ih =>
    cases bs with
    | nil =>
      obtain rfl : taken = n := (Prod.mk.inj h).2
      omega
    | cons b bs =>
      rw [scanTail] at h
      split at h
      · rename_i hrange
        obtain ⟨k, rfl⟩ : ∃ k, n = taken + 1 + k := ⟨n - (taken + 1), by omega⟩
        have hmore : ∃ fill c, scanTail more 0x80 0xBF (64 * value + (b.toNat - 0x80)) (taken + 1)
            (bs.take k ++ fill) = (some c, taken + 1 + more) := by
          cases k with
          | zero => exact ⟨_, scanTail_replicate more _ _⟩
          | succ k =>
            have := ih h (by omega)
            rwa [Nat.add_sub_cancel_left] at this
        obtain ⟨fill, c, hc⟩ := hmore
        refine ⟨fill, c, ?_⟩
        rw [Nat.add_assoc, Nat.add_sub_cancel_left, Nat.add_comm 1, List.take_succ_cons,
          List.cons_append, scanTail_cons _ hrange.1 hrange.2, hc, Nat.add_right_comm, Nat.add_assoc]
      · obtain rfl : taken = n := (Prod.mk.inj h).2
        omega

/-- A first byte decides by itself, or it says what must follow. -/
theorem scan_shape (b : UInt8) :
    (∃ unit, ∀ bs, scan b bs = (unit, 0)) ∨
      ∃ more low high value, ∀ bs, scan b bs = scanTail (more + 1) low high value 0 bs := by
  unfold scan
  dsimp only
  split
  · exact .inl ⟨_, fun _ => rfl⟩
  · split
    · exact .inl ⟨_, fun _ => rfl⟩
    · split
      · exact .inr ⟨_, _, _, _, fun _ => rfl⟩
      · split
        · exact .inr ⟨_, _, _, _, fun _ => rfl⟩
        · split
          · exact .inr ⟨_, _, _, _, fun _ => rfl⟩
          · exact .inl ⟨_, fun _ => rfl⟩

theorem scan_of_prefix {b : UInt8} {part tail : List UInt8} {c : Char} {n : Nat}
    (h : scan b (part ++ tail) = (some c, n)) (hn : part.length ≤ n) (rest : List UInt8) :
    part.length ≤ (scan b (part ++ rest)).2 := by
  rcases scan_shape b with ⟨unit, hscan⟩ | ⟨more, low, high, value, hscan⟩
  · rw [hscan, Prod.mk.injEq] at h
    rw [hscan]
    exact h.2 ▸ hn
  · rw [hscan] at h ⊢
    rw [← Nat.zero_add part.length] at hn ⊢
    exact scanTail_of_prefix h hn rest

/-! ### Characters and ill-formed parts -/

theorem scan_eq_of_front {b : UInt8} {bs : List UInt8} {c : Char}
    (h : String.utf8EncodeChar c <+: b :: bs) :
    scan b bs = (some c, (String.utf8EncodeChar c).length - 1) := by
  obtain ⟨rest, hrest⟩ := h
  obtain ⟨b', bs', hbytes, hscan⟩ := scan_encodeChar c rest
  rw [hbytes, List.cons_append] at hrest
  obtain ⟨rfl, rfl⟩ := List.cons_eq_cons.1 hrest
  rw [hscan, hbytes]
  rfl

/-- No character is the beginning of another one. -/
theorem eq_of_encodeChar_prefix {c c' : Char}
    (h : String.utf8EncodeChar c <+: String.utf8EncodeChar c') : c = c' := by
  obtain ⟨b, bs, hbytes, hscan⟩ := scan_encodeChar c' []
  rw [hbytes] at h
  have hscan' := scan_eq_of_front h
  rw [List.append_nil] at hscan
  rw [hscan] at hscan'
  simpa using (congrArg Prod.fst hscan').symm

/-- What begins a character is taken up to its end, whatever follows it. -/
theorem le_scan_of_begins {b : UInt8} {part : List UInt8} {c : Char}
    (h : b :: part <+: String.utf8EncodeChar c) (rest : List UInt8) :
    part.length ≤ (scan b (part ++ rest)).2 := by
  obtain ⟨tail, htail⟩ := h
  have hscan : scan b (part ++ tail) = (some c, _) := scan_eq_of_front (htail ▸ List.prefix_rfl)
  apply scan_of_prefix hscan
  rw [← htail, List.cons_append, List.length_cons, List.length_append]
  omega

/-- An ill-formed part begins a character, or it is a single byte. -/
theorem begins_of_scan_none {b : UInt8} {bs : List UInt8} {n : Nat} (h : scan b bs = (none, n)) :
    n = 0 ∨ ∃ c, b :: bs.take n <+: String.utf8EncodeChar c := by
  rcases scan_shape b with ⟨unit, hscan⟩ | ⟨more, low, high, value, hscan⟩
  · rw [hscan, Prod.mk.injEq] at h
    exact .inl h.2.symm
  · by_cases hn : n = 0
    · exact .inl hn
    · -- with continuation bytes for those that are missing, the part is a character
      rw [hscan] at h
      have hlt := (scanTail_none_le h).1
      obtain ⟨fill, c, hc⟩ := scanTail_completed h (Nat.pos_of_ne_zero hn)
      rw [← hscan, Nat.sub_zero] at hc
      obtain ⟨hle, hbytes⟩ := encodeChar_of_scan hc
      refine .inr ⟨c, ?_⟩
      rw [hbytes, List.cons_prefix_cons]
      refine ⟨rfl, List.prefix_take_iff.2 ⟨List.prefix_append .., ?_⟩⟩
      rw [List.length_take]
      omega

/-- What is ill-formed at the front of bytes that start with no character: the longest part that begins
one, or a single byte. -/
structure IllFormedPart (part rest : List UInt8) : Prop where
  ne_nil : part ≠ []
  no_char : ∀ c, ¬ String.utf8EncodeChar c <+: part ++ rest
  single_or_begins : part.length = 1 ∨ ∃ c, part <+: String.utf8EncodeChar c
  longest : ∀ other c, other <+: part ++ rest → other <+: String.utf8EncodeChar c →
    other.length ≤ part.length

theorem IllFormedPart.length_le {part rest part' rest' : List UInt8} (h : IllFormedPart part rest)
    (h' : IllFormedPart part' rest') (heq : part' ++ rest' = part ++ rest) :
    part'.length ≤ part.length := by
  rcases h'.single_or_begins with hsingle | ⟨c, hbegins⟩
  · rw [hsingle]
    exact List.length_pos_iff.2 h.ne_nil
  · exact h.longest part' c (heq ▸ List.prefix_append ..) hbegins

theorem illFormedPart_of_scan_none {b : UInt8} {bs : List UInt8} {n : Nat}
    (h : scan b bs = (none, n)) : IllFormedPart (b :: bs.take n) (bs.drop n) := by
  have hn := (scan_none_le h).2
  have hlength : (b :: bs.take n).length = n + 1 := by
    rw [List.length_cons, List.length_take_of_le hn]
  have happend : b :: bs.take n ++ bs.drop n = b :: bs := by
    rw [List.cons_append, List.take_append_drop]
  refine ⟨List.cons_ne_nil _ _, ?_, ?_, ?_⟩
  · intro c hc
    rw [happend] at hc
    rw [scan_eq_of_front hc] at h
    simp at h
  · rw [hlength]
    exact (begins_of_scan_none h).imp_left (congrArg (· + 1))
  · intro other c hother hbegins
    rw [happend] at hother
    cases other with
    | nil => exact Nat.zero_le _
    | cons b' part =>
      obtain ⟨rest, hrest⟩ := hother
      obtain ⟨rfl, rfl⟩ := List.cons_eq_cons.1 hrest
      have hle := le_scan_of_begins hbegins rest
      rw [List.append_eq] at h
      rw [h] at hle
      rw [hlength, List.length_cons]
      exact Nat.succ_le_succ hle

/-- What is read of bytes as lossy text: their characters, and a replacement character for each
ill-formed part. -/
inductive Lossy : List UInt8 → List Char → Prop
  | nil : Lossy [] []
  | char (c : Char) {rest : List UInt8} {cs : List Char} (h : Lossy rest cs) :
    Lossy (String.utf8EncodeChar c ++ rest) (c :: cs)
  | illFormed {part rest : List UInt8} {cs : List Char} (hpart : IllFormedPart part rest)
    (h : Lossy rest cs) : Lossy (part ++ rest) (replacement :: cs)

theorem scan_of_illFormedPart {b : UInt8} {part rest : List UInt8}
    (h : IllFormedPart (b :: part) rest) : scan b (part ++ rest) = (none, part.length) := by
  cases hscan : scan b (part ++ rest) with
  | mk unit n =>
    cases unit with
    | some c =>
      obtain ⟨-, hbytes⟩ := encodeChar_of_scan hscan
      refine absurd ?_ (h.no_char c)
      rw [hbytes, List.cons_append, List.cons_prefix_cons]
      exact ⟨rfl, List.take_prefix ..⟩
    | none =>
      have hfound := illFormedPart_of_scan_none hscan
      have heq : b :: part ++ rest =
          (b :: (part ++ rest).take n) ++ (part ++ rest).drop n := by
        rw [List.cons_append, List.cons_append, List.take_append_drop]
      have hle := hfound.length_le h heq
      have hge := h.length_le hfound heq.symm
      rw [List.length_cons, List.length_cons, List.length_take_of_le (scan_none_le hscan).2] at hle hge
      congr 1
      omega

theorem lossy_units (bs : List UInt8) : Lossy bs ((units bs).map (·.getD replacement)) := by
  fun_induction units bs with
  | case1 => exact .nil
  | case2 b bs ih =>
    cases hscan : scan b bs with
    | mk unit n =>
      rw [hscan] at ih
      have happend : b :: bs = b :: bs.take n ++ bs.drop n := by
        rw [List.cons_append, List.take_append_drop]
      rw [happend]
      cases unit with
      | some c =>
        rw [← (encodeChar_of_scan hscan).2]
        exact .char c ih
      | none => exact .illFormed (illFormedPart_of_scan_none hscan) ih

theorem Lossy.eq_units {bs : List UInt8} {cs : List Char} (h : Lossy bs cs) :
    cs = (units bs).map (·.getD replacement) := by
  induction h with
  | nil => rw [units, List.map_nil]
  | char c h ih =>
    rw [units_encodeChar, List.map_cons, ← ih]
    rfl
  | @illFormed part rest cs hpart h ih =>
    obtain ⟨b, part, rfl⟩ := List.exists_cons_of_ne_nil hpart.ne_nil
    rw [List.cons_append, units, scan_of_illFormedPart hpart, List.map_cons]
    dsimp only
    rw [List.drop_left, ← ih]
    rfl

/-- Lossy text is the only text that is read so. -/
theorem lossy_iff (bs : List UInt8) (text : String) :
    Lossy bs text.toList ↔ text = decodeLossy bs := by
  constructor
  · intro h
    rw [decodeLossy, ← h.eq_units, String.ofList_toList]
  · rintro rfl
    rw [toList_decodeLossy]
    exact lossy_units bs

/-! ### Text that is cut -/

theorem Lossy.encode_append (text : String) {rest : List UInt8} {cs : List Char}
    (h : Lossy rest cs) : Lossy (encode text ++ rest) (text.toList ++ cs) := by
  unfold encode
  induction text.toList with
  | nil => exact h
  | cons c text ih =>
    rw [List.flatMap_cons, List.append_assoc]
    exact .char c ih

/-- The beginning of a character is one ill-formed part. -/
theorem illFormedPart_take (c : Char) {n : Nat} (hpos : 0 < n)
    (hlt : n < (String.utf8EncodeChar c).length) :
    IllFormedPart ((String.utf8EncodeChar c).take n) [] where
  ne_nil h := by
    have hlen := congrArg List.length h
    rw [List.length_take, List.length_nil] at hlen
    omega
  no_char c' h := by
    rw [List.append_nil] at h
    have hle := h.length_le
    obtain rfl := eq_of_encodeChar_prefix (h.trans (List.take_prefix ..))
    rw [List.length_take] at hle
    omega
  single_or_begins := .inr ⟨c, List.take_prefix ..⟩
  longest other _ h _ := by
    rw [List.append_nil] at h
    exact h.length_le

theorem decodeLossy_cut (text : String) (c : Char) {n : Nat} (hpos : 0 < n)
    (hlt : n < (String.utf8EncodeChar c).length) :
    decodeLossy (encode text ++ (String.utf8EncodeChar c).take n) = text.push replacement := by
  apply Eq.symm
  rw [← lossy_iff, String.toList_push]
  have hend := Lossy.illFormed (illFormedPart_take c hpos hlt) .nil
  rw [List.append_nil] at hend
  exact hend.encode_append text

end ReactorTrace.Text.Utf8
