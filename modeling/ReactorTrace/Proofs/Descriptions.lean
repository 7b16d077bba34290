import ReactorTrace.Proofs.LossyText
import ReactorTrace.Proofs.Reading

/-! How far a description is read. It takes the bytes before the first zero byte, at most the longest
number of them, and one byte more (`readDescriptionBytes_apply`). Of a text that is too long, the longest
part that fits is kept, and of a character that does not fit whole a replacement character
(`readDescription_bounded`). -/

namespace ReactorTrace

namespace Text.Utf8

/-- The longest text of at most `limit` bytes at the front of another text. -/
structure LongestFront (limit : Nat) (text front : String) : Prop where
  exists_after : ∃ after, text = front ++ after
  size_le : front.utf8ByteSize ≤ limit
  longest : ∀ other after, text = other ++ after → other.utf8ByteSize ≤ limit →
    other.utf8ByteSize ≤ front.utf8ByteSize

/-- A cut after `limit` bytes of the text falls inside a character. -/
def CutsCharacter (limit : Nat) (text : String) : Prop :=
  ∃ (before : String) (c : Char) (after : String), text = before.push c ++ after ∧
    before.utf8ByteSize < limit ∧ limit < (before.push c).utf8ByteSize

theorem exists_fitting_chars {limit : Nat} {cs : List Char}
    (h : limit < (cs.flatMap String.utf8EncodeChar).length) :
    ∃ front c after, cs = front ++ c :: after ∧
      (front.flatMap String.utf8EncodeChar).length ≤ limit ∧
      limit < (front.flatMap String.utf8EncodeChar).length + (String.utf8EncodeChar c).length := by
  induction cs generalizing limit with
  | nil => exact absurd h (Nat.not_lt_zero _)
  | cons c cs ih =>
    rw [List.flatMap_cons, List.length_append] at h
    by_cases hfirst : limit < (String.utf8EncodeChar c).length
    · exact ⟨[], c, cs, rfl, Nat.zero_le _, by simpa using hfirst⟩
    · have hrest : limit - (String.utf8EncodeChar c).length <
          (cs.flatMap String.utf8EncodeChar).length := by omega
      obtain ⟨front, c', after, rfl, hle, hlt⟩ := ih hrest
      refine ⟨c :: front, c', after, rfl, ?_, ?_⟩
      · rw [List.flatMap_cons, List.length_append]
        omega
      · rw [List.flatMap_cons, List.length_append]
        omega

/-- A text that is too long has a first character that does not fit. -/
theorem exists_front {limit : Nat} {text : String} (h : limit < text.utf8ByteSize) :
    ∃ front c after, text = String.push front c ++ after ∧ front.utf8ByteSize ≤ limit ∧
      limit < (front.push c).utf8ByteSize := by
  rw [← length_encode] at h
  obtain ⟨front, c, after, hcs, hle, hlt⟩ := exists_fitting_chars h
  refine ⟨String.ofList front, c, String.ofList after, ?_, ?_, ?_⟩
  · rw [← String.toList_inj]
    simp [hcs]
  · rwa [← length_encode, encode, String.toList_ofList]
  · rwa [← length_encode, encode_push, encode, String.toList_ofList, List.length_append]

theorem utf8ByteSize_le_of_prefix {text text' : String} (h : text.toList <+: text'.toList) :
    text.utf8ByteSize ≤ text'.utf8ByteSize := by
  obtain ⟨after, hafter⟩ := h
  rw [← length_encode, ← length_encode, encode, encode, ← hafter, List.flatMap_append,
    List.length_append]
  exact Nat.le_add_right ..

/-- What fits at the front of a text ends before a character that does not fit. -/
theorem utf8ByteSize_le_of_fits {limit : Nat} {before after other after' : String} {c : Char}
    (heq : before.push c ++ after = other ++ after') (hlt : limit < (before.push c).utf8ByteSize)
    (hle : other.utf8ByteSize ≤ limit) : other.utf8ByteSize ≤ before.utf8ByteSize := by
  have hbefore : (before.push c).toList <+: (other ++ after').toList := by
    rw [← heq, String.toList_append]
    exact List.prefix_append ..
  have hother : other.toList <+: (other ++ after').toList := by
    rw [String.toList_append]
    exact List.prefix_append ..
  rcases List.prefix_or_prefix_of_prefix hbefore hother with h | h
  · have := utf8ByteSize_le_of_prefix h
    omega
  · rw [String.toList_push, List.prefix_concat_iff, ← String.toList_push, String.toList_inj] at h
    rcases h with rfl | h
    · omega
    · exact utf8ByteSize_le_of_prefix h

/-- A text that is cut keeps its longest front that fits. Whether a replacement character follows depends
on where the cut falls. -/
theorem decodeLossy_take_encode {limit : Nat} {text : String} (h : limit < text.utf8ByteSize) :
    ∃ front, LongestFront limit text front ∧
      (CutsCharacter limit text →
        decodeLossy ((encode text).take limit) = front.push replacement) ∧
      (¬ CutsCharacter limit text → decodeLossy ((encode text).take limit) = front) := by
  obtain ⟨front, c, after, rfl, hle, hlt⟩ := exists_front h
  have htake : (encode (front.push c ++ after)).take limit =
      encode front ++ (String.utf8EncodeChar c).take (limit - front.utf8ByteSize) := by
    rw [← length_encode] at hle hlt
    rw [encode_push, List.length_append] at hlt
    rw [encode_append, encode_push, List.append_assoc, List.take_append,
      List.take_of_length_le hle, length_encode]
    rw [length_encode] at hlt
    rw [List.take_append_of_le_length (by omega)]
  have hfront : LongestFront limit (front.push c ++ after) front := by
    refine ⟨⟨String.singleton c ++ after, ?_⟩, hle, ?_⟩
    · rw [← String.toList_inj]
      simp
    · intro other after' heq hfits
      exact utf8ByteSize_le_of_fits heq hlt hfits
  refine ⟨front, hfront, ?_, ?_⟩
  · rintro ⟨before, c', after', heq, hbefore, hcut⟩
    have hinside : front.utf8ByteSize < limit := by
      obtain ⟨tail, htail⟩ := hfront.exists_after
      have := utf8ByteSize_le_of_fits (heq.symm.trans htail) hcut hle
      omega
    rw [← length_encode, encode_push, List.length_append, length_encode] at hlt
    rw [htake, decodeLossy_cut front c (by omega) (by omega)]
  · intro hcut
    have hborder : limit - front.utf8ByteSize = 0 := by
      refine Nat.sub_eq_zero_of_le (Nat.le_of_not_lt fun hinside => hcut ?_)
      exact ⟨front, c, after, rfl, hinside, hlt⟩
    rw [htake, hborder, List.take_zero, List.append_nil, decodeLossy_encode]

end Text.Utf8

namespace Header

theorem readDescriptionByte_nil {s : Source} (h : s.rest = []) :
    readField .objectDescription s =
      (.error (s.ending.cut (.shortHeader .objectDescription 1 0)), (s.collect 1).2) := by
  rw [readField_apply, h]
  rfl

theorem readDescriptionByte_cons {s : Source} {b : UInt8} {rest : List UInt8} (h : s.rest = b :: rest) :
    ∃ s', readField .objectDescription s = (.ok [b], s') ∧ s'.rest = rest ∧ s'.ending = s.ending := by
  refine ⟨(s.collect 1).2, ?_, ?_, Source.ending_collect ..⟩
  · rw [readField_apply, h]
    exact if_pos (Nat.le_add_left 1 rest.length) ▸ rfl
  · rw [Source.rest_collect, h]
    rfl

/-- A description is read up to its first zero byte or to its limit, and one byte further. -/
theorem readDescriptionBytes_apply (room : Nat) (s : Source) :
    let kept := min (s.rest.takeWhile (· ≠ 0)).length room
    (readDescriptionBytes room s).1 =
      (if kept < s.rest.length then .ok (s.rest.take kept)
        else .error (s.ending.cut (.shortHeader .objectDescription 1 0))) ∧
      (readDescriptionBytes room s).2.rest = s.rest.drop (kept + 1) := by
  induction room generalizing s with
  | zero =>
    dsimp only
    rw [Nat.min_zero, readDescriptionBytes, Reading.bind_apply]
    cases hs : s.rest with
    | nil =>
      rw [readDescriptionByte_nil hs]
      exact ⟨rfl, by simp [hs]⟩
    | cons b rest =>
      obtain ⟨s', hread, hrest, -⟩ := readDescriptionByte_cons hs
      rw [hread]
      exact ⟨rfl, hrest⟩
  | succ room ih =>
    rw [readDescriptionBytes, Reading.bind_apply]
    cases hs : s.rest with
    | nil =>
      rw [readDescriptionByte_nil hs]
      exact ⟨rfl, by simp [hs]⟩
    | cons b rest =>
      obtain ⟨s', hread, hrest, hending⟩ := readDescriptionByte_cons hs
      rw [hread]
      dsimp only
      by_cases hb : b = 0
      · subst hb
        exact ⟨rfl, hrest⟩
      · -- the byte is kept, and the rest is read with one byte less of room
        have hstop : ¬ [b] = [0] := by simpa using hb
        obtain ⟨hresult, hleft⟩ := ih s'
        rw [hrest, hending] at hresult
        rw [hrest] at hleft
        rw [List.takeWhile_cons_of_pos (by simpa using hb), List.length_cons, Nat.add_min_add_right,
          if_neg hstop, Reading.bind_apply]
        generalize min (rest.takeWhile (· ≠ 0)).length room = kept at hresult hleft
        generalize readDescriptionBytes room s' = more at hresult hleft
        obtain ⟨result, s''⟩ := more
        dsimp only at hresult hleft
        rw [hresult]
        by_cases hkept : kept < rest.length
        · have hlt : kept + 1 < (b :: rest).length := Nat.succ_lt_succ hkept
          rw [if_pos hkept, if_pos hlt]
          exact ⟨rfl, hleft⟩
        · have hge : ¬ kept + 1 < (b :: rest).length := fun h => hkept (Nat.lt_of_succ_lt_succ h)
          rw [if_neg hkept, if_neg hge]
          exact ⟨rfl, hleft⟩

theorem readDescription_apply (s : Source) :
    let kept := min (s.rest.takeWhile (· ≠ 0)).length descriptionLimit
    (readDescription s).1 =
      (if kept < s.rest.length then .ok (Text.Utf8.decodeLossy (s.rest.take kept))
        else .error (s.ending.cut (.shortHeader .objectDescription 1 0))) ∧
      (readDescription s).2.rest = s.rest.drop (kept + 1) := by
  intro kept
  obtain ⟨hresult, hleft⟩ := readDescriptionBytes_apply descriptionLimit s
  rw [readDescription, Reading.bind_apply]
  generalize readDescriptionBytes descriptionLimit s = read at hresult hleft
  obtain ⟨result, s'⟩ := read
  dsimp only at hresult hleft
  rw [hresult]
  by_cases hkept : kept < s.rest.length
  · rw [if_pos hkept, if_pos hkept]
    exact ⟨rfl, hleft⟩
  · rw [if_neg hkept, if_neg hkept]
    exact ⟨rfl, hleft⟩

theorem takeWhile_encode {text : String} (h : '\x00' ∉ text.toList) (rest : List UInt8) :
    (Text.Utf8.encode text ++ 0 :: rest).takeWhile (· ≠ 0) = Text.Utf8.encode text := by
  have hnonzero := Text.Utf8.encode_ne_zero h
  rw [List.takeWhile_append_of_pos fun b hb => by simpa using hnonzero b hb]
  exact List.append_nil _

/-- Of a stored text the first bytes are kept. -/
theorem readDescription_encode {s : Source} {text : String} {rest : List UInt8}
    (hzero : '\x00' ∉ text.toList) (hrest : s.rest = Text.Utf8.encode text ++ 0 :: rest) :
    (readDescription s).1 =
      .ok (Text.Utf8.decodeLossy ((Text.Utf8.encode text).take descriptionLimit)) ∧
      (readDescription s).2.rest = s.rest.drop (min text.utf8ByteSize descriptionLimit + 1) := by
  obtain ⟨hresult, hleft⟩ := readDescription_apply s
  have hlength : s.rest.length = text.utf8ByteSize + (rest.length + 1) := by
    rw [hrest, List.length_append, Text.Utf8.length_encode, List.length_cons]
  have hin : min text.utf8ByteSize descriptionLimit < s.rest.length := by omega
  have htake : s.rest.take (min text.utf8ByteSize descriptionLimit) =
      (Text.Utf8.encode text).take descriptionLimit := by
    rw [hrest, ← Text.Utf8.length_encode, List.take_append_of_le_length (Nat.min_le_left ..),
      Nat.min_comm, ← List.take_eq_take_min]
  rw [hrest, takeWhile_encode hzero, ← hrest, Text.Utf8.length_encode] at hresult hleft
  rw [if_pos hin, htake] at hresult
  exact ⟨hresult, hleft⟩

/-- A description is read from the bytes before the first zero byte, at most 1023 of them; one more is
taken, and where that is missing all were taken and it is reported. Stored text that fits is read back.
Of any other, what is read is the longest front that fits, and one replacement character behind it if
the cut falls inside a character. -/
theorem readDescription_bounded :
    (∀ (s : Source) (text : String) (rest : List UInt8), '\x00' ∉ text.toList →
      s.rest = Text.Utf8.encode text ++ 0 :: rest →
      (readDescription s).2.rest = s.rest.drop (min text.utf8ByteSize 1023 + 1) ∧
      (text.utf8ByteSize ≤ 1023 → (readDescription s).1 = .ok text) ∧
      (1023 < text.utf8ByteSize → ∃ front, Text.Utf8.LongestFront 1023 text front ∧
        (Text.Utf8.CutsCharacter 1023 text →
          (readDescription s).1 = .ok (front.push Text.Utf8.replacement)) ∧
        (¬ Text.Utf8.CutsCharacter 1023 text → (readDescription s).1 = .ok front))) ∧
    ∀ s : Source,
      let kept := min (s.rest.takeWhile (· ≠ 0)).length 1023
      let text := Text.Utf8.decodeLossy (s.rest.take kept)
      (kept + 1 ≤ s.rest.length →
        (readDescription s).1 = .ok text ∧ Text.Utf8.Lossy (s.rest.take kept) text.toList ∧
        (readDescription s).2.rest = s.rest.drop (kept + 1)) ∧
      (s.rest.length < kept + 1 →
        (readDescription s).1 = .error (s.ending.cut (.shortHeader .objectDescription 1 0)) ∧
        (readDescription s).2.rest = []) := by
  constructor
  · intro s text rest hzero hrest
    obtain ⟨hresult, hleft⟩ := readDescription_encode hzero hrest
    rw [hresult]
    refine ⟨hleft, ?_, ?_⟩
    · intro hfits
      have hwhole : (Text.Utf8.encode text).length ≤ descriptionLimit := by
        rwa [Text.Utf8.length_encode]
      rw [List.take_of_length_le hwhole, Text.Utf8.decodeLossy_encode]
    · intro hlong
      obtain ⟨front, hfront, hcut, hborder⟩ := Text.Utf8.decodeLossy_take_encode hlong
      exact ⟨front, hfront, fun h => congrArg Except.ok (hcut h),
        fun h => congrArg Except.ok (hborder h)⟩
  · intro s kept text
    obtain ⟨hresult, hleft⟩ := readDescription_apply s
    constructor
    · intro hle
      exact ⟨hresult.trans (if_pos hle), (Text.Utf8.lossy_iff _ text).2 rfl, hleft⟩
    · intro hlt
      have hnot : ¬ kept < s.rest.length := by omega
      exact ⟨hresult.trans (if_neg hnot), hleft.trans (List.drop_eq_nil_of_le (Nat.le_of_lt hlt))⟩

/-- The limit cuts the last character but one in two. Its second byte is read and dropped, and reading
goes on at the last character, which is left in the stream with the end of the description. A description
without an end is not read. -/
theorem readDescription_bounded_cut :
    let text := String.ofList (List.replicate 1022 'r' ++ ['é', 'x'])
    let s := Source.plain (Text.Utf8.encode text ++ 0 :: [5])
    '\x00' ∉ text.toList ∧ 1023 < text.utf8ByteSize ∧ Text.Utf8.CutsCharacter 1023 text ∧
      (readDescription s).2.rest = [0x78, 0, 5] ∧
      (∃ front, Text.Utf8.LongestFront 1023 text front ∧
        (readDescription s).1 = .ok (front.push Text.Utf8.replacement)) ∧
      (readDescription (.plain [0x72, 0x72])).1 = .error (.shortHeader .objectDescription 1 0) := by
  intro text s
  let letters := String.ofList (List.replicate 1022 'r')
  have hletters : Text.Utf8.encode letters = List.replicate 1022 0x72 := by
    rw [Text.Utf8.encode, String.toList_ofList, List.flatMap_replicate]
    exact List.flatten_replicate_singleton
  have htext : text = letters.push 'é' ++ "x" := by
    rw [← String.toList_inj, String.toList_append, String.toList_push, String.toList_ofList,
      String.toList_ofList, List.append_assoc]
    rfl
  have hbytes : Text.Utf8.encode text = Text.Utf8.encode letters ++ [0xC3, 0xA9, 0x78] := by
    rw [htext, Text.Utf8.encode_append, Text.Utf8.encode_push, List.append_assoc]
    rfl
  have hletterSize : letters.utf8ByteSize = 1022 := by
    rw [← Text.Utf8.length_encode, hletters, List.length_replicate]
  have hsize : text.utf8ByteSize = 1025 := by
    rw [← Text.Utf8.length_encode, hbytes, List.length_append, Text.Utf8.length_encode, hletterSize]
    rfl
  have hzero : '\x00' ∉ text.toList := by
    rw [String.toList_ofList, List.mem_append, List.mem_replicate]
    decide
  have hcut : Text.Utf8.CutsCharacter 1023 text := by
    refine ⟨letters, 'é', "x", htext, by omega, ?_⟩
    rw [← Text.Utf8.length_encode, Text.Utf8.encode_push, List.length_append,
      Text.Utf8.length_encode, hletterSize]
    decide
  obtain ⟨hleft, -, hlong⟩ := readDescription_bounded.1 s text [5] hzero rfl
  obtain ⟨front, hfront, hresult, -⟩ := hlong (by omega)
  have hunended := (readDescription_bounded.2 (.plain [0x72, 0x72])).2 (by decide)
  refine ⟨hzero, by omega, hcut, ?_, ⟨front, hfront, hresult hcut⟩, hunended.1⟩
  have hrest : s.rest = (Text.Utf8.encode letters ++ [0xC3, 0xA9]) ++ [0x78, 0, 5] := by
    have hs : s.rest = Text.Utf8.encode text ++ [0, 5] := rfl
    rw [hs, hbytes, List.append_assoc, List.append_assoc]
    rfl
  have htaken : (Text.Utf8.encode letters ++ [0xC3, 0xA9]).length = 1024 := by
    rw [List.length_append, Text.Utf8.length_encode, hletterSize]
    rfl
  rw [hleft, hsize, hrest]
  exact List.drop_left' htaken

end Header

end ReactorTrace
