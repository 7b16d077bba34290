import ReactorTrace.Header

/-! Steps that read a fixed run of fields. `Reads step fields bytes a` says two things: the step gives
`a` from `bytes` and takes exactly these, whatever follows them; and where the stream stops inside of
one of the fields, the step takes what is there and reports that field. Steps that are joined read
one run after the other (`Reads.bind`), so that the laws of a whole header are put together from those
of its fields. -/

namespace ReactorTrace

/-- The fault of a read that the stream cuts short: its own failure, if it stops with one. -/
def Ending.cut (short : Fault) : Ending → Fault
  | endOfFile => short
  | failure fault => .io fault

namespace Source

theorem available_eq_take {s : Source} {wanted : Nat} (h : wanted ≤ s.rest.length) :
    s.available wanted = .ok (s.rest.take wanted) := if_pos h

/-- A read checked for its length either gives that many bytes or is cut short. -/
theorem available_cut (s : Source) (wanted : Nat) (h : s.rest.length < wanted) :
    s.available wanted = match s.ending with
      | .endOfFile => .ok s.rest
      | .failure fault => .error fault := if_neg (by omega)

end Source

theorem Reading.bytes_apply (wanted : Nat) (s : Source) :
    Reading.bytes wanted s =
      (match s.available wanted with
        | .ok bs => .ok bs
        | .error fault => .error (.io fault), (s.collect wanted).2) := by
  have hc := s.collect_fst wanted
  unfold Reading.bytes
  split <;> rename_i h <;> rw [h] at hc <;> simp [← hc, h]

theorem Reading.bind_of_ok {α β : Type} {step : Reading α} {next : α → Reading β} {s : Source} {a : α}
    (h : (step s).1 = .ok a) : (step >>= next) s = next a (step s).2 := by
  rw [Reading.bind_apply, ← Prod.eta (step s), h]

namespace HeaderField

/-- The number of bytes in a run of fields. -/
def total : List HeaderField → Nat
  | [] => 0
  | field :: fields => field.width + total fields

@[simp] theorem total_append (fields more : List HeaderField) :
    total (fields ++ more) = total fields + total more := by
  induction fields with
  | nil => exact (Nat.zero_add _).symm
  | cons field fields ih => rw [List.cons_append, total, ih, total, Nat.add_assoc]

/-- The first `n` bytes of a run of fields break off after `got` bytes of this field. -/
def BreaksIn (fields : List HeaderField) (n : Nat) (field : HeaderField) (got : Nat) : Prop :=
  ∃ before after, fields = before ++ field :: after ∧ n = total before + got ∧ got < field.width

theorem BreaksIn.append_right {fields : List HeaderField} {n : Nat} {field : HeaderField} {got : Nat}
    (h : BreaksIn fields n field got) (more : List HeaderField) :
    BreaksIn (fields ++ more) n field got := by
  obtain ⟨before, after, rfl, hn, hg⟩ := h
  exact ⟨before, after ++ more, by simp, hn, hg⟩

theorem BreaksIn.append_left {fields : List HeaderField} {n : Nat} {field : HeaderField} {got : Nat}
    (h : BreaksIn fields n field got) (earlier : List HeaderField) :
    BreaksIn (earlier ++ fields) (total earlier + n) field got := by
  obtain ⟨before, after, rfl, rfl, hg⟩ := h
  exact ⟨earlier ++ before, after, by simp, by rw [total_append]; omega, hg⟩

end HeaderField

variable {α β : Type}

structure Reads (step : Reading α) (fields : List HeaderField) (bytes : List UInt8) (a : α) :
    Prop where
  length_eq : bytes.length = HeaderField.total fields
  whole : ∀ (s : Source) (rest : List UInt8), s.rest = bytes ++ rest →
    (step s).1 = .ok a ∧ (step s).2.rest = rest ∧ (step s).2.ending = s.ending
  broken : ∀ s : Source, s.rest <+: bytes → s.rest.length < bytes.length →
    ∃ field got, HeaderField.BreaksIn fields s.rest.length field got ∧
      (step s).1 = .error (s.ending.cut (.shortHeader field field.width got)) ∧
      (step s).2.rest = [] ∧ (step s).2.ending = s.ending

namespace Reads

theorem pure (a : α) : Reads (Pure.pure a) [] [] a where
  length_eq := rfl
  whole _ _ h := ⟨rfl, h, rfl⟩
  broken _ _ h := absurd h (Nat.not_lt_zero _)

theorem bind {step : Reading α} {next : α → Reading β} {fields more : List HeaderField}
    {bytes bytes' : List UInt8} {a : α} {b : β} (h : Reads step fields bytes a)
    (h' : Reads (next a) more bytes' b) :
    Reads (step >>= next) (fields ++ more) (bytes ++ bytes') b where
  length_eq := by simp [h.length_eq, h'.length_eq]
  whole s rest hs := by
    obtain ⟨hr, hrest, he⟩ := h.whole s (bytes' ++ rest) (by rw [hs, List.append_assoc])
    obtain ⟨hr', hrest', he'⟩ := h'.whole (step s).2 rest hrest
    rw [Reading.bind_of_ok hr]
    exact ⟨hr', hrest', he'.trans he⟩
  broken s hs hlt := by
    by_cases hin : s.rest.length < bytes.length
    · -- the stream stops within the first step
      have hp : s.rest <+: bytes :=
        List.prefix_of_prefix_length_le hs (List.prefix_append ..) (by omega)
      obtain ⟨field, got, hbreak, hr, hrest, he⟩ := h.broken s hp hin
      have hb : (step >>= next) s =
          (.error (s.ending.cut (.shortHeader field field.width got)), (step s).2) := by
        rw [Reading.bind_apply, ← Prod.eta (step s), hr]
      rw [hb]
      exact ⟨field, got, hbreak.append_right more, rfl, hrest, he⟩
    · -- the first step reads all of its bytes
      obtain ⟨tail, htail⟩ : bytes <+: s.rest :=
        List.prefix_of_prefix_length_le (List.prefix_append ..) hs (by omega)
      have hp : tail <+: bytes' := by
        rw [← htail] at hs
        exact (List.prefix_append_right_inj bytes).1 hs
      obtain ⟨hr, hrest, he⟩ := h.whole s tail htail.symm
      rw [← htail, List.length_append, List.length_append] at hlt
      obtain ⟨field, got, hbreak, hr', hrest', he'⟩ :=
        h'.broken (step s).2 (hrest ▸ hp) (by rw [hrest]; omega)
      rw [Reading.bind_of_ok hr]
      refine ⟨field, got, ?_, by rw [hr', he], hrest', he'.trans he⟩
      rw [← htail, List.length_append, h.length_eq, ← hrest]
      exact hbreak.append_left fields

theorem map {step : Reading α} {fields : List HeaderField} {bytes : List UInt8} {a : α}
    (h : Reads step fields bytes a) (g : α → β) :
    Reads (step >>= fun x => Pure.pure (g x)) fields bytes (g a) := by
  have hb : Reads (step >>= fun x => Pure.pure (g x)) (fields ++ []) (bytes ++ []) (g a) :=
    h.bind (pure (g a))
  rwa [List.append_nil, List.append_nil] at hb

/-- A step reads at most one run of bytes off a stream. -/
theorem unique {step : Reading α} {fields fields' : List HeaderField}
    {bytes bytes' rest rest' : List UInt8} {a a' : α} (h : Reads step fields bytes a)
    (h' : Reads step fields' bytes' a') (heq : bytes ++ rest = bytes' ++ rest') :
    a = a' ∧ rest = rest' := by
  obtain ⟨hr, hrest, -⟩ := h.whole (.plain (bytes ++ rest)) rest rfl
  obtain ⟨hr', hrest', -⟩ := h'.whole (.plain (bytes ++ rest)) rest' heq
  rw [hr] at hr'
  rw [hrest] at hrest'
  exact ⟨by simpa using hr', hrest'⟩

end Reads

namespace Header

theorem readField_apply (field : HeaderField) (s : Source) :
    readField field s =
      (if field.width ≤ s.rest.length then .ok (s.rest.take field.width)
        else .error (s.ending.cut (.shortHeader field field.width s.rest.length)),
        (s.collect field.width).2) := by
  unfold readField
  rw [Reading.bind_apply, Reading.bytes_apply]
  by_cases h : field.width ≤ s.rest.length
  · have hlen : (s.rest.take field.width).length = field.width := by
      rw [List.length_take]
      omega
    simp only [Source.available_eq_take h, hlen, if_pos h, if_true]
    rfl
  · rw [Source.available_cut s _ (by omega), if_neg h]
    cases s.ending with
    | endOfFile => simp only [if_neg (show ¬ s.rest.length = field.width by omega)]; rfl
    | failure fault => rfl

/-- A field read by itself. -/
theorem reads_readField (field : HeaderField) (bs : List UInt8) (h : bs.length = field.width) :
    Reads (readField field) [field] bs bs where
  length_eq := h
  whole s rest hs := by
    rw [readField_apply, hs, if_pos (by simp [h]), List.take_left' h]
    exact ⟨rfl, by simp [hs, List.drop_left' h], Source.ending_collect ..⟩
  broken s hs hlt := by
    rw [readField_apply, if_neg (by omega)]
    have hbreak : HeaderField.BreaksIn [field] s.rest.length field s.rest.length :=
      ⟨[], [], rfl, (Nat.zero_add _).symm, by omega⟩
    refine ⟨field, s.rest.length, hbreak, rfl, ?_, Source.ending_collect ..⟩
    rw [Source.rest_collect, List.drop_eq_nil_iff]
    omega

theorem readField_eq_ok {field : HeaderField} {s s' : Source} {bs : List UInt8}
    (h : readField field s = (.ok bs, s')) :
    s.rest = bs ++ s'.rest ∧ bs.length = field.width ∧ s'.ending = s.ending := by
  rw [readField_apply] at h
  split at h
  · rename_i hle
    simp only [Prod.mk.injEq, Except.ok.injEq] at h
    obtain ⟨rfl, rfl⟩ := h
    refine ⟨by rw [Source.rest_collect, List.take_append_drop], ?_, Source.ending_collect ..⟩
    rw [List.length_take]
    omega
  · simp at h

end Header

end ReactorTrace
