import ReactorTrace.Fault

/-! Byte streams that are read by calls. A call may be interrupted, and it may hand out fewer bytes
than it was asked for; the stream ends in an end of file or in a failure. `collect` repeats calls
until it has what it wants or the stream ends. What it returns and what it leaves depend on the
bytes and on the ending alone, never on how the calls were answered (`collect_fst`,
`rest_collect`). -/

namespace ReactorTrace

/-- What a call meets when no byte is left. -/
inductive Ending
  | endOfFile
  | failure (fault : IoFault)
deriving DecidableEq, Inhabited

/-- How calls are answered. Before answer `k` there are `interruptions k` interrupted calls, and the
answer to a call for `wanted` bytes has at most `portion k wanted` of them, but at least one. -/
structure Delivery where
  interruptions : Nat → Nat
  portion : Nat → Nat → Nat

/-- Every call is answered, with as many bytes as it asks for. -/
def Delivery.prompt : Delivery := ⟨fun _ => 0, fun _ wanted => wanted⟩

/-- The bytes left to read, and how many answers were given so far and calls interrupted since. -/
structure Source where
  rest : List UInt8
  ending : Ending
  delivery : Delivery
  answered : Nat
  interrupted : Nat

namespace Source

inductive Answer
  | interrupted
  | bytes (first : UInt8) (more : List UInt8)
  | ended (ending : Ending)

def ofBytes (bytes : List UInt8) (ending : Ending) (delivery : Delivery) : Source :=
  ⟨bytes, ending, delivery, 0, 0⟩

/-- A stream of these bytes alone. -/
def plain (bytes : List UInt8) : Source := ofBytes bytes .endOfFile .prompt

/-- The first `limit` bytes, then a failure; a limit past the end is never met. -/
def failingAt (bytes : List UInt8) (limit : Nat) (fault : IoFault) (delivery : Delivery) : Source :=
  if limit ≤ bytes.length then ofBytes (bytes.take limit) (.failure fault) delivery
  else ofBytes bytes .endOfFile delivery

/-- One call for `wanted` bytes, at least one. -/
def read (s : Source) (wanted : Nat) : Answer × Source :=
  if s.interrupted < s.delivery.interruptions s.answered then
    (.interrupted, { s with interrupted := s.interrupted + 1 })
  else
    match s.rest with
    | [] => (.ended s.ending, { s with answered := s.answered + 1, interrupted := 0 })
    | b :: bs =>
      let more := min wanted (s.delivery.portion s.answered wanted) - 1
      (.bytes b (bs.take more),
        { s with rest := bs.drop more, answered := s.answered + 1, interrupted := 0 })

/-- Calls for `wanted` more bytes after those in `got`, which are in reverse. -/
def gather (s : Source) (wanted : Nat) (got : List UInt8) :
    Except IoFault (List UInt8) × Source :=
  if wanted = 0 then (.ok got.reverse, s)
  else
    match _h : s.read wanted with
    | (.interrupted, s') => gather s' wanted got
    | (.bytes b bs, s') => gather s' (wanted - (bs.length + 1)) (bs.reverseAux (b :: got))
    | (.ended .endOfFile, s') => (.ok got.reverse, s')
    | (.ended (.failure fault), s') => (.error fault, s')
termination_by (wanted, s.delivery.interruptions s.answered - s.interrupted)
decreasing_by
  · refine Prod.Lex.right _ ?_
    unfold read at _h
    split at _h
    · simp only [Prod.mk.injEq, true_and] at _h
      subst _h
      simp only
      omega
    · split at _h <;> simp at _h
  · exact Prod.Lex.left _ _ (by omega)

/-- Reads until there are `wanted` bytes or the stream ends. -/
def collect (s : Source) (wanted : Nat) : Except IoFault (List UInt8) × Source :=
  s.gather wanted []

/-- Appends up to `wanted` bytes to a buffer, and counts them. What was read before a failure stays in
the buffer. -/
def append (s : Source) (wanted : Nat) (buffer : List UInt8) :
    (Except IoFault Nat × List UInt8) × Source :=
  match s.collect wanted with
  | (.ok bs, s') => ((.ok bs.length, buffer ++ bs), s')
  | (.error fault, s') => ((.error fault, buffer ++ s.rest), s')

/-- What is there to be read: `wanted` bytes, or all that are left before the end of the file. -/
def available (s : Source) (wanted : Nat) : Except IoFault (List UInt8) :=
  if wanted ≤ s.rest.length then .ok (s.rest.take wanted)
  else
    match s.ending with
    | .endOfFile => .ok s.rest
    | .failure fault => .error fault

theorem read_interrupted {s s' : Source} {wanted : Nat} (h : s.read wanted = (.interrupted, s')) :
    s'.rest = s.rest ∧ s'.ending = s.ending := by
  unfold read at h
  split at h
  · simp only [Prod.mk.injEq, true_and] at h
    subst h
    exact ⟨rfl, rfl⟩
  · split at h <;> simp at h

theorem read_ended {s s' : Source} {wanted : Nat} {e : Ending}
    (h : s.read wanted = (.ended e, s')) :
    s.rest = [] ∧ e = s.ending ∧ s'.rest = s.rest ∧ s'.ending = s.ending := by
  unfold read at h
  split at h
  · simp at h
  · split at h
    · rename_i hrest
      simp only [Prod.mk.injEq, Answer.ended.injEq] at h
      obtain ⟨rfl, rfl⟩ := h
      exact ⟨hrest, rfl, rfl, rfl⟩
    · simp at h

theorem read_bytes {s s' : Source} {wanted : Nat} {b : UInt8} {bs : List UInt8}
    (hw : wanted ≠ 0) (h : s.read wanted = (.bytes b bs, s')) :
    s.rest = b :: bs ++ s'.rest ∧ bs.length + 1 ≤ wanted ∧ s'.ending = s.ending := by
  unfold read at h
  split at h
  · simp at h
  · split at h
    · simp at h
    · rename_i hrest
      simp only [Prod.mk.injEq, Answer.bytes.injEq] at h
      obtain ⟨⟨rfl, rfl⟩, rfl⟩ := h
      refine ⟨by simp [hrest], ?_, rfl⟩
      simp only [List.length_take]
      omega

/-- The bytes of one answer go before all that can be read after it. -/
theorem available_append {s s' : Source} {bs : List UInt8} {wanted : Nat}
    (hrest : s.rest = bs ++ s'.rest) (hw : bs.length ≤ wanted) (he : s'.ending = s.ending) :
    s.available wanted = (s'.available (wanted - bs.length)).map (bs ++ ·) := by
  unfold available
  rw [hrest, List.length_append, he, List.take_append, List.take_of_length_le hw]
  by_cases h : wanted ≤ bs.length + s'.rest.length
  · rw [if_pos h, if_pos (by omega)]
    rfl
  · rw [if_neg h, if_neg (by omega)]
    cases s.ending <;> rfl

theorem gather_eq (s : Source) (wanted : Nat) (got : List UInt8) :
    (s.gather wanted got).1 = (s.available wanted).map (got.reverse ++ ·) ∧
      (s.gather wanted got).2.rest = s.rest.drop wanted ∧
      (s.gather wanted got).2.ending = s.ending := by
  fun_induction gather s wanted got with
  | case1 s got => simp [available, Except.map]
  | case2 s wanted got hw s' h ih =>
    obtain ⟨hr, he⟩ := read_interrupted h
    simpa [available, hr, he] using ih
  | case3 s wanted got hw b bs s' h ih =>
    obtain ⟨hr, hl, he⟩ := read_bytes hw h
    obtain ⟨ih₁, ih₂, ih₃⟩ := ih
    refine ⟨?_, ?_, ih₃.trans he⟩
    · rw [ih₁, available_append hr (by simpa using hl) he]
      cases s'.available (wanted - (b :: bs).length) <;> simp [Except.map]
    · have hnil : (b :: bs).drop wanted = [] := List.drop_eq_nil_of_le (by simpa using hl)
      rw [ih₂, hr, List.drop_append, hnil]
      simp
  | case4 s wanted got hw s' h =>
    obtain ⟨hr, he, hr', he'⟩ := read_ended h
    refine ⟨?_, by simp [hr', hr], he'⟩
    rw [available, hr, ← he]
    simp [hw, Except.map]
  | case5 s wanted got hw fault s' h =>
    obtain ⟨hr, he, hr', he'⟩ := read_ended h
    refine ⟨?_, by simp [hr', hr], he'⟩
    rw [available, hr, ← he]
    simp [hw, Except.map]

theorem collect_fst (s : Source) (wanted : Nat) : (s.collect wanted).1 = s.available wanted := by
  rw [collect, (gather_eq s wanted []).1]
  cases s.available wanted <;> rfl

@[simp] theorem rest_collect (s : Source) (wanted : Nat) :
    (s.collect wanted).2.rest = s.rest.drop wanted := (gather_eq s wanted []).2.1

@[simp] theorem ending_collect (s : Source) (wanted : Nat) :
    (s.collect wanted).2.ending = s.ending := (gather_eq s wanted []).2.2

theorem available_ok {s : Source} {wanted : Nat} {bs : List UInt8}
    (h : s.available wanted = .ok bs) : bs = s.rest.take wanted := by
  unfold available at h
  split at h
  · simpa using h.symm
  · split at h
    · rw [List.take_of_length_le (by omega)]
      simpa using h.symm
    · simp at h

theorem available_error {s : Source} {wanted : Nat} {fault : IoFault}
    (h : s.available wanted = .error fault) :
    s.rest.length < wanted ∧ s.ending = .failure fault := by
  unfold available at h
  split at h
  · simp at h
  · split at h
    · simp at h
    · rename_i he
      simp only [Except.error.injEq] at h
      exact ⟨by omega, h ▸ he⟩

/-- Whether or not the stream fails, the buffer gets the same bytes. -/
theorem append_fst (s : Source) (wanted : Nat) (buffer : List UInt8) :
    (s.append wanted buffer).1 =
      ((s.available wanted).map List.length, buffer ++ s.rest.take wanted) := by
  have hc := s.collect_fst wanted
  unfold append
  split
  · rename_i bs s' h
    rw [h] at hc
    rw [← hc, available_ok hc.symm]
    rfl
  · rename_i fault s' h
    rw [h] at hc
    have hlt := (available_error hc.symm).1
    rw [← hc, List.take_of_length_le (by omega)]
    rfl

theorem append_snd (s : Source) (wanted : Nat) (buffer : List UInt8) :
    (s.append wanted buffer).2 = (s.collect wanted).2 := by
  unfold append
  split <;> simp [*]

end Source

end ReactorTrace
