import ReactorTrace.Source

/-! Steps that read from a stream. A step gives a result or a fault, and in both cases the stream
as the step left it. -/

namespace ReactorTrace

def Reading (α : Type) : Type := Source → Except Fault α × Source

namespace Reading

variable {α β : Type}

def fail (fault : Fault) : Reading α := fun s => (.error fault, s)

/-- The second step reads on where the first one stopped, unless that one failed. -/
def andThen (step : Reading α) (next : α → Reading β) : Reading β := fun s =>
  match step s with
  | (.ok a, s') => next a s'
  | (.error fault, s') => (.error fault, s')

instance : Monad Reading where
  pure a := fun s => (.ok a, s)
  bind := andThen

/-- Up to `wanted` bytes; fewer only at the end of the file. -/
def bytes (wanted : Nat) : Reading (List UInt8) := fun s =>
  match s.collect wanted with
  | (.ok bs, s') => (.ok bs, s')
  | (.error fault, s') => (.error (.io fault), s')

theorem pure_apply (a : α) (s : Source) : (pure a : Reading α) s = (.ok a, s) := rfl

theorem fail_apply (fault : Fault) (s : Source) : (fail fault : Reading α) s = (.error fault, s) :=
  rfl

theorem bind_apply (step : Reading α) (next : α → Reading β) (s : Source) :
    (step >>= next) s = match step s with
      | (.ok a, s') => next a s'
      | (.error fault, s') => (.error fault, s') := rfl

theorem bind_eq_ok {step : Reading α} {next : α → Reading β} {s s' : Source} {b : β}
    (h : (step >>= next) s = (.ok b, s')) :
    ∃ a s₁, step s = (.ok a, s₁) ∧ next a s₁ = (.ok b, s') := by
  rw [bind_apply] at h
  split at h
  · exact ⟨_, _, ‹_›, h⟩
  · simp at h

theorem bytes_eq_ok {wanted : Nat} {s s' : Source} {bs : List UInt8}
    (h : bytes wanted s = (.ok bs, s')) :
    bs = s.rest.take wanted ∧ s'.rest = s.rest.drop wanted ∧ s'.ending = s.ending := by
  unfold bytes at h
  split at h
  · rename_i hc
    simp only [Prod.mk.injEq, Except.ok.injEq] at h
    obtain ⟨rfl, rfl⟩ := h
    have h₁ := s.collect_fst wanted
    have h₂ := s.rest_collect wanted
    have h₃ := s.ending_collect wanted
    rw [hc] at h₁ h₂ h₃
    exact ⟨Source.available_ok h₁.symm, h₂, h₃⟩
  · simp at h

end Reading

end ReactorTrace
