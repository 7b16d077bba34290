import ReactorTrace.Proofs.Descriptions
import ReactorTrace.Proofs.StoredTrace

/-! How often the loops of reading turn. Each loop is given a number of turns here and gives up with `none`
when it has had them; what is shown is a number within which it ends. A read ends within the calls for as many
answers as it wants bytes. A decoded batch takes the four bytes of its length at least, even if it is empty,
so that decoding ends within one call more than there are lengths in the bytes. A description ends within one
read more than it may have bytes. -/

namespace ReactorTrace

variable {σ : Type}

/-! ### Calls on the stream -/

/-- How many calls there are until this many are answered, from answer `k` on. -/
def Delivery.calls (delivery : Delivery) : (answers k : Nat) → Nat
  | 0, _ => 0
  | answers + 1, k => delivery.interruptions k + 1 + delivery.calls answers (k + 1)

theorem Delivery.calls_mono (delivery : Delivery) {answers more : Nat} (h : answers ≤ more) (k : Nat) :
    delivery.calls answers k ≤ delivery.calls more k := by
  induction answers generalizing more k with
  | zero => exact Nat.zero_le _
  | succ answers ih =>
    obtain ⟨more, rfl⟩ := Nat.exists_eq_add_of_lt h
    simp only [calls]
    have hmore := ih (show answers ≤ answers + more by omega) (k + 1)
    omega

namespace Source

/-- Calls for `wanted` more bytes after those in `got`, but no more than this many. -/
def gatherWithin : (calls : Nat) → Source → (wanted : Nat) → (got : List UInt8) →
    Option (Except IoFault (List UInt8) × Source)
  | 0, s, wanted, got => if wanted = 0 then some (.ok got.reverse, s) else none
  | calls + 1, s, wanted, got =>
    if wanted = 0 then some (.ok got.reverse, s)
    else
      match s.read wanted with
      | (.interrupted, s') => gatherWithin calls s' wanted got
      | (.bytes b bs, s') => gatherWithin calls s' (wanted - (bs.length + 1)) (bs.reverseAux (b :: got))
      | (.ended .endOfFile, s') => some (.ok got.reverse, s')
      | (.ended (.failure fault), s') => some (.error fault, s')

theorem gather_eq_read (s : Source) (wanted : Nat) (got : List UInt8) :
    s.gather wanted got = if wanted = 0 then (.ok got.reverse, s) else
      match s.read wanted with
      | (.interrupted, s') => s'.gather wanted got
      | (.bytes b bs, s') => s'.gather (wanted - (bs.length + 1)) (bs.reverseAux (b :: got))
      | (.ended .endOfFile, s') => (.ok got.reverse, s')
      | (.ended (.failure fault), s') => (.error fault, s') := by
  rw [gather]
  split
  · rfl
  · split <;> simp_all

/-- A call is interrupted, or it is the next one that is answered. -/
theorem read_cases (s : Source) (wanted : Nat) :
    s.interrupted < s.delivery.interruptions s.answered ∧
      s.read wanted = (.interrupted, { s with interrupted := s.interrupted + 1 }) ∨
    s.delivery.interruptions s.answered ≤ s.interrupted ∧ ∃ answer rest, answer ≠ .interrupted ∧
      s.read wanted = (answer, { s with rest, answered := s.answered + 1, interrupted := 0 }) := by
  by_cases h : s.interrupted < s.delivery.interruptions s.answered
  · exact .inl ⟨h, by simp [read, h]⟩
  · refine .inr ⟨Nat.le_of_not_lt h, ?_⟩
    rw [read, if_neg h]
    split
    · next hrest => exact ⟨.ended s.ending, [], by simp, by simp [hrest]⟩
    · exact ⟨.bytes _ _, _, by simp, rfl⟩

/-- The calls that were interrupted since the last answer are not made again. -/
theorem gatherWithin_eq {calls wanted : Nat} {s : Source} (got : List UInt8)
    (h : s.delivery.calls wanted s.answered ≤
      calls + min s.interrupted (s.delivery.interruptions s.answered)) :
    s.gatherWithin calls wanted got = some (s.gather wanted got) := by
  induction calls generalizing wanted s got with
  | zero =>
    rw [gatherWithin, gather_eq_read]
    cases wanted with
    | zero => rfl
    | succ wanted =>
      simp only [Delivery.calls] at h
      omega
  | succ calls ih =>
    rw [gatherWithin, gather_eq_read]
    cases wanted with
    | zero => rfl
    | succ wanted =>
      simp only [Nat.succ_ne_zero, if_false]
      rcases s.read_cases (wanted + 1) with ⟨hlt, hread⟩ | ⟨hle, answer, rest, hanswer, hread⟩
      · rw [hread]
        apply ih
        dsimp only
        omega
      · rw [hread]
        rcases answer with _ | ⟨b, bs⟩ | (_ | fault)
        · exact absurd rfl hanswer
        · -- at least one byte less is wanted of the answers behind this one
          have hmono := s.delivery.calls_mono (show wanted + 1 - (bs.length + 1) ≤ wanted by omega)
            (s.answered + 1)
          simp only [Delivery.calls] at h
          apply ih
          dsimp only
          omega
        · rfl
        · rfl

end Source

/-! ### Batches -/

namespace Decoder

/-- Calls for one batch after another until one is not decoded, but no more than this many. -/
def allWithin (d : Decoder) (out : Output σ) :
    (calls : Nat) → Decoding σ → Option (Except Fault Totals × Decoding σ)
  | 0, _ => none
  | calls + 1, st =>
    match d.batch out st with
    | (.error fault, st') => some (.error fault, st')
    | (.ok .endOfTrace, st') => some (.ok st'.totals, st')
    | (.ok (.decoded _), st') => d.allWithin out calls st'

theorem length_rest_of_decoded {d : Decoder} {out : Output σ} {st st' : Decoding σ} {count : Nat}
    (h : d.batch out st = (.ok (.decoded count), st')) :
    st'.source.rest.length + (4 + count * RawRecord.size) = st.source.rest.length := by
  have hbatch := d.batch_standing out st
  rw [h] at hbatch
  exact Standing.length_rest_of_decoded hbatch

/-- The measure is how many lengths of batches the bytes left can hold. -/
theorem allWithin_eq (d : Decoder) (out : Output σ) {calls : Nat} {st : Decoding σ}
    (h : st.source.rest.length / 4 < calls) : d.allWithin out calls st = some (d.all out st) := by
  induction calls generalizing st with
  | zero => omega
  | succ calls ih =>
    rw [allWithin, all_eq]
    rcases hbatch : d.batch out st with ⟨fault | count | _, st'⟩
    · rfl
    · have hlen := length_rest_of_decoded hbatch
      exact ih (by omega)
    · rfl

end Decoder

/-! ### Descriptions -/

namespace Header

/-- Keeps one byte after another until one is zero or as many are kept as are allowed, but reads no more than
this many. -/
def descriptionWithin : (reads : Nat) → (kept : List UInt8) → Reading (Option (List UInt8))
  | 0, _ => pure none
  | reads + 1, kept => do
    let bs ← readField .objectDescription
    if bs = [0] ∨ kept.length = descriptionLimit then return some kept
    else descriptionWithin reads (kept ++ bs)

theorem descriptionWithin_eq {room : Nat} {kept : List UInt8} (h : kept.length + room = descriptionLimit)
    (s : Source) :
    descriptionWithin (room + 1) kept s =
      ((readDescriptionBytes room s).1.map fun bs => some (kept ++ bs),
        (readDescriptionBytes room s).2) := by
  induction room generalizing kept s with
  | zero =>
    rw [descriptionWithin, readDescriptionBytes, Reading.bind_apply, Reading.bind_apply]
    rcases readField .objectDescription s with ⟨fault | bs, s'⟩
    · rfl
    · simp [show kept.length = descriptionLimit from h, Reading.pure_apply, Except.map]
  | succ room ih =>
    rw [descriptionWithin, readDescriptionBytes, Reading.bind_apply, Reading.bind_apply]
    rcases hread : readField .objectDescription s with ⟨fault | bs, s'⟩
    · rfl
    · obtain ⟨-, hlen, -⟩ := readField_eq_ok hread
      have hroom : ¬ kept.length = descriptionLimit := by omega
      by_cases hzero : bs = [0]
      · simp [hzero, Reading.pure_apply, Except.map]
      · have hkept : (kept ++ bs).length + room = descriptionLimit := by
          rw [List.length_append, hlen, ← h, HeaderField.width]
          omega
        simp only [hzero, hroom, or_self, if_false, ih hkept, Reading.bind_apply]
        rcases readDescriptionBytes room s' with ⟨fault | more, s''⟩
        · rfl
        · simp [Reading.pure_apply, Except.map]

theorem exists_taken_readDescription (s : Source) :
    ∃ taken ≤ descriptionLimit + 1, taken ≤ s.rest.length ∧
      (readDescription s).2.rest = s.rest.drop taken := by
  obtain ⟨-, hleft⟩ := readDescription_apply s
  generalize (s.rest.takeWhile (· ≠ 0)).length = kept at hleft
  refine ⟨min (min kept descriptionLimit + 1) s.rest.length, by omega, Nat.min_le_right .., ?_⟩
  rw [hleft, List.drop_eq_drop_iff]
  omega

end Header

/-- Decoding ends within one call for a batch more than the bytes left can hold lengths, however the stream
ends and whatever the output does; a decoded batch takes four bytes and those of its records. A description
ends within 1024 reads, and takes no more bytes. A read ends within the calls that there are until as many are
answered as it wants bytes. -/
theorem loops_end (d : Decoder) (out : Output σ) (st : Decoding σ) :
    d.allWithin out (st.source.rest.length / 4 + 1) st = some (d.all out st) ∧
    (∀ count, (d.batch out st).1 = .ok (.decoded count) →
      (d.batch out st).2.source.rest.length + (4 + 48 * count) = st.source.rest.length) ∧
    (∀ s : Source,
      Header.descriptionWithin 1024 [] s =
        ((Header.readDescriptionBytes 1023 s).1.map some, (Header.readDescriptionBytes 1023 s).2) ∧
      ∃ taken ≤ 1024, taken ≤ s.rest.length ∧
        (Header.readDescription s).2.rest = s.rest.drop taken) ∧
    ∀ (s : Source) (wanted : Nat),
      s.gatherWithin (s.delivery.calls wanted s.answered) wanted [] = some (s.collect wanted) := by
  refine ⟨d.allWithin_eq out (Nat.lt_succ_self _), fun count h => ?_, fun s => ⟨?_, ?_⟩,
    fun s wanted => s.gatherWithin_eq [] (Nat.le_add_right ..)⟩
  · have hlen := Decoder.length_rest_of_decoded (Prod.ext h rfl)
    rw [← hlen, RawRecord.size, Nat.mul_comm]
  · exact Header.descriptionWithin_eq rfl s
  · exact Header.exists_taken_readDescription s

/-- Two empty batches and a byte behind them, with no room for records: the third call finds the byte. -/
theorem loops_end_empty_batches :
    let d : Decoder := ⟨default, .standard, 0⟩
    let out := Recording.output .none
    let st := Decoding.start (.plain [0, 0, 0, 0, 0, 0, 0, 0, 9]) .empty
    (d.batch out st).1 = .ok (.decoded 0) ∧ (d.batch out st).2.source.rest.length + 4 = 9 ∧
      (d.allWithin out 3 st).map Prod.fst = some (.error (.shortBatchLength 1)) := by
  intro d out st
  obtain ⟨hends, hdecoded, -, -⟩ := loops_end d out st
  let b : StoredBatch := ⟨[], by decide⟩
  have hb : d.Accepts b := ⟨Nat.le_refl 0, by simp [b, StoredBatch.raws]⟩
  have hbytes : b.bytes = [0, 0, 0, 0] := by decide
  have hbatch : (d.batch out st).1 = .ok (.decoded 0) := by
    have hrest : st.standing.rest = b.bytes ++ [0, 0, 0, 0, 9] := by rw [hbytes]; rfl
    have hfirst := Standing.batch_of_accepts Recording.neverFails hb hrest
    rw [d.batch_standing] at hfirst
    exact (Prod.mk.inj hfirst).1
  have hall : (d.all out st).1 = .error (.shortBatchLength 1) := by
    have hrest : st.standing.rest = [b, b].flatMap StoredBatch.bytes ++ [9] := by
      simp only [List.flatMap_cons, List.flatMap_nil, hbytes]; rfl
    have haccepts : ∀ b' ∈ [b, b], d.Accepts b' := by simp [hb]
    have hbehind := Standing.all_behind Recording.neverFails haccepts hrest
    have hfault : (st.standing.behind d out [b, b] [9]).batch d out =
        (.error (.shortBatchLength 1), _) := Standing.batch_of_front_error rfl
    rw [Standing.all_of_error hfault, d.all_standing] at hbehind
    exact (Prod.mk.inj hbehind).1
  have hcalls : st.source.rest.length / 4 + 1 = 3 := by decide
  rw [hcalls] at hends
  exact ⟨hbatch, hdecoded 0 hbatch, (congrArg (Option.map Prod.fst) hends).trans (congrArg some hall)⟩

end ReactorTrace
