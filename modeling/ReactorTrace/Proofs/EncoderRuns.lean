import ReactorTrace.Encoder.Writer
import ReactorTrace.Proofs.RoundTrip

/-! Runs of the encoder. A step writes all of its bytes or none: every check comes before the first byte
(`perform_eq`). What a run writes is therefore the trace of its steps (`run_eq_trace`), to which the
accepted ones alone add bytes: the refused ones might as well have been left out
(`run_without_refused`). -/

namespace ReactorTrace.Encoder

/-! ### Pieces -/

/-- Writing that puts these bytes behind all that is there. -/
def Appends (writer : Writer Unit) (bs : List UInt8) : Prop :=
  ∀ written, writer.run.run written = (.ok (), written ++ bs)

theorem appends_pure : Appends (pure ()) [] := fun written => by
  rw [List.append_nil]
  rfl

theorem appends_write (bs : List UInt8) : Appends (write bs) bs := fun _ => rfl

theorem Appends.bind {first next : Writer Unit} {bs bs' : List UInt8} (h : Appends first bs)
    (h' : Appends next bs') : Appends (do first; next) (bs ++ bs') := by
  intro written
  rw [ExceptT.run_bind, StateT.run_bind, h written, ← List.append_assoc]
  exact h' (written ++ bs)

theorem appends_forM {α : Type} {writer : α → Writer Unit} {bytes : α → List UInt8}
    (h : ∀ a, Appends (writer a) (bytes a)) (as : List α) :
    Appends (as.forM writer) (as.flatMap bytes) := by
  induction as with
  | nil => exact appends_pure
  | cons a as ih => exact (h a).bind ih

theorem appends_writeEntry (entry : SymbolEntry) : Appends (writeEntry entry) (encodeEntry entry) := by
  have h := (appends_write entry.object.toBytes).bind
    ((appends_write (Text.Utf8.encode entry.description)).bind (appends_write [0]))
  rwa [← List.append_assoc] at h

/-- A count that is checked first. -/
theorem perform_checkCount (count : Nat) (refusal : Refusal) {next : Writer Unit} {bs : List UInt8}
    (h : Appends next bs) (written : List UInt8) :
    (do checkCount count refusal; next).run.run written =
      if count ≤ maxCount then (.ok (), written ++ bs) else (.error refusal, written) := by
  unfold checkCount
  split
  · exact h written
  · rfl

/-! ### Steps -/

theorem perform_header (startTime : Int64) (entries : List SymbolEntry) (written : List UInt8) :
    (Step.header startTime entries).perform written =
      if entries.length ≤ maxCount then
        (.ok (), written ++ (LittleEndian.encodeInt64 startTime ++
          LittleEndian.encode 4 entries.length ++ entries.flatMap encodeEntry))
      else (.error .tooManyObjects, written) := by
  have h := (appends_write (LittleEndian.encodeInt64 startTime)).bind
    ((appends_write (LittleEndian.encode 4 entries.length)).bind
      (appends_forM appends_writeEntry entries))
  rw [← List.append_assoc] at h
  exact perform_checkCount entries.length .tooManyObjects h written

theorem perform_rawBatch (raws : List RawRecord) (written : List UInt8) :
    (Step.rawBatch raws).perform written =
      if raws.length ≤ maxCount then
        (.ok (), written ++ (LittleEndian.encode 4 raws.length ++ raws.flatMap RawRecord.toBytes))
      else (.error .batchTooLong, written) := by
  have hrecords := appends_forM (fun raw : RawRecord => appends_write raw.toBytes) raws
  have h := (appends_write (LittleEndian.encode 4 raws.length)).bind hrecords
  exact perform_checkCount raws.length .batchTooLong h written

/-- A step puts all of its bytes behind what is written, or it leaves that as it is. -/
theorem perform_eq (step : Step) (written : List UInt8) :
    step.perform written =
      match step.encode with
      | .ok bs => (.ok (), written ++ bs)
      | .error refusal => (.error refusal, written) := by
  have hraw (raws : List RawRecord) : (Step.rawBatch raws).perform written =
      match encodeRawBatch raws with
      | .ok bs => (.ok (), written ++ bs)
      | .error refusal => (.error refusal, written) := by
    rw [perform_rawBatch, encodeRawBatch]
    split <;> rfl
  cases step with
  | header startTime entries =>
    rw [perform_header, Step.encode, encodeHeader]
    split <;> rfl
  | rawBatch raws => exact hraw raws
  | batch records =>
    rw [Step.encode, encodeBatch, Step.perform, Step.write, writeBatch]
    cases records.mapM Record.toRaw with
    | ok raws => exact hraw raws
    | error refusal =>
      cases refusal
      rfl

/-! ### Refused steps -/

/-- A count that is too large for its field, or a record whose reaction is. -/
def Step.Refused : Step → Prop
  | header _ entries => maxCount < entries.length
  | batch records =>
    (∃ record ∈ records, ∃ r ∈ record.reaction, Record.maxReaction < r.toNat) ∨
      maxCount < records.length
  | rawBatch raws => maxCount < raws.length

instance : DecidablePred Step.Refused
  | .header _ entries => inferInstanceAs (Decidable (maxCount < entries.length))
  | .batch _ => inferInstanceAs (Decidable (_ ∨ _))
  | .rawBatch raws => inferInstanceAs (Decidable (maxCount < raws.length))

theorem Step.fits_batch {records : List Record} (h : ¬ (batch records).Refused) :
    (batch records).Fits maxCount := by
  obtain ⟨hsmall, hcount⟩ := not_or.1 h
  refine .batch records ?_ (Nat.le_of_not_lt hcount) (Nat.le_of_not_lt hcount)
  intro record hrecord r hr
  exact Nat.le_of_not_lt fun hlarge => hsmall ⟨record, hrecord, r, hr, hlarge⟩

theorem Step.fits_rawBatch {raws : List RawRecord} (h : ¬ (rawBatch raws).Refused) :
    (rawBatch raws).Fits maxCount :=
  .rawBatch raws (Nat.le_of_not_lt h) (Nat.le_of_not_lt h)

theorem Step.encode_of_not_refused {step : Step} (h : ¬ step.Refused) :
    step.encode = .ok step.bytes := by
  cases step with
  | header startTime entries =>
    have hencode : (header startTime entries).encode = .ok _ := if_pos (Nat.le_of_not_lt h)
    rw [bytes_eq hencode, hencode]
  | batch records => exact (fits_batch h).encode_eq
  | rawBatch raws => exact (fits_rawBatch h).encode_eq

theorem Step.encode_of_refused {step : Step} (h : step.Refused) :
    ∃ refusal, step.encode = .error refusal := by
  cases step with
  | header startTime entries => exact ⟨_, if_neg (Nat.not_le.2 h)⟩
  | rawBatch raws => exact ⟨_, if_neg (Nat.not_le.2 h)⟩
  | batch records =>
    rw [encode, encodeBatch]
    cases hraws : records.mapM Record.toRaw with
    | error refusal =>
      cases refusal
      exact ⟨_, rfl⟩
    | ok raws =>
      rcases h with ⟨record, hrecord, r, hr, hlarge⟩ | hcount
      · rw [Record.mapM_toRaw_of_large hrecord hr hlarge] at hraws
        simp at hraws
      · have hlength := congrArg List.length (Record.mapM_toRaw_eq_ok_iff.1 hraws)
        rw [List.length_map, List.length_map] at hlength
        exact ⟨_, if_neg (Nat.not_le.2 (hlength ▸ hcount))⟩

theorem Step.bytes_of_refused {step : Step} (h : step.Refused) : step.bytes = [] := by
  obtain ⟨refusal, hencode⟩ := encode_of_refused h
  rw [bytes, hencode]

theorem perform_of_refused {step : Step} (h : step.Refused) (written : List UInt8) :
    ∃ refusal, step.perform written = (.error refusal, written) := by
  obtain ⟨refusal, hencode⟩ := Step.encode_of_refused h
  rw [perform_eq, hencode]
  exact ⟨refusal, rfl⟩

theorem perform_of_not_refused {step : Step} (h : ¬ step.Refused) (written : List UInt8) :
    step.perform written = (.ok (), written ++ step.bytes) := by
  rw [perform_eq, Step.encode_of_not_refused h]

theorem refused_iff (step : Step) (written : List UInt8) :
    (∃ refusal, (step.perform written).1 = .error refusal) ↔ step.Refused := by
  constructor
  · rintro ⟨refusal, hrefusal⟩
    refine Decidable.byContradiction fun h => ?_
    rw [perform_of_not_refused h] at hrefusal
    simp at hrefusal
  · intro h
    obtain ⟨refusal, hperform⟩ := perform_of_refused h written
    exact ⟨refusal, congrArg Prod.fst hperform⟩

theorem Step.Fits.length_bytes {capacity : Nat} {step : Step} (h : step.Fits capacity) :
    step.bytes.length = 4 + 48 * step.records.length := by
  obtain ⟨b, hencode, hrecords, -⟩ := exists_storedBatch h
  have hcount := congrArg List.length hrecords
  rw [List.length_map, b.length_raws] at hcount
  rw [bytes_eq hencode, b.length_bytes, hcount, Nat.mul_comm]
  rfl

/-! ### Runs -/

theorem run_cons (step : Step) (steps : List Step) (written : List UInt8) :
    run (step :: steps) written =
      ((step.perform written).1 :: (run steps (step.perform written).2).1,
        (run steps (step.perform written).2).2) := rfl

/-- The steps of a run that are not refused. -/
def accepted (steps : List Step) : List Step := steps.filter fun step => ¬ step.Refused

theorem perform_snd (step : Step) (written : List UInt8) :
    (step.perform written).2 = written ++ step.bytes := by
  rw [perform_eq, Step.bytes]
  cases step.encode with
  | ok bs => rfl
  | error refusal => exact (List.append_nil _).symm

/-- What a run writes is the trace of its steps. -/
theorem run_eq_trace (steps : List Step) (written : List UInt8) :
    (run steps written).2 = written ++ trace steps := by
  induction steps generalizing written with
  | nil => exact (List.append_nil _).symm
  | cons step steps ih =>
    rw [run_cons]
    dsimp only
    rw [ih, perform_snd, List.append_assoc]
    rfl

/-- The bytes of a trace are those of its accepted steps. -/
theorem trace_accepted (steps : List Step) : trace (accepted steps) = trace steps := by
  induction steps with
  | nil => rfl
  | cons step steps ih =>
    rw [accepted, trace, trace, List.flatMap_cons]
    by_cases h : step.Refused
    · rw [List.filter_cons_of_neg (by simpa using h), Step.bytes_of_refused h]
      exact ih
    · rw [List.filter_cons_of_pos (by simpa using h), List.flatMap_cons]
      exact congrArg (step.bytes ++ ·) ih

theorem run_fst_of_not_refused {steps : List Step} (h : ∀ step ∈ steps, ¬ step.Refused)
    (written : List UInt8) : ∀ result ∈ (run steps written).1, result = .ok () := by
  induction steps generalizing written with
  | nil => simp [run]
  | cons step steps ih =>
    obtain ⟨hstep, hsteps⟩ := List.forall_mem_cons.1 h
    rw [run_cons, perform_of_not_refused hstep]
    exact List.forall_mem_cons.2 ⟨rfl, ih hsteps _⟩

theorem not_refused_of_mem_accepted {steps : List Step} : ∀ step ∈ accepted steps, ¬ step.Refused := by
  intro step hstep
  simpa using (List.mem_filter.1 hstep).2

/-- Whatever is written already, a step is refused exactly if a count or a reaction is too large for its
field. It then leaves everything as it is, and otherwise puts its bytes behind it. The bytes of a run are
those of its accepted steps in their order, and the same run without the refused steps writes the same. -/
theorem run_without_refused :
    (∀ (step : Step) (written : List UInt8),
      ((∃ refusal, (step.perform written).1 = .error refusal) ↔ step.Refused) ∧
      (step.Refused → (step.perform written).2 = written) ∧
      (¬ step.Refused → step.perform written = (.ok (), written ++ step.bytes))) ∧
    (∀ records : List Record, ¬ (Step.batch records).Refused →
      (Step.batch records).bytes.length = 4 + 48 * records.length) ∧
    (∀ raws : List RawRecord, ¬ (Step.rawBatch raws).Refused →
      (Step.rawBatch raws).bytes.length = 4 + 48 * raws.length) ∧
    (∀ (records : List Record) (raws : List RawRecord) (written : List UInt8),
      records.map Record.toRaw = raws.map .ok →
        (Step.batch records).perform written = (Step.rawBatch raws).perform written) ∧
    ∀ (steps : List Step) (written : List UInt8),
      (run steps written).2 = written ++ (accepted steps).flatMap Step.bytes ∧
      (run (accepted steps) written).2 = (run steps written).2 ∧
      (∀ result ∈ (run (accepted steps) written).1, result = .ok ()) ∧
      ∀ (σ : Type) (config : Config) (out : Output σ) (delivery : Delivery) (s : σ),
        convert config out (.ofBytes (run (accepted steps) written).2 .endOfFile delivery) s =
          convert config out (.ofBytes (run steps written).2 .endOfFile delivery) s := by
  refine ⟨?_, ?_, ?_, ?_, ?_⟩
  · intro step written
    refine ⟨refused_iff step written, fun h => ?_, fun h => perform_of_not_refused h written⟩
    obtain ⟨refusal, hperform⟩ := perform_of_refused h written
    exact congrArg Prod.snd hperform
  · intro records h
    exact (Step.fits_batch h).length_bytes
  · intro raws h
    rw [(Step.fits_rawBatch h).length_bytes, Step.records, List.length_map]
  · intro records raws written h
    rw [Step.perform, Step.write, writeBatch, Record.mapM_toRaw_eq_ok_iff.2 h]
    rfl
  · intro steps written
    have hsame : (run (accepted steps) written).2 = (run steps written).2 := by
      rw [run_eq_trace, run_eq_trace, trace_accepted]
    have hbytes : (run steps written).2 = written ++ (accepted steps).flatMap Step.bytes := by
      rw [run_eq_trace, ← trace_accepted, trace]
    refine ⟨hbytes, hsame, ?_, ?_⟩
    · exact run_fst_of_not_refused not_refused_of_mem_accepted written
    · intro σ config out delivery s
      rw [hsame]

/-- Between a header and an empty batch, a batch whose last record alone has too large a reaction. -/
theorem run_without_refused_last_record :
    let storable : Record := ⟨0, ⟨1⟩, some 2147483647, 0, 5, 0, 6⟩
    let unstorable : Record := ⟨0, ⟨1⟩, some 2147483648, 0, 5, 0, 6⟩
    let header : Step := .header 0 [⟨⟨1⟩, "reactor"⟩]
    (Step.batch [storable, unstorable]).Refused ∧ ¬ (Step.batch [storable]).Refused ∧
      (run [header, .batch [storable, unstorable], .batch []] []).2 =
        (run [header, .batch []] []).2 ∧
      (Step.batch [storable]).bytes.length = 52 := by
  intro storable unstorable header
  have hrefused : (Step.batch [storable, unstorable]).Refused := by decide
  have haccepted : ¬ (Step.batch [storable]).Refused := by decide
  obtain ⟨-, hlength, -, -, hrun⟩ := run_without_refused
  exact ⟨hrefused, haccepted, (hrun [header, .batch [storable, unstorable], .batch []] []).2.1.symm,
    hlength [storable] haccepted⟩

end ReactorTrace.Encoder
