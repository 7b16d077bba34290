import ReactorTrace.Proofs.Acceptance
import ReactorTrace.Proofs.DecoderRuns

/-! Runs over streams with the same bytes. Reading a header, decoding and converting never see how the
calls on a stream are answered (`runs_of_delivery`). The ending shows only where a read is cut short, or
where the end of the file would be the end of the trace: over a stream that fails there the failure is
reported, and all else is the same (`convert_failing`). -/

namespace ReactorTrace

/-- The faults that say how many bytes were missing at the end of the file. -/
def Fault.isShort : Fault → Bool
  | .shortHeader .. | .shortBatchLength .. | .shortBatch .. => true
  | _ => false

/-- What a fault becomes where the stream fails instead of ending. -/
def Fault.atFailure (cause : IoFault) (fault : Fault) : Fault :=
  if fault.isShort then .io cause else fault

theorem Fault.atFailure_of_short (cause : IoFault) {fault : Fault} (h : fault.isShort = true) :
    fault.atFailure cause = .io cause := if_pos h

theorem Fault.atFailure_of_not_short (cause : IoFault) {fault : Fault} (h : fault.isShort = false) :
    fault.atFailure cause = fault := if_neg (by simp [h])

variable {α β σ : Type}

/-- Results over two streams with the same bytes and these endings. -/
inductive Ending.Alike (e e' : Ending) : Except Fault α → Except Fault α → Prop
  | value (a : α) : Alike e e' (.ok a) (.ok a)
  | refused (fault : Fault) (h : fault.isShort = false) : Alike e e' (.error fault) (.error fault)
  | cut (short : Fault) (h : short.isShort = true) :
    Alike e e' (.error (e.cut short)) (.error (e'.cut short))

namespace Ending.Alike

theorem eq {e : Ending} {r r' : Except Fault α} (h : Alike e e r r') : r = r' := by
  cases h <;> rfl

theorem eq_atFailure {cause : IoFault} {r r' : Except Fault α}
    (h : Alike .endOfFile (.failure cause) r r') : r' = r.mapError (Fault.atFailure cause) := by
  cases h with
  | value a => rfl
  | refused fault h => exact congrArg Except.error (Fault.atFailure_of_not_short cause h).symm
  | cut short h => exact congrArg Except.error (Fault.atFailure_of_short cause h).symm

end Ending.Alike

/-! ### Headers -/

/-- A step that goes by the bytes of a stream, and by its ending only where a read is cut short. -/
def Reading.Steady (step : Reading α) : Prop :=
  ∀ s s' : Source, s.rest = s'.rest →
    s.ending.Alike s'.ending (step s).1 (step s').1 ∧ (step s).2.rest = (step s').2.rest ∧
    (step s).2.ending = s.ending ∧ (step s').2.ending = s'.ending

namespace Reading.Steady

theorem pure (a : α) : Steady (Pure.pure a) :=
  fun _ _ h => ⟨.value a, h, rfl, rfl⟩

theorem fail {fault : Fault} (hfault : fault.isShort = false) :
    Steady (Reading.fail fault : Reading α) :=
  fun _ _ h => ⟨.refused fault hfault, h, rfl, rfl⟩

theorem bind {step : Reading α} {next : α → Reading β} (h : Steady step)
    (h' : ∀ a, Steady (next a)) : Steady (step >>= next) := by
  intro s s' hs
  obtain ⟨hresult, hrest, hending, hending'⟩ := h s s' hs
  rw [bind_apply, bind_apply]
  generalize step s = x at *
  generalize step s' = x' at *
  obtain ⟨r, s₁⟩ := x
  obtain ⟨r', s₁'⟩ := x'
  dsimp only at hresult hrest hending hending' ⊢
  cases hresult with
  | value a =>
    obtain ⟨hresult, hrest, hending₁, hending₁'⟩ := h' a s₁ s₁' hrest
    rw [hending, hending'] at hresult
    exact ⟨hresult, hrest, hending₁.trans hending, hending₁'.trans hending'⟩
  | refused fault hfault => exact ⟨.refused fault hfault, hrest, hending, hending'⟩
  | cut short hshort => exact ⟨.cut short hshort, hrest, hending, hending'⟩

end Reading.Steady

namespace Header

open Reading

theorem steady_readField (field : HeaderField) : Steady (readField field) := by
  intro s s' hs
  rw [readField_apply, readField_apply, hs]
  refine ⟨?_, by simp [hs], Source.ending_collect .., Source.ending_collect ..⟩
  by_cases h : field.width ≤ s'.rest.length
  · rw [if_pos h, if_pos h]
    exact .value _
  · rw [if_neg h, if_neg h]
    exact .cut _ rfl

theorem steady_readDescriptionBytes (room : Nat) : Steady (readDescriptionBytes room) := by
  induction room with
  | zero => exact (steady_readField _).bind fun _ => .pure []
  | succ room ih =>
    refine (steady_readField _).bind fun bs => ?_
    split
    · exact .pure []
    · exact ih.bind fun more => .pure (bs ++ more)

theorem steady_readEntry : Steady readEntry := by
  refine (steady_readField _).bind fun object => ?_
  have hdescription : Steady readDescription :=
    (steady_readDescriptionBytes _).bind fun bs => .pure (Text.Utf8.decodeLossy bs)
  exact hdescription.bind fun description => .pure (SymbolEntry.mk _ description)

theorem steady_readEntries (count : Nat) (table : SymbolTable) :
    Steady (readEntries count table) := by
  induction count generalizing table with
  | zero => exact .pure table
  | succ count ih => exact steady_readEntry.bind fun _ => ih _

theorem steady_readCount (limit : Nat) : Steady (readCount limit) := by
  refine (steady_readField _).bind fun bs => ?_
  dsimp only
  split
  · exact .pure _
  · exact .fail rfl

theorem steady_read (limit : Nat) : Steady (read limit) := by
  refine (steady_readField _).bind fun startTime => ?_
  refine (steady_readCount limit).bind fun count => ?_
  exact (steady_readEntries count .empty).bind fun symbols => .pure (Header.mk _ symbols)

/-- The same bytes give the same header, or two faults that differ at most in what cuts a read short. -/
theorem read_of_rest (limit : Nat) {source source' : Source} (h : source.rest = source'.rest) :
    (∃ header body body', read limit source = (.ok header, body) ∧
      read limit source' = (.ok header, body') ∧ body.rest = body'.rest ∧
      body.ending = source.ending ∧ body'.ending = source'.ending) ∨
    ∃ fault fault' body body', read limit source = (.error fault, body) ∧
      read limit source' = (.error fault', body') ∧ body.rest = body'.rest ∧
      source.ending.Alike source'.ending (.error fault : Except Fault Header) (.error fault') := by
  obtain ⟨hresult, hrest, hending, hending'⟩ := steady_read limit source source' h
  cases hread : read limit source with
  | mk result body =>
    cases hread' : read limit source' with
    | mk result' body' =>
      rw [hread] at hresult hrest hending
      rw [hread'] at hresult hrest hending'
      dsimp only at hresult hrest hending hending'
      cases hresult with
      | value header => exact .inl ⟨header, body, body', rfl, rfl, hrest, hending, hending'⟩
      | refused fault h => exact .inr ⟨_, _, body, body', rfl, rfl, hrest, .refused fault h⟩
      | cut short h => exact .inr ⟨_, _, body, body', rfl, rfl, hrest, .cut short h⟩

end Header

/-! ### Answered differently -/

namespace Decoder

/-- What a call shows: its result, and how it leaves the stream, the totals and the output. -/
inductive Answer (σ : Type)
  | batch (result : Except Fault BatchStatus) (left : Standing σ)
  | all (result : Except Fault Totals) (left : Standing σ)

def Call.answer (d : Decoder) (out : Output σ) (st : Decoding σ) : Call → Answer σ
  | batch => .batch (d.batch out st).1 (d.batch out st).2.standing
  | all => .all (d.all out st).1 (d.all out st).2.standing

/-- The answers to a sequence of calls, which goes on after faults. -/
def answers (d : Decoder) (out : Output σ) : List Call → Decoding σ → List (Answer σ)
  | [], _ => []
  | call :: calls, st => call.answer d out st :: d.answers out calls (call.perform d out st)

theorem Call.answer_eq (d : Decoder) (out : Output σ) (st : Decoding σ) (call : Call) :
    call.answer d out st = match call with
      | batch => .batch (st.standing.batch d out).1 (st.standing.batch d out).2
      | all => .all (st.standing.all d out).1 (st.standing.all d out).2 := by
  cases call with
  | batch => rw [batch_standing]; rfl
  | all => rw [all_standing]; rfl

theorem Call.standing_perform (d : Decoder) (out : Output σ) (st : Decoding σ) (call : Call) :
    (call.perform d out st).standing = match call with
      | batch => (st.standing.batch d out).2
      | all => (st.standing.all d out).2 := by
  cases call with
  | batch => rw [batch_standing]; rfl
  | all => rw [all_standing]; rfl

/-- The standing decides all answers. -/
theorem answers_of_standing (d : Decoder) (out : Output σ) (calls : List Call) {st st' : Decoding σ}
    (h : st.standing = st'.standing) : d.answers out calls st = d.answers out calls st' := by
  induction calls generalizing st st' with
  | nil => rfl
  | cons call calls ih =>
    rw [answers, answers, Call.answer_eq, Call.answer_eq, h]
    congr 1
    apply ih
    rw [Call.standing_perform, Call.standing_perform, h]

end Decoder

/-- Conversions over streams with the same bytes and the same ending. -/
theorem convert_of_rest (config : Config) (out : Output σ) {source source' : Source}
    (hrest : source.rest = source'.rest) (hending : source.ending = source'.ending) (s : σ) :
    let outcome := convert config out source s
    let outcome' := convert config out source' s
    outcome.result = outcome'.result ∧ outcome.printed = outcome'.printed ∧
      outcome.source.rest = outcome'.source.rest ∧ outcome.output = outcome'.output := by
  rcases Header.read_of_rest config.maxObjects hrest with
    ⟨header, body, body', hread, hread', hbody, he, he'⟩ |
    ⟨fault, fault', body, body', hread, hread', hbody, halike⟩
  · cases htitle : out.title s with
    | mk result s' =>
      cases result with
      | error fault =>
        rw [convert_of_title_error hread htitle, convert_of_title_error hread' htitle]
        exact ⟨rfl, rfl, hbody, rfl⟩
      | ok _ =>
        obtain ⟨hresult, hprinted, hleft, houtput⟩ := convert_of_title_ok hread htitle
        obtain ⟨hresult', hprinted', hleft', houtput'⟩ := convert_of_title_ok hread' htitle
        rw [he, hending, ← he', hbody] at hresult hleft houtput
        exact ⟨hresult.trans hresult'.symm, hprinted.trans hprinted'.symm, hleft.trans hleft'.symm,
          houtput.trans houtput'.symm⟩
  · rw [hending] at halike
    rw [convert_of_read_error hread, convert_of_read_error hread',
      show fault = fault' from Except.error.inj halike.eq]
    exact ⟨rfl, rfl, hbody, rfl⟩

/-- How the calls on a stream are answered, in what portions and after how many interruptions, has no
part in what is read from it: not in a header, not in the answers to any calls on a decoder, and not in
a conversion, whatever output they write to and however the stream ends. -/
theorem runs_of_delivery (bytes : List UInt8) (ending : Ending) (delivery delivery' : Delivery) :
    let source := Source.ofBytes bytes ending delivery
    let source' := Source.ofBytes bytes ending delivery'
    (∀ limit, (Header.read limit source).1 = (Header.read limit source').1 ∧
      (Header.read limit source).2.rest = (Header.read limit source').2.rest) ∧
    (∀ (d : Decoder) (out : Output σ) (calls : List Decoder.Call) (s : σ),
      d.answers out calls (.start source s) = d.answers out calls (.start source' s)) ∧
    ∀ (config : Config) (out : Output σ) (s : σ),
      let outcome := convert config out source s
      let outcome' := convert config out source' s
      outcome.result = outcome'.result ∧ outcome.printed = outcome'.printed ∧
        outcome.source.rest = outcome'.source.rest ∧ outcome.output = outcome'.output := by
  intro source source'
  refine ⟨fun limit => ?_, fun d out calls s => ?_, fun config out s => ?_⟩
  · obtain ⟨hresult, hrest, -, -⟩ := Header.steady_read limit source source' rfl
    exact ⟨hresult.eq, hrest⟩
  · exact d.answers_of_standing out calls rfl
  · have hrest : source.rest = source'.rest := rfl
    have hending : source.ending = source'.ending := rfl
    exact convert_of_rest config out hrest hending s

/-! ### Failing instead of ending -/

namespace Decoder

theorem isShort_checkLength {capacity : Nat} {length : Int32} {fault : Fault}
    (h : checkLength capacity length = .error fault) : fault.isShort = false := by
  unfold checkLength at h
  split at h
  · obtain rfl := Except.error.inj h
    rfl
  · split at h
    · obtain rfl := Except.error.inj h
      rfl
    · simp at h

/-- The end of the file before a batch is the end of the trace; a failure there is a failure. -/
theorem front_failing (capacity : Nat) (cause : IoFault) (r : List UInt8) :
    front capacity (.failure cause) r =
      (match (front capacity .endOfFile r).1 with
        | .ok none => .error (.io cause)
        | .ok (some raws) => .ok (some raws)
        | .error fault => .error (fault.atFailure cause), (front capacity .endOfFile r).2) := by
  unfold front
  by_cases hshort : r.length < 4
  · rw [if_pos hshort, if_pos hshort]
    by_cases hnil : r = []
    · simp [hnil, Ending.cut]
    · simp [hnil, Ending.cut, Fault.atFailure, Fault.isShort]
  · rw [if_neg hshort, if_neg hshort]
    cases hcheck : checkLength capacity (LittleEndian.decodeInt32 (r.take 4)) with
    | error fault => simp [Fault.atFailure, isShort_checkLength hcheck]
    | ok count =>
      dsimp only
      split
      · simp [Ending.cut, Fault.atFailure, Fault.isShort]
      · rfl

end Decoder

namespace Standing

open Decoder

/-- The same bytes, but the stream fails behind them. -/
def failing (v : Standing σ) (cause : IoFault) : Standing σ := { v with ending := .failure cause }

theorem batch_failing (d : Decoder) {out : Output σ} (hout : out.NeverFails) {v : Standing σ}
    (hending : v.ending = .endOfFile) (cause : IoFault) :
    (v.failing cause).batch d out =
      (match (v.batch d out).1 with
        | .ok .endOfTrace => .error (.io cause)
        | .ok (.decoded count) => .ok (.decoded count)
        | .error fault => .error (fault.atFailure cause), (v.batch d out).2.failing cause) := by
  have hfront : front d.capacity (v.failing cause).ending (v.failing cause).rest = _ :=
    front_failing d.capacity cause v.rest
  unfold batch
  rw [hfront, hending]
  cases front d.capacity .endOfFile v.rest with
  | mk found taken =>
    cases found with
    | error fault => rfl
    | ok found =>
      cases found with
      | none => rfl
      | some raws =>
        have hwrite := writeRows_of_neverFails d hout 0 raws v.output
        rw [rows_eq] at hwrite
        have hoffer : (v.failing cause).output = v.output := rfl
        dsimp only
        rw [hoffer, hwrite]
        cases d.unknown? raws with
        | none => rfl
        | some raw => rfl

/-- Where decoding would end with the file, and where a read would be cut short, the failure is reported;
nothing else is different. -/
theorem all_failing (d : Decoder) {out : Output σ} (hout : out.NeverFails) {v : Standing σ}
    (hending : v.ending = .endOfFile) (cause : IoFault) :
    (v.failing cause).all d out =
      (match (v.all d out).1 with
        | .ok _ => .error (.io cause)
        | .error fault => .error (fault.atFailure cause), (v.all d out).2.failing cause) := by
  fun_induction all d out v with
  | case1 v fault v' hbatch =>
    have hfailing := batch_failing d hout hending cause
    rw [hbatch] at hfailing
    exact all_of_error hfailing
  | case2 v v' hbatch =>
    have hfailing := batch_failing d hout hending cause
    rw [hbatch] at hfailing
    exact all_of_error hfailing
  | case3 v count v' hbatch ih =>
    have hfailing := batch_failing d hout hending cause
    have hending' := ending_batch d out v
    rw [hbatch] at hfailing hending'
    rw [all_of_decoded hfailing, ih (hending'.trans hending)]

end Standing

/-- Conversion of the first `n` bytes of a byte string, once where the file ends there and once where the
stream fails there. The same calls are made, the same text is printed and the same bytes are taken. The
failure is reported where the conversion of the file succeeds or says that bytes are missing, and in
every other case the result is the same. -/
theorem convert_failing (config : Config) {out : Output σ} (hout : out.NeverFails)
    (bytes : List UInt8) {n : Nat} (hn : n ≤ bytes.length) (cause : IoFault)
    (delivery delivery' : Delivery) (s : σ) :
    let ended := convert config out (.ofBytes (bytes.take n) .endOfFile delivery) s
    let failed := convert config out (.failingAt bytes n cause delivery') s
    failed.output = ended.output ∧ failed.printed = ended.printed ∧
    failed.source.rest = ended.source.rest ∧
    failed.result = match ended.result with
      | .ok _ => .error (.io cause)
      | .error fault => .error (if fault.isShort then .io cause else fault) := by
  intro ended failed
  have hsource : Source.failingAt bytes n cause delivery' =
      .ofBytes (bytes.take n) (.failure cause) delivery' := if_pos hn
  have hrest : (Source.ofBytes (bytes.take n) .endOfFile delivery).rest =
      (Source.failingAt bytes n cause delivery').rest := by rw [hsource]; rfl
  have hending' : (Source.failingAt bytes n cause delivery').ending = .failure cause := by
    rw [hsource]; rfl
  rcases Header.read_of_rest config.maxObjects hrest with
    ⟨header, body, body', hread, hread', hbody, he, he'⟩ |
    ⟨fault, fault', body, body', hread, hread', hbody, halike⟩
  · obtain ⟨hresult, hprinted, hleft, houtput⟩ := convert_of_title_ok hread (hout.title_eq s)
    obtain ⟨hresult', hprinted', hleft', houtput'⟩ := convert_of_title_ok hread' (hout.title_eq s)
    let v : Standing σ := ⟨body.rest, body.ending, ⟨0, 0⟩, out.call s .title⟩
    have hv : (⟨body'.rest, body'.ending, ⟨0, 0⟩, out.call s .title⟩ : Standing σ) =
        v.failing cause := by
      rw [← hbody, he', hending']
      rfl
    have hall := Standing.all_failing (config.decoder header) hout (v := v) he cause
    rw [hv, hall] at hresult' hleft' houtput'
    refine ⟨houtput'.trans houtput.symm, hprinted'.trans hprinted.symm, hleft'.trans hleft.symm, ?_⟩
    rw [hresult', hresult]
    cases (v.all (config.decoder header) out).1 with
    | error fault => rfl
    | ok totals =>
      dsimp only
      rw [hout.flush]
      rfl
  · rw [hending'] at halike
    obtain rfl : fault' = fault.atFailure cause := Except.error.inj halike.eq_atFailure
    have hended : ended = _ := convert_of_read_error hread out s
    have hfailed : failed = _ := convert_of_read_error hread' out s
    rw [hended, hfailed]
    exact ⟨rfl, rfl, hbody.symm, rfl⟩

/-- A stream of a header and empty batches that fails behind the first of these. -/
theorem convert_failing_between_batches :
    let bytes : List UInt8 := List.replicate 20 0
    let ended := convert .standard (Recording.output .none)
      (.ofBytes (bytes.take 16) .endOfFile .prompt) .empty
    let failed := convert .standard (Recording.output .none)
      (.failingAt bytes 16 .isDirectory .prompt) .empty
    (Recording.output .none).NeverFails ∧ 16 ≤ bytes.length ∧ ended.result = .ok ⟨0, 0, 1, 0⟩ ∧
      failed.result = .error (.io .isDirectory) := by
  intro bytes ended failed
  have ht : StoredTrace.Accepted .standard ⟨⟨0, [], by decide⟩, [⟨[], by decide⟩]⟩ :=
    ⟨by decide, by simp, by simp⟩
  have hended : ended.result = .ok ⟨0, 0, 1, 0⟩ :=
    (convert_stored Recording.neverFails ht .prompt .empty).1
  obtain ⟨-, -, -, hfailed⟩ := convert_failing .standard Recording.neverFails bytes (n := 16)
    (by decide) .isDirectory .prompt .prompt .empty
  replace hfailed : failed.result = match ended.result with
    | .ok _ => .error (.io .isDirectory)
    | .error fault => .error (if fault.isShort then .io .isDirectory else fault) := hfailed
  rw [hended] at hfailed
  exact ⟨Recording.neverFails, by decide, hended, hfailed⟩

end ReactorTrace
