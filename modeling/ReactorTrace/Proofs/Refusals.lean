import ReactorTrace.Proofs.Locality

/-! Conversions that are refused. A conversion that does not accept an object count, the length of a batch
or an event type, or whose output fails at the column names or at a row, goes by the bytes that it takes
alone: over every stream that begins with these it fails in the same way and at the same place, with the
same calls (`convert_of_taken`). -/

namespace ReactorTrace

variable {σ : Type}

/-! ### Outputs that keep a log -/

namespace Output

/-- Calls with what came of them, in order. -/
abbrev CallLog := List (OutputCall × Except Fault Unit)

/-- The same output with a log of its calls. -/
def logged (out : Output σ) : Output (σ × CallLog) where
  title s :=
    let answer := out.title s.1
    (answer.1, answer.2, s.2 ++ [(.title, answer.1)])
  row r s :=
    let answer := out.row r s.1
    (answer.1, answer.2, s.2 ++ [(.row r, answer.1)])
  flush s :=
    let answer := out.flush s.1
    (answer.1, answer.2, s.2 ++ [(.flush, answer.1)])

theorem title_logged {out : Output σ} {s s' : σ} {answer : Except Fault Unit}
    (h : out.title s = (answer, s')) (log : CallLog) :
    out.logged.title (s, log) = (answer, s', log ++ [(.title, answer)]) := by
  simp [logged, h]

theorem matches_logged (out : Output σ) : out.Matches out.logged fun s t => t.1 = s where
  title := by
    rintro _ t rfl
    exact ⟨_, _, _, rfl, rfl, rfl⟩
  row := by
    rintro r _ t rfl
    exact ⟨_, _, _, rfl, rfl, rfl⟩
  flush := by
    rintro _ t rfl
    exact ⟨_, _, _, rfl, rfl, rfl⟩

/-- The log of rows holds no fault but the last answer. -/
theorem log_of_writeAll {out : Output σ} {rows : List Row} {t t' : σ × CallLog}
    {answer : Except Fault Unit} (h : out.logged.writeAll rows t = (answer, t')) {call : OutputCall}
    {fault : Fault} (hmem : (call, .error fault) ∈ t'.2) :
    (call, .error fault) ∈ t.2 ∨ answer = .error fault := by
  induction rows generalizing t with
  | nil =>
    obtain rfl : t = t' := congrArg Prod.snd h
    exact .inl hmem
  | cons r rows ih =>
    have hrow : out.logged.row r t = ((out.row r t.1).1, (out.row r t.1).2,
        t.2 ++ [(.row r, (out.row r t.1).1)]) := rfl
    rw [writeAll, hrow] at h
    rcases hr : out.row r t.1 with ⟨other | _, s⟩
    · rw [hr] at h
      obtain ⟨rfl, rfl⟩ := Prod.mk.inj h
      simp only [List.mem_append, List.mem_singleton, Prod.mk.injEq] at hmem
      exact hmem.imp_right fun hlast => hlast.2.symm
    · rw [hr] at h
      have hin := ih h
      simp only [List.mem_append, List.mem_singleton, Prod.mk.injEq, reduceCtorEq, and_false,
        or_false] at hin
      exact hin

/-- The same output, but its flush reports nothing. -/
def withoutFlush (out : Output σ) : Output σ := { out with flush := fun s => (.ok (), s) }

end Output

/-! The flush has no part in decoding. -/

theorem Decoder.writeRows_withoutFlush (d : Decoder) (out : Output σ) (index : Nat)
    (raws : List RawRecord) (s : σ) :
    d.writeRows out.withoutFlush index raws s = d.writeRows out index raws s := by
  induction raws generalizing index s with
  | nil => rfl
  | cons raw raws ih => simp only [writeRows, ih]; rfl

theorem Standing.batch_withoutFlush (d : Decoder) (out : Output σ) (v : Standing σ) :
    v.batch d out.withoutFlush = v.batch d out := by
  unfold batch
  simp only [Decoder.writeRows_withoutFlush]

theorem Standing.all_withoutFlush (d : Decoder) (out : Output σ) (v : Standing σ) :
    v.all d out.withoutFlush = v.all d out := by
  fun_induction all d out v with
  | case1 v fault v' h => exact all_of_error ((v.batch_withoutFlush d out).trans h)
  | case2 v v' h => exact all_of_endOfTrace ((v.batch_withoutFlush d out).trans h)
  | case3 v count v' h ih => rw [all_of_decoded ((v.batch_withoutFlush d out).trans h), ih]

/-! ### Conversions -/

/-- A conversion fails with this fault because of a value it reads that is not accepted, or because the
output fails at its column names or at a row; in either case not because of its flush. -/
inductive Refused (config : Config) (out : Output σ) (source : Source) (s : σ) (fault : Fault) : Prop
  | value (h : fault.isRefusal = true)
      (hfails : (convert config out.withoutFlush source s).result = .error fault)
  | call (call : OutputCall) (h : call ≠ .flush)
      (hfails : (call, .error fault) ∈ (convert config out.logged source (s, [])).output.2)

/-- The conversion takes this many bytes and fails, and so it does, with the same calls and the same text
printed, on every stream that begins with these bytes. -/
structure DecidedBy (config : Config) (out : Output σ) (source : Source) (s : σ) (fault : Fault)
    (taken : Nat) : Prop where
  result_eq : (convert config out source s).result = .error fault
  le : taken ≤ source.rest.length
  rest_eq : (convert config out source s).source.rest = source.rest.drop taken
  same : ∀ source' : Source, source.rest.take taken <+: source'.rest →
    (convert config out source' s).result = .error fault ∧
    (convert config out source' s).printed = (convert config out source s).printed ∧
    (convert config out source' s).output = (convert config out source s).output ∧
    (convert config out source' s).source.rest = source'.rest.drop taken

namespace DecidedBy

variable {config : Config} {out : Output σ} {source body : Source} {s : σ} {fault : Fault}
  {header : Header}

/-- A header that is refused. -/
theorem of_read_error (hread : Header.read config.maxObjects source = (.error fault, body))
    (hfault : fault.isRefusal = true) (out : Output σ) (s : σ) :
    ∃ taken, DecidedBy config out source s fault taken := by
  obtain ⟨-, hlocal⟩ := Header.local_read config.maxObjects source
  rw [hread] at hlocal
  rcases hlocal with ⟨short, hshort, hcut⟩ | ⟨taken, hle, hrest, hsame⟩
  · rw [Except.error.inj hcut, Fault.isRefusal_cut hshort] at hfault
    cases hfault
  · have hconvert := convert_of_read_error hread out s
    refine ⟨taken, by rw [hconvert], hle, by rw [hconvert]; exact hrest, fun source' h => ?_⟩
    obtain ⟨hresult, hrest'⟩ := hsame source' h
    have hread' : Header.read config.maxObjects source' =
        (.error fault, (Header.read config.maxObjects source').2) := Prod.ext hresult rfl
    rw [hconvert, convert_of_read_error hread' out s]
    exact ⟨rfl, rfl, rfl, hrest'⟩

/-- A header that is read, by its bytes. -/
theorem read_of_prefix (hread : Header.read config.maxObjects source = (.ok header, body)) :
    body.ending = source.ending ∧ ∃ taken ≤ source.rest.length,
      body.rest = source.rest.drop taken ∧
      ∀ source' : Source, source.rest.take taken <+: source'.rest →
        ∃ body', Header.read config.maxObjects source' = (.ok header, body') ∧
          body'.rest = source'.rest.drop taken := by
  obtain ⟨hending, hlocal⟩ := Header.local_read config.maxObjects source
  rw [hread] at hending hlocal
  rcases hlocal with ⟨short, hshort, hcut⟩ | ⟨taken, hle, hrest, hsame⟩
  · cases hcut
  · refine ⟨hending, taken, hle, hrest, fun source' h => ?_⟩
    obtain ⟨hresult, hrest'⟩ := hsame source' h
    have hread' : Header.read config.maxObjects source' =
        (.ok header, (Header.read config.maxObjects source').2) := Prod.ext hresult rfl
    exact ⟨_, hread', hrest'⟩

/-- Column names that fail. -/
theorem of_title_error (hread : Header.read config.maxObjects source = (.ok header, body)) {s' : σ}
    (htitle : out.title s = (.error fault, s')) :
    ∃ taken, DecidedBy config out source s fault taken := by
  obtain ⟨-, taken, hle, hrest, hsame⟩ := read_of_prefix hread
  have hconvert := convert_of_title_error hread htitle
  refine ⟨taken, by rw [hconvert], hle, by rw [hconvert]; exact hrest, fun source' h => ?_⟩
  obtain ⟨body', hread', hrest'⟩ := hsame source' h
  rw [hconvert, convert_of_title_error hread' htitle]
  exact ⟨rfl, rfl, rfl, hrest'⟩

/-- A body whose decoding fails, unless it is cut short. -/
theorem of_body_error (hread : Header.read config.maxObjects source = (.ok header, body)) {s' : σ}
    (htitle : out.title s = (.ok (), s'))
    (hall : (Standing.all (config.decoder header) out ⟨body.rest, body.ending, ⟨0, 0⟩, s'⟩).1 =
      .error fault)
    (hcut : ∀ short : Fault, short.isShort = true → fault = source.ending.cut short →
      ¬ out.Writes s' (Standing.all (config.decoder header) out
        ⟨body.rest, body.ending, ⟨0, 0⟩, s'⟩).2.output) :
    ∃ taken, DecidedBy config out source s fault taken := by
  obtain ⟨hending, first, hle, hrest, hsame⟩ := read_of_prefix hread
  obtain ⟨hresult, hprinted, hleft, houtput⟩ := convert_of_title_ok hread htitle
  rw [hall] at hresult
  cases Standing.course_all (config.decoder header) out ⟨body.rest, body.ending, ⟨0, 0⟩, s'⟩ with
  | ended totals hok => cases hok.symm.trans hall
  | cut short hshort herror hwrites =>
    refine absurd hwrites (hcut short hshort ?_)
    rw [← hending]
    exact Except.error.inj (hall.symm.trans herror)
  | decided more hmore hbody hsame' =>
    dsimp only at hmore hbody
    rw [hrest, List.length_drop] at hmore
    refine ⟨first + more, hresult, by omega, ?_, fun source' h => ?_⟩
    · rw [hleft, hbody, hrest, List.drop_drop]
    · obtain ⟨hfirst, hsecond⟩ := prefix_of_take_add hle h
      obtain ⟨body', hread', hrest'⟩ := hsame source' hfirst
      rw [← hrest, ← hrest'] at hsecond
      obtain ⟨hall', houtput', hbody'⟩ :=
        hsame' ⟨body'.rest, body'.ending, ⟨0, 0⟩, s'⟩ ⟨hsecond, rfl, rfl⟩
      obtain ⟨hresult', hprinted', hleft', houtput''⟩ := convert_of_title_ok hread' htitle
      rw [hall', hall] at hresult'
      refine ⟨hresult', hprinted'.trans hprinted.symm, ?_, ?_⟩
      · rw [houtput'', houtput, houtput']
      · rw [hleft', hbody', hrest', List.drop_drop]

/-- What is decided for the logged output is decided for the output itself. -/
theorem of_logged {taken : Nat} (h : DecidedBy config out.logged source (s, []) fault taken) :
    DecidedBy config out source s fault taken := by
  have hmatch (source : Source) := convert_matches out.matches_logged config source
    (rfl : (s, ([] : Output.CallLog)).1 = s)
  obtain ⟨hresult, hprinted, hrest, houtput⟩ := hmatch source
  refine ⟨hresult.trans h.result_eq, h.le, hrest.trans h.rest_eq, fun source' hsource' => ?_⟩
  obtain ⟨hresult', hprinted', hrest', houtput'⟩ := hmatch source'
  obtain ⟨hfails, hsame, hcalls, hleft⟩ := h.same source' hsource'
  exact ⟨hresult'.trans hfails, hprinted'.trans (hsame.trans hprinted.symm),
    houtput'.symm.trans ((congrArg Prod.fst hcalls).trans houtput), hrest'.trans hleft⟩

end DecidedBy

namespace Refused

variable {config : Config} {out : Output σ} {source body : Source} {s s' : σ} {fault other : Fault}
  {header : Header}

/-- A conversion that fails with such a fault is refused, if the fault is not one of the flush. -/
theorem of_result (hrefusal : fault.isRefusal = true) (hflush : ∀ s, (out.flush s).1 ≠ .error fault)
    (h : (convert config out source s).result = .error fault) : Refused config out source s fault := by
  refine .value hrefusal ?_
  rcases hread : Header.read config.maxObjects source with ⟨other | header, body⟩
  · rw [convert_of_read_error hread] at h ⊢
    exact h
  rcases ht : out.title s with ⟨other | _, s'⟩
  · have htitle : out.withoutFlush.title s = (.error other, s') := ht
    rw [convert_of_title_error hread ht] at h
    rw [convert_of_title_error hread htitle]
    exact h
  · have htitle : out.withoutFlush.title s = (.ok (), s') := ht
    rw [(convert_of_title_ok hread ht).1] at h
    rw [(convert_of_title_ok hread htitle).1, Standing.all_withoutFlush]
    rcases hall : Standing.all (config.decoder header) out
        ⟨body.rest, body.ending, ⟨0, 0⟩, s'⟩ with ⟨other | totals, v⟩
    · rw [hall] at h
      exact h
    · -- the body is decoded to its end, so that the fault would be one of the flush
      rw [hall] at h
      exfalso
      rcases hflushed : out.flush v.output with ⟨other | _, t⟩
      · rw [hflushed] at h
        obtain rfl := Except.error.inj h
        exact hflush v.output (congrArg Prod.fst hflushed)
      · rw [hflushed] at h
        cases h

theorem of_read_error (h : Refused config out source s fault)
    (hread : Header.read config.maxObjects source = (.error other, body)) :
    fault = other ∧ fault.isRefusal = true := by
  cases h with
  | value hrefusal hfails =>
    rw [convert_of_read_error hread] at hfails
    exact ⟨(Except.error.inj hfails).symm, hrefusal⟩
  | call call hcall hfails =>
    rw [convert_of_read_error hread] at hfails
    cases hfails

theorem of_title_error (h : Refused config out source s fault)
    (hread : Header.read config.maxObjects source = (.ok header, body))
    (htitle : out.title s = (.error other, s')) : fault = other := by
  cases h with
  | value hrefusal hfails =>
    have htitle' : out.withoutFlush.title s = (.error other, s') := htitle
    rw [convert_of_title_error hread htitle'] at hfails
    exact (Except.error.inj hfails).symm
  | call call hcall hfails =>
    rw [convert_of_title_error hread (Output.title_logged htitle [])] at hfails
    simp only [List.nil_append, List.mem_singleton, Prod.mk.injEq, Except.error.injEq] at hfails
    exact hfails.2

/-- Behind the column names the decoding of the body fails with the fault; if the body is cut short, that
is not the fault. -/
theorem of_title_ok (h : Refused config out source s fault)
    (hread : Header.read config.maxObjects source = (.ok header, body))
    (htitle : out.title s = (.ok (), s')) :
    let start : Standing (σ × Output.CallLog) :=
      ⟨body.rest, body.ending, ⟨0, 0⟩, s', [(.title, .ok ())]⟩
    let all := start.all (config.decoder header) out.logged
    all.1 = .error fault ∧
      ∀ short : Fault, short.isShort = true → fault = source.ending.cut short →
        ¬ out.logged.Writes start.output all.2.output := by
  intro start all
  cases h with
  | value hrefusal hfails =>
    refine ⟨?_, fun short hshort hcut => ?_⟩
    · have htitle' : out.withoutFlush.title s = (.ok (), s') := htitle
      have hstart : Standing.Alongside ⟨0, 0⟩ (fun s t => t.1 = s)
          (⟨body.rest, body.ending, ⟨0, 0⟩, s'⟩ : Standing σ) start := ⟨rfl, rfl, rfl, rfl⟩
      have halong : _ = all.1.map _ := (hstart.all out.matches_logged (config.decoder header)).1
      rw [(convert_of_title_ok hread htitle').1, Standing.all_withoutFlush, halong] at hfails
      cases hall : all.1 with
      | error other =>
        rw [hall] at hfails
        exact congrArg Except.error (Except.error.inj hfails)
      | ok totals =>
        rw [hall] at hfails
        cases hfails
    · rw [hcut, Fault.isRefusal_cut hshort] at hrefusal
      cases hrefusal
  | call call hcall hfails =>
    rw [(convert_of_title_ok hread (Output.title_logged htitle [])).2.2.2] at hfails
    have hlog : (call, .error fault) ∈ all.2.output.2 := (List.mem_append.1 hfails).resolve_right
      fun hflush => hcall (congrArg Prod.fst (List.mem_singleton.1 hflush))
    have hnone : (call, Except.error fault) ∉ start.output.2 := by simp [start]
    constructor
    · obtain ⟨rows, answer, hrows, hlast⟩ := Standing.writesUpTo_all (config.decoder header) out.logged start
      exact hlast fault ((Output.log_of_writeAll hrows hlog).resolve_left hnone)
    · rintro - - - ⟨rows, hrows⟩
      cases (Output.log_of_writeAll hrows hlog).resolve_left hnone

end Refused

/-- What is refused is decided by the bytes that the conversion takes. -/
theorem convert_of_taken {config : Config} {out : Output σ} {source : Source} {s : σ} {fault : Fault}
    (h : Refused config out source s fault) :
    ∃ taken, DecidedBy config out source s fault taken ∧
      DecidedBy config out.logged source (s, []) fault taken := by
  suffices hlogged : ∃ taken, DecidedBy config out.logged source (s, []) fault taken by
    obtain ⟨taken, htaken⟩ := hlogged
    exact ⟨taken, htaken.of_logged, htaken⟩
  rcases hread : Header.read config.maxObjects source with ⟨other | header, body⟩
  · obtain ⟨rfl, hrefusal⟩ := h.of_read_error hread
    exact DecidedBy.of_read_error hread hrefusal ..
  rcases htitle : out.title s with ⟨other | _, s'⟩
  · obtain rfl := h.of_title_error hread htitle
    exact DecidedBy.of_title_error hread (Output.title_logged htitle [])
  · obtain ⟨hall, hcut⟩ := h.of_title_ok hread htitle
    exact DecidedBy.of_body_error hread (Output.title_logged htitle []) hall hcut

/-- A negative batch length behind a header of twelve bytes: it is refused in the same way whether a byte
comes behind it or the stream fails there. -/
theorem convert_of_taken_negative_length :
    let length : List UInt8 := [255, 255, 255, 255]
    let out := Recording.output .none
    let source : Source := .plain (List.replicate 12 0 ++ length ++ [7])
    let failing : Source := .ofBytes (List.replicate 12 0 ++ length) (.failure .isDirectory) .prompt
    Refused .standard out source .empty (.negativeBatchLength (-1)) ∧
      (convert .standard out failing .empty).result = .error (.negativeBatchLength (-1)) ∧
      (convert .standard out failing .empty).source.rest = [] := by
  intro length out source failing
  have hcount : ([] : List StoredEntry).length ≤ Config.standard.maxObjects := by decide
  obtain ⟨hread, hrest, hending⟩ :=
    (Header.reads_header ⟨0, [], by decide⟩ hcount).whole source (length ++ [7]) rfl
  have hheader : Header.read Config.standard.maxObjects source =
    (.ok _, (Header.read Config.standard.maxObjects source).2) := Prod.ext hread rfl
  have hbatch (d : Decoder) (s : Recording) :
      Standing.batch d out ⟨length ++ [7], source.ending, ⟨0, 0⟩, s⟩ =
        (.error (.negativeBatchLength (-1)), ⟨[7], source.ending, ⟨0, 0⟩, s⟩) := rfl
  obtain ⟨hresult, -, hleft, -⟩ := convert_of_title_ok hheader (Recording.neverFails.title_eq .empty)
  rw [hrest, hending, Standing.all_of_error (hbatch _ _)] at hresult hleft
  have hrefused : Refused .standard out source .empty (.negativeBatchLength (-1)) :=
    .of_result rfl (fun s h => by cases (Recording.neverFails.flush s).symm.trans h) hresult
  obtain ⟨taken, htaken, -⟩ := convert_of_taken hrefused
  obtain rfl : taken = 16 := by
    have hlen := congrArg List.length (htaken.rest_eq.symm.trans hleft)
    have hle := htaken.le
    rw [List.length_drop] at hlen
    simp only [source, length, Source.plain, Source.ofBytes, List.length_append,
      List.length_replicate, List.length_cons, List.length_nil] at hlen hle
    omega
  obtain ⟨hfails, -, -, hend⟩ := htaken.same failing (List.prefix_refl _)
  exact ⟨hrefused, hfails, hend⟩

end ReactorTrace
