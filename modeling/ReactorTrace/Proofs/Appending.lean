import ReactorTrace.Proofs.Outputs
import ReactorTrace.Proofs.Truncation

/-! Bytes behind an accepted trace. Conversion of the trace and of what is put behind it does what
conversion of the trace does and then, before the flush, what a new decoder with the header of the trace
does with the bytes behind it, be they well formed or not (`convert_append`). Nothing that follows a batch
has a part in how the batch is decoded, and nothing before it but the header has. -/

namespace ReactorTrace

variable {σ : Type}

namespace Standing

/-- Decoding takes some bytes off the front. -/
theorem exists_taken_all (d : Decoder) (out : Output σ) (v : Standing σ) :
    ∃ taken ≤ v.rest.length, (v.all d out).2.rest = v.rest.drop taken := by
  fun_induction all d out v with
  | case1 v fault v' hbatch =>
    have hrest := rest_batch d out v
    rw [hbatch] at hrest
    exact ⟨_, Decoder.front_le .., hrest⟩
  | case2 v v' hbatch =>
    have hrest := rest_batch d out v
    rw [hbatch] at hrest
    exact ⟨_, Decoder.front_le .., hrest⟩
  | case3 v count v' hbatch ih =>
    have hrest := rest_batch d out v
    rw [hbatch] at hrest
    have hle := Decoder.front_le d.capacity v.ending v.rest
    obtain ⟨taken, htaken, hall⟩ := ih
    dsimp only at hrest
    rw [hrest, List.length_drop] at htaken
    rw [hrest, List.drop_drop] at hall
    exact ⟨_, by omega, hall⟩

/-- Decoding behind some batches, against the decoding of the same bytes from the beginning. -/
theorem all_behind_batches {out : Output σ} (hout : out.NeverFails) (d : Decoder) (rest : List UInt8)
    (ending : Ending) (base : Totals) (s : σ) :
    let behind := all d out ⟨rest, ending, base, s⟩
    let alone := all d (Recording.output .none) ⟨rest, ending, ⟨0, 0⟩, .empty⟩
    behind.1 = alone.1.map base.add ∧ behind.2.rest = alone.2.rest ∧
      ∃ rows : List Row, alone.2.output.calls = (rows.map .row).toArray ∧
        behind.2.output = out.calls (rows.map .row) s := by
  intro behind alone
  have hstart : Alongside base (fun t (record : Recording) => t = out.calls record.calls.toList s)
      ⟨rest, ending, base, s⟩ ⟨rest, ending, ⟨0, 0⟩, .empty⟩ := ⟨rfl, rfl, rfl, rfl⟩
  obtain ⟨hresult, hbehind⟩ := hstart.all (hout.matches_recording s) d
  obtain ⟨rows, hrows, -⟩ := all_with_faults d .none ⟨rest, ending, ⟨0, 0⟩, .empty⟩
  have hcalls : alone.2.output.calls = (rows.map .row).toArray := by
    rw [hrows, Recording.calls_output]
    exact Array.empty_append
  refine ⟨hresult, hbehind.rest_eq, rows, hcalls, ?_⟩
  rw [hbehind.related, hcalls]

end Standing

/-- Conversion of an accepted trace with any bytes behind it, against the decoding of these bytes by
themselves. The rows are those of the trace and then those of the decoding, the bytes taken are all of the
trace and those that the decoding takes, and the result is the fault of the decoding or the sum of both
totals. -/
theorem convert_append {config : Config} {out : Output σ} (hout : out.NeverFails)
    {front : List UInt8} {delivery : Delivery} {s : σ} {summary : Summary}
    (h : (convert config out (.ofBytes front .endOfFile delivery) s).result = .ok summary)
    (tail : List UInt8) (ending : Ending) (delivery' delivery'' : Delivery) :
    let whole := Source.ofBytes front .endOfFile delivery
    ∃ header body, Header.read config.maxObjects whole = (.ok header, body) ∧
      let decoded := (config.decoder header).all (Recording.output .none)
        (.start (.ofBytes tail ending delivery') .empty)
      let outcome := convert config out (.ofBytes (front ++ tail) ending delivery'') s
      outcome.result = (match decoded.1 with
        | .error fault => .error fault
        | .ok totals => .ok ⟨summary.startTime, summary.objects, summary.batches + totals.batches,
            summary.records + totals.records⟩) ∧
      (∃ rows more : List Row, config.calls whole = .title :: (rows.map .row ++ [.flush]) ∧
        decoded.2.output.calls = (more.map .row).toArray ∧
        outcome.output = out.calls (.title :: ((rows ++ more).map .row ++ [.flush])) s) ∧
      ∃ taken ≤ tail.length, decoded.2.source.rest = tail.drop taken ∧
        outcome.source.rest = (front ++ tail).drop (front.length + taken) := by
  intro whole
  obtain ⟨t, ht, hfront⟩ := exists_of_convert_eq_ok hout h
  obtain rfl : front = t.bytes := hfront
  obtain rfl : summary = _ := Except.ok.inj (h.symm.trans (convert_stored hout ht delivery s).1)
  obtain ⟨hread, -, -⟩ := (Header.reads_header t.header ht.objects_le).whole whole _ rfl
  obtain ⟨-, -, hcalls⟩ := convert_stored Recording.neverFails ht delivery .empty
  refine ⟨t.header.header, _, Prod.ext hread rfl, ?_⟩
  intro decoded outcome
  have hsource : (Source.ofBytes (t.bytes ++ tail) ending delivery'').rest = t.bytes ++ tail := rfl
  have hending : (Source.ofBytes (t.bytes ++ tail) ending delivery'').ending = ending := rfl
  obtain ⟨hresult, hrest, houtput⟩ := convert_behind hout ht hsource s
  rw [hending] at hresult hrest houtput
  have hdecoded : Standing.all (t.decoder config) (Recording.output .none)
      ⟨tail, ending, ⟨0, 0⟩, .empty⟩ = (decoded.1, decoded.2.standing) :=
    (t.decoder config).all_standing (Recording.output .none)
      (.start (.ofBytes tail ending delivery') .empty)
  obtain ⟨hall, hleft, more, hmore, hwritten⟩ := Standing.all_behind_batches hout (t.decoder config)
    tail ending ⟨t.batches.length, t.records.length⟩
    (out.calls (.title :: (t.rows config).map .row) s)
  obtain ⟨taken, htaken, htail⟩ := Standing.exists_taken_all (t.decoder config)
    (Recording.output .none) ⟨tail, ending, ⟨0, 0⟩, .empty⟩
  rw [hdecoded] at hall hleft hmore htail
  refine ⟨hresult.trans ?_, ⟨t.rows config, more, Config.calls_eq hcalls, hmore, houtput.trans ?_⟩,
    taken, htaken, htail, hrest.trans ?_⟩
  · rw [hall]
    cases decoded.1 <;> rfl
  · rw [hwritten, ← Output.calls_append, Output.call_calls, List.cons_append, ← List.map_append,
      List.cons_append]
  · rw [hleft, List.drop_length_add_append]
    exact htail

/-- Behind a trace of one batch comes another batch, and then a negative length. -/
theorem convert_append_negative_length :
    let e : StoredEntry := ⟨⟨80⟩, [82, 49], 0, by simp, by decide, .inl rfl⟩
    let first : StoredBatch := ⟨[.ofRaw ⟨1, ⟨80⟩, 2, 3, 1500, 4, 2000⟩], by decide⟩
    let second : StoredBatch := ⟨[.ofRaw ⟨2, ⟨96⟩, -1, 0, 1600, 0, 900⟩], by decide⟩
    let front := StoredTrace.bytes ⟨⟨1000, [e], by decide⟩, [first]⟩
    let tail := second.bytes ++ [255, 255, 255, 255, 7]
    let outcome := fun bytes => convert .standard (Recording.output .none)
      (.ofBytes bytes .endOfFile .prompt) .empty
    (Recording.output .none).NeverFails ∧ (outcome front).result = .ok ⟨1000, 1, 1, 1⟩ ∧
      (outcome (front ++ tail)).result = .error (.negativeBatchLength (-1)) ∧
      (outcome (front ++ tail)).output.calls = #[.title,
        .row ⟨"Reaction ends", "R1", some 2, 3, 500, 4, 1000⟩,
        .row ⟨"Schedule called", "NO DESCRIPTION FOUND", none, 0, 600, 0, -100⟩, .flush] ∧
      (outcome (front ++ tail)).source.rest = [7] := by
  intro e first second front tail outcome
  let t : StoredTrace := ⟨⟨1000, [e], by decide⟩, [first]⟩
  let d := t.decoder .standard
  have ht : t.Accepted .standard := ⟨by decide, by decide, by decide⟩
  obtain ⟨hconvert, -, hwritten⟩ := convert_stored Recording.neverFails ht .prompt .empty
  obtain ⟨hread, -, -⟩ := (Header.reads_header t.header ht.objects_le).whole (.plain t.bytes) _ rfl
  obtain ⟨header, body, hheader, hresult, ⟨rows, more, hrows, hmore, houtput⟩, taken, -, hleft, hrest⟩ :=
    convert_append Recording.neverFails hconvert tail .endOfFile .prompt .prompt
  obtain rfl : t.header.header = header := Except.ok.inj (hread.symm.trans (congrArg Prod.fst hheader))
  -- the bytes behind the trace, decoded by themselves
  have hsecond : ∀ b ∈ [second], d.Accepts b := by
    intro b hb
    obtain rfl := List.mem_singleton.1 hb
    exact ⟨by decide, by decide⟩
  let behind : Standing Recording := Standing.behind d (Recording.output .none) [second]
    [255, 255, 255, 255, 7] ⟨tail, .endOfFile, ⟨0, 0⟩, .empty⟩
  have hbatch : behind.batch d (Recording.output .none) =
      (.error (.negativeBatchLength (-1)), { behind with rest := [7] }) := rfl
  obtain ⟨hfault, hstanding⟩ := Prod.mk.inj ((d.all_standing (Recording.output .none)
    (.start (.ofBytes tail .endOfFile .prompt) .empty)).symm.trans
    ((Standing.all_behind Recording.neverFails hsecond rfl).trans (Standing.all_of_error hbatch)))
  rw [show Config.standard.decoder t.header.header = d from rfl] at hresult hmore hleft
  have hdropped : tail.drop taken = [7] := hleft.symm.trans (congrArg Standing.rest hstanding)
  rw [hfault] at hresult
  rw [← List.drop_drop, List.drop_left] at hrest
  refine ⟨Recording.neverFails, hconvert, hresult, ?_, hrest.trans hdropped⟩
  have hentry : e.entry = ⟨⟨80⟩, "R1"⟩ := StoredEntry.entry_eq rfl
  have hfirst : t.rows .standard = [⟨"Reaction ends", "R1", some 2, 3, 500, 4, 1000⟩] := by
    rw [t.rows_eq, show t.header.entries.map StoredEntry.entry = [e.entry] from rfl, hentry]
    decide
  have hbehind : StoredTrace.rows ⟨t.header, [second]⟩ .standard =
      [⟨"Schedule called", "NO DESCRIPTION FOUND", none, 0, 600, 0, -100⟩] := by
    rw [StoredTrace.rows_eq, show t.header.entries.map StoredEntry.entry = [e.entry] from rfl, hentry]
    decide
  have hone : rows.map OutputCall.row = (t.rows .standard).map .row := by
    simpa using hrows.symm.trans (Config.calls_eq hwritten)
  have hother : more.map OutputCall.row = (StoredTrace.rows ⟨t.header, [second]⟩ .standard).map .row := by
    have hcalled : (more.map OutputCall.row).toArray = behind.output.calls :=
      hmore.symm.trans (congrArg (fun v => v.output.calls) hstanding)
    have hlogged : behind.output = (Recording.output .none).calls
        ((StoredTrace.rows ⟨t.header, [second]⟩ .standard).map .row) .empty := rfl
    rw [hlogged, Recording.calls_output] at hcalled
    simpa [Recording.empty] using hcalled
  rw [List.map_append, hone, hother, hfirst, hbehind] at houtput
  exact congrArg Recording.calls houtput

end ReactorTrace
