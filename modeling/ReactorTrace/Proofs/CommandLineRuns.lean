import ReactorTrace.Proofs.TableFiles
import ReactorTrace.Proofs.Utf8

/-! Runs of the command line. A run with other than one root only shows the usage, and one whose table of
event names cannot be loaded only reports that; neither touches a file. Any other run is one conversion:
the files are left as the conversion leaves them, and the exit code, the printed text, the usage and the
message tell what came of it (`run_faithful`). -/

namespace ReactorTrace

theorem FaultKind.exitCode_mem (kind : FaultKind) : kind.exitCode ∈ [1, 3, 4, 5, 6] := by
  cases kind <;> decide

/-- The dump of a header is printed once the header is read, whatever follows. -/
theorem convert_printed {σ : Type} (config : Config) (out : Output σ) (source : Source) (s : σ) :
    (convert config out source s).printed = match (Header.read config.maxObjects source).1 with
      | .error _ => ""
      | .ok header => if config.dump then header.dump else "" := by
  rcases hread : Header.read config.maxObjects source with ⟨fault | header, body⟩
  · rw [convert_of_read_error hread]
  · rcases htitle : out.title s with ⟨fault | _, s'⟩
    · rw [convert_of_title_error hread htitle]
    · exact (convert_of_title_ok hread htitle).2.1

theorem Header.dump_ne_empty (header : Header) : header.dump ≠ "" := by
  have hstart : ∃ more : String, header.dump = "Start time is " ++ more := by
    unfold dump
    simp only [String.append_assoc]
    exact ⟨_, rfl⟩
  obtain ⟨more, hmore⟩ := hstart
  rw [hmore]
  simp

/-- The dump of a stored header. -/
theorem StoredHeader.dump_header (h : StoredHeader) : h.header.dump =
    "Start time is " ++ h.startTime.toInt.repr ++ ".\n" ++
      "There are " ++ h.entries.length.repr ++ " objects traced.\n" ++
      (SymbolTable.dumpTitle ++ String.join ((h.entries.map StoredEntry.entry).map SymbolEntry.line) ++
        SymbolTable.dumpEnd) ++ "\n" := by
  unfold Header.dump
  rw [h.size_symbols, SymbolTable.dump, header, SymbolTable.toList_ofList]

namespace FileTree

/-- The text of the file that a path leads to, or what is in the way of reading it. -/
def text (tree : FileTree) (path : String) : Except IoFault String :=
  match tree.locateInput path with
  | .error cause => .error cause
  | .ok location =>
    match tree.entry? location with
    | some (.file bytes) =>
      match Text.Utf8.decode? bytes with
      | some text => .ok text
      | none => .error .notUtf8
    | _ => .error .isDirectory

/-- The table of event names in the file that a path leads to. -/
def eventNames? (tree : FileTree) (path : String) : Option EventNames :=
  match tree.text path with
  | .ok text => (EventNames.parse text).toOption
  | .error _ => none

theorem eventNames?_of_text {tree : FileTree} {path text : String} (h : tree.text path = .ok text) :
    tree.eventNames? path = (EventNames.parse text).toOption := by
  rw [eventNames?, h]

/-- Why there is no table of event names at a path: its file cannot be read as a text, or the text is not
that of a table. -/
inductive Unloadable (tree : FileTree) (reports : String → EventNames.JsonReport) (path : String) :
    String → Prop
  | unread {cause : IoFault} (htext : tree.text path = .error cause) :
    Unloadable tree reports path cause.message
  | refused {text : String} {defect : EventNames.Defect} (htext : tree.text path = .ok text)
      (hparse : EventNames.parse text = .error defect) :
    Unloadable tree reports path (defect.message (reports text))

namespace Unloadable

variable {tree : FileTree} {reports : String → EventNames.JsonReport} {path reason : String}

theorem eq_of_unread (h : tree.Unloadable reports path reason) {cause : IoFault}
    (htext : tree.text path = .error cause) : reason = cause.message := by
  cases h with
  | unread htext' => rw [Except.error.inj (htext.symm.trans htext')]
  | refused htext' => cases htext.symm.trans htext'

theorem eq_of_refused (h : tree.Unloadable reports path reason) {text : String}
    {defect : EventNames.Defect} (htext : tree.text path = .ok text)
    (hparse : EventNames.parse text = .error defect) : reason = defect.message (reports text) := by
  cases h with
  | unread htext' => cases htext.symm.trans htext'
  | refused htext' hparse' =>
    obtain rfl := Except.ok.inj (htext.symm.trans htext')
    rw [Except.error.inj (hparse.symm.trans hparse')]

end Unloadable

/-- The header that a conversion between these files reads: the one in the trace, once the table is
made. -/
def header? (tree : FileTree) (paths : TracePaths) (limit : Nat) : Option Header :=
  match tree.locateInput paths.trace, tree.locateOutput paths.csv with
  | .ok opened, .ok created =>
    (Header.read limit ((tree.put created (.file [])).source opened)).1.toOption
  | _, _ => none

theorem header?_of_stored {tree : FileTree} {paths : TracePaths} {limit : Nat} {t : StoredTrace}
    {opened created : Location} (hlimit : t.header.entries.length ≤ limit) (hne : opened ≠ created)
    (htrace : tree.locateInput paths.trace = .ok opened)
    (hbytes : tree.entry? opened = some (.file t.bytes))
    (hcsv : tree.locateOutput paths.csv = .ok created) :
    tree.header? paths limit = some t.header.header := by
  have hsource : tree.source opened = .plain t.bytes := by rw [FileTree.source, hbytes]
  obtain ⟨hread, -, -⟩ := (Header.reads_header t.header hlimit).whole (.plain t.bytes) _ rfl
  rw [header?, htrace, hcsv]
  dsimp only
  rw [source_put_of_ne hne, hsource, hread]
  rfl

theorem text_of_encode {tree : FileTree} {path : String} {location : Location} {text : String}
    (hin : tree.locateInput path = .ok location)
    (hentry : tree.entry? location = some (.file (Text.Utf8.encode text))) : tree.text path = .ok text := by
  rw [FileTree.text, hin]
  dsimp only
  rw [hentry]
  dsimp only
  rw [Text.Utf8.decode?_encode]

theorem readText_eq (tree : FileTree) (path : String) :
    readText FileTree.access path tree = (tree.text path, tree) := by
  unfold readText text
  dsimp only [bind, StateT.bind, FileTree.access]
  cases hin : tree.locateInput path with
  | error cause => rfl
  | ok location =>
    obtain ⟨entry, hentry⟩ := exists_entry_of_locateInput hin
    dsimp only [bind, StateT.bind, FileTree.source]
    rw [hentry]
    cases entry with
    | directory => rfl
    | file bytes =>
      dsimp only [Source.plain, Source.ofBytes]
      cases Text.Utf8.decode? bytes <;> rfl

variable {reports : String → EventNames.JsonReport}

theorem loadEventNames_eq (tree : FileTree) (path : String) :
    (∃ table, tree.eventNames? path = some table ∧
      loadEventNames FileTree.access reports path tree = (.ok table, tree)) ∨
    (tree.eventNames? path = none ∧ ∃ reason, tree.Unloadable reports path reason ∧
      loadEventNames FileTree.access reports path tree = (.error (.eventNames path reason), tree)) := by
  unfold loadEventNames eventNames?
  dsimp only [bind, StateT.bind]
  rw [readText_eq]
  cases htext : tree.text path with
  | error cause => exact .inr ⟨rfl, _, .unread htext, rfl⟩
  | ok text =>
    dsimp only
    cases hparse : EventNames.parse text with
    | error defect => exact .inr ⟨rfl, _, .refused htext hparse, rfl⟩
    | ok table => exact .inl ⟨table, rfl, rfl⟩

theorem printed_convertFiles (tree : FileTree) (paths : TracePaths) (config : Config) :
    (convertFiles FileTree.access paths config tree).1.printed =
      match tree.header? paths config.maxObjects with
      | none => ""
      | some header => if config.dump then header.dump else "" := by
  unfold header?
  cases hin : tree.locateInput paths.trace with
  | error cause => rw [convertFiles_of_noTrace hin]
  | ok opened =>
    cases hout : tree.locateOutput paths.csv with
    | error cause => rw [convertFiles_of_noOutput hin hout]
    | ok created =>
      rw [convertFiles_of_located hin hout]
      dsimp only
      rw [convert_printed]
      cases (Header.read config.maxObjects _).1 <;> rfl

end FileTree

namespace CommandLine

/-- The table of event names that a run uses, if it can be loaded. -/
def Options.eventNames? (options : Options) (tree : FileTree) : Option EventNames :=
  match options.eventNames with
  | .none => some .standard
  | some path => tree.eventNames? path

/-- What is reported of a conversion, given the header that was read. -/
structure Tells (options : Options) (paths : TracePaths) (read : Option Header) (outcome : FileOutcome)
    (report : Report) : Prop where
  exitCode_zero : report.exitCode = 0 ↔ ∃ summary, outcome.result = .ok summary
  exitCode_fault : ∀ fault, outcome.result = .error fault →
    report.exitCode = fault.exitCode ∧ report.exitCode ∈ [1, 3, 4, 5, 6]
  printed_read : ∀ header, read = some header → options.quiet = false → report.printed = header.dump
  printed_iff : report.printed ≠ "" ↔ (∃ header, read = some header) ∧ options.quiet = false
  usage_iff : report.usage = true ↔
    ∃ fault, outcome.result = .error fault ∧ (fault.kind = .input ∨ fault.kind = .output)
  message_ok : ∀ summary, outcome.result = .ok summary → report.message = none
  message_fault : ∀ fault, outcome.result = .error fault → report.message =
    some ("ERROR: Failed to convert " ++ paths.trace ++ ": " ++ fault.fullMessage)

/-- The text printed once this header is read. -/
def Options.shown (options : Options) : Option Header → String
  | .none => ""
  | .some header => if !options.quiet then header.dump else ""

theorem tells_ofOutcome {options : Options} {paths : TracePaths} {read : Option Header}
    {outcome : FileOutcome} (hprinted : outcome.printed = options.shown read) :
    Tells options paths read outcome (.ofOutcome paths outcome) := by
  obtain ⟨result, printed⟩ := outcome
  dsimp only at hprinted
  have hread : ∀ header, read = some header → options.quiet = false → printed = header.dump := by
    rintro header rfl hquiet
    rw [hprinted, Options.shown, hquiet]
    rfl
  have hiff : printed ≠ "" ↔ (∃ header, read = some header) ∧ options.quiet = false := by
    rw [hprinted]
    cases read with
    | none => simp [Options.shown]
    | some header => cases hquiet : options.quiet <;> simp [Options.shown, hquiet, header.dump_ne_empty]
  cases result with
  | ok summary =>
    exact {
      exitCode_zero := ⟨fun _ => ⟨summary, rfl⟩, fun _ => rfl⟩
      exitCode_fault := fun fault h => by cases h
      printed_read := hread
      printed_iff := hiff
      usage_iff := by
        constructor
        · intro h
          cases h
        · rintro ⟨fault, h, -⟩
          cases h
      message_ok := fun _ _ => rfl
      message_fault := fun fault h => by cases h }
  | error fault =>
    have hmem : fault.exitCode ∈ [1, 3, 4, 5, 6] := fault.kind.exitCode_mem
    have hnonzero : fault.exitCode ≠ 0 := fun h => absurd (h ▸ hmem) (by decide)
    exact {
      exitCode_zero := ⟨fun h => absurd h hnonzero, fun ⟨_, h⟩ => by cases h⟩
      exitCode_fault := fun other h => by
        obtain rfl := Except.error.inj h
        exact ⟨rfl, hmem⟩
      printed_read := hread
      printed_iff := hiff
      usage_iff := by
        refine ⟨fun h => ⟨fault, rfl, of_decide_eq_true h⟩, ?_⟩
        rintro ⟨other, h, hkind⟩
        obtain rfl := Except.error.inj h
        exact decide_eq_true hkind
      message_ok := fun summary h => by cases h
      message_fault := fun other h => by
        obtain rfl := Except.error.inj h
        rfl }

namespace Tells

variable {options : Options} {paths : TracePaths} {read : Option Header} {outcome : FileOutcome}
  {report : Report}

theorem printed_eq (h : Tells options paths read outcome report) :
    report.printed = options.shown read := by
  cases read with
  | none =>
    apply Decidable.byContradiction
    intro hprinted
    obtain ⟨⟨header, hheader⟩, -⟩ := h.printed_iff.1 hprinted
    cases hheader
  | some header =>
    cases hquiet : options.quiet with
    | false => rw [h.printed_read header rfl hquiet, Options.shown, hquiet, Bool.not_false, if_pos rfl]
    | true =>
      rw [Options.shown, hquiet]
      apply Decidable.byContradiction
      intro hprinted
      cases hquiet.symm.trans (h.printed_iff.1 hprinted).2

/-- Only one report tells what came of a conversion. -/
theorem eq_ofOutcome (h : Tells options paths read outcome report) :
    report = .ofOutcome paths ⟨outcome.result, options.shown read⟩ := by
  have hreport : report = ⟨report.exitCode, options.shown read, report.usage, report.message⟩ := by
    rw [← h.printed_eq]
  rw [hreport]
  cases hresult : outcome.result with
  | ok summary =>
    have husage : report.usage = false := by
      apply Bool.eq_false_iff.2
      intro husage
      obtain ⟨fault, hfault, -⟩ := h.usage_iff.1 husage
      cases hresult.symm.trans hfault
    rw [h.exitCode_zero.2 ⟨summary, hresult⟩, husage, h.message_ok summary hresult]
    rfl
  | error fault =>
    have husage : report.usage = decide (fault.kind = .input ∨ fault.kind = .output) := by
      apply Bool.eq_iff_iff.2
      rw [h.usage_iff, decide_eq_true_iff]
      constructor
      · rintro ⟨other, hother, hkind⟩
        obtain rfl := Except.error.inj (hresult.symm.trans hother)
        exact hkind
      · exact fun hkind => ⟨fault, hresult, hkind⟩
    rw [(h.exitCode_fault fault hresult).1, husage, h.message_fault fault hresult]
    rfl

/-- A conversion of a trace within the limits is reported as a success, with the dump of its header. -/
theorem eq_of_stored {tree : FileTree} {config : Config} {t : StoredTrace} {opened created : Location}
    (ht : t.Accepted config) (hne : opened ≠ created)
    (htrace : tree.locateInput paths.trace = .ok opened)
    (hbytes : tree.entry? opened = some (.file t.bytes))
    (hcsv : tree.locateOutput paths.csv = .ok created)
    (h : Tells options paths (tree.header? paths config.maxObjects)
      (convertFiles FileTree.access paths config tree).1 report) :
    report = ⟨0, options.shown (some t.header.header), false, none⟩ := by
  have hheader := FileTree.header?_of_stored ht.objects_le hne htrace hbytes hcsv
  obtain ⟨hresult, -⟩ := convertFiles_of_stored ht hne htrace hbytes hcsv
  rw [h.eq_ofOutcome, hheader, hresult]
  rfl

end Tells

section Root

variable {reports : String → EventNames.JsonReport} {options : Options} {tree : FileTree} {table : EventNames}

theorem chooseEventNames_of_some (h : options.eventNames? tree = some table) :
    chooseEventNames FileTree.access reports options tree = (.ok table, tree) := by
  unfold Options.eventNames? at h
  unfold chooseEventNames
  cases hpath : options.eventNames with
  | none =>
    rw [hpath] at h
    rw [Option.some.inj h]
    rfl
  | some path =>
    rw [hpath] at h
    dsimp only at h ⊢
    rcases tree.loadEventNames_eq path with ⟨table', htable', hload⟩ | ⟨hnone, -⟩
    · rw [hload, Option.some.inj (h.symm.trans htable')]
    · cases h.symm.trans hnone

theorem chooseEventNames_of_none {path : String} (hpath : options.eventNames = some path)
    (h : tree.eventNames? path = none) : ∃ reason, tree.Unloadable reports path reason ∧
      chooseEventNames FileTree.access reports options tree =
        (.error (.eventNames path reason), tree) := by
  unfold chooseEventNames
  rw [hpath]
  rcases tree.loadEventNames_eq path with ⟨table, htable, -⟩ | ⟨-, hload⟩
  · cases h.symm.trans htable
  · exact hload

theorem convertRoot_of_error {fault : Fault} (root : String)
    (h : chooseEventNames FileTree.access reports options tree = (.error fault, tree)) :
    convertRoot FileTree.access reports options root tree =
      (.ofFault fault "" fault.fullMessage, tree) := by
  unfold convertRoot
  dsimp only [bind, StateT.bind]
  rw [h]
  rfl

theorem convertRoot_of_ok (root : String)
    (h : chooseEventNames FileTree.access reports options tree = (.ok table, tree)) :
    convertRoot FileTree.access reports options root tree =
      let paths := pathsOf options root
      let converted := convertFiles FileTree.access paths (configOf options table) tree
      (.ofOutcome paths converted.1, converted.2) := by
  unfold convertRoot
  dsimp only [bind, StateT.bind]
  rw [h]
  rfl

theorem pathsOf_eq (options : Options) (root : String) :
    pathsOf options root = ⟨root ++ ".lft", options.output.getD (root ++ ".csv")⟩ := by
  unfold pathsOf
  cases options.output <;> rfl

end Root

section Run

variable {m : Type → Type} [Monad m] (files : FileAccess m) (reports : String → EventNames.JsonReport)
  {args : List String} {options : Options}

theorem run_of_root {root : String} (hparse : parse args = .ok options)
    (hroot : options.roots = [root]) :
    run files reports args = convertRoot files reports options root := by
  simp only [run, hparse, hroot]

theorem run_of_roots (hparse : parse args = .ok options) (hroots : options.roots.length ≠ 1) :
    run files reports args = pure ⟨0, "", true, none⟩ := by
  match hlist : options.roots with
  | [] => simp only [run, hparse, hlist]
  | [root] =>
    rw [hlist] at hroots
    exact absurd rfl hroots
  | root :: root' :: roots => simp only [run, hparse, hlist]

end Run

/-- A run does what its options say, and reports faithfully what came of it, whatever the JSON reader tells
of the texts that it refuses. -/
theorem run_faithful {args : List String} {options : Options} (hparse : parse args = .ok options)
    (reports : String → EventNames.JsonReport) (tree : FileTree) :
    let after := run FileTree.access reports args tree
    (options.roots.length ≠ 1 → after = (⟨0, "", true, none⟩, tree)) ∧
    ∀ root, options.roots = [root] →
      (∀ path, options.eventNames = some path → tree.eventNames? path = none →
        ∃ reason, tree.Unloadable reports path reason ∧ after = (⟨1, "", false,
          some ("ERROR: Invalid event name table " ++ path ++ ": " ++ reason)⟩, tree)) ∧
      ∀ table, options.eventNames? tree = some table →
        let paths : TracePaths := ⟨root ++ ".lft", options.output.getD (root ++ ".csv")⟩
        let config : Config :=
          ⟨options.batchCapacity.getD Decoder.standardCapacity, Header.objectLimit, table, !options.quiet⟩
        let converted := convertFiles FileTree.access paths config tree
        after.2 = converted.2 ∧
          Tells options paths (tree.header? paths Header.objectLimit) converted.1 after.1 := by
  intro after
  refine ⟨fun hroots => ?_, fun root hroot => ⟨fun path hpath hnone => ?_, fun table htable => ?_⟩⟩
  · show run FileTree.access reports args tree = _
    rw [run_of_roots _ reports hparse hroots]
    rfl
  · obtain ⟨reason, hreason, hchoose⟩ := chooseEventNames_of_none hpath hnone
    have hafter : after = _ := congrFun (run_of_root _ reports hparse hroot) tree
    rw [hafter, convertRoot_of_error root hchoose]
    exact ⟨reason, hreason, rfl⟩
  · intro paths config converted
    have hafter : after = _ := congrFun (run_of_root _ reports hparse hroot) tree
    rw [hafter, convertRoot_of_ok root (chooseEventNames_of_some htable), pathsOf_eq]
    exact ⟨rfl, tells_ofOutcome (tree.printed_convertFiles paths config)⟩

/-- A record is converted with a table of event names and to a place that the command line gives. Two other
tables cannot be loaded: one is not there, and one is not JSON. Another trace is missing. -/
theorem run_faithful_own_names :
    let e : StoredEntry := ⟨⟨80⟩, [82, 49], 0, by simp, by decide, .inl rfl⟩
    let b : StoredBatch := ⟨[.ofRaw ⟨0, ⟨80⟩, 2, 3, 1500, 4, 2000⟩], by decide⟩
    let t : StoredTrace := ⟨⟨1000, [e], by decide⟩, [b]⟩
    let tree : FileTree := ⟨[(["t.lft"], .file t.bytes), (["good"], .file (Text.Utf8.encode "[[\"Tick\"]]")),
      (["bad"], .file (Text.Utf8.encode "not json"))], []⟩
    let after := fun args => run FileTree.access (fun _ => ⟨"expected ident", 1, 2⟩) args tree
    after ["t", "-o", "u", "--event-names=good"] =
        (⟨0, "Start time is 1000.\nThere are 1 objects traced.\n" ++
            "------- objects traced:\n0x0000000000000050: R1\n-------\n", false, none⟩,
          tree.put ["u"] (.file (Text.Utf8.encode ("Event, Reactor, Reaction, Worker, " ++
            "Elapsed Logical Time, Microstep, Elapsed Physical Time\n" ++
            "Tick, R1, 2, 3, 500, 4, 1000\n")))) ∧
      after ["t", "-o", "u", "--event-names", "none"] = (⟨1, "", false, some
        "ERROR: Invalid event name table none: No such file or directory (os error 2)"⟩, tree) ∧
      after ["t", "-o", "u", "--event-names", "bad"] = (⟨1, "", false, some
        "ERROR: Invalid event name table bad: expected ident at line 1 column 2"⟩, tree) ∧
      after ["-q", "v", "--batch-capacity=7"] = (⟨3, "", true, some
        "ERROR: Failed to convert v.lft: No trace file named v.lft: No such file or directory (os error 2)"⟩,
          tree) := by
  intro e b t tree after
  let reports : String → EventNames.JsonReport := fun _ => ⟨"expected ident", 1, 2⟩
  let options (path : String) : Options := ⟨["t"], some "u", some path, none, false, false⟩
  refine ⟨?_, ?_, ?_, ?_⟩
  · let config : Config := ⟨2048, 1048576, ⟨["Tick"]⟩, true⟩
    let paths : TracePaths := ⟨"t.lft", "u"⟩
    have hnames : tree.eventNames? "good" = some ⟨["Tick"]⟩ := by
      have hfile : tree.locateInput "good" = .ok ["good"] := rfl
      have htext : tree.text "good" = .ok "[[\"Tick\"]]" := FileTree.text_of_encode hfile rfl
      have hscan : Json.Token.scan "[[\"Tick\"]]".toList =
          [.openBracket, .openBracket, .text "Tick", .closeBracket, .closeBracket] := by
        decide +kernel
      rw [FileTree.eventNames?_of_text htext, EventNames.parse, hscan]
      rfl
    have hentries : t.header.entries.map StoredEntry.entry = [⟨⟨80⟩, "R1"⟩] :=
      congrArg ([·]) (StoredEntry.entry_eq rfl)
    have ht : t.Accepted config := ⟨by decide, by decide, by decide⟩
    have hdifferent : ["t.lft"] ≠ ["u"] := by decide
    have htrace : tree.locateInput paths.trace = .ok ["t.lft"] :=
      show tree.locateInput "t.lft" = _ from rfl
    have hcsv : tree.locateOutput paths.csv = .ok ["u"] := show tree.locateOutput "u" = _ from rfl
    obtain ⟨-, hleft⟩ := convertFiles_of_stored ht hdifferent htrace rfl hcsv
    have hargs : parse ["t", "-o", "u", "--event-names=good"] = .ok (options "good") := rfl
    obtain ⟨hfiles, htells⟩ : (after ["t", "-o", "u", "--event-names=good"]).2 =
          (convertFiles FileTree.access paths config tree).2 ∧
        Tells (options "good") paths (tree.header? paths config.maxObjects)
          (convertFiles FileTree.access paths config tree).1
          (after ["t", "-o", "u", "--event-names=good"]).1 :=
      ((run_faithful hargs reports tree).2 "t" rfl).2 ⟨["Tick"]⟩ hnames
    have hreport := htells.eq_of_stored ht hdifferent htrace rfl hcsv
    have hdump : t.header.header.dump = "Start time is 1000.\nThere are 1 objects traced.\n" ++
        "------- objects traced:\n0x0000000000000050: R1\n-------\n" := by
      rw [t.header.dump_header, hentries]
      decide +kernel
    have htext : Row.title ++ "\n" ++ String.join ((t.rows config).map fun r => r.render ++ "\n") =
        "Event, Reactor, Reaction, Worker, Elapsed Logical Time, Microstep, Elapsed Physical Time\n" ++
          "Tick, R1, 2, 3, 500, 4, 1000\n" := by
      rw [t.rows_eq, hentries]
      decide +kernel
    rw [htext] at hleft
    rw [Options.shown, hdump] at hreport
    exact Prod.ext hreport (hfiles.trans hleft)
  · have hargs : parse ["t", "-o", "u", "--event-names", "none"] = .ok (options "none") := rfl
    obtain ⟨reason, hreason, hafter⟩ := ((run_faithful hargs reports tree).2 "t" rfl).1 "none" rfl rfl
    obtain rfl : reason = IoFault.notFound.message := hreason.eq_of_unread rfl
    exact hafter
  · have hargs : parse ["t", "-o", "u", "--event-names", "bad"] = .ok (options "bad") := rfl
    have hfile : tree.locateInput "bad" = .ok ["bad"] := rfl
    have htext : tree.text "bad" = .ok "not json" := FileTree.text_of_encode hfile rfl
    have hparse : EventNames.parse "not json" = .error .malformed := by
      have hscan : Json.Token.scan "not json".toList = [.bad] := by decide +kernel
      rw [EventNames.parse, hscan]
      rfl
    have hnone : tree.eventNames? "bad" = none := by
      rw [FileTree.eventNames?_of_text htext, hparse]
      rfl
    obtain ⟨reason, hreason, hafter⟩ := ((run_faithful hargs reports tree).2 "t" rfl).1 "bad" rfl hnone
    have hmessage : EventNames.Defect.message (reports "not json") .malformed =
        "expected ident at line 1 column 2" := by decide +kernel
    rw [hreason.eq_of_refused htext hparse, hmessage] at hafter
    exact hafter
  · let config : Config := ⟨7, 1048576, .standard, false⟩
    let paths : TracePaths := ⟨"v.lft", "v.csv"⟩
    have hargs : parse ["-q", "v", "--batch-capacity=7"] = .ok ⟨["v"], none, none, some 7, true, false⟩ := rfl
    have htrace : tree.locateInput paths.trace = .error .notFound :=
      show tree.locateInput "v.lft" = _ from rfl
    obtain ⟨hfiles, htells⟩ : (after ["-q", "v", "--batch-capacity=7"]).2 =
          (convertFiles FileTree.access paths config tree).2 ∧
        Tells ⟨["v"], none, none, some 7, true, false⟩ paths (tree.header? paths config.maxObjects)
          (convertFiles FileTree.access paths config tree).1 (after ["-q", "v", "--batch-capacity=7"]).1 :=
      ((run_faithful hargs reports tree).2 "v" rfl).2 .standard rfl
    have hreport := htells.eq_ofOutcome
    rw [FileTree.header?, htrace, convertFiles_of_noTrace htrace] at hreport
    rw [convertFiles_of_noTrace htrace] at hfiles
    exact Prod.ext hreport hfiles

end CommandLine

end ReactorTrace
