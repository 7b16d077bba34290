import Mathlib.Logic.Function.Iterate
import ReactorTrace.Proofs.FileEffects
import ReactorTrace.Proofs.TableLines

/-! What a conversion between files does to them. A trace that cannot be opened, or a table that cannot be
made, leaves every file as it was. Otherwise the table alone is made or replaced, by the lines of the calls
that the conversion of the trace makes, and converting again changes nothing more
(`convertFiles_table`). -/

namespace ReactorTrace

namespace FileTree

variable {tree : FileTree} {location : Location} {path : String} {route : Route}

theorem put_put (tree : FileTree) (location : Location) (entry entry' : FileEntry) :
    (tree.put location entry).put location entry' = tree.put location entry' := by
  simp [put, List.filter_filter]

/-- A path made of slashes alone starts at the root. -/
theorem start_eq_nil_of_last_eq_none (h : tree.route path = .ok route) (hlast : route.last = none) :
    route.start = [] ∧ route.parents = [] := by
  have hroute := route_eq_of_ok h
  have hne : path.toList ≠ [] := by
    intro hnil
    simp [FileTree.route, hnil] at h
  rw [hroute] at hlast ⊢
  dsimp only at hlast ⊢
  have hnames := List.getLast?_eq_none_iff.1 hlast
  refine ⟨if_pos ?_, by rw [hnames]; rfl⟩
  rw [List.map_eq_nil_iff] at hnames
  cases hchars : path.toList with
  | nil => exact absurd hchars hne
  | cons c cs =>
    by_cases hslash : c = '/'
    · rw [hslash, List.head?_cons]
    · obtain ⟨first, more, hsplit⟩ := List.exists_cons_of_ne_nil (List.splitOn_ne_nil '/' cs)
      rw [hchars, List.splitOn_cons_eq_if_modifyHead, if_neg (by simpa using hslash), hsplit,
        List.modifyHead_cons, List.filter_cons_of_pos (by simp)] at hnames
      cases hnames

/-- What can be opened is there. -/
theorem exists_entry_of_locateInput (h : tree.locateInput path = .ok location) :
    ∃ entry, tree.entry? location = some entry := by
  obtain ⟨route, parent, hleads⟩ := exists_leads_of_locateInput h
  cases hlast : route.last with
  | none =>
    obtain ⟨hstart, hparents⟩ := start_eq_nil_of_last_eq_none hleads.route_eq hlast
    have hparent := hleads.enter_eq
    rw [hstart, hparents] at hparent
    rw [hleads.locateInput_eq, hlast] at h
    obtain rfl := Except.ok.inj h
    obtain rfl := Except.ok.inj hparent
    exact ⟨.directory, rfl⟩
  | some name =>
    obtain rfl := hleads.eq_step_of_locateInput h hlast
    rw [hleads.locateInput_eq, hlast] at h
    cases hfind : tree.find (step parent name) name with
    | error fault => simp [hfind] at h
    | ok entry => exact ⟨entry, find_eq_ok hfind⟩

/-- The stream of what is opened: the bytes of a file, or a failure in place of the first byte of a
directory. -/
inductive Opens (tree : FileTree) (location : Location) : Source → Prop
  | file (bytes : List UInt8) (h : tree.entry? location = some (.file bytes)) :
    Opens tree location (.plain bytes)
  | directory (h : tree.entry? location = some .directory) :
    Opens tree location (.ofBytes [] (.failure .isDirectory) .prompt)

theorem opens_source (h : tree.locateInput path = .ok location) :
    tree.Opens location (tree.source location) := by
  obtain ⟨entry, hentry⟩ := exists_entry_of_locateInput h
  unfold FileTree.source
  rw [hentry]
  cases entry with
  | directory => exact .directory hentry
  | file bytes => exact .file bytes hentry

theorem source_put_of_ne {target : Location} (h : location ≠ target) (entry : FileEntry) :
    (tree.put target entry).source location = tree.source location := by
  unfold FileTree.source
  rw [entry?_put_of_ne h]

/-- No file can be made: no directories lead to the place, or a directory stands there. -/
def Blocked (tree : FileTree) (path : String) : Prop :=
  (∀ route parent, ¬ tree.Leads path route parent) ∨
    ∃ location, tree.locateInput path = .ok location ∧ tree.entry? location = some .directory

theorem exists_fault_of_blocked (h : tree.Blocked path) :
    ∃ cause, tree.locateOutput path = .error cause := by
  rcases tree.leads_or_fault path with ⟨route, parent, hleads⟩ | ⟨fault, -, hout⟩
  · rcases h with hnone | ⟨location, hin, hdirectory⟩
    · exact absurd hleads (hnone route parent)
    · cases hout : tree.locateOutput path with
      | error cause => exact ⟨cause, rfl⟩
      | ok created =>
        -- both would be the place of the last name, which holds no directory
        exfalso
        cases hlast : route.last with
        | none =>
          rw [hleads.locateOutput_eq, hlast] at hout
          cases hout
        | some name =>
          have hplace := hleads.eq_step_of_locateInput hin hlast
          rw [← hleads.eq_step_of_locateOutput hout hlast] at hplace
          exact not_directory_of_locateOutput hout (hplace ▸ hdirectory)
  · exact ⟨fault, hout⟩

/-- A path leads to the file that was made at it. -/
theorem locateOutput_put (h : tree.locateOutput path = .ok location) (bytes : List UInt8) :
    (tree.put location (.file bytes)).locateOutput path = .ok location := by
  obtain ⟨route, parent, hleads⟩ := exists_leads_of_locateOutput h
  have hfile := not_directory_of_locateOutput h
  cases hlast : route.last with
  | none =>
    rw [hleads.locateOutput_eq, hlast] at h
    cases h
  | some name =>
    obtain rfl := hleads.eq_step_of_locateOutput h hlast
    rw [hleads.locateOutput_eq, hlast] at h
    rw [(hleads.put hfile _).locateOutput_eq, hlast]
    dsimp only at h ⊢
    split at h
    · cases h
    · next hplain =>
      have hshort : tree.find (step parent name) name ≠ .error .nameTooLong := by
        intro hlong
        rw [hlong] at h
        cases h
      rw [if_neg hplain, find_put_self hshort (ne_nil_of_not_directory hfile)]

end FileTree

open FileTree

variable {tree : FileTree} {paths : TracePaths} {config : Config} {opened created : Location}

/-- A conversion that gets both files. -/
theorem convertFiles_of_different (hne : opened ≠ created)
    (htrace : tree.locateInput paths.trace = .ok opened)
    (hcsv : tree.locateOutput paths.csv = .ok created) :
    let recorded := convert config (Recording.output .none) (tree.source opened) .empty
    convertFiles FileTree.access paths config tree =
      (⟨recorded.result, recorded.printed⟩, tree.put created
        (.file (Text.Utf8.encode (TableText.lines (config.calls (tree.source opened)))))) := by
  obtain ⟨hresult, hprinted, htext⟩ := convert_table config (tree.source opened)
  rw [convertFiles_of_located htrace hcsv]
  dsimp only
  rw [source_put_of_ne hne, hresult, hprinted, htext, put_put]

/-- A trace within the limits is converted to the rows of its records. -/
theorem convertFiles_of_stored {t : StoredTrace} (ht : t.Accepted config) (hne : opened ≠ created)
    (htrace : tree.locateInput paths.trace = .ok opened)
    (hbytes : tree.entry? opened = some (.file t.bytes))
    (hcsv : tree.locateOutput paths.csv = .ok created) :
    let after := convertFiles FileTree.access paths config tree
    after.1.result = .ok ⟨t.header.startTime, t.header.entries.length, t.batches.length,
      t.records.length⟩ ∧
    after.2 = tree.put created (.file (Text.Utf8.encode
      (Row.title ++ "\n" ++ String.join ((t.rows config).map fun r => r.render ++ "\n")))) := by
  have hsource : tree.source opened = .ofBytes t.bytes .endOfFile .prompt := by
    rw [FileTree.source, hbytes]
    rfl
  obtain ⟨hresult, -, hcalls⟩ := convert_stored Recording.neverFails ht .prompt .empty
  rw [convertFiles_of_different hne htrace hcsv, hsource, Config.calls_eq hcalls,
    TableText.lines_conversion]
  exact ⟨hresult, rfl⟩

/-- A second conversion does what the first one did, and leaves the files as they are. -/
theorem convertFiles_again (hdifferent : ¬ tree.SameFile paths.trace paths.csv) (config : Config) :
    let run := convertFiles FileTree.access paths config
    run (run tree).2 = run tree := by
  intro run
  cases htrace : tree.locateInput paths.trace with
  | error cause =>
    have hrun : run tree = _ := convertFiles_of_noTrace htrace
    rw [hrun]
    exact hrun
  | ok opened =>
    cases hcsv : tree.locateOutput paths.csv with
    | error cause =>
      have hrun : run tree = _ := convertFiles_of_noOutput htrace hcsv
      rw [hrun]
      exact hrun
    | ok created =>
      have hne : opened ≠ created := by
        rintro rfl
        exact hdifferent ⟨opened, htrace, hcsv⟩
      have hfile := not_directory_of_locateOutput hcsv
      have hrun : run tree = _ := convertFiles_of_different hne htrace hcsv
      rw [hrun]
      refine (convertFiles_of_different hne (locateInput_put htrace hfile _)
        (locateOutput_put hcsv _)).trans ?_
      rw [source_put_of_ne hne, put_put]

/-- A conversion between two different files. If the trace cannot be opened, or else the table cannot be
made, this is reported and no file is changed. Otherwise the result is that of converting what is opened,
the table gets the column names and the rows written, or nothing if the header cannot be read, whatever it
held before, and nothing else is changed. However often the conversion is run again, it returns the same
and leaves the same files. -/
theorem convertFiles_table (hdifferent : ¬ tree.SameFile paths.trace paths.csv) (config : Config) :
    let run := convertFiles FileTree.access paths config
    let after := run tree
    (∀ cause, tree.locateInput paths.trace = .error cause →
      after = (⟨.error (.noTrace paths.trace cause), ""⟩, tree)) ∧
    (∀ opened cause, tree.locateInput paths.trace = .ok opened →
      tree.locateOutput paths.csv = .error cause →
      after = (⟨.error (.noOutput paths.csv cause), ""⟩, tree)) ∧
    (tree.Blocked paths.csv → ∃ cause, tree.locateOutput paths.csv = .error cause) ∧
    (∀ opened created, tree.locateInput paths.trace = .ok opened →
      tree.locateOutput paths.csv = .ok created →
      ∃ source table, tree.Opens opened source ∧
        let recorded := convert config (Recording.output .none) source .empty
        after.1 = ⟨recorded.result, recorded.printed⟩ ∧
        FileTree.entry? after.2 created = some (.file (Text.Utf8.encode table)) ∧
        (∀ location ≠ created, FileTree.entry? after.2 location = tree.entry? location) ∧
        after.2.workingDirectory = tree.workingDirectory ∧
        (∀ fault body, Header.read config.maxObjects source = (.error fault, body) → table = "") ∧
        ∀ header body, Header.read config.maxObjects source = (.ok header, body) →
          ∃ rows : List Row,
            recorded.output.calls = (.title :: (rows.map .row ++ [.flush])).toArray ∧
            table = Row.title ++ "\n" ++ String.join (rows.map fun r => r.render ++ "\n")) ∧
    ∀ n, run ((fun tree => (run tree).2)^[n] after.2) = after := by
  intro run after
  have hagain : run after.2 = after := convertFiles_again hdifferent config
  refine ⟨fun cause => convertFiles_of_noTrace, fun opened cause => convertFiles_of_noOutput,
    exists_fault_of_blocked, fun opened created htrace hcsv => ?_, fun n => ?_⟩
  · have hne : opened ≠ created := by
      rintro rfl
      exact hdifferent ⟨opened, htrace, hcsv⟩
    have hroot := ne_nil_of_not_directory (not_directory_of_locateOutput hcsv)
    have hrun : after = _ := convertFiles_of_different hne htrace hcsv
    rw [hrun]
    refine ⟨tree.source opened, TableText.lines (config.calls (tree.source opened)),
      opens_source htrace, rfl, entry?_put_self hroot _, fun location h => entry?_put_of_ne h _, rfl,
      fun fault body hread => ?_, fun header body hread => ?_⟩
    · rw [Config.calls_of_read_error hread]
      rfl
    · obtain ⟨rows, hcalls⟩ := Config.exists_calls_of_read_ok hread
      refine ⟨rows, ?_, ?_⟩
      · rw [← hcalls, Config.calls, Array.toArray_toList]
      · rw [hcalls, TableText.lines_conversion]
  · rw [Function.iterate_fixed (congrArg Prod.snd hagain) n]
    exact hagain

/-- A trace without events, and an older and longer table in the place of its own. -/
theorem convertFiles_table_replaced :
    let tree : FileTree :=
      ⟨[(["t.lft"], .file (List.replicate 12 0)), (["t.csv"], .file (List.replicate 200 65))], []⟩
    let run := convertFiles FileTree.access (.ofRoot "t") .standard
    ¬ tree.SameFile (TracePaths.ofRoot "t").trace (TracePaths.ofRoot "t").csv ∧
      (run tree).1.result = .ok ⟨0, 0, 0, 0⟩ ∧
      FileTree.entry? (run tree).2 ["t.csv"] = some (.file (Text.Utf8.encode (Row.title ++ "\n"))) ∧
      ∀ n, run ((fun tree => (run tree).2)^[n] (run tree).2) = run tree := by
  intro tree run
  have hdifferent := tree.not_sameFile_ofRoot "t"
  obtain ⟨-, -, -, hboth, hagain⟩ := convertFiles_table hdifferent .standard
  obtain ⟨source, table, hopens, hresult, htable, -, -, -, hwritten⟩ :=
    hboth ["t.lft"] ["t.csv"] rfl rfl
  let t : StoredTrace := ⟨⟨0, [], by decide⟩, []⟩
  have ht : t.Accepted .standard := ⟨by decide, by simp [t], by simp [t]⟩
  have hsource : source = .plain t.bytes := by
    cases hopens with
    | file bytes h =>
      have hbytes : some (FileEntry.file (List.replicate 12 0)) = some (.file bytes) := h
      have hstored : List.replicate 12 0 = t.bytes := by decide
      rw [← FileEntry.file.inj (Option.some.inj hbytes), hstored]
    | directory h => cases h
  subst hsource
  obtain ⟨hconvert, -, hcalls⟩ := convert_stored Recording.neverFails ht .prompt .empty
  obtain ⟨hread, -, -⟩ := (Header.reads_header t.header ht.objects_le).whole (.plain t.bytes) [] rfl
  obtain ⟨rows, hrows, hlines⟩ := hwritten _ _ (Prod.ext hread rfl)
  have hnone : rows = [] := by
    have hcalled : (_ : Array OutputCall) = #[.title, .flush] :=
      hrows.symm.trans (congrArg Recording.calls hcalls)
    cases rows with
    | nil => rfl
    | cons r rows => simp at hcalled
  refine ⟨hdifferent, (congrArg FileOutcome.result hresult).trans hconvert, ?_, hagain⟩
  rw [hnone] at hlines
  rw [htable, hlines]
  rfl

end ReactorTrace
