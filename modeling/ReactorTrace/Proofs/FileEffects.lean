import ReactorTrace.CommandLine
import ReactorTrace.Files.Tree
import ReactorTrace.Proofs.Acceptance

/-! Conversions between files, and what they leave of their trace. Making the table touches one location,
and no path to another file changes its way by it. So the trace stays as it was unless the table is made
in its place: then it is emptied before it is read (`convertFiles_trace`). A table named after the root
is never in that place. -/

namespace ReactorTrace

namespace FileTree

/-- The bytes of the file that a path leads to. -/
def file? (tree : FileTree) (path : String) : Option (List UInt8) :=
  match tree.locateInput path with
  | .error _ => none
  | .ok location =>
    match tree.entry? location with
    | some (.file bytes) => some bytes
    | _ => none

/-- A table made at `csv` takes the place of the trace that is read at `trace`. -/
def SameFile (tree : FileTree) (trace csv : String) : Prop :=
  ∃ location, tree.locateInput trace = .ok location ∧ tree.locateOutput csv = .ok location

variable {tree : FileTree} {location target : Location} {name : String}

/-! ### One entry replaced -/

theorem lookup_filter_ne {entries : List (Location × FileEntry)} (h : location ≠ target) :
    (entries.filter fun other => other.1 ≠ target).lookup location = entries.lookup location := by
  induction entries with
  | nil => rfl
  | cons e entries ih =>
    by_cases he : e.1 = target
    · have hne : (location == e.1) = false := by simp [he, h]
      rw [List.filter_cons_of_neg (by simpa using he), ih, List.lookup_cons, hne]
    · rw [List.filter_cons_of_pos (by simpa using he), List.lookup_cons, List.lookup_cons, ih]

theorem entry?_put_of_ne (h : location ≠ target) (entry : FileEntry) :
    entry? (tree.put target entry) location = tree.entry? location := by
  have hne : (location == target) = false := by simpa using h
  unfold entry? put
  rw [List.lookup_cons, hne]
  dsimp only
  rw [lookup_filter_ne h]

theorem entry?_put_self (h : target ≠ []) (entry : FileEntry) :
    entry? (tree.put target entry) target = some entry := by
  unfold entry? put
  rw [if_neg h, List.lookup_cons, beq_self_eq_true]

theorem ne_nil_of_not_directory (h : tree.entry? target ≠ some .directory) : target ≠ [] := by
  rintro rfl
  exact h rfl

theorem not_directory_put (h : tree.entry? target ≠ some .directory) (bytes : List UInt8) :
    entry? (tree.put target (.file bytes)) target ≠ some .directory := by
  rw [entry?_put_self (ne_nil_of_not_directory h)]
  simp

/-! ### Following a path -/

theorem find_eq_ok {entry : FileEntry} (h : tree.find location name = .ok entry) :
    tree.entry? location = some entry := by
  unfold find at h
  split at h
  · cases h
  · split at h
    · next other hother =>
      cases h
      exact hother
    · cases h

theorem find_put_of_ne (h : location ≠ target) (entry : FileEntry) (name : String) :
    (tree.put target entry).find location name = tree.find location name := by
  unfold find
  rw [entry?_put_of_ne h]

theorem find_put_self (h : tree.find target name ≠ .error .nameTooLong) (hne : target ≠ [])
    (entry : FileEntry) : (tree.put target entry).find target name = .ok entry := by
  unfold find at h ⊢
  split at h
  · exact absurd rfl h
  · next hlong => rw [if_neg hlong, entry?_put_self hne]

/-- A way through directories does not meet a file. -/
theorem enter_put (h : tree.entry? target ≠ some .directory) (entry : FileEntry)
    {names : List String} {start : Location} (henter : tree.enter start names = .ok location) :
    (tree.put target entry).enter start names = .ok location := by
  induction names generalizing start with
  | nil => exact henter
  | cons name names ih =>
    unfold enter at henter ⊢
    split at henter
    · cases henter
    · cases henter
    · next hfind =>
      have hne : step start name ≠ target := by
        rintro rfl
        exact h (find_eq_ok hfind)
      rw [find_put_of_ne hne, hfind]
      exact ih henter

/-- A path leads through directories to the place of its last name. -/
structure Leads (tree : FileTree) (path : String) (route : Route) (parent : Location) : Prop where
  route_eq : tree.route path = .ok route
  enter_eq : tree.enter route.start route.parents = .ok parent

variable {path : String} {route : Route} {parent : Location}

theorem Leads.put (h : tree.Leads path route parent) (ht : tree.entry? target ≠ some .directory)
    (entry : FileEntry) : (tree.put target entry).Leads path route parent :=
  ⟨h.route_eq, enter_put ht entry h.enter_eq⟩

theorem Leads.locateInput_eq (h : tree.Leads path route parent) :
    tree.locateInput path =
      match route.last with
      | none => .ok parent
      | some name =>
        match tree.find (step parent name) name with
        | .error fault => .error fault
        | .ok .directory => .ok (step parent name)
        | .ok (.file _) =>
          if route.trailingSlash then .error .notDirectory else .ok (step parent name) := by
  unfold locateInput
  rw [h.route_eq]
  dsimp only [bind, Except.bind]
  rw [h.enter_eq]
  cases route.last with
  | none => rfl
  | some name =>
    dsimp only
    rcases tree.find (step parent name) name with _ | _ | _
    · rfl
    · rfl
    · rfl

/-- A path that leads nowhere can be neither read nor written. -/
theorem leads_or_fault (tree : FileTree) (path : String) :
    (∃ route parent, tree.Leads path route parent) ∨
      ∃ fault, tree.locateInput path = .error fault ∧ tree.locateOutput path = .error fault := by
  unfold locateInput locateOutput
  cases hroute : tree.route path with
  | error fault => exact .inr ⟨fault, rfl, rfl⟩
  | ok route =>
    dsimp only [bind, Except.bind]
    cases henter : tree.enter route.start route.parents with
    | error fault => exact .inr ⟨fault, rfl, rfl⟩
    | ok parent => exact .inl ⟨route, parent, hroute, henter⟩

theorem exists_leads_of_locateInput (h : tree.locateInput path = .ok location) :
    ∃ route parent, tree.Leads path route parent := by
  rcases tree.leads_or_fault path with hleads | ⟨fault, hin, -⟩
  · exact hleads
  · cases h.symm.trans hin

theorem exists_leads_of_locateOutput (h : tree.locateOutput path = .ok location) :
    ∃ route parent, tree.Leads path route parent := by
  rcases tree.leads_or_fault path with hleads | ⟨fault, -, hout⟩
  · exact hleads
  · cases h.symm.trans hout

theorem Leads.locateOutput_eq (h : tree.Leads path route parent) :
    tree.locateOutput path =
      match route.last with
      | none => .error .isDirectory
      | some name =>
        if route.trailingSlash ∨ name = "." ∨ name = ".." then .error .isDirectory
        else
          match tree.find (step parent name) name with
          | .ok .directory => .error .isDirectory
          | .ok (.file _) | .error .notFound => .ok (step parent name)
          | .error fault => .error fault := by
  unfold locateOutput
  rw [h.route_eq]
  dsimp only [bind, Except.bind]
  rw [h.enter_eq]
  rfl

theorem Leads.eq_step_of_locateInput (h : tree.Leads path route parent)
    (hlocate : tree.locateInput path = .ok location) (hlast : route.last = some name) :
    location = step parent name := by
  rw [h.locateInput_eq, hlast] at hlocate
  dsimp only at hlocate
  split at hlocate
  · cases hlocate
  · exact (Except.ok.inj hlocate).symm
  · split at hlocate
    · cases hlocate
    · exact (Except.ok.inj hlocate).symm

theorem Leads.eq_step_of_locateOutput (h : tree.Leads path route parent)
    (hlocate : tree.locateOutput path = .ok location) (hlast : route.last = some name) :
    location = step parent name := by
  rw [h.locateOutput_eq, hlast] at hlocate
  dsimp only at hlocate
  split at hlocate
  · cases hlocate
  · split at hlocate <;> cases hlocate <;> rfl

theorem find_directory (h : tree.entry? location = some .directory) (name : String) :
    tree.find location name = .ok .directory ∨ tree.find location name = .error .nameTooLong := by
  unfold find
  rw [h]
  split
  · exact .inr rfl
  · exact .inl rfl

/-- A table is never made in the place of a directory. -/
theorem not_directory_of_locateOutput (h : tree.locateOutput path = .ok location) :
    tree.entry? location ≠ some .directory := by
  obtain ⟨route, parent, hleads⟩ := exists_leads_of_locateOutput h
  intro hdirectory
  cases hlast : route.last with
  | none =>
    rw [hleads.locateOutput_eq, hlast] at h
    cases h
  | some name =>
    obtain rfl := hleads.eq_step_of_locateOutput h hlast
    rw [hleads.locateOutput_eq, hlast] at h
    dsimp only at h
    split at h
    · cases h
    · rcases find_directory hdirectory name with hfind | hfind
      · rw [hfind] at h
        cases h
      · rw [hfind] at h
        cases h

/-- A path that can be read leads to the same place after a file is put somewhere. -/
theorem locateInput_put (h : tree.locateInput path = .ok location)
    (ht : tree.entry? target ≠ some .directory) (bytes : List UInt8) :
    (tree.put target (.file bytes)).locateInput path = .ok location := by
  obtain ⟨route, parent, hleads⟩ := exists_leads_of_locateInput h
  rw [hleads.locateInput_eq] at h
  rw [(hleads.put ht _).locateInput_eq]
  cases hlast : route.last with
  | none => rwa [hlast] at h
  | some name =>
    rw [hlast] at h
    dsimp only at h ⊢
    by_cases hplace : step parent name = target
    · subst hplace
      rcases hfind : tree.find (step parent name) name with _ | _ | old
      · simp [hfind] at h
      · exact absurd (find_eq_ok hfind) ht
      · rw [hfind] at h
        rwa [find_put_self (by simp [hfind]) (ne_nil_of_not_directory ht)]
    · rwa [find_put_of_ne hplace]

/-- A file put at a location is what a path reads if it leads there, and nothing else is. -/
theorem file?_put (h : tree.locateInput path = .ok location)
    (ht : tree.entry? target ≠ some .directory) (bytes : List UInt8) :
    (tree.put target (.file bytes)).file? path =
      if location = target then some bytes else tree.file? path := by
  unfold file?
  rw [locateInput_put h ht, h]
  dsimp only
  by_cases hplace : location = target
  · rw [if_pos hplace, hplace, entry?_put_self (ne_nil_of_not_directory ht)]
  · rw [if_neg hplace, entry?_put_of_ne hplace]

/-! ### Paths with a common root -/

/-- A text without a slash goes to the last part, whatever stands before it. -/
theorem exists_splitOn_append (xs : List Char) :
    ∃ init last, ∀ ys, '/' ∉ ys → (xs ++ ys).splitOn '/' = init ++ [last ++ ys] := by
  induction xs with
  | nil => exact ⟨[], [], fun ys hys => List.splitOn_eq_singleton hys⟩
  | cons x xs ih =>
    obtain ⟨init, last, ih⟩ := ih
    by_cases hx : x = '/'
    · refine ⟨[] :: init, last, fun ys hys => ?_⟩
      rw [List.cons_append, List.splitOn_cons_eq_if_modifyHead, if_pos (by simpa using hx),
        ih ys hys]
      rfl
    · cases init with
      | nil =>
        refine ⟨[], x :: last, fun ys hys => ?_⟩
        rw [List.cons_append, List.splitOn_cons_eq_if_modifyHead, if_neg (by simpa using hx),
          ih ys hys]
        rfl
      | cons head init =>
        refine ⟨(x :: head) :: init, last, fun ys hys => ?_⟩
        rw [List.cons_append, List.splitOn_cons_eq_if_modifyHead, if_neg (by simpa using hx),
          ih ys hys]
        rfl

theorem route_eq_of_ok (h : tree.route path = .ok route) :
    let names := ((path.toList.splitOn '/').filter (· ≠ [])).map String.ofList
    route =
      { start := if path.toList.head? = some '/' then [] else tree.workingDirectory
        parents := names.dropLast
        last := names.getLast?
        trailingSlash := path.toList.getLast? = some '/' } := by
  unfold FileTree.route at h
  dsimp only at h
  split at h
  · cases h
  · split at h
    · cases h
    · split at h
      · cases h
      · exact (Except.ok.inj h).symm

/-- Paths that go on from one root with no slash differ in their last name alone. -/
theorem exists_route_append (tree : FileTree) (root : String) :
    ∃ start parents last, ∀ suffix : String, '/' ∉ suffix.toList → suffix.toList ≠ [] →
      ∀ route, tree.route (root ++ suffix) = .ok route →
        route = ⟨start, parents, some (last ++ suffix), false⟩ := by
  obtain ⟨init, last, hsplit⟩ := exists_splitOn_append root.toList
  refine ⟨if root.toList.head? = some '/' then [] else tree.workingDirectory,
    (init.filter (· ≠ [])).map String.ofList, String.ofList last, ?_⟩
  intro suffix hslash hne route hroute
  have hstart : (root.toList ++ suffix.toList).head? = some '/' ↔ root.toList.head? = some '/' := by
    cases root.toList with
    | nil =>
      simp only [List.nil_append, List.head?_nil, reduceCtorEq, iff_false]
      exact fun h => hslash (List.mem_of_mem_head? h)
    | cons x xs => simp
  have hend : (root.toList ++ suffix.toList).getLast? ≠ some '/' := by
    rw [List.getLast?_append, List.getLast?_eq_some_getLast hne, Option.some_or]
    exact fun h => hslash (Option.some.inj h ▸ List.getLast_mem hne)
  have hnames : ((root.toList ++ suffix.toList).splitOn '/').filter (· ≠ []) =
      init.filter (· ≠ []) ++ [last ++ suffix.toList] := by
    rw [hsplit _ hslash, List.filter_append]
    simp [hne]
  have hlast : String.ofList (last ++ suffix.toList) = String.ofList last ++ suffix := by
    rw [String.ofList_append, String.ofList_toList]
  rw [route_eq_of_ok hroute, String.toList_append, hnames, List.map_append, List.map_singleton,
    List.dropLast_concat, List.getLast?_concat, hlast]
  simp only [hstart, hend, decide_false]

/-- A name with an extension is neither one dot nor two. -/
theorem step_append (last suffix : String) (h : 2 < suffix.length) :
    step location (last ++ suffix) = location ++ [last ++ suffix] := by
  have hlength : 2 < (last ++ suffix).length := by
    rw [String.length_append]
    omega
  unfold step
  split
  · next hdot =>
    rw [hdot] at hlength
    exact absurd hlength (by decide)
  · split
    · next hdots =>
      rw [hdots] at hlength
      exact absurd hlength (by decide)
    · rfl

/-- Files with the extensions of a trace and of a table are never the same. -/
theorem not_sameFile_ofRoot (tree : FileTree) (root : String) :
    ¬ tree.SameFile (TracePaths.ofRoot root).trace (TracePaths.ofRoot root).csv := by
  rintro ⟨location, hin, hout⟩
  obtain ⟨start, parents, last, hroutes⟩ := tree.exists_route_append root
  obtain ⟨routeIn, parentIn, hleadsIn⟩ := exists_leads_of_locateInput hin
  obtain ⟨routeOut, parentOut, hleadsOut⟩ := exists_leads_of_locateOutput hout
  obtain rfl := hroutes ".lft" (by decide) (by decide) _ hleadsIn.route_eq
  obtain rfl := hroutes ".csv" (by decide) (by decide) _ hleadsOut.route_eq
  obtain rfl : parentIn = parentOut :=
    Except.ok.inj (hleadsIn.enter_eq.symm.trans hleadsOut.enter_eq)
  have hIn := hleadsIn.eq_step_of_locateInput hin rfl
  have hOut := hleadsOut.eq_step_of_locateOutput hout rfl
  rw [step_append _ _ (by decide)] at hIn hOut
  have hnames : last ++ ".lft" = last ++ ".csv" := by simpa using hIn.symm.trans hOut
  exact absurd ((String.append_right_inj last).1 hnames) (by decide)

end FileTree

open FileTree

/-! ### Conversions -/

variable {tree : FileTree} {paths : TracePaths} {config : Config} {opened created : Location}

theorem convertFiles_of_noTrace {cause : IoFault}
    (h : tree.locateInput paths.trace = .error cause) :
    convertFiles FileTree.access paths config tree =
      (⟨.error (.noTrace paths.trace cause), ""⟩, tree) := by
  unfold convertFiles
  dsimp only [bind, StateT.bind, FileTree.access]
  rw [h]
  rfl

theorem convertFiles_of_noOutput {cause : IoFault}
    (htrace : tree.locateInput paths.trace = .ok opened)
    (h : tree.locateOutput paths.csv = .error cause) :
    convertFiles FileTree.access paths config tree =
      (⟨.error (.noOutput paths.csv cause), ""⟩, tree) := by
  unfold convertFiles
  dsimp only [bind, StateT.bind, FileTree.access, FileTree.create]
  rw [htrace]
  dsimp only [StateT.bind]
  rw [h]
  rfl

/-- The table is made empty, then the trace is read, then the table is filled. -/
theorem convertFiles_of_located (htrace : tree.locateInput paths.trace = .ok opened)
    (h : tree.locateOutput paths.csv = .ok created) :
    convertFiles FileTree.access paths config tree =
      let emptied := tree.put created (.file [])
      let outcome := convert config TableText.output (emptied.source opened) (.empty none)
      (⟨outcome.result, outcome.printed⟩,
        emptied.put created (.file (Text.Utf8.encode outcome.output.text))) := by
  unfold convertFiles
  dsimp only [bind, StateT.bind, FileTree.access, FileTree.create]
  rw [htrace]
  dsimp only [StateT.bind]
  rw [h]
  rfl

/-- Nothing can be read of an empty trace. -/
theorem read_nil (limit : Nat) :
    (Header.read limit (.plain [])).1 = .error (.shortHeader .startTime 8 0) := by
  rw [Header.read, Reading.bind_apply, Header.readField_apply]
  rfl

/-- A table in the place of its own trace: the trace is empty when it is read, and stays empty. -/
theorem convertFiles_of_sameFile (h : tree.SameFile paths.trace paths.csv) :
    let after := convertFiles FileTree.access paths config tree
    after.1.result = .error (.shortHeader .startTime 8 0) ∧ after.2.file? paths.trace = some [] := by
  obtain ⟨location, hin, hout⟩ := h
  have hfile := not_directory_of_locateOutput hout
  have hsource : (tree.put location (.file [])).source location = .plain [] := by
    unfold FileTree.source
    rw [entry?_put_self (ne_nil_of_not_directory hfile)]
  have hconvert := convert_of_read_error (Prod.ext (read_nil config.maxObjects) rfl)
    TableText.output (.empty none)
  dsimp only
  rw [convertFiles_of_located hin hout]
  dsimp only
  rw [hsource, hconvert]
  refine ⟨rfl, ?_⟩
  rw [file?_put (locateInput_put hin hfile []) (not_directory_put hfile []), if_pos rfl]
  rfl

/-- A table in another place leaves the trace alone. -/
theorem convertFiles_of_not_sameFile (h : ¬ tree.SameFile paths.trace paths.csv) :
    (convertFiles FileTree.access paths config tree).2.file? paths.trace =
      tree.file? paths.trace := by
  cases hin : tree.locateInput paths.trace with
  | error cause => rw [convertFiles_of_noTrace hin]
  | ok opened =>
    cases hout : tree.locateOutput paths.csv with
    | error cause => rw [convertFiles_of_noOutput hin hout]
    | ok created =>
      have hne : opened ≠ created := by
        rintro rfl
        exact h ⟨opened, hin, hout⟩
      have hfile := not_directory_of_locateOutput hout
      rw [convertFiles_of_located hin hout]
      dsimp only
      rw [file?_put (locateInput_put hin hfile []) (not_directory_put hfile []), if_neg hne,
        file?_put hin hfile, if_neg hne]

/-- A conversion leaves its trace as it was, whatever comes of it, unless the path of the table leads to
the trace; a path made from the root never does. A trace that its own table takes the place of
is emptied before it is read: it is left empty, and the conversion ends at the missing start time. -/
theorem convertFiles_trace (tree : FileTree) (options : CommandLine.Options) (root : String)
    (config : Config) :
    let paths := CommandLine.pathsOf options root
    let after := convertFiles FileTree.access paths config tree
    (¬ tree.SameFile paths.trace paths.csv →
      after.2.file? paths.trace = tree.file? paths.trace) ∧
    (options.output = none → ¬ tree.SameFile paths.trace paths.csv) ∧
    (tree.SameFile paths.trace paths.csv →
      after.1.result = .error (.shortHeader .startTime 8 0) ∧
        after.2.file? paths.trace = some []) := by
  refine ⟨convertFiles_of_not_sameFile, fun hnone => ?_, convertFiles_of_sameFile⟩
  have hpaths : CommandLine.pathsOf options root = .ofRoot root := by
    rw [CommandLine.pathsOf, hnone]
  rw [hpaths]
  exact not_sameFile_ofRoot tree root

/-- A trace of twelve bytes is lost when its table is made at its own path. -/
theorem trace_lost_to_own_table :
    let tree : FileTree := ⟨[(["t.lft"], .file (List.replicate 12 0))], []⟩
    let paths := CommandLine.pathsOf { CommandLine.Options.none with output := some "t.lft" } "t"
    tree.file? paths.trace = some (List.replicate 12 0) ∧
      (convertFiles FileTree.access paths .standard tree).2.file? paths.trace = some [] :=
  ⟨by decide +kernel, (convertFiles_of_sameFile ⟨["t.lft"], rfl, rfl⟩).2⟩

end ReactorTrace
