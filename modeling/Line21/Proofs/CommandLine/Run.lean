import Line21.Proofs.CommandLine.FreePath
import Line21.Proofs.Source.Files

/-!
# Runs leave files alone

A run converts the file that its options ask for, or fails. Main statement: a run that fails leaves
all files as they were, and one that succeeds adds the document under the first free name, or writes
no file when the document goes to the standard output. Runs that are repeated add a file each.
-/

namespace Line21.CommandLine

open Files (Absolute Tree Node PathError)

variable {tree tree' : Tree} {working : Absolute} {o : Options} {job job' : Job}
  {text text' : String}

/-! ### What options ask for -/

/-- The directory in which options ask for a document: beside the caption file, unless another one
is given. -/
def Options.place (o : Options) (working input : Absolute) : Except PathError Absolute :=
  if o.outputDirectory = "" then .ok input.dropLast else Files.resolve working o.outputDirectory

/-- Options ask for a job. The caption file is there and the format is known, and the kind of the
file is that of the option or else that of its suffix. The document goes into a directory that is
there, or to the standard output. -/
structure Options.Asks (o : Options) (tree : Tree) (working : Absolute) (job : Job) : Prop where
  input : Files.resolve working o.input = .ok job.input
  content : tree.lookAt job.input = .ok (some (.file job.content))
  format : o.format.bind (Format.ofKey? ·.toLower) = some job.format
  kind : job.kind = o.kind.getD (.ofSuffix (Files.suffix job.name))
  directory : ∃ d, o.place working job.input = .ok d ∧
    if o.stdout then job.directory = none
    else job.directory = some d ∧ tree.lookAt d = .ok (some .directory)

/-- Options ask for a job, and its caption file has a document. -/
structure Options.Makes (o : Options) (tree : Tree) (working : Absolute) (job : Job)
    (text : String) : Prop extends o.Asks tree working job where
  document : ∃ units, job.kind.read job.content = .ok units ∧
    Conversion.document job.format units = .ok text

private theorem mapError_eq_ok_iff {ε δ α : Type} {x : Except ε α} {f : ε → δ} {a : α} :
    x.mapError f = .ok a ↔ x = .ok a := by
  cases x with
  | error e => exact ⟨nofun, nofun⟩
  | ok a => exact ⟨fun h ↦ congrArg _ (Except.ok.inj h), fun h ↦ congrArg _ (Except.ok.inj h)⟩

private theorem prepare_of_file {input : Absolute} {content : List UInt8} {format : Format}
    (hinput : Files.resolve working o.input = .ok input)
    (hcontent : tree.lookAt input = .ok (some (.file content)))
    (hformat : o.format.bind (Format.ofKey? ·.toLower) = some format) :
    prepare tree working o = (do
      let directory ← (o.place working input).mapError .path
      let kind := o.kind.getD (.ofSuffix (Files.suffix (input.getLast?.getD "")))
      if o.stdout then return .ok { input, content, kind, format, directory := none }
      else match ← lookAt tree directory with
        | some .directory =>
          return .ok { input, content, kind, format, directory := some directory }
        | _ => return .error (.missingDirectory directory)) := by
  obtain ⟨key, hkey, hformat⟩ := Option.bind_eq_some_iff.mp hformat
  simp only [prepare, resolve, lookAt, hinput, hcontent, hkey, hformat, Except.mapError, bind,
    Except.bind, pure, Except.pure, Options.place]
  split <;> rfl

private theorem exists_file_of_prepare (h : prepare tree working o = .ok (.ok job)) :
    ∃ input content format, Files.resolve working o.input = .ok input ∧
      tree.lookAt input = .ok (some (.file content)) ∧
      o.format.bind (Format.ofKey? ·.toLower) = some format := by
  obtain ⟨input, hinput, h⟩ := bind_eq_ok_iff.mp h
  obtain ⟨node, hnode, h⟩ := bind_eq_ok_iff.mp h
  split at h
  · split at h
    · next key hkey =>
      split at h
      · cases h
      · next hformat =>
        exact ⟨input, _, _, mapError_eq_ok_iff.mp hinput, mapError_eq_ok_iff.mp hnode,
          Option.bind_eq_some_iff.mpr ⟨key, hkey, hformat⟩⟩
    · cases h
  · cases h

/-- A job is prepared when options ask for it, and for no other reason. -/
theorem prepare_eq_ok_iff : prepare tree working o = .ok (.ok job) ↔ o.Asks tree working job := by
  constructor
  · intro h
    obtain ⟨input, content, format, hinput, hcontent, hformat⟩ := exists_file_of_prepare h
    rw [prepare_of_file hinput hcontent hformat] at h
    obtain ⟨d, hd, h⟩ := bind_eq_ok_iff.mp h
    have hd := mapError_eq_ok_iff.mp hd
    split at h
    · next hstdout =>
      obtain rfl := Except.ok.inj (Except.ok.inj h)
      exact ⟨hinput, hcontent, hformat, rfl, d, hd, by rw [if_pos hstdout]⟩
    · next hstdout =>
      obtain ⟨node, hnode, h⟩ := bind_eq_ok_iff.mp h
      split at h
      · obtain rfl := Except.ok.inj (Except.ok.inj h)
        refine ⟨hinput, hcontent, hformat, rfl, d, hd, ?_⟩
        rw [if_neg hstdout]
        exact ⟨rfl, mapError_eq_ok_iff.mp hnode⟩
      · cases h
  · rintro ⟨hinput, hcontent, hformat, hkind, d, hd, hdirectory⟩
    obtain ⟨input, content, kind, format, directory⟩ := job
    rw [prepare_of_file hinput hcontent hformat, bind_eq_ok_iff]
    refine ⟨d, mapError_eq_ok_iff.mpr hd, ?_⟩
    obtain rfl : kind = o.kind.getD (.ofSuffix (Files.suffix (input.getLast?.getD ""))) := hkind
    split at hdirectory
    · next hstdout =>
      obtain rfl : directory = none := hdirectory
      rw [if_pos hstdout]
      rfl
    · next hstdout =>
      obtain ⟨rfl, hnode⟩ : directory = some d ∧ _ := hdirectory
      rw [if_neg hstdout, bind_eq_ok_iff]
      exact ⟨some .directory, mapError_eq_ok_iff.mpr hnode, rfl⟩

/-! ### Failures and successes -/

/-- A run has failed: its exit code tells so, and all files are as they were. -/
structure Failed (tree : Tree) (result : Except Breakdown Report) : Prop where
  exitCode_eq : exitCode result = 1
  filesAfter_eq : filesAfter tree result = tree

/-- A name is free for the document of a job, if it needs one. -/
def Job.HasPlace (tree : Tree) (job : Job) : Prop :=
  ∀ directory ∈ job.directory, ∃ name,
    GetsName tree directory (Files.stem job.name) job.format.suffix name

/-- The files after a document is delivered: the same as before, if it went to the standard output,
and else one more, which holds the document and has the name that it gets. -/
def Delivered (tree : Tree) (job : Job) (text : String) (tree' : Tree) : Prop :=
  match job.directory with
  | none => tree' = tree
  | some directory => ∃ name,
    GetsName tree directory (Files.stem job.name) job.format.suffix name ∧
      tree.Adds tree' [directory ++ [name]] text.toUTF8.toList

private theorem failed_of_not_makes (h : ¬ ∃ job text, o.Makes tree working job text) :
    Failed tree (run tree working o) := by
  rw [run]
  -- Every way out but the last breaks off or reports an error, with the files as they were.
  cases hp : prepare tree working o with
  | error b => exact ⟨rfl, rfl⟩
  | ok prepared =>
    cases prepared with
    | error e => exact ⟨rfl, rfl⟩
    | ok job =>
      change Failed tree (job.run tree)
      have hasks := prepare_eq_ok_iff.mp hp
      rw [Job.run]
      split
      · exact ⟨rfl, rfl⟩
      · exact ⟨rfl, rfl⟩
      · next units hunits =>
        dsimp only
        split
        · exact ⟨rfl, rfl⟩
        · exact ⟨rfl, rfl⟩
        · next text htext => exact absurd ⟨job, text, hasks, units, hunits, htext⟩ h

/-- A run of options that ask for a document delivers it. -/
theorem run_of_makes (h : o.Makes tree working job text) :
    ∃ progress, run tree working o = deliver tree job progress text := by
  obtain ⟨units, hunits, htext⟩ := h.document
  rw [run, prepare_eq_ok_iff.mpr h.toAsks]
  change ∃ progress, job.run tree = deliver tree job progress text
  rw [Job.run, hunits]
  dsimp only
  rw [htext]
  exact ⟨_, rfl⟩

private theorem deliver_of_hasPlace
    (hd : ∀ d ∈ job.directory, tree.lookAt d = .ok (some .directory)) (hplace : job.HasPlace tree)
    (progress : List String) (text : String) :
    exitCode (deliver tree job progress text) = 0 ∧
      Delivered tree job text (filesAfter tree (deliver tree job progress text)) := by
  cases hdirectory : job.directory with
  | none =>
    simp only [deliver, Delivered, hdirectory]
    exact ⟨rfl, rfl⟩
  | some directory =>
    obtain ⟨name, hname⟩ := hplace directory hdirectory
    simp only [deliver, Delivered, hdirectory, freePath_eq_ok_iff.mpr ⟨name, rfl, hname⟩]
    exact ⟨rfl, name, hname, .put (hd directory hdirectory) hname.isFree _⟩

private theorem failed_of_not_hasPlace (hplace : ¬ job.HasPlace tree) (progress : List String)
    (text : String) : Failed tree (deliver tree job progress text) := by
  cases hdirectory : job.directory with
  | none =>
    refine absurd (fun directory hd ↦ ?_) hplace
    rw [hdirectory] at hd
    cases hd
  | some directory =>
    simp only [deliver, hdirectory]
    cases hp : freePath tree directory (Files.stem job.name) job.format.suffix with
    | error e => exact ⟨rfl, rfl⟩
    | ok p =>
      obtain ⟨name, -, hname⟩ := freePath_eq_ok_iff.mp hp
      refine absurd (fun d hd ↦ ?_) hplace
      rw [hdirectory] at hd
      obtain rfl := Option.mem_some.mp hd
      exact ⟨name, hname⟩

private theorem Options.Asks.lookAt_directory (h : o.Asks tree working job) :
    ∀ d ∈ job.directory, tree.lookAt d = .ok (some .directory) := by
  intro directory hdirectory
  obtain ⟨d, -, hd⟩ := h.directory
  split at hd
  · rw [hd] at hdirectory
    cases hdirectory
  · rw [hd.1] at hdirectory
    obtain rfl := Option.mem_some.mp hdirectory
    exact hd.2

/-- A run succeeds if its options ask for a document that has a place. -/
theorem run_of_makes_of_hasPlace (h : o.Makes tree working job text) (hplace : job.HasPlace tree) :
    exitCode (run tree working o) = 0 ∧
      Delivered tree job text (filesAfter tree (run tree working o)) := by
  obtain ⟨progress, hrun⟩ := run_of_makes h
  rw [hrun]
  exact deliver_of_hasPlace h.lookAt_directory hplace progress text

/-- A run fails unless its options ask for a document that has a place. -/
theorem failed_run (h : ¬ ∃ job text, o.Makes tree working job text ∧ job.HasPlace tree) :
    Failed tree (run tree working o) := by
  by_cases hmakes : ∃ job text, o.Makes tree working job text
  · obtain ⟨job, text, hmakes⟩ := hmakes
    obtain ⟨progress, hrun⟩ := run_of_makes hmakes
    rw [hrun]
    exact failed_of_not_hasPlace (fun hplace ↦ h ⟨job, text, hmakes, hplace⟩) progress text
  · exact failed_of_not_makes hmakes

/-- A run succeeds when its options ask for a document that has a place, and for no other reason. -/
theorem exitCode_run_eq_zero_iff :
    exitCode (run tree working o) = 0 ↔
      ∃ job text, o.Makes tree working job text ∧ job.HasPlace tree := by
  constructor
  · intro hzero
    by_contra hnot
    rw [(failed_run hnot).exitCode_eq] at hzero
    cases hzero
  · rintro ⟨job, text, hmakes, hplace⟩
    exact (run_of_makes_of_hasPlace hmakes hplace).1

/-! ### Runs that are repeated -/

private theorem Options.Makes.unique (h : o.Makes tree working job text)
    (h' : o.Makes tree working job' text') : job' = job ∧ text' = text := by
  have hjob := (prepare_eq_ok_iff.mpr h'.toAsks).symm.trans (prepare_eq_ok_iff.mpr h.toAsks)
  obtain rfl := Except.ok.inj (Except.ok.inj hjob)
  obtain ⟨units, hunits, htext⟩ := h.document
  obtain ⟨units', hunits', htext'⟩ := h'.document
  obtain rfl := Except.ok.inj (hunits'.symm.trans hunits)
  exact ⟨rfl, Except.ok.inj (htext'.symm.trans htext)⟩

private theorem Options.Makes.of_adds {paths : List Absolute} {content : List UInt8}
    (h : o.Makes tree working job text) (hadds : tree.Adds tree' paths content) :
    o.Makes tree' working job text := by
  obtain ⟨d, hd, hdirectory⟩ := h.directory
  refine ⟨⟨h.input, hadds.lookAt_eq h.content, h.format, h.kind, d, hd, ?_⟩, h.document⟩
  split at hdirectory
  · next hstdout => rwa [if_pos hstdout]
  · next hstdout =>
    rw [if_neg hstdout]
    exact hdirectory.imp_right hadds.lookAt_eq

/-- The files after a number of runs with the same options. -/
def filesAfterRuns (tree : Tree) (working : Absolute) (o : Options) : Nat → Tree
  | 0 => tree
  | n + 1 =>
    let before := filesAfterRuns tree working o n
    filesAfter before (run before working o)

/-- Each of a number of runs with the same options succeeds. -/
def AllSucceed (tree : Tree) (working : Absolute) (o : Options) (n : Nat) : Prop :=
  ∀ m < n, exitCode (run (filesAfterRuns tree working o m) working o) = 0

/-- Runs that succeed add a file each, and all of them hold the document. -/
theorem exists_adds_of_allSucceed {directory : Absolute} {n : Nat}
    (h : o.Makes tree working job text) (hdirectory : job.directory = some directory)
    (hall : AllSucceed tree working o n) :
    ∃ names : List String, names.length = n ∧ names.Nodup ∧
      tree.Adds (filesAfterRuns tree working o n) (names.map (directory ++ [·]))
        text.toUTF8.toList := by
  induction n with
  | zero => exact ⟨[], rfl, List.nodup_nil, .nil tree _⟩
  | succ n ih =>
    obtain ⟨names, hlength, hnodup, hadds⟩ := ih fun m hm ↦ hall m (Nat.lt_succ_of_lt hm)
    -- The options ask for the same document still, so a run that succeeds delivers that one again.
    have hmakes := h.of_adds hadds
    obtain ⟨job', text', hmakes', hplace⟩ :=
      exitCode_run_eq_zero_iff.mp (hall n (Nat.lt_succ_self n))
    obtain ⟨rfl, rfl⟩ := hmakes.unique hmakes'
    have hdelivered := (run_of_makes_of_hasPlace hmakes hplace).2
    rw [Delivered, hdirectory] at hdelivered
    obtain ⟨name, -, hadd⟩ := hdelivered
    have hnew : name ∉ names := by
      intro hmem
      exact hadds.disjoint hadd _ List.mem_cons_self (List.mem_map_of_mem hmem)
    refine ⟨names ++ [name], ?_, ?_, ?_⟩
    · rw [List.length_append, hlength, List.length_singleton]
    · rw [← List.concat_eq_append]
      exact hnodup.concat hnew
    · rw [List.map_append]
      exact hadds.append hadd

/-- No run destroys a file. A run fails and leaves all files as they were, or it succeeds and
delivers the document of the caption file that its options ask for; it succeeds whenever there is
such a document and a place for it. The search for a free name ends by itself. Runs that are
repeated without the standard output leave as many new files as there are runs, with one content. -/
theorem runs_never_destroy_files (tree : Tree) (working : Absolute) (o : Options) :
    (Failed tree (run tree working o) ∨
      exitCode (run tree working o) = 0 ∧ ∃ job text, o.Makes tree working job text ∧
        Delivered tree job text (filesAfter tree (run tree working o))) ∧
    (exitCode (run tree working o) = 0 ↔
      ∃ job text, o.Makes tree working job text ∧ job.HasPlace tree) ∧
    (∀ directory stem suffix tries, tree.entries.length < tries →
      freePathFrom tree directory stem suffix 0 tries = freePath tree directory stem suffix) ∧
    (o.stdout = false → ∀ n, AllSucceed tree working o n →
      ∃ (directory : Absolute) (names : List String) (content : List UInt8),
        names.length = n ∧ names.Nodup ∧
          tree.Adds (filesAfterRuns tree working o n) (names.map (directory ++ [·])) content) := by
  refine ⟨?_, exitCode_run_eq_zero_iff, fun _ _ _ _ ↦ freePathFrom_eq_freePath, ?_⟩
  · by_cases h : ∃ job text, o.Makes tree working job text ∧ job.HasPlace tree
    · obtain ⟨job, text, hmakes, hplace⟩ := h
      obtain ⟨hzero, hdelivered⟩ := run_of_makes_of_hasPlace hmakes hplace
      exact .inr ⟨hzero, job, text, hmakes, hdelivered⟩
    · exact .inl (failed_run h)
  · intro hstdout n hall
    cases n with
    | zero => exact ⟨[], [], [], rfl, List.nodup_nil, .nil tree []⟩
    | succ n =>
      obtain ⟨job, text, hmakes, -⟩ := exitCode_run_eq_zero_iff.mp (hall 0 (Nat.succ_pos n))
      obtain ⟨directory, -, hdirectory⟩ := hmakes.directory
      rw [hstdout, if_neg Bool.false_ne_true] at hdirectory
      obtain ⟨names, h⟩ := exists_adds_of_allSucceed hmakes hdirectory.1 hall
      exact ⟨directory, names, _, h⟩

/-- A directory with raw pairs, the plain document of theirs and one with the number three. -/
def newsroom : Tree where
  entries := [(["d"], .directory), (["d", "news.bin"], .file [0x94, 0x20, 0xC8, 0x49, 0x94, 0x2F]),
    (["d", "news.vtt"], .file []), (["d", "news-3.vtt"], .file [])]

/-- Two runs fill the gap and go on behind it. -/
theorem runs_never_destroy_files_around_gap :
    AllSucceed newsroom ["d"] { input := "news.bin" } 2 ∧
    (filesAfterRuns newsroom ["d"] { input := "news.bin" } 2).entries.map Prod.fst =
      newsroom.entries.map Prod.fst ++ [["d", "news-2.vtt"], ["d", "news-4.vtt"]] ∧
    ∃ (directory : Absolute) (names : List String) (content : List UInt8),
      names.length = 2 ∧ names.Nodup ∧
        newsroom.Adds (filesAfterRuns newsroom ["d"] { input := "news.bin" } 2)
          (names.map (directory ++ [·])) content := by
  have hall : AllSucceed newsroom ["d"] { input := "news.bin" } 2 := by
    unfold AllSucceed
    decide +kernel
  exact ⟨hall, by decide +kernel,
    (runs_never_destroy_files newsroom ["d"] { input := "news.bin" }).2.2.2 rfl 2 hall⟩

end Line21.CommandLine
