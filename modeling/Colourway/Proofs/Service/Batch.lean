import Colourway.Proofs.Files.Imports
import Colourway.Proofs.Service.Telemetry
import Colourway.Proofs.Theme.Faults

/-!
# Batches

A batch reports on each of its documents what compiling it alone comes to, in order, whatever
becomes of the others, as long as no document holds a fault.  A document that does is not reported:
the batch ends as compiling it alone does, and the reports on the others are lost
(**`compileMany_reports`**).

* `Settings.limit_of_check` — settings that passed their check allow for steps.
* `Recorded.Gives` — work that comes to the same, whatever is recorded of it.
* `Service.Escapes` — all faults that a document can hold, from its path to its output.
* `compileMany_eq` — a batch as a row of reports.
-/

namespace Colourway

/-! ## Settings that are checked -/

namespace Check

/-- What is read as a positive integer is positive, as the default is. -/
theorem one_le_positive (place : Path) {default : Int} (h : 1 ≤ default) (d : Option Document) :
    1 ≤ (positive place default d).1 := by
  have hbounded : ∀ n : Int,
      1 ≤ (if n < 1 then (default, [⟨place, .tooSmall⟩]) else (n, []) : Checked Int).1 := by
    intro n
    split
    · exact h
    · next hn => exact Int.not_lt.mp hn
  unfold positive
  cases d with
  | none => exact h
  | some d =>
    dsimp only
    split
    · exact hbounded _
    · exact hbounded _
    · split
      · exact hbounded _
      · exact h
    · split
      · exact hbounded _
      · exact h
    · exact h

theorem one_le_maxIterations (d : Option Document) (place : Path) :
    1 ≤ (sectionOf place {} compiler d).1.maxIterations := by
  have hdefault : 1 ≤ ({} : CompilerSettings).maxIterations := by decide
  cases d with
  | none => exact hdefault
  | some d =>
    cases d with
    | map fields => exact one_le_positive _ hdefault _
    | _ => exact hdefault

end Check

/-- Settings that passed their check let a compilation take steps. -/
theorem Settings.limit_of_check {root : FilePath} {configPath : Option FilePath} {fields : Fields}
    {s : Settings} (h : Settings.check root configPath fields = .ok s) :
    1 ≤ s.compiler.maxIterations := by
  unfold check at h
  dsimp only at h
  split at h
  · cases h
  · split at h
    · cases h
      exact Check.one_le_maxIterations _ _
    · cases h

/-! ## What is recorded does not matter -/

namespace Recorded

variable {α β : Type}

/-- Work that comes to a result whatever is recorded. -/
def Gives (work : Recorded α) (result : Except Failure α) : Prop := ∀ r, (work r).1 = result

theorem gives_lift (result : Except Failure α) : Gives (lift result) result := fun _ => rfl

theorem gives_note (key : Text) (value : Int) : Gives (note key value) (.ok ()) := fun _ => rfl

theorem Gives.span {work : Recorded α} {result : Except Failure α} (h : Gives work result)
    (name : Text) : Gives (span name work) result := by
  intro r
  unfold Recorded.span
  split
  · exact h (r.enter name)
  · exact h r

theorem Gives.bind {first : Recorded α} {next : α → Recorded β} {result : Except Failure α}
    {results : α → Except Failure β} (h : Gives first result)
    (hnext : ∀ a, Gives (next a) (results a)) : Gives (bind first next) (result >>= results) := by
  intro r
  rw [← h r]
  unfold Recorded.bind
  rcases first r with ⟨e | a, r'⟩
  · rfl
  · exact hnext a r'

/-- A call comes to what its work comes to, or to this with the span of the call. -/
theorem Gives.call {work : Recorded α} {result : Except Failure α} (h : Gives work result)
    (name : Text) (attach : Span → α → α) (r : Recorder) :
    (call name attach work r).1 = result ∨
      ∃ span, (call name attach work r).1 = result.map (attach span) := by
  unfold Recorded.call
  split
  · let inner := work { r with stack := [{ name := name }] }
    refine .inr ⟨inner.2.stack.getLast?.getD { name := name }, ?_⟩
    rw [← h { r with stack := [{ name := name }] }]
  · exact .inl (h r)

end Recorded

/-! ## One document -/

section Document

variable (s : Service) (t : FileTree)

/-- The document in a file and the layers that it imports. -/
def loadedFrom (path : FilePath) : Except Failure (Fields × List Layer) := do
  let main ← s.loader.load t path
  let layers ← importedLayers s t path.parent main
  return (main, layers)

/-- What compiling the document in a file comes to. -/
def compilationOf (path : FilePath) : Except Failure Compilation := do
  let (main, layers) ← loadedFrom s t path
  s.compiler.compile layers main

theorem compileFile_gives (path : FilePath) :
    (compileFile s t path).Gives (compilationOf s t path) := by
  have hlayers : ∀ layers : List Layer,
      (Recorded.bind (Recorded.note "count" layers.length) fun _ =>
        Recorded.lift (.ok layers)).Gives (.ok layers) :=
    fun layers => (Recorded.gives_note _ _).bind fun _ => Recorded.gives_lift _
  have hloaded : ∀ main : Fields, (compileLoaded s t path.parent main).Gives
      ((importedLayers s t path.parent main >>= Except.ok) >>= fun layers =>
        s.compiler.compile layers main) :=
    fun main => (((Recorded.gives_lift _).bind hlayers).span "imports").bind fun layers =>
      (Recorded.gives_lift (s.compiler.compile layers main)).span "resolve"
  intro r
  refine (((Recorded.gives_lift _).span "load").bind hloaded r).trans ?_
  unfold compilationOf loadedFrom
  cases s.loader.load t path with
  | error e => rfl
  | ok main =>
    change (importedLayers s t path.parent main >>= Except.ok) >>= _ =
      (importedLayers s t path.parent main >>= _) >>= _
    cases importedLayers s t path.parent main <;> rfl

/-- What the call that compiles a document answers, without facts about the call. -/
def answerTo (path : Text) : Except Failure ServiceResult :=
  match compilationOf s t (s.source path) with
  | .ok c => .ok (compiledResult "compile" c (some (s.source path)) none)
  | .error e => ServiceResult.ofFailure "compile" e

/-- The work of the call that compiles a document and does not write it. -/
def compileWork (path : Text) : Recorded (FileTree × ServiceResult) := fun r =>
  match compileFile s t (s.source path) r with
  | (.ok c, r) => (.ok (t, compiledResult "compile" c (some (s.source path)) none), r)
  | (.error e, r) => ((ServiceResult.ofFailure "compile" e).map (t, ·), r)

theorem compileWork_gives (path : Text) :
    (compileWork s t path).Gives ((answerTo s t path).map (t, ·)) := by
  intro r
  rw [answerTo, ← compileFile_gives s t (s.source path) r, compileWork]
  rcases compileFile s t (s.source path) r with ⟨e | c, r'⟩ <;> rfl

/-- The call that compiles a document and does not write it. -/
def compileAlone (path : Text) : Recorded (FileTree × ServiceResult) :=
  Recorded.call "CompileService.compile" (fun span p => (p.1, p.2.withSpan span))
    (compileWork s t path)

theorem compileCall_none (r : Recorder) (path : Text) :
    (compileCall s t path none r).2.1 = (compileAlone s t path r).1.map Prod.snd := by
  have hwork : (compiling s t path none).run = compileWork s t path := run_compiling s t path none
  rw [compileCall_answer, compileAlone, ← hwork]
  rfl

/-- Whatever is recorded, a call answers the same but for the facts about the call. -/
theorem compileCall_eq (r : Recorder) (path : Text) :
    ∃ facts : ServiceResult → Option ResultMeta, (compileCall s t path none r).2.1 =
      (answerTo s t path).map fun answer => { answer with facts := facts answer } := by
  rw [compileCall_none]
  rcases (compileWork_gives s t path).call "CompileService.compile"
    (fun span p => (p.1, p.2.withSpan span)) r with h | ⟨span, h⟩
  · refine ⟨ServiceResult.facts, ?_⟩
    rw [compileAlone, h]
    cases answerTo s t path <;> rfl
  · refine ⟨fun answer => (answer.withSpan span).facts, ?_⟩
    rw [compileAlone, h]
    cases answerTo s t path <;> rfl

/-- So a document is reported in the same way whatever is recorded. -/
theorem report_compileCall (r : Recorder) (path : Text) :
    ((compileCall s t path none r).2.1).map (batchReport path) =
      (answerTo s t path).map (batchReport path) := by
  obtain ⟨facts, h⟩ := compileCall_eq s t r path
  rw [h]
  cases answerTo s t path <;> rfl

/-- The import declaration of a document, if it has one. -/
def importDeclaration (main : Fields) : Option Document :=
  (Assoc.get? s.compiler.config main).bind (Document.field? "import")

/-- All faults that a document can hold, seen from the path of its file. -/
inductive Service.Escapes (path : FilePath) : Fault → Prop
  /-- The document cannot be read. -/
  | document {f : Fault} (unreadable : s.loader.Unreadable t path f) : Escapes path f
  /-- Its import declaration holds an integer of too many digits. -/
  | declaration {main : Fields} {d : Document} (read : s.loader.load t path = .ok main)
      (declared : importDeclaration s main = some d) (long : d.HoldsLong) :
      Escapes path .longInteger
  /-- The first import that is not loaded cannot be found or read. -/
  | imports {main : Fields} {before after : List Text} {name : Text} {f : Fault}
      (read : s.loader.load t path = .ok main)
      (names : s.compiler.importNames main = .ok (before ++ name :: after))
      (earlier : ∀ earlier ∈ before, ∃ layer, s.loader.loadImport t path.parent earlier = .ok layer)
      (lost : s.loader.LostImport t path.parent name f) : Escapes path f
  /-- A carry mark stands for an integer of too many digits. -/
  | carried {main : Fields} {layers : List Layer}
      (loaded : loadedFrom s t path = .ok (main, layers))
      (stops : s.compiler.StopsAt (allLayers layers main)) : Escapes path .longInteger
  /-- Resolution stops over a text that it came to: over a call that the colour arithmetic neither
  evaluates nor refuses, or over a reference to an integer of too many digits. -/
  | step {main : Fields} {layers : List Layer} {c : Composition} {scope : Scope} {value : Text}
      {f : Fault} (loaded : loadedFrom s t path = .ok (main, layers))
      (composed : s.compiler.compose layers main = .ok c)
      (fails : s.compiler.compile layers main = .error (.fault f))
      (came : s.compiler.CameTo c scope value)
      (stops : s.compiler.resolver.StopsOver scope (s.compiler.storeAfter c scope) value f) :
      Escapes path f
  /-- The theme shares its name with the palette or the variables, and is a list that cannot be
  assembled. -/
  | list {main : Fields} {layers : List Layer} {c : Composition} {items : List Document}
      (loaded : loadedFrom s t path = .ok (main, layers))
      (composed : s.compiler.compose layers main = .ok c)
      (fails : s.compiler.compile layers main = .error (.fault .listForMap))
      (list : c.fields.get? s.compiler.names.theme = some (.list items))
      (shared : s.compiler.names.theme = s.compiler.names.palette ∨
        s.compiler.names.theme = s.compiler.names.vars) :
      Escapes path .listForMap

variable {s t}

/-- A document that is not loaded with its layers over a fault cannot be read, or its imports cannot
be named, found or read. -/
theorem escapes_of_loadedFrom {path : FilePath} {f : Fault}
    (h : loadedFrom s t path = .error (.fault f)) : s.Escapes t path f := by
  rcases bind_eq_error_iff.mp h with hread | ⟨main, hread, hload⟩
  · exact .document (Loader.load_fault_iff.mp hread)
  rcases bind_eq_error_iff.mp hload with himported | ⟨layers, -, hdone⟩
  · rcases bind_eq_error_iff.mp himported with hnames | ⟨names, hnames, hlayers⟩
    · obtain ⟨rfl, d, hdeclared, hlong⟩ := importList_fault_iff.mp hnames
      exact .declaration hread hdeclared hlong
    · obtain ⟨before, name, after, rfl, hbefore, hlost⟩ := Loader.loadLayers_fault_iff.mp hlayers
      exact .imports hread hnames hbefore hlost
  · cases hdone

/-- **Which faults compiling a document ends in.** -/
theorem compilationOf_fault_iff (limit : 1 ≤ s.settings.compiler.maxIterations) {path : FilePath}
    {f : Fault} : compilationOf s t path = .error (.fault f) ↔ s.Escapes t path f := by
  constructor
  · intro h
    rcases bind_eq_error_iff.mp h with hload | ⟨⟨main, layers⟩, hloaded, hcompile⟩
    · exact escapes_of_loadedFrom hload
    · rcases CompilerOptions.compile_fault limit hcompile with ⟨rfl, hstops⟩ | ⟨c, hcomposed, hover⟩
      · exact .carried hloaded hstops
      rcases hover with ⟨scope, value, hcame, hover⟩ | ⟨rfl, ⟨items, hitems⟩, hshared⟩
      · exact .step hloaded hcomposed hcompile hcame hover
      · exact .list hloaded hcomposed hcompile hitems hshared
  · intro h
    have unloaded : loadedFrom s t path = .error (.fault f) →
        compilationOf s t path = .error (.fault f) := fun h => bind_eq_error_iff.mpr (.inl h)
    have behind : ∀ {main : Fields}, s.loader.load t path = .ok main →
        importedLayers s t path.parent main = .error (.fault f) →
        loadedFrom s t path = .error (.fault f) := fun read h =>
      bind_eq_error_iff.mpr (.inr ⟨_, read, bind_eq_error_iff.mpr (.inl h)⟩)
    have uncompiled : ∀ {main : Fields} {layers : List Layer},
        loadedFrom s t path = .ok (main, layers) →
        s.compiler.compile layers main = .error (.fault f) →
        compilationOf s t path = .error (.fault f) := fun loaded h =>
      bind_eq_error_iff.mpr (.inr ⟨_, loaded, h⟩)
    cases h with
    | document unreadable =>
      exact unloaded (bind_eq_error_iff.mpr (.inl (Loader.load_fault_iff.mpr unreadable)))
    | declaration read declared long =>
      have hnames := importList_fault_iff.mpr ⟨rfl, _, declared, long⟩
      exact unloaded (behind read (bind_eq_error_iff.mpr (.inl hnames)))
    | imports read names earlier lost =>
      refine unloaded (behind read (bind_eq_error_iff.mpr (.inr ⟨_, names, ?_⟩)))
      exact Loader.loadLayers_fault_iff.mpr ⟨_, _, _, rfl, earlier, lost⟩
    | carried loaded stops => exact uncompiled loaded (CompilerOptions.compile_of_stopsAt stops)
    | step loaded _ fails => exact uncompiled loaded fails
    | list loaded _ fails => exact uncompiled loaded fails

/-- **Which documents are not answered.** -/
theorem compileCall_error_iff (limit : 1 ≤ s.settings.compiler.maxIterations) (r : Recorder)
    {path : Text} {f : Failure} : (compileCall s t path none r).2.1 = .error f ↔
      ∃ cause, s.Escapes t (s.source path) cause ∧ f = .fault cause := by
  rw [← map_eq_error_iff (f := batchReport path), report_compileCall, map_eq_error_iff]
  simp only [← compilationOf_fault_iff limit, answerTo]
  cases compilationOf s t (s.source path) with
  | ok c => simp
  | error e => cases e <;> simp [ServiceResult.ofFailure, eq_comm]

/-- A document that is answered is compiled, or there is an error. -/
theorem ok_eq_isNone {r : Recorder} {path : Text} {alone : ServiceResult}
    (h : (compileCall s t path none r).2.1 = .ok alone) : alone.ok = alone.error.isNone := by
  obtain ⟨facts, hcall⟩ := compileCall_eq s t r path
  obtain ⟨answer, hanswer, rfl⟩ := map_eq_ok_iff.mp (hcall.symm.trans h)
  change answer.ok = answer.error.isNone
  rw [answerTo] at hanswer
  cases hcompile : compilationOf s t (s.source path) with
  | ok c =>
    rw [hcompile] at hanswer
    cases hanswer
    rfl
  | error e =>
    rw [hcompile] at hanswer
    cases e with
    | error cause =>
      cases hanswer
      rfl
    | fault cause => cases hanswer

end Document

/-! ## Batches -/

/-- The record of a document that was not compiled. -/
def errorRecord (path : Text) (e : ServiceError) : Document :=
  .map [("source", .text path), ("code", .text e.code.text), ("error", .text e.message)]

/-- The result of a batch of so many documents with some reports. -/
def batchResult (n : Nat) (reports : List (Except Document Document)) : ServiceResult :=
  { ok := (failedReports reports).isEmpty
    op := "compile_many"
    data := [("compiled", .list (compiledReports reports)),
      ("errors", .list (failedReports reports))]
    error :=
      if (failedReports reports).isEmpty then none
      else some ⟨.batchPartial,
        Number.natText (failedReports reports).length ++ " of " ++ Number.natText n ++
          " themes failed", []⟩ }

section Batch

variable (s : Service) (t : FileTree)

/-- **A batch is a row of reports**, whatever is recorded. -/
theorem compileMany_eq (r : Recorder) (paths : List Text) :
    compileMany s t paths =
      (paths.mapM fun path => ((compileCall s t path none r).2.1).map (batchReport path)).map
        (batchResult paths.length) := by
  have hrow : ∀ paths : List Text,
      (compileEach s t paths).map (·.map fun p => batchReport p.1 p.2) =
        paths.mapM fun path => ((compileCall s t path none r).2.1).map (batchReport path) := by
    intro paths
    induction paths with
    | nil => rfl
    | cons path rest ih =>
      rw [List.mapM_cons, ← ih, report_compileCall, ← report_compileCall s t {} path]
      have hcons : compileEach s t (path :: rest) =
          (compileCall s t path none {}).2.1 >>= fun result =>
            compileEach s t rest >>= fun more => .ok ((path, result) :: more) := rfl
      rw [hcons]
      cases (compileCall s t path none {}).2.1 with
      | error e => rfl
      | ok result => cases compileEach s t rest <;> rfl
  rw [← hrow]
  unfold compileMany
  cases compileEach s t paths <;> rfl

variable {s t}

/-- The reports on documents that are all answered. -/
theorem mapM_report_of_answers {r : Recorder} {paths : List Text} {results : List ServiceResult}
    (answers : List.Forall₂ (fun path alone => (compileCall s t path none r).2.1 = .ok alone)
      paths results) :
    (paths.mapM fun path => ((compileCall s t path none r).2.1).map (batchReport path)) =
      .ok ((paths.zip results).map fun row => batchReport row.1 row.2) := by
  refine (mapM_eq_ok_iff paths).mpr ?_
  induction answers with
  | nil => exact .nil
  | cons h _ ih => exact .cons (by rw [h]; rfl) ih

/-- What the result of a batch tells of documents that come to `results` when they are compiled
alone. -/
structure ReportsOn (paths : List Text) (results : List ServiceResult)
    (compiled errors : List Document) (result : ServiceResult) : Prop where
  /-- The result consists of two lists. -/
  lists : result.data = ([("compiled", .list compiled), ("errors", .list errors)] : Fields)
  /-- One holds the data of the documents that were compiled, in order. -/
  data : compiled =
    ((paths.zip results).filter fun row => row.2.ok).map fun row => .map row.2.data
  /-- The other one holds a record of the error of each other document, in order. -/
  records : List.Forall₂ (fun row record => ∃ e, row.2.error = some e ∧
    record = errorRecord row.1 e) ((paths.zip results).filter fun row => !row.2.ok) errors
  /-- No path is left out, and none is told of twice. -/
  counted : compiled.length + errors.length = paths.length
  /-- A batch without errors is a success. -/
  ok : result.ok = true ↔ errors = []

/-- The data and the records in the reports on some rows. -/
theorem reports_of_rows {rows : List (Text × ServiceResult)}
    (either : ∀ row ∈ rows, row.2.ok = row.2.error.isNone) :
    compiledReports (rows.map fun row => batchReport row.1 row.2) =
      (rows.filter fun row => row.2.ok).map (fun row => .map row.2.data) ∧
    List.Forall₂ (fun row record => ∃ e, row.2.error = some e ∧ record = errorRecord row.1 e)
      (rows.filter fun row => !row.2.ok)
      (failedReports (rows.map fun row => batchReport row.1 row.2)) := by
  induction rows with
  | nil => exact ⟨rfl, .nil⟩
  | cons row rest ih =>
    obtain ⟨hrow, hrest⟩ := List.forall_mem_cons.mp either
    obtain ⟨hcompiled, hfailed⟩ := ih hrest
    rw [List.map_cons, List.filter_cons, List.filter_cons, hrow]
    cases herror : row.2.error with
    | none =>
      have hreport : batchReport row.1 row.2 = .ok (.map row.2.data) := by
        rw [batchReport, herror]
      rw [hreport]
      exact ⟨congrArg (Document.map row.2.data :: ·) hcompiled, hfailed⟩
    | some e =>
      have hreport : batchReport row.1 row.2 = .error (errorRecord row.1 e) := by
        rw [batchReport, herror]
        rfl
      rw [hreport]
      exact ⟨hcompiled, .cons ⟨e, herror, rfl⟩ hfailed⟩

theorem reportsOn_batchResult {r : Recorder} {paths : List Text} {results : List ServiceResult}
    (answers : List.Forall₂ (fun path alone => (compileCall s t path none r).2.1 = .ok alone)
      paths results) :
    ReportsOn paths results
      (compiledReports ((paths.zip results).map fun row => batchReport row.1 row.2))
      (failedReports ((paths.zip results).map fun row => batchReport row.1 row.2))
      (batchResult paths.length ((paths.zip results).map fun row => batchReport row.1 row.2)) := by
  obtain ⟨hdata, hrecords⟩ := reports_of_rows fun row hrow =>
    ok_eq_isNone (List.forall₂_zip answers (a := row.1) (b := row.2) hrow)
  refine ⟨rfl, hdata, hrecords, ?_, List.isEmpty_iff⟩
  have hrows : (paths.zip results).length = paths.length := by
    rw [List.length_zip, ← answers.length_eq, Nat.min_self]
  rw [hdata, ← hrecords.length_eq, List.length_map, ← hrows]
  exact (List.length_eq_length_filter_add _).symm

/-- A document that holds no fault is answered when it is compiled alone, and no other one is. -/
theorem answered_iff (limit : 1 ≤ s.settings.compiler.maxIterations) (r : Recorder) (path : Text) :
    (∃ alone, (compileCall s t path none r).2.1 = .ok alone) ↔
      ∀ cause, ¬ s.Escapes t (s.source path) cause := by
  have hiff (f : Failure) : (compileCall s t path none r).2.1 = .error f ↔
      ∃ cause, s.Escapes t (s.source path) cause ∧ f = .fault cause :=
    compileCall_error_iff limit r
  cases hcall : (compileCall s t path none r).2.1 with
  | ok alone =>
    refine iff_of_true ⟨alone, rfl⟩ fun cause hescapes => ?_
    cases hcall.symm.trans ((hiff _).mpr ⟨cause, hescapes, rfl⟩)
  | error f =>
    obtain ⟨cause, hescapes, -⟩ := (hiff f).mp hcall
    exact iff_of_false (by simp) fun hnone => hnone cause hescapes

/-- **A batch reports on each document what compiling it alone comes to.**  Compiling a document
alone gives no answer exactly if the document holds a fault.  A batch gives none exactly if one of
its documents holds a fault, and ends in that of the first.  Otherwise its result tells, in the
order of the paths, the data of the documents that are compiled alone and the error of each other
one. -/
theorem compileMany_reports (limit : 1 ≤ s.settings.compiler.maxIterations) (r : Recorder)
    (paths : List Text) :
    (∀ path f, (compileCall s t path none r).2.1 = .error f ↔
      ∃ cause, s.Escapes t (s.source path) cause ∧ f = .fault cause) ∧
    (∀ f, compileMany s t paths = .error f ↔ ∃ before path after, paths = before ++ path :: after ∧
      (∀ earlier ∈ before, ∀ cause, ¬ s.Escapes t (s.source earlier) cause) ∧
      ∃ cause, s.Escapes t (s.source path) cause ∧ f = .fault cause) ∧
    ((∀ path ∈ paths, ∀ cause, ¬ s.Escapes t (s.source path) cause) →
      ∃ results result compiled errors,
        List.Forall₂ (fun path alone => (compileCall s t path none r).2.1 = .ok alone)
          paths results ∧
        compileMany s t paths = .ok result ∧
        ReportsOn paths results compiled errors result) := by
  refine ⟨fun path f => compileCall_error_iff limit r, fun f => ?stops, fun hnone => ?reports⟩
  case stops =>
    have hreported : ∀ path, (∃ report, ((compileCall s t path none r).2.1).map
        (batchReport path) = .ok report) ↔ ∀ cause, ¬ s.Escapes t (s.source path) cause := by
      intro path
      rw [← answered_iff limit r]
      cases (compileCall s t path none r).2.1 <;> simp [Except.map]
    rw [compileMany_eq s t r, map_eq_error_iff, mapM_eq_error_iff]
    simp only [map_eq_error_iff, compileCall_error_iff limit, hreported]
  case reports =>
    -- Every document is answered, so every one is reported.
    obtain ⟨results, answers⟩ := exists_results fun path hpath =>
      (answered_iff limit r path).mpr (hnone path hpath)
    refine ⟨results, _, _, _, answers, ?_, reportsOn_batchResult answers⟩
    rw [compileMany_eq s t r, mapM_report_of_answers answers]
    rfl

end Batch

/-- A directory with an empty document, and with a file of one byte that no text has. -/
def twoFiles : FileTree :=
  ⟨[("a.json", .file ⟨#[0x7b, 0x7d]⟩), ("b.json", .file ⟨#[0xff]⟩)], []⟩

/-- The service that has that directory as its root. -/
def atRoot : Service := ⟨{ root := ⟨1, []⟩ }, .builtIn⟩

set_option maxRecDepth 10000 in
/-- An empty document is compiled although the other one does not exist. -/
theorem missing_document_reported :
    Settings.check ⟨1, []⟩ none [] = .ok atRoot.settings ∧
    (∀ path ∈ (["a.json", "c.json"] : List Text), ∀ cause,
      ¬ atRoot.Escapes twoFiles (atRoot.source path) cause) ∧
    ∃ results result compiled errors,
      List.Forall₂ (fun path alone => (compileCall atRoot twoFiles path none {}).2.1 = .ok alone)
        ["a.json", "c.json"] results ∧
      compileMany atRoot twoFiles ["a.json", "c.json"] = .ok result ∧
      ReportsOn ["a.json", "c.json"] results compiled errors result := by
  have checked : Settings.check ⟨1, []⟩ none [] = .ok atRoot.settings := rfl
  have limit : 1 ≤ atRoot.settings.compiler.maxIterations := Settings.limit_of_check checked
  obtain ⟨alone, -, batch⟩ := compileMany_reports (s := atRoot) (t := twoFiles) limit {}
    ["a.json", "c.json"]
  have answered : ∀ path ∈ (["a.json", "c.json"] : List Text),
      (compileCall atRoot twoFiles path none {}).2.1.isOk = true := by decide +kernel
  have none_escapes : ∀ path ∈ (["a.json", "c.json"] : List Text), ∀ cause,
      ¬ atRoot.Escapes twoFiles (atRoot.source path) cause := by
    intro path hpath cause hescapes
    have hok := answered path hpath
    rw [(alone path _).mpr ⟨cause, hescapes, rfl⟩] at hok
    cases hok
  exact ⟨checked, none_escapes, batch none_escapes⟩

set_option maxRecDepth 10000 in
/-- A file that is no text suppresses the report on a document that is compiled alone. -/
theorem undecodable_file_stops_batch :
    (compileCall atRoot twoFiles "a.json" none {}).2.1.isOk = true ∧
      ¬ ∃ result, compileMany atRoot twoFiles ["a.json", "b.json"] = .ok result := by
  refine ⟨by decide +kernel, ?_⟩
  rintro ⟨result, h⟩
  have hfails : (compileMany atRoot twoFiles ["a.json", "b.json"]).isOk = false := by
    decide +kernel
  rw [h] at hfails
  cases hfails

end Colourway
