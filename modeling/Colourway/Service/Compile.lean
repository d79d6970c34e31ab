import Colourway.Document.Rendered
import Colourway.Service.Result
import Colourway.Settings.Basic

/-!
# Compiling as a service

Documents are loaded with their imports, compiled, and written if an output is named. A batch
compiles its documents one by one; a failure of one is reported and leaves the others alone.
-/

namespace Colourway

/-- A service: the settings that it goes by, and the readers of its documents. -/
structure Service where
  /-- The settings. -/
  settings : Settings
  /-- The readers. -/
  readers : Readers

namespace Service

/-- The loader of a service. -/
def loader (s : Service) : Loader := .ofEndings s.settings.loader.extensions s.readers

/-- The compiler of a service. -/
def compiler (s : Service) : CompilerOptions := s.settings.compilerOptions

/-- The path of a source, seen from the root of the settings. -/
def source (s : Service) (path : Text) : FilePath := s.settings.root.join (.ofText path)

end Service

/-! ## Loading and compiling -/

/-- Compiles a document whose imports lie in a directory. -/
def compileLoaded (s : Service) (t : FileTree) (directory : FilePath) (main : Fields) :
    Recorded Compilation :=
  Recorded.bind
    (Recorded.span "imports" <|
      Recorded.bind
        (Recorded.lift <|
          (s.compiler.importNames main).bind (s.loader.loadLayers t directory))
        fun layers =>
          Recorded.bind (Recorded.note "count" layers.length) fun _ => Recorded.lift (.ok layers))
    fun layers => Recorded.span "resolve" (Recorded.lift (s.compiler.compile layers main))

/-- Compiles the document in a file. -/
def compileFile (s : Service) (t : FileTree) (path : FilePath) : Recorded Compilation :=
  Recorded.bind (Recorded.span "load" (Recorded.lift (s.loader.load t path)))
    fun main => compileLoaded s t path.parent main

/-! ## Results -/

/-- The result of a compilation. -/
def compiledResult (op : Text) (c : Compilation) (source output : Option FilePath) :
    ServiceResult :=
  let place (k : Text) (p : Option FilePath) : Fields :=
    (p.map fun p => (k, Document.text p.text)).toList
  let always : Fields :=
    [("name", (Fields.get? "name" c.output).getD .null),
      ("imports", .list (c.imports.map Document.text)),
      ("theme", .map c.output),
      ("palette", .map c.palette),
      ("variables", .map c.vars)]
  { ok := true
    op := op
    data := always ++ place "source" source ++ place "output" output
    warnings := if c.theme.isEmpty then ["No theme entries were resolved"] else []
    facts := some
      { counts := some
          [("palette", c.palette.length), ("variables", c.vars.length),
            ("theme", c.theme.length), ("tokens", c.store.size)] } }

/-- The message of a refusal to write. -/
def writeMessage (output : FilePath) (e : FileError) (refused : FilePath) : Text :=
  "Unable to write " ++ output.text ++ ": [Errno " ++ Number.natText e.number ++ "] " ++ e.words
    ++ ": " ++ Document.quotedText refused.text

/-! ## The calls -/

/-- The answer to a refusal to write. -/
def unwritten (op : Text) (output : FilePath) (e : FileError) (refused : FilePath) :
    Except Failure ServiceResult :=
  match e.fault? with
  | some f => .error (.fault f)
  | none =>
    .ok (.failed op ⟨.writeFailed, writeMessage output e refused, [("path", .text output.text)]⟩)

/-- Writes the output of a compilation; the result tells whether that succeeded. The tree is the one
that the attempt leaves. Where the output holds an integer of too many digits, no file is made;
where it holds a surrogate, the file is left empty. -/
def writeOutput (t : FileTree) (output : FilePath) (c : Compilation) (result : ServiceResult) :
    FileTree × Except Failure ServiceResult :=
  match (Document.map c.output).rendered? with
  | none =>
    match t.makeParents output with
    | (t, .ok ()) => (t, .error (.fault .longInteger))
    | (t, .error (e, refused)) => (t, unwritten result.op output e refused)
  | some written =>
    let bytes := written.utf8?
    match t.write output (bytes.getD .empty) with
    | (t, .ok ()) => (t, if bytes.isSome then .ok result else .error (.fault .unencodable))
    | (t, .error (e, refused)) => (t, unwritten result.op output e refused)

/-- Compiles the document at a path, and writes the result if an output is named. The tree is the
one that the call leaves. -/
def compileCall (s : Service) (t : FileTree) (path : Text) (output : Option FilePath) :
    Recorder → FileTree × Except Failure ServiceResult × Recorder := fun r =>
  let source := s.source path
  let work : Recorded (FileTree × ServiceResult) := fun r =>
    match compileFile s t source r with
    | (.ok c, r) =>
      let result := compiledResult "compile" c (some source) output
      match output with
      | none => (.ok (t, result), r)
      | some out =>
        Recorded.span "write" (fun r =>
          let (t, written) := writeOutput t out c result
          (written.map (t, ·), r)) r
    | (.error e, r) => ((ServiceResult.ofFailure "compile" e).map (t, ·), r)
  match Recorded.call "CompileService.compile" (fun span p => (p.1, p.2.withSpan span)) work r with
  | (.ok (t, result), r) => (t, .ok result, r)
  | (.error e, r) => (t, .error e, r)

/-- Compiles a document that is given with its imports, or whose imports are loaded. -/
def compileDocument (s : Service) (t : FileTree) (main : Fields)
    (imports : Option (List Layer)) (directory : Option FilePath) : Recorded ServiceResult :=
  let op := "compile_document"
  Recorded.call "CompileService.compile_document" ServiceResult.withSpan <|
    answering op
      (match imports with
        | none => compileLoaded s t (directory.getD s.settings.root) main
        | some layers => Recorded.lift (s.compiler.compile layers main))
      fun c => Recorded.lift (.ok (compiledResult op c none none))

/-- The report on one document of a batch: its data, or what went wrong. -/
def batchReport (path : Text) (r : ServiceResult) : Except Document Document :=
  match r.error with
  | none => .ok (.map r.data)
  | some e =>
    .error (.map [("source", .text path), ("code", .text e.code.text), ("error", .text e.message)])

/-- The results of compiling each path alone, without telemetry. -/
def compileEach (s : Service) (t : FileTree) : List Text →
    Except Failure (List (Text × ServiceResult))
  | [] => .ok []
  | path :: rest => do
    let (_, result, _) := compileCall s t path none {}
    let result ← result
    return (path, result) :: (← compileEach s t rest)

/-- The compiled parts of a list of reports. -/
def compiledReports (reports : List (Except Document Document)) : List Document :=
  reports.filterMap fun r => match r with
    | .ok d => some d
    | .error _ => none

/-- The failed parts of a list of reports. -/
def failedReports (reports : List (Except Document Document)) : List Document :=
  reports.filterMap fun r => match r with
    | .ok _ => none
    | .error d => some d

/-- Compiles a batch of documents. -/
def compileMany (s : Service) (t : FileTree) (paths : List Text) :
    Except Failure ServiceResult := do
  let reports := (← compileEach s t paths).map fun p => batchReport p.1 p.2
  let failed := failedReports reports
  let count (n : Nat) := Number.natText n
  return {
    ok := failed.isEmpty
    op := "compile_many"
    data := [("compiled", .list (compiledReports reports)), ("errors", .list failed)]
    error :=
      if failed.isEmpty then none
      else some ⟨.batchPartial,
        count failed.length ++ " of " ++ count paths.length ++ " themes failed", []⟩ }

end Colourway
