import Colourway.Proofs.Service.Spans
import Colourway.Service.Compile

/-!
# The spans of compiling a document

The call that compiles a document is a call tree, so its span can be told from the tree: the stages
that the call came to stand in it, in order, whether the document was compiled or not
(**`compileCall_telemetry`**).

* `Work.Passes` — the blocks that work enters, and how it ends.
* `compileTree` — the call as a tree, with `compileCall_answer`.
-/

namespace Colourway

/-- Work that enters blocks of these names, and ends in this way. -/
structure Work.Passes {α : Type} (w : Work α) (names : List Text) (ending : Except Failure α) :
    Prop where
  /-- How it ends. -/
  ending : w.account.ending = ending
  /-- The blocks right under the current span. -/
  names : w.account.entered.map Span.name = names

namespace Work.Passes

variable {α β : Type}

theorem trans {w : Work α} {names : List Text} {ending other : Except Failure α}
    (h : Passes w names ending) (hother : ending = other) : Passes w names other := hother ▸ h

theorem lift (ending : Except Failure α) : Passes (.lift ending) [] ending := ⟨rfl, rfl⟩

theorem block {body : Work α} {ending : Except Failure α} (h : body.account.ending = ending)
    (name : Text) : Passes (.block name body) [name] ending := ⟨h, rfl⟩

theorem after {first : Work α} {next : Except Failure α → Work β} {names more : List Text}
    {ending : Except Failure α} {last : Except Failure β} (h : Passes first names ending)
    (hnext : Passes (next ending) more last) : Passes (first.after next) (names ++ more) last := by
  obtain ⟨rfl, rfl⟩ := h
  exact ⟨hnext.ending, List.map_append.trans (congrArg _ hnext.names)⟩

theorem bind_ok {first : Work α} {next : α → Work β} {names more : List Text} {a : α}
    {last : Except Failure β} (h : Passes first names (.ok a)) (hnext : Passes (next a) more last) :
    Passes (first.bind next) (names ++ more) last := h.after hnext

theorem bind_error {first : Work α} {next : α → Work β} {names : List Text} {e : Failure}
    (h : Passes first names (.error e)) : Passes (first.bind next) names (.error e) := by
  rw [← names.append_nil]
  exact h.after (Passes.lift (.error e))

end Work.Passes

section Document

variable (s : Service) (t : FileTree)

/-! ## The call as a tree -/

/-- The layers that a document imports. -/
def importedLayers (directory : FilePath) (main : Fields) : Except Failure (List Layer) :=
  (s.compiler.importNames main).bind (s.loader.loadLayers t directory)

/-- Loads the layers that a document imports, and notes how many there are. -/
def importing (directory : FilePath) (main : Fields) : Work (List Layer) :=
  .block "imports" <|
    .bind (.lift (importedLayers s t directory main)) fun layers =>
      .bind (.note "count" layers.length) fun _ => .lift (.ok layers)

/-- Compiles a document with its layers. -/
def resolving (main : Fields) (layers : List Layer) : Work Compilation :=
  .block "resolve" (.lift (s.compiler.compile layers main))

/-- Compiles the document in a file. -/
def compilingFile (path : FilePath) : Work Compilation :=
  .bind (.block "load" (.lift (s.loader.load t path))) fun main =>
    (importing s t path.parent main).bind (resolving s main)

/-- Answers, and writes the result if there is one and an output is named. -/
def responding (path : Text) (output : Option FilePath) :
    Except Failure Compilation → Work (FileTree × ServiceResult)
  | .ok c =>
    let result := compiledResult "compile" c (some (s.source path)) output
    match output with
    | none => .lift (.ok (t, result))
    | some out =>
      let written := writeOutput t out c result
      .block "write" (.lift (written.2.map (written.1, ·)))
  | .error e => .lift ((ServiceResult.ofFailure "compile" e).map (t, ·))

/-- Compiles the document at a path, and answers. -/
def compiling (path : Text) (output : Option FilePath) : Work (FileTree × ServiceResult) :=
  (compilingFile s t (s.source path)).after (responding s t path output)

/-- The call that compiles a document. -/
def compileTree (path : Text) (output : Option FilePath) : Work (FileTree × ServiceResult) :=
  .call "CompileService.compile" (fun span p => (p.1, p.2.withSpan span))
    (compiling s t path output)

theorem run_compilingFile (path : FilePath) :
    (compilingFile s t path).run = compileFile s t path := by
  simp only [compilingFile, importing, resolving, Work.run_bind, Work.run]
  rfl

theorem run_compiling (path : Text) (output : Option FilePath) :
    (compiling s t path output).run = fun r =>
      match compileFile s t (s.source path) r with
      | (.ok c, r) =>
        let result := compiledResult "compile" c (some (s.source path)) output
        match output with
        | none => (.ok (t, result), r)
        | some out =>
          Recorded.span "write" (fun r =>
            let (t, written) := writeOutput t out c result
            (written.map (t, ·), r)) r
      | (.error e, r) => ((ServiceResult.ofFailure "compile" e).map (t, ·), r) := by
  funext r
  rw [← run_compilingFile]
  change (responding s t path output ((compilingFile s t (s.source path)).run r).1).run
    ((compilingFile s t (s.source path)).run r).2 = _
  rcases (compilingFile s t (s.source path)).run r with ⟨e | c, r'⟩
  · rfl
  · cases output <;> rfl

/-- The call answers what its tree does. -/
theorem compileCall_answer (path : Text) (output : Option FilePath) (r : Recorder) :
    (compileCall s t path output r).2.1 =
      ((compileTree s t path output).run r).1.map Prod.snd := by
  have htree : (compileTree s t path output).run r =
      Recorded.call "CompileService.compile" (fun span p => (p.1, p.2.withSpan span))
        (compiling s t path output).run r := rfl
  rw [run_compiling] at htree
  unfold compileCall
  dsimp only
  split
  · next t' result r' hcall =>
    rw [htree.trans hcall]
    rfl
  · next e r' hcall =>
    rw [htree.trans hcall]
    rfl

/-! ## Its stages -/

/-- The stages of a compilation, in order. -/
def stages : List Text := ["load", "imports", "resolve", "write"]

theorem importing_passes (directory : FilePath) (main : Fields) :
    (importing s t directory main).Passes ["imports"] (importedLayers s t directory main) := by
  refine Work.Passes.block ?_ "imports"
  cases himported : importedLayers s t directory main <;> rfl

/-- A document is compiled in three stages, if none of them fails. -/
theorem compilingFile_passes (path : FilePath) :
    (∃ n e, (compilingFile s t path).Passes (stages.take n) (.error e)) ∨
      ∃ c, (compilingFile s t path).Passes (stages.take 3) (.ok c) := by
  have hload : (Work.block "load" (.lift (s.loader.load t path))).Passes ["load"]
      (s.loader.load t path) := .block rfl "load"
  cases hmain : s.loader.load t path with
  | error e => exact .inl ⟨1, e, (hload.trans hmain).bind_error⟩
  | ok main =>
    have himports := importing_passes s t path.parent main
    cases hlayers : importedLayers s t path.parent main with
    | error e =>
      exact .inl ⟨2, e, (hload.trans hmain).bind_ok (himports.trans hlayers).bind_error⟩
    | ok layers =>
      have hresolve : (resolving s main layers).Passes ["resolve"]
          (s.compiler.compile layers main) := .block rfl "resolve"
      have hall : (compilingFile s t path).Passes (stages.take 3)
          (s.compiler.compile layers main) :=
        (hload.trans hmain).bind_ok ((himports.trans hlayers).bind_ok hresolve)
      cases hcompile : s.compiler.compile layers main with
      | error e => exact .inl ⟨3, e, hall.trans hcompile⟩
      | ok c => exact .inr ⟨c, hall.trans hcompile⟩

/-- The call comes to some of the stages, and to all of them if it succeeds: to the last one only if
an output is named. -/
theorem compiling_passes (path : Text) (output : Option FilePath) :
    ∃ n ending, (compiling s t path output).Passes (stages.take n) ending ∧
      ∀ written answer, ending = .ok (written, answer) → answer.ok = true →
        n = if output.isSome then 4 else 3 := by
  rcases compilingFile_passes s t (s.source path) with ⟨n, e, hfails⟩ | ⟨c, hcompiles⟩
  · refine ⟨n, (ServiceResult.ofFailure "compile" e).map (t, ·), ?_, ?_⟩
    · have hanswers : (responding s t path output (.error e)).Passes []
          ((ServiceResult.ofFailure "compile" e).map (t, ·)) := .lift _
      rw [← (stages.take n).append_nil]
      exact hfails.after hanswers
    · intro written answer hanswer hok
      cases e with
      | error cause =>
        cases hanswer
        cases hok
      | fault cause => cases hanswer
  · cases output with
    | none =>
      have hanswers : (responding s t path none (.ok c)).Passes [] _ := .lift _
      exact ⟨3, _, hcompiles.after hanswers, by simp⟩
    | some out =>
      have hwrites : (responding s t path (some out) (.ok c)).Passes ["write"] _ :=
        .block rfl "write"
      exact ⟨4, _, hcompiles.after hwrites, by simp⟩

/-- **The span of a compilation holds its stages.**  With recording enabled, the answer to a call
that compiles a document carries the span of the call.  The blocks in it are the stages that the
call came to, in order, whatever it answers; after a success they are all there. -/
theorem compileCall_telemetry {path : Text} {output : Option FilePath} {r : Recorder}
    (enabled : r.enabled = true) {result : ServiceResult}
    (answered : (compileCall s t path output r).2.1 = .ok result) :
    ∃ span, result.facts.bind ResultMeta.telemetry = some span ∧
      span.name = "CompileService.compile" ∧
      span.children.map Span.name <+: stages ∧
      (result.ok = true →
        span.children.map Span.name = stages.take (if output.isSome then 4 else 3)) := by
  obtain ⟨n, ending, hpasses, hall⟩ := compiling_passes s t path output
  have hleft := (callUnwinds "CompileService.compile"
    (fun span (p : FileTree × ServiceResult) => (p.1, p.2.withSpan span))
    (compiling s t path output) enabled).left
  rw [compileCall_answer, compileTree, hleft, hpasses.ending] at answered
  cases ending with
  | error e => cases answered
  | ok p =>
    cases answered
    refine ⟨(compiling s t path output).account.span "CompileService.compile", rfl, rfl, ?_, ?_⟩
    · change List.map Span.name (compiling s t path output).account.entered <+: stages
      rw [hpasses.names]
      exact List.take_prefix n stages
    · intro hok
      change List.map Span.name (compiling s t path output).account.entered = _
      rw [hpasses.names, hall p.1 p.2 rfl hok]

end Document

end Colourway
