import Colourway.Service.Result

/-!
# Spans of call trees

Work that records spans is a tree of blocks and calls, put together from parts that go on after the
ending of other parts, be it a result or a failure.  What a part leaves behind can be told from the
tree alone: a block leaves a span with the blocks that were entered in it, a call leaves nothing.
The recorder agrees with that for every tree, and after each block and each call the spans that were
open before are open again (**`spans_mirror_calls`**).

* `Work` — the trees, `Work.run` — their running.
* `Work.account` — what a tree comes to and which blocks are entered in it, without a recorder.
* `Work.run_eq` — running work leaves on the innermost span what its account tells, and leaves the
  spans around it alone.
* `Enters` — the parts that are entered while work goes on, and the spans that are open then.
-/

namespace Colourway

variable {α β : Type}

/-! ## Call trees -/

/-- Work that goes on with the ending of other work. -/
def Recorded.after (first : Recorded α) (next : Except Failure α → Recorded β) : Recorded β :=
  fun r => next (first r).1 (first r).2

/-- Work that leaves its span open inside the current one comes to a child of the current one. -/
theorem Recorded.span_of_ended {work : Recorded α} {name : Text} {current done : Span}
    {around : List Span} {ending : Except Failure α}
    (h : work ⟨true, { name := name } :: current :: around⟩ =
      (ending, ⟨true, done :: current :: around⟩)) :
    Recorded.span name work ⟨true, current :: around⟩ =
      (ending, ⟨true, { current with children := current.children ++ [done] } :: around⟩) := by
  let start : Recorder := ⟨true, { name := name } :: current :: around⟩
  change ((work start).1, (work start).2.leave) = _
  rw [h]
  rfl

/-- Work that leaves its span alone comes to a call that leaves no span behind. -/
theorem Recorded.call_of_ended {work : Recorded α} {name : Text} {attach : Span → α → α}
    {done : Span} {stack : List Span} {ending : Except Failure α}
    (h : work ⟨true, [{ name := name }]⟩ = (ending, ⟨true, [done]⟩)) :
    Recorded.call name attach work ⟨true, stack⟩ =
      (ending.map (attach done), ⟨true, stack⟩) := by
  let start : Recorder := ⟨true, [{ name := name }]⟩
  change ((work start).1.map (attach ((work start).2.stack.getLast?.getD { name := name })),
    { (work start).2 with stack := stack }) = _
  rw [h]
  rfl

/-- Work, before it is run. -/
inductive Work : Type → Type 1 where
  /-- Work without spans, with its ending. -/
  | lift {α : Type} (ending : Except Failure α) : Work α
  /-- A number noted about the innermost span. -/
  | note (key : Text) (value : Int) : Work Unit
  /-- Work that goes on once other work has ended.  What follows may pass a failure on or catch
  it. -/
  | after {α β : Type} (first : Work α) (next : Except Failure α → Work β) : Work β
  /-- Work under a span of its own. -/
  | block {α : Type} (name : Text) (body : Work α) : Work α
  /-- A call, which adds its finished span to its result. -/
  | call {α : Type} (name : Text) (attach : Span → α → α) (body : Work α) : Work α

/-- What work comes to, and what it leaves on the span that is current around it. -/
structure Account (α : Type) where
  /-- The ending. -/
  ending : Except Failure α
  /-- The numbers noted about the current span, in order. -/
  noted : List (Text × Int) := []
  /-- The spans of the blocks entered right under the current span, in order of entry. -/
  entered : List Span := []

namespace Account

/-- The span of a block or a call whose body has this account. -/
def span (a : Account α) (name : Text) : Span :=
  { name := name, notes := Assoc.ofPairs a.noted, children := a.entered }

/-- A span after work with this account under it. -/
def on (a : Account α) (current : Span) : Span :=
  { current with
    notes := Assoc.putAll a.noted current.notes
    children := current.children ++ a.entered }

theorem on_new (a : Account α) (name : Text) : a.on { name := name } = a.span name := rfl

/-- Work that notes nothing and enters no block leaves the current span alone. -/
theorem on_of_nothing (ending : Except Failure α) (current : Span) :
    ({ ending := ending } : Account α).on current = current := by
  cases current
  simp only [on, Assoc.putAll, List.foldl_nil, List.append_nil]

end Account

namespace Work

/-- Work that needs the result of other work; a failure is passed on. -/
def bind (first : Work α) (next : α → Work β) : Work β :=
  first.after fun
    | .ok a => next a
    | .error e => lift (.error e)

/-- Work whose failure is caught. -/
def rescue (body : Work α) (handler : Failure → Work α) : Work α :=
  body.after fun
    | .ok a => lift (.ok a)
    | .error e => handler e

/-- Runs work. -/
def run : {α : Type} → Work α → Recorded α
  | _, lift ending => Recorded.lift ending
  | _, note key value => Recorded.note key value
  | _, after first next => first.run.after fun ending => (next ending).run
  | _, block name body => Recorded.span name body.run
  | _, call name attach body => Recorded.call name attach body.run

/-- What work comes to, told from the tree alone.  A block is one span around what is entered in it;
a call has its own span and leaves nothing on the current one. -/
def account : {α : Type} → Work α → Account α
  | _, lift ending => { ending := ending }
  | _, note key value => { ending := .ok (), noted := [(key, value)] }
  | _, after first next =>
    let before := first.account
    let rest := (next before.ending).account
    { ending := rest.ending
      noted := before.noted ++ rest.noted
      entered := before.entered ++ rest.entered }
  | _, block name body =>
    { ending := body.account.ending, entered := [body.account.span name] }
  | _, call name attach body =>
    { ending := body.account.ending.map (attach (body.account.span name)) }

/-- Binding is what recorded work does with results. -/
theorem run_bind (first : Work α) (next : α → Work β) :
    (first.bind next).run = first.run.bind fun a => (next a).run := by
  funext r
  change (match (first.run r).1 with
    | .ok a => next a
    | .error e => lift (.error e)).run (first.run r).2 = _
  unfold Recorded.bind
  rcases first.run r with ⟨e | a, s⟩ <;> rfl

/-- What follows leaves its account on what was left before. -/
theorem account_after_on (first : Work α) (next : Except Failure α → Work β) (current : Span) :
    (first.after next).account.on current =
      (next first.account.ending).account.on (first.account.on current) := by
  simp only [account, Account.on, Assoc.putAll, List.foldl_append, List.append_assoc]

/-! ## Running -/

/-- **Work does what its account tells**: it leaves its marks on the innermost span, and the spans
around it as they were, however it ends. -/
theorem run_eq (w : Work α) (current : Span) (around : List Span) :
    w.run ⟨true, current :: around⟩ =
      (w.account.ending, ⟨true, w.account.on current :: around⟩) := by
  induction w generalizing current around with
  | lift ending =>
    rw [account, Account.on_of_nothing]
    rfl
  | note key value =>
    simp only [run, Recorded.note, Recorder.recording, Recorder.note, account, Account.on,
      Assoc.putAll, List.isEmpty_cons, Bool.not_false, Bool.and_self, if_true, List.foldl_cons,
      List.foldl_nil, List.append_nil]
  | after first next ihfirst ihnext =>
    change (next (first.run _).1).run (first.run _).2 = _
    rw [ihfirst, ihnext, account_after_on]
    rfl
  | block name body ih =>
    -- The body finds its span inside the current one, and leaves it there to be closed.
    refine (Recorded.span_of_ended (ih { name := name } (current :: around))).trans ?_
    rfl
  | call name attach body ih =>
    -- The body finds its span alone; the others are put back behind it.
    refine (Recorded.call_of_ended (ih { name := name } [])).trans ?_
    rw [account, Account.on_of_nothing, Account.on_new]

end Work

/-! ## Blocks and calls that are entered -/

namespace Recorder

/-- The open spans while a call is carried out: its own one only. -/
def apart (r : Recorder) (name : Text) : Recorder := { r with stack := [{ name := name }] }

theorem recording_iff {r : Recorder} :
    r.recording = true ↔ ∃ current around, r = ⟨true, current :: around⟩ := by
  rcases r with ⟨_ | _, _ | ⟨current, around⟩⟩ <;> simp [recording]

end Recorder

/-- A part is entered with the spans of `s` open while work goes on that is entered with those of
another recorder. -/
inductive Enters (part : Work β) (s : Recorder) : {α : Type} → Work α → Recorder → Prop
  /-- Work is a part of itself. -/
  | here : Enters part s part s
  /-- The first part of a sequence is entered as the sequence is. -/
  | first {α γ : Type} {first : Work α} {next : Except Failure α → Work γ} {r : Recorder}
      (inside : Enters part s first r) : Enters part s (first.after next) r
  /-- What follows is entered where the first part ended, in the way in which it did. -/
  | next {α γ : Type} {first : Work α} {next : Except Failure α → Work γ} {r : Recorder}
      (inside : Enters part s (next (first.run r).1) (first.run r).2) :
      Enters part s (first.after next) r
  /-- The body of a block is entered under the span of the block. -/
  | block {α : Type} {name : Text} {body : Work α} {r : Recorder} (recording : r.recording = true)
      (inside : Enters part s body (r.enter name)) : Enters part s (.block name body) r
  /-- The body of a call is entered under the span of the call alone. -/
  | call {α : Type} {name : Text} {attach : Span → α → α} {body : Work α} {r : Recorder}
      (enabled : r.enabled = true) (inside : Enters part s body (r.apart name)) :
      Enters part s (.call name attach body) r

/-- Wherever a part is entered, there is a span around it. -/
theorem Enters.recording {part : Work β} {s r : Recorder} {w : Work α} (h : Enters part s w r)
    (open_ : r.recording = true) : s.recording = true := by
  induction h with
  | here => exact open_
  | first _ ih => exact ih open_
  | next _ ih =>
    obtain ⟨current, around, rfl⟩ := Recorder.recording_iff.mp open_
    apply ih
    rw [Work.run_eq]
    rfl
  | block _ _ ih =>
    obtain ⟨current, around, rfl⟩ := Recorder.recording_iff.mp open_
    exact ih rfl
  | call enabled _ ih =>
    apply ih
    rw [Recorder.recording, Recorder.apart, enabled]
    rfl

/-- How a block is entered inside the span `current`, with further ones around it, and how it is
left. -/
structure BlockUnwinds (name : Text) (body : Work α) (r : Recorder) (current : Span)
    (around : List Span) : Prop where
  /-- The spans that are open when the block is entered. -/
  found : r.stack = current :: around
  /-- However the body ends, the block's span is then the current one, with the blocks that were
  entered in the body, and those around it are as they were. -/
  ended : body.run (r.enter name) =
    (body.account.ending, { r with stack := body.account.span name :: current :: around })
  /-- The block ends as its body does.  The span that was current is current again, with the block
  as its last child. -/
  left : (Work.block name body).run r =
    (body.account.ending,
      { r with stack :=
          { current with children := current.children ++ [body.account.span name] } :: around })

/-- How a call is left that is entered with any spans open. -/
structure CallUnwinds (name : Text) (attach : Span → α → α) (body : Work α) (r : Recorder) :
    Prop where
  /-- However the body ends, the call's span is then the only one, with the blocks that were entered
  in the body. -/
  ended : body.run (r.apart name) =
    (body.account.ending, { r with stack := [body.account.span name] })
  /-- The call ends as its body does, with its span added to a result.  All spans that were open are
  open again, and nothing was added to them. -/
  left : (Work.call name attach body).run r =
    (body.account.ending.map (attach (body.account.span name)), r)

theorem blockUnwinds (name : Text) (body : Work α) (current : Span) (around : List Span) :
    BlockUnwinds name body ⟨true, current :: around⟩ current around where
  found := rfl
  ended := body.run_eq { name := name } (current :: around)
  left := (Work.block name body).run_eq current around

theorem callUnwinds (name : Text) (attach : Span → α → α) (body : Work α) {r : Recorder}
    (enabled : r.enabled = true) : CallUnwinds name attach body r := by
  obtain ⟨on, stack⟩ := r
  cases enabled
  exact ⟨body.run_eq { name := name } [],
    Recorded.call_of_ended (body.run_eq { name := name } [])⟩

/-- **Spans mirror the calls, and unwind.**  Let a call be made with recording enabled.  Whenever a
block is entered in it, there is a current span; when the block is left, by a result or by a
failure, that span is current again, with one more child.  Whenever a call is entered, itself or a
further one inside it, the spans that are open when it is left are those that were open before,
unchanged; the span of the call has as its children the blocks that were entered in its body outside
further calls. -/
theorem spans_mirror_calls (name : Text) (attach : Span → α → α) (body : Work α) {r : Recorder}
    (enabled : r.enabled = true) :
    CallUnwinds name attach body r ∧
    (∀ {β : Type} {inner : Text} {part : Work β} {s : Recorder},
      Enters (.block inner part) s body (r.apart name) →
        ∃ current around, BlockUnwinds inner part s current around) ∧
    (∀ {β : Type} {inner : Text} {give : Span → β → β} {part : Work β} {s : Recorder},
      Enters (.call inner give part) s body (r.apart name) → CallUnwinds inner give part s) := by
  have hopen : (r.apart name).recording = true := by
    rw [Recorder.recording, Recorder.apart, enabled]
    rfl
  refine ⟨callUnwinds name attach body enabled, fun hblock => ?_, fun hcall => ?_⟩
  · obtain ⟨current, around, rfl⟩ := Recorder.recording_iff.mp (hblock.recording hopen)
    exact ⟨current, around, blockUnwinds _ _ current around⟩
  · obtain ⟨current, around, rfl⟩ := Recorder.recording_iff.mp (hcall.recording hopen)
    exact callUnwinds _ _ _ rfl

/-- A call of its own with one block. -/
def innerCall : Work (List Span) := .call "inner" List.cons (.block "resolve" (.lift (.ok [])))

/-- A block that fails. -/
def lostImport : Work (List Span) := .block "imports" (.lift (.error (.error (.other "lost"))))

/-- Work that fails under a block, after a call of its own, and writes nevertheless. -/
def recovered : Work (List Span) :=
  Work.rescue (.block "load" (innerCall.bind fun _ => lostImport)) fun _ =>
    .block "write" (.lift (.ok []))

/-- A call around it has two blocks, the first one with the block that failed in it.  The span of
the inner call is not among them. -/
theorem recovered_spans :
    ({ enabled := true } : Recorder).enabled = true ∧
    recovered.account.entered =
      [{ name := "load", children := [{ name := "imports" }] }, { name := "write" }] ∧
    CallUnwinds "outer" List.cons recovered { enabled := true } ∧
    (∃ s current around, Enters lostImport s recovered (Recorder.apart { enabled := true } "outer") ∧
      BlockUnwinds "imports" (.lift (.error (.error (.other "lost"))) : Work (List Span)) s current
        around) ∧
    ∃ s, Enters innerCall s recovered (Recorder.apart { enabled := true } "outer") ∧
      CallUnwinds "inner" List.cons (.block "resolve" (.lift (.ok []))) s := by
  obtain ⟨hcall, hblocks, hcalls⟩ :=
    spans_mirror_calls "outer" List.cons recovered (r := { enabled := true }) rfl
  let inside : Recorder := ⟨true, [{ name := "load" }, { name := "outer" }]⟩
  have hlost : Enters lostImport inside recovered (Recorder.apart { enabled := true } "outer") :=
    .first (.block rfl (.next .here))
  have hinner : Enters innerCall inside recovered (Recorder.apart { enabled := true } "outer") :=
    .first (.block rfl (.first .here))
  obtain ⟨current, around, hblock⟩ := hblocks hlost
  exact ⟨rfl, rfl, hcall, ⟨inside, current, around, hlost, hblock⟩,
    ⟨inside, hinner, hcalls hinner⟩⟩

end Colourway
