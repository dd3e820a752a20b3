import TagBox.Run.Revise

/-!
# Reports

The reports of the processor of yorbox (its specification, §10.5), and how its command line prints them.

What a run says about the files it has looked at, and how that is written as text.

* `FileReport`, `Report` — the report on one file and on a run.
* `Report.lines`, `Report.failures`, `Report.summary` — the report for people.
* `Report.json` — the report for programs.
-/

namespace TagBox

/-- What to do, and how. -/
structure Options where
  action : Action := .box
  /-- Only report what would change. -/
  check : Bool := false
  /-- Enter folders in folders. -/
  recursive : Bool := false
  deriving DecidableEq, Repr

/-- What became of a file. -/
inductive Status where
  | unchanged
  | changed
  | failed
  deriving DecidableEq, Repr

/-- The name of a status. -/
def Status.name : Status → String
  | .unchanged => "unchanged"
  | .changed => "changed"
  | .failed => "failed"

/-- The report on one file. -/
structure FileReport where
  path : Text
  status : Status
  /-- The addresses of the blocks that changed. -/
  blocks : List Text
  error : Option String
  deriving DecidableEq, Repr

/-- The report on a file that was revised, or not; there is none if the program ends there. -/
def FileReport.ofResult (path : Text) (result : Except RunError Revision) :
    Except RunError FileReport :=
  match result with
  | .error e =>
    if e.isFatal then .error e
    else .ok { path, status := .failed, blocks := [], error := some e.message }
  | .ok revised =>
    .ok { path, status := if revised.isChanged then .changed else .unchanged,
          blocks := revised.changed, error := none }

/-- There is no report on a file exactly if the program ends there. -/
theorem FileReport.ofResult_eq_error_iff {path : Text} {result : Except RunError Revision}
    {e : RunError} :
    FileReport.ofResult path result = .error e ↔ result = .error e ∧ e.isFatal = true := by
  cases result with
  | ok revised => simp [FileReport.ofResult]
  | error cause =>
    cases hfatal : cause.isFatal with
    | true =>
      simp only [FileReport.ofResult, hfatal, if_true, Except.error.injEq]
      exact ⟨fun h => ⟨h, h ▸ hfatal⟩, fun h => h.1⟩
    | false =>
      simp only [FileReport.ofResult, hfatal, Bool.false_eq_true, if_false, reduceCtorEq, false_iff,
        Except.error.injEq, not_and]
      rintro rfl
      simp [hfatal]

/-- The report on a run. -/
structure Report where
  action : Action
  check : Bool
  files : List FileReport
  deriving DecidableEq, Repr

namespace Report

/-- The reports with a status. -/
def withStatus (report : Report) (status : Status) : List FileReport :=
  report.files.filter fun file => file.status = status

/-- The files that changed. -/
def changed (report : Report) : List FileReport :=
  report.withStatus .changed

/-- The files that failed. -/
def failed (report : Report) : List FileReport :=
  report.withStatus .failed

/-- Did any file fail? -/
def hasFailures (report : Report) : Bool :=
  !report.failed.isEmpty

/-! ## For people -/

/-- What was done to a file that changed, or would be done to it. -/
def verb (report : Report) : String :=
  match report.action, report.check with
  | .box, false => "boxed"
  | .box, true => "would box"
  | .unbox, false => "unboxed"
  | .unbox, true => "would unbox"

/-- A line for each file that changed. -/
def lines (report : Report) : List String :=
  report.changed.map fun file =>
    report.verb ++ " " ++ String.ofList file.path ++ ": " ++
      ", ".intercalate (file.blocks.map String.ofList)

/-- A line for each file that failed. -/
def failures (report : Report) : List String :=
  report.failed.map fun file => "failed " ++ file.error.getD ""

/-- The counts of a run. -/
def summary (report : Report) : String :=
  toString report.files.length ++ " file(s) processed, " ++
    toString report.changed.length ++ " changed, " ++ toString report.failed.length ++ " failed"

/-! ## For programs -/

/-- A digit of base sixteen. -/
def hexDigit (n : Nat) : Char :=
  if n < 10 then Char.ofNat (48 + n) else Char.ofNat (87 + n)

/-- A character within a quoted text. -/
def escape (c : Char) : Text :=
  if c = '"' then ['\\', '"']
  else if c = '\\' then ['\\', '\\']
  else if c = '\n' then ['\\', 'n']
  else if c = '\r' then ['\\', 'r']
  else if c = '\t' then ['\\', 't']
  else if c.toNat = 8 then ['\\', 'b']
  else if c.toNat = 12 then ['\\', 'f']
  else if c.toNat < 32 then
    ['\\', 'u', '0', '0', hexDigit (c.toNat / 16), hexDigit (c.toNat % 16)]
  else [c]

/-- A quoted text. -/
def quote (t : Text) : String :=
  String.ofList ('"' :: t.flatMap escape ++ ['"'])

/-- Items between two brackets, each on a line of its own; `depth` is the depth of the brackets. -/
def bracketed (left right : String) (depth : Nat) (items : List String) : String :=
  if items.isEmpty then left ++ right
  else
    let indent (n : Nat) : String := String.ofList (List.replicate (2 * n) ' ')
    left ++ "\n" ++ ",\n".intercalate (items.map (indent (depth + 1) ++ ·)) ++ "\n" ++
      indent depth ++ right

/-- A field of an object. -/
def fieldOf (name value : String) : String :=
  "\"" ++ name ++ "\": " ++ value

/-- The report on a file as an object; fields that say nothing are left out. -/
def fileJson (file : FileReport) : String :=
  bracketed "\x7b" "\x7d" 2 <|
    [fieldOf "path" (quote file.path), fieldOf "status" (quote file.status.name.toList)] ++
    (if file.blocks.isEmpty then []
      else [fieldOf "blocks" (bracketed "[" "]" 3 (file.blocks.map quote))]) ++
    (file.error.map fun e => fieldOf "error" (quote e.toList)).toList

/-- The report as an object. -/
def json (report : Report) : String :=
  bracketed "\x7b" "\x7d" 0
    [fieldOf "action" (quote report.action.name.toList),
     fieldOf "check" (if report.check then "true" else "false"),
     fieldOf "files" (bracketed "[" "]" 1 (report.files.map fileJson))]

end Report

end TagBox
