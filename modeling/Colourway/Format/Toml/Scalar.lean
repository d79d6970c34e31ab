import Colourway.Format.Scalar

/-!
# Scalars of settings files

Texts in double or single quotes, on one line or on several between three quotes; numbers, whose
digits may be parted by single underscores; truth values; dates and times. No setting can be a date
or a time, so these are checked and then count as no value.
-/

namespace Colourway.Toml

open Format

/-- Why a settings file cannot be read. -/
inductive Problem where
  /-- It does not keep to the format. -/
  | malformed
  /-- It holds an integer with too many digits. -/
  | longInteger
  deriving DecidableEq

/-- A reader of the front of a text: what it read, and the text behind it. -/
abbrev Reader (α : Type) := Text → Except Problem (α × Text)

/-- A result that may be missing. -/
def require {α : Type} : Option α → Except Problem α
  | some a => .ok a
  | none => .error .malformed

/-- White space within a line. -/
def isBlank (c : CodePoint) : Bool := c == ' ' || c == '\t'

/-- A control character other than the tab. -/
def isControl (c : CodePoint) : Bool := (c.toNat < 0x20 && c != '\t') || c.toNat == 0x7f

/-! ## Texts -/

/-- What a character stands for behind a backslash. -/
def escape? (c : CodePoint) : Option CodePoint :=
  if c = 'b' then some '\x08'
  else if c = 't' then some '\t'
  else if c = 'n' then some '\n'
  else if c = 'f' then some '\x0c'
  else if c = 'r' then some '\r'
  else if c = '"' ∨ c = '\\' then some c
  else none

/-- The character that hexadecimal digits name; surrogates are none. -/
def escapedChar? (digits : Text) : Option CodePoint :=
  (codePoint? digits).filter fun c => c.char?.isSome

/-- Reads a text in double quotes up to its closing quote. -/
def basicText : Reader Text
  | [] => .error .malformed
  | .char '"' :: rest => .ok ([], rest)
  | .char '\\' :: .char 'u' :: w :: x :: y :: z :: rest => do
    let c ← require (escapedChar? [w, x, y, z])
    let (s, left) ← basicText rest
    return (c :: s, left)
  | .char '\\' :: .char 'U' :: s :: t :: u :: v :: w :: x :: y :: z :: rest => do
    let c ← require (escapedChar? [s, t, u, v, w, x, y, z])
    let (s, left) ← basicText rest
    return (c :: s, left)
  | .char '\\' :: e :: rest => do
    let c ← require (escape? e)
    let (s, left) ← basicText rest
    return (c :: s, left)
  | c :: rest =>
    if isControl c ∨ c = '\\' then .error .malformed
    else do
      let (s, left) ← basicText rest
      return (c :: s, left)

/-- Reads a text in single quotes up to its closing quote. -/
def literalText : Reader Text
  | [] => .error .malformed
  | c :: rest =>
    if c = '\'' then .ok ([], rest)
    else if isControl c then .error .malformed
    else do
      let (s, left) ← literalText rest
      return (c :: s, left)

/-- The end of a text between three quotes. One or two quotes may stand before the closing ones. -/
def closing? (quote : CodePoint) : Text → Option (Text × Text)
  | a :: b :: c :: rest =>
    if a = quote ∧ b = quote ∧ c = quote then
      match rest with
      | d :: e :: left =>
        if d = quote ∧ e = quote then some ([quote, quote], left)
        else if d = quote then some ([quote], e :: left)
        else some ([], rest)
      | [d] => if d = quote then some ([quote], []) else some ([], rest)
      | [] => some ([], [])
    else none
  | _ => none

/-- What a backslash at the end of a line lets the reader drop. -/
inductive Trimming where
  /-- Nothing. -/
  | off
  /-- Blanks up to the end of the line, which has to follow. -/
  | line
  /-- White space of all kinds. -/
  | all
  deriving DecidableEq

/-- Reads a text between three double quotes up to the closing ones. -/
def basicLines (trimming : Trimming) : Reader Text
  | [] => .error .malformed
  | c :: rest =>
    if trimming = .line then
      if isBlank c then basicLines .line rest
      else if c = '\n' then basicLines .all rest
      else .error .malformed
    else if trimming = .all ∧ (isBlank c || c == '\n') then basicLines .all rest
    else if c = '\\' then
      match rest with
      | .char '\n' :: rest => basicLines .all rest
      | .char 'u' :: w :: x :: y :: z :: rest => do
        let c ← require (escapedChar? [w, x, y, z])
        let (s, left) ← basicLines .off rest
        return (c :: s, left)
      | .char 'U' :: s :: t :: u :: v :: w :: x :: y :: z :: rest => do
        let c ← require (escapedChar? [s, t, u, v, w, x, y, z])
        let (s, left) ← basicLines .off rest
        return (c :: s, left)
      | e :: rest =>
        if isBlank e then basicLines .line rest
        else do
          let c ← require (escape? e)
          let (s, left) ← basicLines .off rest
          return (c :: s, left)
      | [] => .error .malformed
    else
      match closing? '"' (c :: rest) with
      | some (quotes, left) => .ok (quotes, left)
      | none =>
        if c ≠ '\n' ∧ isControl c then .error .malformed
        else do
          let (s, left) ← basicLines .off rest
          return (c :: s, left)

/-- Reads a text between three single quotes up to the closing ones. -/
def literalLines : Reader Text
  | [] => .error .malformed
  | c :: rest =>
    match closing? '\'' (c :: rest) with
    | some (quotes, left) => .ok (quotes, left)
    | none =>
      if c ≠ '\n' ∧ isControl c then .error .malformed
      else do
        let (s, left) ← literalLines rest
        return (c :: s, left)

/-- The text without a line feed in front. -/
def dropLineFeed : Text → Text
  | .char '\n' :: rest => rest
  | s => s

/-- Reads a text behind its first quote. -/
def quotedText (quote : CodePoint) (s : Text) : Except Problem (Text × Text) :=
  match s with
  | a :: b :: rest =>
    if a = quote ∧ b = quote then
      if quote = '"' then basicLines .off (dropLineFeed rest) else literalLines (dropLineFeed rest)
    else oneLine s
  | _ => oneLine s
where
  /-- Reads a text that stands on one line. -/
  oneLine : Reader Text := if quote = '"' then basicText else literalText

/-! ## Numbers -/

/-- Takes a run of digits from the front of a text; a single underscore may stand between two. -/
def takeRun (isDigit : CodePoint → Bool) : Text → Text × Text
  | [] => ([], [])
  | c :: rest =>
    if isDigit c then
      match rest with
      | .char '_' :: d :: rest =>
        if isDigit d then
          let (digits, left) := takeRun isDigit (d :: rest)
          (c :: digits, left)
        else ([c], .char '_' :: d :: rest)
      | rest =>
        let (digits, left) := takeRun isDigit rest
        (c :: digits, left)
    else ([], c :: rest)

/-- The marks of the bases other than ten. -/
def bases : List (CodePoint × Nat) := [('x', 16), ('o', 8), ('b', 2)]

/-- Reads an integer in another base, behind its zero. -/
def markedInteger? : Text → Option (Scalar × Text)
  | [] => none
  | mark :: rest => do
    let base ← Assoc.get? mark bases
    let (digits, left) := takeRun (fun c => (digitIn? base c).isSome) rest
    if digits.isEmpty then none
    return (.int (← number? base digits), left)

/-- Takes the digits before the point: a zero alone, or digits that start with another one. -/
def takeWhole : Text → Text × Text
  | .char '0' :: rest => ([.char '0'], rest)
  | s => takeRun isDigit s

/-- Takes the digits behind the point, if there are any. -/
def takeFraction : Text → Option Text × Text
  | .char '.' :: rest =>
    match takeRun isDigit rest with
    | ([], _) => (none, .char '.' :: rest)
    | (digits, left) => (some digits, left)
  | s => (none, s)

/-- Takes an exponent: a mark, a sign and at least one digit. -/
def takeExponent : Text → Option Int × Text
  | [] => (none, [])
  | c :: rest =>
    if c = 'e' ∨ c = 'E' then
      let (negative, tail) := Number.takeSign rest
      match takeRun isDigit tail with
      | ([], _) => (none, c :: rest)
      | (digits, left) => (some (signed negative (decimal digits)), left)
    else (none, c :: rest)

/-- Reads a number in base ten. -/
def decimalNumber (s : Text) : Except Problem (Scalar × Text) := do
  let (negative, body) := Number.takeSign s
  match takeWhole body with
  | ([], _) => .error .malformed
  | (whole, rest) =>
    let (fraction, rest) := takeFraction rest
    let (exponent, left) := takeExponent rest
    let numeral : Numeral := ⟨whole, fraction, exponent⟩
    if numeral.isTooLong then .error .longInteger
    else .ok (numeral.scalar negative, left)

/-- The numbers that are named by words. -/
def specialNumbers : List (Text × Scalar) :=
  [("inf", .float (1.0 / 0.0)), ("+inf", .float (1.0 / 0.0)), ("-inf", .float (-(1.0 / 0.0))),
    ("nan", .float (0.0 / 0.0)), ("+nan", .float (0.0 / 0.0)), ("-nan", .float (0.0 / 0.0))]

/-- Reads a number. -/
def number (s : Text) : Except Problem (Scalar × Text) :=
  let marked := match s with
    | .char '0' :: rest => markedInteger? rest
    | _ => none
  match marked.or (takeNamed specialNumbers s) with
  | some found => .ok found
  | none => decimalNumber s

/-! ## Dates and times -/

/-- Takes digits that stand for a number within bounds. -/
def takeBetween (digits low high : Nat) (s : Text) : Option (Nat × Text) := do
  let taken := s.take digits
  if taken.length ≠ digits ∨ !taken.all isDigit then none
  let n := decimal taken
  if low ≤ n ∧ n ≤ high then return (n, s.drop digits) else none

/-- The text behind a character that has to stand in front. -/
def behind? (c : CodePoint) : Text → Option Text
  | d :: rest => if d = c then some rest else none
  | [] => none

/-- The text behind the fraction of a second, if there is one. -/
def dropSecondFraction (s : Text) : Text :=
  match behind? '.' s with
  | some rest => if rest.head?.any isDigit then rest.dropWhile isDigit else s
  | none => s

/-- The text behind a time of day. -/
def behindTime? (s : Text) : Option Text := do
  let (_, rest) ← takeBetween 2 0 23 s
  let (_, rest) ← takeBetween 2 0 59 (← behind? ':' rest)
  let (_, rest) ← takeBetween 2 0 59 (← behind? ':' rest)
  return dropSecondFraction rest

/-- The text behind an offset from universal time. -/
def behindOffset? : Text → Option Text
  | [] => none
  | c :: rest =>
    if c = 'Z' ∨ c = 'z' then some rest
    else if c = '+' ∨ c = '-' then do
      let (_, rest) ← takeBetween 2 0 23 rest
      let (_, rest) ← takeBetween 2 0 59 (← behind? ':' rest)
      return rest
    else none

/-- The number of days of a month. -/
def daysIn (year month : Nat) : Nat :=
  if month = 2 then
    if (year % 4 = 0 ∧ year % 100 ≠ 0) ∨ year % 400 = 0 then 29 else 28
  else if month = 4 ∨ month = 6 ∨ month = 9 ∨ month = 11 then 30
  else 31

/-- Reads a date, with a time of day behind it if there is one: whether the calendar has the day,
and the text behind. -/
def date? (s : Text) : Option (Bool × Text) := do
  let (year, rest) ← takeBetween 4 0 9999 s
  let (month, rest) ← takeBetween 2 1 12 (← behind? '-' rest)
  let (day, rest) ← takeBetween 2 1 31 (← behind? '-' rest)
  let exists_ := 1 ≤ year && day ≤ daysIn year month
  let time := match rest with
    | c :: tail => if c = 'T' ∨ c = 't' ∨ c = ' ' then behindTime? tail else none
    | [] => none
  match time with
  | some tail => return (exists_, (behindOffset? tail).getD tail)
  | none => return (exists_, rest)

/-! ## All of them -/

/-- The truth values. -/
def truthValues : List (Text × Scalar) := [("true", .bool true), ("false", .bool false)]

/-- Reads a value that is neither an array nor a table. -/
def scalar (s : Text) : Except Problem (Scalar × Text) :=
  match s with
  | .char '"' :: rest => (quotedText '"' rest).map fun (t, left) => (.text t, left)
  | .char '\'' :: rest => (quotedText '\'' rest).map fun (t, left) => (.text t, left)
  | _ =>
    match takeNamed truthValues s, date? s, behindTime? s with
    | some found, _, _ => .ok found
    | none, some (true, left), _ => .ok (.null, left)
    | none, some (false, _), _ => .error .malformed
    | none, none, some left => .ok (.null, left)
    | none, none, none => number s

end Colourway.Toml
