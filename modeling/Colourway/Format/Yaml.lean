import Colourway.Document.Rendered
import Colourway.Format.Scalar

/-!
# YAML

Documents in the flow style of YAML 1.2: lists in square brackets, maps in curly ones, texts in
quotes, and plain scalars, which are read as numbers, truth values or nothing where they look like
it. Besides these a text may hold plain fields, one a line, or nothing but comments.

All of a text has to be printable, comments included. Outside brackets the parts are set apart by
spaces and line ends, inside brackets by tabs too. A key is followed by its colon on the same line,
within 1024 characters of its start. No key may be repeated in a map. A line may be a mark for the
start or the end of the document.

Many code points end a line as far as white space, comments and folding go, but lines are told apart
by line feeds and carriage returns only: a key may hold a line separator, and a mark counts only
behind a line feed.

A line end inside a quoted text or a plain scalar is folded: white space around it is dropped, and
it becomes a space, unless more line ends follow, which are then kept in its stead.
-/

namespace Colourway.Yaml

open Format

/-! ## Characters -/

/-- A code point that a text may hold as it stands. -/
def isPrintable (c : CodePoint) : Bool :=
  c == '\t' || c == '\n' || c == '\r' || (0x20 ≤ c.toNat && c.toNat ≤ 0x7e) || c.toNat == 0x85
    || (0xa0 ≤ c.toNat && c.toNat ≤ 0xd7ff) || (0xe000 ≤ c.toNat && c.toNat ≤ 0xfffd)
    || 0x10000 ≤ c.toNat

/-- The end of a line for white space, comments and folding. -/
def isLineEnd (c : CodePoint) : Bool :=
  c == '\n' || c == '\r' || c.toNat == 0x85 || c.toNat == 0x2028 || c.toNat == 0x2029

/-- The end of a line for keys and marks. -/
def isLineFeed (c : CodePoint) : Bool := c == '\n' || c == '\r'

/-- A space or a tab. -/
def isBlank (c : CodePoint) : Bool := c == ' ' || c == '\t'

/-- Whether a text is at its end or starts with white space. -/
def endsWord : Text → Bool
  | [] => true
  | c :: _ => isBlank c || isLineEnd c

/-- Whether a line starts with a mark for the start or the end of a document. -/
def startsMarker (s : Text) : Bool :=
  (s.take 3 == "---" || s.take 3 == "...") && endsWord (s.drop 3)

/-! ## Gaps -/

/-- Passes over white space and comments. Tabs count only inside brackets. -/
def skip (inside : Bool) : (comment : Bool) → Text → Text
  | _, [] => []
  | true, c :: rest => skip inside (!isLineEnd c) rest
  | false, c :: rest =>
    if c = '#' then skip inside true rest
    else if c = ' ' || isLineEnd c || (inside && c == '\t') then skip inside false rest
    else c :: rest

/-! ## Folded lines -/

/-- White space that has been read inside a scalar and not yet been written. -/
inductive Fold where
  /-- Blanks within a line. -/
  | blanks (held : Text)
  /-- The end of a line: what is written for it in any case, what is written if no other line end
  follows, and the line ends that follow. -/
  | lines (always alone more : Text)

namespace Fold

/-- Nothing is held. -/
def none : Fold := .blanks []

/-- What is written for the white space. -/
def text : Fold → Text
  | blanks held => held
  | lines always alone more => always ++ if more.isEmpty then alone else more

/-- One more blank. -/
def blank (c : CodePoint) : Fold → Fold
  | blanks held => .blanks (held ++ [c])
  | lines always alone more => .lines always alone more

/-- How a line end is written: only the line and paragraph separators stay what they are. -/
def lineEnd (c : CodePoint) : CodePoint := if 0x2028 ≤ c.toNat then c else '\n'

/-- One more line end. -/
def line (c : CodePoint) : Fold → Fold
  | blanks _ => if 0x2028 ≤ c.toNat then .lines [c] [] [] else .lines [] " " []
  | lines always alone more => .lines always alone (more ++ [lineEnd c])

/-- A line end behind a backslash, which is not written. -/
def escaped : Fold := .lines [] [] []

/-- Whether nothing is held. -/
def isNone : Fold → Bool
  | blanks [] => true
  | _ => false

end Fold

/-! ## Texts in quotes -/

/-- What a character stands for behind a backslash. -/
def escape? (c : CodePoint) : Option CodePoint :=
  if c = '0' then some '\x00'
  else if c = 'a' then some '\x07'
  else if c = 'b' then some '\x08'
  else if c = 't' ∨ c = '\t' then some '\t'
  else if c = 'n' then some '\n'
  else if c = 'v' then some '\x0b'
  else if c = 'f' then some '\x0c'
  else if c = 'r' then some '\r'
  else if c = 'e' then some '\x1b'
  else if c = ' ' ∨ c = '"' ∨ c = '/' ∨ c = '\\' then some c
  else if c = 'N' then some '\u0085'
  else if c = '_' then some '\u00a0'
  else if c = 'L' then some '\u2028'
  else if c = 'P' then some '\u2029'
  else none

/-- Reads a text in double quotes up to its closing quote. -/
def doubleQuoted (fold : Fold) : Text → Option (Text × Text)
  | [] => none
  | .char '"' :: rest => some (fold.text, rest)
  | .char '\\' :: .char 'x' :: y :: z :: rest => do
    let c ← codePoint? [y, z]
    let (s, left) ← doubleQuoted .none rest
    return (fold.text ++ c :: s, left)
  | .char '\\' :: .char 'u' :: w :: x :: y :: z :: rest => do
    let c ← codePoint? [w, x, y, z]
    let (s, left) ← doubleQuoted .none rest
    return (fold.text ++ c :: s, left)
  | .char '\\' :: .char 'U' :: s :: t :: u :: v :: w :: x :: y :: z :: rest => do
    let c ← codePoint? [s, t, u, v, w, x, y, z]
    let (s, left) ← doubleQuoted .none rest
    return (fold.text ++ c :: s, left)
  | .char '\\' :: e :: rest => do
    if isLineEnd e then
      if startsMarker rest then none
      let (s, left) ← doubleQuoted .escaped rest
      return (fold.text ++ s, left)
    else
      let c ← escape? e
      let (s, left) ← doubleQuoted .none rest
      return (fold.text ++ c :: s, left)
  | c :: rest =>
    if isLineEnd c then if startsMarker rest then none else doubleQuoted (fold.line c) rest
    else if isBlank c then doubleQuoted (fold.blank c) rest
    else if c = '\\' then none
    else do
      let (s, left) ← doubleQuoted .none rest
      return (fold.text ++ c :: s, left)

/-- Reads a text in single quotes up to its closing quote. A quote in it is written twice. -/
def singleQuoted (fold : Fold) : Text → Option (Text × Text)
  | [] => none
  | .char '\'' :: .char '\'' :: rest => do
    let (s, left) ← singleQuoted .none rest
    return (fold.text ++ .char '\'' :: s, left)
  | .char '\'' :: rest => some (fold.text, rest)
  | c :: rest =>
    if isLineEnd c then if startsMarker rest then none else singleQuoted (fold.line c) rest
    else if isBlank c then singleQuoted (fold.blank c) rest
    else do
      let (s, left) ← singleQuoted .none rest
      return (fold.text ++ c :: s, left)

/-! ## Plain scalars -/

/-- A character that has a meaning of its own at the start of a scalar. -/
def isIndicator (c : CodePoint) : Bool :=
  Text.ofString "-?:,[]\x7b\x7d#&*!|>'\"%@`" |>.contains c

/-- A character that ends a plain scalar inside brackets. -/
def isFlowIndicator (c : CodePoint) : Bool := Text.ofString ",[]\x7b\x7d" |>.contains c

/-- Whether a plain scalar may start with a character. -/
def startsPlain (inside : Bool) (c : CodePoint) (rest : Text) : Bool :=
  !isBlank c && !isLineEnd c &&
    (!isIndicator c || ((c == '-' || c == ':' || (!inside && c == '?')) && !endsWord rest))

/-- Reads a plain scalar: words with white space between them. It ends before a colon with white
space behind it, before a comment, and inside brackets before a comma or a bracket. -/
def plain (inside : Bool) (fold : Fold) : Text → Text × Text
  | [] => ([], [])
  | c :: rest =>
    if c = ' ' then plain inside (fold.blank c) rest
    else if isLineEnd c then
      if startsMarker rest then ([], c :: rest) else plain inside (fold.line c) rest
    else if c = '\t' || (c == ':' && endsWord rest) || (inside && isFlowIndicator c)
        || (c == '#' && !fold.isNone) then
      ([], c :: rest)
    else
      let (s, left) := plain inside .none rest
      (fold.text ++ c :: s, left)

/-- A digit or an underscore. -/
def isDigitMark (c : CodePoint) : Bool := isDigit c || c == '_'

/-- A text without its underscores. -/
def dropUnderscores (s : Text) : Text := s.filter (· != .char '_')

/-- The base of an integer without its sign, and the digits behind the mark for it. -/
def baseOf : Text → Nat × Text
  | .char '0' :: .char 'b' :: digits => (2, digits)
  | .char '0' :: .char 'o' :: digits => (8, digits)
  | .char '0' :: .char 'x' :: digits => (16, digits)
  | digits => (10, digits)

/-- Whether a scalar is written as an integer: digits and underscores, perhaps behind a sign and a
mark for another base. -/
def isInteger (s : Text) : Bool :=
  let (base, digits) := baseOf (Number.takeSign s).2
  !digits.isEmpty && digits.all (fun c => (digitIn? base c).isSome || c == '_')
    && s.head? != some (.char '_')

/-- The integer that is written; refused if it has no digits, or too many of them. -/
def integerValue? (s : Text) : Option Scalar :=
  let (negative, body) := Number.takeSign s
  let (base, marked) := baseOf body
  let digits := dropUnderscores marked
  if digits.isEmpty ∨ (base = 10 ∧ Number.digitLimit < digits.length) then none
  else (number? base digits).map fun n => .int (signed negative n)

/-- Whether an exponent is written: a mark, a sign that may be left out unless `needsSign`, and
digits. -/
def isExponent (needsSign : Bool) : Text → Bool
  | [] => false
  | c :: rest =>
    let digits := (Number.takeSign rest).2
    (c == 'e' || c == 'E') && !(needsSign && digits.length == rest.length)
      && !digits.isEmpty && digits.all isDigit

/-- Whether a finite double is written, apart from its sign: digits with a point or an exponent, or
with both. If nothing stands before the point, the exponent needs a sign. -/
def isUnsignedFloat (s : Text) : Bool :=
  match s.takeWhile isDigitMark, s.dropWhile isDigitMark with
  | [], .char '.' :: rest =>
    let tail := rest.dropWhile isDigitMark
    tail.length < rest.length && (tail.isEmpty || isExponent true tail)
  | first :: _, .char '.' :: rest =>
    let tail := rest.dropWhile isDigitMark
    isDigit first && (tail.isEmpty || isExponent false tail)
  | first :: _, rest => isDigit first && isExponent false rest
  | [], _ => false

/-- The finite double that is written; refused if it has no digits. -/
def floatValue? (s : Text) : Option Scalar :=
  let (negative, body) := Number.takeSign s
  let (numeral, _) := Numeral.take (dropUnderscores body)
  if numeral.hasDigits then some (numeral.scalar negative) else none

/-- The scalars that are named by words. -/
def named : List (Text × Scalar) :=
  [("", .null), ("~", .null), ("null", .null), ("Null", .null), ("NULL", .null),
    ("true", .bool true), ("True", .bool true), ("TRUE", .bool true),
    ("false", .bool false), ("False", .bool false), ("FALSE", .bool false),
    (".nan", .float (0.0 / 0.0)), (".NaN", .float (0.0 / 0.0)), (".NAN", .float (0.0 / 0.0))]

/-- The infinities, without their signs. -/
def infinities : List Text := [".inf", ".Inf", ".INF"]

/-- What a plain scalar denotes; refused if it looks like a number without being one, or is an
equals sign, which stands for no value. -/
def resolve? (s : Text) : Option Scalar :=
  let (negative, body) := Number.takeSign s
  match Assoc.get? s named with
  | some v => some v
  | none =>
    if infinities.contains body then some (.float (if negative then -(1.0 / 0.0) else 1.0 / 0.0))
    else if isUnsignedFloat body then floatValue? s
    else if isInteger s then integerValue? s
    else if s = "=" then none
    else some (.text s)

/-! ## Values -/

/-- Reads a scalar as it is written: its text, and whether it is plain. -/
def scalarText (inside : Bool) : Text → Option ((Text × Bool) × Text)
  | [] => none
  | c :: rest =>
    if c = '"' then (doubleQuoted .none rest).map fun (s, left) => ((s, false), left)
    else if c = '\'' then (singleQuoted .none rest).map fun (s, left) => ((s, false), left)
    else if startsPlain inside c rest then
      let (s, left) := plain inside .none (c :: rest)
      some ((s, true), left)
    else none

/-- What a scalar denotes. -/
def scalarValue? (s : Text × Bool) : Option Document :=
  if s.2 then (resolve? s.1).map .scalar else some (.text s.1)

/-- The key that a scalar stands for: what it denotes, as a text. -/
def keyText? (s : Text × Bool) : Option Text :=
  if s.2 then
    (resolve? s.1).bind fun v =>
      match v with
      | .text t => some t
      | v => Rendered.scalar? v
  else some s.1

/-- Whether the colon of a key may stand where `colon` begins, for a key that starts at `start`: on
the same line, and within 1024 characters. -/
def isNear (start colon : Text) : Bool :=
  let width := start.length - colon.length
  width ≤ 1024 && !(start.take width).any isLineFeed

/-- The map of fields that were read in this order; refused if a key is repeated. -/
def mapOf (fields : Fields) : Option Document :=
  let kept := Assoc.ofPairs fields
  if kept.length = fields.length then some (.map kept) else none

mutual

/-- Reads a value. -/
def value : Nat → (inside : Bool) → Text → Option (Document × Text)
  | 0, _, _ => none
  | fuel + 1, inside, s =>
    match s with
    | .char '[' :: rest => (items fuel rest).map fun (parts, left) => (.list parts, left)
    | .char '\x7b' :: rest => do
      let (parts, left) ← fields fuel rest
      return (← mapOf parts, left)
    | s => do
      let (written, left) ← scalarText inside s
      return (← scalarValue? written, left)

/-- Reads the items of a list up to its closing bracket. -/
def items : Nat → Text → Option (List Document × Text)
  | 0, _ => none
  | fuel + 1, s => do
    match skip true false s with
    | .char ']' :: rest => return ([], rest)
    | s =>
      let (first, rest) ← item fuel s
      match skip true false rest with
      | .char ']' :: rest => return ([first], rest)
      | .char ',' :: rest =>
        let (others, left) ← items fuel rest
        return (first :: others, left)
      | _ => none

/-- Reads one item of a list. A scalar with a colon behind it is the key of a map of its own. -/
def item : Nat → Text → Option (Document × Text)
  | 0, _ => none
  | fuel + 1, s =>
    match scalarText true s with
    | none => value fuel true s
    | some (written, rest) =>
      match skip true false rest with
      | .char ':' :: behind => do
        if !endsWord behind then none
        let (d, left) ← fieldValue fuel s rest
        return (.map [(← keyText? written, d)], left)
      | _ => (scalarValue? written).map (·, rest)

/-- Reads what may stand behind a key: a colon and a value, or nothing. -/
def fieldValue : Nat → (start rest : Text) → Option (Document × Text)
  | 0, _, _ => none
  | fuel + 1, start, rest =>
    match skip true false rest with
    | .char ':' :: behind =>
      if isNear start (skip true false rest) then
        match skip true false behind with
        | [] => none
        | c :: left =>
          if c = ',' ∨ c = ']' ∨ c = '\x7d' then some (.null, c :: left)
          else value fuel true (c :: left)
      else none
    | s => some (.null, s)

/-- Reads the fields of a map up to its closing bracket. A key may be left out before its colon, and
then is nothing. -/
def fields : Nat → Text → Option (Fields × Text)
  | 0, _ => none
  | fuel + 1, s => do
    match skip true false s with
    | .char '\x7d' :: rest => return ([], rest)
    | s =>
      let (written, rest) ← if s.head? = some ':' then some (([], true), s) else scalarText true s
      let name ← keyText? written
      let (first, rest) ← fieldValue fuel s rest
      match skip true false rest with
      | .char '\x7d' :: rest => return ([(name, first)], rest)
      | .char ',' :: rest =>
        let (others, left) ← fields fuel rest
        return ((name, first) :: others, left)
      | _ => none

end

/-! ## Documents -/

/-- The value that makes up a text, no value if the text holds nothing but comments. -/
def wholeValue? (s : Text) : Option Document :=
  match skip false false s with
  | [] => some .null
  | s => do
    let (d, rest) ← value (4 * s.length + 4) false s
    if (skip false false rest).isEmpty then return d else none

/-- A line that holds a key, a colon and a value. -/
def fieldLine? (line : Text) : Option (Text × Document) := do
  let (name, rest) ← scalarText false line
  match skip false false rest with
  | .char ':' :: behind =>
    if endsWord behind ∧ isNear line (skip false false rest) then
      return (← keyText? name, ← wholeValue? behind)
    else none
  | _ => none

/-- Whether lines hold nothing but comments. -/
def areVoid (lines : List Text) : Bool := lines.all fun line => (skip false false line).isEmpty

/-- The map that lines of plain fields denote. -/
def fieldLines? (lines : List Text) : Option Document := do
  let found ← (lines.filter fun line => !areVoid [line]).mapM fieldLine?
  mapOf found

/-- The document that lines without marks denote. -/
def content? (lines : List Text) : Option Document :=
  (wholeValue? (Text.join "\n" lines)).or (fieldLines? lines)

/-- The lines of a text. -/
def lines (s : Text) : List Text :=
  s.foldr
    (fun c done =>
      match done with
      | [] => [[c]]
      | line :: rest => if isLineFeed c then [] :: line :: rest else (c :: line) :: rest)
    [[]]

/-- The document that lines denote up to a mark for its end. Nothing but comments may follow it. -/
def untilEnd? (lines : List Text) : Option Document :=
  let body := lines.takeWhile (!startsMarker ·)
  match lines.dropWhile (!startsMarker ·) with
  | [] => content? body
  | mark :: rest =>
    if mark.head? = some '.' ∧ areVoid (mark.drop 3 :: rest) then content? body else none

/-- The text without a byte order mark in front. -/
def dropByteOrder : Text → Text
  | c :: rest => if c.toNat = 0xfeff then rest else c :: rest
  | [] => []

/-- The document that a text denotes. A mark for its start may stand behind comments, a mark for its
end only behind content or such a mark. -/
def document? (s : Text) : Option Document :=
  if s.all isPrintable then
    let all := lines (dropByteOrder s)
    match all.dropWhile fun line => areVoid [line] with
    | [] => some .null
    | first :: rest =>
      if !startsMarker first then untilEnd? all
      else if first.head? = some '-' then untilEnd? (first.drop 3 :: rest)
      else none
  else none

end Colourway.Yaml
