import Colourway.Document.Shown
import Colourway.Syntax.Hex

/-!
# Failures

A failure is either an error that the caller is told about in full, or a fault: an operation met a
value on which it is not defined. Services report errors; faults pass through them.
-/

namespace Colourway

/-- Why a document could not be loaded. -/
inductive LoadReason where
  /-- A reason given in words. -/
  | stated (words : Text)
  /-- The text is no document of its format. -/
  | malformed
  deriving DecidableEq

/-- The words for a reason. -/
def LoadReason.words : LoadReason → Text
  | .stated words => words
  | .malformed => "<parse>"

/-- An error that the caller is told about. -/
inductive ThemeError where
  /-- Entries of a scope still hold references or calls when resolution stops. -/
  | unresolved (paths : List Text) (scope : Option Text)
  /-- A colour expression could not be read or transformed; `path` is the entry that held it. -/
  | colour (expression reason : Text) (path : Option Text)
  /-- A document could not be loaded. -/
  | load (path : Text) (reason : LoadReason)
  /-- An import list is neither a text nor a list of texts. -/
  | imports (message : Text)
  /-- Any other error. -/
  | other (message : Text)
  deriving DecidableEq

/-- A text in front of another, if there is one with characters in it. -/
def clause (lead : Text) (words : Option Text) (tail : Text) : Text :=
  match words with
  | some w => if w = [] then [] else lead ++ w ++ tail
  | none => []

/-- What is said of a colour expression that could not be read. -/
def colourComplaint (expression reason : Text) (path : Option Text) : Text :=
  "Invalid colour expression " ++ Document.quotedText expression
    ++ clause " (while resolving " path ")" ++ ": " ++ reason

/-- The message of an error. -/
def ThemeError.message : ThemeError → Text
  | .unresolved paths scope =>
    "Unable to resolve " ++ Number.natText paths.length ++ " token(s)"
      ++ clause " in " scope [] ++ ", possibly circular: " ++ Text.join ", " paths
  | .colour expression reason path => colourComplaint expression reason path
  | .load path reason => "Unable to load " ++ path ++ ": " ++ reason.words
  | .imports message => message
  | .other message => message

/-- A value on which an operation is not defined. -/
inductive Fault where
  /-- A division by zero. -/
  | divisionByZero
  /-- A number was needed, and there was none. -/
  | notANumber
  /-- An integer was needed, and the number is infinite. -/
  | infinite
  /-- A text that is no hex literal. -/
  | noHex (value : Text)
  /-- A hex literal with a line feed behind it, where digits were needed. -/
  | strayLineEnd
  /-- A resolver that may take no step. -/
  | iterationLimit (limit : Int)
  /-- A list where a map was needed. -/
  | listForMap
  /-- An entry without a path. -/
  | emptyPath
  /-- A key that is not in the store. -/
  | unknownKey (key : Text)
  /-- Bytes that are no text. -/
  | undecodable
  /-- A path that cannot be opened or extended. -/
  | unusablePath
  /-- A text with a surrogate where bytes are needed. -/
  | unencodable
  /-- A file name that the system refuses to look at. -/
  | nameTooLong
  /-- A settings variable that cannot be read. -/
  | unreadableVariable
  /-- An integer of too many digits. -/
  | longInteger
  deriving DecidableEq

/-- What is said of a fault, where there is more to say than its kind. -/
def Fault.message? : Fault → Option Text
  | .noHex value => some (Syntax.hexComplaint value)
  | .iterationLimit limit =>
    (Number.intText? limit).map fun digits => "max_iterations must be at least 1, got " ++ digits
  | .unknownKey key => some (Document.quotedText key)
  | _ => none

/-- Anything that stops an operation. -/
inductive Failure where
  /-- An error that the caller is told about. -/
  | error (cause : ThemeError)
  /-- A fault. -/
  | fault (cause : Fault)
  deriving DecidableEq

end Colourway
