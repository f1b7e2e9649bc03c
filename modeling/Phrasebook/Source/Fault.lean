import Phrasebook.Book.Basic
import Phrasebook.Template.Fault

/-!
# Faults of a source

What can be wrong with the source text of a book, and where.  Lines and columns count from one, and
columns count characters.
-/

namespace Phrasebook

/-- What is wrong with a setting of the preamble. -/
inductive SettingFault where
  | unkeyed
  | invalidDuration (text : String)
  | nonPositiveDuration
  | unknownAnimation (word : String)
  | invalidImport (text : String)
  | invalidAlias (aliasName : String)
  | repeatedAlias (aliasName : String)
  | unknownKey (key : String)
  deriving DecidableEq, Repr

/-- What is wrong with a source. -/
inductive SourceFault where
  | tabIndentation
  | missingSpace
  | indentedHeader
  | unknownLine
  | invalidRuleName (name : String)
  | duplicateRule (name : String)
  | outsideRule
  | inconsistentIndentation
  | nestedPreamble
  | noAlternatives (rule : String)
  | noPositiveWeight (rule : String)
  | missingNested
  | unusedNested
  | invalidWeight (text : String)
  | placeholder (fault : PlaceholderFault)
  | setting (fault : SettingFault)
  deriving DecidableEq, Repr

/-- A fault and its place. -/
structure ParseError where
  line : Nat
  column : Nat
  fault : SourceFault
  deriving DecidableEq, Repr

/-- The text of a fault. -/
def SettingFault.message : SettingFault → String
  | .unkeyed => "preamble entries are written as 'key: value'"
  | .invalidDuration text => "invalid duration '" ++ text ++ "'"
  | .nonPositiveDuration => "duration must be a positive number of seconds"
  | .unknownAnimation word => Animation.unknownMessage word
  | .invalidImport text => "invalid import '" ++ text ++ "': expected 'id' or 'id as alias'"
  | .invalidAlias aliasName => "invalid import alias '" ++ aliasName ++ "'"
  | .repeatedAlias aliasName => "import alias '" ++ aliasName ++ "' is used twice"
  | .unknownKey key =>
    "unknown preamble key '" ++ key ++ "': expected duration, animation or imports"

/-- The text of a fault. -/
def SourceFault.message : SourceFault → String
  | .tabIndentation => "tabs are not allowed in indentation"
  | .missingSpace => "expected a space after '-'"
  | .indentedHeader =>
    "rule headers must start at column 1; nest alternatives with '- ' instead"
  | .unknownLine => "expected a 'name:' header or a '- ' alternative"
  | .invalidRuleName name =>
    "invalid rule name '" ++ name ++ "': use letters, digits, '_' and '-'"
  | .duplicateRule name => "duplicate rule '" ++ name ++ "'"
  | .outsideRule => "alternative outside of a rule; start with a 'name:' header"
  | .inconsistentIndentation => "inconsistent indentation"
  | .nestedPreamble => "the preamble cannot contain nested alternatives"
  | .noAlternatives rule => "rule '" ++ rule ++ "' has no alternatives"
  | .noPositiveWeight rule => "rule '" ++ rule ++ "' has no alternative with positive weight"
  | .missingNested =>
    "'\x7b\x7b _ \x7d\x7d' needs a nested block of alternatives below this line"
  | .unusedNested =>
    "nested alternatives are never used; place '\x7b\x7b _ \x7d\x7d' where they belong"
  | .invalidWeight text => "weight must be a non-negative number, got '" ++ text ++ "'"
  | .placeholder fault => fault.message
  | .setting fault => fault.message

/-- The text of an error: its place and its fault. -/
def ParseError.message (e : ParseError) : String :=
  "line " ++ toString e.line ++ ", column " ++ toString e.column ++ ": " ++ e.fault.message

end Phrasebook
