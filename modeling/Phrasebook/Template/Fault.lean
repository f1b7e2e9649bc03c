/-!
# Faults of placeholders

What can be wrong with a placeholder, and the text that says so.
-/

namespace Phrasebook

/-- What is wrong with a placeholder. -/
inductive PlaceholderFault where
  | unclosed
  | nested
  | missingName (body : String)
  | invalidName (name : String)
  | unclosedArguments (name : String)
  | trailingArguments (text : String)
  | trailingName (text name : String)
  | emptyArgument
  | unnamedArgument (text : String)
  | invalidArgumentName (name : String)
  | trailingQuote (text : String)
  | unclosedQuote
  | invalidValueName (name : String)
  deriving DecidableEq, Repr

/-- The text of a fault. -/
def PlaceholderFault.message : PlaceholderFault → String
  | .unclosed => "unterminated placeholder; expected '\x7d\x7d'"
  | .nested => "placeholders cannot be nested; pass '$name' arguments instead"
  | .missingName body => "expected a rule name in '\x7b\x7b" ++ body ++ "\x7d\x7d'"
  | .invalidName name => "invalid rule name '" ++ name ++ "'"
  | .unclosedArguments name => "unterminated argument list in '" ++ name ++ "'"
  | .trailingArguments text => "unexpected '" ++ text ++ "' after arguments"
  | .trailingName text name => "unexpected '" ++ text ++ "' after rule name '" ++ name ++ "'"
  | .emptyArgument => "empty argument"
  | .unnamedArgument text => "argument '" ++ text ++ "' must be written as 'name: value'"
  | .invalidArgumentName name => "invalid argument name '" ++ name ++ "'"
  | .trailingQuote text => "unexpected '" ++ text ++ "' after quoted value"
  | .unclosedQuote => "unterminated quoted value"
  | .invalidValueName name => "invalid reference '$" ++ name ++ "'"

end Phrasebook
