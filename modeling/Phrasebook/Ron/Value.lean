/-!
# Values of the object notation

The notation of settings files and of printed books: scalars, lists, maps, and tuples and records
that may have a name.
-/

namespace Phrasebook

/-- A value of the object notation. -/
inductive Ron where
  | unit
  | bool (b : Bool)
  /-- A number without sign, point or exponent. -/
  | natural (n : Nat)
  /-- Any other number. -/
  | number (x : Float)
  | char (c : Char)
  | string (s : String)
  /-- `None`. -/
  | absent
  /-- `Some`. -/
  | present (v : Ron)
  | list (vs : List Ron)
  | map (entries : List (Ron × Ron))
  /-- A name on its own. -/
  | word (s : String)
  | tuple (name : Option String) (vs : List Ron)
  | record (name : Option String) (fields : List (String × Ron))

namespace Ron

/-- The white space of the notation. -/
def isSpace (c : Char) : Bool :=
  c == ' ' || c == '\t' || c == '\n' || c == '\r'

/-- The characters that a name can begin with. -/
def isNameStart (c : Char) : Bool :=
  c.isAlpha || c == '_'

/-- The characters of a name. -/
def isNameChar (c : Char) : Bool :=
  c.isAlphanum || c == '_'

/-- The characters of a name after `r#`. -/
def isRawNameChar (c : Char) : Bool :=
  isNameChar c || c == '.' || c == '+' || c == '-'

/-- The number of levels in which values can be nested. -/
def levelLimit : Nat := 128

end Ron

end Phrasebook
