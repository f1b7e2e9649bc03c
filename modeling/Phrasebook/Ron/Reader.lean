import Phrasebook.Decimal.Numeral
import Phrasebook.Ron.Value

/-!
# Reading the object notation

White space and comments may stand between the parts of a value; block comments nest.  A comma may
follow the last element of anything.  The readers answer with what they read and the text after it,
or with nothing if the text is not in the notation.  The size that some of them are given is a
number greater than the length of the text.
-/

namespace Phrasebook.Ron

/-- A reader of one thing. -/
abbrev Reader (α : Type) := List Char → Option (α × List Char)

/-! ## Blanks -/

/-- What is being skipped. -/
inductive Skip where
  | space
  | line
  /-- A block comment, inside so many others. -/
  | block (outer : Nat)

/-- The text after white space and comments. -/
def skipFrom : Skip → List Char → Option (List Char)
  | .space, '/' :: '/' :: rest => skipFrom .line rest
  | .space, '/' :: '*' :: rest => skipFrom (.block 0) rest
  | .space, '/' :: _ => none
  | .space, c :: rest => if isSpace c then skipFrom .space rest else some (c :: rest)
  | .space, [] => some []
  | .line, c :: rest => if c = '\n' then skipFrom .space rest else skipFrom .line rest
  | .line, [] => some []
  | .block outer, '/' :: '*' :: rest => skipFrom (.block (outer + 1)) rest
  | .block 0, '*' :: '/' :: rest => skipFrom .space rest
  | .block (outer + 1), '*' :: '/' :: rest => skipFrom (.block outer) rest
  | .block outer, _ :: rest => skipFrom (.block outer) rest
  | .block _, [] => none

/-- The text after white space and comments. -/
def skip (cs : List Char) : Option (List Char) :=
  skipFrom .space cs

/-- Reads one character. -/
def expect (c : Char) : List Char → Option (List Char)
  | d :: rest => if c = d then some rest else none
  | [] => none

/-- Whether there is a comma, and the text after it and the blanks around it. -/
def comma (cs : List Char) : Option (Bool × List Char) :=
  (skip cs).bind fun
    | ',' :: rest => (skip rest).map fun rest => (true, rest)
    | rest => some (false, rest)

/-! ## Names -/

/-- Reads a name whose characters need no `r#` before them. -/
def plainName (cs : List Char) : Option (String × List Char) :=
  let name := cs.takeWhile isNameChar
  if name.length < (cs.takeWhile isRawNameChar).length then none
  else some (String.ofList name, cs.dropWhile isNameChar)

/-- Reads a name. -/
def readName : Reader String
  | ['r'] => none
  | 'r' :: '"' :: _ => none
  | 'r' :: '#' :: rest =>
    let name := rest.takeWhile isRawNameChar
    if name = [] then none else some (String.ofList name, rest.dropWhile isRawNameChar)
  | c :: rest => if isNameStart c then plainName (c :: rest) else none
  | [] => none

/-- Reads a given word that no other character of a name follows. -/
def readWord (word : String) (cs : List Char) : Option (List Char) :=
  let length := word.length
  if cs.take length = word.toList ∧ !((cs.drop length).head?.any isNameChar) then
    some (cs.drop length)
  else none

/-! ## Quoted text -/

/-- The value of a hexadecimal digit. -/
def hexValue (c : Char) : Option Nat :=
  if c.isDigit then some (c.toNat - '0'.toNat)
  else if 'a' ≤ c ∧ c ≤ 'f' then some (c.toNat - 'a'.toNat + 10)
  else if 'A' ≤ c ∧ c ≤ 'F' then some (c.toNat - 'A'.toNat + 10)
  else none

/-- The character of a number, if it has one. -/
def charOf? (n : Nat) : Option Char :=
  if n.isValidChar then some (Char.ofNat n) else none

/-- Reads the digits of a numbered character and the brace after them. -/
def readNumbered : Nat → Nat → Reader Char
  | _, _, [] => none
  | digits, n, c :: rest =>
    if c = '}' then
      if digits = 0 then none else (charOf? n).map fun d => (d, rest)
    else if digits = 6 then none
    else (hexValue c).bind fun v => readNumbered (digits + 1) (16 * n + v) rest

/-- Reads what follows a backslash. -/
def readEscape : Reader Char
  | '\'' :: rest => some ('\'', rest)
  | '"' :: rest => some ('"', rest)
  | '\\' :: rest => some ('\\', rest)
  | 'n' :: rest => some ('\n', rest)
  | 'r' :: rest => some ('\r', rest)
  | 't' :: rest => some ('\t', rest)
  | '0' :: rest => some ('\x00', rest)
  | 'x' :: high :: low :: rest =>
    (hexValue high).bind fun h => (hexValue low).map fun l => (Char.ofNat (16 * h + l), rest)
  | 'u' :: '{' :: rest => readNumbered 0 0 rest
  | _ => none

/-- Reads a quoted text after its opening quote. -/
def readQuoted : Nat → Reader (List Char)
  | 0, _ => none
  | _ + 1, [] => none
  | size + 1, c :: rest =>
    if c = '"' then some ([], rest)
    else if c = '\\' then
      (readEscape rest).bind fun (d, rest) =>
        (readQuoted size rest).map fun (text, rest) => (d :: text, rest)
    else (readQuoted size rest).map fun (text, rest) => (c :: text, rest)

/-- Reads a text up to a given ending. -/
def readUntil (ending : List Char) : Reader (List Char)
  | [] => none
  | c :: rest =>
    if (c :: rest).take ending.length = ending then some ([], (c :: rest).drop ending.length)
    else (readUntil ending rest).map fun (text, rest) => (c :: text, rest)

/-- Reads a text that is taken as it is, after its `r`. -/
def readRaw (cs : List Char) : Option (List Char × List Char) :=
  let hashes := cs.takeWhile (· = '#')
  match cs.dropWhile (· = '#') with
  | '"' :: rest => readUntil ('"' :: hashes) rest
  | _ => none

/-- Reads a text. -/
def readString (size : Nat) : Reader Ron
  | '"' :: rest =>
    (readQuoted size rest).map fun (text, rest) => (.string (String.ofList text), rest)
  | 'r' :: rest =>
    (readRaw rest).map fun (text, rest) => (.string (String.ofList text), rest)
  | _ => none

/-- Reads a character between its quotes. -/
def readChar : Reader Ron
  | '\'' :: '\\' :: rest =>
    (readEscape rest).bind fun (c, rest) => (expect '\'' rest).map fun rest => (.char c, rest)
  | '\'' :: c :: '\'' :: rest => if c = '\'' then none else some (.char c, rest)
  | _ => none

/-! ## Numbers -/

/-- The characters that an integer can have, in any base. -/
def isIntegerChar (c : Char) : Bool :=
  (hexValue c).isSome || c == '_'

/-- The characters that a number with a point or an exponent can have. -/
def isFloatChar (c : Char) : Bool :=
  c.isDigit || c == 'e' || c == 'E' || c == '+' || c == '-' || c == '.' || c == '_'

/-- The number that digits stand for in a base; underscores between them do not matter. -/
def digitsIn (base : Nat) : Nat → List Char → Option Nat
  | n, [] => some n
  | n, c :: rest =>
    if c = '_' then digitsIn base n rest
    else (hexValue c).bind fun v => if v < base then digitsIn base (base * n + v) rest else none

/-- Reads an integer without a sign that is below a limit. -/
def readInteger (limit : Nat) (cs : List Char) : Option (Nat × List Char) :=
  let (base, body) := match cs with
    | '0' :: 'x' :: rest => (16, rest)
    | '0' :: 'b' :: rest => (2, rest)
    | '0' :: 'o' :: rest => (8, rest)
    | _ => (10, cs)
  let run := body.takeWhile isIntegerChar
  if run = [] ∨ run.head? = some '_' then none
  else
    ((digitsIn base 0 run).filter (· < limit)).map fun n => (n, body.dropWhile isIntegerChar)

/-- Reads a number with a point or an exponent, or an integer that is too large. -/
def readFloat (cs : List Char) : Option (Ron × List Char) :=
  let run := cs.takeWhile isFloatChar
  if '_' ∈ run then none
  else (Decimal.float? run).map fun x => (.number x, cs.dropWhile isFloatChar)

/-- Reads a number whose text after the sign is `body`.  As an integer it is below a limit. -/
def readUnsigned (limit : Nat) (ofNat : Nat → Ron) (body cs : List Char) :
    Option (Ron × List Char) :=
  if (body.takeWhile isIntegerChar).length < (body.takeWhile isFloatChar).length then readFloat cs
  else
    match readInteger limit body with
    | some (n, rest) => some (ofNat n, rest)
    | none => readFloat cs

/-- Reads a number.  Integers have 64 bits, one of them for the sign if there is one. -/
def readNumber (cs : List Char) : Option (Ron × List Char) :=
  match cs with
  | '+' :: body => readUnsigned (Nat.pow 2 63) (fun n => .number (Float.ofNat n)) body cs
  | '-' :: body => readUnsigned (Nat.pow 2 63 + 1) (fun n => .number (-Float.ofNat n)) body cs
  | _ => readUnsigned (Nat.pow 2 64) .natural cs cs

/-! ## Values -/

/-- Reads elements with commas between them, up to a closing bracket; `separated` says whether the
next element may follow. -/
def readElements {α : Type} (element : Reader α) (closing : Char) :
    Nat → Bool → Reader (List α)
  | 0, _, _ => none
  | size + 1, separated, cs =>
    (skip cs).bind fun
      | [] => none
      | c :: rest =>
        if c = closing then some ([], rest)
        else if separated then
          (element (c :: rest)).bind fun (a, rest) =>
            (comma rest).bind fun (separated, rest) =>
              (readElements element closing size separated rest).map fun (as, rest) =>
                (a :: as, rest)
        else none

/-- Reads a key, a colon and a value. -/
def readEntry {α : Type} (key : Reader α) (value : Reader Ron) : Reader (α × Ron) := fun cs =>
  (key cs).bind fun (k, rest) =>
    (skip rest).bind fun rest =>
      (expect ':' rest).bind fun rest =>
        (skip rest).bind fun rest =>
          (value rest).map fun (v, rest) => ((k, v), rest)

/-- Whether the text after an opening parenthesis begins with a name and a colon. -/
def isRecord (cs : List Char) : Option Bool :=
  match readName cs with
  | none => some false
  | some (_, rest) => (skip rest).bind fun rest => rest.head?.map (· == ':')

/-- Reads a tuple or a record after its opening parenthesis. -/
def readGroup (size : Nat) (value : Reader Ron) (name : Option String) : Reader Ron := fun cs =>
  (skip cs).bind fun cs =>
    (isRecord cs).bind fun record =>
      if record then
        (readElements (readEntry readName value) ')' size true cs).map fun (fields, rest) =>
          (.record name fields, rest)
      else
        (readElements value ')' size true cs).map fun (vs, rest) => (.tuple name vs, rest)

/-- Reads what follows `Some`: a value in parentheses, or a bare one where that is enabled. -/
def readSome (bare : Bool) (value : Reader Ron) : Reader Ron := fun cs =>
  (skip cs).bind fun
    | '(' :: cs =>
      (skip cs).bind fun cs =>
        (value cs).bind fun (v, rest) =>
          (comma rest).bind fun (_, rest) =>
            (expect ')' rest).map fun rest => (.present v, rest)
    | cs => if bare then (value cs).map fun (v, rest) => (.present v, rest) else none

/-- The words that stand for values. -/
def reservedWords : List (String × Ron) :=
  [("true", .bool true), ("false", .bool false), ("None", .absent),
    ("inf", .number (1 / 0)), ("+inf", .number (1 / 0)), ("-inf", .number (-1 / 0)),
    ("NaN", .number (0 / 0)), ("+NaN", .number (0 / 0)), ("-NaN", .number (0 / 0))]

/-- Reads a list, a map, a tuple or a record with a name or without one. -/
def readCollection (size : Nat) (value : Reader Ron) (name : Option String) : Reader Ron
  | '(' :: rest => readGroup size value name rest
  | '[' :: rest => (readElements value ']' size true rest).map fun (vs, rest) => (.list vs, rest)
  | '{' :: rest =>
    (readElements (readEntry value value) '}' size true rest).map fun (entries, rest) =>
      (.map entries, rest)
  | _ => none

/-- Reads a value that begins with a name. -/
def readNamed (collection : Option String → Reader Ron) (name : String) : Reader Ron := fun cs =>
  (skip cs).bind fun rest =>
    if rest.head? = some '(' then collection (some name) rest else some (.word name, rest)

/-- Reads a value without a name. -/
def readUnnamed (size : Nat) (collection : Option String → Reader Ron) : Reader Ron := fun cs =>
  match cs with
  | '\'' :: _ => readChar cs
  | '"' :: _ | 'r' :: _ => readString size cs
  | c :: _ =>
    if c.isDigit || c == '+' || c == '-' then readNumber cs
    else if c = '.' then readFloat cs
    else collection none cs
  | [] => none

/-- Reads a value by readers of what follows `Some` and of collections. -/
def readWith (size : Nat) (present : Reader Ron) (collection : Option String → Reader Ron) :
    Reader Ron :=
  fun cs =>
    match reservedWords.findSome? fun (s, v) => (readWord s cs).map fun rest => (v, rest) with
    | some found => some found
    | none =>
      match readWord "Some" cs with
      | some rest => present rest
      | none =>
        match cs with
        | '(' :: ')' :: rest => some (.unit, rest)
        | _ =>
          match readName cs with
          | some (name, rest) => readNamed collection name rest
          | none => readUnnamed size collection cs

/-- The reader that reads nothing. -/
def nothing {α : Type} : Reader α := fun _ => none

/-- Reads a value in at most so many levels.  A collection takes one level and everything in it
another one; what follows `Some` takes one. -/
def readValue (size : Nat) (bare : Bool) : Nat → Reader Ron
  | 0, cs => readWith size nothing (fun _ => nothing) cs
  | 1, cs =>
    readWith size (readSome bare (readValue size bare 0)) (readCollection size nothing) cs
  | levels + 2, cs =>
    readWith size (readSome bare (readValue size bare (levels + 1)))
      (readCollection size (readValue size bare levels)) cs

/-! ## Documents -/

/-- The extension that lets the value of a `Some` stand without parentheses. -/
def bareSome : String := "implicit_some"

/-- The names of the extensions that a document can enable. -/
def extensionNames : List String :=
  ["unwrap_newtypes", bareSome, "unwrap_variant_newtypes"]

/-- Reads characters with blanks before each of them. -/
def expectAll : List Char → List Char → Option (List Char)
  | [], cs => some cs
  | c :: more, cs => (skip cs).bind fun cs => (expect c cs).bind (expectAll more)

/-- Reads the names of extensions. -/
def readExtensions : Nat → Reader (List String)
  | 0, _ => none
  | size + 1, cs =>
    (readName cs).bind fun (extension, rest) =>
      if extension ∈ extensionNames then
        (comma rest).bind fun (separated, rest) =>
          if rest.head?.any isNameChar then
            if separated then
              (readExtensions size rest).map fun (names, rest) => (extension :: names, rest)
            else none
          else some ([extension], rest)
      else none

/-- Reads the line that enables extensions. -/
def readAttribute (size : Nat) : Reader (List String) := fun cs =>
  (expectAll "#![".toList cs).bind fun cs =>
    (skip cs).bind fun cs =>
      let word := "enable".toList
      if cs.take word.length = word then
        (expectAll ['('] (cs.drop word.length)).bind fun cs =>
          (skip cs).bind fun cs =>
            (readExtensions size cs).bind fun (names, cs) =>
              (expectAll [')', ']'] cs).map fun cs => (names, cs)
      else none

/-- Reads the lines that enable extensions. -/
def readAttributes : Nat → Reader (List String)
  | 0, _ => none
  | size + 1, cs =>
    (skip cs).bind fun cs =>
      if cs.head? = some '#' then
        (readAttribute (size + 1) cs).bind fun (names, cs) =>
          (readAttributes size cs).map fun (more, cs) => (names ++ more, cs)
      else some ([], cs)

/-- Reads a whole text as one value. -/
def parse? (text : String) : Option Ron :=
  let size := text.length + 1
  (readAttributes size text.toList).bind fun (extensions, cs) =>
    (readValue size (extensions.contains bareSome) levelLimit cs).bind fun (v, rest) =>
      (skip rest).bind fun rest => if rest = [] then some v else none

end Phrasebook.Ron
