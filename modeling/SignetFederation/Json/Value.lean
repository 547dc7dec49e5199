import SignetFederation.Bytes.Hex

/-!
# JSON values and their text

A value is written in one of two layouts: compact, without any blank, or indented by two spaces per
level with one member or element a line. Strings escape the quotation mark, the backslash and the
control characters, with the short forms where they exist; all other characters stand as they are.
-/

namespace SignetFederation.Json

/-- A JSON value whose numbers are natural. -/
inductive Value where
  | null
  | bool (b : Bool)
  | nat (n : Nat)
  | str (s : String)
  | arr (items : List Value)
  | obj (members : List (String × Value))

/-- The escaped form of a character. -/
def escapeChar (c : Char) : String :=
  if c = '"' then "\\\""
  else if c = '\\' then "\\\\"
  else if c = '\n' then "\\n"
  else if c = '\r' then "\\r"
  else if c = '\t' then "\\t"
  else if c.toNat = 8 then "\\b"
  else if c.toNat = 12 then "\\f"
  else if c.toNat < 32 then "\\u00" ++ Hex.encode [UInt8.ofNat c.toNat]
  else String.singleton c

/-- A string literal. -/
def quote (s : String) : String :=
  s.toList.foldl (fun out c => out ++ escapeChar c) "\"" ++ "\""

namespace Value

mutual
/-- The compact layout. -/
def compact : Value → String
  | null => "null"
  | bool true => "true"
  | bool false => "false"
  | nat n => toString n
  | str s => quote s
  | arr items => "[" ++ compactItems items ++ "]"
  | obj members => "\x7b" ++ compactMembers members ++ "\x7d"

/-- Elements with commas between them. -/
def compactItems : List Value → String
  | [] => ""
  | [v] => compact v
  | v :: w :: rest => compact v ++ "," ++ compactItems (w :: rest)

/-- Members with commas between them. -/
def compactMembers : List (String × Value) → String
  | [] => ""
  | [(k, v)] => quote k ++ ":" ++ compact v
  | (k, v) :: m :: rest => quote k ++ ":" ++ compact v ++ "," ++ compactMembers (m :: rest)
end

/-- The line break before an element at a level. -/
def newline (level : Nat) : String := String.ofList ('\n' :: List.replicate (2 * level) ' ')

mutual
/-- The indented layout of a value that stands at a level. -/
def indented (level : Nat) : Value → String
  | null => "null"
  | bool true => "true"
  | bool false => "false"
  | nat n => toString n
  | str s => quote s
  | arr [] => "[]"
  | arr (v :: rest) => "[" ++ indentedItems level (v :: rest) ++ newline level ++ "]"
  | obj [] => "\x7b\x7d"
  | obj (m :: rest) => "\x7b" ++ indentedMembers level (m :: rest) ++ newline level ++ "\x7d"

/-- Elements one level further in, each on its line. -/
def indentedItems (level : Nat) : List Value → String
  | [] => ""
  | [v] => newline (level + 1) ++ indented (level + 1) v
  | v :: w :: rest =>
    newline (level + 1) ++ indented (level + 1) v ++ "," ++ indentedItems level (w :: rest)

/-- Members one level further in, each on its line. -/
def indentedMembers (level : Nat) : List (String × Value) → String
  | [] => ""
  | [(k, v)] => newline (level + 1) ++ quote k ++ ": " ++ indented (level + 1) v
  | (k, v) :: m :: rest =>
    newline (level + 1) ++ quote k ++ ": " ++ indented (level + 1) v ++ "," ++
      indentedMembers level (m :: rest)
end

/-- The indented layout. -/
def pretty (v : Value) : String := indented 0 v

/-- A member put in its place among members with ascending keys. -/
def insertMember (m : String × Value) : List (String × Value) → List (String × Value)
  | [] => [m]
  | n :: rest => if m.1 < n.1 then m :: n :: rest else n :: insertMember m rest

mutual
/-- The value with the members of every object in ascending order of their keys. -/
def sorted : Value → Value
  | arr items => arr (sortedItems items)
  | obj members => obj (sortedMembers members)
  | v => v

/-- Every element with its members in order. -/
def sortedItems : List Value → List Value
  | [] => []
  | v :: rest => sorted v :: sortedItems rest

/-- The members in order. -/
def sortedMembers : List (String × Value) → List (String × Value)
  | [] => []
  | (k, v) :: rest => insertMember (k, sorted v) (sortedMembers rest)
end

end Value

end SignetFederation.Json
