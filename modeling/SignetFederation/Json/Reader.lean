/-!
# Reading JSON into typed values

A reader takes a value of an expected shape off the front of a text. It fails in one of two ways:
the text breaks the grammar, or it is well formed so far and holds another shape than expected.
Failures are met in the order of the text, so a wrong shape early hides a broken grammar later.

A record is read from an object, or from an array in the order of its fields. In an object the
fields come in any order, none comes twice, and members of other names are skipped unless they are
forbidden. A skipped value needs to follow the grammar only: its escapes need not name characters.
-/

namespace SignetFederation.Json

/-- Why a text is not the value that was expected. -/
inductive Fault where
  | grammar
  | shape
  deriving DecidableEq

/-- Takes a value off the front of a text. -/
abbrev Reader (α : Type) := StateT (List Char) (Except Fault) α

/-- Whether a character may stand between tokens. -/
def isSpace (c : Char) : Bool := c = ' ' || c = '\n' || c = '\t' || c = '\r'

/-- A text without the blanks before its next token. -/
def skipSpace (cs : List Char) : List Char := cs.dropWhile isSpace

/-- The value of a hexadecimal digit. -/
def hexDigit? (c : Char) : Option Nat :=
  if '0' ≤ c ∧ c ≤ '9' then some (c.toNat - 48)
  else if 'a' ≤ c ∧ c ≤ 'f' then some (c.toNat - 87)
  else if 'A' ≤ c ∧ c ≤ 'F' then some (c.toNat - 55)
  else none

/-- The code unit that four digits write. -/
def codeUnit? (a b c d : Char) : Option Nat := do
  return (← hexDigit? a) * 4096 + (← hexDigit? b) * 256 + (← hexDigit? c) * 16 + (← hexDigit? d)

/-- The character of a one-letter escape. -/
def shortEscape? (c : Char) : Option Char :=
  if c = '"' ∨ c = '\\' ∨ c = '/' then some c
  else if c = 'b' then some (Char.ofNat 8)
  else if c = 'f' then some (Char.ofNat 12)
  else if c = 'n' then some '\n'
  else if c = 'r' then some '\r'
  else if c = 't' then some '\t'
  else none

/-- The rest of a string literal after its opening mark, with what was read so far in reverse. A
code unit of a surrogate pair must be followed by its other half. -/
def stringBody (acc : List Char) : List Char → Except Fault (String × List Char)
  | [] => .error .grammar
  | '"' :: rest => .ok (String.ofList acc.reverse, rest)
  | '\\' :: 'u' :: a :: b :: c :: d :: '\\' :: 'u' :: e :: f :: g :: h :: rest =>
    match codeUnit? a b c d, codeUnit? e f g h with
    | some hi, some lo =>
      if 0xD800 ≤ hi ∧ hi < 0xDC00 then
        if 0xDC00 ≤ lo ∧ lo < 0xE000 then
          stringBody (Char.ofNat (0x10000 + (hi - 0xD800) * 1024 + (lo - 0xDC00)) :: acc) rest
        else .error .grammar
      else if 0xDC00 ≤ hi ∧ hi < 0xE000 then .error .grammar
      else if 0xDC00 ≤ lo ∧ lo < 0xE000 then .error .grammar
      else stringBody (Char.ofNat hi :: acc) ('\\' :: 'u' :: e :: f :: g :: h :: rest)
    | _, _ => .error .grammar
  | '\\' :: 'u' :: a :: b :: c :: d :: rest =>
    match codeUnit? a b c d with
    | some n =>
      if 0xD800 ≤ n ∧ n < 0xE000 then .error .grammar
      else stringBody (Char.ofNat n :: acc) rest
    | none => .error .grammar
  | '\\' :: c :: rest =>
    match shortEscape? c with
    | some e => stringBody (e :: acc) rest
    | none => .error .grammar
  | c :: rest => if c.toNat < 32 ∨ c = '\\' then .error .grammar else stringBody (c :: acc) rest
termination_by cs => cs.length

/-- The text after a string literal whose content does not matter. -/
def skipString : List Char → Except Fault (List Char)
  | [] => .error .grammar
  | '"' :: rest => .ok rest
  | '\\' :: 'u' :: a :: b :: c :: d :: rest =>
    if (codeUnit? a b c d).isSome then skipString rest else .error .grammar
  | '\\' :: c :: rest => if (shortEscape? c).isSome then skipString rest else .error .grammar
  | c :: rest => if c.toNat < 32 ∨ c = '\\' then .error .grammar else skipString rest

/-- Whether a character is a decimal digit. -/
def isDigit (c : Char) : Bool := '0' ≤ c && c ≤ '9'

/-- A number token: its sign, its integer digits, and whether it has neither fraction nor
exponent. -/
structure Number where
  negative : Bool
  digits : List Char
  integral : Bool

/-- One or more digits off the front of a text. -/
def digits (cs : List Char) : Except Fault (List Char × List Char) :=
  match cs.takeWhile isDigit with
  | [] => .error .grammar
  | ds => .ok (ds, cs.dropWhile isDigit)

/-- The text after an optional exponent, and whether there was one. -/
def exponent : List Char → Except Fault (Bool × List Char)
  | c :: rest =>
    if c = 'e' ∨ c = 'E' then
      let unsigned := match rest with
        | '+' :: more => more
        | '-' :: more => more
        | more => more
      (digits unsigned).map fun (_, after) => (true, after)
    else .ok (false, c :: rest)
  | [] => .ok (false, [])

/-- A number off the front of a text. Its integer part has no leading zero. -/
def number (cs : List Char) : Except Fault (Number × List Char) := do
  let (negative, cs) := match cs with
    | '-' :: rest => (true, rest)
    | other => (false, other)
  let (ds, cs) ← digits cs
  if ds.length > 1 ∧ ds.head? = some '0' then throw .grammar
  let (hasFraction, cs) ← match cs with
    | '.' :: rest => (digits rest).map fun (_, after) => (true, after)
    | other => .ok (false, other)
  let (hasExponent, cs) ← exponent cs
  return (⟨negative, ds, !hasFraction && !hasExponent⟩, cs)

/-- The text after a given word. -/
def word (w : List Char) (cs : List Char) : Except Fault (List Char) :=
  if w.isPrefixOf cs then .ok (cs.drop w.length) else .error .grammar

/-- The text after a scalar value. -/
def skipScalar : List Char → Except Fault (List Char)
  | '"' :: rest => skipString rest
  | 'n' :: rest => word ['u', 'l', 'l'] rest
  | 't' :: rest => word ['r', 'u', 'e'] rest
  | 'f' :: rest => word ['a', 'l', 's', 'e'] rest
  | cs => (number cs).map (·.2)

/-- What a skipping reader is about to meet. -/
inductive Expected where
  | value
  | firstItem
  | key
  | firstKey
  | next

/-- The text after a value. The stack tells for each open bracket whether it is an object's. Every
step takes a character or changes `next` into another expectation, so three steps a character
are enough fuel. -/
def skipAux : (fuel : Nat) → (stack : List Bool) → Expected → List Char → Except Fault (List Char)
  | 0, _, _, _ => .error .grammar
  | fuel + 1, stack, expected, cs =>
    match expected, skipSpace cs with
    | .next, rest =>
      match stack, rest with
      | [], _ => .ok cs
      | false :: outer, ']' :: after => skipAux fuel outer .next after
      | true :: outer, '\x7d' :: after => skipAux fuel outer .next after
      | false :: outer, ',' :: after => skipAux fuel (false :: outer) .value after
      | true :: outer, ',' :: after => skipAux fuel (true :: outer) .key after
      | _, _ => .error .grammar
    | .firstItem, ']' :: after => skipAux fuel stack.tail .next after
    | .firstKey, '\x7d' :: after => skipAux fuel stack.tail .next after
    | .key, '"' :: after | .firstKey, '"' :: after =>
      match skipString after with
      | .error e => .error e
      | .ok after =>
        match skipSpace after with
        | ':' :: after => skipAux fuel stack .value after
        | _ => .error .grammar
    | .key, _ | .firstKey, _ => .error .grammar
    | .value, '[' :: after | .firstItem, '[' :: after =>
      skipAux fuel (false :: stack) .firstItem after
    | .value, '\x7b' :: after | .firstItem, '\x7b' :: after =>
      skipAux fuel (true :: stack) .firstKey after
    | .value, rest | .firstItem, rest =>
      match skipScalar rest with
      | .error e => .error e
      | .ok after => skipAux fuel stack .next after

/-- Skips a value of any shape. -/
def skip : Reader Unit := fun cs =>
  (skipAux (3 * cs.length + 3) [] .value cs).map fun rest => ((), rest)

/-- The failure at a value of another shape than expected: a scalar is read to its end first. -/
def otherShape (cs : List Char) : Fault :=
  match cs with
  | '[' :: _ => .shape
  | '\x7b' :: _ => .shape
  | '"' :: rest => match stringBody [] rest with
    | .ok _ => .shape
    | .error e => e
  | other => match skipScalar other with
    | .ok _ => .shape
    | .error e => e

/-- Reads a string. -/
def string : Reader String := fun cs =>
  match skipSpace cs with
  | '"' :: rest => stringBody [] rest
  | other => .error (otherShape other)

/-- Reads a natural number below a bound. -/
def natural (bound : Nat) : Reader Nat := fun cs =>
  let cs := skipSpace cs
  match cs with
  | c :: _ =>
    if c = '-' ∨ isDigit c then
      match number cs with
      | .error e => .error e
      | .ok (n, rest) =>
        let value := n.digits.foldl (fun acc d => 10 * acc + (d.toNat - 48)) 0
        if n.integral ∧ !n.negative ∧ value < bound then .ok (value, rest) else .error .shape
    else .error (otherShape cs)
  | [] => .error .grammar

/-- Reads a truth value. -/
def boolean : Reader Bool := fun cs =>
  match skipSpace cs with
  | 't' :: rest => (word ['r', 'u', 'e'] rest).map fun after => (true, after)
  | 'f' :: rest => (word ['a', 'l', 's', 'e'] rest).map fun after => (false, after)
  | other => .error (otherShape other)

/-- Reads `null`. -/
def nothing : Reader Unit := fun cs =>
  match skipSpace cs with
  | 'n' :: rest => (word ['u', 'l', 'l'] rest).map fun after => ((), after)
  | other => .error (otherShape other)

/-- Reads `null` as no value. -/
def optional {α : Type} (item : Reader α) : Reader (Option α) := fun cs =>
  match skipSpace cs with
  | 'n' :: rest => (word ['u', 'l', 'l'] rest).map fun after => (none, after)
  | other => (item other).map fun (v, after) => (some v, after)

/-- The text where the next element starts: every element but the first follows a comma. -/
def afterComma (first : Bool) (cs : List Char) : Except Fault (List Char) :=
  match first, cs with
  | true, cs => .ok cs
  | false, ',' :: after => .ok (skipSpace after)
  | false, _ => .error .grammar

/-- The elements up to the closing bracket, in reverse after `acc`. -/
def arrayAux {α : Type} (item : Reader α) :
    (fuel : Nat) → (first : Bool) → (acc : List α) → List Char → Except Fault (List α × List Char)
  | 0, _, _, _ => .error .grammar
  | fuel + 1, first, acc, cs =>
    match skipSpace cs with
    | ']' :: after => .ok (acc.reverse, after)
    | cs =>
      match afterComma first cs with
      | .error e => .error e
      | .ok [] => .error .grammar
      | .ok (']' :: _) => .error .grammar
      | .ok cs =>
        match item cs with
        | .error e => .error e
        | .ok (v, after) => arrayAux item fuel false (v :: acc) after

/-- Reads an array of values of one shape. -/
def array {α : Type} (item : Reader α) : Reader (List α) := fun cs =>
  match skipSpace cs with
  | '[' :: rest => arrayAux item (rest.length + 1) true [] rest
  | other => .error (otherShape other)

/-- A field of a record that is read into `σ`. -/
structure Field (σ : Type) where
  name : String
  /-- Whether the field was read before. -/
  isSet : σ → Bool
  /-- Reads the field's value. -/
  read : σ → Reader σ

/-- The fields of a record in an array, in their order. -/
def recordItems {σ : Type} : List (Field σ) → (first : Bool) → σ → List Char →
    Except Fault (σ × List Char)
  | [], _, s, cs =>
    match skipSpace cs with
    | ']' :: after => .ok (s, after)
    | _ => .error .grammar
  | f :: more, first, s, cs =>
    match skipSpace cs with
    | ']' :: _ => .error .shape
    | cs =>
      match afterComma first cs with
      | .error e => .error e
      | .ok (']' :: _) => .error .grammar
      | .ok cs =>
        match f.read s cs with
        | .error e => .error e
        | .ok (s, after) => recordItems more false s after

/-- How the member of a name is read: a field once, another member only to be skipped. -/
def memberReader {σ : Type} (fields : List (Field σ)) (closed : Bool) (s : σ) (key : String) :
    Except Fault (Reader σ) :=
  match fields.find? (·.name == key) with
  | some f => if f.isSet s then .error .shape else .ok (f.read s)
  | none => if closed then .error .shape else .ok (do skip; return s)

/-- The members of a record in an object, up to the closing brace. -/
def recordMembers {σ : Type} (fields : List (Field σ)) (closed : Bool) :
    (fuel : Nat) → (first : Bool) → σ → List Char → Except Fault (σ × List Char)
  | 0, _, _, _ => .error .grammar
  | fuel + 1, first, s, cs =>
    match skipSpace cs with
    | '\x7d' :: after => .ok (s, after)
    | cs =>
      match afterComma first cs with
      | .error e => .error e
      | .ok ('"' :: body) =>
        match stringBody [] body with
        | .error e => .error e
        | .ok (key, after) =>
          match memberReader fields closed s key with
          | .error e => .error e
          | .ok read =>
            match skipSpace after with
            | ':' :: after =>
              match read after with
              | .error e => .error e
              | .ok (s, after) => recordMembers fields closed fuel false s after
            | _ => .error .grammar
      | .ok _ => .error .grammar

/-- Reads a record; `finish` fails when a field that must be there is missing. -/
def record {σ α : Type} (fields : List (Field σ)) (start : σ) (finish : σ → Option α)
    (closed : Bool) : Reader α := fun cs => do
  let (s, rest) ← match skipSpace cs with
    | '[' :: rest => recordItems fields true start rest
    | '\x7b' :: rest => recordMembers fields closed (rest.length + 1) true start rest
    | other => .error (otherShape other)
  match finish s with
  | some v => return (v, rest)
  | none => throw .shape

/-- A field whose value is kept by `set` once read. -/
def field {σ β : Type} (name : String) (get : σ → Option β) (set : β → σ → σ) (item : Reader β) :
    Field σ where
  name := name
  isSet s := (get s).isSome
  read s := do return set (← item) s

/-- One of several named forms. -/
inductive Variant (α : Type) where
  | bare (value : α)
  | carrying (payload : Reader α)

/-- Reads a choice between named forms: a bare one as its name, or as an object from its name to
`null`; one that carries a payload as an object from its name to the payload. -/
def choice {α : Type} (variants : List (String × Variant α)) : Reader α := fun cs =>
  match skipSpace cs with
  | '"' :: body => do
    let (name, rest) ← stringBody [] body
    match variants.lookup name with
    | some (.bare v) => return (v, rest)
    | _ => throw .shape
  | '\x7b' :: rest =>
    match skipSpace rest with
    | '"' :: body => do
      let (name, rest) ← stringBody [] body
      let payload : Reader α ← match variants.lookup name with
        | some (.bare v) => pure (do nothing; return v)
        | some (.carrying payload) => pure payload
        | none => throw .shape
      match skipSpace rest with
      | ':' :: rest =>
        let (v, rest) ← payload rest
        match skipSpace rest with
        | '\x7d' :: rest => return (v, rest)
        | _ => throw .grammar
      | _ => throw .grammar
    | other => .error (otherShape other)
  | _ => .error .grammar

/-- The value that a whole text holds. -/
def parse {α : Type} (item : Reader α) (s : String) : Except Fault α := do
  let (v, rest) ← item s.toList
  if skipSpace rest = [] then return v else throw .grammar

end SignetFederation.Json
