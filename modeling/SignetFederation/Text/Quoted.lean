import SignetFederation.Text.Hidden

/-!
# Quoted text

A text between quotation marks. A mark, a backslash, a tab, a line break and a zero character are
escaped by a letter; other characters that would not be seen are written by their codes in
hexadecimal; all else stands for itself.
-/

namespace SignetFederation.Text

/-- A character as it stands in quoted text. -/
def quotedChar (c : Char) : String :=
  if c = '"' then "\\\""
  else if c = '\\' then "\\\\"
  else if c = '\t' then "\\t"
  else if c = '\n' then "\\n"
  else if c = '\r' then "\\r"
  else if c.toNat = 0 then "\\0"
  else if c.toNat < 32 ∨ c.toNat ≥ 127 ∧ isHidden c then
    "\\u\x7b" ++ String.ofList (Nat.toDigits 16 c.toNat) ++ "\x7d"
  else String.singleton c

/-- A text between quotation marks. -/
def quoted (s : String) : String := s.toList.foldl (fun out c => out ++ quotedChar c) "\"" ++ "\""

end SignetFederation.Text
