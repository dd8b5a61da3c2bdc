import DivisionAudit.Decimal.Layout

/-!
# Compact JSON

A value is written without blanks and its fields in the order given. Strings escape the quote, the
backslash and the characters below the blank, by their short names where they have one; all else
stands raw. Numbers keep the shortest digits, and a number that is not finite is written `null`.
-/

namespace DivisionAudit

inductive Json
  | null
  | bool (value : Bool)
  | int (value : Int)
  | double (value : Binary64)
  | string (value : String)
  | array (items : List Json)
  | object (fields : List (String × Json))

namespace Json

/-- Positional from `1e-5` up to `1e16`, and `1e+16` beyond. -/
def layout : Layout := ⟨-5, 16, ['+'], .even⟩

/-- How a character stands in a string. -/
def escapeChar (c : Char) : List Char :=
  if c = '"' then ['\\', '"']
  else if c = '\\' then ['\\', '\\']
  else if c = '\x08' then ['\\', 'b']
  else if c = '\x0c' then ['\\', 'f']
  else if c = '\n' then ['\\', 'n']
  else if c = '\r' then ['\\', 'r']
  else if c = '\t' then ['\\', 't']
  else if c.toNat < 0x20 then
    ['\\', 'u', '0', '0', Nat.digitChar (c.toNat / 16), Nat.digitChar (c.toNat % 16)]
  else [c]

/-- A string in quotes. -/
def quote (s : String) : List Char := '"' :: s.toList.flatMap escapeChar ++ ['"']

def ofNat (n : Nat) : Json := .int n

/-- A missing number is `null`. -/
def ofNat? : Option Nat → Json
  | none => .null
  | some n => ofNat n

def ofWord (n : Int64) : Json := .int n.toInt

mutual

def chars : Json → List Char
  | .null => "null".toList
  | .bool true => "true".toList
  | .bool false => "false".toList
  | .int n => (toString n).toList
  | .double x => if x.isFinite then layout.write x else "null".toList
  | .string s => quote s
  | .array items => '[' :: itemChars items ++ [']']
  | .object fields => '\x7b' :: fieldChars fields ++ ['\x7d']

def itemChars : List Json → List Char
  | [] => []
  | [v] => v.chars
  | v :: w :: rest => v.chars ++ ',' :: itemChars (w :: rest)

def fieldChars : List (String × Json) → List Char
  | [] => []
  | [(k, v)] => quote k ++ ':' :: v.chars
  | (k, v) :: f :: rest => quote k ++ ':' :: v.chars ++ ',' :: fieldChars (f :: rest)

end

def text (v : Json) : String := String.ofList v.chars

end Json

end DivisionAudit
