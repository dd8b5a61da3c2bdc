import DivisionAudit.Decimal.Layout
import DivisionAudit.Text.Printable

/-!
# Diagnostic texts of values

What is shown of a value for diagnosis is a tree: atoms, quoted texts, named tuples and records,
lists and maps. It is written on one line (`Diagnostic.inline`) or with one part per line, four
more blanks per level and a comma after every part (`Diagnostic.indented`).
-/

namespace DivisionAudit

/-- What is shown of a value. -/
inductive Diagnostic
  | atom (text : String)
  | quoted (text : String)
  | tuple (name : String) (parts : List Diagnostic)
  | record (name : String) (fields : List (String × Diagnostic))
  /-- A record some of whose fields are kept back. -/
  | openRecord (name : String) (fields : List (String × Diagnostic))
  | list (items : List Diagnostic)
  | map (entries : List (String × Diagnostic))

namespace Diagnostic

/-! ## Quoted texts -/

def escapeChar (c : Char) : List Char :=
  if c = '\x00' then ['\\', '0']
  else if c = '\t' then ['\\', 't']
  else if c = '\n' then ['\\', 'n']
  else if c = '\r' then ['\\', 'r']
  else if c = '"' then ['\\', '"']
  else if c = '\\' then ['\\', '\\']
  else if Text.isShown c then [c]
  else ['\\', 'u', '\x7b'] ++ Nat.toDigits 16 c.toNat ++ ['\x7d']

def quote (s : String) : String := String.ofList ('"' :: s.toList.flatMap escapeChar ++ ['"'])

/-! ## Atoms -/

def nat (n : Nat) : Diagnostic := .atom (toString n)

def word (n : Int64) : Diagnostic := .atom (toString n.toInt)

def unsigned (n : UInt64) : Diagnostic := nat n.toNat

def bool (b : Bool) : Diagnostic := .atom (if b then "true" else "false")

/-- Positional from `1e-4` up to `1e16`, and `1e16` beyond. -/
def doubleLayout : Layout := ⟨-4, 16, [], .up⟩

def doubleText (x : Binary64) : String :=
  if x.isNaN then "NaN"
  else if x.isInfinite then (if x.isNegative then "-inf" else "inf")
  else String.ofList (doubleLayout.write x)

def double (x : Binary64) : Diagnostic := .atom (doubleText x)

def option {α : Type} (f : α → Diagnostic) : Option α → Diagnostic
  | none => .atom "None"
  | some a => .tuple "Some" [f a]

/-! ## On one line -/

def commas (parts : List String) : String := ", ".intercalate parts

/-- A text between braces, which stand apart from it. -/
def braced (inside : String) : String := "\x7b " ++ inside ++ " \x7d"

mutual

def inline : Diagnostic → String
  | .atom text => text
  | .quoted text => quote text
  | .tuple name parts => name ++ "(" ++ commas (inlineItems parts) ++ ")"
  | .record name fields => name ++ " " ++ braced (commas (inlineFields id fields))
  | .openRecord name fields => name ++ " " ++ braced (commas (inlineFields id fields ++ [".."]))
  | .list items => "[" ++ commas (inlineItems items) ++ "]"
  | .map entries => "\x7b" ++ commas (inlineFields quote entries) ++ "\x7d"

def inlineItems : List Diagnostic → List String
  | [] => []
  | d :: ds => d.inline :: inlineItems ds

def inlineFields (key : String → String) : List (String × Diagnostic) → List String
  | [] => []
  | (k, d) :: rest => (key k ++ ": " ++ d.inline) :: inlineFields key rest

end

/-! ## One part per line -/

def indent (depth : Nat) : String := String.ofList (List.replicate (4 * depth) ' ')

/-- The parts between an opening and a closing mark, each on its line; without parts the marks
stand together. -/
def block (depth : Nat) (opening closing : String) (parts : List String) : String :=
  if parts.isEmpty then opening ++ closing
  else
    opening ++ "\n" ++ String.join (parts.map fun part => indent (depth + 1) ++ part ++ ",\n")
      ++ indent depth ++ closing

mutual

/-- The text with parts on lines of their own, at a depth of indentation. -/
def indented (depth : Nat) : Diagnostic → String
  | .atom text => text
  | .quoted text => quote text
  | .tuple name parts => block depth (name ++ "(") ")" (indentedItems (depth + 1) parts)
  | .record name fields =>
    block depth (name ++ " \x7b") "\x7d" (indentedFields (depth + 1) id fields)
  | .openRecord name fields =>
    name ++ " \x7b\n"
      ++ String.join ((indentedFields (depth + 1) id fields).map fun part =>
        indent (depth + 1) ++ part ++ ",\n")
      ++ indent (depth + 1) ++ "..\n" ++ indent depth ++ "\x7d"
  | .list items => block depth "[" "]" (indentedItems (depth + 1) items)
  | .map entries => block depth "\x7b" "\x7d" (indentedFields (depth + 1) quote entries)

def indentedItems (depth : Nat) : List Diagnostic → List String
  | [] => []
  | d :: ds => d.indented depth :: indentedItems depth ds

def indentedFields (depth : Nat) (key : String → String) :
    List (String × Diagnostic) → List String
  | [] => []
  | (k, d) :: rest => (key k ++ ": " ++ d.indented depth) :: indentedFields depth key rest

end

end Diagnostic

end DivisionAudit
