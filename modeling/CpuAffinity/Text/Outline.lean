/-!
# Bracketed outlines

An outline shows a value for inspection: a name, brackets, and entries that are already
text. It is written on one line, or as a block with one entry a line, four blanks before
the entry and a comma after it. A block without entries is its two brackets.
-/

namespace CpuAffinity

/-- The shape of a value's text for inspection. -/
inductive Outline where
  | bare (name : String)
  | tuple (name : String) (entries : List String)
  | record (name : String) (fields : List (String × String))
  | set (entries : List String)
  | list (entries : List String)
  deriving DecidableEq, Repr

namespace Outline

/-- A record's entry is the field's name, a colon and the value. -/
def fieldEntry (field : String × String) : String := field.1 ++ ": " ++ field.2

/-- Entries on one line are separated by a comma and a blank. -/
def commaSeparated (entries : List String) : String := ", ".intercalate entries

/-- Entries of a block each take a line of their own, indented and closed by a comma. -/
def rows : List String → String
  | [] => ""
  | entry :: rest => "    " ++ entry ++ ",\n" ++ rows rest

/-- A block without entries stays on one line. -/
def block (opening closing : String) : List String → String
  | [] => opening ++ closing
  | entries => opening ++ "\n" ++ rows entries ++ closing

/-- Write the outline on one line; only a record keeps blanks inside its braces. -/
def oneLine : Outline → String
  | bare name => name
  | tuple name entries => name ++ "(" ++ commaSeparated entries ++ ")"
  | record name fields => name ++ " \x7b " ++ commaSeparated (fields.map fieldEntry) ++ " \x7d"
  | set entries => "\x7b" ++ commaSeparated entries ++ "\x7d"
  | list entries => "[" ++ commaSeparated entries ++ "]"

/-- Write the outline as a block. -/
def multiLine : Outline → String
  | bare name => name
  | tuple name entries => block (name ++ "(") ")" entries
  | record name fields => block (name ++ " \x7b") "\x7d" (fields.map fieldEntry)
  | set entries => block "\x7b" "\x7d" entries
  | list entries => block "[" "]" entries

end Outline

end CpuAffinity
