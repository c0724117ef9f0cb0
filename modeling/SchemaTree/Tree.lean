import SchemaTree.Schema.FieldLine
import SchemaTree.Walk

/-!
# The text tree

The lines that show a file: a header, its imports, and a block for each message, enum and service.
Blocks are indented by one copy of the indent text for each level; the lines of a block that stand
deeper than its braces have a fixed blank or two more.
-/

namespace SchemaTree.Tree

open Schema

/-! ### Lines -/

def margin (indent : String) (depth : Nat) : String := String.join (List.replicate depth indent)

def header (file : File) : List String :=
  ["", "======== Proto File: " ++ file.name ++ " ========",
    "Syntax: " ++ file.dialect.token,
    "Package: " ++ file.package,
    "Path: " ++ file.name] ++
  if file.imports.isEmpty then [] else "Imports:" :: file.imports.map ("  - " ++ ·)

def fieldLine (field : Field) : String :=
  let clause := match field.defaultClause? with
    | some text => " = " ++ text
    | none => ""
  " [" ++ String.singleton field.marker.char ++ "]" ++ field.kind.token ++ " " ++ field.name ++ clause ++ ";"

def valueLine (value : EnumValue) : String :=
  "  " ++ value.name ++ " = " ++ Text.intText value.number.toInt ++ ";"

/-- A message name in a method, with the word for a stream before it. -/
def endpoint (streaming : Bool) (name : String) : String :=
  if streaming then "stream " ++ name else name

def methodLine (method : Method) : String :=
  "  rpc " ++ method.name ++ " (" ++ endpoint method.clientStreaming method.input ++ ") returns (" ++
    endpoint method.serverStreaming method.output ++ ");"

/-! ### The visitor -/

def lister (indent : String) : Visitor (Array String) where
  beginFile file lines := lines.appendList (header file)
  beginSection title lines := lines.push (title.title ++ ":")
  beginMessage message depth lines :=
    lines.push (margin indent depth ++ "message " ++ message.name ++ " \x7b")
  field field depth lines := lines.push (margin indent depth ++ fieldLine field)
  endMessage _ depth lines := lines.push (margin indent depth ++ "\x7d")
  enum enum depth lines :=
    let margin := margin indent depth
    ((lines.push (margin ++ "enum " ++ enum.name ++ " \x7b")).appendList
      (enum.values.map (margin ++ valueLine ·))).push (margin ++ "\x7d")
  service service depth lines :=
    let margin := margin indent depth
    ((lines.push (margin ++ "service " ++ service.name ++ " \x7b")).appendList
      (service.methods.map (margin ++ methodLine ·))).push (margin ++ "\x7d")

/-- Four blanks, the indent text if none is given. -/
def defaultIndent : String := "    "

def lines (indent : String) (registry : Registry) : List String := (walk (lister indent) registry #[]).toList

def fileLines (indent : String) (file : File) : List String := (walkFile (lister indent) file #[]).toList

/-- The lines of a registry as one text, each with a line break after it. -/
def text (indent : String) (registry : Registry) : String :=
  (lines indent registry).foldl (fun text line => text ++ line ++ "\n") ""

/-- Hands each line of a registry, with a line break after it, to a sink. -/
def write (emit : σ → String → σ) (indent : String) (registry : Registry) (sink : σ) : σ :=
  (lines indent registry).foldl (fun sink line => emit sink (line ++ "\n")) sink

end SchemaTree.Tree
