import SchemaTree.Json
import SchemaTree.Outline.Basic

/-!
# Outlines as JSON

The document of an outline names every part of it; a field without a default clause has no member
for it.
-/

namespace SchemaTree.Outline

def Field.document (field : Field) : Json :=
  .object <|
    [("name", .text field.name), ("number", .number field.number.toNat), ("type", .text field.type),
      ("marker", .text (String.singleton field.marker))] ++
    match field.defaultClause with
    | some clause => [("default", .text clause)]
    | none => []

def enumDocument (enum : Schema.Enum) : Json :=
  .object [("name", .text enum.name),
    ("values", .list (enum.values.map fun v =>
      .object [("name", .text v.name), ("number", .number v.number.toInt)]))]

def serviceDocument (service : Schema.Service) : Json :=
  .object [("name", .text service.name),
    ("methods", .list (service.methods.map fun m =>
      .object [("name", .text m.name), ("input", .text m.input), ("output", .text m.output),
        ("client_streaming", .bool m.clientStreaming), ("server_streaming", .bool m.serverStreaming)]))]

mutual

def messageDocument : Message → Json
  | ⟨name, fields, messages, enums⟩ =>
    .object [("name", .text name), ("fields", .list (fields.map Field.document)),
      ("messages", .list (messageDocuments messages)), ("enums", .list (enums.map enumDocument))]

def messageDocuments : List Message → List Json
  | [] => []
  | m :: rest => messageDocument m :: messageDocuments rest

end

def File.document (file : File) : Json :=
  .object [("name", .text file.name), ("syntax", .text file.dialect), ("package", .text file.package),
    ("imports", .list (file.imports.map .text)), ("messages", .list (messageDocuments file.messages)),
    ("enums", .list (file.enums.map enumDocument)), ("services", .list (file.services.map serviceDocument))]

def json (registry : Registry) : String :=
  (Json.list ((ofRegistry registry).map File.document)).pretty 0

end SchemaTree.Outline
