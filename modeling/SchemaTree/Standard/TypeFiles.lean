import SchemaTree.Standard.Source

/-!
# The standard files of common types

Messages for any type, spans and points of time, values without a schema, wrapped scalars and the
description of types and services.
-/

namespace SchemaTree.Standard

/-- A message of any type. -/
def any : Source where
  name := "google/protobuf/any.proto"
  items := [
    "syntax = \"proto3\";",
    "package google.protobuf;",
    block "message Any" [
      "string type_url = 1;",
      "bytes value = 2;"]]

/-- Descriptions of services. -/
def api : Source where
  name := "google/protobuf/api.proto"
  items := [
    "syntax = \"proto3\";",
    "package google.protobuf;",
    "import \"google/protobuf/source_context.proto\";",
    "import \"google/protobuf/type.proto\";",
    block "message Api" [
      "string name = 1;",
      "repeated Method methods = 2;",
      "repeated Option options = 3;",
      "string version = 4;",
      "SourceContext source_context = 5;",
      "repeated Mixin mixins = 6;",
      "Syntax syntax = 7;"],
    block "message Method" [
      "string name = 1;",
      "string request_type_url = 2;",
      "bool request_streaming = 3;",
      "string response_type_url = 4;",
      "bool response_streaming = 5;",
      "repeated Option options = 6;",
      "Syntax syntax = 7;"],
    block "message Mixin" [
      "string name = 1;",
      "string root = 2;"]]

/-- Spans of time. -/
def duration : Source where
  name := "google/protobuf/duration.proto"
  items := [
    "syntax = \"proto3\";",
    "package google.protobuf;",
    block "message Duration" [
      "int64 seconds = 1;",
      "int32 nanos = 2;"]]

/-- The message without fields. -/
def empty : Source where
  name := "google/protobuf/empty.proto"
  items := [
    "syntax = \"proto3\";",
    "package google.protobuf;",
    block "message Empty" []]

/-- Sets of field paths. -/
def fieldMask : Source where
  name := "google/protobuf/field_mask.proto"
  items := [
    "syntax = \"proto3\";",
    "package google.protobuf;",
    block "message FieldMask" [
      "repeated string paths = 1;"]]

/-- Where a declaration comes from. -/
def sourceContext : Source where
  name := "google/protobuf/source_context.proto"
  items := [
    "syntax = \"proto3\";",
    "package google.protobuf;",
    block "message SourceContext" [
      "string file_name = 1;"]]

/-- Values without a schema. -/
def struct : Source where
  name := "google/protobuf/struct.proto"
  items := [
    "syntax = \"proto3\";",
    "package google.protobuf;",
    block "message Struct" [
      "map<string, Value> fields = 1;"],
    block "message Value" [
      block "oneof kind" [
        "NullValue null_value = 1;",
        "double number_value = 2;",
        "string string_value = 3;",
        "bool bool_value = 4;",
        "Struct struct_value = 5;",
        "ListValue list_value = 6;"]],
    block "enum NullValue" [
      "NULL_VALUE = 0;"],
    block "message ListValue" [
      "repeated Value values = 1;"]]

/-- Points in time. -/
def timestamp : Source where
  name := "google/protobuf/timestamp.proto"
  items := [
    "syntax = \"proto3\";",
    "package google.protobuf;",
    block "message Timestamp" [
      "int64 seconds = 1;",
      "int32 nanos = 2;"]]

/-- Descriptions of types. -/
def type : Source where
  name := "google/protobuf/type.proto"
  items := [
    "syntax = \"proto3\";",
    "package google.protobuf;",
    "import \"google/protobuf/any.proto\";",
    "import \"google/protobuf/source_context.proto\";",
    block "message Type" [
      "string name = 1;",
      "repeated Field fields = 2;",
      "repeated string oneofs = 3;",
      "repeated Option options = 4;",
      "SourceContext source_context = 5;",
      "Syntax syntax = 6;"],
    block "message Field" [
      block "enum Kind" [
        "TYPE_UNKNOWN = 0;",
        "TYPE_DOUBLE = 1;",
        "TYPE_FLOAT = 2;",
        "TYPE_INT64 = 3;",
        "TYPE_UINT64 = 4;",
        "TYPE_INT32 = 5;",
        "TYPE_FIXED64 = 6;",
        "TYPE_FIXED32 = 7;",
        "TYPE_BOOL = 8;",
        "TYPE_STRING = 9;",
        "TYPE_GROUP = 10;",
        "TYPE_MESSAGE = 11;",
        "TYPE_BYTES = 12;",
        "TYPE_UINT32 = 13;",
        "TYPE_ENUM = 14;",
        "TYPE_SFIXED32 = 15;",
        "TYPE_SFIXED64 = 16;",
        "TYPE_SINT32 = 17;",
        "TYPE_SINT64 = 18;"],
      block "enum Cardinality" [
        "CARDINALITY_UNKNOWN = 0;",
        "CARDINALITY_OPTIONAL = 1;",
        "CARDINALITY_REQUIRED = 2;",
        "CARDINALITY_REPEATED = 3;"],
      "Kind kind = 1;",
      "Cardinality cardinality = 2;",
      "int32 number = 3;",
      "string name = 4;",
      "string type_url = 6;",
      "int32 oneof_index = 7;",
      "bool packed = 8;",
      "repeated Option options = 9;",
      "string json_name = 10;",
      "string default_value = 11;"],
    block "message Enum" [
      "string name = 1;",
      "repeated EnumValue enumvalue = 2;",
      "repeated Option options = 3;",
      "SourceContext source_context = 4;",
      "Syntax syntax = 5;"],
    block "message EnumValue" [
      "string name = 1;",
      "int32 number = 2;",
      "repeated Option options = 3;"],
    block "message Option" [
      "string name = 1;",
      "Any value = 2;"],
    block "enum Syntax" [
      "SYNTAX_PROTO2 = 0;",
      "SYNTAX_PROTO3 = 1;"]]

/-- Scalars as messages. -/
def wrappers : Source where
  name := "google/protobuf/wrappers.proto"
  items := [
    "syntax = \"proto3\";",
    "package google.protobuf;",
    block "message DoubleValue" [
      "double value = 1;"],
    block "message FloatValue" [
      "float value = 1;"],
    block "message Int64Value" [
      "int64 value = 1;"],
    block "message UInt64Value" [
      "uint64 value = 1;"],
    block "message Int32Value" [
      "int32 value = 1;"],
    block "message UInt32Value" [
      "uint32 value = 1;"],
    block "message BoolValue" [
      "bool value = 1;"],
    block "message StringValue" [
      "string value = 1;"],
    block "message BytesValue" [
      "bytes value = 1;"]]

end SchemaTree.Standard
