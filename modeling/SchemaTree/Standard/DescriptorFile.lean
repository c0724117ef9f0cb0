import SchemaTree.Standard.OptionTypes

/-!
# The standard file of declared files

The messages that descriptor sets consist of, with the options messages of every sort of declaration.
-/

namespace SchemaTree.Standard

/-- Declared files. -/
def descriptor : Source where
  name := optionTypes.name
  items := [
    "syntax = \"proto2\";",
    "package google.protobuf;",
    block "message FileDescriptorSet" [
      "repeated FileDescriptorProto file = 1;"],
    block "message FileDescriptorProto" [
      "optional string name = 1;",
      "optional string package = 2;",
      "repeated string dependency = 3;",
      "repeated int32 public_dependency = 10;",
      "repeated int32 weak_dependency = 11;",
      "repeated DescriptorProto message_type = 4;",
      "repeated EnumDescriptorProto enum_type = 5;",
      "repeated ServiceDescriptorProto service = 6;",
      "repeated FieldDescriptorProto extension = 7;",
      "optional FileOptions options = 8;",
      "optional SourceCodeInfo source_code_info = 9;",
      "optional string syntax = 12;",
      "optional string edition = 13;"],
    block "message DescriptorProto" [
      "optional string name = 1;",
      "repeated FieldDescriptorProto field = 2;",
      "repeated FieldDescriptorProto extension = 6;",
      "repeated DescriptorProto nested_type = 3;",
      "repeated EnumDescriptorProto enum_type = 4;",
      block "message ExtensionRange" [
        "optional int32 start = 1;",
        "optional int32 end = 2;",
        "optional ExtensionRangeOptions options = 3;"],
      "repeated ExtensionRange extension_range = 5;",
      "repeated OneofDescriptorProto oneof_decl = 8;",
      "optional MessageOptions options = 7;",
      block "message ReservedRange" [
        "optional int32 start = 1;",
        "optional int32 end = 2;"],
      "repeated ReservedRange reserved_range = 9;",
      "repeated string reserved_name = 10;"],
    messageText extensionRangeOptions,
    block "message FieldDescriptorProto" [
      block "enum Type" [
        "TYPE_DOUBLE = 1;",
        "TYPE_FLOAT = 2;",
        "TYPE_INT64 = 3;",
        "TYPE_UINT64 = 4;",
        "TYPE_INT32 = 5;",
        "TYPE_FIXED64 = 6;",
        "TYPE_FIXED32 = 7;",
        "TYPE_BOOL = 8;",
        "TYPE_STRING = 9;",
        "TYPE_GROUP = 10;",
        "TYPE_MESSAGE = 11;",
        "TYPE_BYTES = 12;",
        "TYPE_UINT32 = 13;",
        "TYPE_ENUM = 14;",
        "TYPE_SFIXED32 = 15;",
        "TYPE_SFIXED64 = 16;",
        "TYPE_SINT32 = 17;",
        "TYPE_SINT64 = 18;"],
      block "enum Label" [
        "LABEL_OPTIONAL = 1;",
        "LABEL_REQUIRED = 2;",
        "LABEL_REPEATED = 3;"],
      "optional string name = 1;",
      "optional int32 number = 3;",
      "optional Label label = 4;",
      "optional Type type = 5;",
      "optional string type_name = 6;",
      "optional string extendee = 2;",
      "optional string default_value = 7;",
      "optional int32 oneof_index = 9;",
      "optional string json_name = 10;",
      "optional FieldOptions options = 8;",
      "optional bool proto3_optional = 17;"],
    block "message OneofDescriptorProto" [
      "optional string name = 1;",
      "optional OneofOptions options = 2;"],
    block "message EnumDescriptorProto" [
      "optional string name = 1;",
      "repeated EnumValueDescriptorProto value = 2;",
      "optional EnumOptions options = 3;",
      block "message EnumReservedRange" [
        "optional int32 start = 1;",
        "optional int32 end = 2;"],
      "repeated EnumReservedRange reserved_range = 4;",
      "repeated string reserved_name = 5;"],
    block "message EnumValueDescriptorProto" [
      "optional string name = 1;",
      "optional int32 number = 2;",
      "optional EnumValueOptions options = 3;"],
    block "message ServiceDescriptorProto" [
      "optional string name = 1;",
      "repeated MethodDescriptorProto method = 2;",
      "optional ServiceOptions options = 3;"],
    block "message MethodDescriptorProto" [
      "optional string name = 1;",
      "optional string input_type = 2;",
      "optional string output_type = 3;",
      "optional MethodOptions options = 4;",
      "optional bool client_streaming = 5 [default = false];",
      "optional bool server_streaming = 6 [default = false];"],
    messageText fileOptions,
    messageText messageOptions,
    messageText fieldOptions,
    messageText oneofOptions,
    messageText enumOptions,
    messageText enumValueOptions,
    messageText serviceOptions,
    messageText methodOptions,
    messageText uninterpretedOption,
    block "message SourceCodeInfo" [
      "repeated Location location = 1;",
      block "message Location" [
        "repeated int32 path = 1 [packed = true];",
        "repeated int32 span = 2 [packed = true];",
        "optional string leading_comments = 3;",
        "optional string trailing_comments = 4;",
        "repeated string leading_detached_comments = 6;"]],
    block "message GeneratedCodeInfo" [
      "repeated Annotation annotation = 1;",
      block "message Annotation" [
        "repeated int32 path = 1 [packed = true];",
        "optional string source_file = 2;",
        "optional int32 begin = 3;",
        "optional int32 end = 4;",
        block "enum Semantic" [
          "NONE = 0;",
          "SET = 1;",
          "ALIAS = 2;"],
        "optional Semantic semantic = 5;"]]]

/-- Requests to and answers of code generators. -/
def plugin : Source where
  name := "google/protobuf/compiler/plugin.proto"
  items := [
    "syntax = \"proto2\";",
    "package google.protobuf.compiler;",
    "import \"google/protobuf/descriptor.proto\";",
    block "message Version" [
      "optional int32 major = 1;",
      "optional int32 minor = 2;",
      "optional int32 patch = 3;",
      "optional string suffix = 4;"],
    block "message CodeGeneratorRequest" [
      "repeated string file_to_generate = 1;",
      "optional string parameter = 2;",
      "repeated FileDescriptorProto proto_file = 15;",
      "optional Version compiler_version = 3;"],
    block "message CodeGeneratorResponse" [
      "optional string error = 1;",
      "optional uint64 supported_features = 2;",
      block "enum Feature" [
        "FEATURE_NONE = 0;",
        "FEATURE_PROTO3_OPTIONAL = 1;"],
      block "message File" [
        "optional string name = 1;",
        "optional string insertion_point = 2;",
        "optional string content = 15;",
        "optional GeneratedCodeInfo generated_code_info = 16;"],
      "repeated File file = 15;"]]

end SchemaTree.Standard
