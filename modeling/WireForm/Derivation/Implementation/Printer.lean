import WireForm.Derivation.Implementation

/-!
# Implementations as code

Every path in the code is written out from its root, so that it means the same wherever the item is
declared. Separators are put behind every element, the last one too.

## Main definitions

* `Write.code`, `Read.code` — the calls for fields
* `Content.trait`, `Content.code` — what is implemented, and how
* `Implementation.code`, `Implementation.text` — the whole implementation
-/

namespace WireForm.Derivation

namespace Printer

/-- A field of the value at hand. -/
def ofSelf (member : Member) : Code := snippet "&self." ++ [member.token]

/-- A type as one with a codec. -/
def asCodec (type : Code) : Code := snippet "<" ++ type ++ snippet "as ::ser_nu::Serializable>"

/-- A type as one with a codec of a fixed size. -/
def asFixed (type : Code) : Code := snippet "<" ++ type ++ snippet "as ::ser_nu::StaticallySized>"

/-- The size of a type of a fixed size. -/
def sizeOf (type : Code) : Code := asFixed type ++ snippet "::SIZE"

/-- The size of the encodings of a type, if there is one. -/
def encodedSizeOf (type : Code) : Code := asCodec type ++ snippet "::SERIALIZED_SIZE"

/-- The total size of the fields of the item itself. -/
def ownSize : Code := snippet "<Self as ::ser_nu::structs::StaticStruct>::TOTAL_SIZE"

/-- The sum of the sizes of types. -/
def total (types : List Code) : Code :=
  snippet "0" ++ types.flatMap fun type => snippet "+" ++ sizeOf type

/-- A success. -/
def success (value : Code) : Code := snippet "::core::result::Result::Ok" ++ parens value

/-- A success without a value. -/
def done : Code := success (parens [])

/-- The item with its fields. -/
def build (fields : Code) : Code := snippet "Self" ++ braces fields

/-- A function that is offered for inlining. -/
def inlined (function : Code) : Code := snippet "#[inline]" ++ function

/-- The function that encodes. -/
def encoder (body : Code) : Code :=
  inlined (snippet "fn serialize_into(&self, out: &mut ::ser_nu::Data) -> ::ser_nu::Result<()>" ++
    braces body)

/-- The function that decodes, without its hint. -/
def decoder (body : Code) : Code :=
  snippet "fn deserialize(bytes: &[u8]) -> ::ser_nu::Result<Self>" ++ braces body

/-- The function that stores in a slice. -/
def storer (body : Code) : Code :=
  inlined (snippet "fn serialize_static(&self, out: &mut [u8])" ++ braces body)

/-- The function that reads all fields, with these parameters of its own. -/
def fieldReader (parameters header : Code) (reads : Code) : Code :=
  snippet "fn expand_fields" ++ parameters ++
    parens (snippet "reader: &mut ::ser_nu::structs::FieldReader<'_>," ++ header) ++
    snippet "-> ::ser_nu::Result<Self>" ++ braces (success (build reads))

/-- The function that writes all fields, with these parameters of its own. -/
def fieldWriter (parameters body : Code) : Code :=
  snippet "fn squash_fields" ++ parameters ++
    parens (snippet "&self, writer: &mut ::ser_nu::structs::FieldWriter<'_>,") ++
    snippet "-> ::ser_nu::Result<()>" ++ braces body

/-- The parameter for the type of lengths. -/
def sizeParameter : Code := snippet "<__S: ::ser_nu::SizeType>"

/-- The flag of a field. -/
def flag (last : Bool) : Token := .ident (if last then "true" else "false")

/-- A string literal. -/
def string (text : String) : Token := .literal (Quoted.quote text)

/-- A value converted to another type. -/
def converted (base : Code) : Code :=
  snippet "let base = <" ++ base ++ snippet "as ::core::convert::From<&Self>>::from(self);"

/-- A variant. -/
def variant (name : String) : Code := snippet "Self::" ++ [.ident name]

/-- A variant as an integer. -/
def discriminant (integer : IntKind) (name : String) : Code :=
  variant name ++ [.ident "as", .ident integer.name]

end Printer

open Printer

/-- The call, with what ends it. -/
def Write.code : Write → Code
  | store member => snippet "out.put_static" ++ parens (ofSelf member) ++ semicolon
  | fixed member => snippet "writer.write_static" ++ parens (ofSelf member) ++ semicolon
  | rest member => snippet "writer.write_raw" ++ parens (ofSelf member)
  | flagged member type last =>
    snippet "writer.write_field::<__S," ++ type ++ snippet ">" ++
      parens (ofSelf member ++ comma ++ [flag last]) ++ snippet "?;"
  | apart member =>
    snippet "::ser_nu::Serializable::serialize" ++ parens (ofSelf member) ++ snippet "?,"

/-- The field and the call that reads it, with what ends it. -/
def Read.code (read : Read) : Code :=
  let call : Code := match read with
    | fixed _ type => snippet "reader.read_static::<" ++ type ++ snippet ">()"
    | rest _ type => snippet "reader.read_rest::<" ++ type ++ snippet ">()"
    | flagged _ type last =>
      snippet "reader.read_field::<__S," ++ type ++ snippet ">" ++ parens [flag last]
    | sized _ type place =>
      snippet "reader.read_sized::<" ++ type ++ snippet ">" ++
        parens (snippet "lens" ++ brackets [.literal (toString place)])
  read.member.token :: snippet ":" ++ call ++ snippet "?,"

/-- The expression for a size of encodings. -/
def EncodedSize.code : EncodedSize → Code
  | own => snippet "::core::option::Option::Some" ++ parens ownSize
  | sumOf types =>
    snippet "::ser_nu::structs::sum_sizes" ++
      parens (snippet "&" ++ brackets (types.flatMap fun type => encodedSizeOf type ++ comma))
  | unknown => snippet "::core::option::Option::None"
  | ofType type => encodedSizeOf type
  | fixedOf type => snippet "::core::option::Option::Some" ++ parens (sizeOf type)

/-- The expression for a fixed size. -/
def FixedSize.code : FixedSize → Code
  | own => ownSize
  | ofType type => sizeOf type

/-- The functions that encode and decode. -/
def Coding.code : Coding → Code
  | packed =>
    encoder (snippet "::ser_nu::structs::squash_static_append(self, out);" ++ done) ++
      inlined (decoder (snippet "::ser_nu::expand_static::<Self>(bytes)"))
  | hybrid =>
    encoder (snippet "::ser_nu::structs::squash_hybrid_into(self, out)") ++
      inlined (decoder (snippet "::ser_nu::expand_hybrid::<Self>(bytes)"))
  | mixed size =>
    encoder (snippet "::ser_nu::structs::squash_into::<" ++ size ++ snippet ", Self>(self, out)") ++
      inlined (decoder (snippet "::ser_nu::expand::<" ++ size ++ snippet ", Self>(bytes)"))
  | dynamic size =>
    encoder (snippet "::ser_nu::structs::squash_dynamic_into::<" ++ size ++
        snippet ", Self>(self, out)") ++
      inlined (decoder (snippet "::ser_nu::expand_dynamic::<" ++ size ++ snippet ", Self>(bytes)"))
  | single field =>
    encoder (snippet "::ser_nu::Serializable::serialize_into" ++
        parens (ofSelf field.member ++ snippet ", out")) ++
      inlined (decoder (success (build (field.member.token :: snippet ":" ++ asCodec field.type ++
        snippet "::deserialize(bytes)?,"))))
  | via base =>
    encoder (converted base ++ snippet "::ser_nu::Serializable::serialize_into(&base, out)") ++
      inlined (decoder (asCodec base ++ snippet "::deserialize(bytes).map" ++
        parens (snippet "<Self as ::core::convert::From<" ++ base ++ snippet ">>::from")))
  | variants typeName integer names =>
    encoder (snippet "::ser_nu::append_static(self, out);" ++ done) ++
      decoder (snippet "let value =" ++ asCodec [.ident integer.name] ++
        snippet "::deserialize(bytes)?;" ++
        (names.flatMap fun name =>
          snippet "if value ==" ++ discriminant integer name ++
            braces (snippet "return" ++ success (variant name) ++ semicolon)) ++
        snippet "::core::result::Result::Err" ++
        parens (snippet "::ser_nu::Error::InvalidDiscriminant" ++
          braces (snippet "type_name:" ++ [string typeName] ++
            snippet ", value: ::std::string::ToString::to_string(&value),")))

/-- The function that stores a value. -/
def Storing.code : Storing → Code
  | packed => storer (snippet "::ser_nu::structs::StaticStruct::squash_static_into(self, out);")
  | single member =>
    storer (snippet "::ser_nu::StaticallySized::serialize_static" ++
      parens (ofSelf member ++ snippet ", out") ++ semicolon)
  | via base =>
    storer (converted base ++ snippet "::ser_nu::StaticallySized::serialize_static(&base, out);")
  | variants integer names =>
    storer (snippet "let value:" ++ [.ident integer.name] ++ snippet "= match *self" ++
      braces (names.flatMap fun name =>
        variant name ++ snippet "=>" ++ discriminant integer name ++ comma) ++
      semicolon ++ snippet "::ser_nu::StaticallySized::serialize_static(&value, out);")

namespace Content

/-- What the compiler is told not to warn of. -/
def allowances : Content → Code
  | packedForm .. => snippet "#[allow(unused_mut, unused_variables)]"
  | mixedForm .. | dynamicForm .. => snippet "#[allow(unused_variables)]"
  | hybridForm .. | codec .. | fixedCodec .. => []

/-- What is implemented. -/
def trait : Content → Code
  | packedForm .. => snippet "::ser_nu::structs::StaticStruct"
  | hybridForm .. => snippet "::ser_nu::structs::HybridStruct"
  | mixedForm .. => snippet "::ser_nu::structs::MixedStruct"
  | dynamicForm .. => snippet "::ser_nu::structs::DynamicStruct"
  | codec .. => snippet "::ser_nu::Serializable"
  | fixedCodec .. => snippet "::ser_nu::StaticallySized"

/-- The constants and functions of the implementation. -/
def code : Content → Code
  | packedForm types writes reads =>
    snippet "const TOTAL_SIZE: usize =" ++ total types ++ semicolon ++
      snippet "fn squash_static_into(&self, out: &mut [u8])" ++
      braces (snippet "let mut out = ::ser_nu::DataMut::new(out);" ++ writes.flatMap Write.code) ++
      snippet "fn expand_static_from(reader: &mut ::ser_nu::structs::FieldReader<'_>,)" ++
      snippet "-> ::ser_nu::Result<Self>" ++ braces (success (build (reads.flatMap Read.code)))
  | hybridForm head writes reads =>
    snippet "const HEAD_SIZE: usize =" ++ total head ++ semicolon ++
      fieldWriter [] (writes.flatMap Write.code) ++ fieldReader [] [] (reads.flatMap Read.code)
  | mixedForm writes reads =>
    fieldWriter sizeParameter (writes.flatMap Write.code ++ done) ++
      fieldReader sizeParameter [] (reads.flatMap Read.code)
  | dynamicForm count writes reads =>
    snippet "const FIELD_COUNT: usize =" ++ [.literal (toString count ++ "usize")] ++ semicolon ++
      snippet "fn serialize_fields(&self) -> ::ser_nu::Result<::std::vec::Vec<::ser_nu::Data>>" ++
      braces (success (snippet "::std::vec!" ++ brackets (writes.flatMap Write.code))) ++
      fieldReader [] (snippet "lens: &[usize],") (reads.flatMap Read.code)
  | codec size coding =>
    snippet "const SERIALIZED_SIZE: ::core::option::Option<usize> =" ++ size.code ++ semicolon ++
      coding.code
  | fixedCodec size storing =>
    snippet "const SIZE: usize =" ++ size.code ++ semicolon ++ storing.code

end Content

/-- The implementation as code. -/
def Implementation.code (i : Implementation) : Code :=
  i.content.allowances ++ snippet "impl" ++ i.generics.parameters ++ i.content.trait ++
    snippet "for" ++ .ident i.name :: i.generics.arguments ++ i.generics.clause ++
    braces i.content.code

/-- The implementation as a text. -/
def Implementation.text (i : Implementation) : String := Code.text i.code

end WireForm.Derivation
