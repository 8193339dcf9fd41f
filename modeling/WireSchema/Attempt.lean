import WireSchema.Archive.Basic
import WireSchema.Catalog.Compile
import WireSchema.Failure
import WireSchema.Schema.Document
import WireSchema.Schema.Parser

/-! The operations of the library with all their failures in one type, so that they can follow one
another: what a schema, a catalog, a document or an archive is made from, and what is made of it. -/

namespace WireSchema

/-- Work that fails or answers, and leaves notes either way. -/
abbrev Attempt (α : Type) := Noted Failure α

def Json.ofText (text : String) : Attempt Json :=
  Noted.ofExcept ((Json.parse text).mapError .document)

def Hex.ofText (text : String) : Attempt (List UInt8) :=
  Noted.ofExcept ((Hex.parse text).mapError .hex)

namespace Schema

def ofText (text : String) : Attempt Schema := Noted.ofExcept ((parse text).mapError .parse)

def ofBytes (bytes : List UInt8) : Attempt Schema := (ofBinary bytes).mapError .ofBinary

def toBytes (s : Schema) : Attempt (List UInt8) := s.toBinary.mapError .ofBinary

def toCatalog (s : Schema) : Attempt Catalog := s.compile.mapError .invalid

/-- The document of a binary schema, on several lines. -/
def documentOfBytes (bytes : List UInt8) : Attempt String := return (← ofBytes bytes).toJson.pretty

end Schema

namespace Catalog

def ofText (text : String) : Attempt Catalog := do (← Schema.ofText text).toCatalog

def ofBytes (bytes : List UInt8) : Attempt Catalog := do (← Schema.ofBytes bytes).toCatalog

variable (c : Catalog)

def valueToJson (v : Value) : Attempt Json := Noted.ofExcept ((c.toJson v).mapError .json)

def valueOfJson (typeName : String) (j : Json) : Attempt Value :=
  Noted.ofExcept ((c.ofJson typeName j).mapError .json)

def valueToBytes (typeName : String) (v : Value) : Attempt (List UInt8) :=
  (c.encode typeName v).mapError .encode

def valueOfBytes (typeName : String) (bytes : List UInt8) : Attempt Value :=
  (c.decode typeName bytes).mapError .decode

def encodeJson (typeName : String) (j : Json) : Attempt (List UInt8) := do
  c.valueToBytes typeName (← c.valueOfJson typeName j)

def decodeJson (typeName : String) (bytes : List UInt8) : Attempt Json := do
  c.valueToJson (← c.valueOfBytes typeName bytes)

end Catalog

namespace Archive

def ofBytes (bytes : List UInt8) : Attempt Archive :=
  Noted.ofExcept ((read bytes).mapError .ofArchive)

def toBytes (a : Archive) : Attempt (List UInt8) := Noted.ofExcept (a.write.mapError .ofArchive)

/-- The catalog of the schema in an archive. -/
def catalog (a : Archive) : Attempt Catalog := Catalog.ofBytes a.schema

def dataToJson (a : Archive) (typeName : String) : Attempt Json := do
  (← a.catalog).decodeJson typeName a.data

end Archive

end WireSchema
