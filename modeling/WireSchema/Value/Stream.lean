import WireSchema.Value.Decode
import WireSchema.Value.Encode

/-! Streams: values written one after the other to the end of one sequence of bytes, each as a type
or as a field, and read one after the other from one cursor. -/

namespace WireSchema.Catalog

variable (c : Catalog)

/-- A value and the shape it is written as. -/
structure Item where
  shape : Shape
  value : Value

def readItem : Shape → Reader DecodeError Value := c.readWithin maxDepth

/-- What an item adds to the bytes before it. -/
def writeItem (item : Item) : Writing EncodeError := c.write item.value item.shape

/-- What each item of a stream adds; after an item that fails the next one follows all the same. -/
def writeStream (items : List Item) : List (Writing EncodeError) := items.map c.writeItem

/-- All bytes of a stream, those of failed items included. -/
def streamBytes (items : List Item) : List UInt8 := (c.writeStream items).flatMap (·.written)

/-- Reads values of some shapes one after the other, going on after a failure from where it left the
cursor. -/
def readStream (shapes : List Shape) : Cursor → List (Outcome DecodeError Value) :=
  Reader.session (shapes.map c.readItem)

end WireSchema.Catalog
