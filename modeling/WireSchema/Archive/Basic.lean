import WireSchema.Archive.Chunk
import WireSchema.Compression.Deflate
import WireSchema.Compression.Zstandard
import WireSchema.Text.Utf8

/-! Archives: a schema in binary form and data written with it, both compressed. An archive begins
with a header that says whether it is marked as encrypted; then come two chunks, and what follows
them is ignored. The mark changes nothing about how the archive is read. -/

namespace WireSchema

/-- A way to compress bytes, and to get them back unless what holds them is damaged. -/
structure Compression where
  compress : List UInt8 → List UInt8
  decompress? : List UInt8 → Option (List UInt8)

/-- How the schema of an archive is compressed. -/
def deflate : Compression := ⟨Deflate.compress, Deflate.decompress?⟩

/-- How the data of an archive is compressed. -/
def zstandard : Compression := ⟨Zstandard.compress, Zstandard.decompress?⟩

structure Archive where
  encrypted : Bool
  schema : List UInt8
  data : List UInt8
  deriving DecidableEq

namespace Archive

/-- Why bytes are no archive, or an archive cannot be written. -/
inductive Error
  | noHeader
  | overrun (o : Chunk.Overrun)
  | tooFewChunks (found : Nat)
  | chunkTooLarge (size : Nat)
  /-- The content of a chunk is damaged. -/
  | damaged
  deriving DecidableEq

def Error.message : Error → String
  | noHeader => "Missing \"fig-kiwi\" header"
  | overrun o => s!"Chunk {o.index} needs {o.size} byte(s) but only {o.remaining} remain"
  | tooFewChunks found => s!"Expected 2 chunks but found {found}"
  | chunkTooLarge size => s!"Chunk of {size} bytes is too large"
  | damaged => "Damaged content"

def plainHeader : List UInt8 := Utf8.encode "fig-kiwi"

def encryptedHeader : List UInt8 := Utf8.encode "fig-kiwie"

/-- The mark that the header stands for, and what follows it; the longer header is looked for
first. -/
def header? (bytes : List UInt8) : Option (Bool × List UInt8) :=
  if encryptedHeader.isPrefixOf bytes then some (true, bytes.drop encryptedHeader.length)
  else if plainHeader.isPrefixOf bytes then some (false, bytes.drop plainHeader.length)
  else none

/-- The archive that some bytes hold, by the ways in which schemas and data are compressed. -/
def readWith (schemas datas : Compression) (bytes : List UInt8) : Except Error Archive :=
  match header? bytes with
  | none => .error .noHeader
  | some (encrypted, body) =>
    match Chunk.split body with
    | .error o => .error (.overrun o)
    | .ok (schema :: data :: _) =>
      match schemas.decompress? schema, datas.decompress? data with
      | some schema, some data => .ok ⟨encrypted, schema, data⟩
      | _, _ => .error .damaged
    | .ok chunks => .error (.tooFewChunks chunks.length)

/-- A chunk, if its size fits four bytes. -/
def chunk (content : List UInt8) : Except Error (List UInt8) :=
  if content.length < UInt32.size then .ok (Chunk.frame content)
  else .error (.chunkTooLarge content.length)

/-- The bytes of an archive, by the ways in which schemas and data are compressed. -/
def writeWith (schemas datas : Compression) (a : Archive) : Except Error (List UInt8) := do
  let schema ← chunk (schemas.compress a.schema)
  let data ← chunk (datas.compress a.data)
  return (if a.encrypted then encryptedHeader else plainHeader) ++ schema ++ data

def read (bytes : List UInt8) : Except Error Archive := readWith deflate zstandard bytes

def write (a : Archive) : Except Error (List UInt8) := writeWith deflate zstandard a

end Archive

end WireSchema
