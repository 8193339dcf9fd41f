/-! The layout of binary schemas, given as a schema. -/

namespace WireSchema.Schema

/-- The schema whose type `BinarySchema` reads binary schemas: a kind is the byte of its value, a
type is the id of the type, and the flags are 1 for an array and 2 for a deprecated field. -/
def layout : String :=
  "enum DefinitionKind \x7b\n" ++
  "  ENUM = 0;\n" ++
  "  STRUCT = 1;\n" ++
  "  MESSAGE = 2;\n" ++
  "\x7d\n" ++
  "\n" ++
  "struct Field \x7b\n" ++
  "  string name;\n" ++
  "  int type;\n" ++
  "  byte flags;\n" ++
  "  uint value;\n" ++
  "\x7d\n" ++
  "\n" ++
  "struct Definition \x7b\n" ++
  "  string name;\n" ++
  "  DefinitionKind kind;\n" ++
  "  Field[] fields;\n" ++
  "\x7d\n" ++
  "\n" ++
  "struct BinarySchema \x7b\n" ++
  "  Definition[] definitions;\n" ++
  "\x7d\n"

end WireSchema.Schema
