/-!
# Reserved tags

The tags of the constructors that are read without a schema.
-/

namespace TypeLang.Wire.Tag

/-- `boolTrue = Bool` -/
def boolTrue : UInt32 :=
  0x997275B5

/-- `boolFalse = Bool` -/
def boolFalse : UInt32 :=
  0xBC799737

/-- `vector`, the tag before the count of a boxed vector. -/
def vector : UInt32 :=
  0x1CB5C415

/-- `gzip_packed packed_data:bytes = Object`, an envelope around a compressed object. -/
def gzipPacked : UInt32 :=
  0x3072CFA1

end TypeLang.Wire.Tag
