/-! Byte strings as the Rust code builds them from string literals. -/

-- `str::as_bytes` of a string of ASCII characters: one byte per character, its code.
def String.asciiBytes (s : String) : List UInt8 :=
  s.toList.map fun c => c.toNat.toUInt8
