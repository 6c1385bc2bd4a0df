/-!
# CRC-32

The checksum of archive entries: the remainder of the payload's polynomial modulo the reflected
polynomial `0xedb88320`, with the register inverted before and after.
-/

namespace ReleaseSeal.Archive

/-- Shifts one bit out of the register. -/
def crcBit (c : UInt32) : UInt32 :=
  if c &&& 1 = 1 then (c >>> 1) ^^^ 0xedb88320 else c >>> 1

/-- Takes a byte into the register. -/
def crcByte (c : UInt32) (b : UInt8) : UInt32 :=
  crcBit (crcBit (crcBit (crcBit (crcBit (crcBit (crcBit (crcBit (c ^^^ b.toUInt32))))))))

/-- The checksum of a payload. -/
def crc32 (bytes : ByteArray) : UInt32 :=
  ~~~(bytes.data.toList.foldl crcByte 0xffffffff)

end ReleaseSeal.Archive
