import LinkArchive.Bytes

/-! The reflected cyclic redundancy checks of 32 and 64 bits. -/

namespace LinkArchive.Digest.Crc32

def shift (remainder : UInt32) : UInt32 :=
  if remainder &&& 1 == 1 then remainder >>> 1 ^^^ 0xedb88320 else remainder >>> 1

def shiftOctet (remainder : UInt32) : UInt32 :=
  (List.range 8).foldl (fun r _ => shift r) remainder

def table : Array UInt32 :=
  ((List.range 256).map fun octet => shiftOctet (UInt32.ofNat octet)).toArray

def start : UInt32 := 0xffffffff

def push (remainder : UInt32) (byte : UInt8) : UInt32 :=
  let place := (remainder ^^^ byte.toUInt32) &&& 0xff
  table.getD place.toNat 0 ^^^ remainder >>> 8

def update (remainder : UInt32) (bytes : Bytes) : UInt32 := bytes.foldl push remainder

def finish (remainder : UInt32) : UInt32 := remainder ^^^ 0xffffffff

def checksum (message : Bytes) : UInt32 := finish (update start message)

theorem update_append (remainder : UInt32) (first second : Bytes) :
    update remainder (first ++ second) = update (update remainder first) second :=
  List.foldl_append ..

end LinkArchive.Digest.Crc32

namespace LinkArchive.Digest.Crc64

def shift (remainder : UInt64) : UInt64 :=
  if remainder &&& 1 == 1 then remainder >>> 1 ^^^ 0xc96c5795d7870f42 else remainder >>> 1

def shiftOctet (remainder : UInt64) : UInt64 :=
  (List.range 8).foldl (fun r _ => shift r) remainder

def push (remainder : UInt64) (byte : UInt8) : UInt64 := shiftOctet (remainder ^^^ byte.toUInt64)

def checksum (message : Bytes) : UInt64 :=
  message.foldl push 0xffffffffffffffff ^^^ 0xffffffffffffffff

end LinkArchive.Digest.Crc64
