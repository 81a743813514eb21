/-!
# Checksum

The reflected CRC-32 with polynomial `0xEDB88320`, all bits set at the start and inverted at the
end. It is defined bit by bit; the register takes one byte in eight steps.
-/

namespace Outbox.Checksum

/-- The generator polynomial, lowest power in the highest bit. -/
def polynomial : BitVec 32 := 0xEDB88320#32

/-- One bit leaves the register. -/
def step (register : BitVec 32) : BitVec 32 :=
  if register.getLsbD 0 then (register >>> 1) ^^^ polynomial else register >>> 1

/-- `n` bits leave the register. -/
def steps : Nat → BitVec 32 → BitVec 32
  | 0, register => register
  | n + 1, register => steps n (step register)

/-- One byte enters the register. -/
def enter (register : BitVec 32) (byte : UInt8) : BitVec 32 :=
  steps 8 (register ^^^ byte.toBitVec.setWidth 32)

/-- The register after the bytes. -/
def run (register : BitVec 32) (bytes : List UInt8) : BitVec 32 :=
  bytes.foldl enter register

/-- The checksum of bytes. -/
def ofBytes (bytes : List UInt8) : BitVec 32 :=
  ~~~(run (BitVec.allOnes 32) bytes)

theorem run_append (register : BitVec 32) (bytes bytes' : List UInt8) :
    run register (bytes ++ bytes') = run (run register bytes) bytes' :=
  List.foldl_append

end Outbox.Checksum
