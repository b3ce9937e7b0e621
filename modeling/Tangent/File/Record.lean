import Tangent.Decimal.Binary64
import Tangent.File.Bytes
import Tangent.Program.Basic

/-! Instruction records: forty-eight bytes for each instruction of a saved program. -/

namespace Tangent

/-- The fields of a record. Indices take four bytes, offsets, scalar and length eight. -/
structure Record where
  op : UInt8
  dstSpace : UInt8
  srcSpace : UInt8
  dstIndex : UInt32
  dstOffset : UInt64
  srcIndex : UInt32
  srcOffset : UInt64
  scalar : UInt64
  len : UInt64
deriving DecidableEq, Repr

/-- What keeps a record from being an instruction, or an instruction from being a record. -/
inductive RecordFault where
  | opCode
  | space
  | range
  | unwritable (instr : String)
deriving DecidableEq, Repr

/-- The wording of a record fault. -/
def RecordFault.message : RecordFault → String
  | .opCode => "unknown op code"
  | .space => "unknown memory space"
  | .range => "offset or length out of range"
  | .unwritable instr => "cannot encode " ++ instr

namespace Record

/-- The number of bytes of a record. -/
def size : Nat := 48

/-- The bytes of a record, with zeros where fields are aligned. -/
def bytes (r : Record) : Bytes :=
  [r.op, r.dstSpace, r.srcSpace, 0] ++ littleEndian 4 r.dstIndex.toNat ++
    littleEndian 8 r.dstOffset.toNat ++ littleEndian 4 r.srcIndex.toNat ++ [0, 0, 0, 0] ++
    littleEndian 8 r.srcOffset.toNat ++ littleEndian 8 r.scalar.toNat ++
    littleEndian 8 r.len.toNat

/-- The integer in `width` bytes from a position on. -/
def uintAt (bytes : Bytes) (position width : Nat) : Nat :=
  ofLittleEndian ((bytes.drop position).take width)

/-- The record in forty-eight bytes. -/
def ofBytes (bytes : Bytes) : Record :=
  { op := UInt8.ofNat (uintAt bytes 0 1)
    dstSpace := UInt8.ofNat (uintAt bytes 1 1)
    srcSpace := UInt8.ofNat (uintAt bytes 2 1)
    dstIndex := UInt32.ofNat (uintAt bytes 4 4)
    dstOffset := UInt64.ofNat (uintAt bytes 8 8)
    srcIndex := UInt32.ofNat (uintAt bytes 16 4)
    srcOffset := UInt64.ofNat (uintAt bytes 24 8)
    scalar := UInt64.ofNat (uintAt bytes 32 8)
    len := UInt64.ofNat (uintAt bytes 40 8) }

/-- The record of an instruction. An index keeps its low thirty-two bits. -/
def ofInstr? {α : Type} [Stored α] (i : Instr α) : Option Record :=
  match Op.known.idxOf? i.op with
  | none => none
  | some code =>
    -- Only negative numbers are refused; a large index loses its high bits.
    if i.dst.index < 0 || i.src.index < 0 || i.dst.offset < 0 || i.src.offset < 0 || i.len < 0
    then none
    else some
      { op := UInt8.ofNat code
        dstSpace := i.dst.space.code
        srcSpace := i.src.space.code
        dstIndex := i.dst.index.toUInt64.toUInt32
        dstOffset := i.dst.offset.toUInt64
        srcIndex := i.src.index.toUInt64.toUInt32
        srcOffset := i.src.offset.toUInt64
        scalar := Stored.toBits i.scalar
        len := i.len.toUInt64 }

/-- The largest offset or length of a record. -/
def limit : UInt64 := 0x1000000000000

/-- The instruction of a record. -/
def toInstr {α : Type} [Stored α] (r : Record) : Except RecordFault (Instr α) :=
  match Op.known[r.op.toNat]? with
  | none => .error .opCode
  | some op =>
    if r.dstSpace > Space.temp.code || r.srcSpace > Space.temp.code then .error .space
    else if r.dstOffset > limit || r.srcOffset > limit || r.len > limit then .error .range
    else .ok
      { op
        dst := ⟨Space.ofCode r.dstSpace, r.dstIndex.toUInt64.toInt64, r.dstOffset.toInt64⟩
        src := ⟨Space.ofCode r.srcSpace, r.srcIndex.toUInt64.toInt64, r.srcOffset.toInt64⟩
        scalar := Stored.ofBits r.scalar
        len := r.len.toInt64 }

end Record

end Tangent
