import Tangent.File.Header
import Tangent.File.Record
import Tangent.File.Sha256
import Tangent.Program.Validate

/-! Saved programs: a header, the instruction records and a digest of both. -/

namespace Tangent

/-- Why a program was not saved, or a file not read as a program. -/
inductive FileError where
  | tooShort
  | magic
  | checksum
  | version (found : Nat)
  | headerSize
  | headerText
  | noCount (empty : Bool)
  | count (records bytes : Nat)
  | record (index : Nat) (fault : RecordFault)
  | program (cause : ProgramError)
  | tooMany (instrs : Nat)
  | unwritableHeader
  /-- The place a program was to be saved at, or read from, gave way. -/
  | sink (cause : String)
  | origin (cause : String)
deriving DecidableEq, Repr

/-- The message of a file error. -/
def FileError.message : FileError → String
  | .tooShort => "invalid magic bytes: file too short"
  | .magic => "invalid magic bytes"
  | .checksum => "checksum mismatch: file may be corrupted"
  | .version found => s!"unsupported format version: got {found}, expected 1"
  | .headerSize => "header exceeds maximum size"
  | .headerText => "failed to parse header JSON: not a header"
  | .noCount empty =>
    "failed to read instruction count: " ++ (if empty then "EOF" else "unexpected EOF")
  | .count records bytes => s!"too many instructions in file: {records} records in {bytes} bytes"
  | .record index fault => s!"record {index}: {fault.message}"
  | .program cause => cause.message
  | .tooMany instrs => s!"too many instructions in file: {instrs}"
  | .unwritableHeader => "failed to marshal header: a seed is not a number"
  | .sink cause => "failed to write program: " ++ cause
  | .origin cause => "failed to read program: " ++ cause

namespace ProgramFile

variable {α : Type}

/-- The bytes every saved program starts with. -/
def magic : Bytes := bytesOf "AXPR"

/-- The version of the layout. -/
def version : Nat := 1

/-- The longest header. -/
def maxHeader : Nat := 0x1000000

/-- The most instructions. -/
def maxInstrs : Nat := 0x1000000

/-- The most paths. -/
def maxPaths : Int64 := 0x4000000

/-- The most elements of temporaries that are live at once. -/
def maxTempElements : Int64 := 0x40000000

/-- The number of bytes of the digest. -/
def digestSize : Nat := 32

/-- Sums up live temporaries from an instruction on, up to the limit. -/
def checkLive (sizes : TempTable Int64) (live : Int64) (pc : Nat) :
    List (Instr α) → Except ProgramError Unit
  | [] => .ok ()
  | i :: rest =>
    match i.op with
    | .alloc =>
      if live + i.len > maxTempElements then
        .error (.liveLimit pc (live + i.len) maxTempElements)
      else checkLive (sizes.insert i.dst.index i.len) (live + i.len) (pc + 1) rest
    -- A temporary that was never begun takes nothing off.
    | .free => checkLive sizes (live - (sizes.find? i.dst.index).getD 0) (pc + 1) rest
    | _ => checkLive sizes live (pc + 1) rest

/-- Accepts a program within the limits of a file. -/
def checkLimits (p : Program α) : Except ProgramError Unit :=
  if p.paths > maxPaths then .error (.pathLimit p.paths maxPaths)
  else checkLive [] 0 0 p.instrs

/-- The records of instructions from a position on. -/
def records [Written α] [Stored α] (index : Nat) : List (Instr α) → Except FileError (List Record)
  | [] => .ok []
  | i :: rest =>
    match Record.ofInstr? i with
    | none => .error (.record index (.unwritable i.text))
    | some record => (records (index + 1) rest).map (record :: ·)

/-- What a header says about a program. -/
def headerOf (p : Program α) : Header α :=
  ⟨p.paths, p.vars?, p.seeds?, p.source, p.peak⟩

/-- The flags of a program: whether its source is known. -/
def flags (p : Program α) : Nat := if p.source == "" then 0 else 1

/-- All of a file but its digest. -/
def layout (flags : Nat) (header : Bytes) (rs : List Record) : Bytes :=
  magic ++ littleEndian 4 version ++ littleEndian 4 flags ++ littleEndian 8 header.length ++
    header ++ littleEndian 8 rs.length ++ rs.flatMap Record.bytes

/-- Some bytes with their digest. -/
def sealed (body : Bytes) : Bytes := body ++ Sha256.hash body

/-- The file of a program, saved at a given time if that is known. -/
def encode [Written α] [Stored α] (stamp : Option String) (p : Program α) :
    Except FileError Bytes := do
  p.validate.mapError FileError.program
  (checkLimits p).mapError FileError.program
  -- The program is sound by now, so only its size and its numbers can still be refused.
  if p.instrs.length > maxInstrs then throw (.tooMany p.instrs.length)
  match (headerOf p).write? stamp with
  | none => throw .unwritableHeader
  | some header =>
    let rs ← records 0 p.instrs
    return sealed (layout (flags p) (bytesOf header) rs)

/-- Accepts a digest that is the expected one. -/
def checkDigest (computed stored : Bytes) : Except FileError Unit :=
  if computed == stored then .ok () else .error .checksum

/-- The instructions of records from a position on. -/
def instrs [Stored α] (index : Nat) : Nat → Bytes → Except FileError (List (Instr α))
  | 0, _ => .ok []
  | count + 1, bytes =>
    match (Record.ofBytes (bytes.take Record.size)).toInstr with
    | .error fault => .error (.record index fault)
    | .ok i => (instrs (index + 1) count (bytes.drop Record.size)).map (i :: ·)

/-- The program of a header and instructions, if the two fit together. -/
def assemble [Written α] (flags : Nat) (h : Header α) (is : List (Instr α)) :
    Except FileError (Program α) := do
  let p : Program α :=
    { paths := h.paths
      vars? := h.vars?
      seeds? := h.seeds?
      -- Without the flag a source in the header is not believed.
      source := if flags % 2 == 1 then h.source else ""
      instrs := is
      peak := h.peak }
  if p.seeds.length ≠ p.vars.length then
    throw (.program (.seedCount p.seeds.length p.vars.length))
  p.validate.mapError FileError.program
  (checkLimits p).mapError FileError.program
  return p

/-- Reads what follows the header: the number of records, and the records. -/
def decodeRecords [Stored α] (bytes : Bytes) : Except FileError (List (Instr α)) :=
  match splitBytes? 8 bytes with
  | none => .error (.noCount bytes.isEmpty)
  | some (front, rest) =>
    let count := ofLittleEndian front
    -- The records are all that follows, so their number is known from the bytes, too.
    if count > maxInstrs || count * Record.size ≠ rest.length then
      .error (.count count rest.length)
    else instrs 0 count rest

/-- Reads what follows the digest check: version, flags, header and records. -/
def decodeBody [Written α] [Stored α] (bytes : Bytes) : Except FileError (Program α) := do
  let found := ofLittleEndian (bytes.take 4)
  if found ≠ version then throw (.version found)
  -- The shortest file has room for all fields of fixed size, so none of them can be cut off.
  let flags := ofLittleEndian ((bytes.drop 4).take 4)
  let size := ofLittleEndian ((bytes.drop 8).take 8)
  let rest := bytes.drop 16
  if size > maxHeader || size > rest.length then throw .headerSize
  match Header.read? (rest.take size) with
  | none => throw .headerText
  | some header =>
    let is ← decodeRecords (rest.drop size)
    assemble flags header is

/-- The shortest file. -/
def minSize : Nat := magic.length + 4 + 4 + 8 + 8 + digestSize

/-- The program of a file. -/
def decode [Written α] [Stored α] (bytes : Bytes) : Except FileError (Program α) := do
  if bytes.length < minSize then throw .tooShort
  if bytes.take magic.length != magic then throw .magic
  -- Nothing is believed of a file before its digest was compared.
  let body := bytes.take (bytes.length - digestSize)
  checkDigest (Sha256.hash body) (bytes.drop (bytes.length - digestSize))
  decodeBody (body.drop magic.length)

end ProgramFile

end Tangent
