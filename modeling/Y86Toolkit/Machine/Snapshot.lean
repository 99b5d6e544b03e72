import Y86Toolkit.Json.Printer
import Y86Toolkit.Json.Reader
import Y86Toolkit.Json.Record
import Y86Toolkit.Machine

/-!
Snapshots: the whole state of a machine as JSON text, and configurations in the
same form. A snapshot holds every field; a configuration may leave fields out,
which then have their default values.
-/

namespace Y86Toolkit

open Json (Value)

namespace Configuration

/-- The keys of a configuration. -/
def keys : List String := ["memory_size", "step_limit"]

/-- A configuration as a record. -/
def toJson (c : Configuration) : Value :=
  .record [("memory_size", .natural c.memorySize.toNat), ("step_limit", .natural c.stepLimit.toNat)]

/-- Reads a configuration; absent fields have their default values. -/
def ofJson? (v : Value) : Option Configuration := do
  let [memorySize, stepLimit] ← v.record? keys | none
  let default : Configuration := {}
  return {
    memorySize := ← (memorySize.map Value.word?).getD (some default.memorySize)
    stepLimit := ← (stepLimit.map Value.word?).getD (some default.stepLimit) }

/-- Reads a configuration from text and checks it. -/
def parse (text : String) : Except ConfigurationError Configuration :=
  match Value.read? text >>= ofJson? with
  | none => .error .malformed
  | some c => do
    c.validate
    return c

end Configuration

namespace Status

/-- Reads a status: its name, or an object with the name as its only key and
no value. -/
def ofJson? : Value → Option Status
  | .string (some name) | .object [(some name, .null)] => ofName? name
  | _ => none

end Status

namespace RegisterFile

/-- The register file as a record of one array. -/
def toJson (file : RegisterFile) : Value :=
  .record [("values", .array (file.values.toList.map fun w => .natural w.toNat))]

/-- Reads a register file, which has a value for every register. -/
def ofJson? (v : Value) : Option RegisterFile := do
  let [some values] ← v.record? ["values"] | none
  let words ← values.items? Value.word?
  if complete : words.toArray.size = 15 then return ⟨⟨words.toArray, complete⟩⟩ else none

end RegisterFile

namespace Memory

/-- Memory as a record of one array. -/
def toJson (m : Memory) : Value :=
  .record [("bytes", .array (m.bytes.toList.map fun b => .natural b.toNat))]

/-- Reads memory of any size. -/
def ofJson? (v : Value) : Option Memory := do
  let [some bytes] ← v.record? ["bytes"] | none
  return ⟨(← bytes.items? Value.byte?).toArray⟩

end Memory

namespace Flags

/-- The keys of the flags. -/
def keys : List String := ["overflow", "sign", "zero"]

/-- The flags as a record. -/
def toJson (flags : Flags) : Value :=
  .record [("overflow", .bool flags.overflow), ("sign", .bool flags.sign), ("zero", .bool flags.zero)]

/-- Reads the flags. -/
def ofJson? (v : Value) : Option Flags := do
  let [some overflow, some sign, some zero] ← v.record? keys | none
  return ⟨← overflow.bool?, ← sign.bool?, ← zero.bool?⟩

end Flags

namespace Machine

/-- The keys of a snapshot. -/
def keys : List String := ["regs", "mem", "pc", "flags", "status", "steps", "config"]

/-- A machine as a record. -/
def toJson (m : Machine) : Value :=
  .record [("regs", m.registers.toJson), ("mem", m.memory.toJson), ("pc", .natural m.pc.toNat),
    ("flags", m.flags.toJson), ("status", .text m.status.name), ("steps", .natural m.steps.toNat),
    ("config", m.configuration.toJson)]

/-- Reads a machine. The size of its memory need not be the configured one. -/
def ofJson? (v : Value) : Option Machine := do
  let [some registers, some memory, some pc, some flags, some status, some steps,
    some configuration] ← v.record? keys | none
  return {
    registers := ← RegisterFile.ofJson? registers
    memory := ← Memory.ofJson? memory
    pc := ← pc.word?
    flags := ← Flags.ofJson? flags
    status := ← Status.ofJson? status
    steps := ← steps.word?
    configuration := ← Configuration.ofJson? configuration }

/-- The state of a machine as text. -/
def snapshot (m : Machine) : String := m.toJson.render

/-- The machine that a snapshot shows. -/
def restore? (text : String) : Option Machine := Value.read? text >>= ofJson?

end Machine

end Y86Toolkit
