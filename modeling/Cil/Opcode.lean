import Cil.Bytes
import Cil.Shape

/-
  THE OPCODES.

  An opcode is written as one byte, or as the escape byte `FE` and a second one; its value is the byte,
  or the two bytes as a big-endian word.  `Opcode.all` lists every defined opcode in the order of their
  values.  What is not in the list is not defined, and `FE` itself never is.
-/

namespace Cil

/-- An operation: how it is written, what it is called, what operand it takes. -/
structure Opcode where
  value : UInt16
  name : String
  shape : Shape
deriving DecidableEq, Repr

namespace Opcode

/-- The byte that announces a second one. -/
def escape : UInt8 := 0xFE

/-- Every defined opcode. -/
def all : List Opcode := [
  ⟨0x00, "nop", .empty⟩,
  ⟨0x01, "break", .empty⟩,
  ⟨0x02, "ldarg.0", .empty⟩,
  ⟨0x03, "ldarg.1", .empty⟩,
  ⟨0x04, "ldarg.2", .empty⟩,
  ⟨0x05, "ldarg.3", .empty⟩,
  ⟨0x06, "ldloc.0", .empty⟩,
  ⟨0x07, "ldloc.1", .empty⟩,
  ⟨0x08, "ldloc.2", .empty⟩,
  ⟨0x09, "ldloc.3", .empty⟩,
  ⟨0x0A, "stloc.0", .empty⟩,
  ⟨0x0B, "stloc.1", .empty⟩,
  ⟨0x0C, "stloc.2", .empty⟩,
  ⟨0x0D, "stloc.3", .empty⟩,
  ⟨0x0E, "ldarg.s", .shortVar⟩,
  ⟨0x0F, "ldarga.s", .shortVar⟩,
  ⟨0x10, "starg.s", .shortVar⟩,
  ⟨0x11, "ldloc.s", .shortVar⟩,
  ⟨0x12, "ldloca.s", .shortVar⟩,
  ⟨0x13, "stloc.s", .shortVar⟩,
  ⟨0x14, "ldnull", .empty⟩,
  ⟨0x15, "ldc.i4.m1", .empty⟩,
  ⟨0x16, "ldc.i4.0", .empty⟩,
  ⟨0x17, "ldc.i4.1", .empty⟩,
  ⟨0x18, "ldc.i4.2", .empty⟩,
  ⟨0x19, "ldc.i4.3", .empty⟩,
  ⟨0x1A, "ldc.i4.4", .empty⟩,
  ⟨0x1B, "ldc.i4.5", .empty⟩,
  ⟨0x1C, "ldc.i4.6", .empty⟩,
  ⟨0x1D, "ldc.i4.7", .empty⟩,
  ⟨0x1E, "ldc.i4.8", .empty⟩,
  ⟨0x1F, "ldc.i4.s", .shortInt⟩,
  ⟨0x20, "ldc.i4", .int⟩,
  ⟨0x21, "ldc.i8", .longInt⟩,
  ⟨0x22, "ldc.r4", .shortFloat⟩,
  ⟨0x23, "ldc.r8", .float⟩,
  ⟨0x25, "dup", .empty⟩,
  ⟨0x26, "pop", .empty⟩,
  ⟨0x27, "jmp", .token (.entity .method)⟩,
  ⟨0x28, "call", .token (.entity .method)⟩,
  ⟨0x29, "calli", .token (.entity .signature)⟩,
  ⟨0x2A, "ret", .empty⟩,
  ⟨0x2B, "br.s", .shortBranch⟩,
  ⟨0x2C, "brfalse.s", .shortBranch⟩,
  ⟨0x2D, "brtrue.s", .shortBranch⟩,
  ⟨0x2E, "beq.s", .shortBranch⟩,
  ⟨0x2F, "bge.s", .shortBranch⟩,
  ⟨0x30, "bgt.s", .shortBranch⟩,
  ⟨0x31, "ble.s", .shortBranch⟩,
  ⟨0x32, "blt.s", .shortBranch⟩,
  ⟨0x33, "bne.un.s", .shortBranch⟩,
  ⟨0x34, "bge.un.s", .shortBranch⟩,
  ⟨0x35, "bgt.un.s", .shortBranch⟩,
  ⟨0x36, "ble.un.s", .shortBranch⟩,
  ⟨0x37, "blt.un.s", .shortBranch⟩,
  ⟨0x38, "br", .branch⟩,
  ⟨0x39, "brfalse", .branch⟩,
  ⟨0x3A, "brtrue", .branch⟩,
  ⟨0x3B, "beq", .branch⟩,
  ⟨0x3C, "bge", .branch⟩,
  ⟨0x3D, "bgt", .branch⟩,
  ⟨0x3E, "ble", .branch⟩,
  ⟨0x3F, "blt", .branch⟩,
  ⟨0x40, "bne.un", .branch⟩,
  ⟨0x41, "bge.un", .branch⟩,
  ⟨0x42, "bgt.un", .branch⟩,
  ⟨0x43, "ble.un", .branch⟩,
  ⟨0x44, "blt.un", .branch⟩,
  ⟨0x45, "switch", .switch⟩,
  ⟨0x46, "ldind.i1", .empty⟩,
  ⟨0x47, "ldind.u1", .empty⟩,
  ⟨0x48, "ldind.i2", .empty⟩,
  ⟨0x49, "ldind.u2", .empty⟩,
  ⟨0x4A, "ldind.i4", .empty⟩,
  ⟨0x4B, "ldind.u4", .empty⟩,
  ⟨0x4C, "ldind.i8", .empty⟩,
  ⟨0x4D, "ldind.i", .empty⟩,
  ⟨0x4E, "ldind.r4", .empty⟩,
  ⟨0x4F, "ldind.r8", .empty⟩,
  ⟨0x50, "ldind.ref", .empty⟩,
  ⟨0x51, "stind.ref", .empty⟩,
  ⟨0x52, "stind.i1", .empty⟩,
  ⟨0x53, "stind.i2", .empty⟩,
  ⟨0x54, "stind.i4", .empty⟩,
  ⟨0x55, "stind.i8", .empty⟩,
  ⟨0x56, "stind.r4", .empty⟩,
  ⟨0x57, "stind.r8", .empty⟩,
  ⟨0x58, "add", .empty⟩,
  ⟨0x59, "sub", .empty⟩,
  ⟨0x5A, "mul", .empty⟩,
  ⟨0x5B, "div", .empty⟩,
  ⟨0x5C, "div.un", .empty⟩,
  ⟨0x5D, "rem", .empty⟩,
  ⟨0x5E, "rem.un", .empty⟩,
  ⟨0x5F, "and", .empty⟩,
  ⟨0x60, "or", .empty⟩,
  ⟨0x61, "xor", .empty⟩,
  ⟨0x62, "shl", .empty⟩,
  ⟨0x63, "shr", .empty⟩,
  ⟨0x64, "shr.un", .empty⟩,
  ⟨0x65, "neg", .empty⟩,
  ⟨0x66, "not", .empty⟩,
  ⟨0x67, "conv.i1", .empty⟩,
  ⟨0x68, "conv.i2", .empty⟩,
  ⟨0x69, "conv.i4", .empty⟩,
  ⟨0x6A, "conv.i8", .empty⟩,
  ⟨0x6B, "conv.r4", .empty⟩,
  ⟨0x6C, "conv.r8", .empty⟩,
  ⟨0x6D, "conv.u4", .empty⟩,
  ⟨0x6E, "conv.u8", .empty⟩,
  ⟨0x6F, "callvirt", .token (.entity .method)⟩,
  ⟨0x70, "cpobj", .token (.entity .type)⟩,
  ⟨0x71, "ldobj", .token (.entity .type)⟩,
  ⟨0x72, "ldstr", .token (.entity .string)⟩,
  ⟨0x73, "newobj", .token (.entity .method)⟩,
  ⟨0x74, "castclass", .token (.entity .type)⟩,
  ⟨0x75, "isinst", .token (.entity .type)⟩,
  ⟨0x76, "conv.r.un", .empty⟩,
  ⟨0x79, "unbox", .token (.entity .type)⟩,
  ⟨0x7A, "throw", .empty⟩,
  ⟨0x7B, "ldfld", .token (.entity .field)⟩,
  ⟨0x7C, "ldflda", .token (.entity .field)⟩,
  ⟨0x7D, "stfld", .token (.entity .field)⟩,
  ⟨0x7E, "ldsfld", .token (.entity .field)⟩,
  ⟨0x7F, "ldsflda", .token (.entity .field)⟩,
  ⟨0x80, "stsfld", .token (.entity .field)⟩,
  ⟨0x81, "stobj", .token (.entity .type)⟩,
  ⟨0x82, "conv.ovf.i1.un", .empty⟩,
  ⟨0x83, "conv.ovf.i2.un", .empty⟩,
  ⟨0x84, "conv.ovf.i4.un", .empty⟩,
  ⟨0x85, "conv.ovf.i8.un", .empty⟩,
  ⟨0x86, "conv.ovf.u1.un", .empty⟩,
  ⟨0x87, "conv.ovf.u2.un", .empty⟩,
  ⟨0x88, "conv.ovf.u4.un", .empty⟩,
  ⟨0x89, "conv.ovf.u8.un", .empty⟩,
  ⟨0x8A, "conv.ovf.i.un", .empty⟩,
  ⟨0x8B, "conv.ovf.u.un", .empty⟩,
  ⟨0x8C, "box", .token (.entity .type)⟩,
  ⟨0x8D, "newarr", .token (.entity .type)⟩,
  ⟨0x8E, "ldlen", .empty⟩,
  ⟨0x8F, "ldelema", .token (.entity .type)⟩,
  ⟨0x90, "ldelem.i1", .empty⟩,
  ⟨0x91, "ldelem.u1", .empty⟩,
  ⟨0x92, "ldelem.i2", .empty⟩,
  ⟨0x93, "ldelem.u2", .empty⟩,
  ⟨0x94, "ldelem.i4", .empty⟩,
  ⟨0x95, "ldelem.u4", .empty⟩,
  ⟨0x96, "ldelem.i8", .empty⟩,
  ⟨0x97, "ldelem.i", .empty⟩,
  ⟨0x98, "ldelem.r4", .empty⟩,
  ⟨0x99, "ldelem.r8", .empty⟩,
  ⟨0x9A, "ldelem.ref", .empty⟩,
  ⟨0x9B, "stelem.i", .empty⟩,
  ⟨0x9C, "stelem.i1", .empty⟩,
  ⟨0x9D, "stelem.i2", .empty⟩,
  ⟨0x9E, "stelem.i4", .empty⟩,
  ⟨0x9F, "stelem.i8", .empty⟩,
  ⟨0xA0, "stelem.r4", .empty⟩,
  ⟨0xA1, "stelem.r8", .empty⟩,
  ⟨0xA2, "stelem.ref", .empty⟩,
  ⟨0xA3, "ldelem", .token (.entity .type)⟩,
  ⟨0xA4, "stelem", .token (.entity .type)⟩,
  ⟨0xA5, "unbox.any", .token (.entity .type)⟩,
  ⟨0xB3, "conv.ovf.i1", .empty⟩,
  ⟨0xB4, "conv.ovf.u1", .empty⟩,
  ⟨0xB5, "conv.ovf.i2", .empty⟩,
  ⟨0xB6, "conv.ovf.u2", .empty⟩,
  ⟨0xB7, "conv.ovf.i4", .empty⟩,
  ⟨0xB8, "conv.ovf.u4", .empty⟩,
  ⟨0xB9, "conv.ovf.i8", .empty⟩,
  ⟨0xBA, "conv.ovf.u8", .empty⟩,
  ⟨0xC2, "refanyval", .token (.entity .type)⟩,
  ⟨0xC3, "ckfinite", .empty⟩,
  ⟨0xC6, "mkrefany", .token (.entity .type)⟩,
  ⟨0xD0, "ldtoken", .token .member⟩,
  ⟨0xD1, "conv.u2", .empty⟩,
  ⟨0xD2, "conv.u1", .empty⟩,
  ⟨0xD3, "conv.i", .empty⟩,
  ⟨0xD4, "conv.ovf.i", .empty⟩,
  ⟨0xD5, "conv.ovf.u", .empty⟩,
  ⟨0xD6, "add.ovf", .empty⟩,
  ⟨0xD7, "add.ovf.un", .empty⟩,
  ⟨0xD8, "mul.ovf", .empty⟩,
  ⟨0xD9, "mul.ovf.un", .empty⟩,
  ⟨0xDA, "sub.ovf", .empty⟩,
  ⟨0xDB, "sub.ovf.un", .empty⟩,
  ⟨0xDC, "endfinally", .empty⟩,
  ⟨0xDD, "leave", .branch⟩,
  ⟨0xDE, "leave.s", .shortBranch⟩,
  ⟨0xDF, "stind.i", .empty⟩,
  ⟨0xE0, "conv.u", .empty⟩,
  ⟨0xFE00, "arglist", .empty⟩,
  ⟨0xFE01, "ceq", .empty⟩,
  ⟨0xFE02, "cgt", .empty⟩,
  ⟨0xFE03, "cgt.un", .empty⟩,
  ⟨0xFE04, "clt", .empty⟩,
  ⟨0xFE05, "clt.un", .empty⟩,
  ⟨0xFE06, "ldftn", .token (.entity .method)⟩,
  ⟨0xFE07, "ldvirtftn", .token (.entity .method)⟩,
  ⟨0xFE09, "ldarg", .var⟩,
  ⟨0xFE0A, "ldarga", .var⟩,
  ⟨0xFE0B, "starg", .var⟩,
  ⟨0xFE0C, "ldloc", .var⟩,
  ⟨0xFE0D, "ldloca", .var⟩,
  ⟨0xFE0E, "stloc", .var⟩,
  ⟨0xFE0F, "localloc", .empty⟩,
  ⟨0xFE11, "endfilter", .empty⟩,
  ⟨0xFE12, "unaligned.", .shortInt⟩,
  ⟨0xFE13, "volatile.", .empty⟩,
  ⟨0xFE14, "tail.", .empty⟩,
  ⟨0xFE15, "initobj", .token (.entity .type)⟩,
  ⟨0xFE16, "constrained.", .token (.entity .type)⟩,
  ⟨0xFE17, "cpblk", .empty⟩,
  ⟨0xFE18, "initblk", .empty⟩,
  ⟨0xFE1A, "rethrow", .empty⟩,
  ⟨0xFE1C, "sizeof", .token (.entity .type)⟩,
  ⟨0xFE1D, "refanytype", .empty⟩,
  ⟨0xFE1E, "readonly.", .empty⟩]

/-- Whether the opcode is written with the escape byte. -/
def escaped (o : Opcode) : Bool := decide (0xFF < o.value.toNat)

/-- How many bytes the opcode itself takes. -/
def size (o : Opcode) : Nat := if o.escaped then 2 else 1

/-- The bytes of the opcode. -/
def encode (o : Opcode) : Bytes :=
  if o.escaped then [escape, o.value.toUInt8] else [o.value.toUInt8]

@[simp] theorem length_encode (o : Opcode) : o.encode.length = o.size := by
  unfold encode size
  split <;> rfl

/-- The opcode of a value. -/
def find? (value : UInt16) : Option Opcode := all.find? (·.value == value)

theorem value_of_find? {v : UInt16} {o : Opcode} (h : find? v = some o) : o.value = v := by
  simpa using List.find?_some h

theorem mem_all_of_find? {v : UInt16} {o : Opcode} (h : find? v = some o) : o ∈ all :=
  List.mem_of_find?_eq_some h

/-- No two opcodes have the same value. -/
theorem find?_value : ∀ o ∈ all, find? o.value = some o := by decide +kernel

/-- A value is a byte below the escape byte, or the escape byte and a second one. -/
theorem value_bounds : ∀ o ∈ all,
    o.value.toNat < 0xFE ∨ 0xFE00 ≤ o.value.toNat ∧ o.value.toNat < 0xFF00 := by decide +kernel

/-- The opcode that is written as one byte. -/
def oneByte? (b : UInt8) : Option Opcode := find? (UInt16.ofNat b.toNat)

/-- The opcode that is written as the escape byte and `b`. -/
def twoByte? (b : UInt8) : Option Opcode := find? (UInt16.ofNat (0xFE00 + b.toNat))

/-- The opcode that starts with `first`, when `next` is the byte behind it, if there is one. -/
def lookup? (first : UInt8) (next : Option UInt8) : Option Opcode :=
  if first = escape then next.bind twoByte? else oneByte? first

end Opcode

end Cil
