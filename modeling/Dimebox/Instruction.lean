import Dimebox.Trap
import Dimebox.Memory

/-! Instructions: the factory, the encodings and the object one instruction runs in.

    `Iclass` lists the classes the two factories can return. `Decode` extracts the fields of the
    class's encoding and leaves the others uninitialised (`Junk`), so a body that reads a field its
    format does not have reads junk. -/

namespace Dimebox

/-- The classes `NewInstruction` and `NewInstruction16` instantiate. -/
inductive Iclass where
  | lui | auipc | jal | jalr | beq | bne | blt | bge | bltu | bgeu
  | lb | lh | lw | lbu | lhu | sb | sh | sw
  | addi | slti | sltiu | xori | ori | andi | slli | srli | srai
  | add | sub | sll | slt | sltu | xor | srl | sra | or | and
  | mul | mulh | mulhsu | mulhu | div | divu | rem | remu
  | ecall | ebreak | uret | sret | hret | mret | wfi | sfence | fence | fenceI
  | csrrw | csrrs | csrrc | csrrwi | csrrsi | csrrci
  | cAddi4spn | cLw | cSw | cAddi | cJal | cLi | cAddi16sp | cLui | cAndi | cSub | cXor | cOr
  | cAnd | cJ | cBeqz | cNop
  | unknownInstruction
  deriving DecidableEq

/-- The encoding types (`RtypeInstruction` and so on). -/
inductive Format where
  | r | i | s | b | u | j | ci | ciw | cl | cs | cb | cj | unknown
  deriving DecidableEq

namespace Iclass

/-- The base class of an instruction class. -/
def format : Iclass → Format
  | .lui | .auipc | .fence | .fenceI | .ecall | .ebreak => .u
  | .jal => .j
  | .addi | .slti | .xori | .ori | .andi | .csrrw | .csrrc | .csrrs | .csrrwi | .csrrsi | .csrrci
  | .sltiu | .slli | .srli | .srai | .jalr | .lb | .lh | .lw | .lbu | .lhu
  | .uret | .sret | .hret | .mret | .wfi | .sfence => .i
  | .sb | .sh | .sw => .s
  | .beq | .bne | .blt | .bge | .bltu | .bgeu => .b
  | .add | .slt | .sltu | .and | .or | .xor | .sll | .srl | .sub | .sra
  | .mul | .mulh | .mulhsu | .mulhu | .div | .divu | .rem | .remu => .r
  | .cLi | .cLui | .cAddi | .cAddi16sp | .cNop => .ci
  | .cAddi4spn => .ciw
  | .cLw => .cl
  | .cSw | .cAnd | .cOr | .cXor | .cSub => .cs
  | .cBeqz | .cAndi => .cb
  | .cJ | .cJal => .cj
  | .unknownInstruction => .unknown

/-- `instr_size`. -/
def instrSize (c : Iclass) : U32 :=
  match c.format with
  | .ci | .ciw | .cl | .cs | .cb | .cj => 2
  | _ => 4

end Iclass

/-! ### The factories -/

/-- A field of an encoding: `(encoding >> shift) & mask`. -/
def field (encoding : U32) (shift mask : Nat) : U32 := (encoding >>> shift) &&& BitVec.ofNat 32 mask

/-- The last switches of the `0x73` case of `NewInstruction`. -/
def newSystem (encoding : U32) : Iclass :=
  if encoding = 0x73 then .ecall
  else if encoding = 0x100073 then .ebreak
  else if field encoding 12 0x7 = 0 ∧ field encoding 15 0x1f = 0 then
    match (field encoding 20 0xfff).toNat with
    | 0x002 => .uret
    | 0x102 => .sret
    | 0x202 => .hret
    | 0x302 => .mret
    | 0x105 => .wfi
    | 0x104 => .sfence
    | _ => .unknownInstruction
  else
    match (field encoding 12 0x7).toNat with
    | 1 => .csrrw
    | 2 => .csrrs
    | 3 => .csrrc
    | 5 => .csrrwi
    | 6 => .csrrsi
    | 7 => .csrrci
    | _ => .unknownInstruction

/-- `NewInstruction` for a 32-bit encoding. -/
def newInstruction (encoding : U32) : Iclass :=
  let funct3 := (field encoding 12 0x7).toNat
  let funct7 := (field encoding 25 0x7f).toNat
  match (field encoding 0 0x7f).toNat with
  | 0x37 => .lui
  | 0x17 => .auipc
  | 0x6f => .jal
  | 0x67 => if funct3 = 0 then .jalr else .unknownInstruction
  | 0x63 =>
    match funct3 with
    | 0 => .beq
    | 1 => .bne
    | 4 => .blt
    | 5 => .bge
    | 6 => .bltu
    | 7 => .bgeu
    | _ => .unknownInstruction
  | 0x03 =>
    match funct3 with
    | 0 => .lb
    | 1 => .lh
    | 2 => .lw
    | 4 => .lbu
    | 5 => .lhu
    | _ => .unknownInstruction
  | 0x23 =>
    match funct3 with
    | 0 => .sb
    | 1 => .sh
    | 2 => .sw
    | _ => .unknownInstruction
  | 0x13 =>
    match funct3 with
    | 0 => .addi
    | 2 => .slti
    | 3 => .sltiu
    | 4 => .xori
    | 6 => .ori
    | 7 => .andi
    | 1 => if funct7 = 0 then .slli else .unknownInstruction
    | 5 => if funct7 = 0 then .srli else if funct7 = 0x20 then .srai else .unknownInstruction
    | _ => .unknownInstruction
  | 0x33 =>
    match funct7, funct3 with
    | 0, 0 => .add
    | 0, 1 => .sll
    | 0, 2 => .slt
    | 0, 3 => .sltu
    | 0, 4 => .xor
    | 0, 5 => .srl
    | 0, 6 => .or
    | 0, 7 => .and
    | 1, 0 => .mul
    | 1, 1 => .mulh
    | 1, 2 => .mulhsu
    | 1, 3 => .mulhu
    | 1, 4 => .div
    | 1, 5 => .divu
    | 1, 6 => .rem
    | 1, 7 => .remu
    | 0x20, 0 => .sub
    | 0x20, 5 => .sra
    | _, _ => .unknownInstruction
  | 0x73 => newSystem encoding
  | 0x0f =>
    if encoding &&& 0xf00fffff = 0xf then .fence
    else if encoding = 0x100f then .fenceI
    else .unknownInstruction
  | _ => .unknownInstruction

/-- `NewInstruction16`; funct3 111 gives C_LUI, as the source has it. -/
def newInstruction16 (state : RiscvState) (encoding : U32) : Iclass :=
  if !state.compressedExtensionEnabled then .unknownInstruction
  else if encoding = 0 then .unknownInstruction
  else if encoding = 1 then .cNop
  else
    let rd := field encoding 7 0x1f
    match ((field encoding 13 0x7 <<< 4) ||| (encoding &&& 0x3)).toNat with
    | 0x00 => .cAddi4spn
    | 0x20 => .cLw
    | 0x60 => .cSw
    | 0x01 => .cAddi
    | 0x11 => .cJal
    | 0x21 => .cLi
    | 0x31 => if rd = 2 then .cAddi16sp else if rd = 0 then .unknownInstruction else .cLui
    | 0x41 =>
      match ((field encoding 10 0x7 <<< 4) ||| field encoding 5 0x3).toNat with
      | 0x20 | 0x21 | 0x22 | 0x23 => .cAndi
      | 0x30 => .cSub
      | 0x31 => .cXor
      | 0x32 => .cOr
      | 0x33 => .cAnd
      | _ => .unknownInstruction
    | 0x51 => .cJ
    | 0x61 => .cBeqz
    | 0x71 => .cLui
    | _ => .unknownInstruction

/-! ### The instruction object -/

/-- `MemoryAccess`; the data of a read is not kept. -/
structure MemoryAccess where
  address : U64
  size : Nat
  isWrite : Bool
  membuffer : List Byte := []

/-- `Aligned`; the word size is the access size. -/
def MemoryAccess.aligned (a : MemoryAccess) : Bool :=
  a.size = 1 || (BitVec.ofNat 64 (a.size - 1) &&& a.address) = 0

/-- What a fresh instruction object holds in the members its constructor does not set. -/
structure Junk where
  rs2 : U32 := 0
  rs1 : U32 := 0
  rd : U32 := 0
  imm : U32 := 0
  mbuf : List Byte := []

/-- `RiscvInstruction`, with the state and the memory it points to. -/
structure RiscvInstruction where
  iclass : Iclass
  encoding : U32
  state : RiscvState
  memory : Memory
  mOpsMemory : List MemoryAccess := []
  nextPc : U32
  rs2 : U32
  rs1 : U32
  rd : U32
  imm : U32
  /-- `mbuf[80]` -/
  mbuf : List Byte

namespace RiscvInstruction

/-- The constructor. -/
def new (junk : Junk) (iclass : Iclass) (state : RiscvState) (memory : Memory) (encoding : U32) :
    RiscvInstruction :=
  { iclass, encoding, state, memory
    nextPc := state.pc.setWidth 32 + iclass.instrSize
    rs2 := junk.rs2, rs1 := junk.rs1, rd := junk.rd, imm := junk.imm
    mbuf := (junk.mbuf ++ List.replicate 80 0).take 80 }

/-- `rvc2reg`. -/
def rvc2reg (indx : U32) : U32 := indx + 8

/-- `Decode`. -/
def decode (i : RiscvInstruction) : RiscvInstruction :=
  let e := i.encoding
  match i.iclass.format with
  | .r => { i with rs2 := field e 20 0x1f, rs1 := field e 15 0x1f, rd := field e 7 0x1f }
  | .i => { i with imm := field e 20 0xfff, rs1 := field e 15 0x1f, rd := field e 7 0x1f }
  | .s =>
    { i with
      imm := (field e 25 0x7f <<< 5) ||| field e 7 0x1f
      rs2 := field e 20 0x1f, rs1 := field e 15 0x1f }
  | .b =>
    { i with
      imm := (field e 31 1 <<< 12) ||| (field e 25 0x3f <<< 5) ||| (field e 8 0xf <<< 1) |||
        (field e 7 1 <<< 11)
      rs2 := field e 20 0x1f, rs1 := field e 15 0x1f }
  | .u => { i with imm := e &&& 0xfffff000, rd := field e 7 0x1f }
  | .j =>
    { i with
      imm := (field e 12 0xff <<< 12) ||| (field e 20 1 <<< 11) ||| (field e 25 0x3f <<< 5) |||
        (field e 21 0xf <<< 1)
      rd := field e 7 0x1f }
  | .ci =>
    { i with
      imm := (((e &&& 0x1000) >>> 12) <<< 5) ||| ((e &&& 0x7c) >>> 2)
      rd := field e 7 0x1f, rs1 := field e 7 0x1f }
  | .ciw => { i with imm := (e &&& 0x1fe0) >>> 5, rd := rvc2reg (field e 2 0x3) }
  | .cl =>
    { i with
      imm := (field e 10 0x7 <<< 2) ||| field e 5 3
      rs1 := rvc2reg (field e 7 0x3), rd := rvc2reg (field e 2 0x3) }
  | .cs =>
    { i with
      imm := (field e 10 0x7 <<< 2) ||| field e 5 3
      rs1 := rvc2reg (field e 7 0x3), rs2 := rvc2reg (field e 2 0x3) }
  | .cb =>
    { i with
      imm := (((e &&& 0x1c00) >>> 10) <<< 5) ||| ((e &&& 0x7c) >>> 2)
      rs1 := rvc2reg (field e 7 0x3) }
  | .cj => { i with imm := (e &&& 0x1ffc) >>> 2 }
  | .unknown => i

end RiscvInstruction

end Dimebox
