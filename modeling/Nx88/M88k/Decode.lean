import Nx88.Cpu.Exec
/-!
# The reference decoder

`m88k.decode` of the tool set: a set of tables over opcode and sub-opcode
fields.  An encoding that no table names decodes to nothing.  The operand texts
of a decoded instruction, which only listings print, are left out.
-/

namespace Nx88.M88k

inductive Mnemonic where
  | xmemBu | xmem | ldHu | ldBu | ldD | ld | ldH | ldB
  | stD | st | stH | stB | ldaD | lda | ldaH | ldaB
  | and | andU | andC | mask | maskU | xor | xorU | xorC | or | orU | orC
  | addu | subu | divu | mul | add | sub | div | cmp
  | clr | set | ext | extu | mak | rot
  | br | brN | bsr | bsrN | bb0 | bb0N | bb1 | bb1N | bcnd | bcndN
  | tb0 | tb1 | tcnd
  | ldcr | fldcr | stcr | fstcr | xcr | fxcr
  | fmul | flt | fadd | fsub | fcmp | int | nint | trnc | fdiv | fsqrt
  | jmp | jmpN | jsr | jsrN | ff1 | ff0 | tbnd | rte
deriving DecidableEq

/-! ## Tables -/

def LOAD_STORE : List (Nat × Mnemonic) :=
  [(0x00, .xmemBu), (0x01, .xmem), (0x02, .ldHu), (0x03, .ldBu),
   (0x04, .ldD), (0x05, .ld), (0x06, .ldH), (0x07, .ldB),
   (0x08, .stD), (0x09, .st), (0x0A, .stH), (0x0B, .stB),
   (0x0C, .ldaD), (0x0D, .lda), (0x0E, .ldaH), (0x0F, .ldaB)]

def ALU_IMM : List (Nat × Mnemonic) :=
  [(0x10, .and), (0x11, .andU), (0x12, .mask), (0x13, .maskU),
   (0x14, .xor), (0x15, .xorU), (0x16, .or), (0x17, .orU),
   (0x18, .addu), (0x19, .subu), (0x1A, .divu), (0x1B, .mul),
   (0x1C, .add), (0x1D, .sub), (0x1E, .div), (0x1F, .cmp)]

def UNCOND : List (Nat × Mnemonic) := [(0x30, .br), (0x31, .brN), (0x32, .bsr), (0x33, .bsrN)]

def BITBR : List (Nat × Mnemonic) := [(0x34, .bb0), (0x35, .bb0N), (0x36, .bb1), (0x37, .bb1N)]

def CONDBR : List (Nat × Mnemonic) := [(0x3A, .bcnd), (0x3B, .bcndN)]

def BCND : List Nat := [0x01, 0x02, 0x03, 0x0C, 0x0D, 0x0E]

def BITFIELD : List (Nat × Mnemonic) :=
  [(0x20, .clr), (0x22, .set), (0x24, .ext), (0x26, .extu), (0x28, .mak), (0x2A, .rot)]

def TRAP : List (Nat × Mnemonic) := [(0x34, .tb0), (0x36, .tb1), (0x3A, .tcnd)]

def CTLREG : List (Nat × Mnemonic) :=
  [(0x08, .ldcr), (0x09, .fldcr), (0x10, .stcr), (0x11, .fstcr), (0x18, .xcr), (0x19, .fxcr)]

def FPU : List (Nat × Mnemonic) :=
  [(0x00, .fmul), (0x04, .flt), (0x05, .fadd), (0x06, .fsub), (0x07, .fcmp),
   (0x09, .int), (0x0A, .nint), (0x0B, .trnc), (0x0E, .fdiv), (0x0F, .fsqrt)]

def TRIADIC : List (Nat × Mnemonic) :=
  [(0x00, .xmemBu), (0x01, .xmem), (0x02, .ldHu), (0x03, .ldBu),
   (0x04, .ldD), (0x05, .ld), (0x06, .ldH), (0x07, .ldB),
   (0x08, .stD), (0x09, .st), (0x0A, .stH), (0x0B, .stB),
   (0x0C, .ldaD), (0x0D, .lda), (0x0E, .ldaH), (0x0F, .ldaB),
   (0x10, .and), (0x11, .andC), (0x14, .xor), (0x15, .xorC), (0x16, .or), (0x17, .orC),
   (0x18, .addu), (0x19, .subu), (0x1A, .divu), (0x1B, .mul),
   (0x1C, .add), (0x1D, .sub), (0x1E, .div), (0x1F, .cmp),
   (0x20, .clr), (0x22, .set), (0x24, .ext), (0x26, .extu), (0x28, .mak), (0x2A, .rot),
   (0x30, .jmp), (0x31, .jmpN), (0x32, .jsr), (0x33, .jsrN),
   (0x34, .ff1), (0x36, .ff0), (0x3E, .tbnd), (0x3F, .rte)]

/-! ## Decoding -/

structure Insn where
  addr : U32
  word : U32
  mn : Mnemonic
  /-- branch or call destination, if any -/
  target : Option U32
deriving DecidableEq

def signed (v : Nat) (bits : Nat) : Int :=
  if v &&& (1 <<< (bits - 1)) ≠ 0 then (v : Int) - (1 <<< bits : Nat) else v

/-- `(addr + (off << 2)) & 0xFFFFFFFF`. -/
def targetOf (addr : U32) (off : Int) : U32 := BitVec.ofInt 32 (addr.toNat + off * 4)

def decode (word addr : U32) : Option Insn :=
  let op := ((word >>> 26) &&& 0x3F).toNat
  let D := ((word >>> 21) &&& 0x1F).toNat
  let imm16 := (word &&& 0xFFFF).toNat
  let insn (mn : Mnemonic) : Insn := ⟨addr, word, mn, none⟩
  let branch (off : Int) (mn : Mnemonic) : Insn := ⟨addr, word, mn, some (targetOf addr off)⟩
  if let some mn := LOAD_STORE.lookup op then some (insn mn)
  else if let some mn := ALU_IMM.lookup op then some (insn mn)
  else if op = 0x20 then (CTLREG.lookup ((word >>> 11) &&& 0x1F).toNat).map insn
  else if op = 0x21 then (FPU.lookup ((word >>> 11) &&& 0x1F).toNat).map insn
  else if let some mn := UNCOND.lookup op then
    some (branch (signed (word &&& 0x03FFFFFF).toNat 26) mn)
  else if let some mn := BITBR.lookup op then some (branch (signed imm16 16) mn)
  else if let some mn := CONDBR.lookup op then
    if BCND.contains D then some (branch (signed imm16 16) mn) else none
  else if op = 0x3C then
    let sub := ((word >>> 10) &&& 0x3F).toNat
    if let some mn := TRAP.lookup sub then some (insn mn)
    else (BITFIELD.lookup sub).map insn
  else if op = 0x3D then (TRIADIC.lookup ((word >>> 10) &&& 0x3F).toNat).map insn
  else none

end Nx88.M88k
