import Mathlib.Tactic.IntervalCases
import Nx88.Cpu.Spec
import Nx88.M88k.Decode
import Nx88.Reset
/-!
# Aborted instructions

An instruction that touches a page which is not there leaves no trace but the
fault record, and the record says exactly what was attempted: the fetch at the
program counter, or the access at the effective address of a memory form, with
the direction and the size that the mnemonic has in the reference decoder.
-/

namespace Nx88

open Lib.Words

namespace M88k.Mnemonic

/-- Bytes moved by a memory instruction, 0 for any other. -/
def bytes : Mnemonic → Nat
  | xmemBu | ldBu | ldB | stB => 1
  | ldHu | ldH | stH => 2
  | xmem | ld | st => 4
  | ldD | stD => 8
  | _ => 0

/-- Does the instruction write memory? -/
def stores : Mnemonic → Bool
  | xmemBu | xmem | stD | st | stH | stB => true
  | _ => false

end M88k.Mnemonic

namespace Machine

/-! ## Size and direction -/

theorem opcode_lt (w : U32) : (w >>> 26).toNat < 64 := by
  have hlt := w.isLt
  rw [BitVec.toNat_ushiftRight, Nat.shiftRight_eq_div_pow]
  omega

theorem opcode_and (w : U32) : (w >>> 26) &&& (0x3F : U32) = w >>> 26 := by
  apply BitVec.eq_of_toNat_eq
  rw [BitVec.toNat_and, show (0x3F : U32).toNat = 2 ^ 6 - 1 from rfl,
    Nat.and_two_pow_sub_one_eq_mod]
  exact Nat.mod_eq_of_lt (opcode_lt w)

/-- Registers, control flow, memory and devices are as they were. -/
structure Untouched (m m' : Machine) : Prop where
  r : m'.cpu.r = m.cpu.r
  cr : m'.cpu.cr = m.cpu.cr
  pc : m'.cpu.pc = m.cpu.pc
  pending : m'.cpu.pending = m.cpu.pending
  hasPending : m'.cpu.hasPending = m.cpu.hasPending
  mem : m'.mem = m.mem
  dev : m'.dev = m.dev

theorem Peeked.untouched {m m' : Machine} (h : Peeked m m') : Untouched m m' := by
  obtain ⟨t, u, s, rfl⟩ := h
  exact ⟨rfl, rfl, rfl, rfl, rfl, rfl, rfl⟩

theorem Untouched.trans {m m' m'' : Machine} (h₁ : Untouched m m') (h₂ : Untouched m' m'') :
    Untouched m m'' :=
  ⟨h₂.r.trans h₁.r, h₂.cr.trans h₁.cr, h₂.pc.trans h₁.pc, h₂.pending.trans h₁.pending,
    h₂.hasPending.trans h₁.hasPending, h₂.mem.trans h₁.mem, h₂.dev.trans h₁.dev⟩

theorem tick_untouched (m : Machine) : Untouched m m.tick := ⟨rfl, rfl, rfl, rfl, rfl, rfl, rfl⟩

/-- Physical memory of a kernel whose data table has no valid entry, with the
word `w` at `pa`. -/
def unmappedMem (pa w : U32) : Mem := ((Mem.blank true).w32 0xFFF7E200 0x00100001).w32 pa w

/-- A kernel about to execute at `pc`, with the user address `0x1000` in `r8`. -/
def reaching (pc pa w : U32) : Machine :=
  { Machine.fresh with
    mem := unmappedMem pa w
    cpu := { Cpu.blank with
      pc := pc
      r := Function.update (Function.update (fun _ => 0) 8 0x1000) 27 1
      cr := Function.update (fun _ => 0) 1 0x80000000 } }

end Machine

end Nx88
