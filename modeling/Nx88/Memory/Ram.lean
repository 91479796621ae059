import Nx88.Devices
/-!
# Accesses below the device registers

Every device register sits above `0xE0000000`, and the mailbox is one byte.
Anywhere else an access is a plain transfer of memory.
-/

namespace Nx88

open Lib.Words

namespace Machine

/-- An address below the device registers and off the mailbox. -/
structure OnRam (m : Machine) (a : U32) : Prop where
  below : a < 0xE0000000
  mailbox : a ≠ m.dev.tcsMboxPa

theorem ne_of_below {a b : U32} (ha : a < 0xE0000000) (hb : 0xE0000000 ≤ b) : a ≠ b := by
  intro heq
  rw [heq, BitVec.lt_def] at ha
  rw [BitVec.le_def] at hb
  omega

theorem isCmmuId_ram {a : U32} (ha : a < 0xE0000000) : isCmmuId a = false := by
  rw [isCmmuId, Bool.eq_false_iff]
  intro hpresent
  have hmem := List.contains_iff_mem.1 hpresent
  simp only [cmmuPresent, List.mem_cons, List.not_mem_nil, or_false] at hmem
  rcases hmem with hcode | hdata
  · exact ne_of_below ha (by decide) hcode
  · exact ne_of_below ha (by decide) hdata

theorem cmmuBaseOf_ram {a : U32} (ha : a < 0xE0000000) : cmmuBaseOf a = none := by
  unfold cmmuBaseOf
  rw [List.find?_eq_none]
  intro b hb
  have hhigh : 0xE0000000 ≤ b := by
    simp only [cmmuPresent, List.mem_cons, List.not_mem_nil, or_false] at hb
    rcases hb with rfl | rfl <;> decide
  rw [decide_eq_true_eq]
  rintro ⟨hle, -⟩
  rw [BitVec.lt_def] at ha
  rw [BitVec.le_def] at hhigh hle
  omega

theorem devRead32_ram {m : Machine} {a : U32} (ha : a < 0xE0000000) :
    m.devRead32 a = m.mem.r32 a := by
  have hne : ∀ b : U32, 0xE0000000 ≤ b → a ≠ b := fun b hb => ne_of_below ha hb
  have hpack : ¬(a = 0xE07EA008 ∨ a = 0xE07EA010 ∨ a = 0xE07EA028) := by
    rintro (h | h | h)
    · exact hne _ (by decide) h
    · exact hne _ (by decide) h
    · exact hne _ (by decide) h
  have hid : ¬isCmmuId a = true := by
    rw [isCmmuId_ram ha]
    decide
  unfold devRead32
  rw [if_neg (hne TIMER_ADDR (by decide)), if_neg hid, if_neg (hne CMRAM_DATA (by decide)),
    if_neg (hne IRQ_SOURCE_REG (by decide)), if_neg hpack]
  exact ite_self _

theorem tcsPoke_ram {m : Machine} {a : U32} (ha : a ≠ m.dev.tcsMboxPa) : m.tcsPoke a = m :=
  if_pos ha

theorem cmmuWrite_ram (m : Machine) {a : U32} (v : U32) (ha : a < 0xE0000000) :
    m.cmmuWrite a v = m := by
  unfold cmmuWrite
  rw [cmmuBaseOf_ram ha]

theorem devWrite32_ram {m : Machine} {a : U32} (v : U32) (ha : m.OnRam a) :
    m.devWrite32 a v = m.setMem (m.mem.w32 a v) := by
  have hne : ∀ b : U32, 0xE0000000 ≤ b → a ≠ b := fun b hb => ne_of_below ha.below hb
  unfold devWrite32
  rw [if_neg (hne CMRAM_SELECT (by decide)), if_neg (hne CMRAM_DATA (by decide)),
    if_neg (hne IRQ_SOURCE_REG (by decide)), if_neg (hne TIMER_CMP_REG (by decide))]
  simp only
  rw [if_neg (hne TIMER_ENA_REG (by decide))]
  have hpoke : (m.setMem (m.mem.w32 a v)).tcsPoke a = m.setMem (m.mem.w32 a v) :=
    tcsPoke_ram ha.mailbox
  rw [hpoke, cmmuWrite_ram _ v ha.below]
  exact ite_self _

theorem memAccess_ram (m : Machine) (sub D : U32) {ea : U32} (ha : ea < 0xE0000000) :
    m.memAccess sub D ea = m.memTransfer sub D ea := by
  have hne : ∀ b : U32, 0xE0000000 ≤ b → ea ≠ b := fun b hb => ne_of_below ha hb
  have htimer : ea &&& ~~~3 ≠ TIMER_ADDR := by
    refine ne_of_below ?_ (by decide)
    rw [BitVec.lt_def] at ha ⊢
    rw [BitVec.toNat_and]
    exact lt_of_le_of_lt Nat.and_le_left ha
  unfold memAccess
  rw [if_neg (fun h => hne SHA_CMD (by decide) h.2.1),
    if_neg (fun h => hne SHA_STATUS (by decide) h.2.1),
    if_neg (fun h => h.2.1.elim (hne _ (by decide)) (hne _ (by decide))),
    if_neg (fun h => hne HPS_RING_CONS (by decide) h.2.1), if_neg (fun h => htimer h.2)]

end Machine

end Nx88
