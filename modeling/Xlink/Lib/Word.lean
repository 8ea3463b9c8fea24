import Mathlib.Data.BitVec
import Mathlib.Tactic.Linarith

/-!
# Bytes and 16-bit words

The two halves of a 16-bit word and the word two bytes make. Everything here is about `BitVec 8`
and `BitVec 16`; the lemmas are the ones a byte-at-a-time protocol or an 8-bit machine needs: a word
is its two halves, and the halves and the counters read as natural numbers.
-/

namespace Word

/-- A byte. -/
abbrev Byte := BitVec 8

/-- A 16-bit word, also an address of a machine with 64K of memory. -/
abbrev Addr := BitVec 16

/-- The low byte of a word. -/
def lo (w : Addr) : Byte := w.setWidth 8

/-- The high byte of a word. -/
def hi (w : Addr) : Byte := (w >>> 8).setWidth 8

/-- The word with the given high and low byte. -/
def word (h l : Byte) : Addr := h ++ l

theorem toNat_lo (w : Addr) : (lo w).toNat = w.toNat % 256 := by
  simp [lo]

theorem toNat_hi (w : Addr) : (hi w).toNat = w.toNat / 256 := by
  have := w.isLt
  simp only [hi, BitVec.toNat_setWidth, BitVec.toNat_ushiftRight, Nat.shiftRight_eq_div_pow]
  omega

theorem toNat_word (h l : Byte) : (word h l).toNat = h.toNat * 256 + l.toNat := by
  rw [word, BitVec.toNat_append, ← Nat.shiftLeft_add_eq_or_of_lt l.isLt, Nat.shiftLeft_eq]

@[simp] theorem word_hi_lo (w : Addr) : word (hi w) (lo w) = w := by
  apply BitVec.eq_of_toNat_eq
  rw [toNat_word, toNat_hi, toNat_lo]
  omega

@[simp] theorem lo_word (h l : Byte) : lo (word h l) = l := by
  apply BitVec.eq_of_toNat_eq
  have := l.isLt
  rw [toNat_lo, toNat_word]
  omega

@[simp] theorem hi_word (h l : Byte) : hi (word h l) = h := by
  apply BitVec.eq_of_toNat_eq
  have := l.isLt
  rw [toNat_hi, toNat_word]
  omega

/-- A word is determined by its two halves. -/
theorem eq_of_lo_hi {v w : Addr} (hl : lo v = lo w) (hh : hi v = hi w) : v = w := by
  rw [← word_hi_lo v, ← word_hi_lo w, hl, hh]

theorem lo_add_one (w : Addr) : lo (w + 1#16) = lo w + 1#8 := by
  apply BitVec.eq_of_toNat_eq
  simp only [toNat_lo, BitVec.toNat_add, BitVec.toNat_ofNat]
  omega

theorem hi_add_one (w : Addr) :
    hi (w + 1#16) = if lo w + 1#8 = 0#8 then hi w + 1#8 else hi w := by
  have hlo : lo w + 1#8 = 0#8 ↔ w.toNat % 256 = 255 := by
    rw [← BitVec.toNat_inj]
    simp only [toNat_lo, BitVec.toNat_add, BitVec.toNat_ofNat]
    omega
  split
  next h =>
    apply BitVec.eq_of_toNat_eq
    have := hlo.mp h
    simp only [toNat_hi, BitVec.toNat_add, BitVec.toNat_ofNat]
    omega
  next h =>
    apply BitVec.eq_of_toNat_eq
    have := mt hlo.mpr h
    simp only [toNat_hi, BitVec.toNat_add, BitVec.toNat_ofNat]
    omega

theorem lo_sub_one (w : Addr) : lo (w - 1#16) = lo w - 1#8 := by
  apply BitVec.eq_of_toNat_eq
  simp only [toNat_lo, BitVec.toNat_sub, BitVec.toNat_ofNat]
  omega

theorem hi_sub_one (w : Addr) :
    hi (w - 1#16) = if lo w - 1#8 = 0xff#8 then hi w - 1#8 else hi w := by
  have hlo : lo w - 1#8 = 0xff#8 ↔ w.toNat % 256 = 0 := by
    rw [← BitVec.toNat_inj]
    simp only [toNat_lo, BitVec.toNat_sub, BitVec.toNat_ofNat]
    omega
  have hw := w.isLt
  split
  next h =>
    apply BitVec.eq_of_toNat_eq
    have := hlo.mp h
    simp only [toNat_hi, BitVec.toNat_sub, BitVec.toNat_ofNat]
    omega
  next h =>
    apply BitVec.eq_of_toNat_eq
    have := mt hlo.mpr h
    simp only [toNat_hi, BitVec.toNat_sub, BitVec.toNat_ofNat]
    omega

end Word
