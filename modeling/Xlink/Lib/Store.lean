import Mathlib.Data.BitVec

/-!
# Stores

A store is a function from addresses to values, addresses being the words of some width. Values are
written and read from an address on, round the end of the store.
-/

namespace Store

variable {w : Nat} {β : Type*} {m m' : BitVec w → β} {a c : BitVec w} {bs : List β} {n : Nat}

/-- Values are written from an address on. -/
def write (m : BitVec w → β) : BitVec w → List β → BitVec w → β
  | _, [] => m
  | a, b :: bs => write (Function.update m a b) (a + 1) bs

/-- The `n` values from an address on. -/
def read (m : BitVec w → β) (a : BitVec w) (n : Nat) : List β :=
  (List.range n).map fun i => m (a + BitVec.ofNat w i)

@[simp] theorem length_read (m : BitVec w → β) (a : BitVec w) (n : Nat) :
    (read m a n).length = n := by
  simp [read]

theorem add_ofNat_succ (a : BitVec w) (i : Nat) :
    a + BitVec.ofNat w (i + 1) = a + 1 + BitVec.ofNat w i := by
  rw [BitVec.add_assoc, Nat.add_comm, BitVec.ofNat_add]
  rfl

theorem read_succ (m : BitVec w → β) (a : BitVec w) (n : Nat) :
    read m a (n + 1) = m a :: read m (a + 1) n := by
  rw [read, List.range_succ_eq_map, List.map_cons, List.map_map]
  refine congrArg₂ List.cons (congrArg m (BitVec.add_zero a)) (List.map_congr_left fun i _ => ?_)
  exact congrArg m (add_ofNat_succ a i)

theorem read_congr (h : ∀ i < n, m (a + BitVec.ofNat w i) = m' (a + BitVec.ofNat w i)) :
    read m a n = read m' a n :=
  List.map_congr_left fun i hi => h i (List.mem_range.1 hi)

/-- Stores that agree at an address agree there after they have been written alike. -/
theorem write_congr (h : m c = m' c) (a : BitVec w) (bs : List β) :
    write m a bs c = write m' a bs c := by
  induction bs generalizing m m' a with
  | nil => exact h
  | cons b bs ih =>
    refine ih ?_ (a + 1)
    by_cases hc : c = a
    · subst hc
      rw [Function.update_self, Function.update_self]
    · rw [Function.update_of_ne hc, Function.update_of_ne hc, h]

/-- A write leaves the values at other addresses alone. -/
theorem write_of_ne (h : ∀ i < bs.length, c ≠ a + BitVec.ofNat w i) (m : BitVec w → β) :
    write m a bs c = m c := by
  induction bs generalizing m a with
  | nil => rfl
  | cons b bs ih =>
    have hfirst : c ≠ a := by
      have := h 0 (Nat.succ_pos _)
      rwa [BitVec.add_zero] at this
    have hrest : ∀ i < bs.length, c ≠ a + 1 + BitVec.ofNat w i := fun i hi => by
      rw [← add_ofNat_succ]
      exact h (i + 1) (Nat.succ_lt_succ hi)
    rw [write, ih hrest, Function.update_of_ne hfirst]

/-- What has been written is read, unless it goes round the store and over itself. -/
theorem read_write (h : bs.length ≤ 2 ^ w) (m : BitVec w → β) (a : BitVec w) :
    read (write m a bs) a bs.length = bs := by
  induction bs generalizing m a with
  | nil => rfl
  | cons b bs ih =>
    rw [List.length_cons] at h
    have hkept : write (Function.update m a b) (a + 1) bs a = b := by
      rw [write_of_ne _ _, Function.update_self]
      intro i hi heq
      have hzero : BitVec.ofNat w (i + 1) = 0#w := by
        rw [← add_ofNat_succ] at heq
        exact BitVec.add_right_eq_self.1 heq.symm
      have := congrArg BitVec.toNat hzero
      rw [BitVec.toNat_ofNat, BitVec.toNat_ofNat, Nat.zero_mod, Nat.mod_eq_of_lt (by omega)] at this
      omega
    rw [List.length_cons, read_succ, write, hkept, ih (by omega)]

theorem read_append (m : BitVec w → β) (a : BitVec w) (k n : Nat) :
    read m a (k + n) = read m a k ++ read m (a + BitVec.ofNat w k) n := by
  simp only [read, List.range_add, List.map_append, List.map_map]
  refine congrArg _ (List.map_congr_left fun i _ => congrArg m ?_)
  rw [BitVec.ofNat_add, BitVec.add_assoc]

/-- The last of the values that have been written are read behind the others. -/
theorem read_write_append {front : List β} (h : (front ++ bs).length ≤ 2 ^ w) (m : BitVec w → β)
    (a : BitVec w) : read (write m a (front ++ bs)) (a + BitVec.ofNat w front.length) bs.length =
      bs := by
  have hall := read_write h m a
  rw [List.length_append, read_append] at hall
  exact (List.append_inj hall (length_read ..)).2

end Store
