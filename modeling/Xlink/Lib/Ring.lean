import Mathlib.Logic.Function.Basic
import Mathlib.Tactic.TypeStar

/-!
# Ring buffers

A ring of cells with two positions: `head` is the cell filled last, `tail` the cell emptied last.
What waits are the cells after `tail` up to `head`, the oldest first. Equal positions are an empty
ring, so one cell always stays free.

A cell is filled before or after `head` moves over it, and emptied after `tail` has: `store`,
`publish` and `drop` are the parts, so that a user may say what happens between two of them.
-/

namespace Ring

/-- The cell after a cell; the first one follows the last. -/
def next {size : Nat} (i : Fin size) : Fin size := ⟨(i + 1) % size, Nat.mod_lt _ i.pos⟩

theorem next_val {size : Nat} (i : Fin size) :
    (next i).val = if i.val + 1 = size then 0 else i.val + 1 := by
  show (i.val + 1) % size = _
  split
  · next h => rw [h, Nat.mod_self]
  · next h => exact Nat.mod_eq_of_lt (by omega)

theorem next_inj {size : Nat} {i j : Fin size} (h : next i = next j) : i = j := by
  have hi := next_val i
  have hj := next_val j
  ext
  rw [h] at hi
  split at hi <;> split at hj <;> omega

structure Buffer (α : Type*) (size : Nat) where
  cells : Fin size → α
  head : Fin size
  tail : Fin size

namespace Buffer

variable {α : Type*} {size : Nat} (b : Buffer α size)

/-- How many cells wait. -/
def count : Nat := (size + b.head - b.tail) % size

/-- The place of the waiting cell `i`. -/
def slot (i : Nat) : Fin size := ⟨(b.tail + 1 + i) % size, Nat.mod_lt _ b.tail.pos⟩

/-- What waits, the oldest first. -/
def contents : List α := (List.range b.count).map fun i => b.cells (b.slot i)

/-- The cell after `head` is filled. -/
def store (x : α) : Buffer α size := { b with cells := Function.update b.cells (next b.head) x }

/-- `head` moves over the cell after it. -/
def publish : Buffer α size := { b with head := next b.head }

def push (x : α) : Buffer α size := (b.store x).publish

/-- `tail` moves over the oldest cell. -/
def drop : Buffer α size := { b with tail := next b.tail }

/-- All that waits is dropped. -/
def clear : Buffer α size := { b with head := b.tail }

/-! ## Positions -/

theorem count_eq :
    b.count = if b.tail.val ≤ b.head.val then b.head.val - b.tail.val
      else size + b.head.val - b.tail.val := by
  have hhead := b.head.isLt
  have htail := b.tail.isLt
  show (size + b.head.val - b.tail.val) % size = _
  split
  · next h =>
    have hround : size + b.head.val - b.tail.val = (b.head.val - b.tail.val) + size := by omega
    rw [hround, Nat.add_mod_right]
    exact Nat.mod_eq_of_lt (by omega)
  · next h => exact Nat.mod_eq_of_lt (by omega)

theorem slot_val {i : Nat} (hi : i < size) :
    (b.slot i).val = if b.tail.val + 1 + i < size then b.tail.val + 1 + i
      else b.tail.val + 1 + i - size := by
  have htail := b.tail.isLt
  show (b.tail.val + 1 + i) % size = _
  split
  · next h => exact Nat.mod_eq_of_lt h
  · next h =>
    rw [Nat.mod_eq_sub_mod (by omega)]
    exact Nat.mod_eq_of_lt (by omega)

theorem count_lt : b.count < size := Nat.mod_lt _ b.tail.pos

@[simp] theorem length_contents : b.contents.length = b.count := by simp [contents]

theorem head_eq_tail_iff : b.head = b.tail ↔ b.contents = [] := by
  have hhead := b.head.isLt
  have htail := b.tail.isLt
  rw [← List.length_eq_zero_iff, length_contents, count_eq, Fin.ext_iff]
  split <;> omega

theorem next_head_eq_tail_iff : next b.head = b.tail ↔ b.contents.length + 1 = size := by
  have hhead := b.head.isLt
  have htail := b.tail.isLt
  rw [length_contents, count_eq, Fin.ext_iff, next_val]
  split <;> split <;> omega

theorem slot_zero : b.slot 0 = next b.tail := rfl

/-- The cell after `head` is the one after those that wait. -/
theorem slot_count : b.slot b.count = next b.head := by
  ext
  have hhead := b.head.isLt
  have htail := b.tail.isLt
  have hcount := b.count_eq
  rw [slot_val b b.count_lt, next_val]
  split at hcount <;> split <;> split <;> omega

theorem slot_inj {i j : Nat} (hi : i < size) (hj : j < size) (h : b.slot i = b.slot j) : i = j := by
  have htail := b.tail.isLt
  rw [Fin.ext_iff, slot_val b hi, slot_val b hj] at h
  split at h <;> split at h <;> omega

/-! ## What the parts do -/

theorem getElem_contents {i : Nat} (hi : i < b.contents.length) :
    b.contents[i] = b.cells (b.slot i) := by
  simp [contents]

/-- The cell after `head` is free. -/
theorem contents_store (x : α) : (b.store x).contents = b.contents := by
  refine List.ext_getElem (by simp only [length_contents]; rfl) fun i h₁ h₂ => ?_
  rw [getElem_contents, getElem_contents]
  rw [length_contents] at h₂
  show Function.update b.cells (next b.head) x (b.slot i) = b.cells (b.slot i)
  rw [Function.update_of_ne fun hsame => ?_]
  -- the free cell would be one of those that wait
  have hslot : b.slot i = b.slot b.count := by rw [slot_count, ← hsame]
  exact Nat.ne_of_lt h₂ (b.slot_inj (Nat.lt_trans h₂ b.count_lt) b.count_lt hslot)

theorem count_publish (hroom : next b.head ≠ b.tail) : b.publish.count = b.count + 1 := by
  have hhead := b.head.isLt
  have htail := b.tail.isLt
  have hnext := next_val b.head
  rw [Ne, Fin.ext_iff] at hroom
  rw [count_eq, count_eq]
  show (if b.tail.val ≤ (next b.head).val then (next b.head).val - b.tail.val
    else size + (next b.head).val - b.tail.val) = _
  split at hnext <;> split <;> split <;> omega

theorem contents_publish (hroom : next b.head ≠ b.tail) :
    b.publish.contents = b.contents ++ [b.cells (next b.head)] := by
  rw [← slot_count, contents, b.count_publish hroom, List.range_succ, List.map_append]
  rfl

theorem contents_push (x : α) (hroom : next b.head ≠ b.tail) :
    (b.push x).contents = b.contents ++ [x] := by
  have hfilled : (b.store x).cells (next b.head) = x := by
    show Function.update b.cells (next b.head) x (next b.head) = x
    rw [Function.update_self]
  rw [push, contents_publish (b.store x) hroom, contents_store]
  exact congrArg (fun y => b.contents ++ [y]) hfilled

/-- A cell that is emptied stays as it is while others are filled. -/
theorem cells_push (x : α) (hroom : next b.head ≠ b.tail) :
    (b.push x).cells b.tail = b.cells b.tail := by
  show Function.update b.cells (next b.head) x b.tail = b.cells b.tail
  rw [Function.update_of_ne hroom.symm]

theorem contents_drop (hsome : b.head ≠ b.tail) :
    b.contents = b.cells (next b.tail) :: b.drop.contents := by
  have hhead := b.head.isLt
  have htail := b.tail.isLt
  have hnext := next_val b.tail
  have hcount : b.count = b.drop.count + 1 := by
    rw [Ne, Fin.ext_iff] at hsome
    rw [count_eq, count_eq]
    show _ = (if (next b.tail).val ≤ b.head.val then b.head.val - (next b.tail).val
      else size + b.head.val - (next b.tail).val) + 1
    split at hnext <;> split <;> split <;> omega
  have hslots : ∀ i < b.drop.count, b.slot (i + 1) = b.drop.slot i := by
    intro i hi
    have hsize := b.count_lt
    ext
    rw [slot_val b (by omega), slot_val b.drop (by omega)]
    show _ = if (next b.tail).val + 1 + i < size then (next b.tail).val + 1 + i
      else (next b.tail).val + 1 + i - size
    split at hnext <;> split <;> split <;> omega
  rw [← slot_zero, contents, hcount, List.range_succ_eq_map, List.map_cons, List.map_map]
  refine congrArg (_ :: ·) (List.map_congr_left fun i hi => ?_)
  show b.cells (b.slot (i + 1)) = b.cells (b.drop.slot i)
  rw [hslots i (List.mem_range.1 hi)]

theorem contents_clear : b.clear.contents = [] := b.clear.head_eq_tail_iff.1 rfl

end Buffer

end Ring
