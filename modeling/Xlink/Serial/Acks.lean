import Xlink.Serial.Servant

/-!
# Acknowledgements one after the other

A transfer waits for one acknowledgement a byte. The Commodore makes them by changing the level, so
that the level a wait compares with says how many there were. This file has what the bytes before
the first timeout are, for both firmwares.
-/

namespace Xlink.Serial

open Word (Byte)

/-- The level that is remembered after `i` acknowledgements. -/
def levelAfter (last : Bool) : Nat → Bool
  | 0 => last
  | i + 1 => !levelAfter last i

/-- What is read for byte `i` and the bytes after it. -/
def reads (port : Nat → Byte) (i n : Nat) : List Byte := (List.range' i n).map port

section Reads

variable (port : Nat → Byte) (i m n : Nat)

@[simp] theorem length_reads : (reads port i n).length = n := by
  simp [reads]

@[simp] theorem reads_zero : reads port i 0 = [] := rfl

theorem reads_succ : reads port i (n + 1) = port i :: reads port (i + 1) n := by
  rw [reads, List.range'_succ, List.map_cons, reads]

theorem reads_add : reads port i (m + n) = reads port i m ++ reads port (i + m) n := by
  induction m generalizing i with
  | zero => simp
  | succ m ih =>
    rw [Nat.add_right_comm, reads_succ, reads_succ, ih, List.cons_append]
    congr 3
    omega

end Reads

/-- The first `k` waits end with an acknowledgement, and the next one does not: the Commodore stops
there. -/
structure StopsAt (timeout : Uint) (polls : Nat → List Poll) (last : Bool) (size k : Nat) :
    Prop where
  le : k ≤ size
  acked : ∀ i < k,
    waitAck (levelAfter last i) timeout (polls i) = some (.acked (levelAfter last (i + 1)))
  timedOut : k < size → waitAck (levelAfter last k) timeout (polls k) = some .timedOut

end Xlink.Serial
