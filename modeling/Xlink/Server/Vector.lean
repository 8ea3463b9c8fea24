import Xlink.Server.HandBack

/-!
# The interrupt vector

The RAM servers take the system's interrupt vector over when they are installed and give it back
when a program is run. No request in between touches it. `uninstall` of `server64.asm` stores the
two halves of the system's vector the other way round.

A run (`Listing.Step`) is any order of requests and of other code that leaves the vector alone. Of a
load or a poke it asks two things: that it does not write the vector (`Transfer.Spares`), and that
it is clear of what the server itself works with (`Listing.Allows`). What a server does once its own
cells or the configuration have been overwritten is not followed.
-/

namespace Xlink.Server

open Word Mos6502 Port

variable {T : Target}

/-- Where an interrupt goes. -/
def Machine.vector (M : Machine T) : Addr :=
  Word.word (M.ram 0x00#8 0x0315#16) (M.ram 0x00#8 0x0314#16)

/-- The vector is in RAM, under every configuration. -/
structure Target.Vectored (T : Target) : Prop where
  low : ∀ config, T.writes config 0x0314#16 = .ram 0x00#8 0x0314#16
  high : ∀ config, T.writes config 0x0315#16 = .ram 0x00#8 0x0315#16

theorem c64_vectored (rom : Addr → Byte) (chips : List Access → Addr → Byte) :
    (c64 rom chips).Vectored := ⟨fun _ => rfl, fun _ => rfl⟩

theorem c128_vectored (rom : Byte → Addr → Byte) (chips : List Access → Addr → Byte) :
    (c128 rom chips).Vectored := ⟨fun _ => rfl, fun _ => rfl⟩

/-! ## Storing the vector -/

section Store

variable {M : Machine T} {a x y : Byte} {z n : Bool} {st : List Byte}

/-- The vector has been stored. -/
def Machine.vectored (M : Machine T) (low high : Byte) : Machine T :=
  (M.setRam 0x00#8 0x0314#16 low).setRam 0x00#8 0x0315#16 high

theorem vector_vectored (M : Machine T) (low high : Byte) :
    (M.vectored low high).vector = word high low := by
  have hlow : (M.vectored low high).ram 0x00#8 0x0314#16 =
      (M.setRam 0x00#8 0x0314#16 low).ram 0x00#8 0x0314#16 := setRam_of_ne (by decide)
  rw [Machine.vector, hlow, Machine.vectored]
  simp only [Machine.setRam, Function.update_self]

theorem write_ram {addr : Addr} {bank : Byte} (hplace : T.writes M.config addr = .ram bank addr)
    (v : Byte) : Bus.write addr v M = some (M.setRam bank addr v) := by
  change M.write addr v = _
  rw [Machine.write, hplace, Machine.put, hplace]

theorem wp_storeVector (hT : T.Vectored) {Q : Cpu (Machine T) → Prop}
    (h : Q ⟨a, x, y, z, n, st, M.vectored a x⟩) :
    wp (sta (.abs 0x0314#16)) (fun _ t => wp (stx (.abs 0x0315#16)) (fun _ t => Q t) t)
      ⟨a, x, y, z, n, st, M⟩ := by
  simp only [wp_sta, wp_stx, locate_abs, write_ram (hT.low M.config), Option.some.injEq,
    exists_eq_left']
  exact ⟨_, write_ram (hT.high _) x, h⟩

/-- Reading a register leaves memory and configuration alone. -/
theorem read_memory (M : Machine T) (addr : Addr) : (M.read addr).2.config = M.config ∧
    (M.read addr).2.ram = M.ram ∧ (M.read addr).2.dd03 = M.dd03 := by
  unfold Machine.read
  split
  case h_4 =>
    unfold Machine.readIo
    split
    · split <;> exact ⟨rfl, rfl, rfl⟩
    · split
      · exact ⟨rfl, rfl, rfl⟩
      · split
        · exact ⟨rfl, rfl, rfl⟩
        · split <;> exact ⟨rfl, rfl, rfl⟩
  all_goals exact ⟨rfl, rfl, rfl⟩

theorem vector_setRam {bank : Byte} {addr : Addr} {v : Byte}
    (hne : addr ≠ 0x0314#16 ∧ addr ≠ 0x0315#16) : (M.setRam bank addr v).vector = M.vector := by
  rw [Machine.vector, setRam_of_ne fun h => hne.2 h.2.symm, setRam_of_ne fun h => hne.1 h.2.symm]
  rfl

/-- Where `install` leaves its re-entry: in RAM away from the vector. -/
structure Target.Entry (T : Target) (entry : Addr) : Prop where
  first : ∀ config, ∃ b, T.writes config entry = .ram b entry
  second : ∀ config, ∃ b, T.writes config (entry + 1#16) = .ram b (entry + 1#16)
  third : ∀ config, ∃ b, T.writes config (entry + 2#16) = .ram b (entry + 2#16)
  first_ne : entry ≠ 0x0314#16 ∧ entry ≠ 0x0315#16
  second_ne : entry + 1#16 ≠ 0x0314#16 ∧ entry + 1#16 ≠ 0x0315#16
  third_ne : entry + 2#16 ≠ 0x0314#16 ∧ entry + 2#16 ≠ 0x0315#16

theorem wp_staRam {addr : Addr} {Q : Cpu (Machine T) → Prop}
    (hplace : ∃ b, T.writes M.config addr = .ram b addr)
    (h : ∀ b, Q ⟨a, x, y, z, n, st, M.setRam b addr a⟩) :
    wp (sta (.abs addr)) (fun _ t => Q t) ⟨a, x, y, z, n, st, M⟩ := by
  obtain ⟨b, hplace⟩ := hplace
  simp only [wp_sta, locate_abs, write_ram hplace, Option.some.injEq, exists_eq_left']
  exact h b

theorem write_dd02 (hvis : T.Visible M.config) (v : Byte) : Bus.write 0xdd02#16 v M =
    some { M with log := M.log ++ [.write 0xdd02#16 v] } := by
  change M.write _ _ = _
  rw [Machine.write, (hvis 0xdd02#16 (by decide)).2]
  rfl

theorem wp_installAt (hT : T.Vectored) {entry irq install : Addr} (hentry : T.Entry entry)
    (hvis : T.Visible M.config) {Q : Unit → Cpu (Machine T) → Prop}
    (h : ∀ t, t.stack = st → t.bus.config = M.config → t.bus.dd03 = 0x00#8 →
      t.bus.vector = irq → Q () t) :
    wp (installAt entry irq install) Q ⟨a, x, y, z, n, st, M⟩ := by
  simp only [installAt, wp_bind, wp_ldaImm, wp_sta, locate_abs, write_dd03 hvis,
    Option.some.injEq, exists_eq_left', wp_lda, fetch_abs, wp_oraImm]
  let N : Machine T := { M with dd03 := 0x00#8, log := M.log ++ [.write 0xdd03#16 0x00#8] }
  obtain ⟨hconfig, hram, hdd03⟩ := read_memory N 0xdd02#16
  have hread : ∀ addr (N : Machine T), Bus.read addr N = N.read addr := fun _ _ => rfl
  change ∃ _, Bus.write 0xdd02#16 _ (Machine.read N 0xdd02#16).2 = _ ∧ _
  generalize (N.read 0xdd02#16).2 = O at *
  have hvisO : T.Visible O.config := by
    rw [hconfig]
    exact hvis
  refine ⟨_, write_dd02 hvisO _, ?_⟩
  rw [hread]
  generalize hP : ({ O with log := O.log ++ [.write 0xdd02#16 _] } : Machine T) = P
  obtain ⟨hconfig', hram', hdd03'⟩ := read_memory P 0xdd0d#16
  generalize (P.read 0xdd0d#16).2 = R at *
  have hR : R.config = M.config ∧ R.dd03 = 0x00#8 := by
    rw [hconfig', hdd03', ← hP]
    exact ⟨hconfig, hdd03⟩
  simp only [wp_ldxImm]
  refine wp_storeVector hT ?_
  simp only [wp_ldaImm]
  refine wp_staRam (hentry.first _) fun b₀ => ?_
  simp only [wp_ldaImm]
  refine wp_staRam (hentry.second _) fun b₁ => ?_
  simp only [wp_ldaImm]
  refine wp_staRam (Q := Q ()) (hentry.third _) fun b₂ => ?_
  apply h
  · rfl
  · exact hR.1
  · exact hR.2
  · rw [vector_setRam hentry.third_ne, vector_setRam hentry.second_ne,
      vector_setRam hentry.first_ne, vector_vectored, word_hi_lo]

end Store

theorem c64_entry (rom : Addr → Byte) (chips : List Access → Addr → Byte) :
    (c64 rom chips).Entry 0x03e8#16 where
  first _ := ⟨0x00#8, rfl⟩
  second _ := ⟨0x00#8, rfl⟩
  third _ := ⟨0x00#8, rfl⟩
  first_ne := by decide
  second_ne := by decide
  third_ne := by decide

theorem c128_entry (rom : Byte → Addr → Byte) (chips : List Access → Addr → Byte) :
    (c128 rom chips).Entry 0x1900#16 where
  first config := ⟨config >>> 6, rfl⟩
  second config := ⟨config >>> 6, rfl⟩
  third config := ⟨config >>> 6, rfl⟩
  first_ne := by decide
  second_ne := by decide
  third_ne := by decide

/-! ## Requests -/

/-- None of the bytes a request puts is part of the vector. -/
def Transfer.Spares : Transfer → Prop
  | .load _ _ address payload => ∀ i < payload.length,
    address + BitVec.ofNat 16 i ≠ 0x0314#16 ∧ address + BitVec.ofNat 16 i ≠ 0x0315#16
  | .poke _ _ address _ => address ≠ 0x0314#16 ∧ address ≠ 0x0315#16
  | _ => True

/-- An address that is not the vector's is not at the vector's place. -/
structure Target.VectorAlone (T : Target) : Prop where
  low : ∀ config a, T.writes config a = .ram 0x00#8 0x0314#16 → a = 0x0314#16
  high : ∀ config a, T.writes config a = .ram 0x00#8 0x0315#16 → a = 0x0315#16

section Puts

variable {M : Machine T}

theorem vector_put (hT : T.VectorAlone) {a : Addr} (hne : a ≠ 0x0314#16 ∧ a ≠ 0x0315#16) (v : Byte) :
    (M.put a v).vector = M.vector := by
  unfold Machine.put
  cases hplace : T.writes M.config a with
  | ram bank a' =>
    have hlow : ¬(0x00#8 = bank ∧ 0x0314#16 = a') := by
      rintro ⟨rfl, rfl⟩
      exact hne.1 (hT.low _ _ hplace)
    have hhigh : ¬(0x00#8 = bank ∧ 0x0315#16 = a') := by
      rintro ⟨rfl, rfl⟩
      exact hne.2 (hT.high _ _ hplace)
    dsimp only
    rw [Machine.vector, setRam_of_ne hhigh, setRam_of_ne hlow]
    rfl
  | _ => rfl

theorem vector_puts (hT : T.VectorAlone) {config : Byte} {address : Addr} {payload : List Byte}
    (hne : ∀ i < payload.length, address + BitVec.ofNat 16 i ≠ 0x0314#16 ∧
      address + BitVec.ofNat 16 i ≠ 0x0315#16) :
    (M.puts config address payload).vector = M.vector := by
  induction payload generalizing M address with
  | nil => rfl
  | cons b bs ih =>
    have hfirst := hne 0 (Nat.succ_pos _)
    rw [BitVec.add_zero] at hfirst
    have hrest : ∀ i < bs.length, address + 1#16 + BitVec.ofNat 16 i ≠ 0x0314#16 ∧
        address + 1#16 + BitVec.ofNat 16 i ≠ 0x0315#16 := by
      intro i hi
      rw [← add_ofNat_succ]
      exact hne (i + 1) (Nat.succ_lt_succ hi)
    rw [Machine.puts, ih hrest, vector_put hT hfirst]
    rfl

end Puts

section At

variable {a a' : Addr} {config bank : Byte}

/-- The place of a write in the memory map of the C64 is where the address says, if it is in RAM. -/
theorem c64_ram (h : c64Writes config a = .ram bank a') : a' = a := by
  have hwrites : (c64Writes config a).At a := c64Writes_at
  rw [h] at hwrites
  exact hwrites

theorem c128_ram (h : c128Writes config a = .ram bank a') : a' = a := by
  have hwrites : (c128Writes config a).At a := c128Writes_at
  rw [h] at hwrites
  exact hwrites

end At

theorem c64_vectorAlone (rom : Addr → Byte) (chips : List Access → Addr → Byte) :
    (c64 rom chips).VectorAlone :=
  ⟨fun _ _ h => (c64_ram h).symm, fun _ _ h => (c64_ram h).symm⟩

theorem c128_vectorAlone (rom : Byte → Addr → Byte) (chips : List Access → Addr → Byte) :
    (c128 rom chips).VectorAlone :=
  ⟨fun _ _ h => (c128_ram h).symm, fun _ _ h => (c128_ram h).symm⟩

theorem Listing.vectorAlone (l : Listing) : l.target.VectorAlone := by
  cases l with
  | server64 rom chips => exact c64_vectorAlone rom chips
  | kernal64 rom chips => exact c64_vectorAlone rom chips
  | server128 rom chips => exact c128_vectorAlone rom chips
  | kernal128 rom chips => exact c128_vectorAlone rom chips

/-- The vector is not in the RAM a listing changes on the side. -/
theorem Listing.vector_not_scratch (l : Listing) :
    ¬l.scratch.ram 0x00#8 0x0314#16 ∧ ¬l.scratch.ram 0x00#8 0x0315#16 := by
  cases l with
  | server64 => exact ⟨id, id⟩
  | kernal64 => exact ⟨by simp [Listing.scratch], by simp [Listing.scratch]⟩
  | server128 => exact ⟨by simp [Listing.scratch], by simp [Listing.scratch]⟩
  | kernal128 => exact ⟨by simp [Listing.scratch], by simp [Listing.scratch]⟩

/-- A request that spares the vector leaves it alone. -/
theorem Listing.Did.vector {l : Listing} {q : Transfer} {M N : Machine l.target} (h : l.Did q M N)
    (hspares : q.Spares) : N.vector = M.vector := by
  obtain ⟨hlow, hhigh⟩ := l.vector_not_scratch
  have hputs : (l.puts M q).vector = M.vector := by
    cases q with
    | load memory bank address payload => exact vector_puts l.vectorAlone hspares
    | poke memory bank address value =>
      apply vector_puts l.vectorAlone
      intro i hi
      obtain rfl : i = 0 := by simpa using hi
      rw [BitVec.add_zero]
      exact hspares
    | _ => rfl
  rw [← hputs, Machine.vector, h.ram _ _ hlow, h.ram _ _ hhigh]
  rfl

/-! ## Runs -/

namespace Listing

/-- The listings of the RAM servers. -/
def OnRam : Listing → Prop
  | .server64 .. | .server128 .. => True
  | .kernal64 .. | .kernal128 .. => False

/-- How a RAM server, whose dispatch is at `irq`, is installed. -/
def install : (l : Listing) → Addr → Addr → Code l.target Unit
  | .server64 .. => Server64.install
  | .server128 .. => Server128.install
  | .kernal64 .. | .kernal128 .. => fun _ _ => stuck

/-- What can happen to a machine that a server is installed on: other code runs, with interrupts at
which the PC does nothing, and the PC goes on; or the PC makes a request that spares the vector and
whose bytes are clear of the server's cells, the configuration and the cable (`Allows`). -/
inductive Step (l : Listing) : Machine l.target → Machine l.target → Prop
  | elsewhere {M N : Machine l.target} : N.vector = M.vector → Step l M N
  | attends {q : Transfer} {M : Machine l.target} {a x y : Byte} {z n : Bool} {st : List Byte}
    {o : Outcome} {t : Cpu (Machine l.target)} : Ready M → q.Asked M.pc → l.Allows M q →
    q.Spares → irq l.handlers ⟨a, x, y, z, n, st, M⟩ = some (o, t) → Step l M t.bus

/-- A step leaves the vector alone. -/
theorem Step.vector {l : Listing} {M N : Machine l.target} (h : l.Step M N) :
    N.vector = M.vector := by
  cases h with
  | elsewhere h => exact h
  | attends hM hasked hallows hspares hirq =>
    obtain ⟨r, hr, -, hdid, -⟩ := l.attends hM hasked hallows
    obtain rfl : r = _ := Option.some.inj (hr.symm.trans hirq)
    exact hdid.vector hspares

theorem wp_install {l : Listing} (hl : l.OnRam) {irq install : Addr} {s : Cpu (Machine l.target)}
    (hvis : l.target.Visible s.bus.config) :
    wp (l.install irq install) (fun _ t => t.stack = s.stack ∧ t.bus.config = s.bus.config ∧
      t.bus.dd03 = 0x00#8 ∧ t.bus.vector = irq) s := by
  obtain ⟨a, x, y, z, n, st, M⟩ := s
  cases l with
  | server64 rom chips =>
    exact wp_installAt (c64_vectored rom chips) (c64_entry rom chips) hvis
      fun _ h₀ h₁ h₂ h₃ => ⟨h₀, h₁, h₂, h₃⟩
  | server128 rom chips =>
    exact wp_installAt (c128_vectored rom chips) (c128_entry rom chips) hvis
      fun _ h₀ h₁ h₂ h₃ => ⟨h₀, h₁, h₂, h₃⟩
  | kernal64 => exact hl.elim
  | kernal128 => exact hl.elim

end Listing

/-! ## The end of a run -/

/-- The PC asks for the program to be run. -/
def Pc.Runs (pc : Pc) : Prop := ∃ k, pc = .sending [Command.run] k

end Xlink.Server
