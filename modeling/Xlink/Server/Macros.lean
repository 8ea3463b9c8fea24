import Xlink.Server.Machine

/-!
# `server.h`

The macros the four servers share, and what each does to the machine. A macro's rule says that it
comes to its end when the PC does its part; the registers it leaves behind are not part of the rule,
except where the code after it looks at them.
-/

namespace Xlink.Server

open Word Mos6502 Port

variable {T : Target}

/-! ## The macros -/

/-- Wait for handshake from PC. Only a strobe sets FLAG, and the PC either has strobed or waits for
the server: a poll that finds FLAG clear goes on for ever. -/
def wait : Code T Unit := do
  lda (.abs 0xdd0d#16)
  andImm 0x10#8
  ifNe (pure ()) stuck

/-- Send handshake to PC (flip bit on CIA2 PA2). -/
def ack : Code T Unit := do
  lda (.abs 0xdd00#16)
  eorImm 0x04#8
  sta (.abs 0xdd00#16)

def strobe : Code T Unit := ack

def read : Code T Unit := do
  wait
  ldx (.abs 0xdd01#16)
  ack

def write : Code T Unit := do
  sta (.abs 0xdd01#16)
  strobe
  wait

def output : Code T Unit := do
  wait
  ldaImm 0xff#8
  sta (.abs 0xdd03#16)

def input : Code T Unit := do
  ldaImm 0x00#8
  sta (.abs 0xdd03#16)

/-- Whether the loop goes on. -/
def next : Code T Bool := do
  inc (.zp T.start)
  ifNe (pure ()) (inc (.zp (T.start + 1#8)))
  lda (.zp (T.start + 1#8))
  cmp (.zp (T.stop + 1#8))
  ifNe (pure true) do
    lda (.zp T.start)
    cmp (.zp T.stop)
    ifNe (pure true) (pure false)

def checkBasic : Code T Unit := do
  lda (.zp T.start)
  cmp (.zp T.bstart)
  ifNe (ldaImm 0x01#8) do
    lda (.zp (T.start + 1#8))
    cmp (.zp (T.bstart + 1#8))
    ifNe (ldaImm 0x01#8) (ldaImm 0x00#8)
  pha

def relinkBasic : Code T Unit := do
  pla
  ifNe (pure ()) do
    lda (.zp T.stop)
    sta (.abs T.bend)
    lda (.zp (T.stop + 1#8))
    sta (.abs (T.bend + 1#16))

def screenOff : Code T Unit := do
  bit (.zp T.mem)
  ifMi (pure ()) do
    ldaImm 0x0b#8
    sta (.abs 0xd011#16)

def screenOn : Code T Unit := do
  bit (.zp T.mem)
  ifMi (pure ()) do
    ldaImm 0x1b#8
    sta (.abs 0xd011#16)

/-! ## What they do to the machine -/

namespace Machine

variable (M : Machine T)

/-- PA2 is flipped, the PC goes on. -/
def acked (k : Pc) : Machine T :=
  { M with
    dd00 := M.dd00 ^^^ 0x04#8
    pc := k
    log := M.log ++ [.write 0xdd00#16 (M.dd00 ^^^ 0x04#8)] }

/-- A byte is taken from the PC. -/
def received (b : Byte) (k : Pc) : Machine T := (M.strobed (some b) k).acked k

/-- Port B is turned around after the PC has strobed. -/
def turned (k : Pc) : Machine T :=
  { M.strobed none k with
    dd03 := 0xff#8
    log := M.log ++ [.write 0xdd03#16 0xff#8] }

/-- A byte is given to the PC. -/
def sent (v : Byte) (k : Pc) : Machine T :=
  (({ M with dd01 := v, log := M.log ++ [.write 0xdd01#16 v] } : Machine T).acked
    (.strobe none k)).strobed none k

/-- Port B is set back to input. -/
def released : Machine T :=
  { M with dd03 := 0x00#8, log := M.log ++ [.write 0xdd03#16 0x00#8] }

/-- The word in two zero page cells. -/
def word (c : Byte) : Addr := Word.word (M.zp (c + 1#8)) (M.zp c)

/-- Set two zero page cells to a word. -/
def setWord (c : Byte) (w : Addr) : Machine T := (M.setZp c (lo w)).setZp (c + 1#8) (hi w)

/-- The border is written unless the memory config has bit 7 set. -/
def screen (v : Byte) : Machine T :=
  if (M.zp T.mem).msb then M else { M with log := M.log ++ [Access.write 0xd011#16 v] }

end Machine

/-! ## Their rules -/

theorem isIo_wire : IsIo 0xdd0d#16 ∧ IsIo 0xdd00#16 ∧ IsIo 0xdd01#16 ∧ IsIo 0xdd03#16 ∧
    IsIo 0xd011#16 := by
  decide

section Wire

variable {M : Machine T} (hvis : T.Visible M.config)

include hvis

theorem read_dd0d : Bus.read 0xdd0d#16 M = M.readIo 0xdd0d#16 := by
  change M.read _ = _
  rw [Machine.read, (hvis _ isIo_wire.1).1]

theorem read_dd00 : Bus.read 0xdd00#16 M = (M.dd00, M) := by
  change M.read _ = _
  rw [Machine.read, (hvis _ isIo_wire.2.1).1]
  rfl

theorem read_dd01 : Bus.read 0xdd01#16 M = (M.portB, M) := by
  change M.read _ = _
  rw [Machine.read, (hvis _ isIo_wire.2.2.1).1]
  rfl

theorem write_dd00 (v : Byte) : Bus.write 0xdd00#16 v M = M.writeIo 0xdd00#16 v := by
  change M.write _ _ = _
  rw [Machine.write, (hvis _ isIo_wire.2.1).2]

theorem write_dd01 (v : Byte) : Bus.write 0xdd01#16 v M =
    some { M with dd01 := v, log := M.log ++ [.write 0xdd01#16 v] } := by
  change M.write _ _ = _
  rw [Machine.write, (hvis _ isIo_wire.2.2.1).2]
  rfl

theorem write_dd03 (v : Byte) : Bus.write 0xdd03#16 v M =
    some { M with dd03 := v, log := M.log ++ [.write 0xdd03#16 v] } := by
  change M.write _ _ = _
  rw [Machine.write, (hvis _ isIo_wire.2.2.2.1).2]
  rfl

theorem write_d011 (v : Byte) : Bus.write 0xd011#16 v M =
    some { M with log := M.log ++ [.write 0xd011#16 v] } := by
  change M.write _ _ = _
  rw [Machine.write, (hvis _ isIo_wire.2.2.2.2).2]
  rfl

end Wire

section Rules

variable {M : Machine T} {a x y : Byte} {z n : Bool} {st : List Byte} {k : Pc}
  {Q : Unit → Cpu (Machine T) → Prop}

@[simp] theorem fetch_zp (c : Byte) (s : Cpu (Machine T)) :
    (Mode.zp c).fetch s = Bus.read (zeroPage c) s.bus := rfl

@[simp] theorem fetch_abs (a : Addr) (s : Cpu (Machine T)) :
    (Mode.abs a).fetch s = Bus.read a s.bus := rfl

@[simp] theorem locate_zp (c : Byte) (s : Cpu (Machine T)) :
    (Mode.zp c).locate s = (zeroPage c, s.bus) := rfl

@[simp] theorem locate_abs (a : Addr) (s : Cpu (Machine T)) :
    (Mode.abs a).locate s = (a, s.bus) := rfl

theorem wp_wait {d : Option Byte} (hvis : T.Visible M.config) (hpc : M.pc = .strobe d k)
    (h : ∀ a z n, Q () ⟨a, x, y, z, n, st, M.strobed d k⟩) :
    wp wait Q ⟨a, x, y, z, n, st, M⟩ := by
  simp only [wait, wp_bind, wp_lda, fetch_abs, read_dd0d hvis, Machine.readIo, hpc, ↓reduceIte,
    wp_andImm, wp_ifNe, BitVec.reduceAnd, wp_pure]
  exact h _ _ _

theorem xor_four (v : Byte) : ((v ^^^ 0x04#8) ^^^ v) &&& 0x04#8 ≠ 0#8 := by
  rw [BitVec.xor_comm v, BitVec.xor_assoc, BitVec.xor_self]
  decide

theorem wp_ack {f : Byte → Pc} (hvis : T.Visible M.config) (hpc : M.pc = .ack f)
    (h : ∀ a z n, Q () ⟨a, x, y, z, n, st, M.acked (f M.onLines)⟩) :
    wp ack Q ⟨a, x, y, z, n, st, M⟩ := by
  simp only [ack, wp_bind, wp_lda, fetch_abs, read_dd00 hvis, wp_eorImm, wp_sta, locate_abs,
    write_dd00 hvis, Machine.writeIo, ↓reduceIte, if_neg (xor_four M.dd00), hpc, Option.some.injEq,
    exists_eq_left']
  exact h _ _ _

theorem portB_input (hin : M.dd03 = 0x00#8) : M.portB = M.lines := by
  rw [Machine.portB, hin, BitVec.and_zero, BitVec.zero_or]
  exact BitVec.and_allOnes

theorem onLines_output (hout : M.dd03 = 0xff#8) : M.onLines = M.dd01 := by
  rw [Machine.onLines, hout]
  exact (BitVec.or_zero).trans BitVec.and_allOnes

/-- A byte the PC sends ends up in X. -/
theorem wp_read {b : Byte} (hvis : T.Visible M.config) (hin : M.dd03 = 0x00#8)
    (hpc : M.pc = Pc.sending [b] k)
    (h : ∀ a z n, Q () ⟨a, b, y, z, n, st, M.received b k⟩) :
    wp read Q ⟨a, x, y, z, n, st, M⟩ := by
  simp only [read, wp_bind]
  refine wp_wait hvis hpc fun a z n => ?_
  simp only [wp_ldx, fetch_abs, read_dd01 (M := M.strobed _ _) hvis]
  refine wp_ack (M := M.strobed _ _) hvis rfl fun a z n => ?_
  rw [portB_input (M := M.strobed _ _) hin]
  exact h a z n

/-- The byte in A goes to the PC. -/
theorem wp_write {f : Byte → Pc} (hvis : T.Visible M.config) (hout : M.dd03 = 0xff#8)
    (hpc : M.pc = .ack fun b => .strobe none (f b))
    (h : ∀ v z n, Q () ⟨v, x, y, z, n, st, M.sent a (f a)⟩) :
    wp write Q ⟨a, x, y, z, n, st, M⟩ := by
  simp only [write, strobe, wp_bind, wp_sta, locate_abs, write_dd01 hvis, Option.some.injEq,
    exists_eq_left']
  refine wp_ack hvis hpc fun a' z n => ?_
  refine wp_wait hvis rfl fun a' z n => ?_
  rw [onLines_output (by exact hout)]
  exact h a' z n

theorem wp_output (hvis : T.Visible M.config) (hpc : M.pc = .strobe none k)
    (h : ∀ z n, Q () ⟨0xff#8, x, y, z, n, st, M.turned k⟩) :
    wp output Q ⟨a, x, y, z, n, st, M⟩ := by
  simp only [output, wp_bind]
  refine wp_wait hvis hpc fun a z n => ?_
  simp only [wp_ldaImm, wp_sta, locate_abs, write_dd03 (M := M.strobed _ _) hvis,
    Option.some.injEq, exists_eq_left']
  exact h _ _

theorem wp_input (hvis : T.Visible M.config)
    (h : ∀ a z n, Q () ⟨a, x, y, z, n, st, M.released⟩) :
    wp input Q ⟨a, x, y, z, n, st, M⟩ := by
  simp only [input, wp_bind, wp_ldaImm, wp_sta, locate_abs, write_dd03 hvis, Option.some.injEq,
    exists_eq_left']
  exact h _ _ _

end Rules

/-! ## Cells -/

section Cells

variable (T) in
/-- The cells a listing names, but for the end of the program text. -/
def Target.cells : List Byte := T.work ++ [T.bstart, T.bstart + 1#8]

variable {M : Machine T} {c d v : Byte}

theorem read_cell (hc : c ∈ T.cells) : Bus.read (zeroPage c) M = (M.zp c, M) := by
  change M.read _ = _
  rw [Machine.read, T.reads_zp c hc M.config]

theorem write_cell (hc : c ∈ T.work) (v : Byte) :
    Bus.write (zeroPage c) v M = some (M.setZp c v) := by
  change M.write _ _ = _
  rw [Machine.write, T.writes_zp c hc M.config, Machine.put, T.writes_zp c hc M.config]

@[simp] theorem zp_setZp_self : (M.setZp c v).zp c = v := Function.update_self ..

theorem zp_setZp_of_ne (h : d ≠ c) : (M.setZp c v).zp d = M.zp d := Function.update_of_ne h ..

theorem setZp_setZp_of_eq (h : d ≠ c) : (M.setZp c v).setZp d (M.zp d) = M.setZp c v := by
  unfold Machine.setZp
  congr 1
  refine Function.update_eq_self_iff.mpr ?_
  exact (Function.update_of_ne h ..).symm

variable (T) in
/-- The work cells are different from each other. -/
theorem Target.work_ne : T.start + 1#8 ≠ T.start ∧ T.stop ≠ T.start ∧ T.stop + 1#8 ≠ T.start ∧
    T.stop ≠ T.start + 1#8 ∧ T.stop + 1#8 ≠ T.start + 1#8 ∧ T.mem ≠ T.start ∧
    T.mem ≠ T.start + 1#8 ∧ T.stop + 1#8 ≠ T.stop := by
  have := T.nodup
  simp only [List.nodup_cons, List.mem_cons, List.not_mem_nil, or_false, not_or] at this
  tauto

end Cells

section CellRules

variable {M : Machine T} {a x y : Byte} {z n : Bool} {st : List Byte}

theorem wp_incZp {Q : Unit → Cpu (Machine T) → Prop} {c : Byte} (hc : c ∈ T.work)
    (h : ∀ n, Q () ⟨a, x, y, M.zp c + 1#8 == 0, n, st, M.setZp c (M.zp c + 1#8)⟩) :
    wp (inc (.zp c)) Q ⟨a, x, y, z, n, st, M⟩ := by
  have hcell : c ∈ T.cells := List.mem_append_left _ hc
  rw [wp_inc, fetch_zp, read_cell hcell, wp_store, locate_zp]
  exact ⟨_, write_cell hc _, h _⟩

theorem mem_work_start : T.start ∈ T.work ∧ T.start + 1#8 ∈ T.work := by simp [Target.work]

theorem mem_cells : T.start ∈ T.cells ∧ T.start + 1#8 ∈ T.cells ∧ T.stop ∈ T.cells ∧
    T.stop + 1#8 ∈ T.cells ∧ T.mem ∈ T.cells ∧ T.bank ∈ T.cells ∧ T.bstart ∈ T.cells ∧
    T.bstart + 1#8 ∈ T.cells := by
  simp [Target.cells, Target.work]

/-- The increment of a two-byte counter. -/
theorem wp_incStart {Q : Unit → Cpu (Machine T) → Prop}
    (h : ∀ z n, Q () ⟨a, x, y, z, n, st, M.setWord T.start (M.word T.start + 1#16)⟩) :
    wp (inc (.zp T.start)) (fun _ t => wp (ifNe (pure ()) (inc (.zp (T.start + 1#8)))) Q t)
      ⟨a, x, y, z, n, st, M⟩ := by
  have hword : M.setWord T.start (M.word T.start + 1#16) =
      (M.setZp T.start (M.zp T.start + 1#8)).setZp (T.start + 1#8)
        (if M.zp T.start + 1#8 = 0#8 then M.zp (T.start + 1#8) + 1#8
          else M.zp (T.start + 1#8)) := by
    rw [Machine.setWord, Machine.word, lo_add_one, hi_add_one, lo_word, hi_word]
  refine wp_incZp mem_work_start.1 fun n => ?_
  rw [wp_ifNe]
  by_cases hcarry : M.zp T.start + 1#8 = 0#8
  · rw [if_neg (by simp [hcarry])]
    refine wp_incZp mem_work_start.2 fun n => ?_
    rw [zp_setZp_of_ne T.work_ne.1]
    rw [hword, if_pos hcarry] at h
    exact h _ _
  · rw [if_pos (by simpa using hcarry), wp_pure]
    rw [hword, if_neg hcarry, setZp_setZp_of_eq T.work_ne.1] at h
    exact h _ _

theorem zp_setWord_low (w : Addr) : (M.setWord T.start w).zp T.start = lo w := by
  rw [Machine.setWord, zp_setZp_of_ne T.work_ne.1.symm, zp_setZp_self]

theorem zp_setWord_high (w : Addr) : (M.setWord T.start w).zp (T.start + 1#8) = hi w :=
  zp_setZp_self

theorem zp_setWord_of_ne (w : Addr) {c : Byte} (hlow : c ≠ T.start) (hhigh : c ≠ T.start + 1#8) :
    (M.setWord T.start w).zp c = M.zp c := by
  rw [Machine.setWord, zp_setZp_of_ne hhigh, zp_setZp_of_ne hlow]

/-- The start address is incremented, and the loop goes on unless it is the end address. -/
theorem wp_next {Q : Bool → Cpu (Machine T) → Prop}
    (h : ∀ a z n, Q (decide (M.word T.start + 1#16 ≠ M.word T.stop))
      ⟨a, x, y, z, n, st, M.setWord T.start (M.word T.start + 1#16)⟩) :
    wp next Q ⟨a, x, y, z, n, st, M⟩ := by
  obtain ⟨-, hstop, hstop₁, hstop', hstop₁', -⟩ := T.work_ne
  obtain ⟨hc₀, hc₁, hc₂, hc₃, -⟩ := mem_cells (T := T)
  simp only [next, wp_bind]
  refine wp_incStart fun z n => ?_
  simp only [wp_lda, fetch_zp, read_cell hc₁, zp_setWord_high, wp_cmp, read_cell hc₃,
    zp_setWord_of_ne _ hstop₁ hstop₁', wp_ifNe, wp_pure, wp_bind, read_cell hc₀, zp_setWord_low,
    read_cell hc₂, zp_setWord_of_ne _ hstop hstop']
  generalize M.word T.start + 1#16 = cur at h ⊢
  by_cases hhigh : hi cur = M.zp (T.stop + 1#8)
  · rw [if_neg (by simp [hhigh])]
    by_cases hlow : lo cur = M.zp T.stop
    · rw [if_neg (by simp [hlow])]
      have heq : cur = M.word T.stop := by
        rw [Machine.word, ← hhigh, ← hlow, word_hi_lo]
      simpa [heq] using h _ _ _
    · rw [if_pos (by simpa using hlow)]
      have hne : cur ≠ M.word T.stop := by
        rintro rfl
        exact hlow (lo_word _ _)
      simpa [hne] using h _ _ _
  · rw [if_pos (by simpa using hhigh)]
    have hne : cur ≠ M.word T.stop := by
      rintro rfl
      exact hhigh (hi_word _ _)
    simpa [hne] using h _ _ _

/-- `screenOff` and `screenOn` write `v` to `$d011` unless the memory config has bit 7 set. -/
theorem wp_screenOff {Q : Unit → Cpu (Machine T) → Prop} (hvis : T.Visible M.config)
    (h : ∀ a z n, Q () ⟨a, x, y, z, n, st, M.screen 0x0b#8⟩) :
    wp screenOff Q ⟨a, x, y, z, n, st, M⟩ := by
  obtain ⟨-, -, -, -, hc, -⟩ := mem_cells (T := T)
  simp only [screenOff, wp_bind, wp_bit, fetch_zp, read_cell hc, wp_ifMi, wp_pure, wp_ldaImm,
    wp_sta, locate_abs, write_d011 hvis, Option.some.injEq, exists_eq_left']
  split
  next hmsb => simpa [Machine.screen, hmsb] using h _ _ _
  next hmsb => simpa [Machine.screen, hmsb] using h _ _ _

theorem wp_screenOn {Q : Unit → Cpu (Machine T) → Prop} (hvis : T.Visible M.config)
    (h : ∀ a z n, Q () ⟨a, x, y, z, n, st, M.screen 0x1b#8⟩) :
    wp screenOn Q ⟨a, x, y, z, n, st, M⟩ := by
  obtain ⟨-, -, -, -, hc, -⟩ := mem_cells (T := T)
  simp only [screenOn, wp_bind, wp_bit, fetch_zp, read_cell hc, wp_ifMi, wp_pure, wp_ldaImm,
    wp_sta, locate_abs, write_d011 hvis, Option.some.injEq, exists_eq_left']
  split
  next hmsb => simpa [Machine.screen, hmsb] using h _ _ _
  next hmsb => simpa [Machine.screen, hmsb] using h _ _ _

/-- Whether a transfer starts at the start of the program text, and what `checkBasic` remembers of
it. -/
def Machine.basic (M : Machine T) : Byte :=
  if M.word T.start = M.word T.bstart then 0x00#8 else 0x01#8

theorem wp_checkBasic {Q : Unit → Cpu (Machine T) → Prop}
    (h : ∀ a z n, Q () ⟨a, x, y, z, n, M.basic :: st, M⟩) :
    wp checkBasic Q ⟨a, x, y, z, n, st, M⟩ := by
  obtain ⟨hc₀, hc₁, -, -, -, -, hc₂, hc₃⟩ := mem_cells (T := T)
  simp only [checkBasic, wp_bind, wp_lda, fetch_zp, read_cell hc₀, wp_cmp, read_cell hc₂, wp_ifNe,
    wp_ldaImm, wp_pha, read_cell hc₁, read_cell hc₃]
  by_cases hlow : M.zp T.start = M.zp T.bstart
  · by_cases hhigh : M.zp (T.start + 1#8) = M.zp (T.bstart + 1#8)
    · have hword : M.word T.start = M.word T.bstart := by
        rw [Machine.word, hlow, hhigh, Machine.word]
      simpa [hlow, hhigh, Machine.basic, hword] using h _ _ _
    · have hword : M.word T.start ≠ M.word T.bstart := fun heq =>
        hhigh (by simpa [Machine.word] using congrArg hi heq)
      simpa [hlow, hhigh, Machine.basic, hword] using h _ _ _
  · have hword : M.word T.start ≠ M.word T.bstart := fun heq =>
      hlow (by simpa [Machine.word] using congrArg lo heq)
    simpa [hlow, Machine.basic, hword] using h _ _ _

/-- The end address becomes the end of the program text, if the transfer was one of it. -/
def Machine.relinked (M : Machine T) (basic : Byte) : Machine T :=
  if basic = 0x00#8 then
    (M.put T.bend (M.zp T.stop)).put (T.bend + 1#16) (M.zp (T.stop + 1#8))
  else M

theorem wp_relinkBasic {Q : Unit → Cpu (Machine T) → Prop} {basic : Byte}
    (h : ∀ a z n, Q () ⟨a, x, y, z, n, st, M.relinked basic⟩) :
    wp relinkBasic Q ⟨a, x, y, z, n, basic :: st, M⟩ := by
  obtain ⟨-, -, hc₂, hc₃, -⟩ := mem_cells (T := T)
  obtain ⟨hbend, hbend₁⟩ := T.bend_clear M.config
  have hwork : T.stop + 1#8 ∈ T.work := by simp [Target.work]
  have hwrite : ∀ v, Bus.write T.bend v M = some (M.put T.bend v) :=
    fun v => Machine.write_eq_put hbend v
  have hwrite₁ : ∀ v w, Bus.write (T.bend + 1#16) w (M.put T.bend v) =
      some ((M.put T.bend v).put (T.bend + 1#16) w) := fun v w =>
    Machine.write_eq_put (by rw [Machine.config_put v hbend]; exact hbend₁) w
  simp only [relinkBasic, wp_bind, wp_pla, wp_ifNe, wp_pure, wp_lda, fetch_zp, read_cell hc₂,
    wp_sta, locate_abs, hwrite, Option.some.injEq, exists_eq_left', read_cell hc₃,
    Machine.zp_put _ hbend hwork, hwrite₁]
  by_cases hbasic : basic = 0x00#8
  · simpa [hbasic, Machine.relinked] using h _ _ _
  · simpa [hbasic, Machine.relinked] using h _ _ _

end CellRules

end Xlink.Server
