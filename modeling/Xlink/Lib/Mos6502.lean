import Xlink.Lib.Word

/-!
# 6502 code as programs

A processor on an arbitrary bus, its instructions as state transformers, and weakest preconditions
to reason about code made of them. Code is embedded shallowly: a listing becomes a `do` block with
one instruction a line, a subroutine a program of its own, a conditional branch a choice between
two programs on a flag, and a backward branch a `loop` with the number of rounds it is given.

What is kept of the processor is what such listings look at: the three registers, the zero and the
negative flag, and the bytes on the stack. The stack is a list of its own, not page one of the
memory; a `jsr` and its `rts` leave it as it was.

`wp p Q s` says that `p` run from `s` comes to its end in a state that satisfies `Q`. The rules are
stated on states in constructor form, so that rewriting with them executes code symbolically.
-/

namespace Mos6502

open Word

/-! ## Processor and bus -/

/-- What the processor is connected to. Reading may have an effect on what is read. A write can be
one the system does not survive. -/
class Bus (σ : Type) where
  read : Addr → σ → Byte × σ
  write : Addr → Byte → σ → Option σ

/-- Registers, flags, stack (top first) and the bus. -/
@[ext] structure Cpu (σ : Type) where
  a : Byte
  x : Byte
  y : Byte
  z : Bool
  n : Bool
  stack : List Byte
  bus : σ

/-- A piece of code: how it leaves the processor, if it comes to its end. -/
def Asm (σ : Type) (α : Type) := Cpu σ → Option (α × Cpu σ)

variable {σ α β : Type}

instance : Monad (Asm σ) where
  pure v := fun s => some (v, s)
  bind p f := fun s =>
    match p s with
    | some (v, t) => f v t
    | none => none

/-- Code that does not come to its end. -/
def stuck : Asm σ α := fun _ => none

/-! ## Addressing -/

/-- The address of a zero page cell. -/
def zeroPage (c : Byte) : Addr := word 0x00#8 c

/-- An operand in memory: a zero page cell, an address, an address indexed by X, and the address in
two zero page cells indexed by Y. -/
inductive Mode where
  | zp (c : Byte)
  | abs (a : Addr)
  | absX (a : Addr)
  | indY (c : Byte)
  deriving DecidableEq, Repr

variable [Bus σ]

/-- The address an operand designates, and the bus after it has been found. -/
def Mode.locate (m : Mode) (s : Cpu σ) : Addr × σ :=
  match m with
  | .zp c => (zeroPage c, s.bus)
  | .abs a => (a, s.bus)
  | .absX a => (a + s.x.setWidth 16, s.bus)
  | .indY c =>
    let low := Bus.read (zeroPage c) s.bus
    let high := Bus.read (zeroPage (c + 1#8)) low.2
    (word high.1 low.1 + s.y.setWidth 16, high.2)

/-- The byte an operand designates, and the bus after it has been read. -/
def Mode.fetch (m : Mode) (s : Cpu σ) : Byte × σ :=
  Bus.read (m.locate s).1 (m.locate s).2

/-! ## Instructions -/

section Instructions

omit [Bus σ]

def ldaImm (v : Byte) : Asm σ Unit := fun s =>
  some ((), { s with a := v, z := v == 0, n := v.msb })
def ldxImm (v : Byte) : Asm σ Unit := fun s =>
  some ((), { s with x := v, z := v == 0, n := v.msb })
def ldyImm (v : Byte) : Asm σ Unit := fun s =>
  some ((), { s with y := v, z := v == 0, n := v.msb })
def andImm (v : Byte) : Asm σ Unit := fun s =>
  some ((), { s with a := s.a &&& v, z := s.a &&& v == 0, n := (s.a &&& v).msb })
def oraImm (v : Byte) : Asm σ Unit := fun s =>
  some ((), { s with a := s.a ||| v, z := s.a ||| v == 0, n := (s.a ||| v).msb })
def eorImm (v : Byte) : Asm σ Unit := fun s =>
  some ((), { s with a := s.a ^^^ v, z := s.a ^^^ v == 0, n := (s.a ^^^ v).msb })
def cmpImm (v : Byte) : Asm σ Unit := fun s =>
  some ((), { s with z := s.a == v, n := (s.a - v).msb })
def cpyImm (v : Byte) : Asm σ Unit := fun s =>
  some ((), { s with z := s.y == v, n := (s.y - v).msb })
def tax : Asm σ Unit := fun s => some ((), { s with x := s.a, z := s.a == 0, n := s.a.msb })
def tay : Asm σ Unit := fun s => some ((), { s with y := s.a, z := s.a == 0, n := s.a.msb })
def txa : Asm σ Unit := fun s => some ((), { s with a := s.x, z := s.x == 0, n := s.x.msb })

/-- Only the reset of the stack pointer to `$ff`, the empty stack, is embedded. -/
def txs : Asm σ Unit := fun s => if s.x = 0xff#8 then some ((), { s with stack := [] }) else none

def pha : Asm σ Unit := fun s => some ((), { s with stack := s.a :: s.stack })

def pla : Asm σ Unit := fun s =>
  match s.stack with
  | [] => none
  | v :: stack => some ((), { s with a := v, z := v == 0, n := v.msb, stack := stack })

/-- The address an `rti` goes to: it pulls the flags, then the address. -/
def rti : Asm σ Addr := fun s =>
  match s.stack with
  | _ :: l :: h :: stack => some (word h l, { s with stack := stack })
  | _ => none

/-- The address an `rts` goes to when it does not end a subroutine: one past the address pulled. -/
def rts : Asm σ Addr := fun s =>
  match s.stack with
  | l :: h :: stack => some (word h l + 1#16, { s with stack := stack })
  | _ => none

/-- A subroutine call. -/
def jsr (p : Asm σ α) : Asm σ α := p

/-- A branch on the zero flag: `p` if it is clear. -/
def ifNe (p q : Asm σ α) : Asm σ α := fun s => if s.z = false then p s else q s

/-- A branch on the negative flag: `p` if it is set. -/
def ifMi (p q : Asm σ α) : Asm σ α := fun s => if s.n = true then p s else q s

/-- Not an instruction: something about the processor, for the statement of what code did. -/
def observe (f : Cpu σ → α) : Asm σ α := fun s => some (f s, s)

/-- Not an instruction either: something else has its turn on the processor. -/
def elsewhere (f : Cpu σ → Cpu σ) : Asm σ Unit := fun s => some ((), f s)

/-- A do-while loop: the body says whether it branches back. Its results are collected. It does not
come to its end within `n` rounds when `n` is too small. -/
def loop (body : Asm σ (α × Bool)) : Nat → Asm σ (List α)
  | 0 => stuck
  | n + 1 => do
    let (v, again) ← body
    if again then
      let vs ← loop body n
      pure (v :: vs)
    else pure [v]

end Instructions

def lda (m : Mode) : Asm σ Unit := fun s =>
  let v := m.fetch s
  some ((), { s with a := v.1, z := v.1 == 0, n := v.1.msb, bus := v.2 })
def ldx (m : Mode) : Asm σ Unit := fun s =>
  let v := m.fetch s
  some ((), { s with x := v.1, z := v.1 == 0, n := v.1.msb, bus := v.2 })
def ldy (m : Mode) : Asm σ Unit := fun s =>
  let v := m.fetch s
  some ((), { s with y := v.1, z := v.1 == 0, n := v.1.msb, bus := v.2 })
def cmp (m : Mode) : Asm σ Unit := fun s =>
  let v := m.fetch s
  some ((), { s with z := s.a == v.1, n := (s.a - v.1).msb, bus := v.2 })
def bit (m : Mode) : Asm σ Unit := fun s =>
  let v := m.fetch s
  some ((), { s with z := s.a &&& v.1 == 0, n := v.1.msb, bus := v.2 })

/-- Store a byte at an operand. -/
def Mode.store (m : Mode) (v : Byte) : Asm σ Unit := fun s =>
  match Bus.write (m.locate s).1 v (m.locate s).2 with
  | some bus => some ((), { s with bus := bus })
  | none => none

def sta (m : Mode) : Asm σ Unit := fun s => m.store s.a s
def stx (m : Mode) : Asm σ Unit := fun s => m.store s.x s

def inc (m : Mode) : Asm σ Unit := fun s =>
  let v := m.fetch s
  let w := v.1 + 1#8
  m.store w { s with z := w == 0, n := w.msb, bus := v.2 }

def dec (m : Mode) : Asm σ Unit := fun s =>
  let v := m.fetch s
  let w := v.1 - 1#8
  m.store w { s with z := w == 0, n := w.msb, bus := v.2 }

/-- Copy code to an address, last byte first: `ldx #n-1`, then `lda code,x`, `sta address,x`, `dex`,
`bpl`. -/
def copyDown (code : List Byte) (address : Addr) : Asm σ Unit :=
  match code with
  | [] => ldxImm 0xff#8
  | v :: code => do
    copyDown code (address + 1#16)
    ldaImm v
    sta (.abs address)
    ldxImm 0xff#8

/-! ## Weakest preconditions -/

section Wp

omit [Bus σ]

/-- The code comes to its end, with a result and in a state that satisfy `Q`. -/
def wp (p : Asm σ α) (Q : α → Cpu σ → Prop) (s : Cpu σ) : Prop := ∃ r, p s = some r ∧ Q r.1 r.2

variable {p : Asm σ α} {Q R : α → Cpu σ → Prop} {s : Cpu σ}

theorem wp_mono (h : wp p Q s) (hQR : ∀ v t, Q v t → R v t) : wp p R s := by
  obtain ⟨r, hr, hQ⟩ := h
  exact ⟨r, hr, hQR _ _ hQ⟩

theorem wp_and (hQ : wp p Q s) (hR : wp p R s) : wp p (fun v t => Q v t ∧ R v t) s := by
  obtain ⟨r, hr, hq⟩ := hQ
  obtain ⟨r', hr', hr''⟩ := hR
  obtain rfl : r = r' := Option.some.inj (hr.symm.trans hr')
  exact ⟨r, hr, hq, hr''⟩

@[simp] theorem wp_pure {v : α} : wp (pure v : Asm σ α) Q s ↔ Q v s :=
  ⟨fun ⟨_, hr, hQ⟩ => by cases hr; exact hQ, fun h => ⟨_, rfl, h⟩⟩

@[simp] theorem wp_bind {f : α → Asm σ β} {Q : β → Cpu σ → Prop} :
    wp (p >>= f) Q s ↔ wp p (fun v t => wp (f v) Q t) s := by
  constructor
  · rintro ⟨r, hr, hQ⟩
    simp only [bind] at hr
    cases hp : p s with
    | none => simp [hp] at hr
    | some vt =>
      rw [hp] at hr
      exact ⟨vt, hp, r, hr, hQ⟩
  · rintro ⟨vt, hp, r, hr, hQ⟩
    refine ⟨r, ?_, hQ⟩
    simp only [bind, hp]
    exact hr

@[simp] theorem wp_map {f : α → β} {Q : β → Cpu σ → Prop} :
    wp (f <$> p) Q s ↔ wp p (fun v t => Q (f v) t) s := by
  change wp (p >>= fun v => pure (f v)) Q s ↔ _
  simp only [wp_bind, wp_pure]

@[simp] theorem wp_jsr : wp (jsr p) Q s ↔ wp p Q s := Iff.rfl

@[simp] theorem wp_observe {f : Cpu σ → α} : wp (observe f) Q s ↔ Q (f s) s :=
  ⟨fun ⟨_, hr, hQ⟩ => by cases hr; exact hQ, fun h => ⟨_, rfl, h⟩⟩

@[simp] theorem wp_elsewhere {f : Cpu σ → Cpu σ} {Q : Unit → Cpu σ → Prop} :
    wp (elsewhere f) Q s ↔ Q () (f s) :=
  ⟨fun ⟨_, hr, hQ⟩ => by cases hr; exact hQ, fun h => ⟨_, rfl, h⟩⟩

@[simp] theorem wp_ite {c : Prop} [Decidable c] {p q : Asm σ α} :
    wp (if c then p else q) Q s ↔ if c then wp p Q s else wp q Q s := by
  split <;> rfl

variable {a x y : Byte} {z n : Bool} {st : List Byte} {b : σ} {v : Byte} {c : Unit → Cpu σ → Prop}

@[simp] theorem wp_ldaImm : wp (ldaImm v) c ⟨a, x, y, z, n, st, b⟩ ↔
    c () ⟨v, x, y, v == 0, v.msb, st, b⟩ :=
  ⟨fun ⟨_, hr, hQ⟩ => by cases hr; exact hQ, fun h => ⟨_, rfl, h⟩⟩

@[simp] theorem wp_ldxImm : wp (ldxImm v) c ⟨a, x, y, z, n, st, b⟩ ↔
    c () ⟨a, v, y, v == 0, v.msb, st, b⟩ :=
  ⟨fun ⟨_, hr, hQ⟩ => by cases hr; exact hQ, fun h => ⟨_, rfl, h⟩⟩

@[simp] theorem wp_ldyImm : wp (ldyImm v) c ⟨a, x, y, z, n, st, b⟩ ↔
    c () ⟨a, x, v, v == 0, v.msb, st, b⟩ :=
  ⟨fun ⟨_, hr, hQ⟩ => by cases hr; exact hQ, fun h => ⟨_, rfl, h⟩⟩

@[simp] theorem wp_andImm : wp (andImm v) c ⟨a, x, y, z, n, st, b⟩ ↔
    c () ⟨a &&& v, x, y, a &&& v == 0, (a &&& v).msb, st, b⟩ :=
  ⟨fun ⟨_, hr, hQ⟩ => by cases hr; exact hQ, fun h => ⟨_, rfl, h⟩⟩

@[simp] theorem wp_oraImm : wp (oraImm v) c ⟨a, x, y, z, n, st, b⟩ ↔
    c () ⟨a ||| v, x, y, a ||| v == 0, (a ||| v).msb, st, b⟩ :=
  ⟨fun ⟨_, hr, hQ⟩ => by cases hr; exact hQ, fun h => ⟨_, rfl, h⟩⟩

@[simp] theorem wp_eorImm : wp (eorImm v) c ⟨a, x, y, z, n, st, b⟩ ↔
    c () ⟨a ^^^ v, x, y, a ^^^ v == 0, (a ^^^ v).msb, st, b⟩ :=
  ⟨fun ⟨_, hr, hQ⟩ => by cases hr; exact hQ, fun h => ⟨_, rfl, h⟩⟩

@[simp] theorem wp_cmpImm : wp (cmpImm v) c ⟨a, x, y, z, n, st, b⟩ ↔
    c () ⟨a, x, y, a == v, (a - v).msb, st, b⟩ :=
  ⟨fun ⟨_, hr, hQ⟩ => by cases hr; exact hQ, fun h => ⟨_, rfl, h⟩⟩

@[simp] theorem wp_cpyImm : wp (cpyImm v) c ⟨a, x, y, z, n, st, b⟩ ↔
    c () ⟨a, x, y, y == v, (y - v).msb, st, b⟩ :=
  ⟨fun ⟨_, hr, hQ⟩ => by cases hr; exact hQ, fun h => ⟨_, rfl, h⟩⟩

@[simp] theorem wp_tax : wp tax c ⟨a, x, y, z, n, st, b⟩ ↔ c () ⟨a, a, y, a == 0, a.msb, st, b⟩ :=
  ⟨fun ⟨_, hr, hQ⟩ => by cases hr; exact hQ, fun h => ⟨_, rfl, h⟩⟩

@[simp] theorem wp_tay : wp tay c ⟨a, x, y, z, n, st, b⟩ ↔ c () ⟨a, x, a, a == 0, a.msb, st, b⟩ :=
  ⟨fun ⟨_, hr, hQ⟩ => by cases hr; exact hQ, fun h => ⟨_, rfl, h⟩⟩

@[simp] theorem wp_txa : wp txa c ⟨a, x, y, z, n, st, b⟩ ↔ c () ⟨x, x, y, x == 0, x.msb, st, b⟩ :=
  ⟨fun ⟨_, hr, hQ⟩ => by cases hr; exact hQ, fun h => ⟨_, rfl, h⟩⟩

@[simp] theorem wp_txs : wp txs c ⟨a, 0xff#8, y, z, n, st, b⟩ ↔
    c () ⟨a, 0xff#8, y, z, n, [], b⟩ :=
  ⟨fun ⟨_, hr, hQ⟩ => by cases hr; exact hQ, fun h => ⟨_, rfl, h⟩⟩

@[simp] theorem wp_pha : wp pha c ⟨a, x, y, z, n, st, b⟩ ↔ c () ⟨a, x, y, z, n, a :: st, b⟩ :=
  ⟨fun ⟨_, hr, hQ⟩ => by cases hr; exact hQ, fun h => ⟨_, rfl, h⟩⟩

@[simp] theorem wp_pla : wp pla c ⟨a, x, y, z, n, v :: st, b⟩ ↔
    c () ⟨v, x, y, v == 0, v.msb, st, b⟩ :=
  ⟨fun ⟨_, hr, hQ⟩ => by cases hr; exact hQ, fun h => ⟨_, rfl, h⟩⟩

@[simp] theorem wp_rti {f l h : Byte} {c : Addr → Cpu σ → Prop} :
    wp rti c ⟨a, x, y, z, n, f :: l :: h :: st, b⟩ ↔ c (word h l) ⟨a, x, y, z, n, st, b⟩ :=
  ⟨fun ⟨_, hr, hQ⟩ => by cases hr; exact hQ, fun h => ⟨_, rfl, h⟩⟩

@[simp] theorem wp_rts {l h : Byte} {c : Addr → Cpu σ → Prop} :
    wp rts c ⟨a, x, y, z, n, l :: h :: st, b⟩ ↔ c (word h l + 1#16) ⟨a, x, y, z, n, st, b⟩ :=
  ⟨fun ⟨_, hr, hQ⟩ => by cases hr; exact hQ, fun h => ⟨_, rfl, h⟩⟩

@[simp] theorem wp_ifNe {p q : Asm σ α} : wp (ifNe p q) Q ⟨a, x, y, z, n, st, b⟩ ↔
    if z = false then wp p Q ⟨a, x, y, z, n, st, b⟩ else wp q Q ⟨a, x, y, z, n, st, b⟩ := by
  cases z <;> rfl

@[simp] theorem wp_ifMi {p q : Asm σ α} : wp (ifMi p q) Q ⟨a, x, y, z, n, st, b⟩ ↔
    if n = true then wp p Q ⟨a, x, y, z, n, st, b⟩ else wp q Q ⟨a, x, y, z, n, st, b⟩ := by
  cases n <;> rfl

end Wp

section WpBus

variable {a x y : Byte} {z n : Bool} {st : List Byte} {b : σ} {m : Mode} {v : Byte}
  {c : Unit → Cpu σ → Prop}

@[simp] theorem wp_lda : wp (lda m) c ⟨a, x, y, z, n, st, b⟩ ↔
    c () ⟨(m.fetch ⟨a, x, y, z, n, st, b⟩).1, x, y, (m.fetch ⟨a, x, y, z, n, st, b⟩).1 == 0,
      (m.fetch ⟨a, x, y, z, n, st, b⟩).1.msb, st, (m.fetch ⟨a, x, y, z, n, st, b⟩).2⟩ :=
  ⟨fun ⟨_, hr, hQ⟩ => by cases hr; exact hQ, fun h => ⟨_, rfl, h⟩⟩

@[simp] theorem wp_ldx : wp (ldx m) c ⟨a, x, y, z, n, st, b⟩ ↔
    c () ⟨a, (m.fetch ⟨a, x, y, z, n, st, b⟩).1, y, (m.fetch ⟨a, x, y, z, n, st, b⟩).1 == 0,
      (m.fetch ⟨a, x, y, z, n, st, b⟩).1.msb, st, (m.fetch ⟨a, x, y, z, n, st, b⟩).2⟩ :=
  ⟨fun ⟨_, hr, hQ⟩ => by cases hr; exact hQ, fun h => ⟨_, rfl, h⟩⟩

@[simp] theorem wp_ldy : wp (ldy m) c ⟨a, x, y, z, n, st, b⟩ ↔
    c () ⟨a, x, (m.fetch ⟨a, x, y, z, n, st, b⟩).1, (m.fetch ⟨a, x, y, z, n, st, b⟩).1 == 0,
      (m.fetch ⟨a, x, y, z, n, st, b⟩).1.msb, st, (m.fetch ⟨a, x, y, z, n, st, b⟩).2⟩ :=
  ⟨fun ⟨_, hr, hQ⟩ => by cases hr; exact hQ, fun h => ⟨_, rfl, h⟩⟩

@[simp] theorem wp_cmp : wp (cmp m) c ⟨a, x, y, z, n, st, b⟩ ↔
    c () ⟨a, x, y, a == (m.fetch ⟨a, x, y, z, n, st, b⟩).1,
      (a - (m.fetch ⟨a, x, y, z, n, st, b⟩).1).msb, st, (m.fetch ⟨a, x, y, z, n, st, b⟩).2⟩ :=
  ⟨fun ⟨_, hr, hQ⟩ => by cases hr; exact hQ, fun h => ⟨_, rfl, h⟩⟩

@[simp] theorem wp_bit : wp (bit m) c ⟨a, x, y, z, n, st, b⟩ ↔
    c () ⟨a, x, y, a &&& (m.fetch ⟨a, x, y, z, n, st, b⟩).1 == 0,
      (m.fetch ⟨a, x, y, z, n, st, b⟩).1.msb, st, (m.fetch ⟨a, x, y, z, n, st, b⟩).2⟩ :=
  ⟨fun ⟨_, hr, hQ⟩ => by cases hr; exact hQ, fun h => ⟨_, rfl, h⟩⟩

theorem wp_store {s : Cpu σ} : wp (m.store v) c s ↔
    ∃ b', Bus.write (m.locate s).1 v (m.locate s).2 = some b' ∧ c () { s with bus := b' } := by
  rw [wp, Mode.store]
  cases Bus.write (m.locate s).1 v (m.locate s).2 with
  | none => simp
  | some b' => simp

@[simp] theorem wp_sta : wp (sta m) c ⟨a, x, y, z, n, st, b⟩ ↔
    ∃ b', Bus.write (m.locate ⟨a, x, y, z, n, st, b⟩).1 a
      (m.locate ⟨a, x, y, z, n, st, b⟩).2 = some b' ∧ c () ⟨a, x, y, z, n, st, b'⟩ :=
  wp_store

@[simp] theorem wp_stx : wp (stx m) c ⟨a, x, y, z, n, st, b⟩ ↔
    ∃ b', Bus.write (m.locate ⟨a, x, y, z, n, st, b⟩).1 x
      (m.locate ⟨a, x, y, z, n, st, b⟩).2 = some b' ∧ c () ⟨a, x, y, z, n, st, b'⟩ :=
  wp_store

/-- The increment of a byte at an address that needs no bus to be found. -/
theorem wp_inc {s : Cpu σ} : wp (inc m) c s ↔
    wp (m.store ((m.fetch s).1 + 1#8)) c { s with
      z := (m.fetch s).1 + 1#8 == 0, n := ((m.fetch s).1 + 1#8).msb, bus := (m.fetch s).2 } :=
  Iff.rfl

theorem wp_dec {s : Cpu σ} : wp (dec m) c s ↔
    wp (m.store ((m.fetch s).1 - 1#8)) c { s with
      z := (m.fetch s).1 - 1#8 == 0, n := ((m.fetch s).1 - 1#8).msb, bus := (m.fetch s).2 } :=
  Iff.rfl

end WpBus

end Mos6502
