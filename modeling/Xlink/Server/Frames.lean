import Xlink.Server.Rules

/-!
# What the parts of a handler leave alone

A handler is a header, some writes to `$d011`, a turn of port B, a transfer loop and a change of the
program end. For each of these: what the work cells, the configuration, the direction of port B and
the RAM are afterwards.
-/

namespace Xlink.Server

open Word Mos6502 Port

variable {T : Target}

/-! ## Headers -/

section Headers

variable (M : Machine T) (memory bank : Byte) (address start stop : Addr) (k : Pc)

@[simp] theorem pc_addressed : (M.addressed memory bank address k).pc = k := rfl

@[simp] theorem config_addressed :
    (M.addressed memory bank address k).config = M.config := by
  simp only [Machine.addressed, config_taken]

@[simp] theorem dd03_addressed : (M.addressed memory bank address k).dd03 = M.dd03 := by
  simp only [Machine.addressed, dd03_taken]

@[simp] theorem ram_addressed : (M.addressed memory bank address k).ram = M.ram := by
  simp only [Machine.addressed, ram_taken]

@[simp] theorem pc_headed : (M.headed memory bank start stop k).pc = k := rfl

@[simp] theorem config_headed : (M.headed memory bank start stop k).config = M.config := by
  rw [Machine.headed, config_taken, config_taken, config_addressed]

@[simp] theorem dd03_headed : (M.headed memory bank start stop k).dd03 = M.dd03 := by
  rw [Machine.headed, dd03_taken, dd03_taken, dd03_addressed]

@[simp] theorem ram_headed : (M.headed memory bank start stop k).ram = M.ram := by
  rw [Machine.headed, ram_taken, ram_taken, ram_addressed]

/-- The cells of an address hold what has been read. -/
theorem addressed_cells : (M.addressed memory bank address k).zp T.mem = memory ∧
    (M.addressed memory bank address k).zp T.bank = bank ∧
    (M.addressed memory bank address k).word T.start = address := by
  have hne := T.nodup
  simp only [List.nodup_cons, List.mem_cons, List.not_mem_nil, or_false, not_or] at hne
  obtain ⟨⟨h₀₁, -, -, h₀₄, h₀₅⟩, ⟨-, -, h₁₄, h₁₅⟩, -, -, h₄₅, -⟩ := hne
  refine ⟨?_, ?_, ?_⟩
  · simp [Machine.addressed, Ne.symm h₁₄, Ne.symm h₀₄, h₄₅]
  · simp [Machine.addressed, Ne.symm h₁₅, Ne.symm h₀₅]
  · simp [Machine.addressed, Machine.word, h₀₁, word_hi_lo]

/-- The cells of a header hold what has been read. -/
theorem header_headed : (M.headed memory bank start stop k).header = ⟨memory, bank, start, stop⟩ := by
  have hne := T.nodup
  simp only [List.nodup_cons, List.mem_cons, List.not_mem_nil, or_false, not_or] at hne
  obtain ⟨⟨h₀₁, h₀₂, h₀₃, h₀₄, h₀₅⟩, ⟨h₁₂, h₁₃, h₁₄, h₁₅⟩, ⟨h₂₃, h₂₄, h₂₅⟩, ⟨h₃₄, h₃₅⟩, -⟩ := hne
  obtain ⟨hmem, hbank, hstart⟩ := addressed_cells M memory bank start (.sending [lo stop, hi stop] k)
  simp only [Machine.header, Machine.headed, Machine.word, zp_taken, Header.mk.injEq] at hstart ⊢
  refine ⟨?_, ?_, ?_, ?_⟩
  · simp [Ne.symm h₃₄, Ne.symm h₂₄, hmem]
  · simp [Ne.symm h₃₅, Ne.symm h₂₅, hbank]
  · simp [h₀₂, h₀₃, h₁₂, h₁₃, hstart]
  · simp [h₂₃, word_hi_lo]

/-- Other cells keep what they have. -/
theorem zp_headed {c : Byte} (hc : c ∉ T.work) :
    (M.headed memory bank start stop k).zp c = M.zp c := by
  simp only [Target.work, List.mem_cons, List.not_mem_nil, or_false, not_or] at hc
  obtain ⟨h₀, h₁, h₂, h₃, h₄, h₅⟩ := hc
  simp [Machine.headed, Machine.addressed, h₀, h₁, h₂, h₃, h₄, h₅]

end Headers

/-! ## Screen and port -/

section Screen

variable (M : Machine T) (v : Byte) (k : Pc)

@[simp] theorem pc_screen : (M.screen v).pc = M.pc := by
  unfold Machine.screen
  split <;> rfl

@[simp] theorem config_screen : (M.screen v).config = M.config := by
  unfold Machine.screen
  split <;> rfl

@[simp] theorem dd03_screen : (M.screen v).dd03 = M.dd03 := by
  unfold Machine.screen
  split <;> rfl

@[simp] theorem zp_screen : (M.screen v).zp = M.zp := by
  unfold Machine.screen
  split <;> rfl

@[simp] theorem ram_screen : (M.screen v).ram = M.ram := by
  unfold Machine.screen
  split <;> rfl

@[simp] theorem word_screen (c : Byte) : (M.screen v).word c = M.word c := by
  rw [Machine.word, zp_screen]
  rfl

@[simp] theorem pc_turned : (M.turned k).pc = k := rfl

@[simp] theorem config_turned : (M.turned k).config = M.config := rfl

@[simp] theorem dd03_turned : (M.turned k).dd03 = 0xff#8 := rfl

@[simp] theorem zp_turned : (M.turned k).zp = M.zp := rfl

@[simp] theorem ram_turned : (M.turned k).ram = M.ram := rfl

@[simp] theorem word_turned (c : Byte) : (M.turned k).word c = M.word c := rfl

@[simp] theorem pc_released : M.released.pc = M.pc := rfl

@[simp] theorem config_released : M.released.config = M.config := rfl

@[simp] theorem dd03_released : M.released.dd03 = 0x00#8 := rfl

@[simp] theorem ram_released : M.released.ram = M.ram := rfl

end Screen

section SetZp

variable {M : Machine T} {c v : Byte}

@[simp] theorem pc_setZp : (M.setZp c v).pc = M.pc := rfl

@[simp] theorem config_setZp : (M.setZp c v).config = M.config := rfl

@[simp] theorem dd03_setZp : (M.setZp c v).dd03 = M.dd03 := rfl

@[simp] theorem ram_setZp : (M.setZp c v).ram = M.ram := rfl

@[simp] theorem log_setZp : (M.setZp c v).log = M.log := rfl

end SetZp

/-! ## The end of the program text -/

section Relinked

variable (M : Machine T) (basic : Byte)

@[simp] theorem pc_relinked : (M.relinked basic).pc = M.pc := by
  unfold Machine.relinked
  split <;> simp

@[simp] theorem dd03_relinked : (M.relinked basic).dd03 = M.dd03 := by
  unfold Machine.relinked
  split <;> simp

@[simp] theorem config_relinked : (M.relinked basic).config = M.config := by
  obtain ⟨hbend, hbend₁⟩ := T.bend_clear M.config
  unfold Machine.relinked
  split
  · have hconfig : (M.put T.bend (M.zp T.stop)).config = M.config := Machine.config_put _ hbend
    rw [Machine.config_put _ (by rw [hconfig]; exact hbend₁), hconfig]
  · rfl

end Relinked

/-! ## Copied code -/

/-- Code has been copied to an address. -/
def Machine.copied (M : Machine T) : List Byte → Addr → Machine T
  | [], _ => M
  | v :: code, address => (M.copied code (address + 1#16)).setRam 0x00#8 address v

section Copied

variable {M : Machine T} {code : List Byte} {address : Addr}

@[simp] theorem pc_copied : (M.copied code address).pc = M.pc := by
  induction code generalizing address with
  | nil => rfl
  | cons v code ih => exact ih

@[simp] theorem config_copied : (M.copied code address).config = M.config := by
  induction code generalizing address with
  | nil => rfl
  | cons v code ih => exact ih

@[simp] theorem dd03_copied : (M.copied code address).dd03 = M.dd03 := by
  induction code generalizing address with
  | nil => rfl
  | cons v code ih => exact ih

@[simp] theorem zp_copied : (M.copied code address).zp = M.zp := by
  induction code generalizing address with
  | nil => rfl
  | cons v code ih => exact ih

@[simp] theorem log_copied : (M.copied code address).log = M.log := by
  induction code generalizing address with
  | nil => rfl
  | cons v code ih => exact ih

@[simp] theorem word_copied (c : Byte) : (M.copied code address).word c = M.word c := by
  rw [Machine.word, zp_copied]
  rfl

/-- Away from where the code is copied to the RAM is what it was. -/
theorem ram_copied {b : Byte} {a : Addr}
    (ha : ∀ i < code.length, ¬(b = 0x00#8 ∧ a = address + BitVec.ofNat 16 i)) :
    (M.copied code address).ram b a = M.ram b a := by
  induction code generalizing address with
  | nil => rfl
  | cons v code ih =>
    have hfirst := ha 0 (by simp)
    rw [BitVec.add_zero] at hfirst
    have hrest : (M.copied code (address + 1#16)).ram b a = M.ram b a := ih fun i hi => by
      rw [← add_ofNat_succ]
      exact ha (i + 1) (by simpa using hi)
    rw [← hrest, Machine.copied, Machine.setRam]
    by_cases hb : b = 0x00#8
    · subst hb
      simp only [Function.update_self]
      exact Function.update_of_ne (fun h => hfirst ⟨rfl, h⟩) ..
    · simp only [Function.update_of_ne hb]

theorem wp_copyDown {Q : Unit → Cpu (Machine T) → Prop} {a x y : Byte} {z n : Bool}
    {st : List Byte} (hram : ∀ i < code.length,
      T.writes M.config (address + BitVec.ofNat 16 i) = .ram 0x00#8 (address + BitVec.ofNat 16 i))
    (h : ∀ a z n, Q () ⟨a, 0xff#8, y, z, n, st, M.copied code address⟩) :
    wp (copyDown code address) Q ⟨a, x, y, z, n, st, M⟩ := by
  induction code generalizing address Q a x z n with
  | nil =>
    rw [copyDown, wp_ldxImm]
    exact h _ _ _
  | cons v code ih =>
    have hfirst := hram 0 (by simp)
    rw [BitVec.add_zero] at hfirst
    simp only [copyDown, wp_bind]
    refine ih (fun i hi => ?_) fun a z n => ?_
    · rw [← add_ofNat_succ]
      exact hram (i + 1) (by simpa using hi)
    · have hwrite : Bus.write address v (M.copied code (address + 1#16)) =
          some ((M.copied code (address + 1#16)).setRam 0x00#8 address v) := by
        change Machine.write _ _ _ = _
        rw [Machine.write, config_copied, hfirst, Machine.put, config_copied, hfirst]
      simp only [wp_ldaImm, wp_sta, locate_abs, hwrite, Option.some.injEq, exists_eq_left',
        wp_ldxImm]
      exact h _ _ _

end Copied

/-! ## Transfers begun -/

namespace Machine

variable (M : Machine T) (memory bank : Byte) (address : Addr)

/-- The header of a load has been read, the screen is off. -/
def loadBegun (payload : List Byte) (k : Pc) : Machine T :=
  (M.headed memory bank address (address + BitVec.ofNat 16 payload.length)
    (.sending payload k)).screen 0x0b#8

/-- The header of a save has been read, the screen is off, port B is turned. -/
def saveBegun (size : Nat) (k : List Byte → Pc) : Machine T :=
  ((M.headed memory bank address (address + BitVec.ofNat 16 size)
    (.strobe none (.receiving size k))).screen 0x0b#8).turned (.receiving size k)

/-- Memory, bank and address of a peek have been read, port B is turned. -/
def peekBegun (k : Pc) : Machine T :=
  (M.addressed memory bank address (.strobe none k)).turned k

/-- Memory, bank, address and the byte of a poke have been read. -/
def pokeBegun (value : Byte) (k : Pc) : Machine T :=
  (M.addressed memory bank address (.sending [value] k)).received value k

end Machine

section Begun

variable (M : Machine T) (memory bank : Byte) (address : Addr) (payload : List Byte) (k : Pc)
  (size : Nat) (kb : List Byte → Pc) (value : Byte)

theorem header_screen (v : Byte) : (M.screen v).header = M.header := by
  simp only [Machine.header, zp_screen, word_screen]

theorem header_turned : (M.turned k).header = M.header := rfl

theorem header_loadBegun : (M.loadBegun memory bank address payload k).header =
    ⟨memory, bank, address, address + BitVec.ofNat 16 payload.length⟩ := by
  rw [Machine.loadBegun, header_screen, header_headed]

theorem header_saveBegun : (M.saveBegun memory bank address size kb).header =
    ⟨memory, bank, address, address + BitVec.ofNat 16 size⟩ := by
  rw [Machine.saveBegun, header_turned, header_screen, header_headed]

@[simp] theorem pc_loadBegun :
    (M.loadBegun memory bank address payload k).pc = .sending payload k := by
  rw [Machine.loadBegun, pc_screen, pc_headed]

@[simp] theorem config_loadBegun :
    (M.loadBegun memory bank address payload k).config = M.config := by
  rw [Machine.loadBegun, config_screen, config_headed]

@[simp] theorem dd03_loadBegun : (M.loadBegun memory bank address payload k).dd03 = M.dd03 := by
  rw [Machine.loadBegun, dd03_screen, dd03_headed]

@[simp] theorem ram_loadBegun : (M.loadBegun memory bank address payload k).ram = M.ram := by
  rw [Machine.loadBegun, ram_screen, ram_headed]

theorem zp_loadBegun {c : Byte} (hc : c ∉ T.work) :
    (M.loadBegun memory bank address payload k).zp c = M.zp c := by
  rw [Machine.loadBegun, zp_screen, zp_headed _ _ _ _ _ _ hc]

@[simp] theorem pc_saveBegun :
    (M.saveBegun memory bank address size kb).pc = .receiving size kb := by
  rw [Machine.saveBegun, pc_turned]

@[simp] theorem config_saveBegun :
    (M.saveBegun memory bank address size kb).config = M.config := by
  rw [Machine.saveBegun, config_turned, config_screen, config_headed]

@[simp] theorem dd03_saveBegun : (M.saveBegun memory bank address size kb).dd03 = 0xff#8 := by
  rw [Machine.saveBegun, dd03_turned]

@[simp] theorem ram_saveBegun : (M.saveBegun memory bank address size kb).ram = M.ram := by
  rw [Machine.saveBegun, ram_turned, ram_screen, ram_headed]

theorem peekBegun_cells : (M.peekBegun memory bank address k).zp T.mem = memory ∧
    (M.peekBegun memory bank address k).zp T.bank = bank ∧
    (M.peekBegun memory bank address k).word T.start = address := by
  rw [Machine.peekBegun, zp_turned, word_turned]
  exact addressed_cells M memory bank address (.strobe none k)

@[simp] theorem pc_peekBegun : (M.peekBegun memory bank address k).pc = k := by
  rw [Machine.peekBegun, pc_turned]

@[simp] theorem config_peekBegun :
    (M.peekBegun memory bank address k).config = M.config := by
  rw [Machine.peekBegun, config_turned, config_addressed]

@[simp] theorem dd03_peekBegun : (M.peekBegun memory bank address k).dd03 = 0xff#8 := by
  rw [Machine.peekBegun, dd03_turned]

@[simp] theorem ram_peekBegun : (M.peekBegun memory bank address k).ram = M.ram := by
  rw [Machine.peekBegun, ram_turned, ram_addressed]

@[simp] theorem pc_received (b : Byte) : (M.received b k).pc = k := rfl

@[simp] theorem config_received (b : Byte) : (M.received b k).config = M.config := rfl

@[simp] theorem dd03_received (b : Byte) : (M.received b k).dd03 = M.dd03 := rfl

@[simp] theorem zp_received (b : Byte) : (M.received b k).zp = M.zp := rfl

@[simp] theorem ram_received (b : Byte) : (M.received b k).ram = M.ram := rfl

@[simp] theorem word_received (b c : Byte) : (M.received b k).word c = M.word c := rfl

theorem pokeBegun_cells : (M.pokeBegun memory bank address value k).zp T.mem = memory ∧
    (M.pokeBegun memory bank address value k).zp T.bank = bank ∧
    (M.pokeBegun memory bank address value k).word T.start = address := by
  rw [Machine.pokeBegun, zp_received, word_received]
  exact addressed_cells M memory bank address (.sending [value] k)

@[simp] theorem pc_pokeBegun : (M.pokeBegun memory bank address value k).pc = k := by
  rw [Machine.pokeBegun, pc_received]

@[simp] theorem config_pokeBegun :
    (M.pokeBegun memory bank address value k).config = M.config := by
  rw [Machine.pokeBegun, config_received, config_addressed]

@[simp] theorem dd03_pokeBegun : (M.pokeBegun memory bank address value k).dd03 = M.dd03 := by
  rw [Machine.pokeBegun, dd03_received, dd03_addressed]

@[simp] theorem ram_pokeBegun : (M.pokeBegun memory bank address value k).ram = M.ram := by
  rw [Machine.pokeBegun, ram_received, ram_addressed]

end Begun

/-! ## Single bytes -/

theorem header_put {M : Machine T} {address : Addr} (hclear : T.Clear M.config address)
    (value : Byte) : (M.put address value).header = M.header := by
  obtain ⟨h₀, h₁, h₂, h₃, h₄, h₅⟩ := mem_work (T := T)
  simp only [Machine.header, Machine.word, Machine.zp_put value hclear h₀,
    Machine.zp_put value hclear h₁, Machine.zp_put value hclear h₂, Machine.zp_put value hclear h₃,
    Machine.zp_put value hclear h₄, Machine.zp_put value hclear h₅]

namespace Machine

variable (M : Machine T) (config back : Byte) (address : Addr)

/-- The byte at an address under the configuration `config`, which is `back` afterwards. -/
def look : Byte × Machine T :=
  let r := Machine.read ({ M with config := config } : Machine T) address
  (r.1, { r.2 with config := back })

/-- A peek is done, this is the byte sent. -/
def peeked (f : Byte → Pc) : Byte × Machine T :=
  ((M.look config back address).1, ((M.look config back address).2.sent
    (M.look config back address).1 (f (M.look config back address).1)).released)

/-- A poke is done. -/
def poked (value : Byte) : Machine T :=
  { ({ M with config := config } : Machine T).put address value with config := back }

end Machine

section Single

variable {M : Machine T} {config back : Byte} {address : Addr} {f : Byte → Pc}

theorem given_eq_look (M : Machine T) : M.given config back f =
    ((M.look config back (M.word T.start)).1, ((M.look config back (M.word T.start)).2.sent
      (M.look config back (M.word T.start)).1
      (f (M.look config back (M.word T.start)).1)).setWord T.start (M.word T.start + 1#16)) := rfl

@[simp] theorem config_look : (M.look config back address).2.config = back := rfl

theorem look_frame (hpc : M.pc.Takes f) : (M.look config back address).2 =
    { M with config := back, log := (M.look config back address).2.log } := by
  have hread := Machine.read_frame ({ M with config := config } : Machine T) address hpc.ne_strobe
  unfold Machine.look
  dsimp only
  rw [hread]

theorem pc_look (hpc : M.pc.Takes f) : (M.look config back address).2.pc = M.pc := by
  rw [look_frame hpc]

theorem dd03_look (hpc : M.pc.Takes f) : (M.look config back address).2.dd03 = M.dd03 := by
  rw [look_frame hpc]

theorem zp_look (hpc : M.pc.Takes f) : (M.look config back address).2.zp = M.zp := by
  rw [look_frame hpc]

theorem ram_look (hpc : M.pc.Takes f) : (M.look config back address).2.ram = M.ram := by
  rw [look_frame hpc]

/-- A look under the configuration as it is. -/
theorem look_same (hpc : M.pc.Takes f) : M.look M.config M.config address = M.read address := by
  have hread := Machine.read_frame M address hpc.ne_strobe
  refine Prod.ext rfl ?_
  change { (M.read address).2 with config := M.config } = (M.read address).2
  rw [hread]

@[simp] theorem config_peeked : (M.peeked config back address f).2.config = back := rfl

@[simp] theorem dd03_peeked : (M.peeked config back address f).2.dd03 = 0x00#8 := rfl

@[simp] theorem pc_peeked : (M.peeked config back address f).2.pc =
    f (M.peeked config back address f).1 := rfl

variable {value : Byte}

@[simp] theorem config_poked : (M.poked config back address value).config = back := rfl

@[simp] theorem pc_poked : (M.poked config back address value).pc = M.pc :=
  Machine.pc_put ({ M with config := config } : Machine T) ..

@[simp] theorem dd03_poked : (M.poked config back address value).dd03 = M.dd03 :=
  Machine.dd03_put ({ M with config := config } : Machine T) ..

/-- A poke under the configuration as it is. -/
theorem poked_same (hclear : T.Clear M.config address) :
    M.poked M.config M.config address value = M.put address value := by
  have hconfig := Machine.config_put value hclear
  change { M.put address value with config := M.config } = M.put address value
  rw [← hconfig]

end Single

end Xlink.Server
