import Xlink.Server.Transfers

/-!
# A poke and the load of one byte

The two handlers choose the configuration for their write independently: `Listing.loadConfig` and
`Listing.pokeConfig`. On the C128 they are the same, on the C64 the two disagree about some writes
to the I/O area.

`poke_agrees_with_load` runs both requests from the same machine and says what each writes, so that
the condition is exact about the place. It is exact about all memory and registers as well, but at
`$d011`, where the load writes on its own account. The address is clear of the server's cells and
the cable under both configurations. `STASH` is a parameter that does what it is documented to do.
-/

namespace Xlink.Server

open Word Mos6502 Port

/-! ## The I/O area of the C64 -/

/-- The processor port shows I/O in the I/O area. -/
def ShowsIo (config : Byte) : Prop := config &&& 0x03#8 ≠ 0x00#8 ∧ config &&& 0x04#8 = 0x04#8

instance (config : Byte) : Decidable (ShowsIo config) := inferInstanceAs (Decidable (_ ∧ _))

theorem c64Writes_ram {a : Addr} (habove : 0x0100 ≤ a.toNat) (ha : ¬IsIo a) (config : Byte) :
    c64Writes config a = .ram 0x00#8 a := by
  have hreads : c64Reads config a = .rom a ∨ c64Reads config a = .ram 0x00#8 a := by
    unfold IsIo at ha
    rw [c64Reads_above config habove]
    split
    · exact .inr rfl
    · split
      · split
        · exact .inl rfl
        · exact .inr rfl
      · split
        · exact .inr rfl
        · rw [if_neg (by omega)]
          split
          · exact .inl rfl
          · exact .inr rfl
  rw [c64Writes]
  rcases hreads with hreads | hreads
  · rw [hreads]
  · rw [hreads]

/-- Outside the I/O area the processor port does not matter to a write. -/
theorem c64Writes_eq {a : Addr} (ha : ¬IsIo a) (config config' : Byte) :
    c64Writes config a = c64Writes config' a := by
  by_cases habove : 0x0100 ≤ a.toNat
  · rw [c64Writes_ram habove ha, c64Writes_ram habove ha]
  · rw [c64Writes, c64Writes, c64Reads_below config config' (Nat.not_le.1 habove)]

theorem c64Writes_io {a : Addr} (ha : IsIo a) (config : Byte) :
    c64Writes config a = if ShowsIo config then .io a else .ram 0x00#8 a := by
  obtain ⟨hlow, hhigh⟩ := ha
  have hreads : c64Reads config a = if config &&& 0x03#8 = 0x00#8 then .ram 0x00#8 a
      else if config &&& 0x04#8 = 0x04#8 then .io a else .rom a := by
    rw [c64Reads_above config (by omega), if_neg (by omega), if_neg (by omega),
      if_neg (by omega), if_pos hhigh]
  rw [c64Writes, hreads]
  by_cases hlines : config &&& 0x03#8 = 0x00#8
  · have hshows : ¬ShowsIo config := fun h => h.1 hlines
    rw [if_pos hlines, if_neg hshows]
  · by_cases hcharen : config &&& 0x04#8 = 0x04#8
    · rw [if_neg hlines, if_pos hcharen, if_pos ⟨hlines, hcharen⟩]
    · have hshows : ¬ShowsIo config := fun h => hcharen h.2
      rw [if_neg hlines, if_neg hcharen, if_neg hshows]

/-- The configurations of an interrupt show I/O. -/
theorem showsIo_of_visible {rom : Addr → Byte} {chips : List Access → Addr → Byte} {config : Byte}
    (h : (c64 rom chips).Visible config) : ShowsIo config := by
  have hwrites : c64Writes config 0xd000#16 = .io 0xd000#16 := (h _ ⟨by decide, by decide⟩).2
  rw [c64Writes_io ⟨by decide, by decide⟩] at hwrites
  by_contra hshows
  rw [if_neg hshows] at hwrites
  exact Place.noConfusion hwrites

/-- Two configurations write to the same place unless one of them shows I/O and the other hides
it. -/
theorem c64Writes_eq_iff {a : Addr} {config config' : Byte} :
    c64Writes config a = c64Writes config' a ↔ (IsIo a → (ShowsIo config ↔ ShowsIo config')) := by
  by_cases ha : IsIo a
  · rw [c64Writes_io ha, c64Writes_io ha]
    by_cases h : ShowsIo config
    · by_cases h' : ShowsIo config'
      · simp [h, h']
      · simp [h, h', ha]
    · by_cases h' : ShowsIo config'
      · simp [h, h', ha]
      · simp [h, h']
  · exact ⟨fun _ h => absurd h ha, fun _ => c64Writes_eq ha ..⟩

/-! ## The same place -/

namespace Listing

variable (l : Listing)

/-- A poke and a load of one byte write to the same place. -/
def SamePlace (M : Machine l.target) (memory bank : Byte) (address : Addr) : Prop :=
  l.target.writes (l.loadConfig M memory bank) address =
    l.target.writes (l.pokeConfig M memory bank) address

/-- When a poke goes where a load goes: on the C64 the RAM server pokes to I/O under any
configuration that shows it but loads there under the default configuration only, and the KERNAL
server loads there without regard to bit 7 of the memory config. -/
def PokesAsLoads : Listing → Byte → Addr → Prop
  | .server64 .., memory, a => IsIo a → ShowsIo memory → memory &&& 0x7f#8 = 0x37#8
  | .kernal64 .., memory, a => IsIo a → memory &&& 0x7f#8 = 0x37#8 → memory = 0x37#8
  | _, _, _ => True

variable {l} {M N : Machine l.target} {memory bank : Byte} {address : Addr}

theorem showsIo_loading {entry memory : Byte} (h : ShowsIo entry) :
    ShowsIo (loading entry memory).1 ↔ memory &&& 0x7f#8 = 0x37#8 := by
  unfold loading
  split
  next hdefault => exact iff_of_true h hdefault
  next hother => exact iff_of_false (by decide) hother

theorem showsIo_poking {entry memory : Byte} (h : ShowsIo entry) :
    ShowsIo (poking entry memory).1 ↔ memory = 0x37#8 := by
  unfold poking
  split
  next hdefault => exact iff_of_true h hdefault
  next hother => exact iff_of_false (by decide) hother

/-- The default configuration shows I/O, whatever bit 7. -/
theorem showsIo_default {memory : Byte} (h : memory &&& 0x7f#8 = 0x37#8) : ShowsIo memory := by
  revert h
  revert memory
  unfold ShowsIo
  decide

theorem samePlace_iff (hvis : l.target.Visible M.config) :
    l.SamePlace M memory bank address ↔ l.PokesAsLoads memory address := by
  cases l with
  | server64 rom chips start stop back basic =>
    have hshows : ShowsIo M.config := showsIo_of_visible hvis
    apply c64Writes_eq_iff.trans
    change (IsIo address → (ShowsIo (loading M.config memory).1 ↔ ShowsIo memory)) ↔
      (IsIo address → ShowsIo memory → memory &&& 0x7f#8 = 0x37#8)
    rw [showsIo_loading hshows]
    constructor
    · intro h ha hmemory
      exact (h ha).mpr hmemory
    · intro h ha
      exact ⟨showsIo_default, h ha⟩
  | kernal64 rom chips start stop back basic =>
    have hshows : ShowsIo M.config := showsIo_of_visible hvis
    apply c64Writes_eq_iff.trans
    change (IsIo address → (ShowsIo (loading M.config memory).1 ↔
      ShowsIo (poking M.config memory).1)) ↔
        (IsIo address → memory &&& 0x7f#8 = 0x37#8 → memory = 0x37#8)
    rw [showsIo_loading hshows, showsIo_poking hshows]
    constructor
    · intro h ha
      exact (h ha).mp
    · intro h ha
      refine ⟨h ha, ?_⟩
      rintro rfl
      decide
  | server128 => exact iff_of_true rfl trivial
  | kernal128 => exact iff_of_true rfl trivial

/-! ## The two requests -/

/-- Where a request goes does not depend on what the PC does next. -/
theorem congr (hconfig : N.config = M.config) (hram : N.ram = M.ram) :
    l.loadConfig N memory bank = l.loadConfig M memory bank ∧
      l.pokeConfig N memory bank = l.pokeConfig M memory bank := by
  cases l with
  | server64 => exact ⟨congrArg (fun entry => (loading entry memory).1) hconfig, rfl⟩
  | kernal64 => exact ⟨congrArg (fun entry => (loading entry memory).1) hconfig,
      congrArg (fun entry => (poking entry memory).1) hconfig⟩
  | server128 => exact ⟨effective_congr hconfig hram, effective_congr hconfig hram⟩
  | kernal128 => exact ⟨effective_congr hconfig hram, effective_congr hconfig hram⟩

end Listing

/-- The machine with the PC about to do something else. -/
def Machine.asked {T : Target} (M : Machine T) (pc : Pc) : Machine T := { M with pc := pc }

section Asked

variable {l : Listing} {M : Machine l.target} {memory bank value : Byte} {address : Addr} {pc : Pc}

theorem like_asked {s : Scratch} : M.Like s (M.asked pc) := .of_eq rfl rfl rfl

theorem ready_asked (hM : Ready M) : Ready (M.asked pc) := ⟨hM.visible, hM.input⟩

/-- The load of one byte, from an interrupt. -/
theorem wp_load_byte {a x y : Byte} {z n : Bool} {st : List Byte} (hM : Ready M)
    (hpc : (Transfer.load memory bank address [value]).Asked pc)
    (hclear : l.Allows M (.load memory bank address [value])) :
    wp (irq l.handlers) (fun o t => (∃ r, o = .returned (some r)) ∧
      (M.puts (l.loadConfig M memory bank) address [value]).Like l.scratch t.bus)
      ⟨a, x, y, z, n, st, M.asked pc⟩ := by
  have hconfig : l.loadConfig (M.asked pc) memory bank = l.loadConfig M memory bank :=
    (Listing.congr (M := M) (N := M.asked pc) rfl rfl).1
  have hallows : l.Allows (M.asked pc) (.load memory bank address [value]) := by
    simp only [Listing.Allows, hconfig]
    exact hclear
  apply wp_mono (l.attends (ready_asked hM) hpc hallows)
  rintro o t ⟨hr, hdid, -⟩
  have hdone : (l.puts (M.asked pc) (.load memory bank address [value])).Like l.scratch t.bus :=
    ⟨hdid.zp, hdid.ram, hdid.io Transfer.noConfusion⟩
  refine ⟨hr, Machine.Like.trans ?_ hdone⟩
  rw [Listing.puts, hconfig]
  exact like_asked.puts address [value]

/-- The poke of a byte, from an interrupt. -/
theorem wp_poke_byte {a x y : Byte} {z n : Bool} {st : List Byte} (hM : Ready M)
    (hpc : (Transfer.poke memory bank address value).Asked pc)
    (hclear : l.Allows M (.poke memory bank address value)) :
    wp (irq l.handlers) (fun o t => (∃ r, o = .returned (some r)) ∧
      (M.puts (l.pokeConfig M memory bank) address [value]).Like l.scratch t.bus)
      ⟨a, x, y, z, n, st, M.asked pc⟩ := by
  have hconfig : l.pokeConfig (M.asked pc) memory bank = l.pokeConfig M memory bank :=
    (Listing.congr (M := M) (N := M.asked pc) rfl rfl).2
  have hallows : l.Allows (M.asked pc) (.poke memory bank address value) := by
    simp only [Listing.Allows, hconfig]
    exact hclear
  apply wp_mono (l.attends (ready_asked hM) hpc hallows)
  rintro o t ⟨hr, hdid, -⟩
  have hdone : (l.puts (M.asked pc) (.poke memory bank address value)).Like l.scratch t.bus :=
    ⟨hdid.zp, hdid.ram, hdid.io Transfer.noConfusion⟩
  refine ⟨hr, Machine.Like.trans ?_ hdone⟩
  rw [Listing.puts, hconfig]
  exact like_asked.puts address [value]

end Asked

/-! ## Agreement -/

section Agreement

variable {l : Listing} {M : Machine l.target} {memory bank value config config' : Byte}
  {address a : Addr}

theorem io_puts (h : l.target.writes config address = .io a)
    (heffect : Access.Effect (.write a value)) :
    (M.puts config address [value]).io = M.io ++ [.write a value] := by
  have hput : M.puts config address [value] =
      { M with config := config, log := M.log ++ [.write a value] } := by
    rw [Machine.puts, Machine.puts, Machine.put]
    simp only [h]
  rw [hput, Machine.io, List.filter_append]
  have hkept : List.filter (fun x => decide x.Effect) [Access.write a value] =
      [Access.write a value] := by
    simp only [List.filter_cons, heffect, decide_true, if_true, List.filter_nil]
  rw [hkept]
  rfl

theorem io_puts_memory (h : ∀ a, l.target.writes config address ≠ .io a) :
    (M.puts config address [value]).io = M.io := by
  rw [Machine.puts, Machine.puts, Machine.put]
  cases hplace : l.target.writes config address with
  | io a => exact absurd hplace (h a)
  | _ =>
    simp only
    rfl

/-- One write goes to a register and the other does not. -/
theorem not_like_puts (h : l.target.writes config address = .io a)
    (heffect : Access.Effect (.write a value)) (h' : ∀ a, l.target.writes config' address ≠ .io a) :
    ¬(M.puts config address [value]).Like l.scratch (M.puts config' address [value]) := by
  intro hlike
  have hio := hlike.io
  rw [io_puts h heffect, io_puts_memory h'] at hio
  exact absurd hio.symm (by simp)

theorem Listing.samePlace_or (l : Listing) (M : Machine l.target) (memory bank : Byte)
    (address : Addr) : l.SamePlace M memory bank address ∨
      (l.target.writes (l.loadConfig M memory bank) address = .io address ∧
        ∀ a, l.target.writes (l.pokeConfig M memory bank) address ≠ .io a) ∨
      (l.target.writes (l.pokeConfig M memory bank) address = .io address ∧
        ∀ a, l.target.writes (l.loadConfig M memory bank) address ≠ .io a) := by
  have hc64 : ∀ config config' : Byte, c64Writes config address = c64Writes config' address ∨
      (c64Writes config address = .io address ∧ ∀ a, c64Writes config' address ≠ .io a) ∨
      (c64Writes config' address = .io address ∧ ∀ a, c64Writes config address ≠ .io a) := by
    intro config config'
    by_cases ha : IsIo address
    · rw [c64Writes_io ha, c64Writes_io ha]
      by_cases h : ShowsIo config
      · by_cases h' : ShowsIo config'
        · simp [h, h']
        · simp [h, h']
      · by_cases h' : ShowsIo config'
        · simp [h, h']
        · simp [h, h']
    · exact .inl (c64Writes_eq ha config config')
  cases l with
  | server64 => exact hc64 _ _
  | kernal64 => exact hc64 _ _
  | server128 => exact .inl rfl
  | kernal128 => exact .inl rfl

/-- A register that is not of the cable or the screen. -/
theorem effect_of_clear (hio : l.target.writes config address = .io address)
    (hclear : (l.target.writes config address).Clear l.work) (hscreen : address ≠ 0xd011#16) :
    Access.Effect (.write address value) := by
  rw [hio] at hclear
  obtain ⟨h₀, h₁, h₃⟩ := hclear
  simp [Access.Effect, h₀, h₁, h₃, hscreen]

/-- **A poke writes to the place the load of one byte writes to exactly if `PokesAsLoads` says so**,
and then the two leave the same memory and the same I/O registers. (The load itself blanks the
screen, by `$d011`.) -/
theorem poke_agrees_with_load {a x y a' x' y' : Byte} {z n z' n' : Bool} {st st' : List Byte}
    {load poke : Pc} (hM : Ready M)
    (hload : (Transfer.load memory bank address [value]).Asked load)
    (hpoke : (Transfer.poke memory bank address value).Asked poke)
    (hclear : l.Allows M (.load memory bank address [value]))
    (hclear' : l.Allows M (.poke memory bank address value)) :
    wp (irq l.handlers) (fun o t => wp (irq l.handlers) (fun o' u =>
        ((∃ r, o = .returned (some r)) ∧ ∃ r, o' = .returned (some r)) ∧
        (M.puts (l.loadConfig M memory bank) address [value]).Like l.scratch t.bus ∧
        (M.puts (l.pokeConfig M memory bank) address [value]).Like l.scratch u.bus ∧
        (l.SamePlace M memory bank address ↔ l.PokesAsLoads memory address) ∧
        (address ≠ 0xd011#16 →
          (t.bus.Like l.scratch u.bus ↔ l.PokesAsLoads memory address)))
      ⟨a', x', y', z', n', st', M.asked poke⟩) ⟨a, x, y, z, n, st, M.asked load⟩ := by
  apply wp_mono (wp_load_byte hM hload hclear)
  rintro o t ⟨hr, ht⟩
  apply wp_mono (wp_poke_byte hM hpoke hclear')
  rintro o' u ⟨hr', hu⟩
  have hsame : l.SamePlace M memory bank address ↔ l.PokesAsLoads memory address :=
    Listing.samePlace_iff hM.visible
  refine ⟨⟨hr, hr'⟩, ht, hu, hsame, ?_⟩
  intro hscreen
  have hputs : t.bus.Like l.scratch u.bus ↔ (M.puts (l.loadConfig M memory bank) address
      [value]).Like l.scratch (M.puts (l.pokeConfig M memory bank) address [value]) :=
    ⟨fun h => (ht.trans h).trans hu.symm, fun h => (ht.symm.trans h).trans hu⟩
  rw [hputs, ← hsame]
  have hfirst := hclear 0 (Nat.succ_pos _)
  rw [BitVec.add_zero] at hfirst
  rcases l.samePlace_or M memory bank address with h | ⟨hio, hmemory⟩ | ⟨hio, hmemory⟩
  · refine iff_of_true ?_ h
    have hput : (M.puts (l.loadConfig M memory bank) address [value]).Like l.scratch
        (({ M with config := l.pokeConfig M memory bank } : Machine l.target).put address value) := by
      rw [Machine.puts, Machine.puts]
      exact Machine.Like.put (M := { M with config := l.loadConfig M memory bank })
        (N := { M with config := l.pokeConfig M memory bank }) (.of_eq rfl rfl rfl) h.symm value
    exact hput
  · refine iff_of_false (not_like_puts hio (effect_of_clear hio hfirst hscreen) hmemory) ?_
    intro h
    exact hmemory address (h.symm.trans hio)
  · refine iff_of_false ?_ ?_
    · intro h
      exact not_like_puts hio (effect_of_clear hio hclear' hscreen) hmemory h.symm
    · intro h
      exact hmemory address (h.trans hio)

theorem emptyMachine_ready : Ready emptyMachine := ⟨visible_default, rfl⟩

theorem poke_agrees_with_load_text :
    wp (irq emptySite.handlers) (fun o t => wp (irq emptySite.handlers) (fun o' u =>
        ((∃ r, o = .returned (some r)) ∧ ∃ r, o' = .returned (some r)) ∧
        (emptyMachine.puts (emptySite.loadConfig emptyMachine 0x37#8 0x00#8) 0x0400#16
          [0x01#8]).Like emptySite.scratch t.bus ∧
        (emptyMachine.puts (emptySite.pokeConfig emptyMachine 0x37#8 0x00#8) 0x0400#16
          [0x01#8]).Like emptySite.scratch u.bus ∧
        (emptySite.SamePlace emptyMachine 0x37#8 0x00#8 0x0400#16 ↔
          emptySite.PokesAsLoads 0x37#8 0x0400#16) ∧
        ((0x0400#16 : Addr) ≠ 0xd011#16 →
          (t.bus.Like emptySite.scratch u.bus ↔ emptySite.PokesAsLoads 0x37#8 0x0400#16)))
      ⟨0x00#8, 0x00#8, 0x00#8, false, false, [], emptyMachine.asked (.sending [Command.poke, 0x37#8,
        0x00#8, 0x00#8, 0x04#8, 0x01#8] (.done []))⟩)
      ⟨0x00#8, 0x00#8, 0x00#8, false, false, [], emptyMachine.asked (.sending [Command.load, 0x37#8,
        0x00#8, 0x00#8, 0x04#8, 0x01#8, 0x04#8] (.sending [0x01#8] (.done [])))⟩ := by
  apply poke_agrees_with_load emptyMachine_ready
  · exact ⟨_, rfl, List.cons_ne_nil _ _, by decide, _, rfl⟩
  · exact ⟨_, rfl, _, rfl⟩
  · intro i hi
    obtain rfl : i = 0 := by simpa using hi
    trivial
  · trivial

/-- With the BASIC and the KERNAL ROM switched off, a poke to the border colour reaches the VIC and a
load the RAM below. -/
theorem poke_past_load :
    wp (irq emptySite.handlers) (fun _ t => wp (irq emptySite.handlers) (fun _ u =>
        t.bus.ram 0x00#8 0xd020#16 = 0x01#8 ∧ u.bus.ram 0x00#8 0xd020#16 = 0x00#8 ∧
        t.bus.io = [] ∧ u.bus.io = [.write 0xd020#16 0x01#8])
      ⟨0x00#8, 0x00#8, 0x00#8, false, false, [], emptyMachine.asked (.sending [Command.poke, 0x35#8,
        0x00#8, 0x20#8, 0xd0#8, 0x01#8] (.done []))⟩)
      ⟨0x00#8, 0x00#8, 0x00#8, false, false, [], emptyMachine.asked (.sending [Command.load, 0x35#8,
        0x00#8, 0x20#8, 0xd0#8, 0x21#8, 0xd0#8] (.sending [0x01#8] (.done [])))⟩ := by
  have hload : emptySite.Allows emptyMachine (.load 0x35#8 0x00#8 0xd020#16 [0x01#8]) := by
    intro i hi
    obtain rfl : i = 0 := by simpa using hi
    trivial
  have hpoke : emptySite.Allows emptyMachine (.poke 0x35#8 0x00#8 0xd020#16 0x01#8) := by
    change Place.Clear emptySite.work (.io 0xd020#16)
    exact ⟨by decide, by decide, by decide⟩
  apply wp_mono (wp_load_byte emptyMachine_ready ⟨_, rfl, List.cons_ne_nil _ _, by decide, _, rfl⟩
    hload)
  rintro o t ⟨-, ht⟩
  apply wp_mono (wp_poke_byte emptyMachine_ready ⟨_, rfl, _, rfl⟩ hpoke)
  rintro o' u ⟨-, hu⟩
  refine ⟨?_, ?_, ?_, ?_⟩
  · rw [ht.ram 0x00#8 0xd020#16 id]
    rfl
  · rw [hu.ram 0x00#8 0xd020#16 id]
    rfl
  · rw [ht.io]
    rfl
  · rw [hu.io]
    rfl

end Agreement

end Xlink.Server
