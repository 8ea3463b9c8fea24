import Xlink.Server.Effects
import Xlink.Server.InStep

/-!
# A load, then a save

`server64.asm` writes under one configuration and reads under another. Where the memory config of
the request shows RAM both reach the same RAM, so that a save gives back what a load has put there.
A load leaves all other memory as it was, but for the server's cells, the end of the program text
and the I/O registers it works with.

`load_then_save` holds for all 256 memory configs and every range above the stack that fits into
memory, of any length, and whatever is done to the machine in between that leaves the range alone.
It is about the RAM server of the C64; `Store` has the others and whole sessions.
-/

namespace Xlink.Server

open Word Mos6502 Port

variable {rom : Addr → Byte} {chips : List Access → Addr → Byte}

/-! ## Where there is RAM -/

/-- RAM under `$37`, that is away from ROM and I/O, is RAM under every configuration. -/
theorem c64Reads_of_default {memory config : Byte} {a : Addr} (hmode : memory &&& 0x7f#8 = 0x37#8)
    (hram : c64Reads memory a = .ram 0x00#8 a) : c64Reads config a = .ram 0x00#8 a := by
  have hmask : ∀ v, memory &&& (0x7f#8 &&& v) = 0x37#8 &&& v := fun v => by
    rw [← BitVec.and_assoc, hmode]
  have hbasic : memory &&& 0x03#8 = 0x03#8 := hmask 0x03#8
  have hchar : memory &&& 0x04#8 = 0x04#8 := hmask 0x04#8
  have hkernal : memory &&& 0x02#8 = 0x02#8 := hmask 0x02#8
  by_cases habove : 0x0100 ≤ a.toNat
  case neg => rw [c64Reads_below config memory (Nat.not_le.1 habove), hram]
  rw [c64Reads_above _ habove] at hram ⊢
  rw [hbasic, hchar, hkernal] at hram
  by_cases hlow : a.toNat < 0xa000
  · rw [if_pos hlow]
  rw [if_neg hlow] at hram ⊢
  by_cases hrom : a.toNat < 0xc000
  · rw [if_pos hrom, if_pos rfl] at hram
    cases hram
  rw [if_neg hrom] at hram ⊢
  by_cases hhigh : a.toNat < 0xd000
  · rw [if_pos hhigh]
  rw [if_neg hhigh] at hram
  by_cases hio : a.toNat < 0xe000
  · rw [if_pos hio, if_neg (by decide), if_pos rfl] at hram
    cases hram
  · rw [if_neg hio, if_pos rfl] at hram
    cases hram

/-- Writes under `$33` reach the RAM everywhere above page zero. -/
theorem c64Writes_slow {a : Addr} (h : 0x0100 ≤ a.toNat) : c64Writes 0x33#8 a = .ram 0x00#8 a := by
  rw [c64Writes, c64Reads_above _ h]
  by_cases hlow : a.toNat < 0xa000
  · rw [if_pos hlow]
  rw [if_neg hlow]
  by_cases hrom : a.toNat < 0xc000
  · rw [if_pos hrom, if_pos (by decide)]
  rw [if_neg hrom]
  by_cases hhigh : a.toNat < 0xd000
  · rw [if_pos hhigh]
  rw [if_neg hhigh]
  by_cases hio : a.toNat < 0xe000
  · rw [if_pos hio, if_neg (by decide), if_neg (by decide)]
  · rw [if_neg hio, if_pos (by decide)]

/-- Where a request shows RAM, its load writes it. -/
theorem writes_loading {entry memory : Byte} {a : Addr} (h : 0x0100 ≤ a.toNat)
    (hram : c64Reads memory a = .ram 0x00#8 a) :
    c64Writes (loading entry memory).1 a = .ram 0x00#8 a := by
  unfold loading
  split
  next hmode => rw [c64Writes, c64Reads_of_default hmode hram]
  next => exact c64Writes_slow h

/-- And its save reads it. -/
theorem reads_saving {entry memory : Byte} {a : Addr} (hram : c64Reads memory a = .ram 0x00#8 a) :
    c64Reads (saving entry memory).1 a = .ram 0x00#8 a := by
  unfold saving
  split
  next hmode => exact c64Reads_of_default (by rw [hmode]; rfl) hram
  next => exact hram

/-! ## What a load writes -/

section Loaded

variable {T : Target} {M : Machine T} {config back b : Byte} {k : Pc} {bs : List Byte}

theorem ram_put_ram {a : Addr} {v : Byte} (hplace : T.writes M.config a = .ram 0x00#8 a) :
    (M.put a v).ram = Function.update M.ram 0x00#8 (Function.update (M.ram 0x00#8) a v) := by
  rw [Machine.put, hplace]
  rfl

theorem ram_stored (hplace : T.writes config (M.word T.start) = .ram 0x00#8 (M.word T.start)) :
    (M.stored config back b k).ram = Function.update M.ram 0x00#8
      (Function.update (M.ram 0x00#8) (M.word T.start) b) :=
  ram_put_ram (M := { M.strobed _ _ with config := config }) hplace

theorem places_tail (back b : Byte) (k : Pc) {n : Nat} (hplaces : ∀ i < n + 1, T.writes config
      (M.word T.start + BitVec.ofNat 16 i) = .ram 0x00#8 (M.word T.start + BitVec.ofNat 16 i)) :
    T.writes config (M.word T.start) = .ram 0x00#8 (M.word T.start) ∧
      ∀ i < n, T.writes config ((M.stored config back b k).word T.start + BitVec.ofNat 16 i) =
        .ram 0x00#8 ((M.stored config back b k).word T.start + BitVec.ofNat 16 i) := by
  constructor
  · have := hplaces 0 (Nat.succ_pos n)
    rwa [BitVec.add_zero] at this
  · intro i hi
    rw [word_stored_start, ← add_ofNat_succ]
    exact hplaces (i + 1) (Nat.succ_lt_succ hi)

/-- RAM that the payload does not reach is what it was. -/
theorem ram_loaded_of_ne (hplaces : ∀ i < bs.length, T.writes config
      (M.word T.start + BitVec.ofNat 16 i) = .ram 0x00#8 (M.word T.start + BitVec.ofNat 16 i))
    {bank : Byte} {a : Addr}
    (ha : ∀ i < bs.length, ¬(bank = 0x00#8 ∧ a = M.word T.start + BitVec.ofNat 16 i)) :
    (M.loaded config back bs k).ram bank a = M.ram bank a := by
  induction bs generalizing M with
  | nil => rfl
  | cons b bs ih =>
    obtain ⟨hfirst, hrest⟩ := places_tail back b (.sending bs k) hplaces
    have hne := ha 0 (Nat.succ_pos _)
    rw [BitVec.add_zero] at hne
    rw [Machine.loaded, ih hrest fun i hi => ?_, ram_stored hfirst]
    · by_cases hbank : bank = 0x00#8
      · subst hbank
        rw [Function.update_self, Function.update_of_ne fun h => hne ⟨rfl, h⟩]
      · rw [Function.update_of_ne hbank]
    · rw [word_stored_start, ← add_ofNat_succ]
      exact ha (i + 1) (Nat.succ_lt_succ hi)

theorem add_ofNat_ne (w : Addr) {i : Nat} (hi : i + 1 < 0x10000) :
    w ≠ w + 1#16 + BitVec.ofNat 16 i := fun h => by
  have := congrArg BitVec.toNat h
  simp only [BitVec.toNat_add, BitVec.toNat_ofNat] at this
  have := w.isLt
  omega

/-- The payload is in RAM. -/
theorem ram_loaded (hmax : bs.length ≤ 0x10000) (hplaces : ∀ i < bs.length, T.writes config
      (M.word T.start + BitVec.ofNat 16 i) = .ram 0x00#8 (M.word T.start + BitVec.ofNat 16 i))
    {i : Nat} (hi : i < bs.length) :
    (M.loaded config back bs k).ram 0x00#8 (M.word T.start + BitVec.ofNat 16 i) = bs[i] := by
  induction bs generalizing M i with
  | nil => simp at hi
  | cons b bs ih =>
    obtain ⟨hfirst, hrest⟩ := places_tail back b (.sending bs k) hplaces
    rw [List.length_cons] at hmax
    cases i with
    | zero =>
      rw [BitVec.add_zero, Machine.loaded, ram_loaded_of_ne hrest fun j hj h => ?_,
        ram_stored hfirst, Function.update_self, Function.update_self]
      · rfl
      · rw [word_stored_start] at h
        exact add_ofNat_ne _ (by omega) h.2
    | succ i =>
      have hnext : (M.stored config back b (.sending bs k)).word T.start = M.word T.start + 1#16 :=
        word_stored_start
      rw [add_ofNat_succ, ← hnext, Machine.loaded]
      exact ih (by omega) hrest (by simpa using hi)

/-- The payload goes to RAM: no zero page cell but the counter changes. -/
theorem zp_loaded_ram (hplaces : ∀ i < bs.length, T.writes config
      (M.word T.start + BitVec.ofNat 16 i) = .ram 0x00#8 (M.word T.start + BitVec.ofNat 16 i))
    {c : Byte} (hlow : c ≠ T.start) (hhigh : c ≠ T.start + 1#8) :
    (M.loaded config back bs k).zp c = M.zp c := by
  refine zp_loaded (fun i hi => ?_) (List.mem_singleton_self c) hlow hhigh
  rw [hplaces i hi]
  trivial

end Loaded

/-! ## What a load does to I/O -/

/-- All I/O accesses since are ones of the cable or the screen. -/
def Machine.Wires {T : Target} (M N : Machine T) : Prop :=
  ∃ more, N.log = M.log ++ more ∧ ∀ x ∈ more, x.Wire

section Wires

variable {T : Target} {M N O : Machine T} {config back b v : Byte} {k : Pc}

theorem Machine.Wires.of_log (h : N.log = M.log) : M.Wires N :=
  ⟨[], by rw [h, List.append_nil], nofun⟩

theorem Machine.Wires.one {x : Access} (h : N.log = M.log ++ [x]) (hx : x.Wire) : M.Wires N :=
  ⟨[x], h, by simpa using hx⟩

theorem Machine.Wires.trans (hMN : M.Wires N) (hNO : N.Wires O) : M.Wires O := by
  obtain ⟨more, hlog, hmore⟩ := hMN
  obtain ⟨more', hlog', hmore'⟩ := hNO
  refine ⟨more ++ more', by rw [hlog', hlog, List.append_assoc], fun x hx => ?_⟩
  rcases List.mem_append.mp hx with hx | hx
  · exact hmore x hx
  · exact hmore' x hx

theorem wires_received (M : Machine T) (b : Byte) (k : Pc) : M.Wires (M.received b k) :=
  .one rfl (by simp [Access.Wire])

theorem wires_taken (M : Machine T) (c b : Byte) (k : Pc) : M.Wires (M.taken c b k) :=
  (wires_received M b k).trans (.of_log rfl)

theorem wires_headed (M : Machine T) (memory bank : Byte) (start stop : Addr) (k : Pc) :
    M.Wires (M.headed memory bank start stop k) :=
  (((((wires_taken ..).trans (wires_taken ..)).trans (wires_taken ..)).trans
    (wires_taken ..)).trans (wires_taken ..)).trans (wires_taken ..)

theorem wires_screen (M : Machine T) (v : Byte) : M.Wires (M.screen v) := by
  unfold Machine.screen
  split
  · exact .of_log rfl
  · exact .one rfl (by simp [Access.Wire])

theorem log_put_ram {a : Addr} {v : Byte} {bank : Byte} {a' : Addr}
    (hplace : T.writes M.config a = .ram bank a') : (M.put a v).log = M.log := by
  rw [Machine.put, hplace]
  rfl

theorem wires_stored
    (hplace : T.writes config (M.word T.start) = .ram 0x00#8 (M.word T.start)) :
    M.Wires (M.stored config back b k) := by
  let N : Machine T := { M.strobed (some b) (.ack fun _ => k) with config := config }
  have hput : (N.put (M.word T.start) b).log = M.log := log_put_ram (M := N) hplace
  refine .one (x := .write 0xdd00#16 ((N.put (M.word T.start) b).dd00 ^^^ 0x04#8)) ?_
    (by simp [Access.Wire])
  rw [← hput]
  rfl

theorem wires_loaded {bs : List Byte} (hplaces : ∀ i < bs.length, T.writes config
      (M.word T.start + BitVec.ofNat 16 i) = .ram 0x00#8 (M.word T.start + BitVec.ofNat 16 i)) :
    M.Wires (M.loaded config back bs k) := by
  induction bs generalizing M with
  | nil => exact .of_log rfl
  | cons b bs ih =>
    obtain ⟨hfirst, hrest⟩ := places_tail back b (.sending bs k) hplaces
    exact (wires_stored hfirst).trans (ih hrest)

end Wires

/-! ## The end of the program text -/

section Relinked

variable (M : Machine (c64 rom chips)) (basic : Byte)

theorem relinked_eq : M.relinked basic = if basic = 0x00#8 then
    (M.setZp 0x2d#8 (M.zp (c64 rom chips).stop)).setZp 0x2e#8 (M.zp ((c64 rom chips).stop + 1#8))
    else M := by
  unfold Machine.relinked
  split
  · rw [put_zp _ (writes_bend _).1, put_zp _ (writes_bend _).2]
  · rfl

theorem ram_relinked : (M.relinked basic).ram = M.ram := by
  rw [relinked_eq]
  split <;> rfl

theorem wires_relinked : M.Wires (M.relinked basic) := by
  rw [relinked_eq]
  split <;> exact .of_log rfl

theorem zp_relinked_of_ne {c : Byte} (hlow : c ≠ 0x2d#8) (hhigh : c ≠ 0x2e#8) :
    (M.relinked basic).zp c = M.zp c := by
  rw [relinked_eq]
  split
  · rw [zp_setZp_of_ne hhigh, zp_setZp_of_ne hlow]
  · rfl

end Relinked

/-! ## The round trip -/

section RoundTrip

variable {M : Machine (c64 rom chips)} {config back memory bank : Byte} {address : Addr}
  {data : List Byte} {k : Pc}

theorem read_ram {T : Target} {M : Machine T} {a a' : Addr} {bank : Byte}
    (hplace : T.reads M.config a = .ram bank a') : M.read a = (M.ram bank a', M) := by
  rw [Machine.read, hplace]

/-- A save reads what is in RAM. -/
theorem saved_eq {kb : List Byte → Pc} (hplaces : ∀ i < data.length,
      c64Reads config (M.word (c64 rom chips).start + BitVec.ofNat 16 i) =
        .ram 0x00#8 (M.word (c64 rom chips).start + BitVec.ofNat 16 i))
    (hdata : ∀ i (hi : i < data.length),
      M.ram 0x00#8 (M.word (c64 rom chips).start + BitVec.ofNat 16 i) = data[i])
    (hpc : M.pc = .receiving data.length kb) :
    (M.saved config back data.length kb).1 = data := by
  induction data generalizing M kb with
  | nil => rfl
  | cons b bs ih =>
    have hplace := hplaces 0 (Nat.succ_pos _)
    have hfirst : M.ram 0x00#8 (M.word (c64 rom chips).start + 0#16) = b :=
      hdata 0 (Nat.succ_pos _)
    rw [BitVec.add_zero] at hplace hfirst
    have htakes : M.pc.Takes fun b => .receiving bs.length fun bs => kb (b :: bs) := hpc
    have hvalue : (M.given config back fun b => .receiving bs.length fun bs => kb (b :: bs)).1 =
        b := by
      rw [← hfirst]
      exact congrArg Prod.fst (read_ram (M := { M with config := config }) hplace)
    have hleft : (M.given config back fun b => .receiving bs.length fun bs => kb (b :: bs)).2.pc =
        .receiving bs.length fun bs => kb ((M.given config back fun b =>
          .receiving bs.length fun bs => kb (b :: bs)).1 :: bs) := pc_given
    refine congrArg₂ List.cons hvalue (ih (fun i hi => ?_) (fun i hi => ?_) hleft)
    · rw [word_given_start htakes, ← add_ofNat_succ]
      exact hplaces (i + 1) (Nat.succ_lt_succ hi)
    · rw [word_given_start htakes, ← add_ofNat_succ, ram_given htakes]
      exact hdata (i + 1) (Nat.succ_lt_succ hi)

/-- The data of a load are in RAM. Otherwise RAM, zero page and I/O are what they were, but for the
server's cells, the end of the program text, `$d011` and the ports of CIA2. -/
structure Machine.LoadedAt (address : Addr) (data : List Byte) (M N : Machine (c64 rom chips)) :
    Prop where
  holds : ∀ i (hi : i < data.length), N.ram 0x00#8 (address + BitVec.ofNat 16 i) = data[i]
  ram : ∀ bank a, (∀ i < data.length, ¬(bank = 0x00#8 ∧ a = address + BitVec.ofNat 16 i)) →
    N.ram bank a = M.ram bank a
  zp : ∀ c ∉ (c64 rom chips).work ++ [0x2d#8, 0x2e#8], N.zp c = M.zp c
  port : N.config = M.config ∨ N.config = 0x37#8
  wires : M.Wires N

theorem loadedAt_load64 (hmax : data.length ≤ 0x10000) (hne : data ≠ [])
    (hplaces : ∀ i < data.length, (c64 rom chips).writes (loading M.config memory).1
      (address + BitVec.ofNat 16 i) = .ram 0x00#8 (address + BitVec.ofNat 16 i)) :
    M.LoadedAt address data (M.load64 memory bank address data k) := by
  have hstart : (M.loadBegun memory bank address data k).word (c64 rom chips).start = address :=
    congrArg Header.start (header_loadBegun ..)
  have hplaces' := hplaces
  rw [← hstart] at hplaces'
  have hram : (M.load64 memory bank address data k).ram =
      ((M.loadBegun memory bank address data k).loaded (loading M.config memory).1
        (loading M.config memory).2 data k).ram := by
    rw [Machine.load64, ram_screen, ram_relinked]
  refine ⟨fun i hi => ?_, fun b a ha => ?_, fun c hc => ?_, ?_, ?_⟩
  · have hdata : ((M.loadBegun memory bank address data k).loaded (loading M.config memory).1
        (loading M.config memory).2 data k).ram 0x00#8 ((M.loadBegun memory bank address data
          k).word (c64 rom chips).start + BitVec.ofNat 16 i) = data[i] := ram_loaded hmax hplaces' hi
    rwa [hstart, ← hram] at hdata
  · rw [hram, ram_loaded_of_ne hplaces' (by rwa [hstart]), ram_loadBegun]
  · have hwork : c ∉ (c64 rom chips).work := fun h => hc (List.mem_append_left _ h)
    have hlow : c ≠ (c64 rom chips).start := fun h => hwork (h ▸ mem_work.1)
    have hhigh : c ≠ (c64 rom chips).start + 1#8 := fun h => hwork (h ▸ mem_work.2.1)
    have hbend : c ≠ 0x2d#8 := fun h => hc (h ▸ by simp)
    have hbend₁ : c ≠ 0x2e#8 := fun h => hc (h ▸ by simp)
    rw [Machine.load64, zp_screen, zp_relinked_of_ne _ _ hbend hbend₁,
      zp_loaded_ram hplaces' hlow hhigh, zp_loadBegun _ _ _ _ _ _ hwork]
  · rw [Machine.load64, config_screen, config_relinked, config_loaded hne, loading]
    split
    · exact .inl rfl
    · exact .inr rfl
  · have hbegun : M.Wires (M.loadBegun memory bank address data k) :=
      (wires_headed ..).trans (wires_screen ..)
    exact ((hbegun.trans (wires_loaded hplaces')).trans (wires_relinked _ _)).trans
      (wires_screen ..)

/-- A load, from its dispatch on, puts its data into RAM and changes nothing else. -/
def LoadPuts (h : Handlers (c64 rom chips)) (memory bank : Byte) (address : Addr)
    (data : List Byte) : Prop :=
  ∀ (M : Machine (c64 rom chips)) a x y z n st k, Ready M →
    M.pc = .sending (header Command.load memory bank address data.length) (.sending data k) →
    wp (irq h) (fun o t => o = .returned (some (.load memory bank address
        (address + BitVec.ofNat 16 data.length) data)) ∧
      Ready t.bus ∧ t.bus.pc = k ∧ M.LoadedAt address data t.bus) ⟨a, x, y, z, n, st, M⟩

/-- A save of a range that holds some data sends them. -/
def SaveGives (h : Handlers (c64 rom chips)) (memory bank : Byte) (address : Addr)
    (data : List Byte) : Prop :=
  ∀ (M : Machine (c64 rom chips)) a x y z n st k, Ready M →
    (∀ i (hi : i < data.length), M.ram 0x00#8 (address + BitVec.ofNat 16 i) = data[i]) →
    M.pc = .sending (header Command.save memory bank address data.length)
      (.strobe none (.receiving data.length k)) →
    wp (irq h) (fun o t => o = .returned (some (.save memory bank address
        (address + BitVec.ofNat 16 data.length) data)) ∧
      Ready t.bus ∧ t.bus.pc = k data) ⟨a, x, y, z, n, st, M⟩

/-- **Load followed by save is the identity on RAM**, whatever the memory config, as long as it shows
RAM there, and whatever is done to the machine in between that leaves the range alone. -/
theorem load_then_save {table : Table} {back : Addr} {basic : Code (c64 rom chips) Unit}
    (hne : data ≠ []) (hfit : address.toNat + data.length ≤ 0x10000)
    (hram : ∀ i < data.length, 0x0200 ≤ address.toNat + i ∧
      c64Reads memory (address + BitVec.ofNat 16 i) =
        .ram 0x00#8 (address + BitVec.ofNat 16 i)) :
    LoadPuts (Server64.handlers table back basic) memory bank address data ∧
      SaveGives (Server64.handlers table back basic) memory bank address data := by
  have hmax : data.length ≤ 0x10000 := by omega
  have hnat : ∀ i < data.length, 0x0100 ≤ (address + BitVec.ofNat 16 i).toNat := fun i hi => by
    have := (hram i hi).1
    rw [BitVec.toNat_add, BitVec.toNat_ofNat]
    omega
  constructor
  · intro M a x y z n st k hM hpc
    have hplaces : ∀ i < data.length, (c64 rom chips).writes (loading M.config memory).1
        (address + BitVec.ofNat 16 i) = .ram 0x00#8 (address + BitVec.ofNat 16 i) :=
      fun i hi => writes_loading (hnat i hi) (hram i hi).2
    refine wp_irq Command.load hM.visible hM.input hpc fun a x z n => ?_
    generalize hN : M.received Command.load _ = N
    have hready : Ready N := hN ▸ ready_received hM
    have hconfig : N.config = M.config := by rw [← hN, config_received]
    refine wp_load64 hready.visible hready.input hne hmax (fun i hi => ?_) (by rw [← hN]; rfl)
      fun a x y z n => ⟨rfl, ready_load64 hready hne, pc_load64, ?_⟩
    · rw [hconfig]
      show Place.Clear _ _
      rw [hplaces i hi]
      trivial
    · have h : N.LoadedAt address data (N.load64 memory bank address data k) :=
        loadedAt_load64 hmax hne (by rw [hconfig]; exact hplaces)
      subst hN
      exact ⟨h.holds, h.ram, h.zp, h.port, (wires_received ..).trans h.wires⟩
  · intro M a x y z n st k hM hdata hpc
    refine wp_irq Command.save hM.visible hM.input hpc fun a x z n => ?_
    generalize hN : M.received Command.save _ = N
    have hready : Ready N := hN ▸ ready_received hM
    have hpos : 0 < data.length := List.length_pos_iff.mpr hne
    refine wp_save64 hready.visible hready.input hpos hmax (by rw [← hN]; rfl)
      fun a x y z n => ?_
    obtain ⟨hdone, hleft, -⟩ := saveDone_spec memory hready hpos
      (pc_saveBegun N memory bank address data.length k)
    have hstart : (N.saveBegun memory bank address data.length k).word (c64 rom chips).start =
        address := congrArg Header.start (header_saveBegun ..)
    have hsaved : (N.save64 memory bank address data.length k).1 = data := by
      refine saved_eq (fun i hi => ?_) (fun i hi => ?_) (pc_saveBegun ..)
      · rw [hstart]
        exact reads_saving (hram i hi).2
      · rw [hstart, ram_saveBegun, ← hN]
        exact hdata i hi
    have hleft' : (N.save64 memory bank address data.length k).2.pc =
        k (N.save64 memory bank address data.length k).1 := hleft
    rw [hsaved] at hleft' ⊢
    exact ⟨rfl, hdone, hleft'⟩

theorem load_then_save_screen :
    LoadPuts (Server64.handlers (xlinkTable 0x00#8 0x00#8 0xc000#16 0xc400#16) 0xc300#16
        (pure () : Code (c64 (fun _ => 0x00#8) fun _ _ => 0x00#8) Unit))
        0x37#8 0x00#8 0x0400#16 [0x08#8, 0x09#8] ∧
      SaveGives (Server64.handlers (xlinkTable 0x00#8 0x00#8 0xc000#16 0xc400#16) 0xc300#16
        (pure () : Code (c64 (fun _ => 0x00#8) fun _ _ => 0x00#8) Unit))
        0x37#8 0x00#8 0x0400#16 [0x08#8, 0x09#8] :=
  load_then_save (by decide) (by decide) fun i hi => by
    obtain rfl | rfl : i = 0 ∨ i = 1 := by
      simp only [List.length_cons, List.length_nil] at hi
      omega
    · exact ⟨by decide, by decide⟩
    · exact ⟨by decide, by decide⟩

end RoundTrip

end Xlink.Server
