import Xlink.Server.Effects
import Xlink.Server.InStep

/-!
# Requests as transitions

`Transfer` is a request that a server returns from. For each of the four listings `Listing.puts`
says what the request does to memory and `Listing.leaves` which configuration it leaves, and
`Listing.attends` that the interrupt does just this.
-/

namespace Xlink.Server

open Word Mos6502 Port

/-- A request that a server returns from. -/
inductive Transfer where
  | load (memory bank : Byte) (address : Addr) (payload : List Byte)
  | save (memory bank : Byte) (address : Addr) (size : Nat)
  | poke (memory bank : Byte) (address : Addr) (value : Byte)
  | peek (memory bank : Byte) (address : Addr)
  | identify

def Transfer.command : Transfer → Byte
  | .load .. => Command.load
  | .save .. => Command.save
  | .poke .. => Command.poke
  | .peek .. => Command.peek
  | .identify => Command.identify

/-- What the PC does after the command byte. -/
def Transfer.Handed : Transfer → Pc → Prop
  | .load memory bank address payload, pc => payload ≠ [] ∧ payload.length ≤ 0x10000 ∧
    ∃ k, pc = .sending [memory, bank, lo address, hi address,
      lo (address + BitVec.ofNat 16 payload.length),
      hi (address + BitVec.ofNat 16 payload.length)] (.sending payload k)
  | .save memory bank address size, pc => 0 < size ∧ size ≤ 0x10000 ∧
    ∃ k, pc = .sending [memory, bank, lo address, hi address,
      lo (address + BitVec.ofNat 16 size), hi (address + BitVec.ofNat 16 size)]
      (.strobe none (.receiving size k))
  | .poke memory bank address value, pc =>
    ∃ k, pc = .sending [memory, bank, lo address, hi address, value] k
  | .peek memory bank address, pc =>
    ∃ k, pc = .sending [memory, bank, lo address, hi address] (.strobe none (.receiving 1 k))
  | .identify, pc => ∃ pc', pc = .strobe none pc' ∧ ∀ table : Table,
    ∃ k : Byte → Byte → Pc, Pc.Receives table.bytes pc'
      (.ack fun low => .strobe none (.ack fun high => .strobe none (k low high)))

/-- The PC makes the request. -/
def Transfer.Asked (q : Transfer) (pc : Pc) : Prop :=
  ∃ k, pc = .sending [q.command] k ∧ q.Handed k

namespace Listing

/-- The configuration after a request, from the one before it. -/
def leaves : Listing → Byte → Transfer → Byte
  | .server64 .., entry, .load memory _ _ _ => (loading entry memory).2
  | .server64 .., entry, .save memory _ _ _ => (saving entry memory).2
  | .server64 .., _, .poke .. => 0x37#8
  | .server64 .., _, .peek .. => 0x37#8
  | .kernal64 .., entry, .load memory _ _ _ => (loading entry memory).2
  | .kernal64 .., entry, .save memory _ _ _ => (saving entry memory).2
  | .kernal64 .., entry, .poke memory _ _ _ => (poking entry memory).2
  | .kernal64 .., _, .peek .. => 0x37#8
  | _, entry, _ => entry

/-- What a request puts into memory. -/
def puts (l : Listing) (M : Machine l.target) : Transfer → Machine l.target
  | .load memory bank address payload => M.puts (l.loadConfig M memory bank) address payload
  | .poke memory bank address value => M.puts (l.pokeConfig M memory bank) address [value]
  | _ => M

/-- The bytes a request puts are clear of the server's cells, the configuration and the cable. -/
def Allows (l : Listing) (M : Machine l.target) : Transfer → Prop
  | .load memory bank address payload => ∀ i < payload.length,
    (l.target.writes (l.loadConfig M memory bank) (address + BitVec.ofNat 16 i)).Clear l.work
  | .poke memory bank address _ =>
    (l.target.writes (l.pokeConfig M memory bank) address).Clear l.work
  | _ => True

/-- What a listing changes on the side: its cells, the end of the program text, and the RAM that it
copies code to. -/
def scratch : Listing → Scratch
  | .server64 rom chips _ _ _ _ => ⟨(c64 rom chips).work ++ [0x2d#8, 0x2e#8], fun _ _ => False⟩
  | .kernal64 rom chips _ _ _ _ => ⟨(c64 rom chips).work ++ [0x2d#8, 0x2e#8],
    fun b a => b = 0x00#8 ∧ 0x0100 ≤ a.toNat ∧ a.toNat < 0x010b⟩
  | .server128 rom chips _ _ _ _ => ⟨farWork rom chips,
    fun b a => (b = 0x00#8 ∧ 0x02a2 ≤ a.toNat ∧ a.toNat < 0x02fc) ∨ a ∈ [0x1210#16, 0x1211#16]⟩
  | .kernal128 rom chips _ _ _ _ => ⟨farWork rom chips,
    fun b a => (b = 0x00#8 ∧ 0x02a2 ≤ a.toNat ∧ a.toNat < 0x02fc) ∨ a ∈ [0x1210#16, 0x1211#16]⟩

end Listing

/-- The second machine is the first after a request. -/
structure Listing.Did (l : Listing) (q : Transfer) (M N : Machine l.target) : Prop where
  config : N.config = l.leaves M.config q
  input : N.dd03 = 0x00#8
  zp : ∀ c ∉ l.scratch.cells, N.zp c = (l.puts M q).zp c
  ram : ∀ b a, ¬l.scratch.ram b a → N.ram b a = (l.puts M q).ram b a
  io : q ≠ .identify → N.io = (l.puts M q).io

theorem Listing.did_of_like {l : Listing} {q : Transfer} {M N : Machine l.target}
    (hconfig : N.config = l.leaves M.config q) (hin : N.dd03 = 0x00#8)
    (h : (l.puts M q).Like l.scratch N) : l.Did q M N :=
  ⟨hconfig, hin, h.zp, h.ram, fun _ => h.io⟩

theorem Listing.did_of_same {l : Listing} {M N : Machine l.target}
    (hconfig : N.config = l.leaves M.config .identify) (hin : N.dd03 = 0x00#8)
    (hzp : N.zp = M.zp) (hram : N.ram = M.ram) : l.Did .identify M N :=
  ⟨hconfig, hin, fun c _ => congrFun hzp c, fun b a _ => congrFun (congrFun hram b) a,
    fun h => absurd rfl h⟩

/-- A handler comes to its end, does what the request says, and leaves the stack as it was. -/
def Listing.Handles (l : Listing) (q : Transfer) : Prop :=
  ∀ {M : Machine l.target} {a x : Byte} {z n : Bool} {st : List Byte}, Ready M →
    q.Handed M.pc → l.Allows M q →
    wp (l.handlers.handler q.command) (fun o t => (∃ r, o = .returned (some r)) ∧
      l.Did q M t.bus ∧ t.stack = st) ⟨a, x, q.command, z, n, st, M⟩

/-! ## The C64 servers -/

section C64

variable {rom : Addr → Byte} {chips : List Access → Addr → Byte} {start stop back : Addr}
  {basic : Code (c64 rom chips) Unit}

theorem config_load64 {M : Machine (c64 rom chips)} {memory bank : Byte} {address : Addr}
    {payload : List Byte} {k : Pc} (hne : payload ≠ []) :
    (M.load64 memory bank address payload k).config = (loading M.config memory).2 := by
  rw [Machine.load64, config_screen, config_relinked, config_loaded hne]

theorem config_saveDone {M N : Machine (c64 rom chips)} {memory : Byte} {size : Nat}
    {kb : List Byte → Pc} (hpos : 0 < size) :
    (M.saveDone memory size kb N).2.config = (saving M.config memory).2 := by
  rw [Machine.saveDone, config_screen, config_released, config_saved hpos]

theorem server64_handles (q : Transfer) :
    (Listing.server64 rom chips start stop back basic).Handles q := by
  intro (M : Machine (c64 rom chips)) a x z n st hM hhanded hallows
  have hwork : (c64 rom chips).work ++ [0x2d#8, 0x2e#8] ⊆
    (Listing.server64 rom chips start stop back basic).scratch.cells := fun _ h => h
  have hcells := (List.append_subset.mp hwork).1
  cases q with
  | load memory bank address payload =>
    obtain ⟨hne, hmax, k, hpc⟩ := hhanded
    apply wp_load64 hM.visible hM.input hne hmax hallows hpc
    intro a x y z n
    have hready : Ready (M.load64 memory bank address payload k) := ready_load64 hM hne
    refine ⟨⟨_, rfl⟩, Listing.did_of_like ?_ hready.input (like_load64 hwork payload), rfl⟩
    exact config_load64 hne
  | save memory bank address size =>
    obtain ⟨hpos, hmax, k, hpc⟩ := hhanded
    apply wp_save64 hM.visible hM.input hpos hmax hpc
    intro a x y z n
    obtain ⟨hready, -⟩ := saveDone_spec memory hM hpos
      (pc_saveBegun M memory bank address size k)
    refine ⟨⟨_, rfl⟩, Listing.did_of_like ?_ hready.input (like_save64 hcells), rfl⟩
    exact config_saveDone hpos
  | poke memory bank address value =>
    obtain ⟨k, hpc⟩ := hhanded
    have hclear : (c64 rom chips).Clear memory address := hallows
    apply wp_poke64 hM.visible hM.input hclear hpc
    intro a x y z n
    refine ⟨⟨_, rfl⟩, Listing.did_of_like rfl ?_ ?_, rfl⟩
    · exact dd03_poked.trans ((dd03_pokeBegun ..).trans hM.input)
    · exact (like_pokeBegun M memory bank address hcells value k).poked address value
  | peek memory bank address =>
    obtain ⟨k, hpc⟩ := hhanded
    apply wp_peek64 (f := fun v => k [v]) hM.visible hM.input hpc rfl
    intro a x y z n
    refine ⟨⟨_, rfl⟩, Listing.did_of_like rfl rfl ?_, rfl⟩
    have htakes : (M.peekBegun memory bank address (.receiving 1 k)).pc.Takes fun v => k [v] := rfl
    exact (like_peekBegun M memory bank address hcells _).trans (like_peeked htakes)
  | identify =>
    obtain ⟨pc, hpc, hreceives⟩ := hhanded
    obtain ⟨k, hreceives⟩ := hreceives (xlinkTable 0x00#8 0x00#8 start stop)
    apply wp_identify hM.visible hpc hreceives
    intro low high a z n N hconfig hzp hram hin hk
    exact ⟨⟨_, rfl⟩, Listing.did_of_same hconfig hin hzp hram, rfl⟩

theorem kernal64_handles (q : Transfer) :
    (Listing.kernal64 rom chips start stop back basic).Handles q := by
  intro (M : Machine (c64 rom chips)) a x z n st hM hhanded hallows
  have hwork : (c64 rom chips).work ++ [0x2d#8, 0x2e#8] ⊆
    (Listing.kernal64 rom chips start stop back basic).scratch.cells := fun _ h => h
  have hcells := (List.append_subset.mp hwork).1
  have hstub : ∀ a : Addr, 0x0100 ≤ a.toNat → a.toNat < 0x010b →
      (Listing.kernal64 rom chips start stop back basic).scratch.ram 0x00#8 a :=
    fun a h₀ h₁ => ⟨rfl, h₀, h₁⟩
  cases q with
  | load memory bank address payload =>
    obtain ⟨hne, hmax, k, hpc⟩ := hhanded
    apply wp_load64 hM.visible hM.input hne hmax hallows hpc
    intro a x y z n
    have hready : Ready (M.load64 memory bank address payload k) := ready_load64 hM hne
    refine ⟨⟨_, rfl⟩, Listing.did_of_like ?_ hready.input (like_load64 hwork payload), rfl⟩
    exact config_load64 hne
  | save memory bank address size =>
    obtain ⟨hpos, hmax, k, hpc⟩ := hhanded
    apply wp_saveKernal64 hM.visible hM.input hpos hmax hpc
    intro a x y z n
    obtain ⟨hready, -⟩ := saveDone_spec memory hM hpos
      (ready_saveKernal M memory bank address size k)
    refine ⟨⟨_, rfl⟩, Listing.did_of_like ?_ hready.input (like_saveKernal64 hcells hstub), rfl⟩
    exact config_saveDone hpos
  | poke memory bank address value =>
    obtain ⟨k, hpc⟩ := hhanded
    have hclear : (c64 rom chips).Clear (poking M.config memory).1 address := hallows
    apply wp_pokeKernal64 hM.visible hM.input hclear hpc
    intro a x y z n
    refine ⟨⟨_, rfl⟩, Listing.did_of_like rfl ?_ ?_, rfl⟩
    · exact dd03_poked.trans ((dd03_pokeBegun ..).trans hM.input)
    · exact (like_pokeBegun M memory bank address hcells value k).poked address value
  | peek memory bank address =>
    obtain ⟨k, hpc⟩ := hhanded
    apply wp_peekKernal64 (f := fun v => k [v]) hM.visible hM.input hpc rfl
    intro a x y z n
    refine ⟨⟨_, rfl⟩, Listing.did_of_like rfl rfl ?_, rfl⟩
    have htakes : (M.peekBegun memory bank address (.receiving 1 k)).stubbed.pc.Takes
        fun v => k [v] := by
      rw [Machine.stubbed, pc_copied, pc_peekBegun]
      rfl
    exact ((like_peekBegun M memory bank address hcells _).trans (like_stubbed hstub)).trans
      (like_peeked htakes)
  | identify =>
    obtain ⟨pc, hpc, hreceives⟩ := hhanded
    obtain ⟨k, hreceives⟩ := hreceives (xlinkTable 0x00#8 0x01#8 start stop)
    apply wp_identify hM.visible hpc hreceives
    intro low high a z n N hconfig hzp hram hin hk
    exact ⟨⟨_, rfl⟩, Listing.did_of_same hconfig hin hzp hram, rfl⟩

end C64

/-! ## The C128 servers -/

section C128

variable {rom : Byte → Addr → Byte} {chips : List Access → Addr → Byte} {start stop back : Addr}
  {area : CommonArea rom chips}

theorem server128_handles (q : Transfer) :
    (Listing.server128 rom chips start stop back area).Handles q := by
  intro (M : Machine (c128 rom chips)) a x z n st hM hhanded hallows
  have hfar : (Listing.server128 rom chips start stop back area).scratch.Far rom chips :=
    ⟨fun _ h => h, fun _ h₀ h₁ => .inl ⟨rfl, h₀, h₁⟩⟩
  cases q with
  | load memory bank address payload =>
    obtain ⟨hne, hmax, k, hpc⟩ := hhanded
    apply wp_load128 hM.visible hM.input hne hmax hallows hpc
    intro a x y z n
    refine ⟨⟨_, rfl⟩, Listing.did_of_like ?_ ?_ ?_, rfl⟩
    · exact config_load128 hne
    · exact dd03_load128.trans hM.input
    · exact like_load128 hfar (fun b => ⟨.inr (by simp), .inr (by simp)⟩) payload
  | save memory bank address size =>
    obtain ⟨hpos, hmax, k, hpc⟩ := hhanded
    apply wp_save128 hM.visible hM.input hpos hmax hpc
    intro a x y z n
    exact ⟨⟨_, rfl⟩, Listing.did_of_like (config_save128 hpos) dd03_save128 (like_save128 hfar), rfl⟩
  | poke memory bank address value =>
    obtain ⟨k, hpc⟩ := hhanded
    have hclear : (c128 rom chips).Clear (M.effective memory bank) address :=
      Place.Clear.mono hallows (List.subset_append_left _ _)
    apply wp_poke128 hM.visible hM.input hclear hpc
    intro a x y z n
    refine ⟨⟨_, rfl⟩, Listing.did_of_like config_poke128 ?_ (like_poke128 hfar value), rfl⟩
    exact dd03_poke128.trans hM.input
  | peek memory bank address =>
    obtain ⟨k, hpc⟩ := hhanded
    apply wp_peek128 (f := fun v => k [v]) hM.visible hM.input hpc rfl
    intro a x y z n
    have htakes : (Pc.receiving 1 k).Takes fun v => k [v] := rfl
    have hconfig : (M.peek128 memory bank address Command.peek (.receiving 1 k)
        fun v => k [v]).2.config = M.config := config_peek128
    have hin : (M.peek128 memory bank address Command.peek (.receiving 1 k)
        fun v => k [v]).2.dd03 = 0x00#8 := dd03_peek128
    have hlike : M.Like (Listing.server128 rom chips start stop back area).scratch
        (M.peek128 memory bank address Command.peek (.receiving 1 k) fun v => k [v]).2 :=
      like_peek128 hfar htakes
    exact ⟨⟨_, rfl⟩, Listing.did_of_like hconfig hin hlike, rfl⟩
  | identify =>
    obtain ⟨pc, hpc, hreceives⟩ := hhanded
    obtain ⟨k, hreceives⟩ := hreceives (xlinkTable 0x01#8 0x00#8 start stop)
    apply wp_identify hM.visible hpc hreceives
    intro low high a z n N hconfig hzp hram hin hk
    exact ⟨⟨_, rfl⟩, Listing.did_of_same hconfig hin hzp hram, rfl⟩

/-- The KERNAL's handlers are the RAM server's, but for the table that `identify` sends. -/
theorem kernal128_handles (q : Transfer) :
    (Listing.kernal128 rom chips start stop back area).Handles q := by
  intro (M : Machine (c128 rom chips)) a x z n st hM hhanded hallows
  have hdid : ∀ {o : Outcome} {t : Cpu (Machine (c128 rom chips))}, ((∃ r, o = .returned (some r)) ∧
      (Listing.server128 rom chips start stop back area).Did q M t.bus ∧ t.stack = st) →
      (∃ r, o = .returned (some r)) ∧
      (Listing.kernal128 rom chips start stop back area).Did q M t.bus ∧ t.stack = st := by
    rintro o t ⟨hr, hdid, hst⟩
    exact ⟨hr, ⟨hdid.config, hdid.input, hdid.zp, hdid.ram, hdid.io⟩, hst⟩
  cases q with
  | load =>
    refine wp_mono (p := (Server128.load area)) ?_ fun _ _ => hdid
    exact server128_handles (.load ..) hM hhanded hallows
  | save =>
    refine wp_mono (p := (Server128.save area)) ?_ fun _ _ => hdid
    exact server128_handles (.save ..) hM hhanded hallows
  | poke =>
    refine wp_mono (p := (Server128.poke area)) ?_ fun _ _ => hdid
    exact server128_handles (.poke ..) hM hhanded hallows
  | peek =>
    refine wp_mono (p := (Server128.peek area)) ?_ fun _ _ => hdid
    exact server128_handles (.peek ..) hM hhanded hallows
  | identify =>
    obtain ⟨pc, hpc, hreceives⟩ := hhanded
    obtain ⟨k, hreceives⟩ := hreceives (xlinkTable 0x01#8 0x01#8 start stop)
    apply wp_identify hM.visible hpc hreceives
    intro low high a z n N hconfig hzp hram hin hk
    exact ⟨⟨_, rfl⟩, Listing.did_of_same hconfig hin hzp hram, rfl⟩

end C128

/-! ## All four -/

theorem Listing.handles (l : Listing) (q : Transfer) : l.Handles q := by
  cases l with
  | server64 rom chips start stop back basic => exact server64_handles q
  | kernal64 rom chips start stop back basic => exact kernal64_handles q
  | server128 rom chips start stop back area => exact server128_handles q
  | kernal128 rom chips start stop back area => exact kernal128_handles q

section Received

variable {l : Listing} {M N : Machine l.target} {b : Byte} {k : Pc}

/-- A command byte does not change where a load or a poke goes. -/
theorem config_received_eq (l : Listing) (M : Machine l.target) (b : Byte) (k : Pc)
    (memory bank : Byte) : l.loadConfig (M.received b k) memory bank = l.loadConfig M memory bank ∧
      l.pokeConfig (M.received b k) memory bank = l.pokeConfig M memory bank := by
  cases l with
  | server64 => exact ⟨rfl, rfl⟩
  | kernal64 => exact ⟨rfl, rfl⟩
  | server128 => exact ⟨effective_congr rfl rfl, effective_congr rfl rfl⟩
  | kernal128 => exact ⟨effective_congr rfl rfl, effective_congr rfl rfl⟩

theorem allows_received {q : Transfer} (h : l.Allows M q) : l.Allows (M.received b k) q := by
  cases q with
  | load memory bank address payload =>
    simp only [Listing.Allows, (config_received_eq l M b k memory bank).1]
    exact h
  | poke memory bank address value =>
    simp only [Listing.Allows, (config_received_eq l M b k memory bank).2]
    exact h
  | _ => exact h

theorem puts_received (q : Transfer) :
    (l.puts M q).Like l.scratch (l.puts (M.received b k) q) := by
  have hlike : M.Like l.scratch (M.received b k) := like_received ..
  cases q with
  | load memory bank address payload =>
    simp only [Listing.puts, (config_received_eq l M b k memory bank).1]
    exact hlike.puts address payload
  | poke memory bank address value =>
    simp only [Listing.puts, (config_received_eq l M b k memory bank).2]
    exact hlike.puts address [value]
  | _ => exact hlike

end Received

/-- An interrupt at which the PC makes a request comes to its end, does what the request says, and
leaves the stack as it was. -/
theorem Listing.attends (l : Listing) {q : Transfer} {M : Machine l.target} {a x y : Byte}
    {z n : Bool} {st : List Byte} (hM : Ready M) (hasked : q.Asked M.pc) (hallows : l.Allows M q) :
    wp (irq l.handlers) (fun o t => (∃ r, o = .returned (some r)) ∧ l.Did q M t.bus ∧
      t.stack = st) ⟨a, x, y, z, n, st, M⟩ := by
  obtain ⟨k, hpc, hhanded⟩ := hasked
  apply wp_irq q.command hM.visible hM.input hpc
  intro a x z n
  apply wp_mono (l.handles q (ready_received hM) hhanded (allows_received hallows))
  rintro o t ⟨hr, hdid, hst⟩
  have hputs : (l.puts M q).Like l.scratch (l.puts (M.received q.command k) q) :=
    puts_received q
  refine ⟨hr, ⟨hdid.config, hdid.input, ?_, ?_, ?_⟩, hst⟩
  · intro c hc
    exact (hdid.zp c hc).trans (hputs.zp c hc)
  · intro b a ha
    exact (hdid.ram b a ha).trans (hputs.ram b a ha)
  · intro hq
    exact (hdid.io hq).trans hputs.io

end Xlink.Server
