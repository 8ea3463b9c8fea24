import Xlink.Server.Store
import Xlink.Server.Vector
import Xlink.Tools.Loader

/-!
# The bootstrap (`bootstrap.asm`)

What a machine without a server is given to type in. It sets up the port, acknowledges whatever the
PC sends until there is a load, puts the payload into memory as the processor sees it, and leaves
for BASIC with the end of the payload as the end of the program text. A server that `make-server`
has put behind a loader comes to a machine this way.

`bootstrap_takes_load` covers any commands before the load and any payload that stays clear of the
listing's own page and work cells; `bootstrap_starts_server` composes it with `make-server` and the
loader, up to the jump to the relocated server. What BASIC does in between is taken for the `SYS` of
the program's line.
-/

namespace Xlink.Server

open Word Mos6502 Port
open Client (MachineType)

/-! ## The listing -/

namespace Bootstrap

variable {T : Target}

/-- From `main` to `sei`. -/
def start : Code T Unit := do
  ldaImm 0x00#8
  sta (.abs 0xdd03#16)
  lda (.abs 0xdd02#16)
  oraImm 0x04#8
  sta (.abs 0xdd02#16)
  -- clear stale handshake
  lda (.abs 0xdd0d#16)

/-- A round of the loop in `main`: the byte that has been read, and whether the loop goes on. -/
def command : Code T (Byte × Bool) := do
  jsr wait
  ldy (.abs 0xdd01#16)
  jsr ack
  let v ← observe (·.y)
  cpyImm Command.load
  ifNe (pure (v, true)) (pure (v, false))

/-- A round of the loop in `load`. -/
def copy : Code T (Byte × Bool) := do
  jsr wait
  lda (.abs 0xdd01#16)
  sta (.indY T.start)
  let v ← observe (·.a)
  jsr ack
  let again ← next
  pure (v, again)

/-- From `done` in `load`. -/
def done : Code T Unit := do
  lda (.zp T.stop)
  sta (.abs T.bend)
  lda (.zp (T.stop + 1#8))
  sta (.abs (T.bend + 1#16))
  ldaImm 0x1b#8
  sta (.abs 0xd011#16)

def load : Code T (List Byte) := do
  ldaImm 0x0b#8
  sta (.abs 0xd011#16)
  jsr readHeader
  ldyImm 0x00#8
  let payload ← loop copy rounds
  done
  pure payload

/-- From `loop` to `jmp booted`, with a number of rounds for the loop: the commands that have been
read, and the payload. -/
def main (rounds : Nat) : Code T (List Byte × List Byte) := do
  let commands ← loop command rounds
  let payload ← jsr load
  pure (commands, payload)

end Bootstrap

/-- The machines the listing is assembled for. -/
inductive Site where
  | c64 (rom : Addr → Byte) (chips : List Access → Addr → Byte)
  | c128 (rom : Byte → Addr → Byte) (chips : List Access → Addr → Byte)

namespace Site

def target : Site → Target
  | .c64 rom chips => Server.c64 rom chips
  | .c128 rom chips => Server.c128 rom chips

def type : Site → MachineType
  | .c64 .. => .c64
  | .c128 .. => .c128

/-- Where the listing is, which is shorter than a page. -/
def origin : Site → Addr
  | .c64 .. => 0x3000#16
  | .c128 .. => 0x0d00#16

/-- An address is neither one of the listing's cells nor in the listing itself. -/
def Spared (s : Site) (a : Addr) : Prop :=
  (∀ d ∈ s.target.work, a ≠ zeroPage d) ∧
    ¬(s.origin.toNat ≤ a.toNat ∧ a.toNat < s.origin.toNat + 0x0100)

end Site

/-! ## Memory as the processor sees it -/

/-- What is read at each address. -/
def Machine.seen {T : Target} (M : Machine T) (a : Addr) : Byte := (M.read a).1

/-- There is a byte of memory at an address: a cell of page zero or RAM, for reading and for
writing. -/
structure Target.Memory (T : Target) (config : Byte) (a : Addr) : Prop where
  same : T.reads config a = T.writes config a
  place : T.writes config a = .zp (lo a) ∧ hi a = 0x00#8 ∨ ∃ b, T.writes config a = .ram b a

section Memory

variable {T : Target} {M N : Machine T} {a c : Addr} {v : Byte} {bs : List Byte}

theorem Target.Memory.clear (h : T.Memory M.config a) {work : List Byte}
    (hwork : ∀ c ∈ work, a ≠ zeroPage c) : (T.writes M.config a).Clear work := by
  obtain ⟨hplace, hpage⟩ | ⟨b, hplace⟩ := h.place
  · rw [hplace]
    intro hmem
    refine hwork _ hmem ?_
    rw [zeroPage, ← hpage, word_hi_lo]
  · rw [hplace]
    trivial

/-- Two machines with the same memory. -/
theorem seen_congr (hM : T.Memory M.config a) (hconfig : N.config = M.config)
    (hzp : a = zeroPage (lo a) → N.zp (lo a) = M.zp (lo a))
    (hram : ∀ b, N.ram b a = M.ram b a) : N.seen a = M.seen a := by
  rw [Machine.seen, Machine.seen, Machine.read, Machine.read, hconfig, hM.same]
  obtain ⟨hplace, hpage⟩ | ⟨b, hplace⟩ := hM.place
  · rw [hplace]
    refine hzp ?_
    rw [zeroPage, ← hpage, word_hi_lo]
  · rw [hplace]
    exact hram b

theorem Machine.Same.seen (h : M.Same N) (hM : T.Memory M.config a) : N.seen a = M.seen a :=
  seen_congr hM h.config (fun _ => congrFun h.zp _) fun b => congrFun (congrFun h.ram b) a

theorem seen_log (hc : T.Memory M.config c) (log : List Access) :
    ({ M with log := log } : Machine T).seen c = M.seen c :=
  Machine.Same.seen ⟨rfl, rfl, rfl, rfl⟩ hc

/-- A byte is put into memory. -/
theorem seen_put (ha : T.Memory M.config a) (hc : T.Memory M.config c) :
    (M.put a v).seen c = Function.update M.seen a v c := by
  by_cases hca : c = a
  · subst hca
    rw [Function.update_self, Machine.seen, Machine.read, Machine.put]
    obtain ⟨hplace, -⟩ | ⟨b, hplace⟩ := ha.place
    · simp only [hplace, Machine.setZp, ha.same, Function.update_self]
    · simp only [hplace, Machine.setRam, ha.same, Function.update_self]
  · rw [Function.update_of_ne hca]
    obtain ⟨hplace, hpage⟩ | ⟨b, hplace⟩ := ha.place
    · rw [Machine.put, hplace]
      refine seen_congr hc rfl (fun hzero => zp_setZp_of_ne fun hlo => hca ?_) fun _ => rfl
      rw [hzero, hlo, zeroPage, ← hpage, word_hi_lo]
    · rw [Machine.put, hplace]
      exact seen_congr hc rfl (fun _ => rfl) fun _ => setRam_of_ne fun h => hca h.2

theorem config_put_memory (ha : T.Memory M.config a) : (M.put a v).config = M.config := by
  obtain ⟨hplace, -⟩ | ⟨b, hplace⟩ := ha.place
  · rw [Machine.put, hplace]
    rfl
  · rw [Machine.put, hplace]
    rfl

/-- Bytes are put into memory one after the other. -/
theorem seen_puts (hplaces : ∀ i < bs.length, T.Memory M.config (a + BitVec.ofNat 16 i))
    (hc : T.Memory M.config c) : (M.puts M.config a bs).config = M.config ∧
      (M.puts M.config a bs).seen c = Store.write M.seen a bs c := by
  induction bs generalizing M a with
  | nil => exact ⟨rfl, rfl⟩
  | cons b bs ih =>
    have hfirst : T.Memory M.config a := by
      have := hplaces 0 (Nat.succ_pos _)
      rwa [BitVec.add_zero] at this
    have hconfig : (M.put a b).config = M.config := config_put_memory hfirst
    have hrest : ∀ i < bs.length, T.Memory (M.put a b).config (a + 1#16 + BitVec.ofNat 16 i) := by
      intro i hi
      rw [hconfig, ← add_ofNat_succ]
      exact hplaces (i + 1) (Nat.succ_lt_succ hi)
    have hputs := ih hrest (by rwa [hconfig])
    rw [hconfig] at hputs
    exact ⟨hputs.1, hputs.2.trans (Store.write_congr (seen_put hfirst hc) _ bs)⟩

/-- Whatever is read, memory stays as it is. -/
theorem read_same (M : Machine T) (a : Addr) : M.Same (M.read a).2 := by
  unfold Machine.read
  split
  case h_4 =>
    unfold Machine.readIo
    split
    · split <;> exact ⟨rfl, rfl, rfl, rfl⟩
    · split
      · exact ⟨rfl, rfl, rfl, rfl⟩
      · split
        · exact ⟨rfl, rfl, rfl, rfl⟩
        · split <;> exact ⟨rfl, rfl, rfl, rfl⟩
  all_goals exact ⟨rfl, rfl, rfl, rfl⟩

end Memory

/-! ## The rules of the listing -/

namespace Bootstrap

variable {T : Target} {M : Machine T} {a x y : Byte} {z n : Bool} {st : List Byte} {k : Pc}

/-- The port is input, and what the PC has done before is forgotten. -/
theorem wp_start {Q : Unit → Cpu (Machine T) → Prop} (hvis : T.Visible M.config)
    (h : ∀ a z n (N : Machine T), N.config = M.config → N.zp = M.zp → N.ram = M.ram →
      N.dd03 = 0x00#8 → Q () ⟨a, x, y, z, n, st, N⟩) :
    wp start Q ⟨a, x, y, z, n, st, M⟩ := by
  simp only [start, wp_bind, wp_ldaImm, wp_sta, locate_abs, write_dd03 hvis, Option.some.injEq,
    exists_eq_left', wp_lda, fetch_abs, wp_oraImm]
  let N : Machine T := { M with dd03 := 0x00#8, log := M.log ++ [.write 0xdd03#16 0x00#8] }
  have hread : N.Same (N.read 0xdd02#16).2 := read_same N _
  change ∃ _, Bus.write 0xdd02#16 _ (N.read 0xdd02#16).2 = _ ∧ _
  generalize (N.read 0xdd02#16).2 = O at *
  have hvisO : T.Visible O.config := by
    rw [hread.config]
    exact hvis
  refine ⟨_, write_dd02 hvisO _, ?_⟩
  generalize hP : ({ O with log := O.log ++ [.write 0xdd02#16 _] } : Machine T) = P
  have hwritten : O.Same P := by
    subst hP
    exact ⟨rfl, rfl, rfl, rfl⟩
  have hstarted := (hread.trans hwritten).trans (read_same P 0xdd0d#16)
  exact h _ _ _ _ hstarted.config hstarted.zp hstarted.ram hstarted.dd03

/-- A byte that is read as a command is acknowledged. -/
theorem wp_command {b : Byte} {Q : Byte × Bool → Cpu (Machine T) → Prop}
    (hvis : T.Visible M.config) (hin : M.dd03 = 0x00#8) (hpc : M.pc = .sending [b] k)
    (h : ∀ a z n, Q (b, decide (b ≠ Command.load)) ⟨a, x, b, z, n, st, M.received b k⟩) :
    wp command Q ⟨a, x, y, z, n, st, M⟩ := by
  simp only [command, wp_bind, wp_jsr]
  refine wp_wait hvis hpc fun a z n => ?_
  simp only [wp_ldy, fetch_abs, read_dd01 (M := M.strobed _ _) hvis,
    portB_input (M := M.strobed _ _) hin]
  refine wp_ack (M := M.strobed _ _) hvis rfl fun a z n => ?_
  have hlines : (M.strobed (some b) (.ack fun _ => .sending [] k)).lines = b := rfl
  simp only [wp_observe, wp_cpyImm, wp_ifNe, wp_pure, hlines]
  split
  next hz =>
    have hne : b ≠ Command.load := by simpa using hz
    have hgoes := h a (b == Command.load) (b - Command.load).msb
    rwa [decide_eq_true hne] at hgoes
  next hz =>
    obtain rfl : b = Command.load := by simpa using hz
    exact h a _ _

theorem sending_append (bs cs : List Byte) (k : Pc) :
    Pc.sending (bs ++ cs) k = .sending bs (.sending cs k) := by
  induction bs with
  | nil => rfl
  | cons b bs ih => rw [List.cons_append, Pc.sending, Pc.sending, ih]

/-- Commands are acknowledged until there is a load. -/
theorem wp_commands {bs : List Byte} {r : Nat} {Q : List Byte → Cpu (Machine T) → Prop}
    (hbs : ∀ b ∈ bs, b ≠ Command.load) (hr : bs.length < r) (hvis : T.Visible M.config)
    (hin : M.dd03 = 0x00#8) (hpc : M.pc = .sending (bs ++ [Command.load]) k)
    (h : ∀ a y z n N, M.Same N → N.pc = k →
      Q (bs ++ [Command.load]) ⟨a, x, y, z, n, st, N⟩) :
    wp (loop command r) Q ⟨a, x, y, z, n, st, M⟩ := by
  induction bs generalizing M r Q a y z n with
  | nil =>
    cases r with
    | zero => cases hr
    | succ r =>
      simp only [loop, wp_bind]
      refine wp_command hvis hin hpc fun a z n => ?_
      rw [decide_eq_false (by simp), if_neg (by simp), wp_pure]
      exact h _ _ _ _ _ ⟨rfl, rfl, rfl, rfl⟩ rfl
  | cons b bs ih =>
    cases r with
    | zero => cases hr
    | succ r =>
      have hb : b ≠ Command.load := hbs b List.mem_cons_self
      simp only [loop, wp_bind]
      refine wp_command hvis hin (k := .sending (bs ++ [Command.load]) k) hpc fun a z n => ?_
      simp only [decide_eq_true hb, ↓reduceIte, wp_bind]
      refine ih (M := M.received b _) (fun c hc => hbs c (List.mem_cons_of_mem _ hc))
        (Nat.lt_of_succ_lt_succ hr) hvis hin rfl fun a y z n N hsame hk => ?_
      rw [wp_pure]
      exact h a y z n N ⟨hsame.config, hsame.zp, hsame.ram, hsame.dd03⟩ hk

/-- The payload in memory. -/
theorem seen_loaded {bs : List Byte} {c : Addr}
    (hplaces : ∀ i < bs.length, T.Memory M.config (M.word T.start + BitVec.ofNat 16 i))
    (hc : T.Memory M.config c) (hwork : ∀ d ∈ T.work, c ≠ zeroPage d) (hne : bs ≠ []) :
    (M.loaded M.config M.config bs k).seen c = Store.write M.seen (M.word T.start) bs c := by
  obtain ⟨h₀, h₁, -⟩ := mem_work (T := T)
  have hlike : (M.puts M.config (M.word T.start) bs).Like ⟨T.work, fun _ _ => False⟩
      (M.loaded M.config M.config bs k) := like_loaded h₀ h₁ bs
  obtain ⟨hconfig, hseen⟩ := seen_puts hplaces hc
  rw [← hseen]
  refine seen_congr (by rwa [hconfig]) ?_ (fun hzero => ?_) fun b => hlike.ram b c id
  · rw [hconfig, config_loaded hne]
  · exact hlike.zp _ fun hmem => hwork _ hmem hzero

/-- The end address of the transfer becomes the end of the program text. -/
theorem wp_done {Q : Unit → Cpu (Machine T) → Prop} (hvis : T.Visible M.config)
    (hlow : T.Memory M.config T.bend) (hhigh : T.Memory M.config (T.bend + 1#16))
    (h : ∀ a z n (N : Machine T), N.pc = M.pc → N.config = M.config →
      (∀ c, T.Memory M.config c → N.seen c =
        Store.write M.seen T.bend [lo (M.word T.stop), hi (M.word T.stop)] c) →
      Q () ⟨a, x, y, z, n, st, N⟩) :
    wp done Q ⟨a, x, y, z, n, st, M⟩ := by
  obtain ⟨-, -, hc₂, hc₃, -⟩ := mem_cells (T := T)
  obtain ⟨-, -, -, h₃, -⟩ := mem_work (T := T)
  obtain ⟨hclear, hclear'⟩ := T.bend_clear M.config
  simp only [done, wp_bind, wp_lda, fetch_zp, read_cell hc₂, wp_sta, locate_abs]
  refine ⟨_, Machine.write_eq_put hclear _, ?_⟩
  have hconfig := Machine.config_put (M := M) (M.zp T.stop) hclear
  have hcell : (M.put T.bend (M.zp T.stop)).zp (T.stop + 1#8) = M.zp (T.stop + 1#8) :=
    Machine.zp_put _ hclear h₃
  have hput : ∀ c, T.Memory M.config c → (M.put T.bend (M.zp T.stop)).seen c =
      Function.update M.seen T.bend (M.zp T.stop) c := fun c hc => seen_put hlow hc
  have hpc : (M.put T.bend (M.zp T.stop)).pc = M.pc := Machine.pc_put ..
  generalize M.put T.bend (M.zp T.stop) = N at *
  rw [← hconfig] at hclear' hhigh hvis
  rw [read_cell hc₃, hcell]
  refine ⟨_, Machine.write_eq_put hclear' _, ?_⟩
  have hconfig' := Machine.config_put (M := N) (M.zp (T.stop + 1#8)) hclear'
  rw [← hconfig'] at hvis
  rw [wp_ldaImm, wp_sta, locate_abs]
  refine ⟨_, write_d011 hvis _, ?_⟩
  refine h _ _ _ _ ((Machine.pc_put ..).trans hpc) (hconfig'.trans hconfig) fun c hc => ?_
  have hmemory : T.Memory N.config c := by rwa [hconfig]
  refine (seen_log (by rwa [hconfig']) _).trans ?_
  rw [seen_put hhigh hmemory, Machine.word, lo_word, hi_word]
  exact Store.write_congr (hput c hc) (T.bend + 1#16) [M.zp (T.stop + 1#8)]

/-- The payload is put into memory, and the end of the program text behind it. -/
theorem wp_load {memory bank : Byte} {address stop : Addr} {data : List Byte}
    (hstop : stop = address + BitVec.ofNat 16 data.length) (hvis : T.Visible M.config)
    (hin : M.dd03 = 0x00#8) (hne : data ≠ []) (hmax : data.length ≤ 0x10000)
    (hplaces : ∀ i < data.length, T.Memory M.config (address + BitVec.ofNat 16 i) ∧
      ∀ d ∈ T.work, address + BitVec.ofNat 16 i ≠ zeroPage d)
    (hbend : T.Memory M.config T.bend ∧ T.Memory M.config (T.bend + 1#16))
    (hpc : M.pc = .sending [memory, bank, lo address, hi address, lo stop, hi stop]
      (.sending data k)) :
    wp load (fun payload u => payload = data ∧ u.bus.pc = k ∧ u.bus.config = M.config ∧
      ∀ c, T.Memory M.config c → (∀ d ∈ T.work, c ≠ zeroPage d) →
        u.bus.seen c = Store.write (Store.write M.seen address data) T.bend [lo stop, hi stop] c)
      ⟨a, x, y, z, n, st, M⟩ := by
  obtain ⟨-, -, h₂, h₃, -⟩ := mem_work (T := T)
  obtain ⟨-, hne₂, hne₃, hne₂', hne₃', -⟩ := T.work_ne
  simp only [load, wp_bind, wp_jsr, wp_ldaImm, wp_sta, locate_abs, write_d011 hvis,
    Option.some.injEq, exists_eq_left']
  refine wp_readHeader (M := { M with log := _ }) hvis hin hpc fun a x z n => ?_
  rw [wp_ldyImm]
  generalize hM' : ({ M with log := _ } : Machine T) = M'
  have hlog : M.Same M' := by
    subst hM'
    exact ⟨rfl, rfl, rfl, rfl⟩
  have hheader := header_headed M' memory bank address stop (.sending data k)
  have hconfig : (M'.headed memory bank address stop (.sending data k)).config = M.config :=
    (config_headed ..).trans hlog.config
  have hdd03 : (M'.headed memory bank address stop (.sending data k)).dd03 = 0x00#8 :=
    (dd03_headed ..).trans (hlog.dd03.trans hin)
  have hseen : ∀ c, T.Memory M.config c → (∀ d ∈ T.work, c ≠ zeroPage d) →
      (M'.headed memory bank address stop (.sending data k)).seen c = M.seen c := by
    intro c hc hwork
    refine seen_congr hc hconfig (fun hzero => ?_) fun b => ?_
    · rw [zp_headed _ _ _ _ _ _ fun hmem => hwork _ hmem hzero, hlog.zp]
    · rw [ram_headed, hlog.ram]
  have hpc' : (M'.headed memory bank address stop (.sending data k)).pc = .sending data k :=
    pc_headed ..
  generalize M'.headed memory bank address stop (.sending data k) = H at *
  obtain rfl : H.word T.start = address := congrArg Header.start hheader
  obtain rfl : H.word T.stop = stop := congrArg Header.stop hheader
  rw [← hconfig] at hvis hplaces hbend
  have hclear : ∀ i < data.length, T.Clear H.config (H.word T.start + BitVec.ofNat 16 i) :=
    fun i hi => (hplaces i hi).1.clear (hplaces i hi).2
  refine LoadRound.loop (loadRound_near hvis) hmax hne hmax ⟨rfl, hdd03⟩ hclear hstop hpc'
    fun a x z n => ?_
  have hconfig' : (H.loaded H.config H.config data k).config = H.config := config_loaded hne k H
  have hend : (H.loaded H.config H.config data k).word T.stop = H.word T.stop := by
    rw [Machine.word, Machine.word, zp_loaded hclear h₂ hne₂ hne₂', zp_loaded hclear h₃ hne₃ hne₃']
  rw [← hconfig'] at hvis hbend
  refine wp_done hvis hbend.1 hbend.2 fun a z n N hk hN hfinal => ?_
  rw [wp_pure]
  refine ⟨rfl, hk.trans (pc_loaded data k H hpc'), hN.trans (hconfig'.trans hconfig),
    fun c hc hwork => ?_⟩
  have hc' : T.Memory H.config c := by rwa [hconfig]
  rw [hfinal c (by rwa [hconfig']), hend]
  refine Store.write_congr ((seen_loaded (fun i hi => (hplaces i hi).1) hc' hwork hne).trans ?_) _ _
  exact Store.write_congr (hseen c hc hwork) _ _

/-- `bs` are the commands before a load, and the rest of its header. -/
theorem wp_main {memory bank : Byte} {address : Addr} {bs data : List Byte} {rounds : Nat}
    (hbs : ∀ b ∈ bs, b ≠ Command.load) (hrounds : bs.length < rounds)
    (hvis : T.Visible M.config) (hin : M.dd03 = 0x00#8) (hne : data ≠ [])
    (hmax : data.length ≤ 0x10000)
    (hplaces : ∀ i < data.length, T.Memory M.config (address + BitVec.ofNat 16 i) ∧
      ∀ d ∈ T.work, address + BitVec.ofNat 16 i ≠ zeroPage d)
    (hbend : T.Memory M.config T.bend ∧ T.Memory M.config (T.bend + 1#16))
    (hpc : M.pc = .sending bs (.sending (header Command.load memory bank address data.length)
      (.sending data k))) :
    wp (main rounds) (fun r u => r = (bs ++ [Command.load], data) ∧ u.bus.pc = k ∧
      ∀ c, T.Memory M.config c → (∀ d ∈ T.work, c ≠ zeroPage d) → u.bus.seen c =
        Store.write (Store.write M.seen address data) T.bend
          [lo (address + BitVec.ofNat 16 data.length),
            hi (address + BitVec.ofNat 16 data.length)] c)
      ⟨a, x, y, z, n, st, M⟩ := by
  have hsending : M.pc = .sending (bs ++ [Command.load]) (.sending [memory, bank, lo address,
      hi address, lo (address + BitVec.ofNat 16 data.length),
      hi (address + BitVec.ofNat 16 data.length)] (.sending data k)) := by
    rw [hpc, sending_append]
    rfl
  simp only [main, wp_bind, wp_jsr]
  refine wp_commands hbs hrounds hvis hin hsending fun a y z n N hsame hk => ?_
  rw [← hsame.config] at hvis hplaces hbend
  refine wp_mono (wp_load rfl hvis (hsame.dd03.trans hin) hne hmax hplaces hbend hk) ?_
  rintro _ u ⟨rfl, hk, -, hseen⟩
  rw [wp_pure]
  refine ⟨rfl, hk, fun c hc hwork => ?_⟩
  rw [hseen c (by rwa [hsame.config]) hwork]
  exact Store.write_congr (Store.write_congr (hsame.seen hc) _ _) _ _

end Bootstrap

/-! ## The two machines -/

namespace Site

/-- Below `$4000` there is memory, whatever the configuration. -/
theorem memory (s : Site) (config : Byte) {a : Addr} (hlow : 0x0100 ≤ a.toNat)
    (hhigh : a.toNat < 0x4000) : s.target.Memory config a := by
  cases s with
  | c64 rom chips =>
    have hram : c64Reads config a = .ram 0x00#8 a := by
      rw [c64Reads_above config hlow, if_pos (by omega)]
    exact ⟨hram.trans (c64Writes_of_ram hram).symm, .inr ⟨_, c64Writes_of_ram hram⟩⟩
  | c128 rom chips =>
    have hpage : hi a ≠ 0x00#8 := hi_ne_zero hlow
    have hmmu : a ≠ 0xff00#16 := by
      rintro rfl
      exact absurd hhigh (by decide)
    have hram : ∃ b, c128Reads config a = .ram b a := by
      rw [c128Reads, if_neg hmmu, if_neg hpage, if_pos hhigh, c128Ram]
      split
      · exact ⟨_, rfl⟩
      · exact ⟨_, rfl⟩
    obtain ⟨b, hram⟩ := hram
    exact ⟨hram.trans (c128Writes_of_ram hram).symm, .inr ⟨b, c128Writes_of_ram hram⟩⟩

theorem memory_bend (s : Site) (config : Byte) : s.target.Memory config s.target.bend ∧
    s.target.Memory config (s.target.bend + 1#16) := by
  cases s with
  | c64 rom chips =>
    have hzero : ∀ c : Byte, c ≠ 0x00#8 ∧ c ≠ 0x01#8 →
        (Server.c64 rom chips).Memory config (zeroPage c) := by
      intro c hc
      have hread := c64Reads_zeroPage config hc
      have hwrite : c64Writes config (zeroPage c) = .zp c := by rw [c64Writes, hread]
      refine ⟨hread.trans hwrite.symm, .inl ⟨?_, hi_zeroPage c⟩⟩
      rw [lo_zeroPage]
      exact hwrite
    have hhigh := hzero 0x2e#8 (by decide)
    rw [show zeroPage 0x2e#8 = 0x002d#16 + 1#16 by decide] at hhigh
    exact ⟨hzero 0x2d#8 (by decide), hhigh⟩
  | c128 rom chips =>
    exact ⟨memory (.c128 rom chips) config (a := 0x1210#16) (by decide) (by decide),
      memory (.c128 rom chips) config (a := 0x1211#16) (by decide) (by decide)⟩

end Site

/-- The PC begins. -/
def meets {T : Target} (t : Cpu (Machine T)) (pc : Pc) : Cpu (Machine T) :=
  { t with bus := { t.bus with pc := pc } }

/-- The whole listing: the PC begins when the port is set up. -/
theorem wp_bootstrap (s : Site) {t : Cpu (Machine s.target)} {memory bank : Byte}
    {address : Addr} {bs data : List Byte} {k : Pc} {rounds : Nat}
    (hvis : s.target.Visible t.bus.config) (hbs : ∀ b ∈ bs, b ≠ Command.load)
    (hrounds : bs.length < rounds) (hne : data ≠ []) (hmax : data.length ≤ 0x10000)
    (hplaces : ∀ i < data.length, s.target.Memory t.bus.config (address + BitVec.ofNat 16 i) ∧
      s.Spared (address + BitVec.ofNat 16 i)) :
    wp Bootstrap.start (fun _ u => wp (Bootstrap.main rounds) (fun r v =>
        r = (bs ++ [Command.load], data) ∧ v.bus.pc = k ∧
        ∀ c, s.target.Memory t.bus.config c → (∀ d ∈ s.target.work, c ≠ zeroPage d) →
          v.bus.seen c = Store.write (Store.write t.bus.seen address data) s.target.bend
            [lo (address + BitVec.ofNat 16 data.length),
              hi (address + BitVec.ofNat 16 data.length)] c)
      (meets u (.sending bs (.sending (header Command.load memory bank address data.length)
        (.sending data k))))) t := by
  obtain ⟨a, x, y, z, n, st, M⟩ := t
  refine Bootstrap.wp_start hvis fun a z n N hconfig hzp hram hin => ?_
  have hseen : ∀ pc c, s.target.Memory M.config c → Machine.seen { N with pc := pc } c = M.seen c :=
    fun pc c hc => seen_congr hc hconfig (fun _ => congrFun hzp _) fun b => by rw [hram]
  rw [← hconfig] at hvis hplaces
  refine wp_mono (Bootstrap.wp_main (M := { N with pc := _ }) hbs hrounds hvis hin hne hmax
    (fun i hi => ⟨(hplaces i hi).1, (hplaces i hi).2.1⟩) (s.memory_bend _) rfl) ?_
  rintro _ v ⟨rfl, hk, hmemory⟩
  refine ⟨rfl, hk, fun c hc hwork => ?_⟩
  rw [hmemory c (by rwa [hconfig]) hwork]
  exact Store.write_congr (Store.write_congr (hseen _ c hc) _ _) _ _

/-- The C64 with empty ROMs and chips, and a PC that does nothing. -/
def bareSite : Site := .c64 (fun _ => 0x00#8) fun _ _ => 0x00#8

def bareMachine : Cpu (Machine bareSite.target) :=
  ⟨0x00#8, 0x00#8, 0x00#8, false, false, [], {
    config := 0x37#8
    zp := fun _ => 0x00#8
    ram := fun _ _ => 0x00#8
    log := []
    pc := .done []
    lines := 0xff#8
    dd00 := 0x00#8
    dd01 := 0x00#8
    dd03 := 0x00#8 }⟩

/-- Calls that do nothing but look whether there is a server. -/
theorem session_looks {calls : List Call} (hcalls : ∀ c ∈ calls, c = .ready ∨ c = .ping)
    (rest : List Call) : ∃ n ≤ calls.length, Pc.session (calls ++ rest) [] =
      .sending (List.replicate n Command.ping) (Pc.session rest []) := by
  induction calls with
  | nil => exact ⟨0, Nat.le_refl 0, rfl⟩
  | cons c calls ih =>
    obtain ⟨n, hn, hsession⟩ := ih fun c hc => hcalls c (List.mem_cons_of_mem _ hc)
    obtain rfl | rfl := hcalls c List.mem_cons_self
    · exact ⟨n, Nat.le_succ_of_le hn, hsession⟩
    · refine ⟨n + 1, Nat.succ_le_succ hn, ?_⟩
      rw [List.cons_append, session_ping, hsession]
      rfl

/-- The program of `make-server` fits below `$4000`, clear of the bootstrap and of page zero. -/
theorem basic_below (s : Site) {n i : Nat}
    (hroom : (Loader.code s.type).toNat + n ≤ 0x4000 - n) (hi : i < 79 + n) :
    0x0100 ≤ (Loader.basic s.type + BitVec.ofNat 16 i).toNat ∧
      (Loader.basic s.type + BitVec.ofNat 16 i).toNat < 0x4000 ∧
      s.Spared (Loader.basic s.type + BitVec.ofNat 16 i) ∧
      ∀ j < 2, Loader.basic s.type + BitVec.ofNat 16 i ≠ s.target.bend + BitVec.ofNat 16 j := by
  have hsites : (Loader.basic s.type).toNat = 0x0801 ∧ s.target.bend.toNat = 0x2d ∧
        s.origin.toNat = 0x3000 ∨
      (Loader.basic s.type).toNat = 0x1c01 ∧ s.target.bend.toNat = 0x1210 ∧
        s.origin.toNat = 0x0d00 := by
    cases s
    · exact .inl ⟨rfl, rfl, rfl⟩
    · exact .inr ⟨rfl, rfl, rfl⟩
  have hcode : (Loader.basic s.type).toNat + 79 = (Loader.code s.type).toNat := by
    cases s.type <;> rfl
  have hplace : (Loader.basic s.type + BitVec.ofNat 16 i).toNat =
      (Loader.basic s.type).toNat + i := by
    rw [BitVec.toNat_add, BitVec.toNat_ofNat]
    omega
  have hlow : 0x0100 ≤ (Loader.basic s.type + BitVec.ofNat 16 i).toNat := by omega
  refine ⟨hlow, by omega, ⟨fun d _ => Loader.Ram.ne_zeroPage hlow d, by omega⟩, fun j hj h => ?_⟩
  have hbend := congrArg BitVec.toNat h
  rw [BitVec.toNat_add s.target.bend, BitVec.toNat_ofNat] at hbend
  omega

/-- What has been loaded behind the line and the loader is where the loader looks for it. -/
theorem read_image (s : Site) {n : Nat} (hroom : (Loader.code s.type).toNat + n ≤ 0x4000 - n)
    {front image : List Byte} (hfront : front.length = 79) (himage : image.length = n)
    {m m' : Addr → Byte} {v w : Byte} (h : ∀ i < 79 + n, m' (Loader.basic s.type +
      BitVec.ofNat 16 i) = Store.write (Store.write m (Loader.basic s.type) (front ++ image))
        s.target.bend [v, w] (Loader.basic s.type + BitVec.ofNat 16 i)) :
    Store.read m' (Loader.code s.type) n = image := by
  have hcode : Loader.code s.type = Loader.basic s.type + BitVec.ofNat 16 front.length := by
    rw [hfront]
    cases s.type <;> rfl
  have hlength : (front ++ image).length ≤ 0x10000 := by
    rw [List.length_append]
    omega
  have hwritten : Store.read (Store.write m (Loader.basic s.type) (front ++ image))
      (Loader.basic s.type + BitVec.ofNat 16 front.length) image.length = image :=
    Store.read_write_append hlength m _
  rw [himage] at hwritten
  rw [hcode]
  refine Eq.trans (Store.read_congr fun i hi => ?_) hwritten
  rw [BitVec.add_assoc, ← BitVec.ofNat_add, hfront]
  obtain ⟨-, -, -, hbend⟩ := basic_below s hroom (i := 79 + i) (by omega)
  rw [h (79 + i) (by omega)]
  refine Store.write_of_ne (fun j hj => ?_) _
  exact hbend j hj

/-- **A server comes to a machine without one.** The PC loads the program that `make-server` emits
through the bootstrap; once BASIC starts it, the relocated server is at the end of the first 16K,
and is jumped to. -/
theorem bootstrap_starts_server (s : Site) {n : Nat} (hn : 1 ≤ n)
    (hroom : (Loader.code s.type).toNat + n ≤ 0x4000 - n) {base low high : List Byte}
    {e : MakeServer.Emitted} {image : List Byte} (hmain : MakeServer.main base low high = .ok e)
    (hsize : base.length = n + 2)
    (himage : MakeServer.xlinkServer e (0x4000#16 - BitVec.ofNat 16 n) = .ok image)
    {t : Cpu (Machine s.target)} (hvis : s.target.Visible t.bus.config) {calls rest : List Call}
    (hcalls : ∀ c ∈ calls, c = .ready ∨ c = .ping) (memory bank : Byte) {rounds copies : Nat}
    (hrounds : calls.length + 1 < rounds) (hcopies : n ≤ copies) :
    ∃ file, Loader.xlinkServerBasic s.type e (Loader.loaderFile s.type n) = .ok file ∧
      wp Bootstrap.start (fun _ u => wp (Bootstrap.main rounds) (fun _ v =>
          v.bus.pc = Pc.session rest [] ∧
          ∀ a x y z neg st, wp (Loader.main (BitVec.ofNat 16 n) (Loader.code s.type) (Loader.dest n)
            copies) (fun r w => r = (n, 0x4000#16 - BitVec.ofNat 16 n) ∧
              Store.read w.bus (Loader.dest n) n = image.drop 2) ⟨a, x, y, z, neg, st, v.bus.seen⟩)
        (meets u (Pc.session (calls ++ .load memory bank (Loader.basic s.type) (file.drop 2) ::
          rest) []))) t := by
  obtain ⟨hesize, hecode⟩ := Loader.main_size hmain
  have himagelength : (image.drop 2).length = n := by
    rw [List.length_drop, Loader.length_xlinkServer himage, hecode, hsize]
    omega
  generalize hfront : Loader.line s.type ++ Loader.mainBytes (BitVec.ofNat 16 n)
    (Loader.code s.type) (Loader.dest n) = front
  have hfrontlength : front.length = 79 := by
    subst hfront
    cases s.type <;> rfl
  have hlength : (front ++ image.drop 2).length = 79 + n := by
    rw [List.length_append, hfrontlength, himagelength]
  have hbelow : ∀ i < 79 + n, _ := fun i hi => basic_below s hroom hi
  refine ⟨_, Loader.xlinkServerBasic_eq (hesize.trans hsize) himage, ?_⟩
  rw [Loader.drop_header, hfront]
  have hne : front ++ image.drop 2 ≠ [] := by
    rw [ne_eq, ← List.length_eq_zero_iff, hlength]
    omega
  obtain ⟨looks, hlooks, hsession⟩ := session_looks hcalls
    (.load memory bank (Loader.basic s.type) (front ++ image.drop 2) :: rest)
  rw [hsession, session_load _ _ _ _ _ hne, ← Bootstrap.sending_append]
  have hpings : ∀ b ∈ List.replicate looks Command.ping ++ [Command.ping], b ≠ Command.load := by
    intro b hb
    rw [← List.replicate_succ'] at hb
    rw [List.eq_of_mem_replicate hb]
    decide
  refine wp_mono (wp_bootstrap s hvis hpings (by simpa using by omega) hne (by omega)
    fun i hi => ?_) fun _ u hu => wp_mono hu ?_
  · obtain ⟨hlow, hhigh, hspared, -⟩ := hbelow i (by omega)
    exact ⟨s.memory _ hlow hhigh, hspared⟩
  rintro _ v ⟨-, hk, hseen⟩
  refine ⟨hk, fun a x y z neg st => ?_⟩
  have hmemory : Store.read v.bus.seen (Loader.code s.type) n = image.drop 2 := by
    apply read_image s hroom hfrontlength himagelength
    intro i hi
    obtain ⟨hlow, hhigh, hspared, -⟩ := hbelow i hi
    exact hseen _ (s.memory _ hlow hhigh) hspared.1
  have hdest : (Loader.dest n).toNat = 0x4000 - n := by
    rw [Loader.dest, BitVec.toNat_sub, BitVec.toNat_ofNat, BitVec.toNat_ofNat]
    omega
  have habove : 0x0100 ≤ (Loader.code s.type).toNat := by
    cases s.type <;> decide
  have hapart : Loader.Apart (Loader.code s.type) (Loader.dest n) n := ⟨habove, by omega, by omega⟩
  refine wp_mono (Loader.wp_main hapart hn hcopies) fun r w hw => ⟨hw.1, ?_⟩
  rw [← hmemory]
  exact List.map_congr_left fun j hj => hw.2 j (List.mem_range.1 hj)

theorem bootstrap_starts_server_pages :
    ∃ file, Loader.xlinkServerBasic .c64 ⟨260, Loader.pages 1 1, [⟨0, 0, 1⟩]⟩
        (Loader.loaderFile .c64 258) = .ok file ∧
      wp Bootstrap.start (fun _ u => wp (Bootstrap.main 3) (fun _ v =>
          v.bus.pc = Pc.session [.ping] [] ∧
          ∀ a x y z neg st, wp (Loader.main (BitVec.ofNat 16 258) (Loader.code .c64)
            (Loader.dest 258) 258) (fun r w => r = (258, 0x4000#16 - BitVec.ofNat 16 258) ∧
              Store.read w.bus (Loader.dest 258) 258 = (Loader.pages 0xfe 0x3e).drop 2)
            ⟨a, x, y, z, neg, st, v.bus.seen⟩)
        (meets u (Pc.session ([.ping] ++ .load 0x37#8 0x00#8 (Loader.basic .c64) (file.drop 2) ::
          [.ping]) []))) bareMachine := by
  have hmain : MakeServer.main (Loader.pages 1 1) (Loader.pages 2 1) (Loader.pages 1 2) =
      .ok ⟨260, Loader.pages 1 1, [⟨0, 0, 1⟩]⟩ := by decide +kernel
  have himage : MakeServer.xlinkServer ⟨260, Loader.pages 1 1, [⟨0, 0, 1⟩]⟩
      (0x4000#16 - BitVec.ofNat 16 258) = .ok (Loader.pages 0xfe 0x3e) := by decide +kernel
  have hcalls : ∀ c ∈ [Call.ping], c = .ready ∨ c = .ping :=
    fun c hc => .inr (List.mem_singleton.1 hc)
  have hvis : bareSite.target.Visible bareMachine.bus.config := visible_default
  exact bootstrap_starts_server bareSite (by decide) (by decide) hmain (Loader.length_pages 1 1)
    himage hvis hcalls 0x37#8 0x00#8 (by decide) (Nat.le_refl 258)

end Xlink.Server
