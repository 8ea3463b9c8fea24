import Xlink.Server.Rules64
import Xlink.Server.Rules128

/-!
# What a request does to the machine

Seen from outside, a load and a poke put bytes at addresses under a configuration, a save and a peek
do nothing. `Machine.puts` is that effect, and `Machine.Like` compares machines up to what a server
changes on the side: its work cells, the RAM it copies code to, the cable and the screen.
-/

namespace Xlink.Server

open Word Mos6502 Port

variable {T : Target}

/-! ## Machines alike -/

/-- An access of the cable or the screen: the ports of CIA2 and `$d011`. -/
def Access.Wire : Access → Prop
  | .read _ => False
  | .write a _ => a ∈ [0xdd00#16, 0xdd01#16, 0xdd03#16, 0xd011#16]

/-- A write to an I/O register that is not of the cable or the screen. -/
def Access.Effect : Access → Prop
  | .read _ => False
  | .write a _ => a ∉ [0xdd00#16, 0xdd01#16, 0xdd03#16, 0xd011#16]

instance : DecidablePred Access.Effect
  | .read _ => .isFalse id
  | .write a _ => inferInstanceAs (Decidable (a ∉ [0xdd00#16, 0xdd01#16, 0xdd03#16, 0xd011#16]))

/-- The I/O writes of a machine. -/
def Machine.io (M : Machine T) : List Access := M.log.filter fun x => x.Effect

/-- What a server changes on the side: zero page cells and RAM. -/
structure Scratch where
  cells : List Byte
  ram : Byte → Addr → Prop

/-- The second machine is the first, but for the scratch. -/
structure Machine.Like (s : Scratch) (M N : Machine T) : Prop where
  zp : ∀ c ∉ s.cells, N.zp c = M.zp c
  ram : ∀ b a, ¬s.ram b a → N.ram b a = M.ram b a
  io : N.io = M.io

section Like

variable {s t : Scratch} {M N O : Machine T}

theorem Machine.Like.refl : M.Like s M := ⟨fun _ _ => rfl, fun _ _ _ => rfl, rfl⟩

theorem Machine.Like.symm (h : M.Like s N) : N.Like s M :=
  ⟨fun c hc => (h.zp c hc).symm, fun b a ha => (h.ram b a ha).symm, h.io.symm⟩

theorem Machine.Like.trans (hMN : M.Like s N) (hNO : N.Like s O) : M.Like s O :=
  ⟨fun c hc => (hNO.zp c hc).trans (hMN.zp c hc),
    fun b a ha => (hNO.ram b a ha).trans (hMN.ram b a ha), hNO.io.trans hMN.io⟩

theorem Machine.Like.mono (h : M.Like s N) (hcells : s.cells ⊆ t.cells)
    (hram : ∀ b a, s.ram b a → t.ram b a) : M.Like t N :=
  ⟨fun c hc => h.zp c fun hmem => hc (hcells hmem),
    fun b a ha => h.ram b a fun hmem => ha (hram b a hmem), h.io⟩

/-- Nothing but the registers, the cable and the log of the cable has changed. -/
theorem Machine.Like.of_eq (hzp : N.zp = M.zp) (hram : N.ram = M.ram) (hio : N.io = M.io) :
    M.Like s N :=
  ⟨fun c _ => congrFun hzp c, fun b a _ => congrFun (congrFun hram b) a, hio⟩

theorem io_of_log (h : N.log = M.log) : N.io = M.io := by
  rw [Machine.io, Machine.io, h]

/-- An access that has no effect, such as a strobe, does not count. -/
theorem io_append {x : Access} (h : N.log = M.log ++ [x]) (hx : ¬x.Effect) : N.io = M.io := by
  rw [Machine.io, Machine.io, h, List.filter_append, List.filter_cons_of_neg (by simpa using hx)]
  exact List.append_nil _

theorem like_setZp {c v : Byte} (hc : c ∈ s.cells) : M.Like s (M.setZp c v) :=
  ⟨fun _ hd => zp_setZp_of_ne fun h => hd (h ▸ hc), fun _ _ _ => rfl, rfl⟩

theorem setRam_of_ne {bank b : Byte} {a a' : Addr} {v : Byte} (h : ¬(b = bank ∧ a' = a)) :
    (M.setRam bank a v).ram b a' = M.ram b a' := by
  rw [Machine.setRam]
  by_cases hb : b = bank
  · subst hb
    simp only [Function.update_self]
    exact Function.update_of_ne (fun ha => h ⟨rfl, ha⟩) ..
  · simp only [Function.update_of_ne hb]

theorem like_setRam {bank : Byte} {a : Addr} {v : Byte} (ha : s.ram bank a) :
    M.Like s (M.setRam bank a v) := by
  refine ⟨fun _ _ => rfl, ?_, rfl⟩
  intro b a' hb
  apply setRam_of_ne
  rintro ⟨rfl, rfl⟩
  exact hb ha

/-- The configuration alone makes no difference. -/
theorem like_config (M : Machine T) (config : Byte) :
    M.Like s ({ M with config := config } : Machine T) :=
  .of_eq rfl rfl rfl

theorem io_received (M : Machine T) (b : Byte) (k : Pc) : (M.received b k).io = M.io :=
  io_append rfl (by simp [Access.Effect])

theorem like_received (M : Machine T) (b : Byte) (k : Pc) : M.Like s (M.received b k) :=
  .of_eq rfl rfl (io_received M b k)

theorem like_taken {c b : Byte} {k : Pc} (hc : c ∈ s.cells) : M.Like s (M.taken c b k) :=
  (like_received M b k).trans (like_setZp hc)

theorem like_turned (M : Machine T) (k : Pc) : M.Like s (M.turned k) :=
  .of_eq rfl rfl (io_append rfl (by simp [Access.Effect]))

theorem like_released (M : Machine T) : M.Like s M.released :=
  .of_eq rfl rfl (io_append rfl (by simp [Access.Effect]))

theorem like_screen (M : Machine T) (v : Byte) : M.Like s (M.screen v) := by
  apply Machine.Like.of_eq (zp_screen ..) (ram_screen ..)
  unfold Machine.screen
  split
  · rfl
  · exact io_append rfl (by simp [Access.Effect])

theorem like_sent (M : Machine T) (v : Byte) (k : Pc) : M.Like s (M.sent v k) := by
  have hlog : (M.sent v k).log = (M.log ++ [Access.write 0xdd01#16 v]) ++
      [Access.write 0xdd00#16 (M.dd00 ^^^ 0x04#8)] := rfl
  have hio : (M.sent v k).io = ({ M with log := M.log ++ [.write 0xdd01#16 v] } : Machine T).io :=
    io_append hlog (by simp [Access.Effect])
  exact .of_eq rfl rfl (hio.trans (io_append rfl (by simp [Access.Effect])))

theorem like_copied {code : List Byte} {address : Addr}
    (hcode : ∀ i < code.length, s.ram 0x00#8 (address + BitVec.ofNat 16 i)) :
    M.Like s (M.copied code address) := by
  refine ⟨fun _ _ => by rw [zp_copied], ?_, io_of_log log_copied⟩
  intro b a ha
  apply ram_copied
  rintro i hi ⟨rfl, rfl⟩
  exact ha (hcode i hi)

/-- A read changes no more than the log of reads. -/
theorem io_read (M : Machine T) (a : Addr) : (M.read a).2.io = M.io := by
  unfold Machine.read
  split
  case h_4 a' _ =>
    unfold Machine.readIo
    split
    · split <;> rfl
    · split
      · rfl
      · split
        · rfl
        · split
          · rfl
          · exact io_append rfl id
  all_goals rfl

variable {f : Byte → Pc}

theorem like_look {config back : Byte} {address : Addr} (hpc : M.pc.Takes f) :
    M.Like s (M.look config back address).2 :=
  .of_eq (zp_look hpc) (ram_look hpc)
    (io_read ({ M with config := config } : Machine T) address)

/-- Machines that are alike stay alike when a byte is put at the same place. -/
theorem Machine.Like.put (h : M.Like s N) {a : Addr}
    (hplace : T.writes N.config a = T.writes M.config a) (v : Byte) :
    (M.put a v).Like s (N.put a v) := by
  rw [Machine.put, Machine.put, hplace]
  cases T.writes M.config a with
  | zp c =>
    refine ⟨?_, h.ram, h.io⟩
    intro d hd
    by_cases hdc : d = c
    · subst hdc
      exact zp_setZp_self.trans zp_setZp_self.symm
    · exact (zp_setZp_of_ne hdc).trans ((h.zp d hd).trans (zp_setZp_of_ne hdc).symm)
  | ram bank a' =>
    refine ⟨h.zp, ?_, h.io⟩
    intro b a ha
    by_cases hb : b = bank ∧ a = a'
    · obtain ⟨rfl, rfl⟩ := hb
      simp only [Machine.setRam, Function.update_self]
    · exact (setRam_of_ne hb).trans ((h.ram b a ha).trans (setRam_of_ne hb).symm)
  | rom a' => exact h
  | io a' =>
    refine ⟨h.zp, h.ram, ?_⟩
    have hio := h.io
    simp only [Machine.io, List.filter_append] at hio ⊢
    rw [hio]
  | config => exact ⟨h.zp, h.ram, h.io⟩

end Like

/-! ## Loops -/

/-- Bytes are put from an address on under a configuration. -/
def Machine.puts (M : Machine T) (config : Byte) : Addr → List Byte → Machine T
  | _, [] => M
  | a, b :: bs =>
    (({ M with config := config } : Machine T).put a b).puts config (a + 1#16) bs

section Loops

variable {s : Scratch} {M N : Machine T} {config back : Byte} {k : Pc} {f : Byte → Pc}

theorem like_setWord {c : Byte} {w : Addr} (hlow : c ∈ s.cells) (hhigh : c + 1#8 ∈ s.cells) :
    M.Like s (M.setWord c w) :=
  (like_setZp hlow).trans (like_setZp hhigh)

/-- A poke puts its byte. -/
theorem Machine.Like.poked (h : M.Like s N) (a : Addr) (v : Byte) :
    (M.puts config a [v]).Like s (N.poked config back a v) :=
  ((((like_config M config).symm.trans h).trans (like_config N config)).put rfl v).trans
    (like_config _ back)

theorem Machine.Like.puts (h : M.Like s N) (a : Addr) (bs : List Byte) :
    (M.puts config a bs).Like s (N.puts config a bs) := by
  induction bs generalizing M N a with
  | nil => exact h
  | cons b bs ih =>
    have hput : (({ M with config := config } : Machine T).put a b).Like s
        (({ N with config := config } : Machine T).put a b) :=
      (((like_config M config).symm.trans h).trans (like_config N config)).put rfl b
    exact ih hput (a + 1#16)

theorem like_stored {b : Byte} (hlow : T.start ∈ s.cells) (hhigh : T.start + 1#8 ∈ s.cells) :
    (({ M with config := config } : Machine T).put (M.word T.start) b).Like s
      (M.stored config back b k) := by
  have hsame : ({ M with config := config } : Machine T).Like s
      ({ M.strobed (some b) (.ack fun _ => k) with config := config } : Machine T) :=
    .of_eq rfl rfl rfl
  apply (hsame.put rfl b).trans
  apply Machine.Like.trans _ (like_setWord hlow hhigh)
  exact .of_eq rfl rfl (io_append rfl (by simp [Access.Effect]))

/-- The loop of a load puts its payload. -/
theorem like_loaded (hlow : T.start ∈ s.cells) (hhigh : T.start + 1#8 ∈ s.cells)
    (bs : List Byte) :
    (M.puts config (M.word T.start) bs).Like s (M.loaded config back bs k) := by
  induction bs generalizing M with
  | nil => exact .refl
  | cons b bs ih =>
    have hstored : (({ M with config := config } : Machine T).put (M.word T.start) b).Like s
        (M.stored config back b (.sending bs k)) := like_stored hlow hhigh
    have hrest := ih (M := M.stored config back b (.sending bs k))
    rw [word_stored_start] at hrest
    exact (hstored.puts (M.word T.start + 1#16) bs).trans hrest

theorem like_given (hlow : T.start ∈ s.cells) (hhigh : T.start + 1#8 ∈ s.cells)
    (hpc : M.pc.Takes f) : M.Like s (M.given config back f).2 := by
  rw [given_eq_look]
  exact ((like_look hpc).trans (like_sent ..)).trans (like_setWord hlow hhigh)

/-- The loop of a save changes nothing. -/
theorem like_saved (hlow : T.start ∈ s.cells) (hhigh : T.start + 1#8 ∈ s.cells) {size : Nat}
    {kb : List Byte → Pc} (hpc : M.pc = .receiving size kb) :
    M.Like s (M.saved config back size kb).2 := by
  induction size generalizing M kb with
  | zero => exact .refl
  | succ size ih =>
    have htakes : M.pc.Takes fun b => .receiving size fun bs => kb (b :: bs) := hpc
    exact (like_given hlow hhigh htakes).trans (ih pc_given)

end Loops

/-! ## Headers -/

section Begun

variable {s : Scratch} (M : Machine T) (memory bank : Byte) (address : Addr)

theorem like_addressed (hwork : T.work ⊆ s.cells) (k : Pc) :
    M.Like s (M.addressed memory bank address k) := by
  obtain ⟨h₀, h₁, -, -, h₄, h₅⟩ := mem_work (T := T)
  exact (((like_taken (hwork h₄)).trans (like_taken (hwork h₅))).trans
    (like_taken (hwork h₀))).trans (like_taken (hwork h₁))

theorem like_headed (hwork : T.work ⊆ s.cells) (start stop : Addr) (k : Pc) :
    M.Like s (M.headed memory bank start stop k) := by
  obtain ⟨-, -, h₂, h₃, -⟩ := mem_work (T := T)
  exact ((like_addressed M memory bank start hwork _).trans (like_taken (hwork h₂))).trans
    (like_taken (hwork h₃))

theorem like_loadBegun (hwork : T.work ⊆ s.cells) (payload : List Byte) (k : Pc) :
    M.Like s (M.loadBegun memory bank address payload k) :=
  (like_headed M memory bank hwork _ _ _).trans (like_screen ..)

theorem like_saveBegun (hwork : T.work ⊆ s.cells) (size : Nat) (kb : List Byte → Pc) :
    M.Like s (M.saveBegun memory bank address size kb) :=
  ((like_headed M memory bank hwork _ _ _).trans (like_screen ..)).trans (like_turned ..)

theorem like_peekBegun (hwork : T.work ⊆ s.cells) (k : Pc) :
    M.Like s (M.peekBegun memory bank address k) :=
  (like_addressed M memory bank address hwork _).trans (like_turned ..)

theorem like_pokeBegun (hwork : T.work ⊆ s.cells) (value : Byte) (k : Pc) :
    M.Like s (M.pokeBegun memory bank address value k) :=
  (like_addressed M memory bank address hwork _).trans (like_received ..)

end Begun

/-- The end of the program text may change. -/
theorem like_relinked {s : Scratch} {M : Machine T} {basic : Byte}
    (hend : ∀ v, M.Like s (M.put T.bend v)) (hend₁ : ∀ N v, M.Like s N → N.config = M.config →
      N.Like s (N.put (T.bend + 1#16) v)) : M.Like s (M.relinked basic) := by
  unfold Machine.relinked
  split
  · have hconfig : (M.put T.bend (M.zp T.stop)).config = M.config :=
      Machine.config_put _ (T.bend_clear M.config).1
    exact (hend _).trans (hend₁ _ _ (hend _) hconfig)
  · exact .refl

/-! ## The requests of the C64 servers -/

section C64

variable {rom : Addr → Byte} {chips : List Access → Addr → Byte} {s : Scratch}
  {M : Machine (c64 rom chips)} {memory bank : Byte} {address : Addr} {k : Pc}

/-- The end of the program text is in two cells of page zero. -/
theorem writes_bend (config : Byte) :
    (c64 rom chips).writes config (c64 rom chips).bend = .zp 0x2d#8 ∧
      (c64 rom chips).writes config ((c64 rom chips).bend + 1#16) = .zp 0x2e#8 := by
  have hbend : (c64 rom chips).bend = zeroPage 0x2d#8 :=
    (by decide : 0x002d#16 = zeroPage 0x2d#8)
  have hbend₁ : zeroPage 0x2d#8 + 1#16 = zeroPage 0x2e#8 := by decide
  rw [hbend, hbend₁]
  constructor
  · change c64Writes config (zeroPage 0x2d#8) = _
    rw [c64Writes, c64Reads_zeroPage config (by decide)]
  · change c64Writes config (zeroPage 0x2e#8) = _
    rw [c64Writes, c64Reads_zeroPage config (by decide)]

theorem put_zp {M : Machine T} {a : Addr} {c : Byte} (v : Byte)
    (hplace : T.writes M.config a = .zp c) : M.put a v = M.setZp c v := by
  rw [Machine.put, hplace]

theorem like_relinked64 (hend : [0x2d#8, 0x2e#8] ⊆ s.cells) (basic : Byte) :
    M.Like s (M.relinked basic) := by
  apply like_relinked
  · intro v
    rw [put_zp v (writes_bend _).1]
    exact like_setZp (hend (by simp))
  · intro N v _ _
    rw [put_zp v (writes_bend _).2]
    exact like_setZp (hend (by simp))

theorem like_load64 (hwork : (c64 rom chips).work ++ [0x2d#8, 0x2e#8] ⊆ s.cells)
    (payload : List Byte) :
    (M.puts (loading M.config memory).1 address payload).Like s
      (M.load64 memory bank address payload k) := by
  obtain ⟨hwork, hend⟩ := List.append_subset.mp hwork
  obtain ⟨h₀, h₁, -⟩ := mem_work (T := c64 rom chips)
  have hbegun : (M.puts (loading M.config memory).1 address payload).Like s
      ((M.loadBegun memory bank address payload k).puts (loading M.config memory).1 address
        payload) := (like_loadBegun M memory bank address hwork payload k).puts address payload
  have hstart : (M.loadBegun memory bank address payload k).word (c64 rom chips).start = address :=
    congrArg Header.start (header_loadBegun ..)
  have hloaded : ((M.loadBegun memory bank address payload k).puts (loading M.config memory).1
      ((M.loadBegun memory bank address payload k).word (c64 rom chips).start) payload).Like s
      ((M.loadBegun memory bank address payload k).loaded (loading M.config memory).1
        (loading M.config memory).2 payload k) := like_loaded (hwork h₀) (hwork h₁) payload
  rw [hstart] at hloaded
  rw [Machine.load64]
  exact ((hbegun.trans hloaded).trans (like_relinked64 hend _)).trans (like_screen ..)

theorem like_saveDone (hwork : (c64 rom chips).work ⊆ s.cells) {size : Nat}
    {kb : List Byte → Pc} {N : Machine (c64 rom chips)} (hpc : N.pc = .receiving size kb) :
    N.Like s (M.saveDone memory size kb N).2 := by
  obtain ⟨h₀, h₁, -⟩ := mem_work (T := c64 rom chips)
  rw [Machine.saveDone]
  exact ((like_saved (hwork h₀) (hwork h₁) hpc).trans (like_released _)).trans (like_screen ..)

theorem like_save64 (hwork : (c64 rom chips).work ⊆ s.cells) {size : Nat}
    {kb : List Byte → Pc} : M.Like s (M.save64 memory bank address size kb).2 :=
  (like_saveBegun M memory bank address hwork size kb).trans
    (like_saveDone hwork (pc_saveBegun ..))

/-- The stub is below `$010b`. -/
theorem like_stubbed (hstub : ∀ a : Addr, 0x0100 ≤ a.toNat → a.toNat < 0x010b → s.ram 0x00#8 a) :
    M.Like s M.stubbed := by
  apply like_copied
  intro i hi
  have hlen : Kernal64.codestart.length = 11 := rfl
  apply hstub
  · rw [BitVec.toNat_add, BitVec.toNat_ofNat, BitVec.toNat_ofNat]
    omega
  · rw [BitVec.toNat_add, BitVec.toNat_ofNat, BitVec.toNat_ofNat]
    omega

theorem like_saveKernal64 (hwork : (c64 rom chips).work ⊆ s.cells)
    (hstub : ∀ a : Addr, 0x0100 ≤ a.toNat → a.toNat < 0x010b → s.ram 0x00#8 a) {size : Nat}
    {kb : List Byte → Pc} : M.Like s (M.saveKernal64 memory bank address size kb).2 := by
  have hbegun := like_saveBegun M memory bank address hwork size kb
  rw [Machine.saveKernal64]
  split
  · exact hbegun.trans (like_saveDone hwork (pc_saveBegun ..))
  · exact (hbegun.trans (like_stubbed hstub)).trans
      (like_saveDone hwork (pc_copied.trans (pc_saveBegun ..)))

end C64

/-! ## The requests of the C128 servers -/

section C128

variable {rom : Byte → Addr → Byte} {chips : List Access → Addr → Byte} {s : Scratch}
  {M : Machine (c128 rom chips)} {area : CommonArea rom chips} {far memory bank : Byte}
  {address : Addr}
  {k : Pc}

/-- What the C128 servers change on the side: their cells, and the common area over `FETCH` and
`STASH`. -/
structure Scratch.Far (s : Scratch) (rom : Byte → Addr → Byte)
    (chips : List Access → Addr → Byte) : Prop where
  work : farWork rom chips ⊆ s.cells
  common : ∀ a : Addr, 0x02a2 ≤ a.toNat → a.toNat < 0x02fc → s.ram 0x00#8 a

theorem like_code (hs : s.Far rom chips) (code : CommonCode) :
    M.Like s (M.copied code.bytes common) :=
  like_copied fun _ hlt =>
    hs.common _ (common_bounds code hlt).1 (common_bounds code hlt).2

theorem like_switched (hs : s.Far rom chips) : M.Like s (M.switched far) :=
  (like_setZp (hs.work mem_farWork.2)).trans (like_config _ far)

/-- The code in the common area is on the side. -/
theorem like_carrier (hs : s.Far rom chips) (fast slow : CommonCode) :
    M.Like s (M.carrier far fast slow).1 := by
  unfold Machine.carrier
  split
  · exact .refl
  · split
    · exact (like_code hs fast).trans (like_switched hs)
    · exact (like_code hs slow).trans (like_switched hs)

/-- The loop finds the pointers of the request wherever it runs. -/
theorem word_carrier (M : Machine (c128 rom chips)) (far : Byte) (fast slow : CommonCode) :
    (M.carrier far fast slow).1.word (c128 rom chips).start = M.word (c128 rom chips).start := by
  unfold Machine.carrier
  split
  · rfl
  · split <;> rw [(word_switched _ _).1, word_copied]

theorem like_carriedBack (hs : s.Far rom chips) (config : Byte) :
    M.Like s (M.carriedBack far config area) := by
  unfold Machine.carriedBack
  split
  · exact .refl
  · exact (like_config M config).trans (like_code hs area.kernal)

theorem Scratch.Far.cells (hs : s.Far rom chips) : (c128 rom chips).work ⊆ s.cells :=
  fun _ hc => hs.work (List.mem_append_left _ hc)

theorem like_loadedBank (hs : s.Far rom chips) (payload : List Byte) :
    (M.puts far (M.word (c128 rom chips).start) payload).Like s
      (M.loadedBank area far payload k) := by
  obtain ⟨h₀, h₁, -⟩ := mem_work (T := c128 rom chips)
  have hcarrier : (M.puts far (M.word (c128 rom chips).start) payload).Like s
      ((M.carrier far area.fastReceive area.slowReceive).1.puts far
        (M.word (c128 rom chips).start) payload) := (like_carrier hs _ _).puts _ payload
  rw [Machine.loadedBank]
  have hstart := word_carrier M far area.fastReceive area.slowReceive
  generalize M.carrier far area.fastReceive area.slowReceive = c at *
  have hloaded : (c.1.puts far (c.1.word (c128 rom chips).start) payload).Like s
      (c.1.loaded far c.2 payload k) := like_loaded (hs.cells h₀) (hs.cells h₁) payload
  rw [hstart] at hloaded
  exact (hcarrier.trans hloaded).trans (like_carriedBack hs M.config)

theorem like_savedBank (hs : s.Far rom chips) {size : Nat} {kb : List Byte → Pc}
    (hpc : M.pc = .receiving size kb) : M.Like s (M.savedBank area far size kb).2 := by
  obtain ⟨h₀, h₁, -⟩ := mem_work (T := c128 rom chips)
  exact ((like_carrier hs _ _).trans (like_saved (hs.cells h₀) (hs.cells h₁)
    (pc_carrier.trans hpc))).trans (like_carriedBack hs M.config)

/-- The end of the program text is in RAM, of whichever bank. -/
theorem put_bend (v : Byte) : ∃ b, M.put (c128 rom chips).bend v = M.setRam b 0x1210#16 v := by
  have hbend : (c128 rom chips).bend = 0x1210#16 := rfl
  have hplace : c128Writes M.config 0x1210#16 = .ram (M.config >>> 6) 0x1210#16 := rfl
  have hwrites : (c128 rom chips).writes M.config 0x1210#16 = _ := hplace
  exact ⟨M.config >>> 6, by rw [hbend, Machine.put, hwrites]⟩

theorem put_bend_succ (v : Byte) :
    ∃ b, M.put ((c128 rom chips).bend + 1#16) v = M.setRam b 0x1211#16 v := by
  have hbend : (c128 rom chips).bend + 1#16 = 0x1211#16 := by
    change 0x1210#16 + 1#16 = 0x1211#16
    decide
  have hplace : c128Writes M.config 0x1211#16 = .ram (M.config >>> 6) 0x1211#16 := rfl
  have hwrites : (c128 rom chips).writes M.config 0x1211#16 = _ := hplace
  exact ⟨M.config >>> 6, by rw [hbend, Machine.put, hwrites]⟩

theorem like_relinked128 (hend : ∀ b, s.ram b 0x1210#16 ∧ s.ram b 0x1211#16) (basic : Byte) :
    M.Like s (M.relinked basic) := by
  apply like_relinked
  · intro v
    obtain ⟨b, hput⟩ := put_bend (M := M) v
    rw [hput]
    exact like_setRam (hend b).1
  · intro N v _ _
    obtain ⟨b, hput⟩ := put_bend_succ (M := N) v
    rw [hput]
    exact like_setRam (hend b).2

theorem like_load128 (hs : s.Far rom chips)
    (hend : ∀ b, s.ram b 0x1210#16 ∧ s.ram b 0x1211#16) (payload : List Byte) :
    (M.puts (M.effective memory bank) address payload).Like s
      (M.load128 area memory bank address payload k) := by
  have hbegun : M.Like s ((M.loadBegun memory bank address payload k).setZp
      (c128 rom chips).mem (M.effective memory bank)) :=
    (like_loadBegun M memory bank address hs.cells payload k).trans
      (like_setZp (hs.work mem_farWork.1))
  have hstart := (word_checked (header_loadBegun M memory bank address payload k)
    (M.effective memory bank)).1
  rw [Machine.load128]
  generalize (M.loadBegun memory bank address payload k).basic = basic
  generalize (M.loadBegun memory bank address payload k).setZp (c128 rom chips).mem
    (M.effective memory bank) = N at *
  have hloaded : (N.puts (M.effective memory bank) (N.word (c128 rom chips).start) payload).Like s
      (N.loadedBank area (M.effective memory bank) payload k) := like_loadedBank hs payload
  rw [hstart] at hloaded
  exact (((hbegun.puts address payload).trans hloaded).trans (like_screen ..)).trans
    (like_relinked128 hend _)

theorem like_save128 (hs : s.Far rom chips) {size : Nat} {kb : List Byte → Pc} :
    M.Like s (M.save128 area memory bank address size kb).2 := by
  have hbegun : M.Like s ((M.saveBegun memory bank address size kb).setZp
      (c128 rom chips).mem (M.effective memory bank)) :=
    (like_saveBegun M memory bank address hs.cells size kb).trans
      (like_setZp (hs.work mem_farWork.1))
  have hpc : ((M.saveBegun memory bank address size kb).setZp (c128 rom chips).mem
      (M.effective memory bank)).pc = .receiving size kb := by
    rw [pc_setZp, pc_saveBegun]
  rw [Machine.save128]
  exact ((hbegun.trans (like_savedBank hs hpc)).trans (like_released _)).trans (like_screen ..)

theorem like_pointed (hs : s.Far rom chips) {near : Prop} [Decidable near] {pointer : Addr}
    (hpointer : pointer = fetchptr ∨ pointer = stashptr) : M.Like s (M.pointed near pointer) := by
  unfold Machine.pointed
  split
  · exact .refl
  · apply like_setRam
    rcases hpointer with rfl | rfl
    · exact hs.common _ (by decide) (by decide)
    · exact hs.common _ (by decide) (by decide)

theorem like_poke128 (hs : s.Far rom chips) (value : Byte) :
    (M.puts (M.effective memory bank) address [value]).Like s
      (M.poke128 memory bank address value k) := by
  have hbegun : M.Like s ((M.pokeBegun memory bank address value k).setZp
      (c128 rom chips).mem (M.effective memory bank)) :=
    (like_pokeBegun M memory bank address hs.cells value k).trans
      (like_setZp (hs.work mem_farWork.1))
  have hpointed : M.Like s (((M.pokeBegun memory bank address value k).setZp
      (c128 rom chips).mem (M.effective memory bank)).pointed
        (M.effective memory bank = M.config) stashptr) :=
    hbegun.trans (like_pointed hs (.inr rfl))
  rw [Machine.poke128]
  exact hpointed.poked address value

theorem like_peeked {N : Machine T} {config back : Byte} {f : Byte → Pc} (hpc : N.pc.Takes f) :
    N.Like s (N.peeked config back address f).2 :=
  ((like_look hpc).trans (like_sent ..)).trans (like_released _)

theorem like_peek128 (hs : s.Far rom chips) {y : Byte} {pc : Pc} {f : Byte → Pc}
    (htakes : pc.Takes f) : M.Like s (M.peek128 memory bank address y pc f).2 := by
  have hbegun : M.Like s ((M.peekBegun memory bank address pc).setZp
      (c128 rom chips).mem (M.effective memory bank)) :=
    (like_peekBegun M memory bank address hs.cells pc).trans
      (like_setZp (hs.work mem_farWork.1))
  have hpointed : M.Like s (((M.peekBegun memory bank address pc).setZp
      (c128 rom chips).mem (M.effective memory bank)).pointed
        (M.effective memory bank = M.config) fetchptr) :=
    hbegun.trans (like_pointed hs (.inl rfl))
  rw [Machine.peek128]
  apply hpointed.trans
  apply like_peeked
  rw [pc_pointed, pc_setZp, pc_peekBegun]
  exact htakes

end C128

end Xlink.Server
