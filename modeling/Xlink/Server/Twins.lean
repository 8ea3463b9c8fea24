import Xlink.Server.PokeLoad

/-!
# The RAM server and the KERNAL server of the C64

The two listings are compared request by request, from machines that are the same but for the RAM
in which the KERNAL server keeps its stub. They give the same replies, leave the same memory and
access the same registers, as long as no poke is made that the two make differently: to an I/O
register under a configuration that shows I/O and is not `$37`, or with `$37` when that is not
what `$01` has.

`servers_agree` is about whole sessions of loads, saves, peeks, pokes and pings from any such
machines, in the direction from the condition to the agreement. A poke that the two make differently
can still have the same effect, so it is no equivalence. What is done between two interrupts is not
in it, nor are the requests the servers do not return from.
-/

namespace Xlink.Server

open Word Mos6502 Port

/-! ## Twins -/

section Twins

variable {T : Target} {hidden : Byte → Addr → Prop} {M N O : Machine T}

/-- The machines are the same but for some RAM. -/
def Machine.Twin (hidden : Byte → Addr → Prop) (M N : Machine T) : Prop :=
  ∃ ram, N = { M with ram := ram } ∧ ∀ b a, ¬hidden b a → ram b a = M.ram b a

namespace Machine.Twin

theorem refl : M.Twin hidden M := ⟨M.ram, rfl, fun _ _ _ => rfl⟩

theorem trans (hMN : M.Twin hidden N) (hNO : N.Twin hidden O) : M.Twin hidden O := by
  obtain ⟨ram, rfl, hram⟩ := hMN
  obtain ⟨ram', rfl, hram'⟩ := hNO
  exact ⟨ram', rfl, fun b a ha => (hram' b a ha).trans (hram b a ha)⟩

theorem pc (h : M.Twin hidden N) : N.pc = M.pc := by
  obtain ⟨ram, rfl, -⟩ := h
  rfl

theorem config (h : M.Twin hidden N) : N.config = M.config := by
  obtain ⟨ram, rfl, -⟩ := h
  rfl

theorem zp (h : M.Twin hidden N) : N.zp = M.zp := by
  obtain ⟨ram, rfl, -⟩ := h
  rfl

theorem log (h : M.Twin hidden N) : N.log = M.log := by
  obtain ⟨ram, rfl, -⟩ := h
  rfl

theorem word (h : M.Twin hidden N) (c : Byte) : N.word c = M.word c := by
  rw [Machine.word, Machine.word, h.zp]

theorem ready (h : M.Twin hidden N) (hM : Ready M) : Ready N := by
  obtain ⟨ram, rfl, -⟩ := h
  exact ⟨hM.visible, hM.input⟩

/-- What has nothing to do with RAM keeps twins. -/
theorem frame (h : M.Twin hidden N) (f : Machine T → Machine T)
    (hf : ∀ ram, f { M with ram := ram } = { f M with ram := ram }) (hram : (f M).ram = M.ram) :
    (f M).Twin hidden (f N) := by
  obtain ⟨ram, rfl, hsame⟩ := h
  refine ⟨ram, hf ram, ?_⟩
  rw [hram]
  exact hsame

/-- So does a byte put anywhere. -/
theorem put (h : M.Twin hidden N) (a : Addr) (v : Byte) : (M.put a v).Twin hidden (N.put a v) := by
  obtain ⟨ram, rfl, hsame⟩ := h
  unfold Machine.put
  cases T.writes M.config a with
  | zp c => exact ⟨ram, rfl, hsame⟩
  | ram bank a' =>
    refine ⟨_, rfl, ?_⟩
    intro b a ha
    by_cases hb : b = bank ∧ a = a'
    · obtain ⟨rfl, rfl⟩ := hb
      simp only [Machine.setRam, Function.update_self]
    · exact (setRam_of_ne (M := { M with ram := ram }) hb).trans
        ((hsame b a ha).trans (setRam_of_ne hb).symm)
  | rom a' => exact ⟨ram, rfl, hsame⟩
  | io a' => exact ⟨ram, rfl, hsame⟩
  | config => exact ⟨ram, rfl, hsame⟩

theorem readIo (h : M.Twin hidden N) (a : Addr) :
    (N.readIo a).1 = (M.readIo a).1 ∧ (M.readIo a).2.Twin hidden (N.readIo a).2 := by
  obtain ⟨ram, rfl, hsame⟩ := h
  rcases M with ⟨config, zp, ram₀, log, pc, lines, dd00, dd01, dd03⟩
  unfold Machine.readIo
  by_cases hd : a = 0xdd0d#16
  · simp only [if_pos hd]
    cases pc with
    | strobe data k => exact ⟨rfl, ram, rfl, hsame⟩
    | _ => exact ⟨rfl, ram, rfl, hsame⟩
  · simp only [if_neg hd]
    split
    · exact ⟨rfl, ram, rfl, hsame⟩
    · split
      · exact ⟨rfl, ram, rfl, hsame⟩
      · split
        · exact ⟨rfl, ram, rfl, hsame⟩
        · exact ⟨rfl, ram, rfl, hsame⟩

/-- And a read of what is not hidden. -/
theorem read (h : M.Twin hidden N) {a : Addr}
    (ha : ∀ bank a', T.reads M.config a = .ram bank a' → ¬hidden bank a') :
    (N.read a).1 = (M.read a).1 ∧ (M.read a).2.Twin hidden (N.read a).2 := by
  have hio : ∀ a', (N.readIo a').1 = (M.readIo a').1 ∧
    (M.readIo a').2.Twin hidden (N.readIo a').2 := h.readIo
  obtain ⟨ram, rfl, hsame⟩ := h
  unfold Machine.read
  cases hplace : T.reads M.config a with
  | ram bank a' => exact ⟨hsame bank a' (ha bank a' hplace), ram, rfl, hsame⟩
  | io a' => exact hio a'
  | _ => exact ⟨rfl, ram, rfl, hsame⟩

theorem withConfig (h : M.Twin hidden N) (config : Byte) :
    ({ M with config := config } : Machine T).Twin hidden { N with config := config } :=
  h.frame (fun M => { M with config := config }) (fun _ => rfl) rfl

theorem setWord (h : M.Twin hidden N) (c : Byte) (w : Addr) :
    (M.setWord c w).Twin hidden (N.setWord c w) :=
  h.frame (·.setWord c w) (fun _ => rfl) rfl

theorem received (h : M.Twin hidden N) (b : Byte) (k : Pc) :
    (M.received b k).Twin hidden (N.received b k) :=
  h.frame (·.received b k) (fun _ => rfl) rfl

theorem taken (h : M.Twin hidden N) (c b : Byte) (k : Pc) :
    (M.taken c b k).Twin hidden (N.taken c b k) :=
  (h.received b k).frame (·.setZp c b) (fun _ => rfl) rfl

theorem screen (h : M.Twin hidden N) (v : Byte) : (M.screen v).Twin hidden (N.screen v) := by
  apply h.frame (·.screen v)
  · intro ram
    unfold Machine.screen
    split
    · rfl
    · rfl
  · exact ram_screen ..

theorem released (h : M.Twin hidden N) : M.released.Twin hidden N.released :=
  h.frame (·.released) (fun _ => rfl) rfl

theorem turned (h : M.Twin hidden N) (k : Pc) : (M.turned k).Twin hidden (N.turned k) :=
  h.frame (·.turned k) (fun _ => rfl) rfl

theorem sent (h : M.Twin hidden N) (v : Byte) (k : Pc) : (M.sent v k).Twin hidden (N.sent v k) :=
  h.frame (·.sent v k) (fun _ => rfl) rfl

/-! ## Headers -/

section Begun

variable (h : M.Twin hidden N) (memory bank : Byte) (address : Addr)

include h

theorem addressed (k : Pc) :
    (M.addressed memory bank address k).Twin hidden (N.addressed memory bank address k) :=
  (((h.taken T.mem memory _).taken T.bank bank _).taken T.start (lo address) _).taken
    (T.start + 1#8) (hi address) k

theorem headed (start stop : Addr) (k : Pc) :
    (M.headed memory bank start stop k).Twin hidden (N.headed memory bank start stop k) :=
  ((h.addressed memory bank start _).taken T.stop (lo stop) _).taken (T.stop + 1#8) (hi stop) k

theorem loadBegun (payload : List Byte) (k : Pc) :
    (M.loadBegun memory bank address payload k).Twin hidden
      (N.loadBegun memory bank address payload k) :=
  (h.headed memory bank _ _ _).screen _

theorem saveBegun (size : Nat) (kb : List Byte → Pc) :
    (M.saveBegun memory bank address size kb).Twin hidden
      (N.saveBegun memory bank address size kb) :=
  ((h.headed memory bank _ _ _).screen _).turned _

theorem peekBegun (k : Pc) :
    (M.peekBegun memory bank address k).Twin hidden (N.peekBegun memory bank address k) :=
  (h.addressed memory bank address _).turned k

theorem pokeBegun (value : Byte) (k : Pc) :
    (M.pokeBegun memory bank address value k).Twin hidden
      (N.pokeBegun memory bank address value k) :=
  (h.addressed memory bank address _).received value k

end Begun

/-! ## Loops -/

variable {config back : Byte}

theorem stored (h : M.Twin hidden N) (b : Byte) (k : Pc) :
    (M.stored config back b k).Twin hidden (N.stored config back b k) := by
  have hstrobed : (M.strobed (some b) (.ack fun _ => k)).Twin hidden
      (N.strobed (some b) (.ack fun _ => k)) :=
    h.frame (·.strobed (some b) (.ack fun _ => k)) (fun _ => rfl) rfl
  have hput := ((hstrobed.withConfig config).put (M.word T.start) b).withConfig back
  have hacked := hput.frame (·.acked k) (fun _ => rfl) rfl
  have hword := hacked.setWord T.start (M.word T.start + 1#16)
  unfold Machine.stored
  rw [h.word T.start]
  exact hword

theorem loaded (h : M.Twin hidden N) (bs : List Byte) (k : Pc) :
    (M.loaded config back bs k).Twin hidden (N.loaded config back bs k) := by
  induction bs generalizing M N with
  | nil => exact h
  | cons b bs ih => exact ih (h.stored b _)

variable (config back)

theorem look (h : M.Twin hidden N) {a : Addr}
    (ha : ∀ bank a', T.reads config a = .ram bank a' → ¬hidden bank a') :
    (N.look config back a).1 = (M.look config back a).1 ∧
      (M.look config back a).2.Twin hidden (N.look config back a).2 := by
  obtain ⟨hvalue, hafter⟩ := (h.withConfig config).read ha
  exact ⟨hvalue, hafter.withConfig back⟩

theorem peeked (h : M.Twin hidden N) {a : Addr} {f : Byte → Pc}
    (ha : ∀ bank a', T.reads config a = .ram bank a' → ¬hidden bank a') :
    (M.peeked config back a f).2.Twin hidden (N.peeked config back a f).2 := by
  obtain ⟨hvalue, hafter⟩ := h.look config back ha
  unfold Machine.peeked
  rw [hvalue]
  exact (hafter.sent _ _).released

theorem poked (h : M.Twin hidden N) (a : Addr) (v : Byte) :
    (M.poked config back a v).Twin hidden (N.poked config back a v) :=
  ((h.withConfig config).put a v).withConfig back

theorem given (h : M.Twin hidden N) {f : Byte → Pc}
    (ha : ∀ bank a', T.reads config (M.word T.start) = .ram bank a' → ¬hidden bank a') :
    (N.given config back f).1 = (M.given config back f).1 ∧
      (M.given config back f).2.Twin hidden (N.given config back f).2 := by
  obtain ⟨hvalue, hafter⟩ := h.look config back ha
  rw [given_eq_look, given_eq_look, h.word T.start, hvalue]
  exact ⟨rfl, (hafter.sent _ _).setWord _ _⟩

theorem saved (h : M.Twin hidden N) {size : Nat} {kb : List Byte → Pc}
    (hpc : M.pc = .receiving size kb)
    (ha : ∀ i < size, ∀ bank a', T.reads config (M.word T.start + BitVec.ofNat 16 i) =
      .ram bank a' → ¬hidden bank a') :
    (N.saved config back size kb).1 = (M.saved config back size kb).1 ∧
      (M.saved config back size kb).2.Twin hidden (N.saved config back size kb).2 := by
  induction size generalizing M N kb with
  | zero => exact ⟨rfl, h⟩
  | succ size ih =>
    have hfirst := ha 0 (Nat.succ_pos size)
    rw [BitVec.add_zero] at hfirst
    obtain ⟨hvalue, hafter⟩ := h.given config back
      (f := fun b => .receiving size fun bs => kb (b :: bs)) hfirst
    have htakes : M.pc.Takes fun b => .receiving size fun bs => kb (b :: bs) := hpc
    have hrest := ih hafter pc_given fun i hi bank a' hplace => by
      rw [word_given_start htakes, ← add_ofNat_succ] at hplace
      exact ha (i + 1) (Nat.succ_lt_succ hi) bank a' hplace
    simp only [Machine.saved]
    rw [hvalue]
    exact ⟨congrArg _ hrest.1, hrest.2⟩

end Machine.Twin

end Twins

/-! ## The stub -/

/-- Where the KERNAL server copies the code that reads RAM to. -/
def Stub (b : Byte) (a : Addr) : Prop := b = 0x00#8 ∧ 0x0100 ≤ a.toNat ∧ a.toNat < 0x010b

section Stubbed

variable {rom : Addr → Byte} {chips : List Access → Addr → Byte} {M N : Machine (c64 rom chips)}
  {memory bank : Byte} {address : Addr}

/-- The C64 has all RAM at its own address. -/
theorem c64Reads_ram {config bank : Byte} {a a' : Addr} (h : c64Reads config a = .ram bank a') :
    a' = a := by
  have hreads : (c64Reads config a).At a := c64Reads_at
  rw [h] at hreads
  exact hreads

/-- So what is not read at the address of the stub is not the stub. -/
theorem not_stub {config : Byte} {a : Addr} (ha : ¬Stub 0x00#8 a) :
    ∀ bank a', (c64 rom chips).reads config a = .ram bank a' → ¬Stub bank a' := by
  intro bank a' hplace hstub
  obtain rfl := c64Reads_ram hplace
  exact ha ⟨rfl, hstub.2⟩

theorem copied_eq {T : Target} (M : Machine T) (code : List Byte) (address : Addr) :
    M.copied code address = { M with ram := (M.copied code address).ram } := by
  induction code generalizing address with
  | nil => rfl
  | cons v code ih =>
    show (M.copied code (address + 1#16)).setRam 0x00#8 address v = _
    rw [ih]
    rfl

theorem twin_stubbed (M : Machine (c64 rom chips)) : M.Twin Stub M.stubbed := by
  have hlike : M.Like ⟨[], Stub⟩ M.stubbed := like_stubbed fun _ h₀ h₁ => ⟨rfl, h₀, h₁⟩
  exact ⟨M.stubbed.ram, copied_eq M _ _, hlike.ram⟩

namespace Machine.Twin

variable (h : M.Twin Stub N)

include h

theorem relinked (basic : Byte) : (M.relinked basic).Twin Stub (N.relinked basic) := by
  unfold Machine.relinked
  rw [h.zp]
  split
  · exact (h.put _ _).put _ _
  · exact h

theorem load64 (memory bank : Byte) (address : Addr) (payload : List Byte) (k : Pc) :
    (M.load64 memory bank address payload k).Twin Stub
      (N.load64 memory bank address payload k) := by
  have hbegun := h.loadBegun memory bank address payload k
  have hbasic : (N.loadBegun memory bank address payload k).basic =
      (M.loadBegun memory bank address payload k).basic := by
    unfold Machine.basic
    rw [hbegun.word, hbegun.word]
  show (((_ : Machine (c64 rom chips)).relinked _).screen _).Twin Stub
    (((Machine.loaded (loading N.config memory).1 (loading N.config memory).2 payload k
      (N.loadBegun memory bank address payload k)).relinked
        (N.loadBegun memory bank address payload k).basic).screen 0x1b#8)
  rw [h.config, hbasic]
  exact ((hbegun.loaded payload k).relinked _).screen 0x1b#8

/-- A save from the RAM server, and one of the same bytes from the KERNAL server. -/
theorem saveDone {M' N' : Machine (c64 rom chips)} (h' : M'.Twin Stub N') {size : Nat}
    {kb : List Byte → Pc} (hpc : M'.pc = .receiving size kb)
    (hstart : M'.word (c64 rom chips).start = address)
    (ha : ∀ i < size, ¬Stub 0x00#8 (address + BitVec.ofNat 16 i)) :
    (N.saveDone memory size kb N').1 = (M.saveDone memory size kb M').1 ∧
      (M.saveDone memory size kb M').2.Twin Stub (N.saveDone memory size kb N').2 := by
  unfold Machine.saveDone
  rw [h.config]
  have hsaved := h'.saved (saving M.config memory).1 (saving M.config memory).2 hpc fun i hi => by
    rw [hstart]
    exact not_stub (ha i hi)
  exact ⟨hsaved.1, hsaved.2.released.screen 0x1b#8⟩

theorem save64 (memory bank : Byte) {size : Nat} (kb : List Byte → Pc)
    (ha : ∀ i < size, ¬Stub 0x00#8 (address + BitVec.ofNat 16 i)) :
    (N.saveKernal64 memory bank address size kb).1 = (M.save64 memory bank address size kb).1 ∧
      (M.save64 memory bank address size kb).2.Twin Stub
        (N.saveKernal64 memory bank address size kb).2 := by
  have hbegun := h.saveBegun memory bank address size kb
  have hpc : (M.saveBegun memory bank address size kb).pc = .receiving size kb := pc_saveBegun ..
  have hstart : (M.saveBegun memory bank address size kb).word (c64 rom chips).start = address :=
    congrArg Header.start (header_saveBegun ..)
  unfold Machine.saveKernal64 Machine.save64
  split
  · exact h.saveDone hbegun hpc hstart ha
  · exact h.saveDone (hbegun.trans (twin_stubbed _)) hpc hstart ha

theorem peek64 (memory bank : Byte) (pc : Pc) (f : Byte → Pc) (ha : ¬Stub 0x00#8 address) :
    ((N.peekBegun memory bank address pc).stubbed.peeked memory 0x37#8 address f).1 =
        ((M.peekBegun memory bank address pc).peeked memory 0x37#8 address f).1 ∧
      ((M.peekBegun memory bank address pc).peeked memory 0x37#8 address f).2.Twin Stub
        ((N.peekBegun memory bank address pc).stubbed.peeked memory 0x37#8 address f).2 := by
  have hbegun := (h.peekBegun memory bank address pc).trans (twin_stubbed _)
  exact ⟨(hbegun.look memory 0x37#8 (not_stub ha)).1, hbegun.peeked memory 0x37#8 (not_stub ha)⟩

/-- A poke, where the two listings mean the same by it. -/
theorem poke64 (bank value : Byte) (k : Pc)
    (hwrites : c64Writes (poking M.config memory).1 address = c64Writes memory address)
    (hback : (poking M.config memory).2 = 0x37#8) :
    ((M.pokeBegun memory bank address value k).poked memory 0x37#8 address value).Twin Stub
      ((N.pokeBegun memory bank address value k).poked (poking N.config memory).1
        (poking N.config memory).2 address value) := by
  have hpoked := (h.pokeBegun memory bank address value k).poked memory 0x37#8 address value
  rw [h.config, hback]
  have hsame : ∀ O : Machine (c64 rom chips), O.poked (poking M.config memory).1 0x37#8 address
      value = O.poked memory 0x37#8 address value := by
    intro O
    unfold Machine.poked Machine.put
    have hplace : (c64 rom chips).writes (poking M.config memory).1 address =
      (c64 rom chips).writes memory address := hwrites
    rw [hplace]
    cases (c64 rom chips).writes memory address with
    | _ => rfl
  rw [hsame]
  exact hpoked

end Machine.Twin

end Stubbed

/-! ## Sessions -/

/-- The processor port after a call of the RAM server. -/
def leaves64 (config : Byte) : Call → Byte
  | .load memory _ _ _ => (loading config memory).2
  | .save memory _ _ _ => (saving config memory).2
  | .poke .. => 0x37#8
  | .peek .. => 0x37#8
  | _ => config

/-- The transfers and the bytes of a call are clear of the work cells of the servers, the processor
port and the cable, and what is read is not the stub. -/
def OutsideServers (T : Target) (config : Byte) : Call → Prop
  | .ready => True
  | .ping => True
  | .load memory _ address data => data ≠ [] ∧ data.length ≤ 0x10000 ∧
    ∀ i < data.length, T.Clear (loading config memory).1 (address + BitVec.ofNat 16 i)
  | .save _ _ address size => 0 < size ∧ size ≤ 0x10000 ∧
    ∀ i < size, ¬Stub 0x00#8 (address + BitVec.ofNat 16 i)
  | .poke memory _ address _ =>
    T.Clear memory address ∧ T.Clear (poking config memory).1 address
  | .peek _ _ address => ¬Stub 0x00#8 address
  | _ => False

/-- A poke that the two servers make alike: with `$37` it is one that finds `$37`, with another
memory config that shows I/O it is not one to an I/O register. -/
def PokesAlike (config : Byte) : Call → Prop
  | .poke memory _ address _ => if memory = 0x37#8 then config = 0x37#8
    else IsIo address → ¬ShowsIo memory
  | _ => True

/-- Every call of a session is outside the servers, and every poke one that they make alike. -/
def Alike (T : Target) : Byte → List Call → Prop
  | _, [] => True
  | config, c :: cs => OutsideServers T config c ∧ PokesAlike config c ∧
    Alike T (leaves64 config c) cs

theorem poking_alike {config memory bank value : Byte} {address : Addr}
    (h : PokesAlike config (.poke memory bank address value)) :
    c64Writes (poking config memory).1 address = c64Writes memory address ∧
      (poking config memory).2 = 0x37#8 := by
  rw [PokesAlike] at h
  rw [poking]
  by_cases hmode : memory = 0x37#8
  · rw [if_pos hmode] at h
    rw [if_pos hmode, h, hmode]
    exact ⟨rfl, rfl⟩
  · rw [if_neg hmode] at h
    rw [if_neg hmode]
    refine ⟨c64Writes_eq_iff.mpr ?_, rfl⟩
    intro hio
    exact iff_of_false (by decide) (h hio)

section Serving

variable {T : Target} {h h' : Handlers T}

/-- What a handler makes of a machine, whatever is in the registers. -/
def Gives (h : Handlers T) (command : Byte) (M : Machine T) (r : Request) (M' : Machine T) : Prop :=
  ∀ {a x : Byte} {z n : Bool} {st : List Byte}, wp (h.handler command)
    (fun o t => o = .returned (some r) ∧ t.bus = M') ⟨a, x, command, z, n, st, M⟩

/-- Some interrupts, all of which are returned from, with the requests they were taken for. -/
inductive Serving (h : Handlers T) : Nat → Machine T → List Request → Machine T → Prop
  | done {M : Machine T} : Serving h 0 M [] M
  | step {n : Nat} {M M' M'' : Machine T} {command : Byte} {k : Pc} {r : Request}
    {rs : List Request} : Ready M → M.pc = .sending [command] k →
    Gives h command (M.received command k) r M' → Serving h n M' rs M'' →
    Serving h (n + 1) M (r :: rs) M''

theorem Serving.append {m n : Nat} {M M' M'' : Machine T} {rs rs' : List Request}
    (hfirst : Serving h m M rs M') (hrest : Serving h n M' rs' M'') :
    Serving h (m + n) M (rs ++ rs') M'' := by
  induction hfirst with
  | done =>
    rw [Nat.zero_add]
    exact hrest
  | step hM hpc hgives _ ih =>
    rw [Nat.add_right_comm]
    exact .step hM hpc hgives (ih hrest)

/-- The dispatch loop takes the interrupts. -/
theorem Serving.wp {n : Nat} {M M' : Machine T} {rs : List Request} (hserving : Serving h n M rs M')
    {s : Cpu (Machine T)} (hs : s.bus = M) :
    wp (serve h (fun _ s => s) n) (fun rs' t => rs' = rs ∧ t.bus = M') s := by
  induction hserving generalizing s with
  | done =>
    rw [serve, wp_pure]
    exact ⟨rfl, hs⟩
  | @step n M M' M'' command k r rs hM hpc hgives _ ih =>
    subst hs
    obtain ⟨a, x, y, z, n', st, M⟩ := s
    simp only [serve, wp_bind]
    apply wp_irq command hM.visible hM.input hpc
    intro a x z n'
    apply wp_mono hgives
    rintro o t ⟨rfl, ht⟩
    simp only [wp_pure, wp_bind, wp_elsewhere]
    apply wp_mono (ih ht)
    rintro rs' u ⟨rfl, hu⟩
    exact ⟨rfl, hu⟩

theorem gives_ping (M : Machine T) : Gives h Command.ping M (.other Command.ping) M := by
  intro a x z n st
  have hother : h.handler Command.ping = pure (.returned (some (.other Command.ping))) := rfl
  rw [hother, wp_pure]
  exact ⟨rfl, rfl⟩

/-- A call is a ping and a request. -/
theorem Serving.call {M M' : Machine T} {command : Byte} {k : Pc} {r : Request} (hM : Ready M)
    (hpc : M.pc = .sending [Command.ping] (.sending [command] k))
    (hgives : Gives h command ((M.received Command.ping (.sending [command] k)).received command k)
      r M') : Serving h 2 M [.other Command.ping, r] M' :=
  .step hM hpc (gives_ping _) (.step (ready_received hM) rfl hgives .done)

end Serving

section Agreement

variable {rom : Addr → Byte} {chips : List Access → Addr → Byte} {table table' : Table}
  {back back' : Addr} {basic basic' : Code (c64 rom chips) Unit} {M N : Machine (c64 rom chips)}

/-- Two servers take some interrupts alike: for the same requests, and with twins as the result. -/
def ServeAlike (h h' : Handlers (c64 rom chips)) (n : Nat) (M N : Machine (c64 rom chips))
    (P : List Request → Machine (c64 rom chips) → Prop) : Prop :=
  ∃ rs M' N', Serving h n M rs M' ∧ Serving h' n N rs N' ∧ M'.Twin Stub N' ∧ P rs M'

theorem ServeAlike.append {h h' : Handlers (c64 rom chips)} {m n : Nat}
    {P Q : List Request → Machine (c64 rom chips) → Prop} (hfirst : ServeAlike h h' m M N P)
    (hrest : ∀ rs M' N', M'.Twin Stub N' → P rs M' →
      ServeAlike h h' n M' N' fun rs' M'' => Q (rs ++ rs') M'') :
    ServeAlike h h' (m + n) M N Q := by
  obtain ⟨rs, M', N', hM, hN, htwin, hP⟩ := hfirst
  obtain ⟨rs', M'', N'', hM', hN', htwin', hQ⟩ := hrest rs M' N' htwin hP
  exact ⟨rs ++ rs', M'', N'', hM.append hM', hN.append hN', htwin', hQ⟩

/-- Where the machine is after a call: ready, with the replies received. -/
structure AfterCall (config : Byte) (cs : List Call) (received : List Byte) (rs : List Request)
    (M : Machine (c64 rom chips)) : Prop where
  ready : Ready M
  config : M.config = config
  pc : M.pc = Pc.session cs (received ++ rs.flatMap Request.reply)

/-- A request that both servers make the same of, after the ping. -/
theorem alike_request {h h' : Handlers (c64 rom chips)} {command : Byte} {k : Pc} {config : Byte}
    {cs : List Call} {received : List Byte} (hM : Ready M) (htwin : M.Twin Stub N)
    (hpc : M.pc = .sending [Command.ping] (.sending [command] k))
    (hgives : ∀ M₁ N₁ : Machine (c64 rom chips), Ready M₁ → M₁.Twin Stub N₁ → M₁.pc = k →
      M₁.config = M.config → ∃ r M' N', Gives h command M₁ r M' ∧ Gives h' command N₁ r N' ∧
        M'.Twin Stub N' ∧ AfterCall config cs received [r] M') :
    ServeAlike h h' 2 M N (AfterCall config cs received) := by
  have hpc' : N.pc = .sending [Command.ping] (.sending [command] k) := htwin.pc.trans hpc
  obtain ⟨r, M', N', hr, hr', htwin', hafter⟩ := hgives
    ((M.received Command.ping (.sending [command] k)).received command k)
    ((N.received Command.ping (.sending [command] k)).received command k)
    (ready_received (ready_received hM)) ((htwin.received _ _).received _ _) rfl rfl
  exact ⟨_, M', N', .call hM hpc hr, .call (htwin.ready hM) hpc' hr', htwin',
    hafter.ready, hafter.config, hafter.pc⟩

/-- **One call**, by its request. -/
theorem alike_call {c : Call} {cs : List Call} {received : List Byte} (hM : Ready M)
    (htwin : M.Twin Stub N) (hpc : M.pc = Pc.session (c :: cs) received)
    (houtside : OutsideServers (c64 rom chips) M.config c) (hpokes : PokesAlike M.config c) :
    ServeAlike (Server64.handlers table back basic) (Kernal64.handlers table' back' basic')
      (interrupts c) M N (AfterCall (leaves64 M.config c) cs received) := by
  cases c with
  | ready =>
    refine ⟨[], M, N, .done, .done, htwin, hM, rfl, ?_⟩
    rw [hpc, List.flatMap_nil, List.append_nil]
    rfl
  | ping =>
    rw [session_ping] at hpc
    have hping := htwin.received Command.ping (Pc.session cs received)
    refine ⟨[.other Command.ping], _, _, .step hM hpc (gives_ping _) .done,
      .step (htwin.ready hM) (htwin.pc.trans hpc) (gives_ping _) .done, hping,
      ready_received hM, rfl, ?_⟩
    show Pc.session cs received = Pc.session cs (received ++ [])
    rw [List.append_nil]
  | load memory bank address data =>
    obtain ⟨hne, hmax, hclear⟩ := houtside
    rw [session_load _ _ _ _ _ hne] at hpc
    apply alike_request hM htwin hpc
    intro M₁ N₁ hM₁ htwin₁ hpc₁ hconfig
    have hclear' : ∀ i < data.length, (c64 rom chips).Clear (loading M₁.config memory).1
        (address + BitVec.ofNat 16 i) := by
      rw [hconfig]
      exact hclear
    refine ⟨.load memory bank address (address + BitVec.ofNat 16 data.length) data,
      M₁.load64 memory bank address data (Pc.session cs received),
      N₁.load64 memory bank address data (Pc.session cs received), ?_, ?_,
      htwin₁.load64 memory bank address data _, ready_load64 hM₁ hne, ?_, ?_⟩
    · exact wp_load64 hM₁.visible hM₁.input hne hmax hclear' hpc₁ fun _ _ _ _ _ => ⟨rfl, rfl⟩
    · have hready := htwin₁.ready hM₁
      rw [← htwin₁.config] at hclear'
      intro a x z n st
      apply wp_load64 hready.visible hready.input hne hmax hclear' (htwin₁.pc.trans hpc₁)
      intro a x y z n
      exact ⟨rfl, rfl⟩
    · rw [config_load64 hne, hconfig]
      rfl
    · rw [pc_load64]
      show Pc.session cs received = Pc.session cs (received ++ [])
      rw [List.append_nil]
  | save memory bank address size =>
    obtain ⟨hpos, hmax, hstub⟩ := houtside
    rw [session_save _ _ _ _ _ hpos] at hpc
    apply alike_request hM htwin hpc
    intro M₁ N₁ hM₁ htwin₁ hpc₁ hconfig
    obtain ⟨hreply, htwin'⟩ := htwin₁.save64 memory bank
      (fun reply => Pc.session cs (received ++ reply)) hstub
    obtain ⟨hready, hleft, -⟩ := saveDone_spec memory hM₁ hpos (pc_saveBegun M₁ memory bank address
      size fun reply => Pc.session cs (received ++ reply))
    refine ⟨.save memory bank address (address + BitVec.ofNat 16 size)
        (M₁.save64 memory bank address size fun reply => Pc.session cs (received ++ reply)).1,
      (M₁.save64 memory bank address size fun reply => Pc.session cs (received ++ reply)).2,
      (N₁.saveKernal64 memory bank address size fun reply =>
        Pc.session cs (received ++ reply)).2, ?_, ?_, htwin', hready, ?_, ?_⟩
    · exact wp_save64 hM₁.visible hM₁.input hpos hmax hpc₁ fun _ _ _ _ _ => ⟨rfl, rfl⟩
    · have hready' := htwin₁.ready hM₁
      intro a x z n st
      apply wp_saveKernal64 hready'.visible hready'.input hpos hmax (htwin₁.pc.trans hpc₁)
      intro a x y z n
      rw [hreply]
      exact ⟨rfl, rfl⟩
    · rw [leaves64, ← hconfig]
      exact config_saveDone hpos
    · show _ = Pc.session cs (received ++ (_ ++ []))
      rw [List.append_nil]
      exact hleft
  | poke memory bank address value =>
    obtain ⟨hclear, hclear'⟩ := houtside
    obtain ⟨hwrites, hback⟩ := poking_alike hpokes
    rw [session_poke] at hpc
    apply alike_request hM htwin hpc
    intro M₁ N₁ hM₁ htwin₁ hpc₁ hconfig
    rw [← hconfig] at hwrites hback hclear'
    refine ⟨.poke memory bank address value, _, _, ?_, ?_, htwin₁.poke64 bank value
      (Pc.session cs received) hwrites hback, ⟨visible_default, ?_⟩, rfl, ?_⟩
    · exact wp_poke64 hM₁.visible hM₁.input hclear hpc₁ fun _ _ _ _ _ => ⟨rfl, rfl⟩
    · have hready := htwin₁.ready hM₁
      rw [← htwin₁.config] at hclear'
      intro a x z n st
      apply wp_pokeKernal64 hready.visible hready.input hclear' (htwin₁.pc.trans hpc₁)
      intro a x y z n
      exact ⟨rfl, rfl⟩
    · exact dd03_poked.trans ((dd03_pokeBegun ..).trans hM₁.input)
    · rw [pc_poked, pc_pokeBegun]
      show Pc.session cs received = Pc.session cs (received ++ [])
      rw [List.append_nil]
  | peek memory bank address =>
    rw [session_peek] at hpc
    apply alike_request hM htwin hpc
    intro M₁ N₁ hM₁ htwin₁ hpc₁ hconfig
    obtain ⟨hreply, htwin'⟩ := htwin₁.peek64 memory bank
      (.receiving 1 fun reply => Pc.session cs (received ++ reply))
      (fun v => Pc.session cs (received ++ [v])) houtside
    refine ⟨.peek memory bank address ((M₁.peekBegun memory bank address (.receiving 1 fun reply =>
      Pc.session cs (received ++ reply))).peeked memory 0x37#8 address fun v =>
        Pc.session cs (received ++ [v])).1, _, _, ?_, ?_, htwin', ⟨visible_default, rfl⟩, rfl, ?_⟩
    · intro a x z n st
      apply wp_peek64 (f := fun v => Pc.session cs (received ++ [v])) hM₁.visible hM₁.input hpc₁ rfl
      intro a x y z n
      exact ⟨rfl, rfl⟩
    · have hready := htwin₁.ready hM₁
      intro a x z n st
      apply wp_peekKernal64 (f := fun v => Pc.session cs (received ++ [v])) hready.visible
        hready.input (htwin₁.pc.trans hpc₁) rfl
      intro a x y z n
      rw [hreply]
      exact ⟨rfl, rfl⟩
    · exact pc_peeked
  | identify => exact houtside.elim
  | jump => exact houtside.elim
  | run => exact houtside.elim
  | inject => exact houtside.elim

/-- **A session**, call by call. -/
theorem alike_session {calls rest : List Call} {received : List Byte} (hM : Ready M)
    (htwin : M.Twin Stub N) (hpc : M.pc = Pc.session (calls ++ rest) received)
    (hcalls : Alike (c64 rom chips) M.config calls) :
    ServeAlike (Server64.handlers table back basic) (Kernal64.handlers table' back' basic')
      (calls.map interrupts).sum M N fun rs M' =>
        M'.pc = Pc.session rest (received ++ rs.flatMap Request.reply) := by
  induction calls generalizing M N received with
  | nil =>
    refine ⟨[], M, N, .done, .done, htwin, ?_⟩
    show M.pc = Pc.session rest (received ++ [])
    rw [hpc, List.append_nil]
    rfl
  | cons c cs ih =>
    obtain ⟨houtside, hpokes, hcs⟩ := hcalls
    rw [List.map_cons, List.sum_cons]
    apply (alike_call hM htwin hpc houtside hpokes).append
    rintro rs M' N' htwin' ⟨hready, hconfig, hleft⟩
    rw [← hconfig] at hcs
    obtain ⟨rs', M'', N'', hserving, hserving', htwin'', hend⟩ := ih hready htwin' hleft hcs
    refine ⟨rs', M'', N'', hserving, hserving', htwin'', ?_⟩
    show M''.pc = Pc.session rest (received ++ (rs ++ rs').flatMap Request.reply)
    rw [hend, List.flatMap_append, List.append_assoc]

/-- **The RAM server and the KERNAL server of the C64 are equivalent in every session in which they
make every poke alike.** From machines that differ in the stub at most they take its calls for the
same requests and answer them with the same bytes; they leave the same zero page, the same
processor port and, but for the stub, the same RAM, and the log of their accesses to I/O registers
is the same. (The ROM is the same one on both sides: the KERNAL server's own code is in it.) -/
theorem servers_agree {calls rest : List Call} {received : List Byte} (hM : Ready M)
    (htwin : M.Twin Stub N) (hpc : M.pc = Pc.session (calls ++ rest) received)
    (hcalls : Alike (c64 rom chips) M.config calls) {a x y a' x' y' : Byte} {z n z' n' : Bool}
    {st st' : List Byte} :
    wp (serve (Server64.handlers table back basic) (fun _ s => s) (calls.map interrupts).sum)
      (fun rs t => wp (serve (Kernal64.handlers table' back' basic') (fun _ s => s)
        (calls.map interrupts).sum) (fun rs' u => rs' = rs ∧
          t.bus.pc = Pc.session rest (received ++ rs.flatMap Request.reply) ∧
          u.bus.pc = t.bus.pc ∧ u.bus.zp = t.bus.zp ∧ u.bus.config = t.bus.config ∧
          (∀ b a, ¬Stub b a → u.bus.ram b a = t.bus.ram b a) ∧ u.bus.log = t.bus.log)
        ⟨a', x', y', z', n', st', N⟩) ⟨a, x, y, z, n, st, M⟩ := by
  have hserve : ServeAlike (Server64.handlers table back basic)
      (Kernal64.handlers table' back' basic') (calls.map interrupts).sum M N fun rs M' =>
        M'.pc = Pc.session rest (received ++ rs.flatMap Request.reply) :=
    alike_session hM htwin hpc hcalls
  obtain ⟨rs, M', N', hserving, hserving', htwin', hleft⟩ := hserve
  apply wp_mono (hserving.wp rfl)
  rintro rs₁ t ⟨rfl, rfl⟩
  apply wp_mono (hserving'.wp rfl)
  rintro rs₂ u ⟨rfl, rfl⟩
  have hconfig := htwin'.config
  have hzp := htwin'.zp
  have hlog := htwin'.log
  have hpc' := htwin'.pc
  obtain ⟨ram, hN, hram⟩ := htwin'
  refine ⟨rfl, hleft, hpc', hzp, hconfig, ?_, hlog⟩
  intro b a ha
  rw [hN]
  exact hram b a ha

end Agreement

/-! ## A session and a poke -/

/-- The KERNAL server of the machine of `emptySite`. -/
def emptyKernal : Listing :=
  .kernal64 (fun _ => 0x00#8) (fun _ _ => 0x00#8) 0xe000#16 0xffff#16 0xe000#16 (pure ())

/-- A byte is poked to the screen and a colour to the border, a byte is loaded and saved, and one
peeked from the RAM below the KERNAL. -/
def twinSession : List Call :=
  [.poke 0x37#8 0x00#8 0x0400#16 0x01#8, .poke 0x37#8 0x00#8 0xd020#16 0x02#8,
    .load 0x37#8 0x00#8 0x0401#16 [0x60#8], .save 0x30#8 0x00#8 0x0401#16 1,
    .peek 0x30#8 0x00#8 0xe000#16]

theorem alike_twinSession : Alike emptySite.target 0x37#8 twinSession := by
  refine ⟨⟨trivial, trivial⟩, rfl, ⟨?_, ?_⟩, rfl, ⟨List.cons_ne_nil _ _, by decide, ?_⟩, trivial,
    ⟨by decide, by decide, ?_⟩, trivial, ?_, trivial, trivial⟩
  · exact ⟨by decide, by decide, by decide⟩
  · exact ⟨by decide, by decide, by decide⟩
  · intro i hi
    obtain rfl : i = 0 := by simpa using hi
    trivial
  · intro i hi
    obtain rfl : i = 0 := by simpa using hi
    rintro ⟨-, -, h⟩
    revert h
    decide
  · rintro ⟨-, -, h⟩
    revert h
    decide

theorem servers_agree_session :
    wp (serve emptySite.handlers (fun _ s => s) (twinSession.map interrupts).sum) (fun rs t =>
      wp (serve emptyKernal.handlers (fun _ s => s) (twinSession.map interrupts).sum)
        (fun rs' u => rs' = rs ∧
          t.bus.pc = Pc.session [] ([] ++ rs.flatMap Request.reply) ∧
          u.bus.pc = t.bus.pc ∧ u.bus.zp = t.bus.zp ∧ u.bus.config = t.bus.config ∧
          (∀ b a, ¬Stub b a → u.bus.ram b a = t.bus.ram b a) ∧ u.bus.log = t.bus.log)
        ⟨0x00#8, 0x00#8, 0x00#8, false, false, [],
          emptyMachine.asked (Pc.session (twinSession ++ []) [])⟩)
      ⟨0x00#8, 0x00#8, 0x00#8, false, false, [],
        emptyMachine.asked (Pc.session (twinSession ++ []) [])⟩ :=
  servers_agree (ready_asked emptyMachine_ready) .refl rfl alike_twinSession

/-- With the BASIC ROM and the KERNAL switched off, the RAM server pokes the border colour, the
KERNAL server the RAM below it. -/
theorem kernal_poke_below :
    wp (irq emptySite.handlers) (fun _ t => wp (irq emptyKernal.handlers) (fun _ u =>
        t.bus.io = [.write 0xd020#16 0x01#8] ∧ t.bus.ram 0x00#8 0xd020#16 = 0x00#8 ∧
        u.bus.io = [] ∧ u.bus.ram 0x00#8 0xd020#16 = 0x01#8)
      ⟨0x00#8, 0x00#8, 0x00#8, false, false, [], emptyMachine.asked (.sending [Command.poke, 0x35#8,
        0x00#8, 0x20#8, 0xd0#8, 0x01#8] (.done []))⟩)
      ⟨0x00#8, 0x00#8, 0x00#8, false, false, [], emptyMachine.asked (.sending [Command.poke, 0x35#8,
        0x00#8, 0x20#8, 0xd0#8, 0x01#8] (.done []))⟩ := by
  have hpc : (Transfer.poke 0x35#8 0x00#8 0xd020#16 0x01#8).Asked (.sending [Command.poke, 0x35#8,
    0x00#8, 0x20#8, 0xd0#8, 0x01#8] (.done [])) := ⟨_, rfl, _, rfl⟩
  have hserver : emptySite.Allows emptyMachine (.poke 0x35#8 0x00#8 0xd020#16 0x01#8) := by
    change Place.Clear emptySite.work (.io 0xd020#16)
    exact ⟨by decide, by decide, by decide⟩
  have hkernal : emptyKernal.Allows emptyMachine (.poke 0x35#8 0x00#8 0xd020#16 0x01#8) := trivial
  apply wp_mono (wp_poke_byte emptyMachine_ready hpc hserver)
  rintro o t ⟨-, ht⟩
  apply wp_mono (wp_poke_byte (l := emptyKernal) emptyMachine_ready hpc hkernal)
  rintro o' u ⟨-, hu⟩
  refine ⟨?_, ?_, ?_, ?_⟩
  · rw [ht.io]
    rfl
  · rw [ht.ram 0x00#8 0xd020#16 id]
    rfl
  · rw [hu.io]
    rfl
  · have hstub : ¬emptyKernal.scratch.ram 0x00#8 0xd020#16 := by
      rintro ⟨-, -, h⟩
      revert h
      decide
    rw [hu.ram 0x00#8 0xd020#16 hstub]
    rfl

end Xlink.Server
