import Xlink.Server.Frames
import Xlink.Server.Server64

/-!
# Rules for the C64 handlers

What the rounds and the handlers of `server64.asm` and `kernal64.asm` do to the machine. A load goes
through the configuration of the interrupt when the memory config is `$37`, bit 7 aside, and through
`$33` otherwise; a save through the configuration of the interrupt when it is exactly `$37`, and
through the memory config itself otherwise.
-/

namespace Xlink.Server

open Word Mos6502 Port

variable {rom : Addr → Byte} {chips : List Access → Addr → Byte}

/-! ## The configuration -/

/-- I/O is visible when one of the ROM bits and the character ROM bit are set. -/
theorem c64_visible {config : Byte} (hrom : config &&& 0x03#8 ≠ 0x00#8)
    (hchar : config &&& 0x04#8 = 0x04#8) : (c64 rom chips).Visible config := by
  intro a ha
  have hreads : c64Reads config a = .io a := by
    obtain ⟨hlow, hhigh⟩ := ha
    rw [c64Reads_above config (by omega), if_neg (by omega), if_neg (by omega), if_neg (by omega),
      if_pos hhigh, if_neg hrom, if_pos hchar]
  exact ⟨hreads, by simp only [c64, c64Writes, hreads]⟩

theorem visible_default : (c64 rom chips).Visible 0x37#8 := c64_visible (by decide) (by decide)

theorem write_port (M : Machine (c64 rom chips)) (v : Byte) :
    Bus.write (zeroPage 0x01#8) v M = some { M with config := v } := rfl

section Rounds

variable {M : Machine (c64 rom chips)} {a x y : Byte} {z n : Bool} {st : List Byte} {k : Pc}

theorem loadRound_slow64 : LoadRound (T := c64 rom chips) Server64.loadSlow 0x33#8 0x37#8
    (c64 rom chips).work (fun M => (c64 rom chips).Visible M.config ∧ M.dd03 = 0x00#8) st where
  counters := List.Subset.refl _
  round := by
    rintro M a x z n b k Q ⟨hvis, hin⟩ hclear hpc h
    obtain ⟨h₀, h₁, h₂, h₃, -⟩ := mem_work (T := c64 rom chips)
    let N : Machine (c64 rom chips) :=
      { M.strobed (some b) (.ack fun _ => k) with config := 0x33#8 }
    have hstore : Bus.write (M.word (c64 rom chips).start) b N =
        some (N.put (M.word (c64 rom chips).start) b) :=
      Machine.write_eq_put (M := N) hclear b
    have hword : ∀ c, c ∈ (c64 rom chips).work → c + 1#8 ∈ (c64 rom chips).work →
        (({ N.put (M.word (c64 rom chips).start) b with config := 0x37#8 } :
          Machine (c64 rom chips)).acked k).word c = M.word c :=
      fun c hc hc₁ => word_put (M := N) hclear hc hc₁
    simp only [Server64.loadSlow, wp_bind]
    refine wp_wait hvis hpc fun a z n => ?_
    simp only [wp_lda, fetch_abs, read_dd01 (M := M.strobed _ _) hvis,
      portB_input (M := M.strobed _ _) hin, wp_ldxImm, wp_stx, locate_zp, write_port,
      Option.some.injEq, exists_eq_left', wp_sta, locate_start]
    refine ⟨_, hstore, ?_⟩
    simp only [wp_observe, wp_ldaImm, wp_sta, locate_zp, write_port, Option.some.injEq,
      exists_eq_left']
    refine wp_ack visible_default (by rw [Machine.pc_put]; rfl) fun a z n => ?_
    refine wp_next fun a z n => ?_
    rw [hword _ h₀ h₁, hword _ h₂ h₃, wp_pure]
    exact h _ _ _ _
  keeps := by
    rintro M b k ⟨hvis, hin⟩ hclear
    exact ⟨visible_default, by rw [dd03_stored, hin]⟩

/-- The machines the rounds of a save under `memory` are good in. -/
def Saving (memory : Byte) (M : Machine (c64 rom chips)) : Prop :=
  (c64 rom chips).Visible M.config ∧ M.dd03 = 0xff#8 ∧ M.zp (c64 rom chips).mem = memory

theorem saving_given {memory : Byte} {f : Byte → Pc} (hM : Saving memory M)
    (hpc : M.pc.Takes f) : Saving memory (M.given memory 0x37#8 f).2 := by
  obtain ⟨-, hout, hmem⟩ := hM
  obtain ⟨-, -, -, -, -, hne, hne', -⟩ := (c64 rom chips).work_ne
  refine ⟨visible_default, (dd03_given hpc).trans hout, ?_⟩
  rw [zp_given hpc, zp_setWord_of_ne _ hne hne', hmem]

theorem read_mem (M : Machine (c64 rom chips)) :
    Bus.read (zeroPage (c64 rom chips).mem) M = (M.zp (c64 rom chips).mem, M) :=
  read_cell (by simp [Target.cells, Target.work])

theorem saveRound_slow64 (memory : Byte) : SaveRound (T := c64 rom chips) Server64.saveSlow
    memory 0x37#8 (Saving memory) st where
  round := by
    rintro M a x z n f Q ⟨hvis, hout, hmem⟩ hpc h
    simp only [Server64.saveSlow, wp_bind, wp_lda, read_mem, hmem, wp_sta, locate_zp,
      write_port, Option.some.injEq, exists_eq_left', Mode.fetch, locate_start, wp_ldxImm, wp_stx,
      wp_observe, wp_pure]
    exact wp_giveNext visible_default hout hpc rfl h
  keeps := saving_given

theorem saveRound_fastKernal (memory : Byte) : SaveRound (T := c64 rom chips) Kernal64.saveFast
    memory 0x37#8 (Saving memory) st where
  round := by
    rintro M a x z n f Q ⟨hvis, hout, hmem⟩ hpc h
    simp only [Kernal64.saveFast, wp_bind, wp_ldx, read_mem, hmem, wp_stx, locate_zp,
      write_port, Option.some.injEq, exists_eq_left', wp_lda, Mode.fetch, locate_start, wp_ldxImm,
      wp_observe, wp_pure]
    exact wp_giveNext visible_default hout hpc rfl h
  keeps := saving_given

theorem saveRound_slowKernal (memory : Byte) : SaveRound (T := c64 rom chips) Kernal64.saveSlow
    memory 0x37#8 (Saving memory) st where
  round := by
    rintro M a x z n f Q ⟨hvis, hout, hmem⟩ hpc h
    simp only [Kernal64.saveSlow, Kernal64.Ram.read, wp_jsr, wp_bind, wp_lda, read_mem,
      hmem, wp_sta, locate_zp, write_port, Option.some.injEq, exists_eq_left', Mode.fetch,
      locate_start, wp_ldxImm, wp_stx, wp_observe, wp_pure]
    exact wp_giveNext visible_default hout hpc rfl h
  keeps := saving_given

end Rounds

/-! ## Loads -/

/-- The configurations a load writes under and leaves behind. -/
def loading (entry memory : Byte) : Byte × Byte :=
  if memory &&& 0x7f#8 = 0x37#8 then (entry, entry) else (0x33#8, 0x37#8)

/-- The configurations a save reads under and leaves behind. -/
def saving (entry memory : Byte) : Byte × Byte :=
  if memory = 0x37#8 then (entry, entry) else (memory, 0x37#8)

theorem visible_loading {entry : Byte} (h : (c64 rom chips).Visible entry) (memory : Byte) :
    (c64 rom chips).Visible (loading entry memory).2 := by
  unfold loading
  split
  · exact h
  · exact visible_default

theorem visible_saving {entry : Byte} (h : (c64 rom chips).Visible entry) (memory : Byte) :
    (c64 rom chips).Visible (saving entry memory).2 := by
  unfold saving
  split
  · exact h
  · exact visible_default

namespace Machine

variable (M : Machine (c64 rom chips)) (memory bank : Byte) (address : Addr)

/-- A load is done. -/
def load64 (payload : List Byte) (k : Pc) : Machine (c64 rom chips) :=
  let N := M.loadBegun memory bank address payload k
  ((N.loaded (loading M.config memory).1 (loading M.config memory).2 payload k).relinked
    N.basic).screen 0x1b#8

/-- A save is done, these are the bytes sent. -/
def saveDone (size : Nat) (k : List Byte → Pc) (N : Machine (c64 rom chips)) :
    List Byte × Machine (c64 rom chips) :=
  let r := N.saved (saving M.config memory).1 (saving M.config memory).2 size k
  (r.1, r.2.released.screen 0x1b#8)

def save64 (size : Nat) (k : List Byte → Pc) : List Byte × Machine (c64 rom chips) :=
  M.saveDone memory size k (M.saveBegun memory bank address size k)

/-- The routine that reads RAM is at the bottom of page one. -/
def stubbed : Machine (c64 rom chips) := M.copied Kernal64.codestart 0x0100#16

/-- It is copied there when the save would lose the KERNAL. -/
def saveKernal64 (size : Nat) (k : List Byte → Pc) : List Byte × Machine (c64 rom chips) :=
  M.saveDone memory size k
    (if memory &&& 0x02#8 = 0x02#8 then M.saveBegun memory bank address size k
      else (M.saveBegun memory bank address size k).stubbed)

end Machine

section Transfers

variable {M : Machine (c64 rom chips)} {a x y : Byte} {z n : Bool} {st : List Byte} {k : Pc}
  {memory bank : Byte} {address : Addr} {Q : Outcome → Cpu (Machine (c64 rom chips)) → Prop}

/-- The end of a load. -/
theorem wp_loadDone {P : Cpu (Machine (c64 rom chips)) → Prop} {basic : Byte}
    (hvis : (c64 rom chips).Visible M.config)
    (h : ∀ a x y z n, P ⟨a, x, y, z, n, st, (M.relinked basic).screen 0x1b#8⟩) :
    wp relinkBasic (fun _ t => wp screenOn (fun _ t => P t) t)
      ⟨a, x, y, z, n, basic :: st, M⟩ := by
  refine wp_relinkBasic fun a z n => ?_
  refine wp_screenOn (by rw [config_relinked]; exact hvis) fun a z n => ?_
  exact h a x y z n

theorem wp_load64 {payload : List Byte} (hvis : (c64 rom chips).Visible M.config)
    (hin : M.dd03 = 0x00#8) (hne : payload ≠ []) (hmax : payload.length ≤ 0x10000)
    (hclear : ∀ i < payload.length, (c64 rom chips).Clear (loading M.config memory).1
      (address + BitVec.ofNat 16 i))
    (hpc : M.pc = .sending [memory, bank, lo address, hi address,
      lo (address + BitVec.ofNat 16 payload.length),
      hi (address + BitVec.ofNat 16 payload.length)] (.sending payload k))
    (h : ∀ a x y z n, Q
      (.returned (some (.load memory bank address (address + BitVec.ofNat 16 payload.length)
        payload)))
      ⟨a, x, y, z, n, st, M.load64 memory bank address payload k⟩) :
    wp Server64.load Q ⟨a, x, y, z, n, st, M⟩ := by
  simp only [Server64.load, wp_bind, wp_jsr, wp_observe]
  refine wp_readHeader hvis hin hpc fun a x z n => ?_
  rw [header_headed]
  refine wp_screenOff (by rw [config_headed]; exact hvis) fun a z n => ?_
  change wp _ _ ⟨a, x, y, z, n, st, M.loadBegun memory bank address payload k⟩
  have hcells := header_loadBegun M memory bank address payload k
  have hmem : (M.loadBegun memory bank address payload k).zp (c64 rom chips).mem = memory :=
    congrArg Header.memory hcells
  refine wp_checkBasic fun a z n => ?_
  simp only [wp_ldyImm, wp_lda, fetch_zp, read_mem, hmem, wp_andImm, wp_cmpImm, wp_ifNe, wp_pure,
    beq_eq_false_iff_ne]
  have hvis' := visible_loading hvis memory
  have hloaded : ∀ {config back : Byte}, loading M.config memory = (config, back) →
      ∀ a x z n, wp relinkBasic (fun _ t => wp screenOn (fun _ t => Q (.returned (some (.load memory
        bank address (address + BitVec.ofNat 16 payload.length) payload))) t) t)
        ⟨a, x, 0x00#8, z, n, (M.loadBegun memory bank address payload k).basic :: st,
          (M.loadBegun memory bank address payload k).loaded config back payload k⟩ := by
    intro config back hconfig a x z n
    rw [hconfig] at hvis'
    refine wp_loadDone (by rw [config_loaded hne]; exact hvis') fun a x y z n => ?_
    rw [Machine.load64, hconfig] at h
    exact h a x y z n
  have hstart : (M.loadBegun memory bank address payload k).word (c64 rom chips).start = address :=
    congrArg Header.start hcells
  have hstop : (M.loadBegun memory bank address payload k).word (c64 rom chips).stop =
      address + BitVec.ofNat 16 payload.length := congrArg Header.stop hcells
  split
  next hmode =>
    have hslow : loading M.config memory = (0x33#8, 0x37#8) := if_neg hmode
    rw [hslow] at hclear
    exact loadRound_slow64.loop hmax hne hmax (by simpa using ⟨hvis, hin⟩) (by rwa [hstart])
      (by rw [hstart, hstop]) (pc_loadBegun ..) (hloaded hslow)
  next hmode =>
    have hfast : loading M.config memory = (M.config, M.config) := if_pos (by simpa using hmode)
    rw [hfast] at hclear
    exact (loadRound_near hvis).loop hmax hne hmax (by simpa using hin) (by rwa [hstart])
      (by rw [hstart, hstop]) (pc_loadBegun ..) (hloaded hfast)

/-- The end of a save. -/
theorem wp_saveDone {P : Cpu (Machine (c64 rom chips)) → Prop}
    (hvis : (c64 rom chips).Visible M.config)
    (h : ∀ a x y z n, P ⟨a, x, y, z, n, st, M.released.screen 0x1b#8⟩) :
    wp (ldaImm 0x00#8) (fun _ t => wp (sta (.abs 0xdd03#16)) (fun _ t =>
      wp screenOn (fun _ t => P t) t) t) ⟨a, x, y, z, n, st, M⟩ := by
  simp only [wp_ldaImm, wp_sta, locate_abs, write_dd03 hvis, Option.some.injEq, exists_eq_left']
  refine wp_screenOn (M := M.released) hvis fun a z n => ?_
  exact h a x y z n

/-- The loop of a save and its end. -/
theorem SaveRound.done {body : Code (c64 rom chips) (Byte × Bool)} {config back : Byte}
    {ok : Machine (c64 rom chips) → Prop} (hround : SaveRound body config back ok st)
    {P : List Byte → Cpu (Machine (c64 rom chips)) → Prop} {size : Nat} {kb : List Byte → Pc}
    {N : Machine (c64 rom chips)} (hconfig : saving M.config memory = (config, back))
    (hvis : (c64 rom chips).Visible M.config) (hpos : 0 < size) (hmax : size ≤ 0x10000)
    (hok : ok N) (hstop : N.word (c64 rom chips).stop =
      N.word (c64 rom chips).start + BitVec.ofNat 16 size)
    (hpc : N.pc = .receiving size kb)
    (h : ∀ a x y z n, P (M.saveDone memory size kb N).1
      ⟨a, x, y, z, n, st, (M.saveDone memory size kb N).2⟩) :
    wp (Mos6502.loop body rounds) (fun reply t => wp (ldaImm 0x00#8) (fun _ t =>
      wp (sta (.abs 0xdd03#16)) (fun _ t => wp screenOn (fun _ t => P reply t) t) t) t)
      ⟨a, x, 0x00#8, z, n, st, N⟩ := by
  have hvis' := visible_saving hvis memory
  rw [hconfig] at hvis'
  refine hround.loop hmax hpos hmax hok hstop hpc fun a x z n => ?_
  refine wp_saveDone (by rw [config_saved hpos]; exact hvis') fun a x y z n => ?_
  rw [Machine.saveDone, hconfig] at h
  exact h a x y z n

theorem saving_saveBegun (hvis : (c64 rom chips).Visible M.config) (memory bank : Byte)
    (address : Addr) (size : Nat) (kb : List Byte → Pc) :
    Saving memory (M.saveBegun memory bank address size kb) := by
  refine ⟨?_, dd03_saveBegun .., congrArg Header.memory (header_saveBegun ..)⟩
  rw [config_saveBegun]
  exact hvis

theorem range_saveBegun (M : Machine (c64 rom chips)) (memory bank : Byte) (address : Addr)
    (size : Nat) (kb : List Byte → Pc) :
    (M.saveBegun memory bank address size kb).word (c64 rom chips).stop =
      (M.saveBegun memory bank address size kb).word (c64 rom chips).start +
        BitVec.ofNat 16 size := by
  have hcells := header_saveBegun M memory bank address size kb
  have hstart : (M.saveBegun memory bank address size kb).word (c64 rom chips).start = address :=
    congrArg Header.start hcells
  rw [hstart]
  exact congrArg Header.stop hcells

theorem wp_save64 {size : Nat} {kb : List Byte → Pc} (hvis : (c64 rom chips).Visible M.config)
    (hin : M.dd03 = 0x00#8) (hpos : 0 < size) (hmax : size ≤ 0x10000)
    (hpc : M.pc = .sending [memory, bank, lo address, hi address,
      lo (address + BitVec.ofNat 16 size), hi (address + BitVec.ofNat 16 size)]
      (.strobe none (.receiving size kb)))
    (h : ∀ a x y z n, Q
      (.returned (some (.save memory bank address (address + BitVec.ofNat 16 size)
        (M.save64 memory bank address size kb).1)))
      ⟨a, x, y, z, n, st, (M.save64 memory bank address size kb).2⟩) :
    wp Server64.save Q ⟨a, x, y, z, n, st, M⟩ := by
  simp only [Server64.save, wp_bind, wp_jsr, wp_observe]
  refine wp_readHeader hvis hin hpc fun a x z n => ?_
  rw [header_headed]
  refine wp_screenOff (by rw [config_headed]; exact hvis) fun a z n => ?_
  refine wp_output (by rw [config_screen, config_headed]; exact hvis)
    (by rw [pc_screen, pc_headed]) fun z n => ?_
  change wp _ _ ⟨_, x, y, z, n, st, M.saveBegun memory bank address size kb⟩
  have hok := saving_saveBegun hvis memory bank address size kb
  have hmem := hok.2.2
  have hrange := range_saveBegun M memory bank address size kb
  simp only [wp_ldyImm, wp_lda, fetch_zp, read_mem, hmem, wp_cmpImm, wp_ifNe, wp_pure,
    beq_eq_false_iff_ne]
  split
  next hmode =>
    exact (saveRound_slow64 memory).done (if_neg hmode) hvis hpos hmax hok hrange
      (pc_saveBegun ..) h
  next hmode =>
    exact (saveRound_near hvis).done (if_pos (by simpa using hmode)) hvis hpos hmax (by simp)
      hrange (pc_saveBegun ..) h

/-- The `:output()` of the KERNAL's listing, written out. -/
theorem wp_outputInline {P : Cpu (Machine (c64 rom chips)) → Prop}
    (hvis : (c64 rom chips).Visible M.config) (hpc : M.pc = .strobe none k)
    (h : ∀ z n, P ⟨0xff#8, x, y, z, n, st, M.turned k⟩) :
    wp wait (fun _ t => wp (ldaImm 0xff#8) (fun _ t => wp (sta (.abs 0xdd03#16))
      (fun _ t => P t) t) t) ⟨a, x, y, z, n, st, M⟩ := by
  have houtput : wp output (fun _ t => P t) ⟨a, x, y, z, n, st, M⟩ := wp_output hvis hpc h
  simpa only [output, wp_bind] using houtput

/-- The stub is in RAM under every configuration. -/
theorem writes_stub (config : Byte) {i : Nat} (hlt : i < Kernal64.codestart.length) :
    (c64 rom chips).writes config (0x0100#16 + BitVec.ofNat 16 i) =
      .ram 0x00#8 (0x0100#16 + BitVec.ofNat 16 i) := by
  have hlen : Kernal64.codestart.length = 11 := rfl
  have hnat : (0x0100#16 + BitVec.ofNat 16 i).toNat = 0x0100 + i := by
    rw [BitVec.toNat_add, BitVec.toNat_ofNat, BitVec.toNat_ofNat]
    omega
  have hreads : c64Reads config (0x0100#16 + BitVec.ofNat 16 i) =
      .ram 0x00#8 (0x0100#16 + BitVec.ofNat 16 i) := by
    rw [c64Reads_above config (by omega), if_pos (by omega)]
  simp only [c64, c64Writes, hreads]

theorem wp_install {P : Unit → Cpu (Machine (c64 rom chips)) → Prop}
    (h : ∀ a z n, P () ⟨a, 0xff#8, y, z, n, st, M.stubbed⟩) :
    wp Kernal64.Ram.install P ⟨a, x, y, z, n, st, M⟩ :=
  wp_copyDown (fun _ hlt => writes_stub M.config hlt) h

theorem wp_saveKernal64 {size : Nat} {kb : List Byte → Pc}
    (hvis : (c64 rom chips).Visible M.config) (hin : M.dd03 = 0x00#8) (hpos : 0 < size)
    (hmax : size ≤ 0x10000)
    (hpc : M.pc = .sending [memory, bank, lo address, hi address,
      lo (address + BitVec.ofNat 16 size), hi (address + BitVec.ofNat 16 size)]
      (.strobe none (.receiving size kb)))
    (h : ∀ a x y z n, Q
      (.returned (some (.save memory bank address (address + BitVec.ofNat 16 size)
        (M.saveKernal64 memory bank address size kb).1)))
      ⟨a, x, y, z, n, st, (M.saveKernal64 memory bank address size kb).2⟩) :
    wp Kernal64.save Q ⟨a, x, y, z, n, st, M⟩ := by
  simp only [Kernal64.save, wp_bind, wp_jsr, wp_observe]
  refine wp_readHeader hvis hin hpc fun a x z n => ?_
  rw [header_headed]
  refine wp_screenOff (by rw [config_headed]; exact hvis) fun a z n => ?_
  refine wp_outputInline (by rw [config_screen, config_headed]; exact hvis)
    (by rw [pc_screen, pc_headed]) fun z n => ?_
  change wp _ _ ⟨_, x, y, z, n, st, M.saveBegun memory bank address size kb⟩
  have hok := saving_saveBegun hvis memory bank address size kb
  have hmem := hok.2.2
  have hrange := range_saveBegun M memory bank address size kb
  simp only [wp_ldyImm, wp_lda, fetch_zp, read_mem, hmem, wp_andImm, wp_cmpImm, wp_ifNe, wp_bind,
    wp_jsr, wp_pure, beq_eq_false_iff_ne]
  rw [Machine.saveKernal64] at h
  split
  next hhigh =>
    -- the KERNAL would be gone: the bytes are read by the copied routine
    rw [if_neg (by simpa using hhigh)] at h
    have hmode : memory ≠ 0x37#8 := by
      rintro rfl
      exact hhigh (by decide)
    refine wp_install fun a z n => ?_
    exact (saveRound_slowKernal memory).done (if_neg hmode) hvis hpos hmax
      ⟨by rw [Machine.stubbed, config_copied]; exact hok.1,
        by rw [Machine.stubbed, dd03_copied]; exact hok.2.1,
        by rw [Machine.stubbed, zp_copied]; exact hok.2.2⟩
      (by rw [Machine.stubbed, word_copied, word_copied]; exact hrange)
      (by rw [Machine.stubbed, pc_copied, pc_saveBegun]) h
  next hhigh =>
    rw [if_pos (by simpa using hhigh)] at h
    split
    next hmode =>
      exact (saveRound_fastKernal memory).done (if_neg hmode) hvis hpos hmax hok
        hrange (pc_saveBegun ..) h
    next hmode =>
      exact (saveRound_near hvis).done (if_pos (by simpa using hmode)) hvis hpos hmax (by simp)
        hrange (pc_saveBegun ..) h

end Transfers

/-! ## Single bytes -/

section Single

variable {M : Machine (c64 rom chips)} {a x y : Byte} {z n : Bool} {st : List Byte} {k : Pc}
  {memory bank : Byte} {address : Addr} {Q : Outcome → Cpu (Machine (c64 rom chips)) → Prop}

/-- A byte is read by way of A, and is in A afterwards. -/
theorem wp_readTax {P : Cpu (Machine (c64 rom chips)) → Prop} {b : Byte}
    (hvis : (c64 rom chips).Visible M.config) (hin : M.dd03 = 0x00#8)
    (hpc : M.pc = .sending [b] k) (h : ∀ z n, P ⟨b, b, y, z, n, st, M.received b k⟩) :
    wp wait (fun _ t => wp (lda (.abs 0xdd01#16)) (fun _ t => wp tax (fun _ t => wp ack
      (fun _ t => wp txa (fun _ t => P t) t) t) t) t) ⟨a, x, y, z, n, st, M⟩ := by
  refine wp_wait hvis hpc fun a z n => ?_
  simp only [wp_lda, fetch_abs, read_dd01 (M := M.strobed _ _) hvis,
    portB_input (M := M.strobed _ _) hin, wp_tax]
  refine wp_ack (M := M.strobed _ _) hvis rfl fun a z n => ?_
  rw [wp_txa]
  exact h _ _

/-- A store at the start address under a configuration that is set for it. -/
theorem write_start {config value : Byte} (hstart : M.word (c64 rom chips).start = address)
    (hclear : (c64 rom chips).Clear config address) :
    Bus.write (M.word (c64 rom chips).start) value
      ({ M with config := config } : Machine (c64 rom chips)) =
        some (({ M with config := config } : Machine (c64 rom chips)).put address value) := by
  rw [hstart]
  exact Machine.write_eq_put (M := { M with config := config }) hclear value

theorem wp_poke64 {value : Byte} (hvis : (c64 rom chips).Visible M.config)
    (hin : M.dd03 = 0x00#8) (hclear : (c64 rom chips).Clear memory address)
    (hpc : M.pc = .sending [memory, bank, lo address, hi address] (.sending [value] k))
    (h : ∀ a x y z n, Q (.returned (some (.poke memory bank address value)))
      ⟨a, x, y, z, n, st,
        (M.pokeBegun memory bank address value k).poked memory 0x37#8 address value⟩) :
    wp Server64.poke Q ⟨a, x, y, z, n, st, M⟩ := by
  simp only [Server64.poke, wp_bind]
  refine wp_readAddress hvis hin hpc fun a x z n => ?_
  rw [wp_ldyImm]
  refine wp_readTax (by rw [config_addressed]; exact hvis) (by rw [dd03_addressed]; exact hin)
    (pc_addressed ..) fun z n => ?_
  change wp _ _ ⟨value, value, 0x00#8, z, n, st, M.pokeBegun memory bank address value k⟩
  obtain ⟨hmem, hbank, hstart⟩ := pokeBegun_cells M memory bank address k value
  generalize M.pokeBegun memory bank address value k = N at *
  have hmemory : N.header.memory = memory ∧ N.header.bank = bank ∧ N.header.start = address :=
    ⟨hmem, hbank, hstart⟩
  have hheader : (({ N with config := memory } : Machine (c64 rom chips)).put address
      value).header = N.header := header_put (M := { N with config := memory }) hclear value
  simp only [wp_ldx, fetch_zp, read_mem, hmem, wp_stx, locate_zp, write_port,
    Option.some.injEq, exists_eq_left', wp_sta, locate_start]
  refine ⟨_, write_start hstart hclear, ?_⟩
  simp only [wp_observe, hheader, hmemory, wp_ldaImm, wp_sta, locate_zp, write_port,
    Option.some.injEq, exists_eq_left', wp_pure]
  exact h _ _ _ _ _

/-- The configuration a poke of the KERNAL's writes under. -/
def poking (entry memory : Byte) : Byte × Byte :=
  if memory = 0x37#8 then (entry, entry) else (0x33#8, 0x37#8)

theorem wp_pokeKernal64 {value : Byte} (hvis : (c64 rom chips).Visible M.config)
    (hin : M.dd03 = 0x00#8) (hclear : (c64 rom chips).Clear (poking M.config memory).1 address)
    (hpc : M.pc = .sending [memory, bank, lo address, hi address] (.sending [value] k))
    (h : ∀ a x y z n, Q (.returned (some (.poke memory bank address value)))
      ⟨a, x, y, z, n, st, (M.pokeBegun memory bank address value k).poked
        (poking M.config memory).1 (poking M.config memory).2 address value⟩) :
    wp Kernal64.poke Q ⟨a, x, y, z, n, st, M⟩ := by
  simp only [Kernal64.poke, wp_bind]
  refine wp_readAddress hvis hin hpc fun a x z n => ?_
  obtain ⟨hmem₀, -, -⟩ := addressed_cells M memory bank address (.sending [value] k)
  simp only [wp_ldyImm, wp_lda, fetch_zp, read_mem, hmem₀, wp_cmpImm, wp_ifNe, wp_bind, wp_jsr,
    beq_eq_false_iff_ne]
  obtain ⟨hmem, hbank, hstart⟩ := pokeBegun_cells M memory bank address k value
  have hconfig := config_pokeBegun M memory bank address k value
  have hmemory : (M.pokeBegun memory bank address value k).header.memory = memory ∧
      (M.pokeBegun memory bank address value k).header.bank = bank ∧
      (M.pokeBegun memory bank address value k).header.start = address := ⟨hmem, hbank, hstart⟩
  have hread : ∀ {P : Unit → Cpu (Machine (c64 rom chips)) → Prop} {a x y : Byte} {z n : Bool},
      (∀ a z n, P () ⟨a, value, y, z, n, st, M.pokeBegun memory bank address value k⟩) →
      wp read P ⟨a, x, y, z, n, st, M.addressed memory bank address (.sending [value] k)⟩ :=
    fun hP => wp_read (by rw [config_addressed]; exact hvis) (by rw [dd03_addressed]; exact hin)
      (pc_addressed ..) hP
  generalize M.pokeBegun memory bank address value k = N at *
  split
  next hmode =>
    have hpoking : poking M.config memory = (0x33#8, 0x37#8) := if_neg hmode
    rw [hpoking] at h hclear
    have hheader : (({ N with config := 0x33#8 } : Machine (c64 rom chips)).put address
        value).header = N.header := header_put (M := { N with config := 0x33#8 }) hclear value
    refine hread fun a z n => ?_
    simp only [wp_txa, wp_ldxImm, wp_stx, locate_zp, write_port, Option.some.injEq,
      exists_eq_left', wp_sta, locate_start]
    refine ⟨_, write_start hstart hclear, ?_⟩
    simp only [wp_observe, wp_ldaImm, wp_sta, locate_zp, write_port, Option.some.injEq,
      exists_eq_left', wp_pure]
    have hdone : (({ (({ N with config := 0x33#8 } : Machine (c64 rom chips)).put address value)
        with config := 0x37#8 } : Machine (c64 rom chips))).header = N.header := hheader
    rw [hdone, hmemory.1, hmemory.2.1, hmemory.2.2]
    exact h _ _ _ _ _
  next hmode =>
    have hpoking : poking M.config memory = (M.config, M.config) := if_pos (by simpa using hmode)
    rw [hpoking] at h hclear
    have hheader : (N.put address value).header = N.header :=
      header_put (by rw [hconfig]; exact hclear) value
    have hput : N.poked M.config M.config address value = N.put address value := by
      rw [← hconfig, poked_same (by rw [hconfig]; exact hclear)]
    refine hread fun a z n => ?_
    simp only [wp_txa, wp_sta, locate_start, hstart]
    refine ⟨_, Machine.write_eq_put (by rw [hconfig]; exact hclear) value, ?_⟩
    simp only [wp_observe, hheader, hmemory, wp_pure]
    rw [hput] at h
    exact h _ _ _ _ _

/-- The end of a peek: the byte read is sent, port B is set back. -/
theorem wp_giveByte {P : Request → Cpu (Machine (c64 rom chips)) → Prop} {f : Byte → Pc}
    (hout : M.dd03 = 0xff#8) (hpc : M.pc.Takes f) (hmem : M.zp (c64 rom chips).mem = memory)
    (hbank : M.zp (c64 rom chips).bank = bank) (hstart : M.word (c64 rom chips).start = address)
    (h : ∀ a z n, P (.peek memory bank address (M.look memory 0x37#8 address).1)
      ⟨a, x, y, z, n, st, (M.peeked memory 0x37#8 address f).2⟩) :
    wp (observe fun s => Request.peek s.bus.header.memory s.bus.header.bank s.bus.header.start s.a)
      (fun r t => wp write (fun _ t => wp (ldaImm 0x00#8) (fun _ t => wp (sta (.abs 0xdd03#16))
        (fun _ t => P r t) t) t) t)
      ⟨(M.look memory 0x37#8 address).1, x, y, z, n, st, (M.look memory 0x37#8 address).2⟩ := by
  have hframe : (M.look memory 0x37#8 address).2 =
      { M with config := 0x37#8, log := (M.look memory 0x37#8 address).2.log } := look_frame hpc
  have hheader : (M.look memory 0x37#8 address).2.header = M.header := by
    rw [hframe]
    rfl
  have hcells : M.header.memory = memory ∧ M.header.bank = bank ∧ M.header.start = address :=
    ⟨hmem, hbank, hstart⟩
  simp only [wp_observe, hheader, hcells]
  refine wp_write visible_default ((dd03_look hpc).trans hout) ((pc_look hpc).trans hpc)
    fun a z n => ?_
  have hsent : (c64 rom chips).Visible ((M.look memory 0x37#8 address).2.sent
      (M.look memory 0x37#8 address).1 (f (M.look memory 0x37#8 address).1)).config :=
    visible_default
  simp only [wp_ldaImm, wp_sta, locate_abs]
  exact ⟨_, write_dd03 hsent 0x00#8, h _ _ _⟩

theorem wp_peek64 {pc : Pc} {f : Byte → Pc} (hvis : (c64 rom chips).Visible M.config)
    (hin : M.dd03 = 0x00#8)
    (hpc : M.pc = .sending [memory, bank, lo address, hi address] (.strobe none pc))
    (htakes : pc.Takes f)
    (h : ∀ a x y z n, Q (.returned (some (.peek memory bank address
        ((M.peekBegun memory bank address pc).peeked memory 0x37#8 address f).1)))
      ⟨a, x, y, z, n, st,
        ((M.peekBegun memory bank address pc).peeked memory 0x37#8 address f).2⟩) :
    wp Server64.peek Q ⟨a, x, y, z, n, st, M⟩ := by
  simp only [Server64.peek, input, wp_bind, wp_jsr]
  refine wp_readAddress hvis hin hpc fun a x z n => ?_
  refine wp_output (by rw [config_addressed]; exact hvis) (pc_addressed ..) fun z n => ?_
  change wp _ _ ⟨_, x, y, z, n, st, M.peekBegun memory bank address pc⟩
  obtain ⟨hmem, hbank, hstart⟩ := peekBegun_cells M memory bank address pc
  have hout := dd03_peekBegun M memory bank address pc
  have hleft : (M.peekBegun memory bank address pc).pc.Takes f := htakes
  generalize M.peekBegun memory bank address pc = N at *
  subst hstart
  simp only [wp_ldyImm, wp_ldx, fetch_zp, read_mem, hmem, wp_stx, locate_zp, write_port,
    Option.some.injEq, exists_eq_left', wp_lda, wp_ldxImm, wp_pure]
  rw [fetch_start rfl]
  refine wp_giveByte hout hleft hmem hbank rfl fun a z n => ?_
  exact h _ _ _ _ _

theorem wp_peekKernal64 {pc : Pc} {f : Byte → Pc} (hvis : (c64 rom chips).Visible M.config)
    (hin : M.dd03 = 0x00#8)
    (hpc : M.pc = .sending [memory, bank, lo address, hi address] (.strobe none pc))
    (htakes : pc.Takes f)
    (h : ∀ a x y z n, Q (.returned (some (.peek memory bank address
        ((M.peekBegun memory bank address pc).stubbed.peeked memory 0x37#8 address f).1)))
      ⟨a, x, y, z, n, st,
        ((M.peekBegun memory bank address pc).stubbed.peeked memory 0x37#8 address f).2⟩) :
    wp Kernal64.peek Q ⟨a, x, y, z, n, st, M⟩ := by
  simp only [Kernal64.peek, Kernal64.Ram.read, wp_bind, wp_jsr]
  refine wp_readAddress hvis hin hpc fun a x z n => ?_
  refine wp_outputInline (by rw [config_addressed]; exact hvis) (pc_addressed ..) fun z n => ?_
  change wp _ _ ⟨_, x, y, z, n, st, M.peekBegun memory bank address pc⟩
  refine wp_install fun a z n => ?_
  obtain ⟨hmem, hbank, hstart⟩ := peekBegun_cells M memory bank address pc
  have hout := dd03_peekBegun M memory bank address pc
  have hleft : (M.peekBegun memory bank address pc).pc.Takes f := htakes
  generalize M.peekBegun memory bank address pc = N at *
  have hmem' : N.stubbed.zp (c64 rom chips).mem = memory := by
    rw [Machine.stubbed, zp_copied, hmem]
  have hbank' : N.stubbed.zp (c64 rom chips).bank = bank := by
    rw [Machine.stubbed, zp_copied, hbank]
  have hstart' : N.stubbed.word (c64 rom chips).start = address := by
    rw [Machine.stubbed, word_copied, hstart]
  have hout' : N.stubbed.dd03 = 0xff#8 := by rw [Machine.stubbed, dd03_copied, hout]
  have hleft' : N.stubbed.pc.Takes f := by
    rw [Machine.stubbed, pc_copied]
    exact hleft
  generalize N.stubbed = O at *
  subst hstart'
  simp only [wp_ldyImm, wp_lda, fetch_zp, read_mem, hmem', wp_sta, locate_zp, write_port,
    Option.some.injEq, exists_eq_left', wp_ldxImm, wp_stx, wp_pure]
  rw [fetch_start rfl]
  refine wp_giveByte hout' hleft' hmem' hbank' rfl fun a z n => ?_
  exact h _ _ _ _ _

end Single

/-! ## Leaving -/

section Leaving

variable {M : Machine (c64 rom chips)} {a x y : Byte} {z n : Bool} {st : List Byte} {k : Pc}
  {memory bank : Byte} {address : Addr} {Q : Outcome → Cpu (Machine (c64 rom chips)) → Prop}

/-- Memory, bank and address of a jump have been read. -/
def Machine.jumped (M : Machine (c64 rom chips)) (memory bank : Byte) (address : Addr) (k : Pc) :
    Machine (c64 rom chips) :=
  (((M.taken (c64 rom chips).mem memory (.sending [bank, hi address, lo address] k)).taken
    (c64 rom chips).bank bank (.sending [hi address, lo address] k)).received (hi address)
    (.sending [lo address] k)).received (lo address) k

theorem jumped_cells (M : Machine (c64 rom chips)) (memory bank : Byte) (address : Addr) (k : Pc) :
    (M.jumped memory bank address k).zp (c64 rom chips).mem = memory ∧
      (M.jumped memory bank address k).zp (c64 rom chips).bank = bank := by
  simp only [Machine.jumped, zp_received, zp_taken]
  exact ⟨rfl, rfl⟩

/-- The first half of a jump, with the stack it leaves. -/
theorem wp_readJump {P : Cpu (Machine (c64 rom chips)) → Prop}
    (hvis : (c64 rom chips).Visible M.config) (hin : M.dd03 = 0x00#8)
    (hpc : M.pc = .sending [memory, bank, hi address, lo address] k)
    (h : ∀ a x z n, P ⟨a, x, y, z, n,
      [lo address, hi address, lo repl64 - 1#8, hi repl64], M.jumped memory bank address k⟩) :
    wp read (fun _ t => wp (stx (.zp (c64 rom chips).mem)) (fun _ t => wp read (fun _ t =>
      wp (stx (.zp (c64 rom chips).bank)) (fun _ t => wp (ldxImm 0xff#8) (fun _ t => wp txs
      (fun _ t => wp (ldaImm (hi repl64)) (fun _ t => wp pha (fun _ t => wp
      (ldaImm (lo repl64 - 1#8)) (fun _ t => wp pha (fun _ t => wp read (fun _ t => wp txa
      (fun _ t => wp pha (fun _ t => wp read (fun _ t => wp txa (fun _ t => wp pha
      (fun _ t => P t) t) t) t) t) t) t) t) t) t) t) t) t) t) t) t) ⟨a, x, y, z, n, st, M⟩ := by
  obtain ⟨-, -, -, -, h₄, h₅⟩ := mem_work (T := c64 rom chips)
  refine wp_readTo h₄ hvis hin hpc fun a x z n => ?_
  refine wp_readTo h₅ (by simpa) (by simpa) (pc_taken ..) fun a x z n => ?_
  simp only [wp_ldxImm, wp_txs, wp_ldaImm, wp_pha]
  refine wp_read (by simpa) (by simpa) (k := .sending [lo address] k) (pc_taken ..)
    fun a z n => ?_
  simp only [wp_txa, wp_pha]
  refine wp_read (by simpa) (by simpa) (k := k) (pc_received ..) fun a z n => ?_
  simp only [wp_txa, wp_pha]
  exact h _ _ _ _

theorem wp_jump64 (hvis : (c64 rom chips).Visible M.config) (hin : M.dd03 = 0x00#8)
    (hpc : M.pc = .sending [memory, bank, hi address, lo address] k)
    (h : ∀ a x y z n st, Q (.left (.jump memory bank address))
      ⟨a, x, y, z, n, st, { M.jumped memory bank address k with config := memory }⟩) :
    wp Server64.jump Q ⟨a, x, y, z, n, st, M⟩ := by
  simp only [Server64.jump, wp_bind, wp_jsr]
  refine wp_readJump hvis hin hpc fun a x z n => ?_
  obtain ⟨hmem, hbank⟩ := jumped_cells M memory bank address k
  simp only [wp_lda, fetch_zp, read_mem, hmem, wp_sta, locate_zp, write_port, Option.some.injEq,
    exists_eq_left', wp_observe, wp_ldaImm, wp_tax, wp_tay, wp_pha, hbank, wp_rti, word_hi_lo,
    wp_pure]
  exact h _ _ _ _ _ _

theorem wp_jumpKernal64 (hvis : (c64 rom chips).Visible M.config) (hin : M.dd03 = 0x00#8)
    (hpc : M.pc = .sending [memory, bank, hi address, lo address] k)
    (h : ∀ a x y z n st, Q (.left (.jump memory bank address))
      ⟨a, x, y, z, n, st,
        { M.jumped memory bank address k with config := memory ||| 0x02#8 }⟩) :
    wp Kernal64.jump Q ⟨a, x, y, z, n, st, M⟩ := by
  simp only [Kernal64.jump, wp_bind, wp_jsr]
  refine wp_readJump hvis hin hpc fun a x z n => ?_
  obtain ⟨hmem, hbank⟩ := jumped_cells M memory bank address k
  simp only [wp_lda, fetch_zp, read_mem, hmem, wp_sta, locate_zp, write_port, Option.some.injEq,
    exists_eq_left', wp_observe, wp_oraImm, wp_ldaImm, wp_tax, wp_tay, wp_pha, hbank, wp_rti,
    word_hi_lo, wp_pure]
  exact h _ _ _ _ _ _

/-- The cells and vectors that `run` sets. -/
theorem clear_run (config : Byte) : (c64 rom chips).Clear config 0x0314#16 ∧
    (c64 rom chips).Clear config 0x0315#16 ∧ (c64 rom chips).Clear config (zeroPage 0xcc#8) ∧
    (c64 rom chips).Clear config (zeroPage 0x9d#8) := by
  refine ⟨trivial, trivial, ?_, ?_⟩
  · change Place.Clear _ (c64Writes config (zeroPage 0xcc#8))
    rw [c64Writes, c64Reads_zeroPage config (by decide)]
    exact (by decide : 0xcc#8 ∉ [0xc1#8, 0xc2#8, 0xc3#8, 0xc4#8, 0xfe#8, 0xff#8])
  · change Place.Clear _ (c64Writes config (zeroPage 0x9d#8))
    rw [c64Writes, c64Reads_zeroPage config (by decide)]
    exact (by decide : 0x9d#8 ∉ [0xc1#8, 0xc2#8, 0xc3#8, 0xc4#8, 0xfe#8, 0xff#8])

theorem wp_uninstall64 {P : Unit → Cpu (Machine (c64 rom chips)) → Prop}
    (h : ∀ a x z n N, N.pc = M.pc → P () ⟨a, x, y, z, n, st, N⟩) :
    wp Server64.uninstall P ⟨a, x, y, z, n, st, M⟩ := by
  simp only [Server64.uninstall, wp_bind, wp_ldaImm, wp_ldxImm, wp_sta, wp_stx, locate_abs]
  refine ⟨_, Machine.write_eq_put (clear_run M.config).1 _, _,
    Machine.write_eq_put (clear_run _).2.1 _, h _ _ _ _ _ ?_⟩
  rw [Machine.pc_put, Machine.pc_put]

/-- A routine returns and leaves the cable alone. -/
def Returns (basic : Code (c64 rom chips) Unit) : Prop :=
  ∀ s, wp basic (fun _ t => t.bus.pc = s.bus.pc) s

theorem wp_runKernal64 {basic : Code (c64 rom chips) Unit} (hbasic : Returns basic)
    (h : ∀ t, t.bus.pc = M.pc → Q (.left .run) t) :
    wp (Kernal64.run basic) Q ⟨a, x, y, z, n, st, M⟩ := by
  simp only [Kernal64.run, wp_bind, wp_ldxImm, wp_txs, wp_ldaImm, wp_sta, locate_zp]
  refine ⟨_, Machine.write_eq_put (clear_run _).2.2.1 _, ?_⟩
  refine wp_mono (hbasic _) fun v t ht => ?_
  obtain ⟨a, x, y, z, n, st, N⟩ := t
  simp only [wp_ldaImm, wp_sta, locate_zp, wp_pure]
  refine ⟨_, Machine.write_eq_put (clear_run _).2.2.2 _, h _ ?_⟩
  rw [Machine.pc_put]
  exact ht.trans (Machine.pc_put ..)

theorem wp_run64 {basic : Code (c64 rom chips) Unit} (hbasic : Returns basic)
    (h : ∀ t, t.bus.pc = M.pc → Q (.left .run) t) :
    wp (Server64.run basic) Q ⟨a, x, y, z, n, st, M⟩ := by
  have hsplit : Server64.run basic = (do jsr Server64.uninstall; Kernal64.run basic) := rfl
  rw [hsplit, wp_bind, wp_jsr]
  refine wp_uninstall64 fun a x z n N hN => ?_
  exact wp_runKernal64 hbasic fun t ht => h t (ht.trans hN)

end Leaving

end Xlink.Server