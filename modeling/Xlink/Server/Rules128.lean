import Xlink.Server.Frames
import Xlink.Server.Server128

/-!
# Rules for the C128 handlers

A transfer is done under the bank's configuration when the memory config is the one that is set, and
under the memory config itself otherwise (`Machine.effective`). Unless that is the configuration of
the interrupt, code copied to the common area sets it, for each byte when it hides I/O, once for the
whole transfer when it does not.
-/

namespace Xlink.Server

open Word Mos6502 Port

variable {rom : Byte → Addr → Byte} {chips : List Access → Addr → Byte}

/-! ## The configuration -/

/-- I/O is visible when the lowest bit is clear. -/
theorem c128_visible {config : Byte} (hio : config &&& 0x01#8 = 0x00#8) :
    (c128 rom chips).Visible config := by
  intro a ha
  have hreads : c128Reads config a = .io a := by
    obtain ⟨hlow, hhigh⟩ := ha
    have hne : a ≠ 0xff00#16 := by
      rintro rfl
      simp at hhigh
    have hpage : hi a ≠ 0x00#8 := hi_ne_zero (by omega)
    rw [c128Reads, if_neg hne, if_neg hpage, if_neg (by omega), if_neg (by omega),
      if_neg (by omega), if_pos ⟨hlow, hhigh, hio⟩]
  exact ⟨hreads, by simp only [c128, c128Writes, hreads]⟩

theorem read_mmu (M : Machine (c128 rom chips)) : Bus.read mmu M = (M.config, M) := rfl

theorem write_mmu (M : Machine (c128 rom chips)) (v : Byte) :
    Bus.write mmu v M = some { M with config := v } := rfl

theorem read_zp128 (M : Machine (c128 rom chips)) (c : Byte) :
    Bus.read (zeroPage c) M = (M.zp c, M) := by
  have hreads : (c128 rom chips).reads M.config (zeroPage c) = .zp c := by
    change c128Reads M.config (zeroPage c) = _
    rw [c128Reads_zeroPage]
  change M.read _ = _
  rw [Machine.read, hreads]

theorem write_zp128 (M : Machine (c128 rom chips)) (c v : Byte) :
    Bus.write (zeroPage c) v M = some (M.setZp c v) := by
  have hwrites : (c128 rom chips).writes M.config (zeroPage c) = .zp c := by
    change c128Writes M.config (zeroPage c) = _
    rw [c128Writes, c128Reads_zeroPage]
  change M.write _ _ = _
  rw [Machine.write, hwrites, Machine.put, hwrites]

/-- An address above I/O and below the register of the MMU. -/
theorem c128Reads_high {config : Byte} {a : Addr} (hlow : 0xe000 ≤ a.toNat)
    (hhigh : a.toNat < 0xff00) :
    c128Reads config a = .rom a ∨ c128Reads config a = .ram (config >>> 6) a := by
  have hne : a ≠ 0xff00#16 := by
    rintro rfl
    simp at hhigh
  have hpage : hi a ≠ 0x00#8 := hi_ne_zero (by omega)
  rw [c128Reads, if_neg hne, if_neg hpage, if_neg (by omega), if_neg (by omega),
    if_neg (by omega), if_neg (by omega), if_neg (by omega)]
  split
  · right
    rw [c128Ram, if_neg (by omega)]
  · left
    rfl

/-- Where the configuration of a bank is. -/
def bankEntry (bank : Byte) : Addr := bank2mmu + bank.setWidth 16

/-- It is in the KERNAL, or in the RAM below. -/
theorem reads_bankEntry (config bank : Byte) :
    (c128 rom chips).reads config (bankEntry bank) = .rom (bankEntry bank) ∨
      (c128 rom chips).reads config (bankEntry bank) = .ram (config >>> 6) (bankEntry bank) := by
  have hbound := bank.isLt
  have hnat : (bankEntry bank).toNat = 0xf7f0 + bank.toNat := by
    rw [bankEntry, bank2mmu, BitVec.toNat_add, BitVec.toNat_setWidth, BitVec.toNat_ofNat]
    omega
  exact c128Reads_high (by omega) (by omega)

theorem read_bankEntry (M : Machine (c128 rom chips)) (bank : Byte) :
    (M.read (bankEntry bank)).2 = M := by
  rw [Machine.read]
  rcases reads_bankEntry M.config bank with hplace | hplace
  · rw [hplace]
  · rw [hplace]

namespace Machine

variable (M : Machine (c128 rom chips))

/-- The configuration a transfer is done under. -/
def effective (memory bank : Byte) : Byte :=
  if memory = M.config then (M.read (bankEntry bank)).1 else memory

end Machine

section Macros

variable {M : Machine (c128 rom chips)} {a x y : Byte} {z n : Bool} {st : List Byte} {k : Pc}
  {memory bank : Byte}

theorem setZp_self {T : Target} (M : Machine T) {c v : Byte} (h : M.zp c = v) :
    M.setZp c v = M := by
  subst h
  unfold Machine.setZp
  rw [Function.update_eq_self]

/-- The memory config becomes the configuration of the transfer. -/
theorem wp_checkBank {Q : Bool → Cpu (Machine (c128 rom chips)) → Prop}
    (hmem : M.zp (c128 rom chips).mem = memory) (hbank : M.zp (c128 rom chips).bank = bank)
    (h : ∀ a x z n, Q (decide (M.effective memory bank = M.config))
      ⟨a, x, y, z, n, st, M.setZp (c128 rom chips).mem (M.effective memory bank)⟩) :
    wp Server128.checkBank Q ⟨a, x, y, z, n, st, M⟩ := by
  simp only [Server128.checkBank, wp_bind, wp_lda, fetch_zp, read_zp128, hmem, wp_cmp, fetch_abs,
    read_mmu, wp_ifNe, wp_pure, beq_eq_false_iff_ne, wp_ldx, hbank]
  split
  next hne =>
    have heffective : M.effective memory bank = memory := if_neg hne
    rw [heffective, decide_eq_false hne, setZp_self M hmem] at h
    exact h _ _ _ _
  next heq =>
    have heffective : M.effective memory bank = (M.read (bankEntry bank)).1 :=
      if_pos (by simpa using heq)
    have hfetch : ∀ a y z n st, (Mode.absX bank2mmu).fetch ⟨a, bank, y, z, n, st, M⟩ =
        M.read (bankEntry bank) := fun _ _ _ _ _ => rfl
    simp only [hfetch, read_bankEntry, ← heffective, wp_sta, locate_zp, write_zp128,
      Option.some.injEq, exists_eq_left']
    have hsame : (M.setZp (c128 rom chips).mem (M.effective memory bank)).config = M.config := rfl
    simp only [wp_cmp, fetch_abs, read_mmu, hsame, wp_ifNe, wp_pure, beq_eq_false_iff_ne]
    split
    next hne =>
      rw [decide_eq_false hne] at h
      exact h _ _ _ _
    next heq' =>
      rw [decide_eq_true (by simpa using heq')] at h
      exact h _ _ _ _

theorem wp_checkIo {Q : Bool → Cpu (Machine (c128 rom chips)) → Prop}
    (hmem : M.zp (c128 rom chips).mem = memory)
    (h : ∀ a z n, Q (decide (memory &&& 0x01#8 = 0x00#8)) ⟨a, x, y, z, n, st, M⟩) :
    wp Server128.checkIo Q ⟨a, x, y, z, n, st, M⟩ := by
  simp only [Server128.checkIo, wp_bind, wp_lda, fetch_zp, read_zp128, hmem, wp_andImm, wp_cmpImm,
    wp_ifNe, wp_pure, beq_eq_false_iff_ne]
  split
  next hne =>
    rw [decide_eq_false hne] at h
    exact h _ _ _
  next heq =>
    rw [decide_eq_true (by simpa using heq)] at h
    exact h _ _ _

/-- Code that is copied to the common area stays within it. -/
theorem writes_common (config : Byte) (code : CommonCode) {i : Nat} (hlt : i < code.bytes.length) :
    (c128 rom chips).writes config (common + BitVec.ofNat 16 i) =
      .ram 0x00#8 (common + BitVec.ofNat 16 i) := by
  have hle := code.length_le
  have hnat : (common + BitVec.ofNat 16 i).toNat = 0x02a2 + i := by
    rw [common, BitVec.toNat_add, BitVec.toNat_ofNat, BitVec.toNat_ofNat]
    omega
  have hne : common + BitVec.ofNat 16 i ≠ 0xff00#16 := fun h => by
    rw [h] at hnat
    simp at hnat
    omega
  have hpage : hi (common + BitVec.ofNat 16 i) ≠ 0x00#8 := hi_ne_zero (by omega)
  have hreads : c128Reads config (common + BitVec.ofNat 16 i) =
      .ram 0x00#8 (common + BitVec.ofNat 16 i) := by
    rw [c128Reads, if_neg hne, if_neg hpage, if_pos (by omega), c128Ram, if_pos (by omega)]
  change c128Writes config _ = _
  rw [c128Writes, hreads]

/-- `reinst` puts the KERNAL's code back. -/
theorem wp_reinst {area : CommonArea rom chips} {Q : Unit → Cpu (Machine (c128 rom chips)) → Prop}
    (h : ∀ a x y z n, Q () ⟨a, x, y, z, n, st, M.copied area.kernal.bytes common⟩) :
    wp area.reinst Q ⟨a, x, y, z, n, st, M⟩ := by
  have hcopied : wp (copyDown area.kernal.bytes common)
      (fun _ t => t.stack = st ∧ t.bus = M.copied area.kernal.bytes common) ⟨a, x, y, z, n, st, M⟩ :=
    wp_copyDown (fun _ hlt => writes_common _ _ hlt) fun _ _ _ => ⟨rfl, rfl⟩
  obtain ⟨⟨_, t⟩, hcopy, hstack, hbus⟩ := hcopied
  obtain ⟨a', x', y', z', n', hreinst⟩ := area.reinstalls _ _ hcopy
  rw [hstack, hbus] at hreinst
  exact ⟨_, hreinst, h a' x' y' z' n'⟩

theorem wp_jsrcommon {α : Type} {area : CommonArea rom chips} {code : CommonCode}
    {body : Code (c128 rom chips) α} {Q : α → Cpu (Machine (c128 rom chips)) → Prop}
    (h : ∀ a z n, wp body (fun v t => ∀ a x y z n,
        Q v ⟨a, x, y, z, n, t.stack, t.bus.copied area.kernal.bytes common⟩)
      ⟨a, 0xff#8, y, z, n, st, M.copied code.bytes common⟩) :
    wp (Server128.jsrcommon area code body) Q ⟨a, x, y, z, n, st, M⟩ := by
  simp only [Server128.jsrcommon, wp_bind, wp_jsr]
  refine wp_copyDown (fun _ hlt => writes_common _ _ hlt) fun a z n => ?_
  refine wp_mono (h a z n) fun v t ht => ?_
  obtain ⟨a, x, y, z, n, st, N⟩ := t
  refine wp_reinst fun a x y z n => ?_
  rw [wp_pure]
  exact ht a x y z n

end Macros

/-! ## Far rounds -/

section Rounds

variable {M : Machine (c128 rom chips)} {a x y : Byte} {z n : Bool} {st : List Byte} {k : Pc}

variable (rom chips) in
/-- The cells a far transfer works with. -/
def farWork : List Byte := (c128 rom chips).work ++ [saved]

theorem mem_farWork : (c128 rom chips).mem ∈ farWork rom chips ∧ saved ∈ farWork rom chips := by
  simp [farWork, Target.work]

theorem saved_ne (rom : Byte → Addr → Byte) (chips : List Access → Addr → Byte) :
    saved ≠ (c128 rom chips).start ∧ saved ≠ (c128 rom chips).start + 1#8 := by
  change saved ≠ 0xc1#8 ∧ saved ≠ 0xc1#8 + 1#8
  decide

/-- The machines the rounds of a far transfer under `far` are good in. -/
structure Far (far back direction : Byte) (M : Machine (c128 rom chips)) : Prop where
  visible : (c128 rom chips).Visible back
  config : M.config = back
  direction : M.dd03 = direction
  mem : M.zp (c128 rom chips).mem = far
  saved : M.zp Server.saved = back

theorem loadRound_far (far back : Byte) : LoadRound (T := c128 rom chips) Server128.receiveSlow far
    back (farWork rom chips) (Far far back 0x00#8) st where
  counters := List.subset_append_left _ _
  round := by
    rintro M a x z n b k Q ⟨hvis, rfl, hin, hmem, hsaved⟩ hclear hpc h
    obtain ⟨h₀, h₁, h₂, h₃, -⟩ := mem_work (T := c128 rom chips)
    let N : Machine (c128 rom chips) := { M.strobed (some b) (.ack fun _ => k) with config := far }
    have hwork : (c128 rom chips).Clear far (M.word (c128 rom chips).start) :=
      hclear.mono (List.subset_append_left _ _)
    have hstore : Bus.write (M.word (c128 rom chips).start) b N =
        some (N.put (M.word (c128 rom chips).start) b) :=
      Machine.write_eq_put (M := N) hwork b
    have hword : ∀ c, c ∈ (c128 rom chips).work → c + 1#8 ∈ (c128 rom chips).work →
        (({ N.put (M.word (c128 rom chips).start) b with config := M.config } :
          Machine (c128 rom chips)).acked k).word c = M.word c :=
      fun c hc hc₁ => word_put (M := N) hwork hc hc₁
    have hback : (N.put (M.word (c128 rom chips).start) b).zp saved = M.config :=
      (Machine.zp_put (M := N) b hclear mem_farWork.2).trans hsaved
    have hzp : ∀ d k, (M.strobed d k).zp = M.zp := fun _ _ => rfl
    simp only [Server128.receiveSlow, wp_bind]
    refine wp_wait hvis hpc fun a z n => ?_
    simp only [wp_lda, fetch_abs, read_dd01 (M := M.strobed _ _) hvis,
      portB_input (M := M.strobed _ _) hin, wp_ldx, fetch_zp, read_zp128, hzp, hmem, wp_stx,
      locate_abs, write_mmu, Option.some.injEq, exists_eq_left', wp_sta, locate_start]
    refine ⟨_, hstore, ?_⟩
    simp only [wp_observe, wp_ldx, fetch_zp, read_zp128, hback, wp_stx, locate_abs, write_mmu,
      Option.some.injEq, exists_eq_left']
    refine wp_ack hvis (by rw [Machine.pc_put]; rfl) fun a z n => ?_
    refine wp_next fun a z n => ?_
    rw [hword _ h₀ h₁, hword _ h₂ h₃, wp_pure]
    exact h _ _ _ _
  keeps := by
    rintro M b k ⟨hvis, rfl, hin, hmem, hsaved⟩ hclear
    obtain ⟨-, -, -, -, -, hne, hne', -⟩ := (c128 rom chips).work_ne
    obtain ⟨hs, hs'⟩ := saved_ne rom chips
    refine ⟨hvis, config_stored, by rw [dd03_stored, hin], ?_, ?_⟩
    · rw [zp_stored hclear mem_farWork.1 hne hne', hmem]
    · rw [zp_stored hclear mem_farWork.2 hs hs', hsaved]

theorem saveRound_far (far back : Byte) : SaveRound (T := c128 rom chips) Server128.sendSlow far
    back (Far far back 0xff#8) st where
  round := by
    rintro M a x z n f Q ⟨hvis, rfl, hout, hmem, hsaved⟩ hpc h
    have hframe := Machine.read_frame ({ M with config := far } : Machine (c128 rom chips))
      (M.word (c128 rom chips).start) hpc.ne_strobe
    rcases hread : Machine.read ({ M with config := far } : Machine (c128 rom chips))
      (M.word (c128 rom chips).start) with ⟨v, N⟩
    rw [hread] at hframe
    have hback : N.zp saved = M.config := (congrFun (congrArg Machine.zp hframe :) saved).trans hsaved
    have hfetch : ∀ a x z n, (Mode.indY (c128 rom chips).start).fetch
        (⟨a, x, 0x00#8, z, n, st, { M with config := far }⟩ : Cpu (Machine (c128 rom chips))) =
          (v, N) := fun _ _ _ _ => (fetch_start rfl).trans hread
    simp only [Server128.sendSlow, wp_bind, wp_ldx, fetch_zp, read_zp128, hmem, wp_stx, locate_abs,
      write_mmu, Option.some.injEq, exists_eq_left', wp_lda, hfetch, hback, wp_observe, wp_pure]
    exact wp_giveNext hvis hout hpc hread h
  keeps := by
    rintro M f ⟨hvis, rfl, hout, hmem, hsaved⟩ hpc
    obtain ⟨-, -, -, -, -, hne, hne', -⟩ := (c128 rom chips).work_ne
    obtain ⟨hs, hs'⟩ := saved_ne rom chips
    refine ⟨hvis, config_given, by rw [dd03_given hpc, hout], ?_, ?_⟩
    · rw [zp_given hpc, zp_setWord_of_ne _ hne hne', hmem]
    · rw [zp_given hpc, zp_setWord_of_ne _ hs hs', hsaved]

end Rounds

/-! ## Far loads -/

section Loads

variable {M : Machine (c128 rom chips)} {a x y : Byte} {z n : Bool} {st : List Byte} {k : Pc}
  {far : Byte} {payload : List Byte} {Q : List Byte → Cpu (Machine (c128 rom chips)) → Prop}

/-- The configuration of the transfer is set, the one before is kept. -/
def Machine.switched (M : Machine (c128 rom chips)) (far : Byte) : Machine (c128 rom chips) :=
  { M.setZp Server.saved M.config with config := far }

theorem saved_switched (M : Machine (c128 rom chips)) (far : Byte) :
    (M.switched far).zp saved = M.config := by
  change (M.setZp saved M.config).zp saved = M.config
  exact zp_setZp_self

theorem word_setZp {c : Byte} (hc : c ∉ [0xc1#8, 0xc2#8, 0xfd#8, 0xfe#8])
    (M : Machine (c128 rom chips)) (v : Byte) :
    (M.setZp c v).word (c128 rom chips).start = M.word (c128 rom chips).start ∧
      (M.setZp c v).word (c128 rom chips).stop = M.word (c128 rom chips).stop := by
  simp only [List.mem_cons, List.not_mem_nil, or_false, not_or] at hc
  obtain ⟨h₀, h₁, h₂, h₃⟩ := hc
  constructor
  · exact congrArg₂ word (zp_setZp_of_ne (Ne.symm h₁)) (zp_setZp_of_ne (Ne.symm h₀))
  · exact congrArg₂ word (zp_setZp_of_ne (Ne.symm h₃)) (zp_setZp_of_ne (Ne.symm h₂))

theorem word_switched (M : Machine (c128 rom chips)) (far : Byte) :
    (M.switched far).word (c128 rom chips).start = M.word (c128 rom chips).start ∧
      (M.switched far).word (c128 rom chips).stop = M.word (c128 rom chips).stop ∧
      (M.switched far).zp (c128 rom chips).mem = M.zp (c128 rom chips).mem := by
  obtain ⟨hstart, hstop⟩ := word_setZp (c := saved) (by decide) M M.config
  exact ⟨hstart, hstop, zp_setZp_of_ne (M := M) (v := M.config) (by decide : 0xfb#8 ≠ saved)⟩

theorem wp_slow_receivefar (hvis : (c128 rom chips).Visible M.config) (hin : M.dd03 = 0x00#8)
    (hmem : M.zp (c128 rom chips).mem = far) (hne : payload ≠ []) (hmax : payload.length ≤ 0x10000)
    (hclear : ∀ i < payload.length, ((c128 rom chips).writes far
      (M.word (c128 rom chips).start + BitVec.ofNat 16 i)).Clear (farWork rom chips))
    (hstop : M.word (c128 rom chips).stop =
      M.word (c128 rom chips).start + BitVec.ofNat 16 payload.length)
    (hpc : M.pc = .sending payload k)
    (h : ∀ a x z n, Q payload ⟨a, x, 0x00#8, z, n, st,
      (M.switched M.config).loaded far M.config payload k⟩) :
    wp Server128.slow_receivefar Q ⟨a, x, y, z, n, st, M⟩ := by
  obtain ⟨hstart', hstop', hmem'⟩ := word_switched M M.config
  simp only [Server128.slow_receivefar, wp_bind, wp_lda, fetch_abs, read_mmu, wp_sta, locate_zp,
    write_zp128, Option.some.injEq, exists_eq_left', wp_ldyImm]
  change wp _ _ ⟨_, x, _, _, _, st, M.switched M.config⟩
  exact (loadRound_far far M.config).loop hmax hne hmax
    ⟨hvis, rfl, hin, hmem'.trans hmem, saved_switched ..⟩ (by rwa [hstart'])
    (by rw [hstart', hstop', hstop]) hpc h

theorem wp_fast_receivefar (hvis : (c128 rom chips).Visible far) (hin : M.dd03 = 0x00#8)
    (hmem : M.zp (c128 rom chips).mem = far) (hne : payload ≠ []) (hmax : payload.length ≤ 0x10000)
    (hclear : ∀ i < payload.length, ((c128 rom chips).writes far
      (M.word (c128 rom chips).start + BitVec.ofNat 16 i)).Clear (farWork rom chips))
    (hstop : M.word (c128 rom chips).stop =
      M.word (c128 rom chips).start + BitVec.ofNat 16 payload.length)
    (hpc : M.pc = .sending payload k)
    (h : ∀ a x z n, Q payload ⟨a, x, 0x00#8, z, n, st,
      { (M.switched far).loaded far far payload k with config := M.config }⟩) :
    wp Server128.fast_receivefar Q ⟨a, x, y, z, n, st, M⟩ := by
  have hmem' : (M.setZp saved M.config).zp (c128 rom chips).mem = M.zp (c128 rom chips).mem :=
    zp_setZp_of_ne (by decide : 0xfb#8 ≠ saved)
  obtain ⟨hs, hs'⟩ := saved_ne rom chips
  simp only [Server128.fast_receivefar, wp_bind, wp_lda, fetch_abs, read_mmu, wp_sta, locate_zp,
    write_zp128, Option.some.injEq, exists_eq_left', fetch_zp, read_zp128, hmem', hmem, locate_abs,
    write_mmu, wp_ldyImm]
  change wp _ _ ⟨_, x, _, _, _, st, M.switched far⟩
  have hclear' : ∀ i < payload.length, ((c128 rom chips).writes far
      ((M.switched far).word (c128 rom chips).start + BitVec.ofNat 16 i)).Clear
        (farWork rom chips) := by
    rwa [(word_switched M far).1]
  have hstop' : (M.switched far).word (c128 rom chips).stop =
      (M.switched far).word (c128 rom chips).start + BitVec.ofNat 16 payload.length := by
    rw [(word_switched M far).1, (word_switched M far).2.1, hstop]
  have hpc' : (M.switched far).pc = .sending payload k := hpc
  refine (loadRound_near hvis).loop hmax hne hmax ⟨rfl, hin⟩
    (fun i hi => (hclear' i hi).mono (List.subset_append_left _ _)) hstop' hpc' fun a x z n => ?_
  have hback : ((M.switched far).loaded far far payload k).zp saved = M.config :=
    (zp_loaded hclear' mem_farWork.2 hs hs').trans (saved_switched M far)
  generalize (M.switched far).loaded far far payload k = N at *
  simp only [wp_lda, fetch_zp, read_zp128, hback, wp_sta, locate_abs, write_mmu, Option.some.injEq,
    exists_eq_left', wp_pure]
  exact h _ _ _ _

/-- The configuration of a transfer depends on the configuration and the RAM only. -/
theorem effective_congr {M N : Machine (c128 rom chips)} {memory bank : Byte}
    (hconfig : N.config = M.config) (hram : N.ram = M.ram) :
    N.effective memory bank = M.effective memory bank := by
  have hread : (N.read (bankEntry bank)).1 = (M.read (bankEntry bank)).1 := by
    rw [Machine.read, Machine.read, hconfig]
    rcases reads_bankEntry M.config bank with hplace | hplace
    · rw [hplace]
    · rw [hplace, hram]
  rw [Machine.effective, Machine.effective, hconfig, hread]

/-- The machine in which the loop of a transfer runs, and the configuration after each of its bytes:
near, the code in the common area that stays in the configuration `far`, and the one that does not. -/
def Machine.carrier (M : Machine (c128 rom chips)) (far : Byte) (fast slow : CommonCode) :
    Machine (c128 rom chips) × Byte :=
  if far = M.config then (M, far)
  else if far &&& 0x01#8 = 0x00#8 then ((M.copied fast.bytes common).switched far, far)
  else ((M.copied slow.bytes common).switched M.config, M.config)

/-- After a loop that was not near the configuration and the KERNAL's code are put back. -/
def Machine.carriedBack (M : Machine (c128 rom chips)) (far config : Byte)
    (area : CommonArea rom chips) : Machine (c128 rom chips) :=
  if far = config then M
  else ({ M with config := config } : Machine (c128 rom chips)).copied area.kernal.bytes common

/-- The data of a load have gone to their place. -/
def Machine.loadedBank (M : Machine (c128 rom chips)) (area : CommonArea rom chips) (far : Byte)
    (payload : List Byte) (k : Pc) : Machine (c128 rom chips) :=
  let c := M.carrier far area.fastReceive area.slowReceive
  (c.1.loaded far c.2 payload k).carriedBack far M.config area

variable {area : CommonArea rom chips}

theorem withConfig_eq {T : Target} {M : Machine T} {config : Byte} (h : M.config = config) :
    ({ M with config := config } : Machine T) = M := by
  rw [← h]

/-- The loop of a load, wherever it runs. -/
theorem wp_receiveBank {f : List Byte → Code (c128 rom chips) Outcome}
    {P : Outcome → Cpu (Machine (c128 rom chips)) → Prop}
    (hvis : (c128 rom chips).Visible M.config) (hin : M.dd03 = 0x00#8)
    (hmem : M.zp (c128 rom chips).mem = far) (hne : payload ≠ []) (hmax : payload.length ≤ 0x10000)
    (hclear : ∀ i < payload.length, ((c128 rom chips).writes far
      (M.word (c128 rom chips).start + BitVec.ofNat 16 i)).Clear (farWork rom chips))
    (hstop : M.word (c128 rom chips).stop =
      M.word (c128 rom chips).start + BitVec.ofNat 16 payload.length)
    (hpc : M.pc = .sending payload k)
    (h : ∀ a x y z n, wp (f payload) P
      ⟨a, x, y, z, n, st, M.loadedBank area far payload k⟩) :
    wp (if decide (far = M.config) = true then do
          ldyImm 0x00#8
          let payload ← loop loadNear rounds
          f payload
        else do
          let fast ← Server128.checkIo
          if fast = true then do
            let payload ← Server128.jsrcommon area area.fastReceive Server128.fast_receivefar
            f payload
          else do
            let payload ← Server128.jsrcommon area area.slowReceive Server128.slow_receivefar
            f payload)
      P ⟨a, x, y, z, n, st, M⟩ := by
  by_cases hnear : far = M.config
  · rw [if_pos (decide_eq_true hnear)]
    simp only [Machine.loadedBank, Machine.carrier, Machine.carriedBack, if_pos hnear] at h
    subst hnear
    simp only [wp_bind, wp_ldyImm]
    exact (loadRound_near hvis).loop hmax hne hmax ⟨rfl, hin⟩
      (fun i hi => (hclear i hi).mono (List.subset_append_left _ _)) hstop hpc
      fun a x z n => h a x _ z n
  rw [if_neg (by simpa using hnear)]
  simp only [Machine.loadedBank, Machine.carrier, Machine.carriedBack, if_neg hnear] at h
  rw [wp_bind]
  refine wp_checkIo hmem fun a z n => ?_
  by_cases hio : far &&& 0x01#8 = 0x00#8
  · rw [if_pos (decide_eq_true hio)]
    simp only [if_pos hio] at h
    rw [wp_bind]
    refine wp_jsrcommon fun a z n => ?_
    refine wp_fast_receivefar (c128_visible hio) (by rw [dd03_copied, hin])
      (by rw [zp_copied, hmem]) hne hmax (by rwa [word_copied])
      (by rwa [word_copied, word_copied]) (by rw [pc_copied, hpc]) fun a x z n => ?_
    intro a x y z n
    rw [config_copied]
    exact h _ _ _ _ _
  · rw [if_neg (by simpa using hio)]
    simp only [if_neg hio] at h
    rw [wp_bind]
    refine wp_jsrcommon fun a z n => ?_
    refine wp_slow_receivefar (by rw [config_copied]; exact hvis) (by rw [dd03_copied, hin])
      (by rw [zp_copied, hmem]) hne hmax (by rwa [word_copied])
      (by rwa [word_copied, word_copied]) (by rw [pc_copied, hpc]) fun a x z n => ?_
    intro a x y z n
    rw [config_copied]
    have hconfig : (((M.copied area.slowReceive.bytes common).switched M.config).loaded far
        M.config payload k).config = M.config := config_loaded hne ..
    rw [← withConfig_eq hconfig]
    exact h _ _ _ _ _

variable {memory bank : Byte} {address : Addr}

/-- A load is done. -/
def Machine.load128 (M : Machine (c128 rom chips)) (area : CommonArea rom chips)
    (memory bank : Byte) (address : Addr) (payload : List Byte) (k : Pc) : Machine (c128 rom chips) :=
  let N := M.loadBegun memory bank address payload k
  (((N.setZp (c128 rom chips).mem (M.effective memory bank)).loadedBank area
    (M.effective memory bank) payload k).screen 0x1b#8).relinked N.basic

/-- The end of a load. -/
theorem wp_loadDone128 {P : Cpu (Machine (c128 rom chips)) → Prop} {basic : Byte}
    (hvis : (c128 rom chips).Visible M.config)
    (h : ∀ a z n, P ⟨a, x, y, z, n, st, (M.screen 0x1b#8).relinked basic⟩) :
    wp screenOn (fun _ t => wp relinkBasic (fun _ t => P t) t)
      ⟨a, x, y, z, n, basic :: st, M⟩ := by
  refine wp_screenOn hvis fun a z n => ?_
  exact wp_relinkBasic fun a z n => h _ _ _

/-- The cells of a header, once the memory config has become the effective one. -/
theorem word_checked {start stop : Addr} {M : Machine (c128 rom chips)}
    (hheader : M.header = ⟨memory, bank, start, stop⟩) (v : Byte) :
    (M.setZp (c128 rom chips).mem v).word (c128 rom chips).start = start ∧
      (M.setZp (c128 rom chips).mem v).word (c128 rom chips).stop = stop :=
  ⟨(word_setZp (c := 0xfb#8) (by decide) M v).1.trans (congrArg Header.start hheader),
    (word_setZp (c := 0xfb#8) (by decide) M v).2.trans (congrArg Header.stop hheader)⟩

theorem config_loadedBank (hne : payload ≠ []) :
    (M.loadedBank area far payload k).config = M.config := by
  by_cases hnear : far = M.config
  · simp only [Machine.loadedBank, Machine.carrier, Machine.carriedBack, if_pos hnear]
    rw [config_loaded hne, hnear]
  · simp only [Machine.loadedBank, Machine.carriedBack, if_neg hnear, config_copied]

theorem dd03_loadedBank : (M.loadedBank area far payload k).dd03 = M.dd03 := by
  have hcarrier : (M.carrier far area.fastReceive area.slowReceive).1.dd03 = M.dd03 := by
    unfold Machine.carrier
    split
    · rfl
    · split <;> exact dd03_copied
  have hback : ∀ N : Machine (c128 rom chips),
      (N.carriedBack far M.config area).dd03 = N.dd03 := fun N => by
    unfold Machine.carriedBack
    split
    · rfl
    · exact dd03_copied
  rw [Machine.loadedBank, hback, dd03_loaded, hcarrier]

theorem pc_carrier {fast slow : CommonCode} : (M.carrier far fast slow).1.pc = M.pc := by
  unfold Machine.carrier
  split
  · rfl
  · split <;> exact pc_copied

theorem pc_carriedBack {config : Byte} : (M.carriedBack far config area).pc = M.pc := by
  unfold Machine.carriedBack
  split
  · rfl
  · exact pc_copied

theorem pc_loadedBank (hpc : M.pc = .sending payload k) :
    (M.loadedBank area far payload k).pc = k := by
  rw [Machine.loadedBank, pc_carriedBack, pc_loaded _ _ _ (pc_carrier.trans hpc)]

theorem config_load128 (hne : payload ≠ []) :
    (M.load128 area memory bank address payload k).config = M.config := by
  rw [Machine.load128, config_relinked, config_screen, config_loadedBank hne]
  exact config_loadBegun ..

theorem dd03_load128 : (M.load128 area memory bank address payload k).dd03 = M.dd03 := by
  rw [Machine.load128, dd03_relinked, dd03_screen, dd03_loadedBank]
  exact dd03_loadBegun ..

theorem pc_load128 : (M.load128 area memory bank address payload k).pc = k := by
  rw [Machine.load128, pc_relinked, pc_screen]
  exact pc_loadedBank (pc_loadBegun ..)

theorem wp_load128 {P : Outcome → Cpu (Machine (c128 rom chips)) → Prop}
    (hvis : (c128 rom chips).Visible M.config) (hin : M.dd03 = 0x00#8) (hne : payload ≠ [])
    (hmax : payload.length ≤ 0x10000)
    (hclear : ∀ i < payload.length, ((c128 rom chips).writes (M.effective memory bank)
      (address + BitVec.ofNat 16 i)).Clear (farWork rom chips))
    (hpc : M.pc = .sending [memory, bank, lo address, hi address,
      lo (address + BitVec.ofNat 16 payload.length),
      hi (address + BitVec.ofNat 16 payload.length)] (.sending payload k))
    (h : ∀ a x y z n, P (.returned (some (.load memory bank address
        (address + BitVec.ofNat 16 payload.length) payload)))
      ⟨a, x, y, z, n, st, M.load128 area memory bank address payload k⟩) :
    wp (Server128.load area) P ⟨a, x, y, z, n, st, M⟩ := by
  simp only [Server128.load, wp_bind, wp_jsr, wp_observe]
  refine wp_readHeader hvis hin hpc fun a x z n => ?_
  rw [header_headed]
  refine wp_screenOff (by rw [config_headed]; exact hvis) fun a z n => ?_
  change wp _ _ ⟨a, x, y, z, n, st, M.loadBegun memory bank address payload k⟩
  rw [Machine.load128] at h
  have hcells := header_loadBegun M memory bank address payload k
  have heffective : (M.loadBegun memory bank address payload k).effective memory bank =
      M.effective memory bank :=
    effective_congr (config_loadBegun ..) (ram_loadBegun ..)
  have hconfig := config_loadBegun M memory bank address payload k
  have hin' := (dd03_loadBegun M memory bank address payload k).trans hin
  have hleft := pc_loadBegun M memory bank address payload k
  generalize M.loadBegun memory bank address payload k = N at *
  refine wp_checkBasic fun a z n => ?_
  refine wp_checkBank (congrArg Header.memory hcells) (congrArg Header.bank hcells)
    fun a x z n => ?_
  rw [heffective]
  obtain ⟨hstart, hstop⟩ := word_checked hcells (M.effective memory bank)
  rw [← hconfig] at hvis
  rw [← hstart] at hclear
  rw [← hstart] at hstop
  refine wp_receiveBank (M := N.setZp (c128 rom chips).mem (M.effective memory bank)) hvis hin'
    zp_setZp_self hne hmax hclear hstop hleft fun a x y z n => ?_
  simp only [wp_bind]
  refine wp_loadDone128 ?_ fun a z n => ?_
  · rw [config_loadedBank hne]
    exact hvis
  · rw [wp_pure]
    exact h _ _ _ _ _

end Loads

/-! ## Far saves -/

section Saves

variable {M : Machine (c128 rom chips)} {a x y : Byte} {z n : Bool} {st : List Byte}
  {far memory bank : Byte} {address : Addr} {size : Nat} {kb : List Byte → Pc}
  {Q : List Byte → Cpu (Machine (c128 rom chips)) → Prop}

theorem wp_slow_sendfar (hvis : (c128 rom chips).Visible M.config) (hout : M.dd03 = 0xff#8)
    (hmem : M.zp (c128 rom chips).mem = far) (hpos : 0 < size) (hmax : size ≤ 0x10000)
    (hstop : M.word (c128 rom chips).stop =
      M.word (c128 rom chips).start + BitVec.ofNat 16 size)
    (hpc : M.pc = .receiving size kb)
    (h : ∀ a x z n, Q ((M.switched M.config).saved far M.config size kb).1
      ⟨a, x, 0x00#8, z, n, st, ((M.switched M.config).saved far M.config size kb).2⟩) :
    wp Server128.slow_sendfar Q ⟨a, x, y, z, n, st, M⟩ := by
  obtain ⟨hstart', hstop', hmem'⟩ := word_switched M M.config
  simp only [Server128.slow_sendfar, wp_bind, wp_lda, fetch_abs, read_mmu, wp_sta, locate_zp,
    write_zp128, Option.some.injEq, exists_eq_left', wp_ldyImm]
  change wp _ _ ⟨_, x, _, _, _, st, M.switched M.config⟩
  exact (saveRound_far far M.config).loop hmax hpos hmax
    ⟨hvis, rfl, hout, hmem'.trans hmem, saved_switched ..⟩ (by rw [hstart', hstop', hstop])
    hpc h

theorem wp_fast_sendfar (hvis : (c128 rom chips).Visible far) (hout : M.dd03 = 0xff#8)
    (hmem : M.zp (c128 rom chips).mem = far) (hpos : 0 < size) (hmax : size ≤ 0x10000)
    (hstop : M.word (c128 rom chips).stop =
      M.word (c128 rom chips).start + BitVec.ofNat 16 size)
    (hpc : M.pc = .receiving size kb)
    (h : ∀ a x z n, Q ((M.switched far).saved far far size kb).1 ⟨a, x, 0x00#8, z, n, st,
      { ((M.switched far).saved far far size kb).2 with config := M.config }⟩) :
    wp Server128.fast_sendfar Q ⟨a, x, y, z, n, st, M⟩ := by
  have hmem' : (M.setZp saved M.config).zp (c128 rom chips).mem = M.zp (c128 rom chips).mem :=
    zp_setZp_of_ne (by decide : 0xfb#8 ≠ saved)
  obtain ⟨hs, hs'⟩ := saved_ne rom chips
  simp only [Server128.fast_sendfar, wp_bind, wp_lda, fetch_abs, read_mmu, wp_sta, locate_zp,
    write_zp128, Option.some.injEq, exists_eq_left', fetch_zp, read_zp128, hmem', hmem, locate_abs,
    write_mmu, wp_ldyImm]
  change wp _ _ ⟨_, x, _, _, _, st, M.switched far⟩
  have hstop' : (M.switched far).word (c128 rom chips).stop =
      (M.switched far).word (c128 rom chips).start + BitVec.ofNat 16 size := by
    rw [(word_switched M far).1, (word_switched M far).2.1, hstop]
  have hpc' : (M.switched far).pc = .receiving size kb := hpc
  refine (saveRound_near hvis).loop hmax hpos hmax ⟨rfl, hout⟩ hstop' hpc' fun a x z n => ?_
  have hback : ((M.switched far).saved far far size kb).2.zp saved = M.config :=
    (zp_saved hpc' hs hs').trans (saved_switched M far)
  generalize (M.switched far).saved far far size kb = r at *
  simp only [wp_lda, fetch_zp, read_zp128, hback, wp_sta, locate_abs, write_mmu, Option.some.injEq,
    exists_eq_left', wp_pure]
  exact h _ _ _ _

variable {area : CommonArea rom chips}

/-- The data of a save have been sent, these are they. -/
def Machine.savedBank (M : Machine (c128 rom chips)) (area : CommonArea rom chips) (far : Byte)
    (size : Nat) (kb : List Byte → Pc) : List Byte × Machine (c128 rom chips) :=
  let c := M.carrier far area.fastSend area.slowSend
  let r := c.1.saved far c.2 size kb
  (r.1, r.2.carriedBack far M.config area)

/-- The loop of a save, wherever it runs. -/
theorem wp_sendBank {f : List Byte → Code (c128 rom chips) Outcome}
    {P : Outcome → Cpu (Machine (c128 rom chips)) → Prop} (hvis : (c128 rom chips).Visible M.config)
    (hout : M.dd03 = 0xff#8) (hmem : M.zp (c128 rom chips).mem = far) (hpos : 0 < size)
    (hmax : size ≤ 0x10000)
    (hstop : M.word (c128 rom chips).stop =
      M.word (c128 rom chips).start + BitVec.ofNat 16 size)
    (hpc : M.pc = .receiving size kb)
    (h : ∀ a x y z n, wp (f (M.savedBank area far size kb).1) P
      ⟨a, x, y, z, n, st, (M.savedBank area far size kb).2⟩) :
    wp (if decide (far = M.config) = true then do
          ldyImm 0x00#8
          let reply ← loop saveNear rounds
          f reply
        else do
          let fast ← Server128.checkIo
          if fast = true then do
            let reply ← Server128.jsrcommon area area.fastSend Server128.fast_sendfar
            f reply
          else do
            let reply ← Server128.jsrcommon area area.slowSend Server128.slow_sendfar
            f reply)
      P ⟨a, x, y, z, n, st, M⟩ := by
  by_cases hnear : far = M.config
  · rw [if_pos (decide_eq_true hnear)]
    simp only [Machine.savedBank, Machine.carrier, Machine.carriedBack, if_pos hnear] at h
    subst hnear
    simp only [wp_bind, wp_ldyImm]
    exact (saveRound_near hvis).loop hmax hpos hmax ⟨rfl, hout⟩ hstop hpc
      fun a x z n => h a x _ z n
  rw [if_neg (by simpa using hnear)]
  simp only [Machine.savedBank, Machine.carrier, Machine.carriedBack, if_neg hnear] at h
  rw [wp_bind]
  refine wp_checkIo hmem fun a z n => ?_
  by_cases hio : far &&& 0x01#8 = 0x00#8
  · rw [if_pos (decide_eq_true hio)]
    simp only [if_pos hio] at h
    rw [wp_bind]
    refine wp_jsrcommon fun a z n => ?_
    refine wp_fast_sendfar (c128_visible hio) (by rw [dd03_copied, hout])
      (by rw [zp_copied, hmem]) hpos hmax (by rwa [word_copied, word_copied])
      (by rw [pc_copied, hpc]) fun a x z n => ?_
    intro a x y z n
    rw [config_copied]
    exact h _ _ _ _ _
  · rw [if_neg (by simpa using hio)]
    simp only [if_neg hio] at h
    rw [wp_bind]
    refine wp_jsrcommon fun a z n => ?_
    refine wp_slow_sendfar (by rw [config_copied]; exact hvis) (by rw [dd03_copied, hout])
      (by rw [zp_copied, hmem]) hpos hmax (by rwa [word_copied, word_copied])
      (by rw [pc_copied, hpc]) fun a x z n => ?_
    intro a x y z n
    rw [config_copied]
    have hconfig : (((M.copied area.slowSend.bytes common).switched M.config).saved far
        M.config size kb).2.config = M.config := config_saved hpos
    rw [← withConfig_eq hconfig]
    exact h _ _ _ _ _

/-- A save is done, these are the bytes sent. -/
def Machine.save128 (M : Machine (c128 rom chips)) (area : CommonArea rom chips)
    (memory bank : Byte) (address : Addr) (size : Nat) (kb : List Byte → Pc) :
    List Byte × Machine (c128 rom chips) :=
  let r := ((M.saveBegun memory bank address size kb).setZp (c128 rom chips).mem
    (M.effective memory bank)).savedBank area (M.effective memory bank) size kb
  (r.1, r.2.released.screen 0x1b#8)

/-- The end of a save. -/
theorem wp_saveDone128 {P : Cpu (Machine (c128 rom chips)) → Prop}
    (hvis : (c128 rom chips).Visible M.config)
    (h : ∀ a z n, P ⟨a, x, y, z, n, st, M.released.screen 0x1b#8⟩) :
    wp input (fun _ t => wp screenOn (fun _ t => P t) t) ⟨a, x, y, z, n, st, M⟩ := by
  refine wp_input hvis fun a z n => ?_
  exact wp_screenOn (M := M.released) hvis fun a z n => h _ _ _

theorem config_savedBank (hpos : 0 < size) :
    (M.savedBank area far size kb).2.config = M.config := by
  by_cases hnear : far = M.config
  · simp only [Machine.savedBank, Machine.carrier, Machine.carriedBack, if_pos hnear]
    rw [config_saved hpos, hnear]
  · simp only [Machine.savedBank, Machine.carriedBack, if_neg hnear, config_copied]

theorem pc_savedBank (hpc : M.pc = .receiving size kb) :
    (M.savedBank area far size kb).2.pc = kb (M.savedBank area far size kb).1 := by
  rw [Machine.savedBank, pc_carriedBack, pc_saved (pc_carrier.trans hpc)]

theorem config_save128 (hpos : 0 < size) :
    (M.save128 area memory bank address size kb).2.config = M.config := by
  rw [Machine.save128, config_screen, config_released, config_savedBank hpos]
  exact config_saveBegun ..

theorem dd03_save128 : (M.save128 area memory bank address size kb).2.dd03 = 0x00#8 := by
  rw [Machine.save128, dd03_screen, dd03_released]

theorem pc_save128 : (M.save128 area memory bank address size kb).2.pc =
    kb (M.save128 area memory bank address size kb).1 := by
  rw [Machine.save128, pc_screen, pc_released]
  exact pc_savedBank (pc_saveBegun M memory bank address size kb)

theorem length_save128 : (M.save128 area memory bank address size kb).1.length = size := by
  rw [Machine.save128, Machine.savedBank, length_saved]

theorem wp_save128 {P : Outcome → Cpu (Machine (c128 rom chips)) → Prop}
    (hvis : (c128 rom chips).Visible M.config) (hin : M.dd03 = 0x00#8) (hpos : 0 < size)
    (hmax : size ≤ 0x10000)
    (hpc : M.pc = .sending [memory, bank, lo address, hi address,
      lo (address + BitVec.ofNat 16 size), hi (address + BitVec.ofNat 16 size)]
      (.strobe none (.receiving size kb)))
    (h : ∀ a x y z n, P (.returned (some (.save memory bank address
        (address + BitVec.ofNat 16 size) (M.save128 area memory bank address size kb).1)))
      ⟨a, x, y, z, n, st, (M.save128 area memory bank address size kb).2⟩) :
    wp (Server128.save area) P ⟨a, x, y, z, n, st, M⟩ := by
  simp only [Server128.save, wp_bind, wp_jsr, wp_observe]
  refine wp_readHeader hvis hin hpc fun a x z n => ?_
  rw [header_headed]
  refine wp_screenOff (by rw [config_headed]; exact hvis) fun a z n => ?_
  refine wp_output (by rw [config_screen, config_headed]; exact hvis)
    (by rw [pc_screen, pc_headed]) fun z n => ?_
  change wp _ _ ⟨_, x, y, z, n, st, M.saveBegun memory bank address size kb⟩
  rw [Machine.save128] at h
  have hcells := header_saveBegun M memory bank address size kb
  have heffective : (M.saveBegun memory bank address size kb).effective memory bank =
      M.effective memory bank :=
    effective_congr (config_saveBegun ..) (ram_saveBegun ..)
  have hconfig := config_saveBegun M memory bank address size kb
  have hout := dd03_saveBegun M memory bank address size kb
  have hleft := pc_saveBegun M memory bank address size kb
  generalize M.saveBegun memory bank address size kb = N at *
  refine wp_checkBank (congrArg Header.memory hcells) (congrArg Header.bank hcells)
    fun a x z n => ?_
  rw [heffective]
  obtain ⟨hstart, hstop⟩ := word_checked hcells (M.effective memory bank)
  rw [← hconfig] at hvis
  rw [← hstart] at hstop
  refine wp_sendBank (M := N.setZp (c128 rom chips).mem (M.effective memory bank)) hvis hout
    zp_setZp_self hpos hmax hstop hleft fun a x y z n => ?_
  simp only [wp_bind]
  refine wp_saveDone128 ?_ fun a z n => ?_
  · rw [config_savedBank hpos]
    exact hvis
  · rw [wp_pure]
    exact h _ _ _ _ _

/-- The RAM in which code is copied and run. -/
theorem common_bounds (code : CommonCode) {i : Nat} (hlt : i < code.bytes.length) :
    0x02a2 ≤ (common + BitVec.ofNat 16 i).toNat ∧
      (common + BitVec.ofNat 16 i).toNat < 0x02fc := by
  have hle := code.length_le
  rw [common, BitVec.toNat_add, BitVec.toNat_ofNat, BitVec.toNat_ofNat]
  omega

end Saves

/-! ## Single bytes -/

section Single

variable {M : Machine (c128 rom chips)} {a x y : Byte} {z n : Bool} {st : List Byte} {k : Pc}
  {memory bank value : Byte} {address : Addr} {P : Outcome → Cpu (Machine (c128 rom chips)) → Prop}
  {area : CommonArea rom chips}

/-- The pointers of `FETCH` and `STASH` are in RAM of the common area. -/
theorem write_pointer (M : Machine (c128 rom chips)) (v : Byte) :
    Bus.write fetchptr v M = some (M.setRam 0x00#8 fetchptr v) ∧
      Bus.write stashptr v M = some (M.setRam 0x00#8 stashptr v) := ⟨rfl, rfl⟩

theorem read_pointer (M : Machine (c128 rom chips)) (v : Byte) :
    Bus.read fetchptr (M.setRam 0x00#8 fetchptr v) = (v, M.setRam 0x00#8 fetchptr v) ∧
      Bus.read stashptr (M.setRam 0x00#8 stashptr v) = (v, M.setRam 0x00#8 stashptr v) := by
  have hfetch : Bus.read fetchptr (M.setRam 0x00#8 fetchptr v) =
      ((M.setRam 0x00#8 fetchptr v).ram 0x00#8 fetchptr, M.setRam 0x00#8 fetchptr v) := rfl
  have hstash : Bus.read stashptr (M.setRam 0x00#8 stashptr v) =
      ((M.setRam 0x00#8 stashptr v).ram 0x00#8 stashptr, M.setRam 0x00#8 stashptr v) := rfl
  rw [hfetch, hstash]
  simp only [Machine.setRam, Function.update_self, and_self]

/-- `FETCH` reads at (pointer)+Y, whatever Y is. -/
theorem wp_fetch {far : Byte} {Q : Unit → Cpu (Machine (c128 rom chips)) → Prop}
    (hpointer : (Bus.read fetchptr M).1 = (c128 rom chips).start)
    (hstart : M.word (c128 rom chips).start = address)
    (h : ∀ x z n, Q () ⟨(M.look far M.config (address + y.setWidth 16)).1, x, y, z, n, st,
      (M.look far M.config (address + y.setWidth 16)).2⟩) :
    wp area.fetch Q ⟨a, far, y, z, n, st, M⟩ := by
  obtain ⟨x', z', n', hfetch⟩ := area.fetches ⟨a, far, y, z, n, st, M⟩
  change (Machine.read M fetchptr).1 = _ at hpointer
  rw [hpointer, hstart] at hfetch
  exact ⟨_, hfetch, h x' z' n'⟩

theorem wp_stash {far : Byte} {Q : Unit → Cpu (Machine (c128 rom chips)) → Prop}
    (hpointer : (Bus.read stashptr M).1 = (c128 rom chips).start)
    (hstart : M.word (c128 rom chips).start = address)
    (hclear : (c128 rom chips).Clear far address)
    (h : ∀ a x z n, Q () ⟨a, x, 0x00#8, z, n, st, M.poked far M.config address value⟩) :
    wp area.stash Q ⟨value, far, 0x00#8, z, n, st, M⟩ := by
  have hwrite : Machine.write ({ M with config := far } : Machine (c128 rom chips))
      (address + (0x00#8).setWidth 16) value =
        some (({ M with config := far } : Machine (c128 rom chips)).put address value) := by
    rw [BitVec.setWidth_zero, BitVec.add_zero]
    exact Machine.write_eq_put (M := { M with config := far }) hclear value
  change (Machine.read M stashptr).1 = _ at hpointer
  rw [← hstart, ← hpointer] at hwrite
  obtain ⟨a', x', z', n', hstash⟩ := area.stashes ⟨value, far, 0x00#8, z, n, st, M⟩ _ hwrite
  rw [hpointer, hstart] at hstash
  exact ⟨_, hstash, h a' x' z' n'⟩

/-- A byte is read by way of A and pushed. -/
theorem wp_readPha {Q : Cpu (Machine (c128 rom chips)) → Prop} {b : Byte}
    (hvis : (c128 rom chips).Visible M.config) (hin : M.dd03 = 0x00#8)
    (hpc : M.pc = .sending [b] k)
    (h : ∀ a z n, Q ⟨a, x, y, z, n, b :: st, M.received b k⟩) :
    wp wait (fun _ t => wp (lda (.abs 0xdd01#16)) (fun _ t => wp pha (fun _ t => wp ack
      (fun _ t => Q t) t) t) t) ⟨a, x, y, z, n, st, M⟩ := by
  refine wp_wait hvis hpc fun a z n => ?_
  simp only [wp_lda, fetch_abs, read_dd01 (M := M.strobed _ _) hvis,
    portB_input (M := M.strobed _ _) hin, wp_pha]
  refine wp_ack (M := M.strobed _ _) hvis rfl fun a z n => ?_
  exact h _ _ _

/-- Unless an access is near, the KERNAL is told in which cells the address is. -/
def Machine.pointed (M : Machine (c128 rom chips)) (near : Prop) [Decidable near] (pointer : Addr) :
    Machine (c128 rom chips) :=
  if near then M else M.setRam 0x00#8 pointer (c128 rom chips).start

section Pointed

variable {near : Prop} [Decidable near] {pointer : Addr}

theorem pc_pointed : (M.pointed near pointer).pc = M.pc := by
  unfold Machine.pointed
  split <;> rfl

theorem dd03_pointed : (M.pointed near pointer).dd03 = M.dd03 := by
  unfold Machine.pointed
  split <;> rfl

end Pointed

/-- A poke is done. -/
def Machine.poke128 (M : Machine (c128 rom chips)) (memory bank : Byte) (address : Addr)
    (value : Byte) (k : Pc) : Machine (c128 rom chips) :=
  let far := M.effective memory bank
  (((M.pokeBegun memory bank address value k).setZp (c128 rom chips).mem far).pointed
    (far = M.config) stashptr).poked far M.config address value

theorem config_poke128 : (M.poke128 memory bank address value k).config = M.config := by
  rw [Machine.poke128, config_poked]

theorem dd03_poke128 : (M.poke128 memory bank address value k).dd03 = M.dd03 := by
  rw [Machine.poke128, dd03_poked, dd03_pointed, dd03_setZp, dd03_pokeBegun]

theorem pc_poke128 : (M.poke128 memory bank address value k).pc = k := by
  rw [Machine.poke128, pc_poked, pc_pointed, pc_setZp, pc_pokeBegun]

/-- The configuration of a transfer in its cell leaves the others. -/
theorem setZp_mem {N : Machine (c128 rom chips)} {address : Addr} {config v : Byte}
    (hstart : N.word (c128 rom chips).start = address) (hconfig : N.config = config) :
    (N.setZp (c128 rom chips).mem v).word (c128 rom chips).start = address ∧
      (N.setZp (c128 rom chips).mem v).zp (c128 rom chips).mem = v ∧
      (N.setZp (c128 rom chips).mem v).config = config :=
  ⟨(word_setZp (c := 0xfb#8) (by decide) N _).1.trans hstart, zp_setZp_self, hconfig⟩

theorem wp_poke128 (hvis : (c128 rom chips).Visible M.config) (hin : M.dd03 = 0x00#8)
    (hclear : (c128 rom chips).Clear (M.effective memory bank) address)
    (hpc : M.pc = .sending [memory, bank, lo address, hi address] (.sending [value] k))
    (h : ∀ a x y z n, P (.returned (some (.poke memory bank address value)))
      ⟨a, x, y, z, n, st, M.poke128 memory bank address value k⟩) :
    wp (Server128.poke area) P ⟨a, x, y, z, n, st, M⟩ := by
  simp only [Server128.poke, wp_bind]
  refine wp_readAddress hvis hin hpc fun a x z n => ?_
  rw [wp_observe]
  obtain ⟨hmem₀, hbank₀, hstart₀⟩ := addressed_cells M memory bank address (.sending [value] k)
  have hheader : (M.addressed memory bank address (.sending [value] k)).header.memory = memory ∧
      (M.addressed memory bank address (.sending [value] k)).header.bank = bank ∧
      (M.addressed memory bank address (.sending [value] k)).header.start = address :=
    ⟨hmem₀, hbank₀, hstart₀⟩
  refine wp_readPha (by rw [config_addressed]; exact hvis) (by rw [dd03_addressed]; exact hin)
    (pc_addressed ..) fun a z n => ?_
  change wp _ _ ⟨a, x, y, z, n, value :: st, M.pokeBegun memory bank address value k⟩
  simp only [hheader]
  rw [Machine.poke128] at h
  have heffective : (M.pokeBegun memory bank address value k).effective memory bank =
      M.effective memory bank :=
    effective_congr (config_pokeBegun ..) (ram_pokeBegun ..)
  obtain ⟨hmem, hbank, hstart⟩ := pokeBegun_cells M memory bank address k value
  have hconfig := config_pokeBegun M memory bank address k value
  generalize M.pokeBegun memory bank address value k = N at *
  refine wp_checkBank hmem hbank fun a x z n => ?_
  rw [heffective, hconfig]
  obtain ⟨hstart', hmem', hconfig'⟩ := setZp_mem (v := M.effective memory bank) hstart hconfig
  by_cases hnear : M.effective memory bank = M.config
  · simp only [Machine.pointed, if_pos hnear] at h
    generalize N.setZp (c128 rom chips).mem (M.effective memory bank) = O at *
    have hput : O.poked (M.effective memory bank) M.config address value = O.put address value := by
      rw [hnear, ← hconfig', poked_same (by rw [hconfig', ← hnear]; exact hclear)]
    rw [hnear, ← hconfig'] at hclear
    rw [hput] at h
    simp only [decide_eq_true hnear, ↓reduceIte, wp_bind, wp_ldyImm, wp_pla, wp_sta, locate_start,
      hstart']
    refine ⟨_, Machine.write_eq_put hclear value, ?_⟩
    simp only [wp_observe, wp_pure]
    exact h _ _ _ _ _
  · simp only [Machine.pointed, if_neg hnear] at h
    generalize N.setZp (c128 rom chips).mem (M.effective memory bank) = O at *
    have hread : ∀ a x y z n st, (Mode.zp (c128 rom chips).mem).fetch ⟨a, x, y, z, n, st,
        O.setRam 0x00#8 stashptr (c128 rom chips).start⟩ = (M.effective memory bank,
          O.setRam 0x00#8 stashptr (c128 rom chips).start) := fun _ _ _ _ _ _ => by
      rw [fetch_zp, read_zp128, ← hmem']
      rfl
    simp only [decide_eq_false hnear, Bool.false_eq_true, ↓reduceIte, wp_bind, wp_ldyImm, wp_ldaImm,
      wp_sta, locate_abs, (write_pointer O _).2, Option.some.injEq, exists_eq_left', wp_ldx, hread,
      wp_pla, wp_observe, wp_jsr]
    refine wp_stash (congrArg Prod.fst (read_pointer O _).2) hstart' hclear fun a x z n => ?_
    rw [wp_pure, wp_pure]
    have hconfig'' : (O.setRam 0x00#8 stashptr (c128 rom chips).start).config = M.config := hconfig'
    rw [hconfig'']
    exact h _ _ _ _ _

/-- The end of a peek: the byte read is sent, port B is set back. -/
theorem wp_giveLook {Q : Byte → Cpu (Machine (c128 rom chips)) → Prop} {f : Byte → Pc} {far : Byte}
    (hvis : (c128 rom chips).Visible M.config) (hout : M.dd03 = 0xff#8) (hpc : M.pc.Takes f)
    (h : ∀ a z n, Q (M.peeked far M.config address f).1
      ⟨a, x, y, z, n, st, (M.peeked far M.config address f).2⟩) :
    wp write (fun _ t => wp (pure (M.look far M.config address).1) (fun v t =>
      wp input (fun _ t => Q v t) t) t) ⟨(M.look far M.config address).1, x, y, z, n, st,
        (M.look far M.config address).2⟩ := by
  refine wp_write hvis ((dd03_look hpc).trans hout) ((pc_look hpc).trans hpc) fun a z n => ?_
  rw [wp_pure]
  exact wp_input (M := Machine.sent _ _ _) hvis fun a z n => h _ _ _

/-- A peek that is not near reads as many bytes further as Y says. -/
def offset (near : Prop) [Decidable near] (y : Byte) : Addr :=
  if near then 0#16 else y.setWidth 16

/-- A peek is done, this is the byte sent. -/
def Machine.peek128 (M : Machine (c128 rom chips)) (memory bank : Byte) (address : Addr) (y : Byte)
    (pc : Pc) (f : Byte → Pc) : Byte × Machine (c128 rom chips) :=
  let far := M.effective memory bank
  (((M.peekBegun memory bank address pc).setZp (c128 rom chips).mem far).pointed
    (far = M.config) fetchptr).peeked far M.config (address + offset (far = M.config) y) f

theorem config_peek128 {pc : Pc} {f : Byte → Pc} :
    (M.peek128 memory bank address y pc f).2.config = M.config := by
  rw [Machine.peek128, config_peeked]

theorem dd03_peek128 {pc : Pc} {f : Byte → Pc} :
    (M.peek128 memory bank address y pc f).2.dd03 = 0x00#8 := by
  rw [Machine.peek128, dd03_peeked]

theorem pc_peek128 {pc : Pc} {f : Byte → Pc} : (M.peek128 memory bank address y pc f).2.pc =
    f (M.peek128 memory bank address y pc f).1 := by
  rw [Machine.peek128, pc_peeked]

theorem wp_peek128 {pc : Pc} {f : Byte → Pc} (hvis : (c128 rom chips).Visible M.config)
    (hin : M.dd03 = 0x00#8)
    (hpc : M.pc = .sending [memory, bank, lo address, hi address] (.strobe none pc))
    (htakes : pc.Takes f)
    (h : ∀ a x y' z n, P (.returned (some (.peek memory bank address
        (M.peek128 memory bank address y pc f).1)))
      ⟨a, x, y', z, n, st, (M.peek128 memory bank address y pc f).2⟩) :
    wp (Server128.peek area) P ⟨a, x, y, z, n, st, M⟩ := by
  simp only [Server128.peek, wp_bind]
  refine wp_readAddress hvis hin hpc fun a x z n => ?_
  rw [wp_observe]
  obtain ⟨hmem₀, hbank₀, hstart₀⟩ := addressed_cells M memory bank address (.strobe none pc)
  have hheader : (M.addressed memory bank address (.strobe none pc)).header.memory = memory ∧
      (M.addressed memory bank address (.strobe none pc)).header.bank = bank ∧
      (M.addressed memory bank address (.strobe none pc)).header.start = address :=
    ⟨hmem₀, hbank₀, hstart₀⟩
  refine wp_output (by rw [config_addressed]; exact hvis) (pc_addressed ..) fun z n => ?_
  change wp _ _ ⟨_, x, y, z, n, st, M.peekBegun memory bank address pc⟩
  simp only [hheader]
  rw [Machine.peek128] at h
  have heffective : (M.peekBegun memory bank address pc).effective memory bank =
      M.effective memory bank :=
    effective_congr (config_peekBegun ..) (ram_peekBegun ..)
  obtain ⟨hmem, hbank, hstart⟩ := peekBegun_cells M memory bank address pc
  have hconfig := config_peekBegun M memory bank address pc
  have hout := dd03_peekBegun M memory bank address pc
  have hleft : (M.peekBegun memory bank address pc).pc.Takes f := htakes
  generalize M.peekBegun memory bank address pc = N at *
  refine wp_checkBank hmem hbank fun a x z n => ?_
  rw [heffective, hconfig]
  obtain ⟨hstart', hmem', hconfig'⟩ := setZp_mem (v := M.effective memory bank) hstart hconfig
  have hout' : (N.setZp (c128 rom chips).mem (M.effective memory bank)).dd03 = 0xff#8 := hout
  have hleft' : (N.setZp (c128 rom chips).mem (M.effective memory bank)).pc.Takes f := hleft
  rw [← hconfig'] at hvis
  by_cases hnear : M.effective memory bank = M.config
  · simp only [offset, Machine.pointed, if_pos hnear, BitVec.add_zero] at h
    generalize N.setZp (c128 rom chips).mem (M.effective memory bank) = O at *
    have hlook : O.look (M.effective memory bank) O.config address = O.read address := by
      rw [hnear, ← hconfig', look_same hleft']
    simp only [decide_eq_true hnear, ↓reduceIte, wp_bind, wp_ldyImm, wp_lda]
    rw [fetch_start rfl, hstart']
    simp only [wp_observe, ← hlook]
    refine wp_giveLook hvis hout' hleft' fun a z n => ?_
    rw [wp_pure, hconfig']
    exact h _ _ _ _ _
  · simp only [offset, Machine.pointed, if_neg hnear] at h
    generalize N.setZp (c128 rom chips).mem (M.effective memory bank) = O at *
    have hpointer := congrArg Prod.fst (read_pointer O (c128 rom chips).start).1
    have hstart'' : (O.setRam 0x00#8 fetchptr (c128 rom chips).start).word
        (c128 rom chips).start = address := hstart'
    have hmem'' : (O.setRam 0x00#8 fetchptr (c128 rom chips).start).zp (c128 rom chips).mem =
        M.effective memory bank := hmem'
    have hconfig'' : (O.setRam 0x00#8 fetchptr (c128 rom chips).start).config = M.config := hconfig'
    have hout'' : (O.setRam 0x00#8 fetchptr (c128 rom chips).start).dd03 = 0xff#8 := hout'
    have hleft'' : (O.setRam 0x00#8 fetchptr (c128 rom chips).start).pc.Takes f := hleft'
    simp only [decide_eq_false hnear, Bool.false_eq_true, ↓reduceIte, wp_bind, wp_ldaImm, wp_sta,
      locate_abs, (write_pointer O _).1, Option.some.injEq, exists_eq_left', wp_jsr]
    generalize O.setRam 0x00#8 fetchptr (c128 rom chips).start = S at *
    simp only [wp_ldx, fetch_zp, read_zp128, hmem'']
    refine wp_fetch hpointer hstart'' fun x z n => ?_
    rw [hconfig', ← hconfig''] at hvis
    simp only [wp_observe]
    refine wp_giveLook hvis hout'' hleft'' fun a z n => ?_
    rw [wp_pure, hconfig'']
    exact h _ _ _ _ _

end Single

/-! ## Leaving -/

section Leaving

variable {M : Machine (c128 rom chips)} {a x y : Byte} {z n : Bool} {st : List Byte} {k : Pc}
  {memory bank : Byte} {address : Addr} {P : Outcome → Cpu (Machine (c128 rom chips)) → Prop}

theorem wp_jump128 (hvis : (c128 rom chips).Visible M.config) (hin : M.dd03 = 0x00#8)
    (hpc : M.pc = .sending [memory, bank, hi address, lo address] k)
    (h : ∀ t, t.bus.pc = k → P (.left (.jump memory bank address)) t) :
    wp Server128.jump P ⟨a, x, y, z, n, st, M⟩ := by
  obtain ⟨-, -, -, -, h₄, h₅⟩ := mem_work (T := c128 rom chips)
  simp only [Server128.jump, wp_bind, wp_jsr]
  refine wp_readTo h₄ hvis hin hpc fun a x z n => ?_
  refine wp_readTo h₅ (by simpa) (by simpa) (pc_taken ..) fun a x z n => ?_
  simp only [wp_ldxImm, wp_txs, wp_ldaImm, wp_pha, wp_lda, fetch_zp, read_zp128, wp_sta, locate_zp,
    write_zp128, Option.some.injEq, exists_eq_left', zp_taken, Function.update_self]
  refine wp_read (by simpa [Machine.setZp]) (by simpa [Machine.setZp])
    (k := .sending [lo address] k) rfl fun a z n => ?_
  simp only [wp_stx, locate_zp, write_zp128, Option.some.injEq, exists_eq_left']
  refine wp_read (by simpa [Machine.setZp]) (by simpa [Machine.setZp]) (k := k) rfl fun a z n => ?_
  simp only [wp_stx, wp_ldaImm, wp_sta, locate_zp, write_zp128, Option.some.injEq, exists_eq_left',
    wp_observe, wp_pure]
  have hzp : ∀ (N : Machine (c128 rom chips)) c v, (N.setZp c v).zp = Function.update N.zp c v :=
    fun _ _ _ => rfl
  have hcells : (c128 rom chips).mem = 0xfb#8 ∧ (c128 rom chips).bank = 0xfc#8 := ⟨rfl, rfl⟩
  simp [hzp, hcells, word_hi_lo]
  exact h _ rfl

/-- The vectors and cells that `run` sets. -/
theorem clear_run128 (config : Byte) : (c128 rom chips).Clear config 0x0314#16 ∧
    (c128 rom chips).Clear config 0x0315#16 ∧ (c128 rom chips).Clear config 0x0a27#16 :=
  ⟨trivial, trivial, trivial⟩

theorem wp_run128Kernal (h : ∀ t, t.bus.pc = M.pc → P (.left .run) t) :
    wp Kernal128.run P ⟨a, x, y, z, n, st, M⟩ := by
  simp only [Kernal128.run, wp_bind, wp_ldaImm, wp_sta, locate_abs, wp_pure]
  exact ⟨_, Machine.write_eq_put (clear_run128 _).2.2 _, h _ (Machine.pc_put ..)⟩

theorem wp_run128 (h : ∀ t, t.bus.pc = M.pc → P (.left .run) t) :
    wp Server128.run P ⟨a, x, y, z, n, st, M⟩ := by
  have hsplit : (Server128.run : Code (c128 rom chips) Outcome) =
      (do jsr Server128.uninstall; Kernal128.run) := rfl
  rw [hsplit]
  simp only [Server128.uninstall, wp_bind, wp_jsr, wp_ldaImm, wp_ldxImm, wp_sta, wp_stx, locate_abs]
  refine ⟨_, Machine.write_eq_put (clear_run128 _).1 _, _,
    Machine.write_eq_put (clear_run128 _).2.1 _, ?_⟩
  refine wp_run128Kernal fun t ht => h t (ht.trans ?_)
  rw [Machine.pc_put, Machine.pc_put]

end Leaving

/-! ## A KERNAL

Programs that do what the three routines are said to do, over any code for the common area. -/

section Kernal

end Kernal

end Xlink.Server
