import Xlink.Server.Requests

/-!
# Rules for the common code

What the header, the dispatch and the transfer loops do to the machine, as functions on machines:
`Machine.headed` after a header, `Machine.loaded` after the payload of a load, `Machine.saved` after
the answer to a save. The rule of a transfer loop is proved once, from the rule of its round; the
rounds of the servers differ in the configuration they access the memory under.
-/

namespace Xlink.Server

open Word Mos6502 Port

variable {T : Target}

/-! ## Headers -/

namespace Machine

variable (M : Machine T)

/-- A byte is taken from the PC and kept in a cell. -/
def taken (c b : Byte) (k : Pc) : Machine T := (M.received b k).setZp c b

/-- Memory, bank and address have been read. -/
def addressed (memory bank : Byte) (address : Addr) (k : Pc) : Machine T :=
  (((M.taken T.mem memory (.sending [bank, lo address, hi address] k)).taken T.bank bank
    (.sending [lo address, hi address] k)).taken T.start (lo address)
    (.sending [hi address] k)).taken (T.start + 1#8) (hi address) k

/-- A header has been read. -/
def headed (memory bank : Byte) (start stop : Addr) (k : Pc) : Machine T :=
  ((M.addressed memory bank start (.sending [lo stop, hi stop] k)).taken T.stop (lo stop)
    (.sending [hi stop] k)).taken (T.stop + 1#8) (hi stop) k

end Machine

section Taken

variable (M : Machine T) (c b : Byte) (k : Pc)

@[simp] theorem pc_taken : (M.taken c b k).pc = k := rfl
@[simp] theorem config_taken : (M.taken c b k).config = M.config := rfl
@[simp] theorem dd03_taken : (M.taken c b k).dd03 = M.dd03 := rfl
@[simp] theorem ram_taken : (M.taken c b k).ram = M.ram := rfl
@[simp] theorem zp_taken : (M.taken c b k).zp = Function.update M.zp c b := rfl

end Taken

section Headers

variable {M : Machine T} {a x y : Byte} {z n : Bool} {st : List Byte} {k : Pc}
  {Q : Unit → Cpu (Machine T) → Prop}

theorem wp_readTo {c b : Byte} {bs : List Byte} (hc : c ∈ T.work) (hvis : T.Visible M.config)
    (hin : M.dd03 = 0x00#8) (hpc : M.pc = .sending (b :: bs) k)
    (h : ∀ a x z n, Q () ⟨a, x, y, z, n, st, M.taken c b (.sending bs k)⟩) :
    wp read (fun _ t => wp (stx (.zp c)) Q t) ⟨a, x, y, z, n, st, M⟩ := by
  refine wp_read hvis hin (k := .sending bs k) hpc fun a z n => ?_
  rw [wp_stx, locate_zp]
  exact ⟨_, write_cell hc b, h _ _ _ _⟩

theorem wp_readAddress {memory bank : Byte} {address : Addr} (hvis : T.Visible M.config)
    (hin : M.dd03 = 0x00#8)
    (hpc : M.pc = .sending [memory, bank, lo address, hi address] k)
    (h : ∀ a x z n, Q () ⟨a, x, y, z, n, st, M.addressed memory bank address k⟩) :
    wp readAddress Q ⟨a, x, y, z, n, st, M⟩ := by
  have hwork : T.start ∈ T.work ∧ T.start + 1#8 ∈ T.work ∧ T.mem ∈ T.work ∧ T.bank ∈ T.work := by
    simp [Target.work]
  obtain ⟨h₀, h₁, h₂, h₃⟩ := hwork
  simp only [readAddress, wp_bind, wp_jsr]
  refine wp_readTo h₂ hvis hin hpc fun a x z n => ?_
  refine wp_readTo h₃ (by simpa) (by simpa) (pc_taken ..) fun a x z n => ?_
  refine wp_readTo h₀ (by simpa) (by simpa) (pc_taken ..) fun a x z n => ?_
  exact wp_readTo h₁ (by simpa) (by simpa) (pc_taken ..) h

theorem wp_readHeader {memory bank : Byte} {start stop : Addr} (hvis : T.Visible M.config)
    (hin : M.dd03 = 0x00#8)
    (hpc : M.pc = .sending [memory, bank, lo start, hi start, lo stop, hi stop] k)
    (h : ∀ a x z n, Q () ⟨a, x, y, z, n, st, M.headed memory bank start stop k⟩) :
    wp readHeader Q ⟨a, x, y, z, n, st, M⟩ := by
  have hwork : T.start ∈ T.work ∧ T.start + 1#8 ∈ T.work ∧ T.mem ∈ T.work ∧ T.bank ∈ T.work ∧
      T.stop ∈ T.work ∧ T.stop + 1#8 ∈ T.work := by
    simp [Target.work]
  obtain ⟨h₀, h₁, h₂, h₃, h₄, h₅⟩ := hwork
  simp only [readHeader, wp_bind, wp_jsr]
  refine wp_readTo h₂ hvis hin hpc fun a x z n => ?_
  refine wp_readTo h₃ (by simpa) (by simpa) (pc_taken ..) fun a x z n => ?_
  refine wp_readTo h₀ (by simpa) (by simpa) (pc_taken ..) fun a x z n => ?_
  refine wp_readTo h₁ (by simpa) (by simpa) (pc_taken ..) fun a x z n => ?_
  refine wp_readTo h₄ (by simpa) (by simpa) (pc_taken ..) fun a x z n => ?_
  exact wp_readTo h₅ (by simpa) (by simpa) (pc_taken ..) h

end Headers

/-! ## Rounds of a load -/

namespace Machine

variable (M : Machine T)

/-- A byte is taken from the PC and put at the start address under the configuration `config`, which
is `back` afterwards. -/
def stored (config back b : Byte) (k : Pc) : Machine T :=
  let N : Machine T := { M.strobed (some b) (.ack fun _ => k) with config := config }
  let N : Machine T := { N.put (M.word T.start) b with config := back }
  (N.acked k).setWord T.start (M.word T.start + 1#16)

end Machine

section Rounds

variable {M : Machine T} {a x z' : Byte} {y : Byte} {z n : Bool} {st : List Byte} {k : Pc}

theorem locate_start {s : Cpu (Machine T)} (hy : s.y = 0x00#8) :
    (Mode.indY T.start).locate s = (s.bus.word T.start, s.bus) := by
  obtain ⟨hc₀, hc₁, -⟩ := mem_cells (T := T)
  simp only [Mode.locate, read_cell hc₀, read_cell hc₁, hy]
  rw [show (0x00#8).setWidth 16 = 0#16 by decide, BitVec.add_zero]
  rfl

theorem fetch_start {s : Cpu (Machine T)} (hy : s.y = 0x00#8) :
    (Mode.indY T.start).fetch s = Machine.read s.bus (s.bus.word T.start) := by
  rw [Mode.fetch, locate_start hy]
  rfl

theorem word_put {addr : Addr} {v : Byte} (h : T.Clear M.config addr) {c : Byte}
    (hc : c ∈ T.work) (hc₁ : c + 1#8 ∈ T.work) : (M.put addr v).word c = M.word c := by
  rw [Machine.word, Machine.zp_put v h hc, Machine.zp_put v h hc₁]
  rfl

theorem mem_work : T.start ∈ T.work ∧ T.start + 1#8 ∈ T.work ∧ T.stop ∈ T.work ∧
    T.stop + 1#8 ∈ T.work ∧ T.mem ∈ T.work ∧ T.bank ∈ T.work := by
  simp [Target.work]

theorem stored_same {b : Byte} (hclear : T.Clear M.config (M.word T.start)) :
    M.stored M.config M.config b k =
      (((M.strobed (some b) (.ack fun _ => k)).put (M.word T.start) b).acked k).setWord T.start
        (M.word T.start + 1#16) := by
  have hconfig : ((M.strobed (some b) (.ack fun _ => k)).put (M.word T.start) b).config =
      M.config :=
    Machine.config_put (M := M.strobed _ _) b hclear
  have hback : ({ (M.strobed (some b) (.ack fun _ => k)).put (M.word T.start) b with
      config := M.config } : Machine T) =
        (M.strobed (some b) (.ack fun _ => k)).put (M.word T.start) b := by
    rw [← hconfig]
  exact congrArg (fun N => (Machine.acked N k).setWord T.start (M.word T.start + 1#16)) hback

theorem wp_loadNear {b : Byte} {Q : Byte × Bool → Cpu (Machine T) → Prop}
    (hvis : T.Visible M.config) (hin : M.dd03 = 0x00#8)
    (hclear : T.Clear M.config (M.word T.start)) (hpc : M.pc = .sending [b] k)
    (h : ∀ a z n, Q (b, decide (M.word T.start + 1#16 ≠ M.word T.stop))
      ⟨a, x, 0x00#8, z, n, st, M.stored M.config M.config b k⟩) :
    wp loadNear Q ⟨a, x, 0x00#8, z, n, st, M⟩ := by
  obtain ⟨h₀, h₁, h₂, h₃, -⟩ := mem_work (T := T)
  have hstore : Bus.write (M.word T.start) b (M.strobed (some b) (.ack fun _ => k)) =
      some ((M.strobed (some b) (.ack fun _ => k)).put (M.word T.start) b) :=
    Machine.write_eq_put (M := M.strobed _ _) hclear b
  have hconfig : ((M.strobed (some b) (.ack fun _ => k)).put (M.word T.start) b).config =
      M.config :=
    Machine.config_put (M := M.strobed _ _) b hclear
  simp only [loadNear, wp_bind]
  refine wp_wait hvis hpc fun a z n => ?_
  simp only [wp_lda, fetch_abs, read_dd01 (M := M.strobed _ _) hvis,
    portB_input (M := M.strobed _ _) hin, wp_sta, locate_start, wp_observe]
  refine ⟨_, hstore, ?_⟩
  refine wp_ack (by rw [hconfig]; exact hvis) (by rw [Machine.pc_put]; rfl) fun a z n => ?_
  refine wp_next fun a z n => ?_
  have hword : ∀ c, c ∈ T.work → c + 1#8 ∈ T.work →
      (((M.strobed (some b) (.ack fun _ => k)).put (M.word T.start) b).acked k).word c =
        M.word c := fun c hc hc₁ => word_put (M := M.strobed _ _) hclear hc hc₁
  rw [hword _ h₀ h₁, hword _ h₂ h₃, wp_pure]
  rw [stored_same hclear] at h
  exact h a z n

end Rounds

section Stored

variable {M : Machine T} {config back b : Byte} {k : Pc}

@[simp] theorem pc_stored : (M.stored config back b k).pc = k := rfl

@[simp] theorem config_stored : (M.stored config back b k).config = back := rfl

@[simp] theorem dd03_stored : (M.stored config back b k).dd03 = M.dd03 := by
  simp [Machine.stored, Machine.setWord, Machine.setZp, Machine.acked, Machine.strobed]

theorem word_setWord (M : Machine T) (w : Addr) : (M.setWord T.start w).word T.start = w := by
  rw [Machine.word, zp_setWord_low, zp_setWord_high, word_hi_lo]

@[simp] theorem word_stored_start : (M.stored config back b k).word T.start =
    M.word T.start + 1#16 :=
  word_setWord _ _

/-- The other cells keep what they have. -/
theorem zp_stored {work : List Byte} {c : Byte}
    (hclear : (T.writes config (M.word T.start)).Clear work) (hc : c ∈ work)
    (hlow : c ≠ T.start) (hhigh : c ≠ T.start + 1#8) :
    (M.stored config back b k).zp c = M.zp c := by
  rw [Machine.stored, zp_setWord_of_ne _ hlow hhigh]
  exact Machine.zp_put (M := { M.strobed _ _ with config := config }) b hclear hc

theorem word_stored_stop (hclear : T.Clear config (M.word T.start)) :
    (M.stored config back b k).word T.stop = M.word T.stop := by
  obtain ⟨-, -, h₂, h₃, -⟩ := mem_work (T := T)
  obtain ⟨-, hne₂, hne₃, hne₂', hne₃', -⟩ := T.work_ne
  rw [Machine.word, Machine.word, zp_stored hclear h₂ hne₂ hne₂', zp_stored hclear h₃ hne₃ hne₃']

end Stored

/-! ## The loop of a load -/

/-- The payload of a load is taken from the PC and put from the start address on. -/
def Machine.loaded (config back : Byte) : List Byte → Pc → Machine T → Machine T
  | [], _, M => M
  | b :: bs, k, M => Machine.loaded config back bs k (M.stored config back b (.sending bs k))

/-- The rule of a round of a load that stays clear of the cells `work`: it is good in the machines
`ok`, and leaves them so. -/
structure LoadRound (body : Code T (Byte × Bool)) (config back : Byte) (work : List Byte)
    (ok : Machine T → Prop) (st : List Byte) : Prop where
  round : ∀ {M : Machine T} {a x : Byte} {z n : Bool} {b : Byte} {k : Pc}
    {Q : Byte × Bool → Cpu (Machine T) → Prop}, ok M →
    (T.writes config (M.word T.start)).Clear work → M.pc = .sending [b] k →
    (∀ a x z n, Q (b, decide (M.word T.start + 1#16 ≠ M.word T.stop))
      ⟨a, x, 0x00#8, z, n, st, M.stored config back b k⟩) →
    wp body Q ⟨a, x, 0x00#8, z, n, st, M⟩
  keeps : ∀ {M : Machine T} (b : Byte) (k : Pc), ok M →
    (T.writes config (M.word T.start)).Clear work → ok (M.stored config back b k)
  counters : T.work ⊆ work

theorem add_ofNat_succ (w : Addr) (n : Nat) :
    w + BitVec.ofNat 16 (n + 1) = w + 1#16 + BitVec.ofNat 16 n := by
  apply BitVec.eq_of_toNat_eq
  simp only [BitVec.toNat_add, BitVec.toNat_ofNat]
  omega

/-- The loop goes on after a byte exactly if there is another one. -/
theorem goes_on (w : Addr) {n : Nat} (hmax : n + 1 ≤ 0x10000) :
    w + 1#16 ≠ w + BitVec.ofNat 16 (n + 1) ↔ 0 < n := by
  rw [ne_eq, ← BitVec.toNat_inj]
  simp only [BitVec.toNat_add, BitVec.toNat_ofNat]
  have := w.isLt
  omega

section Loops

variable {st : List Byte}

/-- **The loop of a load takes the payload and no more.** -/
theorem LoadRound.loop {body : Code T (Byte × Bool)} {config back : Byte} {work : List Byte}
    {ok : Machine T → Prop} (hround : LoadRound body config back work ok st) {bs : List Byte}
    {k : Pc} {r : Nat} {Q : List Byte → Cpu (Machine T) → Prop} (hr : bs.length ≤ r) (hne : bs ≠ [])
    (hmax : bs.length ≤ 0x10000) {M : Machine T} {a x : Byte} {z n : Bool} (hM : ok M)
    (hclear : ∀ i < bs.length,
      (T.writes config (M.word T.start + BitVec.ofNat 16 i)).Clear work)
    (hstop : M.word T.stop = M.word T.start + BitVec.ofNat 16 bs.length)
    (hpc : M.pc = .sending bs k)
    (h : ∀ a x z n, Q bs ⟨a, x, 0x00#8, z, n, st, M.loaded config back bs k⟩) :
    wp (Mos6502.loop body r) Q ⟨a, x, 0x00#8, z, n, st, M⟩ := by
  induction bs generalizing r Q M a x z n with
  | nil => exact absurd rfl hne
  | cons b bs ih =>
    cases r with
    | zero => simp at hr
    | succ r =>
      have hfirst : (T.writes config (M.word T.start)).Clear work := by
        have := hclear 0 (by simp)
        rwa [BitVec.add_zero] at this
      have hcounters : T.Clear config (M.word T.start) := hfirst.mono hround.counters
      simp only [Mos6502.loop, wp_bind]
      refine hround.round hM hfirst (k := .sending bs k) hpc fun a x z n => ?_
      dsimp only
      rw [hstop, List.length_cons]
      by_cases hlast : bs = []
      · subst hlast
        rw [decide_eq_false (by simp), if_neg (by simp), wp_pure]
        exact h a x z n
      · have hpos : 0 < bs.length := List.length_pos_iff.mpr hlast
        rw [decide_eq_true ((goes_on _ (by simpa using hmax)).mpr hpos), if_pos rfl, wp_bind]
        refine ih (by simpa using hr) hlast (by simp at hmax; omega)
          (hround.keeps b _ hM hfirst) (fun i hi => ?_) ?_ pc_stored fun a x z n => ?_
        · rw [word_stored_start, ← add_ofNat_succ]
          exact hclear (i + 1) (by simpa using hi)
        · rw [word_stored_stop hcounters, word_stored_start, hstop, List.length_cons,
            add_ofNat_succ]
        · rw [wp_pure]
          exact h a x z n

/-- Loads with the configuration as it is. -/
theorem loadRound_near {config : Byte} (hvis : T.Visible config) :
    LoadRound (T := T) loadNear config config T.work
      (fun M => M.config = config ∧ M.dd03 = 0x00#8) st where
  counters := List.Subset.refl _
  round := by
    rintro M a x z n b k Q ⟨rfl, hin⟩ hclear hpc h
    exact wp_loadNear hvis hin hclear hpc fun a z n => h a x z n
  keeps := by
    rintro M b k ⟨rfl, hin⟩ hclear
    exact ⟨rfl, by rw [dd03_stored, hin]⟩

end Loops

/-! ## Rounds of a save -/

/-- The byte at the start address under the configuration `config`, which is `back` afterwards, is
given to the PC. -/
def Machine.given (M : Machine T) (config back : Byte) (f : Byte → Pc) : Byte × Machine T :=
  let r := Machine.read ({ M with config := config } : Machine T) (M.word T.start)
  (r.1, (({ r.2 with config := back } : Machine T).sent r.1 (f r.1)).setWord T.start
    (M.word T.start + 1#16))

/-- The PC waits for a byte and strobes when it has it. -/
def Pc.Takes (pc : Pc) (f : Byte → Pc) : Prop := pc = .ack fun b => .strobe none (f b)

theorem Pc.Takes.ne_strobe {pc : Pc} {f : Byte → Pc} (h : pc.Takes f) (data : Option Byte)
    (k : Pc) : pc ≠ .strobe data k := by
  rw [h]
  nofun

section Given

variable {M : Machine T} {config back : Byte} {f : Byte → Pc} {a x : Byte} {z n : Bool}
  {st : List Byte}

@[simp] theorem pc_given : (M.given config back f).2.pc = f (M.given config back f).1 := rfl

@[simp] theorem config_given : (M.given config back f).2.config = back := rfl

/-- What a round of a save leaves of the machine: the log, the cable and the counter change. -/
theorem given_frame (hpc : M.pc.Takes f) :
    (M.given config back f).2 = { M with
      config := back
      log := (M.given config back f).2.log
      pc := (M.given config back f).2.pc
      lines := (M.given config back f).2.lines
      dd00 := (M.given config back f).2.dd00
      dd01 := (M.given config back f).2.dd01
      zp := (M.setWord T.start (M.word T.start + 1#16)).zp } := by
  have hread := Machine.read_frame ({ M with config := config } : Machine T) (M.word T.start)
    hpc.ne_strobe
  unfold Machine.given
  dsimp only
  rw [hread]
  rfl

theorem dd03_given (hpc : M.pc.Takes f) : (M.given config back f).2.dd03 = M.dd03 := by
  rw [given_frame hpc]

theorem ram_given (hpc : M.pc.Takes f) : (M.given config back f).2.ram = M.ram := by
  rw [given_frame hpc]

theorem zp_given (hpc : M.pc.Takes f) :
    (M.given config back f).2.zp = (M.setWord T.start (M.word T.start + 1#16)).zp := by
  rw [given_frame hpc]

theorem word_given_start (hpc : M.pc.Takes f) :
    (M.given config back f).2.word T.start = M.word T.start + 1#16 := by
  rw [Machine.word, zp_given hpc]
  exact word_setWord M _

theorem word_given_stop (hpc : M.pc.Takes f) :
    (M.given config back f).2.word T.stop = M.word T.stop := by
  obtain ⟨-, hne₂, hne₃, hne₂', hne₃', -⟩ := T.work_ne
  rw [Machine.word, zp_given hpc, zp_setWord_of_ne _ hne₂ hne₂', zp_setWord_of_ne _ hne₃ hne₃']
  rfl

theorem given_same (hpc : M.pc.Takes f) :
    M.given M.config M.config f = ((M.read (M.word T.start)).1,
      ((M.read (M.word T.start)).2.sent (M.read (M.word T.start)).1
        (f (M.read (M.word T.start)).1)).setWord T.start (M.word T.start + 1#16)) := by
  have hread := Machine.read_frame M (M.word T.start) hpc.ne_strobe
  have hback : ({ (M.read (M.word T.start)).2 with config := M.config } : Machine T) =
      (M.read (M.word T.start)).2 := by
    rw [hread]
  exact Prod.ext rfl (congrArg (fun N => (Machine.sent N _ _).setWord T.start
    (M.word T.start + 1#16)) hback)

/-- The counters are what they were before a byte is read and given to the PC. -/
theorem word_sent_read (hpc : M.pc.Takes f) {addr : Addr} {v : Byte} {k : Pc} (c : Byte) :
    ((M.read addr).2.sent v k).word c = M.word c := by
  have hread := Machine.read_frame M addr hpc.ne_strobe
  rw [hread]
  rfl

theorem wp_saveNear {Q : Byte × Bool → Cpu (Machine T) → Prop} (hvis : T.Visible M.config)
    (hout : M.dd03 = 0xff#8) (hpc : M.pc.Takes f)
    (h : ∀ a z n, Q ((M.given M.config M.config f).1,
        decide (M.word T.start + 1#16 ≠ M.word T.stop))
      ⟨a, x, 0x00#8, z, n, st, (M.given M.config M.config f).2⟩) :
    wp saveNear Q ⟨a, x, 0x00#8, z, n, st, M⟩ := by
  have hread := Machine.read_frame M (M.word T.start) hpc.ne_strobe
  have hfetch : Bus.read (M.word T.start) M = M.read (M.word T.start) := rfl
  simp only [saveNear, wp_bind, wp_lda, Mode.fetch, locate_start, hfetch, wp_observe]
  refine wp_write (f := f) ?_ ?_ ?_ fun v z n => ?_
  · rw [hread]
    exact hvis
  · rw [hread]
    exact hout
  · rw [hread]
    exact hpc
  · refine wp_next fun a z n => ?_
    rw [wp_pure, word_sent_read hpc, word_sent_read hpc]
    rw [given_same hpc] at h
    exact h a z n

/-- What is left of a round once the byte has been read and the configuration restored. -/
theorem wp_giveNext {y : Byte} {Q : Byte × Bool → Cpu (Machine T) → Prop} {v : Byte}
    {N : Machine T} (hvis : T.Visible back) (hout : M.dd03 = 0xff#8) (hpc : M.pc.Takes f)
    (hread : Machine.read ({ M with config := config } : Machine T) (M.word T.start) = (v, N))
    (h : ∀ a x z n, Q ((M.given config back f).1, decide (M.word T.start + 1#16 ≠ M.word T.stop))
      ⟨a, x, y, z, n, st, (M.given config back f).2⟩) :
    wp write (fun _ t => wp next (fun again t => Q (v, again) t) t)
      ⟨v, x, y, z, n, st, { N with config := back }⟩ := by
  have hframe := Machine.read_frame ({ M with config := config } : Machine T) (M.word T.start)
    hpc.ne_strobe
  rw [hread] at hframe
  have hin : N.dd03 = M.dd03 := (congrArg Machine.dd03 hframe :)
  have hleft : N.pc = M.pc := (congrArg Machine.pc hframe :)
  have hzp : N.zp = M.zp := (congrArg Machine.zp hframe :)
  refine wp_write hvis (hin.trans hout) (hleft.trans hpc) fun v' z n => ?_
  refine wp_next fun a z n => ?_
  have hword : ∀ c, (({ N with config := back } : Machine T).sent v (f v)).word c = M.word c := by
    intro c
    change Word.word (N.zp _) (N.zp _) = Word.word (M.zp _) (M.zp _)
    rw [hzp]
  rw [hword, hword]
  have hgiven : M.given config back f =
      (v, (({ N with config := back } : Machine T).sent v (f v)).setWord T.start
        (M.word T.start + 1#16)) := by
    rw [Machine.given, hread]
  rw [hgiven] at h
  exact h _ _ _ _

end Given

/-! ## The loop of a save -/

/-- `n` bytes from the start address on are given to the PC. -/
def Machine.saved (config back : Byte) : Nat → (List Byte → Pc) → Machine T → List Byte × Machine T
  | 0, _, M => ([], M)
  | n + 1, k, M =>
    let r := M.given config back fun b => .receiving n fun bs => k (b :: bs)
    let rest := Machine.saved config back n (fun bs => k (r.1 :: bs)) r.2
    (r.1 :: rest.1, rest.2)

/-- The rule of a round of a save: it is good in the machines `ok`, and leaves them so. -/
structure SaveRound (body : Code T (Byte × Bool)) (config back : Byte) (ok : Machine T → Prop)
    (st : List Byte) : Prop where
  round : ∀ {M : Machine T} {a x : Byte} {z n : Bool} {f : Byte → Pc}
    {Q : Byte × Bool → Cpu (Machine T) → Prop}, ok M → M.pc.Takes f →
    (∀ a x z n, Q ((M.given config back f).1, decide (M.word T.start + 1#16 ≠ M.word T.stop))
      ⟨a, x, 0x00#8, z, n, st, (M.given config back f).2⟩) →
    wp body Q ⟨a, x, 0x00#8, z, n, st, M⟩
  keeps : ∀ {M : Machine T} {f : Byte → Pc}, ok M → M.pc.Takes f →
    ok (M.given config back f).2

section Loops

variable {st : List Byte}

/-- **The loop of a save gives as many bytes as the PC receives.** -/
theorem SaveRound.loop {body : Code T (Byte × Bool)} {config back : Byte} {ok : Machine T → Prop}
    (hround : SaveRound body config back ok st) {size : Nat} {k : List Byte → Pc} {r : Nat}
    {Q : List Byte → Cpu (Machine T) → Prop} (hr : size ≤ r) (hpos : 0 < size)
    (hmax : size ≤ 0x10000) {M : Machine T} {a x : Byte} {z n : Bool} (hM : ok M)
    (hstop : M.word T.stop = M.word T.start + BitVec.ofNat 16 size)
    (hpc : M.pc = .receiving size k)
    (h : ∀ a x z n, Q (M.saved config back size k).1
      ⟨a, x, 0x00#8, z, n, st, (M.saved config back size k).2⟩) :
    wp (Mos6502.loop body r) Q ⟨a, x, 0x00#8, z, n, st, M⟩ := by
  induction size generalizing r k Q M a x z n with
  | zero => exact absurd hpos (Nat.lt_irrefl 0)
  | succ size ih =>
    cases r with
    | zero => simp at hr
    | succ r =>
      simp only [Mos6502.loop, wp_bind]
      refine hround.round hM hpc fun a x z n => ?_
      dsimp only
      rw [hstop]
      by_cases hlast : size = 0
      · subst hlast
        rw [decide_eq_false (by simp), if_neg (by simp), wp_pure]
        exact h a x z n
      · have hleft : 0 < size := Nat.pos_of_ne_zero hlast
        rw [decide_eq_true ((goes_on _ hmax).mpr hleft), if_pos rfl, wp_bind]
        refine ih (by omega) hleft (by omega) (hround.keeps hM hpc) ?_ pc_given
          fun a x z n => ?_
        · rw [word_given_stop hpc, word_given_start hpc, hstop, add_ofNat_succ]
        · rw [wp_pure]
          exact h a x z n

/-- Saves with the configuration as it is. -/
theorem saveRound_near {config : Byte} (hvis : T.Visible config) :
    SaveRound (T := T) saveNear config config
      (fun M => M.config = config ∧ M.dd03 = 0xff#8) st where
  round := by
    rintro M a x z n f Q ⟨rfl, hout⟩ hpc h
    exact wp_saveNear hvis hout hpc fun a z n => h a x z n
  keeps := by
    rintro M f ⟨rfl, hout⟩ hpc
    exact ⟨rfl, by rw [dd03_given hpc, hout]⟩

theorem pc_loaded {config back : Byte} (bs : List Byte) (k : Pc) (M : Machine T)
    (hpc : M.pc = .sending bs k) : (M.loaded config back bs k).pc = k := by
  induction bs generalizing M with
  | nil => exact hpc
  | cons b bs ih => exact ih _ pc_stored

theorem dd03_loaded (config back : Byte) (bs : List Byte) (k : Pc) (M : Machine T) :
    (M.loaded config back bs k).dd03 = M.dd03 := by
  induction bs generalizing M with
  | nil => rfl
  | cons b bs ih => rw [Machine.loaded, ih, dd03_stored]

theorem config_loaded {config back : Byte} {bs : List Byte} (hne : bs ≠ []) (k : Pc)
    (M : Machine T) : (M.loaded config back bs k).config = back := by
  induction bs generalizing M with
  | nil => exact absurd rfl hne
  | cons b bs ih =>
    cases bs with
    | nil => rfl
    | cons b' bs => exact ih (List.cons_ne_nil _ _) _

/-- The addresses a payload goes to are clear from the second byte on, too. -/
theorem clear_tail {work : List Byte} {config back b : Byte} {k : Pc} {M : Machine T} {n : Nat}
    (hclear : ∀ i < n + 1, (T.writes config (M.word T.start + BitVec.ofNat 16 i)).Clear work) :
    (T.writes config (M.word T.start)).Clear work ∧ ∀ i < n,
      (T.writes config ((M.stored config back b k).word T.start + BitVec.ofNat 16 i)).Clear
        work := by
  constructor
  · have := hclear 0 (Nat.succ_pos n)
    rwa [BitVec.add_zero] at this
  · intro i hi
    rw [word_stored_start, ← add_ofNat_succ]
    exact hclear (i + 1) (Nat.succ_lt_succ hi)

theorem zp_loaded {work : List Byte} {config back : Byte} {bs : List Byte} {k : Pc} {M : Machine T}
    (hclear : ∀ i < bs.length, (T.writes config (M.word T.start + BitVec.ofNat 16 i)).Clear work)
    {c : Byte} (hc : c ∈ work) (hlow : c ≠ T.start) (hhigh : c ≠ T.start + 1#8) :
    (M.loaded config back bs k).zp c = M.zp c := by
  induction bs generalizing M with
  | nil => rfl
  | cons b bs ih =>
    obtain ⟨hfirst, hrest⟩ := clear_tail hclear
    rw [Machine.loaded, ih hrest, zp_stored hfirst hc hlow hhigh]

section Saved

variable {config back : Byte} {size : Nat} {k : List Byte → Pc} {M : Machine T}

theorem saved_succ (n : Nat) : (M.saved config back (n + 1) k).2 =
    ((M.given config back fun b => .receiving n fun bs => k (b :: bs)).2.saved config back n
      fun bs => k ((M.given config back fun b => .receiving n fun bs => k (b :: bs)).1 :: bs)).2 :=
  rfl

theorem pc_saved (hpc : M.pc = .receiving size k) :
    (M.saved config back size k).2.pc = k (M.saved config back size k).1 := by
  induction size generalizing k M with
  | zero => exact hpc
  | succ size ih => exact ih pc_given

theorem config_saved (hpos : 0 < size) : (M.saved config back size k).2.config = back := by
  induction size generalizing k M with
  | zero => exact absurd hpos (Nat.lt_irrefl 0)
  | succ size ih =>
    cases size with
    | zero => rfl
    | succ size =>
      rw [saved_succ]
      exact ih (Nat.succ_pos size)

/-- Of the zero page only the counter changes. -/
theorem zp_saved (hpc : M.pc = .receiving size k) {c : Byte} (hlow : c ≠ T.start)
    (hhigh : c ≠ T.start + 1#8) : (M.saved config back size k).2.zp c = M.zp c := by
  induction size generalizing k M with
  | zero => rfl
  | succ size ih =>
    refine (ih pc_given).trans ?_
    rw [zp_given hpc, zp_setWord_of_ne _ hlow hhigh]

end Saved

theorem length_saved (config back : Byte) (size : Nat) (k : List Byte → Pc) (M : Machine T) :
    (M.saved config back size k).1.length = size := by
  induction size generalizing k M with
  | zero => rfl
  | succ size ih => simp [Machine.saved, ih]

end Loops

/-! ## Dispatch -/

/-- The handler of a command. -/
def Handlers.handler (h : Handlers T) (command : Byte) : Code T Outcome :=
  if command = Command.load then h.load
  else if command = Command.save then h.save
  else if command = Command.peek then h.peek
  else if command = Command.poke then h.poke
  else if command = Command.jump then h.jump
  else if command = Command.run then h.run
  else if command = Command.inject then h.inject
  else if command = Command.identify then h.identify
  else pure (.returned (some (.other command)))

/-- A comparison of Y and the branch on it. -/
theorem wp_cpyBne {v : Byte} {p q : Code T Outcome} {Q : Outcome → Cpu (Machine T) → Prop}
    {M : Machine T} {a x y : Byte} {z n : Bool} {st : List Byte}
    (hne : y ≠ v → ∀ z n, wp p Q ⟨a, x, y, z, n, st, M⟩)
    (heq : y = v → ∀ z n, wp q Q ⟨a, x, y, z, n, st, M⟩) :
    wp (cpyImm v) (fun _ t => wp (ifNe p q) Q t) ⟨a, x, y, z, n, st, M⟩ := by
  rw [wp_cpyImm, wp_ifNe]
  split
  next h => exact hne (by simpa using h) _ _
  next h => exact heq (by simpa using h) _ _

/-- The dispatch gives control to the handler of the command, which finds it in Y. -/
theorem wp_irq {h : Handlers T} {M : Machine T} {a x y : Byte} {z n : Bool} {st : List Byte}
    {k : Pc} {Q : Outcome → Cpu (Machine T) → Prop} (command : Byte) (hvis : T.Visible M.config)
    (hin : M.dd03 = 0x00#8) (hpc : M.pc = .sending [command] k)
    (hQ : ∀ a x z n, wp (h.handler command) Q
      ⟨a, x, command, z, n, st, M.received command k⟩) :
    wp (irq h) Q ⟨a, x, y, z, n, st, M⟩ := by
  have hseen : M.pc = .strobe (some command) (.ack fun _ => k) := hpc
  simp only [irq, wp_bind, wp_lda, fetch_abs, read_dd0d hvis, Machine.readIo, hseen, ↓reduceIte,
    wp_andImm, wp_ifNe, BitVec.reduceAnd, wp_ldy, read_dd01 (M := M.strobed _ _) hvis,
    portB_input (M := M.strobed _ _) hin]
  rw [if_pos (by decide)]
  rw [show (M.strobed (some command) (.ack fun _ => k)).lines = command from rfl]
  refine wp_ack (M := M.strobed _ _) hvis rfl fun a z n => ?_
  change wp _ _ ⟨a, x, command, z, n, st, M.received command k⟩
  have hcommand := hQ a x
  unfold Handlers.handler at hcommand
  refine wp_cpyBne (fun h₁ z n => ?_) fun heq z n => by simpa only [if_pos heq] using hcommand z n
  rw [wp_bind]
  refine wp_cpyBne (fun h₂ z n => ?_) fun heq z n => by
    simpa only [if_neg h₁, if_pos heq] using hcommand z n
  rw [wp_bind]
  refine wp_cpyBne (fun h₃ z n => ?_) fun heq z n => by
    simpa only [if_neg h₁, if_neg h₂, if_pos heq] using hcommand z n
  rw [wp_bind]
  refine wp_cpyBne (fun h₄ z n => ?_) fun heq z n => by
    simpa only [if_neg h₁, if_neg h₂, if_neg h₃, if_pos heq] using hcommand z n
  rw [wp_bind]
  refine wp_cpyBne (fun h₅ z n => ?_) fun heq z n => by
    simpa only [if_neg h₁, if_neg h₂, if_neg h₃, if_neg h₄, if_pos heq] using hcommand z n
  rw [wp_bind]
  refine wp_cpyBne (fun h₆ z n => ?_) fun heq z n => by
    simpa only [if_neg h₁, if_neg h₂, if_neg h₃, if_neg h₄, if_neg h₅, if_pos heq]
      using hcommand z n
  rw [wp_bind]
  refine wp_cpyBne (fun h₇ z n => ?_) fun heq z n => by
    simpa only [if_neg h₁, if_neg h₂, if_neg h₃, if_neg h₄, if_neg h₅, if_neg h₆, if_pos heq]
      using hcommand z n
  rw [wp_bind]
  refine wp_cpyBne (fun h₈ z n => ?_) fun heq z n => by
    simpa only [if_neg h₁, if_neg h₂, if_neg h₃, if_neg h₄, if_neg h₅, if_neg h₆, if_neg h₇,
      if_pos heq] using hcommand z n
  rw [wp_bind, wp_observe]
  simpa only [if_neg h₁, if_neg h₂, if_neg h₃, if_neg h₄, if_neg h₅, if_neg h₆, if_neg h₇,
    if_neg h₈] using hcommand z n

/-! ## Identification and injection -/

/-- The PC receives these bytes, and then goes on as `k`. -/
def Pc.Receives : List Byte → Pc → Pc → Prop
  | [], pc, k => pc = k
  | v :: vs, pc, k => ∃ f, pc.Takes f ∧ Pc.Receives vs (f v) k

theorem receives_receiving (vs : List Byte) (k : List Byte → Pc) :
    Pc.Receives vs (.receiving vs.length k) (k vs) := by
  induction vs generalizing k with
  | nil => rfl
  | cons v vs ih => exact ⟨_, rfl, ih _⟩

/-- The cable and the log aside, the second machine is the first. -/
structure Machine.Same (M N : Machine T) : Prop where
  config : N.config = M.config
  zp : N.zp = M.zp
  ram : N.ram = M.ram
  dd03 : N.dd03 = M.dd03

theorem Machine.Same.trans {M N O : Machine T} (hMN : M.Same N) (hNO : N.Same O) : M.Same O :=
  ⟨hNO.config.trans hMN.config, hNO.zp.trans hMN.zp, hNO.ram.trans hMN.ram,
    hNO.dd03.trans hMN.dd03⟩

section Identify

variable {M : Machine T} {a x y : Byte} {z n : Bool} {st : List Byte} {k : Pc}

theorem wp_writeTable {vs : List Byte} {Q : Unit → Cpu (Machine T) → Prop}
    (hvis : T.Visible M.config) (hout : M.dd03 = 0xff#8) (hpc : Pc.Receives vs M.pc k)
    (h : ∀ a z n N, M.Same N → N.pc = k → Q () ⟨a, x, y, z, n, st, N⟩) :
    wp (writeTable vs) Q ⟨a, x, y, z, n, st, M⟩ := by
  induction vs generalizing M a z n with
  | nil =>
    rw [writeTable, wp_pure]
    exact h _ _ _ M ⟨rfl, rfl, rfl, rfl⟩ hpc
  | cons v vs ih =>
    obtain ⟨f, htakes, hrest⟩ := hpc
    simp only [writeTable, wp_bind, wp_ldaImm, wp_jsr]
    refine wp_write hvis hout htakes fun v' z n => ?_
    have hsame : M.Same (M.sent v (f v)) := ⟨rfl, rfl, rfl, rfl⟩
    exact ih (M := M.sent v (f v)) hvis hout hrest fun a z n N hN hk =>
      h a z n N (hsame.trans hN) hk

theorem same_read (hpc : ∀ data k, M.pc ≠ .strobe data k) (addr : Addr) :
    M.Same (M.read addr).2 := by
  have hread := Machine.read_frame M addr hpc
  rw [hread]
  exact ⟨rfl, rfl, rfl, rfl⟩

theorem pc_read (hpc : ∀ data k, M.pc ≠ .strobe data k) (addr : Addr) :
    (M.read addr).2.pc = M.pc := by
  rw [Machine.read_frame M addr hpc]

/-- A byte is read from an address and given to the PC. -/
theorem wp_giveAbs {addr : Addr} {f : Byte → Pc} {P : Byte → Cpu (Machine T) → Prop}
    (hvis : T.Visible M.config) (hout : M.dd03 = 0xff#8) (hpc : M.pc.Takes f)
    (h : ∀ v a z n N, M.Same N → N.pc = f v → P v ⟨a, x, y, z, n, st, N⟩) :
    wp (lda (.abs addr)) (fun _ t => wp (observe (·.a)) (fun v t =>
      wp (jsr write) (fun _ t => P v t) t) t) ⟨a, x, y, z, n, st, M⟩ := by
  have hsame := same_read hpc.ne_strobe addr
  have hfetch : Bus.read addr M = M.read addr := rfl
  simp only [wp_lda, fetch_abs, hfetch, wp_observe, wp_jsr]
  refine wp_write (by rw [hsame.config]; exact hvis) (by rw [hsame.dd03]; exact hout)
    ((pc_read hpc.ne_strobe addr).trans hpc) fun v z n => ?_
  exact h _ _ _ _ _ (hsame.trans ⟨rfl, rfl, rfl, rfl⟩) rfl

/-- An identification sends its table and the top of memory. -/
theorem wp_identify {table : Table} {Q : Outcome → Cpu (Machine T) → Prop}
    {k : Byte → Byte → Pc} {pc : Pc} (hvis : T.Visible M.config) (hpc : M.pc = .strobe none pc)
    (htable : Pc.Receives table.bytes pc
      (.ack fun low => .strobe none (.ack fun high => .strobe none (k low high))))
    (h : ∀ low high a z n N, N.config = M.config → N.zp = M.zp → N.ram = M.ram →
      N.dd03 = 0x00#8 → N.pc = k low high →
      Q (.returned (some (.identify (table.bytes ++ [low, high])))) ⟨a, x, y, z, n, st, N⟩) :
    wp (identify table) Q ⟨a, x, y, z, n, st, M⟩ := by
  simp only [identify, wp_bind]
  refine wp_output hvis hpc fun z n => ?_
  refine wp_writeTable (M := M.turned pc) hvis rfl htable fun a z n N hN hNk => ?_
  have hvisN : T.Visible N.config := by
    rw [hN.config]
    exact hvis
  refine wp_giveAbs hvisN hN.dd03 hNk fun low a z n O hO hOk => ?_
  have hvisO : T.Visible O.config := by
    rw [hO.config]
    exact hvisN
  refine wp_giveAbs hvisO (hO.dd03.trans hN.dd03) hOk fun high a z n P hP hPk => ?_
  have hsame := (hN.trans hO).trans hP
  refine wp_input (by rw [hP.config]; exact hvisO) fun a z n => ?_
  rw [wp_pure]
  exact h low high a z n _ hsame.config hsame.zp hsame.ram rfl hPk

/-- An injection goes to the address after the one it is sent. -/
theorem wp_inject {back address : Addr} {Q : Outcome → Cpu (Machine T) → Prop}
    (hvis : T.Visible M.config) (hin : M.dd03 = 0x00#8)
    (hpc : M.pc = .sending [hi address, lo address] k)
    (h : ∀ a x z n st, Q (.left (.inject (address + 1#16)))
      ⟨a, x, y, z, n, st, (M.received (hi address) (.sending [lo address] k)).received
        (lo address) k⟩) :
    wp (inject back) Q ⟨a, x, y, z, n, st, M⟩ := by
  simp only [inject, wp_bind, wp_ldaImm, wp_pha, wp_jsr]
  refine wp_read hvis hin (k := .sending [lo address] k) hpc fun a z n => ?_
  simp only [wp_txa, wp_pha]
  refine wp_read (M := M.received _ _) hvis hin (k := k) rfl fun a z n => ?_
  simp only [wp_txa, wp_pha, wp_rts, wp_pure, word_hi_lo]
  exact h _ _ _ _ _

end Identify

end Xlink.Server
