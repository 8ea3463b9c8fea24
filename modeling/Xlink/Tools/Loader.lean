import Xlink.Client.Command
import Xlink.Lib.Mos6502
import Xlink.Tools.MakeServer

/-!
# The server that BASIC starts (`loader.asm`)

`make-server` also emits `xlink_server_basic_<name>()`, a BASIC program: one line with a `SYS`, a
loader, and the server relocated to the end of the first 16K. The loader copies the server there and
jumps to it. It counts in three cells of two bytes, up for the two addresses and down for the size,
and the size is the one without the header.

`basic_server_copies` is about every server that `make-server` accepts and that has room, on both
machines: the program comes to its jump after one round for each byte, and then the image relocated
to the end of the 16K is there. That BASIC gets to the `SYS` is not modelled.
-/

namespace Xlink.Loader

open Word Mos6502
open Client (MachineType)

/-! ## The memory -/

/-- Everything the loader uses is RAM: it stays below `$4000`. -/
abbrev Ram : Type := Addr → Byte

namespace Ram

/-- The memory with a byte stored. -/
def put (m : Ram) (a : Addr) (v : Byte) : Ram := fun b => if b = a then v else m b

/-- The word in two zero page cells. -/
def word (m : Ram) (c : Byte) : Addr := Word.word (m (zeroPage (c + 1#8))) (m (zeroPage c))

def setWord (m : Ram) (c : Byte) (w : Addr) : Ram :=
  (m.put (zeroPage c) (lo w)).put (zeroPage (c + 1#8)) (hi w)

end Ram

instance : Bus Ram where
  read a m := (m a, m)
  write a v m := some (m.put a v)

/-! ## The loader -/

def cnt : Byte := 0x22#8
def src : Byte := 0xfc#8
def dst : Byte := 0xfe#8

def incword (ptr : Byte) : Asm Ram Unit := do
  inc (.zp ptr)
  ifNe (pure ()) (inc (.zp (ptr + 1#8)))

def decword (ptr : Byte) : Asm Ram Unit := do
  dec (.zp ptr)
  lda (.zp ptr)
  cmpImm 0xff#8
  ifNe (pure ()) (dec (.zp (ptr + 1#8)))

/-- From `copy` to the branches back to it. -/
def copy : Asm Ram (Unit × Bool) := do
  lda (.indY src)
  sta (.indY dst)
  incword src
  incword dst
  decword cnt
  lda (.zp cnt)
  ifNe (pure ((), true)) do
    lda (.zp (cnt + 1#8))
    ifNe (pure ((), true)) (pure ((), false))

/-- `main`, with a number of rounds for the loop: how many bytes it copies, and where it jumps. -/
def main (size code dest : Addr) (rounds : Nat) : Asm Ram (Nat × Addr) := do
  ldaImm (lo size)
  sta (.zp cnt)
  ldaImm (hi size)
  sta (.zp (cnt + 1#8))
  ldaImm (lo code)
  sta (.zp src)
  ldaImm (hi code)
  sta (.zp (src + 1#8))
  ldaImm (lo dest)
  sta (.zp dst)
  ldaImm (hi dest)
  sta (.zp (dst + 1#8))
  ldyImm 0x00#8
  let copied ← loop copy rounds
  pure (copied.length, dest)

/-- `main` as it is assembled. -/
def mainBytes (size code dest : Addr) : List Byte :=
  [0xa9, lo size, 0x85, cnt, 0xa9, hi size, 0x85, cnt + 1,
   0xa9, lo code, 0x85, src, 0xa9, hi code, 0x85, src + 1,
   0xa9, lo dest, 0x85, dst, 0xa9, hi dest, 0x85, dst + 1,
   0xa0, 0x00,
   0xb1, src, 0x91, dst,
   0xe6, src, 0xd0, 0x02, 0xe6, src + 1,
   0xe6, dst, 0xd0, 0x02, 0xe6, dst + 1,
   0xc6, cnt, 0xa5, cnt, 0xc9, 0xff, 0xd0, 0x02, 0xc6, cnt + 1,
   0xa5, cnt, 0xd0, 0xe2, 0xa5, cnt + 1, 0xd0, 0xde,
   0x4c, lo dest, hi dest]

/-! ## The program -/

section Program

variable (mt : MachineType)

/-- `basic` of `server.h`, and `default_basic_start`. -/
def basic : Addr := (Client.Machine.ofType mt).defaultBasicStart

/-- `code`, behind the loader. -/
def code : Addr := basic mt + 0x10#16 + BitVec.ofNat 16 (mainBytes 0 0 0).length

/-- `dest`. -/
def dest (n : Nat) : Addr := 0x4000#16 - BitVec.ofNat 16 n

/-- The file that is assembled from `loader.asm` for a server of `n` bytes. -/
def loaderFile (n : Nat) : List Byte :=
  [lo (basic mt), hi (basic mt), 0x0b, hi (basic mt), 0x0a, 0x00, 0x9e, 0xff, 0xff, 0xff, 0xff] ++
    List.replicate 7 0 ++ mainBytes (BitVec.ofNat 16 n) (code mt) (dest n)

/-- `sprintf(loader+7, "%d", n)`. -/
def sprintf (loader : List Byte) (n : Nat) : List Byte :=
  let text := (Nat.toDigits 10 n).map (fun c => BitVec.ofNat 8 c.toNat) ++ [0x00#8]
  loader.take 7 ++ text ++ loader.drop (7 + text.length)

/-- The emitted `xlink_server_basic_<name>`. -/
def xlinkServerBasic (e : MakeServer.Emitted) (loader : List Byte) :
    Except MakeServer.Fault (List Byte) := do
  let loader := lo (basic mt) :: hi (basic mt) :: loader.drop 2
  let loader := sprintf loader (basic mt + 0x10#16).toNat
  let code ← MakeServer.xlinkServer e (0x4000#16 - BitVec.ofNat 16 e.size + 2#16)
  .ok (loader ++ code.drop 2)

end Program

/-! ## Words in memory -/

namespace Ram

variable (m : Ram) (a : Addr) (v : Byte)

@[simp] theorem put_self : m.put a v a = v := if_pos rfl

theorem put_of_ne {b : Addr} (h : b ≠ a) : m.put a v b = m b := if_neg h

theorem zeroPage_inj {c d : Byte} : zeroPage c = zeroPage d ↔ c = d := by
  constructor
  · intro h
    rw [← lo_word 0x00#8 c, ← lo_word 0x00#8 d]
    exact congrArg lo h
  · rintro rfl
    rfl

theorem zeroPage_lt (c : Byte) : (zeroPage c).toNat < 0x100 := by
  have := c.isLt
  rw [zeroPage, toNat_word, BitVec.toNat_ofNat]
  omega

theorem ne_zeroPage {a : Addr} (h : 0x100 ≤ a.toNat) (c : Byte) : a ≠ zeroPage c := by
  rintro rfl
  exact Nat.not_le.mpr (zeroPage_lt c) h

theorem next_ne (c : Byte) : c + 1#8 ≠ c := by
  intro h
  have := congrArg BitVec.toNat h
  have := c.isLt
  rw [BitVec.toNat_add, BitVec.toNat_ofNat] at *
  omega

theorem setWord_low (c : Byte) (w : Addr) : m.setWord c w (zeroPage c) = lo w := by
  rw [setWord, put_of_ne _ _ _ (fun h => next_ne c (zeroPage_inj.mp h).symm), put_self]

theorem setWord_high (c : Byte) (w : Addr) : m.setWord c w (zeroPage (c + 1#8)) = hi w :=
  put_self _ _ _

@[simp] theorem word_setWord (c : Byte) (w : Addr) : (m.setWord c w).word c = w := by
  rw [word, setWord_low, setWord_high, word_hi_lo]

/-- A word of other cells stays as it is. -/
theorem word_setWord_of_ne {c d : Byte} (w : Addr) (h : d ≠ c) (h₁ : d + 1#8 ≠ c)
    (h₂ : d ≠ c + 1#8) : (m.setWord c w).word d = m.word d := by
  have h₃ : d + 1#8 ≠ c + 1#8 := fun heq => h ((BitVec.add_left_inj 1#8).mp heq)
  simp only [word, setWord, put, zeroPage_inj, h, h₁, h₂, h₃, if_false]

/-- Memory above the zero page stays as it is. -/
theorem setWord_above {c : Byte} (w : Addr) {a : Addr} (h : 0x100 ≤ a.toNat) :
    m.setWord c w a = m a := by
  rw [setWord, put_of_ne _ _ _ (ne_zeroPage h _), put_of_ne _ _ _ (ne_zeroPage h _)]

/-- A byte above the zero page leaves its words. -/
theorem word_put (c : Byte) {a : Addr} (h : 0x100 ≤ a.toNat) : (m.put a v).word c = m.word c := by
  rw [word, put_of_ne _ _ _ (ne_zeroPage h _).symm, put_of_ne _ _ _ (ne_zeroPage h _).symm, word]

end Ram

/-! ## A round of the loop -/

section Rules

variable {a x y : Byte} {z n : Bool} {st : List Byte} {m : Ram}

theorem fetch_zp (c : Byte) :
    (Mode.zp c).fetch ⟨a, x, y, z, n, st, m⟩ = (m (zeroPage c), m) := rfl

theorem wp_incZp {Q : Unit → Cpu Ram → Prop} {c : Byte}
    (h : ∀ n, Q () ⟨a, x, y, m (zeroPage c) + 1#8 == 0, n, st,
      m.put (zeroPage c) (m (zeroPage c) + 1#8)⟩) :
    wp (inc (.zp c)) Q ⟨a, x, y, z, n, st, m⟩ := by
  rw [wp_inc, wp_store]
  exact ⟨_, rfl, h _⟩

theorem wp_decZp {Q : Unit → Cpu Ram → Prop} {c : Byte}
    (h : ∀ n, Q () ⟨a, x, y, m (zeroPage c) - 1#8 == 0, n, st,
      m.put (zeroPage c) (m (zeroPage c) - 1#8)⟩) :
    wp (dec (.zp c)) Q ⟨a, x, y, z, n, st, m⟩ := by
  rw [wp_dec, wp_store]
  exact ⟨_, rfl, h _⟩

theorem lo_word_ram (m : Ram) (c : Byte) : lo (m.word c) = m (zeroPage c) := lo_word _ _

theorem hi_word_ram (m : Ram) (c : Byte) : hi (m.word c) = m (zeroPage (c + 1#8)) := hi_word _ _

/-- A word whose high byte stays is set by its low byte. -/
theorem setWord_same (m : Ram) (c : Byte) {w : Addr} (h : hi w = hi (m.word c)) :
    m.setWord c w = m.put (zeroPage c) (lo w) := by
  funext b
  rw [Ram.setWord, h, hi_word_ram]
  by_cases hb : b = zeroPage (c + 1#8)
  · subst hb
    rw [Ram.put_self, Ram.put_of_ne _ _ _ fun h => Ram.next_ne c (Ram.zeroPage_inj.mp h)]
  · rw [Ram.put_of_ne _ _ _ hb]

/-- The increment of a word. -/
theorem wp_incword {Q : Unit → Cpu Ram → Prop} {c : Byte}
    (h : ∀ z n, Q () ⟨a, x, y, z, n, st, m.setWord c (m.word c + 1#16)⟩) :
    wp (incword c) Q ⟨a, x, y, z, n, st, m⟩ := by
  rw [incword, wp_bind]
  refine wp_incZp fun n => ?_
  rw [wp_ifNe]
  have hhigh := hi_add_one (m.word c)
  have hlow := lo_add_one (m.word c)
  rw [lo_word_ram] at hhigh hlow
  by_cases hcarry : m (zeroPage c) + 1#8 = 0#8
  · rw [if_neg (by simp [hcarry])]
    refine wp_incZp fun n => ?_
    rw [if_pos hcarry, hi_word_ram] at hhigh
    rw [Ram.setWord, hlow, hhigh] at h
    rw [Ram.put_of_ne _ _ _ fun heq => Ram.next_ne c (Ram.zeroPage_inj.mp heq)]
    exact h _ _
  · rw [if_pos (by simpa using hcarry), wp_pure]
    rw [if_neg hcarry] at hhigh
    rw [setWord_same m c hhigh, hlow] at h
    exact h _ _

/-- The decrement of a word: the low byte borrows when it gets to `$ff`. -/
theorem wp_decword {Q : Unit → Cpu Ram → Prop} {c : Byte}
    (h : ∀ a z n, Q () ⟨a, x, y, z, n, st, m.setWord c (m.word c - 1#16)⟩) :
    wp (decword c) Q ⟨a, x, y, z, n, st, m⟩ := by
  rw [decword, wp_bind]
  refine wp_decZp fun n => ?_
  simp only [wp_bind, wp_lda, fetch_zp, Ram.put_self, wp_cmpImm, wp_ifNe]
  have hhigh := hi_sub_one (m.word c)
  have hlow := lo_sub_one (m.word c)
  rw [lo_word_ram] at hhigh hlow
  by_cases hborrow : m (zeroPage c) - 1#8 = 0xff#8
  · rw [if_neg (by simp [hborrow])]
    refine wp_decZp fun n => ?_
    rw [if_pos hborrow, hi_word_ram] at hhigh
    rw [Ram.setWord, hlow, hhigh] at h
    rw [Ram.put_of_ne _ _ _ fun heq => Ram.next_ne c (Ram.zeroPage_inj.mp heq)]
    exact h _ _ _
  · rw [if_pos (by simpa using hborrow), wp_pure]
    rw [if_neg hborrow] at hhigh
    rw [setWord_same m c hhigh, hlow] at h
    exact h _ _ _

/-- A word is zero when both its bytes are. -/
theorem word_ne_zero (m : Ram) (c : Byte) :
    m.word c ≠ 0#16 ↔ m (zeroPage c) ≠ 0#8 ∨ m (zeroPage (c + 1#8)) ≠ 0#8 := by
  rw [← not_and_or, ne_eq, not_iff_not]
  constructor
  · intro h
    rw [← lo_word_ram m, ← hi_word_ram m, h]
    exact ⟨rfl, rfl⟩
  · rintro ⟨hlow, hhigh⟩
    rw [Ram.word, hlow, hhigh]
    rfl

/-- What a round of the loop does to memory. -/
def Ram.copied (m : Ram) : Ram :=
  let m := m.put (m.word dst) (m (m.word src))
  let m := m.setWord src (m.word src + 1#16)
  let m := m.setWord dst (m.word dst + 1#16)
  m.setWord cnt (m.word cnt - 1#16)

/-- A round copies a byte, and goes back unless the count is zero. -/
theorem wp_copy {Q : Unit × Bool → Cpu Ram → Prop}
    (h : ∀ a z n, Q ((), decide (m.copied.word cnt ≠ 0#16)) ⟨a, x, 0x00#8, z, n, st, m.copied⟩) :
    wp copy Q ⟨a, x, 0x00#8, z, n, st, m⟩ := by
  have hzero : (0x00#8).setWidth 16 = 0#16 := rfl
  have hfetch : ∀ a z n, (Mode.indY src).fetch ⟨a, x, 0x00#8, z, n, st, m⟩ =
      (m (m.word src), m) := by
    intro a z n
    show (m (m.word src + (0x00#8).setWidth 16), m) = _
    rw [hzero, BitVec.add_zero]
  have hlocate : ∀ a z n, (Mode.indY dst).locate ⟨a, x, 0x00#8, z, n, st, m⟩ =
      (m.word dst, m) := by
    intro a z n
    show (m.word dst + (0x00#8).setWidth 16, m) = _
    rw [hzero, BitVec.add_zero]
  simp only [copy, wp_bind, wp_lda, hfetch, wp_sta, hlocate]
  refine ⟨_, rfl, ?_⟩
  refine wp_incword fun z n => ?_
  refine wp_incword fun z n => ?_
  refine wp_decword fun a z n => ?_
  simp only [wp_lda, fetch_zp, wp_ifNe, wp_pure, wp_bind]
  show if (m.copied (zeroPage cnt) == 0#8) = false then _ else _
  by_cases hlow : m.copied (zeroPage cnt) = 0#8
  · rw [if_neg (by simp [hlow])]
    show if (m.copied (zeroPage (cnt + 1#8)) == 0#8) = false then _ else _
    by_cases hhigh : m.copied (zeroPage (cnt + 1#8)) = 0#8
    · have hnot : ¬m.copied.word cnt ≠ 0#16 := by
        rw [word_ne_zero]
        exact fun hor => hor.elim (absurd hlow) (absurd hhigh)
      rw [if_neg (by simp [hhigh])]
      rw [decide_eq_false hnot] at h
      exact h _ _ _
    · rw [if_pos (by simpa using hhigh)]
      rw [decide_eq_true ((word_ne_zero _ _).mpr (.inr hhigh))] at h
      exact h _ _ _
  · rw [if_pos (by simpa using hlow)]
    rw [decide_eq_true ((word_ne_zero _ _).mpr (.inl hlow))] at h
    exact h _ _ _

end Rules

/-! ## The loop -/

section Copied

variable {m : Ram}

theorem word_copied (h : 0x100 ≤ (m.word dst).toNat) :
    m.copied.word src = m.word src + 1#16 ∧ m.copied.word dst = m.word dst + 1#16 ∧
      m.copied.word cnt = m.word cnt - 1#16 := by
  have hsrc : ∀ (m : Ram) w, (m.setWord cnt w).word src = m.word src :=
    fun m w => m.word_setWord_of_ne w (by decide) (by decide) (by decide)
  have hdst : ∀ (m : Ram) w, (m.setWord cnt w).word dst = m.word dst :=
    fun m w => m.word_setWord_of_ne w (by decide) (by decide) (by decide)
  have hsrc₁ : ∀ (m : Ram) w, (m.setWord dst w).word src = m.word src :=
    fun m w => m.word_setWord_of_ne w (by decide) (by decide) (by decide)
  have hdst₁ : ∀ (m : Ram) w, (m.setWord src w).word dst = m.word dst :=
    fun m w => m.word_setWord_of_ne w (by decide) (by decide) (by decide)
  have hcnt : ∀ (m : Ram) w, (m.setWord src w).word cnt = m.word cnt :=
    fun m w => m.word_setWord_of_ne w (by decide) (by decide) (by decide)
  have hcnt₁ : ∀ (m : Ram) w, (m.setWord dst w).word cnt = m.word cnt :=
    fun m w => m.word_setWord_of_ne w (by decide) (by decide) (by decide)
  simp only [Ram.copied, hsrc, hdst, hsrc₁, hdst₁, hcnt, hcnt₁, Ram.word_setWord,
    Ram.word_put m _ _ h]
  exact ⟨trivial, trivial, trivial⟩

theorem copied_apply {a : Addr} (h : 0x100 ≤ a.toNat) :
    m.copied a = if a = m.word dst then m (m.word src) else m a := by
  simp only [Ram.copied, Ram.setWord_above _ _ h]
  rfl

/-- The bytes that are copied are apart from the cells of the loader and from where they go. -/
structure Apart (code dest : Addr) (n : Nat) : Prop where
  above : 0x100 ≤ code.toNat
  before : code.toNat + n ≤ dest.toNat
  room : dest.toNat + n ≤ 0x10000

/-- Byte `j` from an address on. -/
def place (a : Addr) (j : Nat) : Addr := a + BitVec.ofNat 16 j

/-- After `i` rounds: the three counters, the bytes that are copied, and the rest as it was. -/
structure CopiedTo (m₀ : Ram) (code dest : Addr) (n i : Nat) (m : Ram) : Prop where
  src : m.word src = place code i
  dst : m.word dst = place dest i
  cnt : m.word cnt = BitVec.ofNat 16 (n - i)
  done : ∀ j < i, m (place dest j) = m₀ (place code j)
  rest : ∀ a : Addr, 0x100 ≤ a.toNat → (∀ j < n, a ≠ place dest j) → m a = m₀ a

variable {m₀ : Ram} {code dest : Addr} {n i : Nat}

theorem toNat_place {a : Addr} {j : Nat} (h : a.toNat + j < 0x10000) :
    (place a j).toNat = a.toNat + j := by
  rw [place, BitVec.toNat_add, BitVec.toNat_ofNat]
  omega

theorem place_succ (a : Addr) (j : Nat) : place a j + 1#16 = place a (j + 1) := by
  rw [place, place, BitVec.ofNat_add, BitVec.add_assoc]

theorem Apart.toNat_code (h : Apart code dest n) {j : Nat} (hj : j < n) :
    (place code j).toNat = code.toNat + j := by
  have hbefore := h.before
  have hroom := h.room
  exact toNat_place (by omega)

theorem Apart.toNat_dest (h : Apart code dest n) {j : Nat} (hj : j < n) :
    (place dest j).toNat = dest.toNat + j := by
  have hroom := h.room
  exact toNat_place (by omega)

/-- A round copies one byte more. -/
theorem CopiedTo.next (hapart : Apart code dest n) (hi : i < n)
    (h : CopiedTo m₀ code dest n i m) : CopiedTo m₀ code dest n (i + 1) m.copied := by
  have habove := hapart.above
  have hbefore := hapart.before
  have hhere := hapart.toNat_dest hi
  have hcells : 0x100 ≤ (m.word Loader.dst).toNat := by
    rw [h.dst, hhere]
    omega
  obtain ⟨hsrc, hdst, hcnt⟩ := word_copied hcells
  refine ⟨?_, ?_, ?_, ?_, ?_⟩
  · rw [hsrc, h.src, place_succ]
  · rw [hdst, h.dst, place_succ]
  · rw [hcnt, h.cnt]
    apply BitVec.eq_of_toNat_eq
    have hroom := hapart.room
    rw [BitVec.toNat_sub, BitVec.toNat_ofNat, BitVec.toNat_ofNat, BitVec.toNat_ofNat]
    omega
  · intro j hj
    have hto := hapart.toNat_dest (show j < n by omega)
    rw [copied_apply (by rw [hto]; omega), h.dst]
    by_cases hnow : place dest j = place dest i
    · -- the byte that is read has not been written
      have hji : j = i := by
        have := congrArg BitVec.toNat hnow
        omega
      have hfrom := hapart.toNat_code hi
      rw [if_pos hnow, h.src, hji]
      refine h.rest _ (by rw [hfrom]; omega) fun k hk heq => ?_
      have := congrArg BitVec.toNat heq
      rw [hfrom, hapart.toNat_dest hk] at this
      omega
    · have hji : j ≠ i := by
        rintro rfl
        exact hnow rfl
      rw [if_neg hnow]
      exact h.done j (by omega)
  · intro a ha haway
    rw [copied_apply ha, h.dst, if_neg (haway i hi)]
    exact h.rest a ha haway

/-- The loop ends when all the bytes are copied. -/
theorem wp_loop (hapart : Apart code dest n) {r : Nat} (hi : i < n) (hr : n - i ≤ r)
    (hm : CopiedTo m₀ code dest n i m) {a x : Byte} {z neg : Bool} {st : List Byte}
    {Q : List Unit → Cpu Ram → Prop}
    (h : ∀ copied a z neg m, copied.length = n - i → CopiedTo m₀ code dest n n m →
      Q copied ⟨a, x, 0x00#8, z, neg, st, m⟩) :
    wp (loop copy r) Q ⟨a, x, 0x00#8, z, neg, st, m⟩ := by
  induction r generalizing i m a z neg Q with
  | zero => omega
  | succ r ih =>
    have hnext := hm.next hapart hi
    simp only [loop, wp_bind]
    refine wp_copy fun a z neg => ?_
    have hroom := hapart.room
    have hbefore := hapart.before
    have habove := hapart.above
    have hagain : m.copied.word cnt ≠ 0#16 ↔ i + 1 < n := by
      rw [hnext.cnt, ne_eq, ← BitVec.toNat_inj, BitVec.toNat_ofNat, BitVec.toNat_ofNat]
      omega
    dsimp only
    by_cases hmore : i + 1 < n
    · rw [decide_eq_true (hagain.mpr hmore), if_pos rfl, wp_bind]
      refine ih hmore (Nat.sub_le_iff_le_add.mpr (by omega)) hnext
        fun copied a z neg m' hlength hm' => ?_
      rw [wp_pure]
      exact h _ a z neg m' (by rw [List.length_cons]; omega) hm'
    · have hlast : i + 1 = n := Nat.le_antisymm hi (Nat.not_lt.mp hmore)
      rw [decide_eq_false (mt hagain.mp hmore), if_neg (by decide), wp_pure]
      refine h _ a z neg _ (by rw [List.length_singleton]; omega) ?_
      rwa [hlast] at hnext

/-- The loader copies the bytes and jumps. -/
theorem wp_main (hapart : Apart code dest n) (hn : 0 < n) {rounds : Nat} (hrounds : n ≤ rounds)
    {a x y : Byte} {z neg : Bool} {st : List Byte} :
    wp (main (BitVec.ofNat 16 n) code dest rounds)
      (fun r t => r = (n, dest) ∧ ∀ j < n, t.bus (place dest j) = m (place code j))
      ⟨a, x, y, z, neg, st, m⟩ := by
  have hzp : ∀ (c a x y : Byte) (z neg : Bool) (m : Ram),
      (Mode.zp c).locate ⟨a, x, y, z, neg, st, m⟩ = (zeroPage c, m) :=
    fun _ _ _ _ _ _ _ => rfl
  have hwrite : ∀ (a : Addr) (v : Byte) (m m' : Ram),
      Bus.write a v m = some m' ↔ m' = m.put a v := by
    intro a v m m'
    show some (m.put a v) = some m' ↔ _
    rw [Option.some.injEq, eq_comm]
  simp only [main, wp_bind, wp_ldaImm, wp_sta, wp_ldyImm, hzp, hwrite, exists_eq_left]
  have hstart : CopiedTo m code dest n 0
      (((m.setWord cnt (BitVec.ofNat 16 n)).setWord src code).setWord Loader.dst dest) := by
    refine ⟨?_, ?_, ?_, fun j hj => absurd hj (Nat.not_lt_zero j), ?_⟩
    · rw [Ram.word_setWord_of_ne _ _ (by decide) (by decide) (by decide), Ram.word_setWord, place,
        BitVec.add_zero]
    · rw [Ram.word_setWord, place, BitVec.add_zero]
    · rw [Ram.word_setWord_of_ne _ _ (by decide) (by decide) (by decide),
        Ram.word_setWord_of_ne _ _ (by decide) (by decide) (by decide), Ram.word_setWord,
        Nat.sub_zero]
    · intro a ha _
      rw [Ram.setWord_above _ _ ha, Ram.setWord_above _ _ ha, Ram.setWord_above _ _ ha]
  refine wp_loop hapart hn (by omega) hstart fun copied a z neg m' hlength hm' => ?_
  rw [wp_pure, hlength, Nat.sub_zero]
  exact ⟨rfl, hm'.done⟩

end Copied

/-! ## The file -/

section File

open MakeServer (Emitted Fault xlinkServer)

theorem length_store {result after : List Byte} {i : BitVec 16} {v : Byte}
    (h : MakeServer.store result i v = .ok after) : after.length = result.length := by
  rw [MakeServer.store] at h
  by_cases hin : i.toNat < result.length
  · rw [if_pos hin] at h
    cases h
    exact List.length_set
  · rw [if_neg hin] at h
    cases h

theorem length_patchAll {address : Addr} {table : List MakeServer.Address}
    {result after : List Byte} (h : MakeServer.patchAll address table result = .ok after) :
    after.length = result.length := by
  induction table generalizing result with
  | nil =>
    cases h
    rfl
  | cons addr table ih =>
    rw [MakeServer.patchAll, MakeServer.patch] at h
    cases hlow : MakeServer.store result addr.lsb (lo (address + addr.delta)) with
    | error fault =>
      rw [hlow] at h
      cases h
    | ok first =>
      rw [hlow] at h
      replace h : (MakeServer.store first addr.msb (hi (address + addr.delta)) >>= fun result =>
        MakeServer.patchAll address table result) = .ok after := h
      cases hhigh : MakeServer.store first addr.msb (hi (address + addr.delta)) with
      | error fault =>
        rw [hhigh] at h
        cases h
      | ok second =>
        rw [hhigh] at h
        rw [ih h, length_store hhigh, length_store hlow]

/-- A relocated image has the size of the one it is made from. -/
theorem length_xlinkServer {e : Emitted} {address : Addr} {image : List Byte}
    (h : xlinkServer e address = .ok image) : image.length = e.code.length := by
  rw [xlinkServer] at h
  by_cases hfull : address.toNat + e.size > 0x10000
  · rw [if_pos hfull] at h
    cases h
  · rw [if_neg hfull] at h
    exact length_patchAll h

theorem main_size {base low high : List Byte} {e : Emitted}
    (h : MakeServer.main base low high = .ok e) : e.size = base.length ∧ e.code = base := by
  rw [MakeServer.main] at h
  by_cases hsizes : base.length ≠ low.length ∨ base.length ≠ high.length
  · rw [if_pos hsizes] at h
    cases h
  · rw [if_neg hsizes] at h
    cases htable : MakeServer.msbEntries 0 base high (MakeServer.lsbEntries 0 base low) with
    | error fault =>
      rw [htable] at h
      cases h
    | ok table =>
      rw [htable] at h
      cases h
      exact ⟨rfl, rfl⟩

/-- The sixteen bytes in front of the loader: the line with the `SYS`. -/
def line (mt : MachineType) : List Byte :=
  [0x0b, hi (basic mt), 0x0a, 0x00, 0x9e] ++
    (Nat.toDigits 10 (basic mt + 0x10#16).toNat).map (fun c => BitVec.ofNat 8 c.toNat) ++
    List.replicate 7 0x00

/-- The program is the line, the loader and the image, each behind the other. -/
theorem xlinkServerBasic_eq {mt : MachineType} {e : Emitted} {n : Nat} {image : List Byte}
    (hsize : e.size = n + 2) (himage : xlinkServer e (dest n) = .ok image) :
    xlinkServerBasic mt e (loaderFile mt n) = .ok ([lo (basic mt), hi (basic mt)] ++
      (line mt ++ mainBytes (BitVec.ofNat 16 n) (code mt) (dest n) ++ image.drop 2)) := by
  have haddress : 0x4000#16 - BitVec.ofNat 16 e.size + 2#16 = dest n := by
    rw [hsize, dest, BitVec.ofNat_add]
    rw [BitVec.sub_eq_add_neg, BitVec.neg_add, BitVec.add_assoc, BitVec.sub_add_cancel,
      ← BitVec.sub_eq_add_neg]
  rw [xlinkServerBasic, haddress, himage]
  cases mt with
  | c64 => rfl
  | c128 => rfl

theorem code_eq (mt : MachineType) (j : Nat) : place (code mt) j = place (basic mt) (79 + j) := by
  rw [place, place, BitVec.ofNat_add, ← BitVec.add_assoc]
  cases mt with
  | c64 => rfl
  | c128 => rfl

theorem drop_header (l h : Byte) (rest : List Byte) : ([l, h] ++ rest).drop 2 = rest := rfl

/-- A file is loaded behind its header. -/
def LoadedAt (m : Ram) (address : Addr) (bytes : List Byte) : Prop :=
  ∀ j (h : j < bytes.length), m (place address j) = bytes[j]

/-- The program that BASIC starts leaves the relocated server at the end of the first 16K, and jumps
to it. -/
theorem basic_server_copies (mt : MachineType) {n : Nat} (hn : 1 ≤ n)
    (hroom : (code mt).toNat + n ≤ 0x4000 - n) {base low high : List Byte} {e : Emitted}
    {image : List Byte} (hmain : MakeServer.main base low high = .ok e)
    (hsize : base.length = n + 2)
    (himage : xlinkServer e (0x4000#16 - BitVec.ofNat 16 n) = .ok image) :
    ∃ file, xlinkServerBasic mt e (loaderFile mt n) = .ok file ∧
      ∀ m, LoadedAt m (basic mt) (file.drop 2) → ∀ a x y z neg st rounds, n ≤ rounds →
        wp (main (BitVec.ofNat 16 n) (code mt) (dest n) rounds)
          (fun r t => r = (n, 0x4000#16 - BitVec.ofNat 16 n) ∧
            (List.range n).map (fun j => t.bus (place (dest n) j)) = image.drop 2)
          ⟨a, x, y, z, neg, st, m⟩ := by
  obtain ⟨hesize, hecode⟩ := main_size hmain
  have hlength : (image.drop 2).length = n := by
    rw [List.length_drop, length_xlinkServer himage, hecode, hsize]
    omega
  have habove : 0x100 ≤ (code mt).toNat := by
    cases mt <;> decide
  have hdest : (dest n).toNat = 0x4000 - n := by
    rw [dest, BitVec.toNat_sub, BitVec.toNat_ofNat, BitVec.toNat_ofNat]
    omega
  have hapart : Apart (code mt) (dest n) n := ⟨habove, by omega, by omega⟩
  refine ⟨_, xlinkServerBasic_eq (hesize.trans hsize) himage, ?_⟩
  intro m hloaded a x y z neg st rounds hrounds
  rw [drop_header] at hloaded
  refine wp_mono (wp_main hapart hn hrounds) fun r t ht => ⟨ht.1, ?_⟩
  apply List.ext_getElem
  · rw [List.length_map, List.length_range, hlength]
  · intro j hj hj'
    rw [hlength] at hj'
    have hfront : (line mt ++ mainBytes (BitVec.ofNat 16 n) (code mt) (dest n)).length = 79 := by
      cases mt <;> rfl
    have hin : 79 + j < (line mt ++ mainBytes (BitVec.ofNat 16 n) (code mt) (dest n) ++
        image.drop 2).length := by
      rw [List.length_append, hfront, hlength]
      exact Nat.add_lt_add_left hj' 79
    have hback : (line mt ++ mainBytes (BitVec.ofNat 16 n) (code mt) (dest n)).length ≤ 79 + j := by
      rw [hfront]
      exact Nat.le_add_right 79 j
    rw [List.getElem_map, List.getElem_range, ht.2 j hj', code_eq, hloaded (79 + j) hin,
      List.getElem_append_right hback]
    simp only [hfront, Nat.add_sub_cancel_left]

/-- An image of a server of 258 bytes: its size takes two bytes, and so do the pages it crosses. -/
def pages (low high : Byte) : List Byte := low :: high :: List.replicate 258 0x60

theorem length_pages (low high : Byte) : (pages low high).length = 258 + 2 := by
  rw [pages, List.length_cons, List.length_cons, List.length_replicate]

theorem basic_server_copies_pages :
    ∃ file, xlinkServerBasic .c64 ⟨260, pages 1 1, [⟨0, 0, 1⟩]⟩ (loaderFile .c64 258) = .ok file ∧
      ∀ m, LoadedAt m (basic .c64) (file.drop 2) → ∀ a x y z neg st rounds, 258 ≤ rounds →
        wp (main (BitVec.ofNat 16 258) (code .c64) (dest 258) rounds)
          (fun r t => r = (258, 0x4000#16 - BitVec.ofNat 16 258) ∧
            (List.range 258).map (fun j => t.bus (place (dest 258) j)) =
              (pages 0xfe 0x3e).drop 2) ⟨a, x, y, z, neg, st, m⟩ := by
  have hmain : MakeServer.main (pages 1 1) (pages 2 1) (pages 1 2) =
      .ok ⟨260, pages 1 1, [⟨0, 0, 1⟩]⟩ := by decide +kernel
  have himage : xlinkServer ⟨260, pages 1 1, [⟨0, 0, 1⟩]⟩ (0x4000#16 - BitVec.ofNat 16 258) =
      .ok (pages 0xfe 0x3e) := by decide +kernel
  exact basic_server_copies .c64 (by decide) (by decide) hmain (length_pages 1 1) himage

end File

end Xlink.Loader
