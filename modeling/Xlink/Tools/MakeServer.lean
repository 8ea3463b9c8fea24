import Xlink.Lib.Word

/-!
# The relocatable server (`tools/make-server.c`)

`make-server` is given one server program assembled at three origins, `$0101`, `$0102` and `$0201`,
and emits the C function `xlink_server_<name>(address)`, which patches the first image for another
address. The patch table is recovered by comparing the images byte by byte: where the first two
differ there is the low byte of a reference, where the first and the third differ there is a high
byte, and the n-th of one belongs to the n-th of the other.

The assembler is modelled by `Program`: fixed bytes, and references to an offset from the origin
that put one low and one high byte into the image. `image_eq_iff` says for which programs the
emitted function rebuilds the assembler's own image: those where no reference carries from `$0101`
to `$0102`, and where no low byte of the first image is zero.
-/

namespace Xlink.MakeServer

open Word

/-! ## The assembler -/

/-- A piece of a server program: a fixed byte, or a reference to the origin plus `offset`. A
reference puts its two bytes around the bytes `between`, the low byte first (`lda #<l ldx #>l`,
`jmp l`, `.word l`) or the high byte first (`lda #>l pha lda #<l`). -/
inductive Part where
  | byte (b : Byte)
  | ref (offset : Addr) (between : List Byte) (lowFirst : Bool)
deriving DecidableEq, Repr

/-- A server program without its two header bytes. -/
abbrev Program := List Part

/-- The bytes of one piece in the image assembled at `origin`. -/
def Part.assemble (origin : Addr) : Part → List Byte
  | .byte b => [b]
  | .ref o between true => lo (origin + o) :: (between ++ [hi (origin + o)])
  | .ref o between false => hi (origin + o) :: (between ++ [lo (origin + o)])

/-- The bytes of a program assembled at `origin`. -/
def assemble (origin : Addr) (p : Program) : List Byte :=
  p.flatMap (Part.assemble origin)

/-- The two header bytes of a PRG file: the load address, low byte first. -/
def header : Part := .ref 0 [] true

/-- The PRG file the assembler writes for a program at `origin`. -/
def image (origin : Addr) (p : Program) : List Byte :=
  assemble origin (header :: p)

/-- The number of bytes of a piece. -/
def Part.size : Part → Nat
  | .byte _ => 1
  | .ref _ between _ => between.length + 2

/-- The number of bytes of the PRG file, header included. -/
def size (p : Program) : Nat :=
  ((header :: p).map Part.size).sum

/-! ## The generator -/

/-- What can go wrong: images of different sizes, an access outside a buffer, or the emitted
function's own refusal. -/
inductive Fault where
  | unequalSizes
  | outOfBounds
  | outOfMemory
deriving DecidableEq, Repr

/-- `struct address`: one entry of the relocation table. -/
structure Address where
  delta : BitVec 16
  lsb : BitVec 16
  msb : BitVec 16
deriving DecidableEq, Repr

/-- The first loop of `main`: an entry for every index where `base` and `low` differ. The delta
starts as the low byte of the first image less one, `msb` as minus one. -/
def lsbEntries : Nat → List Byte → List Byte → List Address
  | i, b :: base, l :: low =>
    if b ≠ l then
      { delta := b.setWidth 16 - 1#16, lsb := BitVec.ofNat 16 i, msb := -1#16 } ::
        lsbEntries (i + 1) base low
    else lsbEntries (i + 1) base low
  | _, _, _ => []

/-- The second loop of `main`: the indices where `base` and `high` differ complete the entries in
the order of the table. Running past the table reads outside it. -/
def msbEntries : Nat → List Byte → List Byte → List Address → Except Fault (List Address)
  | i, b :: base, h :: high, table =>
    if b ≠ h then
      match table with
      | [] => .error .outOfBounds
      | addr :: rest => do
        let rest ← msbEntries (i + 1) base high rest
        .ok ({ addr with
          delta := (b.setWidth 16 - 1#16) <<< 8 ||| addr.delta
          msb := BitVec.ofNat 16 i } :: rest)
    else msbEntries (i + 1) base high table
  | _, _, _, table => .ok table

/-- The numbers `main` prints into the emitted function. -/
structure Emitted where
  size : Nat
  code : List Byte
  table : List Address
deriving DecidableEq, Repr

/-- `main` of `make-server`, from the contents of the three image files. -/
def main (base low high : List Byte) : Except Fault Emitted :=
  if base.length ≠ low.length ∨ base.length ≠ high.length then .error .unequalSizes
  else do
    let table ← msbEntries 0 base high (lsbEntries 0 base low)
    .ok { size := base.length, code := base, table := table }

/-! ## The emitted function -/

/-- `result[i] = v` on a heap buffer: writing outside it is undefined. -/
def store (result : List Byte) (i : BitVec 16) (v : Byte) : Except Fault (List Byte) :=
  if i.toNat < result.length then .ok (result.set i.toNat v) else .error .outOfBounds

/-- The three statements emitted for one table entry. -/
def patch (address : Addr) (addr : Address) (result : List Byte) : Except Fault (List Byte) := do
  let dest := address + addr.delta
  let result ← store result addr.lsb (lo dest)
  store result addr.msb (hi dest)

/-- The statements emitted for the whole table, in order. -/
def patchAll (address : Addr) : List Address → List Byte → Except Fault (List Byte)
  | [], result => .ok result
  | addr :: table, result => do
    let result ← patch address addr result
    patchAll address table result

/-- The emitted `xlink_server_<name>(address)`; `outOfMemory` is its `NULL`. -/
def xlinkServer (e : Emitted) (address : Addr) : Except Fault (List Byte) :=
  if address.toNat + e.size > 0x10000 then .error .outOfMemory
  else patchAll address e.table e.code

/-- The Makefile's rule for `server64.c` and `server128.c` followed by a call of the emitted
function: assemble at `$0101`, `$0102` and `$0201`, generate, relocate. -/
def generated (p : Program) (address : Addr) : Except Fault (List Byte) := do
  let e ← main (image 0x0101#16 p) (image 0x0102#16 p) (image 0x0201#16 p)
  xlinkServer e address

/-! ## What the comparison recovers -/

/-- The delta the generator writes for a reference to `o`: both bytes of the reference in the first
image, each less one. -/
def recovered (o : Addr) : Addr :=
  ((hi (0x0101#16 + o)).setWidth 16 - 1#16) <<< 8 ||| ((lo (0x0101#16 + o)).setWidth 16 - 1#16)

/-- The piece with the delta the generator recovers in place of its offset. -/
def Part.recover : Part → Part
  | .byte b => .byte b
  | .ref o between lowFirst => .ref (recovered o) between lowFirst

/-- A reference carries when its high byte differs between the images at `$0101` and `$0102`. -/
def Part.carries : Part → Prop
  | .byte _ => False
  | .ref o _ _ => lo o = 0xfe#8

theorem lo_base_ne_low (o : Addr) : lo (0x0101#16 + o) ≠ lo (0x0102#16 + o) := by
  intro h
  have := congrArg BitVec.toNat h
  simp only [toNat_lo, BitVec.toNat_add, BitVec.toNat_ofNat] at this
  omega

theorem hi_base_eq_low_iff (o : Addr) : hi (0x0101#16 + o) = hi (0x0102#16 + o) ↔ lo o ≠ 0xfe#8 := by
  have := o.isLt
  simp only [ne_eq, ← BitVec.toNat_inj, toNat_hi, toNat_lo, BitVec.toNat_add, BitVec.toNat_ofNat]
  omega

theorem lo_base_eq_high (o : Addr) : lo (0x0101#16 + o) = lo (0x0201#16 + o) := by
  apply BitVec.eq_of_toNat_eq
  simp only [toNat_lo, BitVec.toNat_add, BitVec.toNat_ofNat]
  omega

theorem hi_base_ne_high (o : Addr) : hi (0x0101#16 + o) ≠ hi (0x0201#16 + o) := by
  intro h
  have := congrArg BitVec.toNat h
  simp only [toNat_hi, BitVec.toNat_add, BitVec.toNat_ofNat] at this
  omega

/-- The recovered delta is the offset unless the low byte of the first image is zero, and then it is
minus one. -/
theorem recovered_eq (o : Addr) : recovered o = if lo o = 0xff#8 then 0xffff#16 else o := by
  have ho := o.isLt
  have hl := toNat_lo o
  have hlo : (lo (0x0101#16 + o)).toNat = (o.toNat + 1) % 256 := by
    simp only [toNat_lo, BitVec.toNat_add, BitVec.toNat_ofNat]
    omega
  split
  next h =>
    -- the low byte of the first image is zero, and minus one absorbs the high byte
    have hzero : lo (0x0101#16 + o) = 0#8 := by
      apply BitVec.eq_of_toNat_eq
      simp only [hlo, h, BitVec.toNat_ofNat] at hl ⊢
      omega
    have hones : ((0#8).setWidth 16 - 1#16 : Addr) = BitVec.allOnes 16 := by decide
    rw [recovered, hzero, hones, BitVec.or_allOnes]
    rfl
  next h =>
    have hne : (lo o).toNat ≠ 255 := fun e => h (BitVec.eq_of_toNat_eq e)
    have hy : ((lo (0x0101#16 + o)).setWidth 16 - 1#16).toNat = o.toNat % 256 := by
      simp only [BitVec.toNat_sub, BitVec.toNat_setWidth, hlo, BitVec.toNat_ofNat]
      omega
    have hx : ((hi (0x0101#16 + o)).setWidth 16 - 1#16).toNat % 256 = o.toNat / 256 := by
      simp only [BitVec.toNat_sub, BitVec.toNat_setWidth, toNat_hi, BitVec.toNat_add,
        BitVec.toNat_ofNat]
      omega
    apply BitVec.eq_of_toNat_eq
    have hshift : ∀ n : Nat, n <<< 8 % 2 ^ 16 = (n % 256) <<< 8 := by
      intro n
      simp only [Nat.shiftLeft_eq]
      omega
    rw [recovered, BitVec.toNat_or, BitVec.toNat_shiftLeft, hshift, hx, hy,
      ← Nat.shiftLeft_add_eq_or_of_lt (Nat.mod_lt _ (by decide)), Nat.shiftLeft_eq]
    omega

/-! ## The two comparison loops

Equal stretches leave the table alone. A reference contributes its low byte to the first loop, its
high byte to the second, and its high byte to the first as well exactly when it carries. -/

theorem lsbEntries_eq (i : Nat) (b : Byte) (base low : List Byte) :
    lsbEntries i (b :: base) (b :: low) = lsbEntries (i + 1) base low := by
  simp only [lsbEntries, ne_eq, not_true_eq_false, ↓reduceIte]

theorem lsbEntries_ne (i : Nat) {b l : Byte} (h : b ≠ l) (base low : List Byte) :
    lsbEntries i (b :: base) (l :: low) =
      { delta := b.setWidth 16 - 1#16, lsb := BitVec.ofNat 16 i, msb := -1#16 } ::
        lsbEntries (i + 1) base low := by
  simp only [lsbEntries, ne_eq, h, not_false_eq_true, ↓reduceIte]

theorem msbEntries_eq (i : Nat) (b : Byte) (base high : List Byte) (table : List Address) :
    msbEntries i (b :: base) (b :: high) table = msbEntries (i + 1) base high table := by
  simp only [msbEntries, ne_eq, not_true_eq_false, ↓reduceIte]

theorem msbEntries_ne (i : Nat) {b h : Byte} (hne : b ≠ h) (base high : List Byte)
    (addr : Address) (table : List Address) :
    msbEntries i (b :: base) (h :: high) (addr :: table) = (do
      let rest ← msbEntries (i + 1) base high table
      .ok ({ addr with
        delta := (b.setWidth 16 - 1#16) <<< 8 ||| addr.delta
        msb := BitVec.ofNat 16 i } :: rest)) := by
  simp only [msbEntries, ne_eq, hne, not_false_eq_true, ↓reduceIte]

theorem lsbEntries_same (xs : List Byte) (i : Nat) (base low : List Byte) :
    lsbEntries i (xs ++ base) (xs ++ low) = lsbEntries (i + xs.length) base low := by
  induction xs generalizing i with
  | nil => rfl
  | cons x xs ih =>
    rw [List.cons_append, List.cons_append, lsbEntries_eq, ih, List.length_cons,
      Nat.add_right_comm, Nat.add_assoc]

theorem msbEntries_same (xs : List Byte) (i : Nat) (base high : List Byte) (table : List Address) :
    msbEntries i (xs ++ base) (xs ++ high) table = msbEntries (i + xs.length) base high table := by
  induction xs generalizing i with
  | nil => rfl
  | cons x xs ih =>
    rw [List.cons_append, List.cons_append, msbEntries_eq, ih, List.length_cons,
      Nat.add_right_comm, Nat.add_assoc]

/-- The index of the low byte of a reference that starts at index `i`. -/
def lsbIndex (i gap : Nat) (lowFirst : Bool) : Nat := if lowFirst then i else i + gap + 1

/-- The index of the high byte of a reference that starts at index `i`. -/
def msbIndex (i gap : Nat) (lowFirst : Bool) : Nat := if lowFirst then i + gap + 1 else i

/-- The entry the first loop makes for the low byte of a reference that starts at index `i`. -/
def lsbEntry (i : Nat) (o : Addr) (gap : Nat) (lowFirst : Bool) : Address :=
  { delta := (lo (0x0101#16 + o)).setWidth 16 - 1#16
    lsb := BitVec.ofNat 16 (lsbIndex i gap lowFirst)
    msb := -1#16 }

/-- What the second loop writes into an entry at the high byte of such a reference. -/
def complete (i : Nat) (o : Addr) (gap : Nat) (lowFirst : Bool) (addr : Address) : Address :=
  { addr with
    delta := ((hi (0x0101#16 + o)).setWidth 16 - 1#16) <<< 8 ||| addr.delta
    msb := BitVec.ofNat 16 (msbIndex i gap lowFirst) }

/-- A reference that does not carry makes one entry in the first loop. -/
theorem lsbEntries_ref {o : Addr} (ho : lo o ≠ 0xfe#8) (i : Nat) (between : List Byte)
    (lowFirst : Bool) (base low : List Byte) :
    lsbEntries i ((Part.ref o between lowFirst).assemble 0x0101#16 ++ base)
        ((Part.ref o between lowFirst).assemble 0x0102#16 ++ low) =
      lsbEntry i o between.length lowFirst ::
        lsbEntries (i + between.length + 2) base low := by
  have hcarry : hi (0x0102#16 + o) = hi (0x0101#16 + o) := ((hi_base_eq_low_iff o).mpr ho).symm
  cases lowFirst with
  | true =>
    simp only [Part.assemble, List.cons_append, List.append_assoc, List.nil_append, hcarry]
    rw [lsbEntries_ne i (lo_base_ne_low o), lsbEntries_same, lsbEntries_eq]
    simp only [lsbEntry, lsbIndex, ↓reduceIte, Nat.add_right_comm i 1, Nat.add_assoc]
  | false =>
    simp only [Part.assemble, List.cons_append, List.append_assoc, List.nil_append, hcarry]
    rw [lsbEntries_eq, lsbEntries_same, lsbEntries_ne _ (lo_base_ne_low o)]
    simp only [lsbEntry, lsbIndex, Bool.false_eq_true, ↓reduceIte, Nat.add_right_comm i 1,
      Nat.add_assoc]

/-- A reference completes one entry in the second loop. -/
theorem msbEntries_ref (o : Addr) (i : Nat) (between : List Byte) (lowFirst : Bool)
    (base high : List Byte) (addr : Address) (table : List Address) :
    msbEntries i ((Part.ref o between lowFirst).assemble 0x0101#16 ++ base)
        ((Part.ref o between lowFirst).assemble 0x0201#16 ++ high) (addr :: table) = (do
      let rest ← msbEntries (i + between.length + 2) base high table
      .ok (complete i o between.length lowFirst addr :: rest)) := by
  cases lowFirst with
  | true =>
    simp only [Part.assemble, List.cons_append, List.append_assoc, List.nil_append,
      ← lo_base_eq_high]
    rw [msbEntries_eq, msbEntries_same, msbEntries_ne _ (hi_base_ne_high o)]
    simp only [complete, msbIndex, ↓reduceIte, Nat.add_right_comm i 1, Nat.add_assoc]
  | false =>
    simp only [Part.assemble, List.cons_append, List.append_assoc, List.nil_append,
      ← lo_base_eq_high]
    rw [msbEntries_ne i (hi_base_ne_high o), msbEntries_same, msbEntries_eq]
    simp only [complete, msbIndex, Bool.false_eq_true, ↓reduceIte, Nat.add_right_comm i 1,
      Nat.add_assoc]

@[simp] theorem assemble_nil (origin : Addr) : assemble origin [] = [] := rfl

@[simp] theorem assemble_cons (origin : Addr) (part : Part) (p : Program) :
    assemble origin (part :: p) = part.assemble origin ++ assemble origin p := rfl

theorem Part.length_assemble (origin : Addr) (part : Part) :
    (part.assemble origin).length = part.size := by
  cases part with
  | byte b => rfl
  | ref o between lowFirst => cases lowFirst <;> simp [Part.assemble, Part.size]

theorem length_assemble (origin : Addr) (p : Program) :
    (assemble origin p).length = (p.map Part.size).sum := by
  induction p with
  | nil => rfl
  | cons part p ih =>
    rw [assemble_cons, List.length_append, ih, Part.length_assemble, List.map_cons, List.sum_cons]

theorem length_image (origin : Addr) (p : Program) : (image origin p).length = size p :=
  length_assemble origin (header :: p)

/-! ## Programs without a carry -/

/-- The finished table of a program whose first piece starts at index `i`. -/
def entries : Nat → Program → List Address
  | _, [] => []
  | i, .byte _ :: p => entries (i + 1) p
  | i, .ref o between lowFirst :: p =>
    complete i o between.length lowFirst (lsbEntry i o between.length lowFirst) ::
      entries (i + between.length + 2) p

/-- Without a carry the two loops build exactly one entry for every reference. -/
theorem table_eq_entries (i : Nat) (p : Program) (hp : ∀ part ∈ p, ¬ part.carries) :
    msbEntries i (assemble 0x0101#16 p) (assemble 0x0201#16 p)
      (lsbEntries i (assemble 0x0101#16 p) (assemble 0x0102#16 p)) = .ok (entries i p) := by
  induction p generalizing i with
  | nil => rfl
  | cons part p ih =>
    have hrest := fun i => ih i (fun q hq => hp q (List.mem_cons_of_mem _ hq))
    cases part with
    | byte b =>
      simp only [assemble_cons, Part.assemble, List.cons_append, List.nil_append]
      rw [lsbEntries_eq, msbEntries_eq, hrest]
      rfl
    | ref o between lowFirst =>
      have ho : lo o ≠ 0xfe#8 := hp _ List.mem_cons_self
      rw [assemble_cons, assemble_cons, assemble_cons, lsbEntries_ref ho, msbEntries_ref, hrest]
      rfl

theorem store_append (pre post : List Byte) (x v : Byte) {i : Nat} (hi : i = pre.length)
    (hlt : i < 0x10000) :
    store (pre ++ x :: post) (BitVec.ofNat 16 i) v = .ok (pre ++ v :: post) := by
  have hn : (BitVec.ofNat 16 i).toNat = i := by
    rw [BitVec.toNat_ofNat]
    exact Nat.mod_eq_of_lt hlt
  subst hi
  rw [store, hn, if_pos (by simp), List.set_append_right _ _ (Nat.le_refl _), Nat.sub_self,
    List.set_cons_zero]

/-- One entry turns a reference in place into the reference at the new address. -/
theorem patch_ref (address : Addr) (pre post : List Byte) (o : Addr) (between : List Byte)
    (lowFirst : Bool) (hlen : pre.length + between.length + 2 ≤ 0x10000) :
    patch address (complete pre.length o between.length lowFirst
        (lsbEntry pre.length o between.length lowFirst))
        (pre ++ ((Part.ref o between lowFirst).assemble 0x0101#16 ++ post)) =
      .ok (pre ++ ((Part.ref (recovered o) between lowFirst).assemble address ++ post)) := by
  cases lowFirst with
  | true =>
    have first := store_append pre (between ++ hi (0x0101#16 + o) :: post) (lo (0x0101#16 + o))
      (lo (address + recovered o)) rfl (by omega)
    have second := store_append (pre ++ lo (address + recovered o) :: between) post
      (hi (0x0101#16 + o)) (hi (address + recovered o))
      (i := pre.length + between.length + 1) (by simp; omega) (by omega)
    simp only [List.append_assoc, List.cons_append] at second
    simp only [patch, complete, lsbEntry, lsbIndex, msbIndex, ↓reduceIte, Part.assemble,
      List.cons_append, List.append_assoc, List.nil_append, ← recovered.eq_1]
    rw [first]
    exact second
  | false =>
    have first := store_append (pre ++ hi (0x0101#16 + o) :: between) post
      (lo (0x0101#16 + o)) (lo (address + recovered o))
      (i := pre.length + between.length + 1) (by simp; omega) (by omega)
    have second := store_append pre (between ++ lo (address + recovered o) :: post)
      (hi (0x0101#16 + o)) (hi (address + recovered o)) rfl (by omega)
    simp only [List.append_assoc, List.cons_append] at first
    simp only [patch, complete, lsbEntry, lsbIndex, msbIndex, Bool.false_eq_true, ↓reduceIte,
      Part.assemble, List.cons_append, List.append_assoc, List.nil_append, ← recovered.eq_1]
    rw [first]
    exact second

/-- The finished table turns the first image into the image of the recovered program. -/
theorem patchAll_entries (address : Addr) (p : Program) (pre : List Byte)
    (hlen : pre.length + (p.map Part.size).sum ≤ 0x10000) :
    patchAll address (entries pre.length p) (pre ++ assemble 0x0101#16 p) =
      .ok (pre ++ assemble address (p.map Part.recover)) := by
  induction p generalizing pre with
  | nil => rfl
  | cons part p ih =>
    simp only [List.map_cons, List.sum_cons] at hlen
    cases part with
    | byte b =>
      have := ih (pre ++ [b]) (by simp only [Part.size] at hlen; simp; omega)
      simpa [entries, Part.assemble, Part.recover] using this
    | ref o between lowFirst =>
      have hseg := Part.length_assemble address (.ref (recovered o) between lowFirst)
      simp only [Part.size] at hlen hseg
      have hrest := ih (pre ++ (Part.ref (recovered o) between lowFirst).assemble address)
        (by simp only [List.length_append, hseg]; omega)
      simp only [List.length_append, hseg, List.append_assoc] at hrest
      simp only [entries, patchAll, assemble_cons, List.map_cons, Part.recover]
      rw [patch_ref address pre _ o between lowFirst (by omega)]
      exact hrest

theorem carries_header : ¬ header.carries := by
  simp only [header, Part.carries]
  decide

/-- The generator and the emitted function on the three images of one program. -/
theorem generated_eq (p : Program) (address : Addr) :
    generated p address = (do
      let table ← msbEntries 0 (image 0x0101#16 p) (image 0x0201#16 p)
        (lsbEntries 0 (image 0x0101#16 p) (image 0x0102#16 p))
      if address.toNat + size p > 0x10000 then .error .outOfMemory
      else patchAll address table (image 0x0101#16 p)) := by
  simp only [generated, main, length_image, ne_eq, not_true_eq_false, or_self, ↓reduceIte, bind,
    Except.bind]
  cases msbEntries 0 (image 0x0101#16 p) (image 0x0201#16 p)
    (lsbEntries 0 (image 0x0101#16 p) (image 0x0102#16 p)) <;> rfl

/-- **Without a carry the emitted function relocates to the recovered offsets.** -/
theorem generated_of_no_carry (p : Program) (hp : ∀ part ∈ p, ¬ part.carries) (address : Addr)
    (hfit : address.toNat + size p ≤ 0x10000) :
    generated p address = .ok (image address (p.map Part.recover)) := by
  have hall : ∀ part ∈ header :: p, ¬ part.carries := by
    intro part hpart
    rcases List.mem_cons.mp hpart with rfl | h
    · exact carries_header
    · exact hp part h
  have htable := table_eq_entries 0 (header :: p) hall
  have hpatch := patchAll_entries address (header :: p) []
    (by simp only [List.length_nil]; unfold size at hfit; omega)
  have hheader : header.recover = header := by decide
  rw [generated_eq, image, image, image, htable]
  simp only [bind, Except.bind]
  rw [if_neg (by omega)]
  simpa [image, hheader] using hpatch

/-! ## Programs with a carry

A carry makes the first loop find more low bytes than there are references. The surplus entries keep
`msb` minus one, and the emitted function stores outside its buffer. -/

/-- The number of references. -/
def references : Program → Nat
  | [] => 0
  | .byte _ :: p => references p
  | .ref _ _ _ :: p => references p + 1

theorem lsbEntries_msb (i : Nat) (base low : List Byte) :
    ∀ addr ∈ lsbEntries i base low, addr.msb = 0xffff#16 := by
  induction base generalizing i low with
  | nil => simp [lsbEntries]
  | cons b base ih =>
    cases low with
    | nil => simp [lsbEntries]
    | cons l low =>
      by_cases h : b = l
      · subst h
        rw [lsbEntries_eq]
        exact ih _ _
      · rw [lsbEntries_ne i h]
        intro addr haddr
        rcases List.mem_cons.mp haddr with rfl | haddr
        · rfl
        · exact ih _ _ addr haddr

/-- A reference that carries makes two entries in the first loop. -/
theorem lsbEntries_ref_carries {o : Addr} (ho : lo o = 0xfe#8) (i : Nat) (between : List Byte)
    (lowFirst : Bool) (base low : List Byte) :
    ∃ first second,
      lsbEntries i ((Part.ref o between lowFirst).assemble 0x0101#16 ++ base)
          ((Part.ref o between lowFirst).assemble 0x0102#16 ++ low) =
        first :: second :: lsbEntries (i + between.length + 2) base low := by
  have hcarry : hi (0x0101#16 + o) ≠ hi (0x0102#16 + o) :=
    fun h => (hi_base_eq_low_iff o).mp h ho
  have hindex : i + 1 + between.length + 1 = i + between.length + 2 := by omega
  cases lowFirst with
  | true =>
    refine ⟨?_, ?_, ?_⟩
    rotate_left 2
    simp only [Part.assemble, List.cons_append, List.append_assoc, List.nil_append]
    rw [lsbEntries_ne i (lo_base_ne_low o), lsbEntries_same, lsbEntries_ne _ hcarry, hindex]
  | false =>
    refine ⟨?_, ?_, ?_⟩
    rotate_left 2
    simp only [Part.assemble, List.cons_append, List.append_assoc, List.nil_append]
    rw [lsbEntries_ne i hcarry, lsbEntries_same, lsbEntries_ne _ (lo_base_ne_low o), hindex]

/-- The first loop makes at least one entry for every reference. -/
theorem references_le_length (i : Nat) (p : Program) :
    references p ≤ (lsbEntries i (assemble 0x0101#16 p) (assemble 0x0102#16 p)).length := by
  induction p generalizing i with
  | nil => exact Nat.zero_le _
  | cons part p ih =>
    cases part with
    | byte b =>
      simp only [assemble_cons, Part.assemble, List.cons_append, List.nil_append, references]
      rw [lsbEntries_eq]
      exact ih _
    | ref o between lowFirst =>
      have := ih (i + between.length + 2)
      simp only [assemble_cons, references]
      by_cases ho : lo o = 0xfe#8
      · obtain ⟨first, second, h⟩ := lsbEntries_ref_carries ho i between lowFirst
          (assemble 0x0101#16 p) (assemble 0x0102#16 p)
        simp only [h, List.length_cons]
        omega
      · simp only [lsbEntries_ref ho, List.length_cons]
        omega

/-- With a carry it makes more. -/
theorem references_lt_length (i : Nat) (p : Program) (hp : ∃ part ∈ p, part.carries) :
    references p < (lsbEntries i (assemble 0x0101#16 p) (assemble 0x0102#16 p)).length := by
  induction p generalizing i with
  | nil => simp at hp
  | cons part p ih =>
    cases part with
    | byte b =>
      simp only [assemble_cons, Part.assemble, List.cons_append, List.nil_append, references]
      rw [lsbEntries_eq]
      refine ih _ ?_
      simpa [Part.carries] using hp
    | ref o between lowFirst =>
      simp only [assemble_cons, references]
      by_cases ho : lo o = 0xfe#8
      · have := references_le_length (i + between.length + 2) p
        obtain ⟨first, second, h⟩ := lsbEntries_ref_carries ho i between lowFirst
          (assemble 0x0101#16 p) (assemble 0x0102#16 p)
        simp only [h, List.length_cons]
        omega
      · have := ih (i + between.length + 2) (by simpa [Part.carries, ho] using hp)
        simp only [lsbEntries_ref ho, List.length_cons]
        omega

/-- The second loop completes one entry for every reference and leaves the others as they are. -/
theorem msbEntries_drop (i : Nat) (p : Program) (table : List Address)
    (hlen : references p ≤ table.length) :
    ∃ done, msbEntries i (assemble 0x0101#16 p) (assemble 0x0201#16 p) table =
      .ok (done ++ table.drop (references p)) := by
  induction p generalizing i table with
  | nil => exact ⟨[], rfl⟩
  | cons part p ih =>
    cases part with
    | byte b =>
      simp only [assemble_cons, Part.assemble, List.cons_append, List.nil_append, references]
      rw [msbEntries_eq]
      exact ih _ _ hlen
    | ref o between lowFirst =>
      cases table with
      | nil => simp [references] at hlen
      | cons addr table =>
        obtain ⟨done, h⟩ := ih (i + between.length + 2) table (by simpa [references] using hlen)
        refine ⟨complete i o between.length lowFirst addr :: done, ?_⟩
        rw [assemble_cons, assemble_cons, msbEntries_ref, h]
        rfl

theorem store_ok {result result' : List Byte} {i : BitVec 16} {v : Byte}
    (h : store result i v = .ok result') :
    i.toNat < result.length ∧ result'.length = result.length := by
  unfold store at h
  split at h
  next hi =>
    cases h
    exact ⟨hi, List.length_set⟩
  next => cases h

/-- A patch that succeeds stored inside the buffer. -/
theorem patchAll_ok_msb {address : Addr} {table : List Address} {result result' : List Byte}
    (h : patchAll address table result = .ok result') :
    ∀ addr ∈ table, addr.msb.toNat < result.length := by
  induction table generalizing result with
  | nil => simp
  | cons addr table ih =>
    simp only [patchAll, patch, bind, Except.bind] at h
    cases hlsb : store result addr.lsb (lo (address + addr.delta)) with
    | error f => simp [hlsb] at h
    | ok first =>
      cases hmsb : store first addr.msb (hi (address + addr.delta)) with
      | error f => simp [hlsb, hmsb] at h
      | ok second =>
        simp only [hlsb, hmsb] at h
        obtain ⟨-, hfirst⟩ := store_ok hlsb
        obtain ⟨hlt, hsecond⟩ := store_ok hmsb
        intro a ha
        rcases List.mem_cons.mp ha with rfl | ha
        · omega
        · have := ih h a ha
          omega

/-- The table points into the image. -/
def Emitted.Inside (e : Emitted) : Prop :=
  ∀ addr ∈ e.table, addr.lsb.toNat < e.code.length ∧ addr.msb.toNat < e.code.length

theorem patchAll_inside {address : Addr} {table : List Address} {result : List Byte}
    (h : ∀ addr ∈ table, addr.lsb.toNat < result.length ∧ addr.msb.toNat < result.length) :
    ∃ image, patchAll address table result = .ok image := by
  induction table generalizing result with
  | nil => exact ⟨result, rfl⟩
  | cons addr table ih =>
    obtain ⟨hlsb, hmsb⟩ := h addr List.mem_cons_self
    have hrest : ∀ other ∈ table, other.lsb.toNat < result.length ∧
        other.msb.toNat < result.length :=
      fun other hother => h other (List.mem_cons_of_mem _ hother)
    have hfirst : store result addr.lsb (lo (address + addr.delta)) = .ok _ := if_pos hlsb
    have hsecond : store (result.set addr.lsb.toNat (lo (address + addr.delta))) addr.msb
        (hi (address + addr.delta)) = .ok _ := if_pos (by rwa [List.length_set])
    simp only [patchAll, patch, bind, Except.bind, hfirst, hsecond]
    apply ih
    simpa only [List.length_set] using hrest

/-- The emitted function of a table that points into the image fails only for want of room. -/
theorem Emitted.Inside.image_iff {e : Emitted} (h : e.Inside) (address : Addr) :
    (∃ image, xlinkServer e address = .ok image) ↔ address.toNat + e.size ≤ 0x10000 := by
  unfold xlinkServer
  split
  next hroom =>
    refine iff_of_false ?_ (Nat.not_le.2 hroom)
    rintro ⟨image, himage⟩
    cases himage
  next hroom => exact iff_of_true (patchAll_inside h) (Nat.not_lt.1 hroom)

/-- **With a carry the emitted function never returns an image** (of less than 64K). -/
theorem generated_ne_ok_of_carry (p : Program) (hp : ∃ part ∈ p, part.carries) (address : Addr)
    (hsize : size p < 0x10000) (result : List Byte) : generated p address ≠ .ok result := by
  intro h
  obtain ⟨part, hmem, hcarry⟩ := hp
  have hmore := references_lt_length 0 (header :: p)
    ⟨part, List.mem_cons_of_mem _ hmem, hcarry⟩
  have hmsb := lsbEntries_msb 0 (image 0x0101#16 p) (image 0x0102#16 p)
  generalize htable : lsbEntries 0 (image 0x0101#16 p) (image 0x0102#16 p) = table at hmsb
  rw [image, image] at htable
  rw [htable] at hmore
  obtain ⟨done, hdone⟩ := msbEntries_drop 0 (header :: p) table (Nat.le_of_lt hmore)
  rw [generated_eq, image, image, image, htable, hdone] at h
  simp only [bind, Except.bind] at h
  split at h
  · cases h
  · -- the first entry past the references still has `msb` minus one
    have hsurplus : table[references (header :: p)] ∈
        done ++ table.drop (references (header :: p)) := by
      refine List.mem_append_right _ ?_
      rw [List.drop_eq_getElem_cons hmore]
      exact List.mem_cons_self
    have hbound := patchAll_ok_msb h _ hsurplus
    rw [hmsb _ (List.getElem_mem hmore), ← image, length_image, BitVec.toNat_ofNat] at hbound
    omega

/-! ## When the generated server is the assembled one -/

/-- A reference the comparison recovers: it does not carry, and its low byte in the first image is
not zero unless the offset is minus one. -/
def Part.recoverable : Part → Prop
  | .byte _ => True
  | .ref o _ _ => lo o ≠ 0xfe#8 ∧ (lo o = 0xff#8 → o = 0xffff#16)

instance : DecidablePred Part.recoverable
  | .byte _ => .isTrue trivial
  | .ref o _ _ => inferInstanceAs (Decidable (lo o ≠ 0xfe#8 ∧ (lo o = 0xff#8 → o = 0xffff#16)))

/-- Every reference of the program is recovered. -/
def Recoverable (p : Program) : Prop := ∀ part ∈ p, part.recoverable

instance : DecidablePred Recoverable :=
  fun p => inferInstanceAs (Decidable (∀ part ∈ p, part.recoverable))

theorem Part.recoverable_iff (part : Part) :
    part.recoverable ↔ ¬ part.carries ∧ part.recover = part := by
  cases part with
  | byte b => simp [Part.recoverable, Part.carries, Part.recover]
  | ref o between lowFirst =>
    simp only [Part.recoverable, Part.carries, Part.recover, recovered_eq, Part.ref.injEq,
      and_true, ne_eq]
    by_cases h : lo o = 0xff#8
    · simp only [h, ↓reduceIte, true_implies, eq_comm]
    · simp only [h, ↓reduceIte, false_implies, and_true]

/-- Two pieces of one shape with the same bytes are one piece. -/
theorem Part.recover_eq_of_assemble {address : Addr} {part : Part}
    (h : part.recover.assemble address = part.assemble address) : part.recover = part := by
  cases part with
  | byte b => rfl
  | ref o between lowFirst =>
    have heq : address + recovered o = address + o := by
      cases lowFirst with
      | true =>
        simp only [Part.recover, Part.assemble, List.cons.injEq, List.append_cancel_left_eq,
          and_true] at h
        exact eq_of_lo_hi h.1 h.2
      | false =>
        simp only [Part.recover, Part.assemble, List.cons.injEq, List.append_cancel_left_eq,
          and_true] at h
        exact eq_of_lo_hi h.2 h.1
    rw [Part.recover, (BitVec.add_right_inj address).mp heq]

theorem Part.size_recover (part : Part) : part.recover.size = part.size := by
  cases part <;> rfl

theorem assemble_recover_iff (address : Addr) (p : Program) :
    assemble address (p.map Part.recover) = assemble address p ↔
      ∀ part ∈ p, part.recover = part := by
  induction p with
  | nil => simp
  | cons part p ih =>
    rw [List.map_cons, assemble_cons, assemble_cons, List.forall_mem_cons, ← ih]
    constructor
    · intro h
      obtain ⟨hpart, hrest⟩ :=
        List.append_inj h (by simp only [Part.length_assemble, Part.size_recover])
      exact ⟨Part.recover_eq_of_assemble hpart, hrest⟩
    · rintro ⟨hpart, hrest⟩
      rw [hpart, hrest]

/-- **The generated server is the assembled one exactly for recoverable programs.** The converse is
about images of less than 64K: a surplus entry stores at index 65535, which is inside an image of
exactly 64K. -/
theorem generated_eq_image (p : Program) (address : Addr)
    (hfit : address.toNat + size p ≤ 0x10000) :
    (Recoverable p → generated p address = .ok (image address p)) ∧
      (size p < 0x10000 → generated p address = .ok (image address p) → Recoverable p) := by
  constructor
  · intro hp
    have hparts := fun part hpart => (Part.recoverable_iff part).mp (hp part hpart)
    rw [generated_of_no_carry p (fun part hpart => (hparts part hpart).1) address hfit]
    have := (assemble_recover_iff address p).mpr (fun part hpart => (hparts part hpart).2)
    simp only [image, assemble_cons, this]
  · intro hsize h
    have hcarry : ∀ part ∈ p, ¬ part.carries := fun part hpart hc =>
      generated_ne_ok_of_carry p ⟨part, hpart, hc⟩ address hsize _ h
    rw [generated_of_no_carry p hcarry address hfit] at h
    simp only [image, assemble_cons, Except.ok.injEq, List.append_cancel_left_eq] at h
    exact fun part hpart => (Part.recoverable_iff part).mpr
      ⟨hcarry part hpart, (assemble_recover_iff address p).mp h part hpart⟩

/-- A jump to its own third byte and a return, at `$1000`. -/
theorem generated_eq_image_jump :
    generated [.byte 0x4c, .ref 0x0003 [] true, .byte 0x60] 0x1000 =
      .ok [0x00, 0x10, 0x4c, 0x03, 0x10, 0x60] :=
  (generated_eq_image [.byte 0x4c, .ref 0x0003 [] true, .byte 0x60] 0x1000 (by decide)).1
    (by decide)

/-- A jump over 252 bytes to the return at offset 255. -/
def farJump : Program :=
  .byte 0x4c :: .ref 0x00ff [] true :: (List.replicate 252 (.byte 0xea) ++ [.byte 0x60])

/-- The jump of `farJump` relocated to `$1000` goes to `$0fff` instead of `$10ff`. -/
theorem generated_farJump :
    ¬ ∀ (p : Program) (address : Addr), address.toNat + size p ≤ 0x10000 →
      generated p address = .ok (image address p) := by
  intro h
  have := h farJump 0x1000 (by decide +kernel)
  revert this
  decide +kernel

end Xlink.MakeServer
