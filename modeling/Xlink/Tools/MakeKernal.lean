import Mathlib.Data.List.Basic
import Xlink.Client.Range
import Xlink.Lib.Word

/-!
# The patched kernal (`tools/make-kernal.c`)

`make-kernal` is given an assembled kernal and a list of offsets and sizes, and emits the C function
`xlink_kernal_<name>(image)`, which stores these pieces of it into a kernal image. `command_kernal`
of `client.c` applies the function to the last 8192 bytes of a file. The result is an overlay: the
order of the pieces, and whether they overlap, does not matter.

`command_kernal` keeps the size of the file in an int. What is proved of it is exact in that size:
below 2^31 bytes the output is the overlay and patching it again changes nothing, and from there on
the file is refused or cut.
-/

namespace Xlink.MakeKernal

open Word (Byte)

/-! ## The generator -/

/-- `Patch`, with the `unsigned short` fields of the emitted structure. -/
structure Patch where
  offset : BitVec 16
  size : BitVec 16
  data : List Byte
  deriving DecidableEq, Repr

/-- `main`: the patch that is printed for an offset and a size. -/
def patch (code : List Byte) : Nat × Nat → Patch
  | (offset, size) =>
    { offset := BitVec.ofNat 16 offset
      size := BitVec.ofNat 16 size
      data := (List.range size).map fun j => code.getD (offset + j) 0 }

/-- The patches of the emitted function. -/
def patches (code : List Byte) (pairs : List (Nat × Nat)) : List Patch := pairs.map (patch code)

/-! ## The emitted function -/

/-- The inner loop, on an image that starts at `start`. -/
def store (start : Nat) (image : List Byte) (p : Patch) : List Byte :=
  (List.range p.size.toNat).foldl
    (fun image k => image.set (start + (p.offset.toNat + k)) (p.data.getD k 0)) image

/-- `xlink_kernal_<name>(image + start)`. -/
def xlinkKernal (patches : List Patch) (start : Nat) (image : List Byte) : List Byte :=
  patches.foldl (store start) image

/-- `command_kernal`: the output file for an input file. `size` and `offset` are ints, and where
`size` is negative `calloc` has no image to read the file into. -/
def commandKernal (patches : List Patch) (input : List Byte) : Option (List Byte) :=
  let size := Client.toInt input.length
  let offset := Client.toInt (size - 0x2000)
  if offset < 0 ∨ size < 0 then none
  else some (xlinkKernal patches offset.toNat (input.take size.toNat))

/-! ## Overlays -/

/-- Some pair covers a byte of the kernal. -/
def Covered (pairs : List (Nat × Nat)) (i : Nat) : Prop :=
  ∃ pair ∈ pairs, pair.1 ≤ i ∧ i < pair.1 + pair.2

instance (pairs : List (Nat × Nat)) (i : Nat) : Decidable (Covered pairs i) :=
  inferInstanceAs (Decidable (∃ pair ∈ pairs, _))

theorem covered_cons {pair : Nat × Nat} {pairs : List (Nat × Nat)} {i : Nat} :
    Covered (pair :: pairs) i ↔ (pair.1 ≤ i ∧ i < pair.1 + pair.2) ∨ Covered pairs i := by
  simp [Covered]

/-- The output has the code where a pair covers the kernal at its end, and the input elsewhere. -/
structure Overlay (code : List Byte) (pairs : List (Nat × Nat)) (start : Nat)
    (input output : List Byte) : Prop where
  length : output.length = input.length
  inside : ∀ i, Covered pairs i → output[start + i]? = code[i]?
  outside : ∀ i, (∀ j, i = start + j → ¬Covered pairs j) → output[i]? = input[i]?

namespace Overlay

variable {code input output : List Byte} {pairs : List (Nat × Nat)} {start : Nat}

/-- An overlay is what it says. -/
theorem eq {output' : List Byte} (h : Overlay code pairs start input output)
    (h' : Overlay code pairs start input output') : output = output' := by
  apply List.ext_getElem?
  intro i
  by_cases hcovered : ∃ j, i = start + j ∧ Covered pairs j
  · obtain ⟨j, rfl, hj⟩ := hcovered
    rw [h.inside j hj, h'.inside j hj]
  · have hnot : ∀ j, i = start + j → ¬Covered pairs j := fun j hij hj => hcovered ⟨j, hij, hj⟩
    rw [h.outside i hnot, h'.outside i hnot]

/-- Laid over its own output, nothing changes. -/
theorem again (h : Overlay code pairs start input output) :
    Overlay code pairs start output output :=
  ⟨rfl, h.inside, fun _ _ => rfl⟩

/-- One more pair in front is laid over first. -/
theorem cons {pair : Nat × Nat} {between : List Byte}
    (hfirst : Overlay code [pair] start input between)
    (hrest : Overlay code pairs start between output) :
    Overlay code (pair :: pairs) start input output := by
  refine ⟨hrest.length.trans hfirst.length, ?_, ?_⟩
  · intro i hi
    by_cases hcovered : Covered pairs i
    · exact hrest.inside i hcovered
    · have honly : ∀ j, start + i = start + j → ¬Covered pairs j := by
        intro j hij
        rwa [← Nat.add_left_cancel hij]
      rw [hrest.outside _ honly]
      have hpair := (covered_cons.mp hi).resolve_right hcovered
      exact hfirst.inside i (covered_cons.mpr (.inl hpair))
  · intro i hi
    rw [hrest.outside i fun j hij hj => hi j hij (covered_cons.mpr (.inr hj))]
    apply hfirst.outside i
    intro j hij hj
    apply hi j hij
    rcases covered_cons.mp hj with hj | ⟨_, hmem, _⟩
    · exact covered_cons.mpr (.inl hj)
    · cases hmem

end Overlay

/-! ## The loops -/

/-- A loop of assignments to consecutive elements. -/
theorem foldl_set_getElem? (value : Nat → Byte) (image : List Byte) (start n i : Nat)
    (hn : start + n ≤ image.length) :
    ((List.range n).foldl (fun image k => image.set (start + k) (value k)) image)[i]? =
      if start ≤ i ∧ i < start + n then some (value (i - start)) else image[i]? := by
  induction n with
  | zero => rw [if_neg (by omega), List.range_zero, List.foldl_nil]
  | succ n ih =>
    have hlength : ((List.range n).foldl (fun image k => image.set (start + k) (value k))
        image).length = image.length := by
      apply List.foldlRecOn (motive := fun result : List Byte => result.length = image.length)
      · rfl
      · intro result h k _
        rw [List.length_set, h]
    rw [List.range_succ, List.foldl_append, List.foldl_cons, List.foldl_nil, List.getElem?_set,
      ih (by omega)]
    by_cases hlast : start + n = i
    · have hat : i - start = n := by omega
      rw [if_pos hlast, if_pos (by omega), if_pos (by omega), hat]
    · rw [if_neg hlast]
      by_cases hbefore : start ≤ i ∧ i < start + n
      · rw [if_pos hbefore, if_pos (by omega)]
      · rw [if_neg hbefore, if_neg (by omega)]

theorem length_store (start : Nat) (image : List Byte) (p : Patch) :
    (store start image p).length = image.length := by
  apply List.foldlRecOn (motive := fun result : List Byte => result.length = image.length)
  · rfl
  · intro result h k _
    rw [List.length_set, h]

/-- The inner loop lays its pair over the image. -/
theorem store_overlay {code image : List Byte} {start offset size : Nat}
    (hcode : code.length = 0x2000) (hpair : offset + size ≤ 0x2000)
    (himage : start + 0x2000 ≤ image.length) :
    Overlay code [(offset, size)] start image (store start image (patch code (offset, size))) := by
  have hoffset : (BitVec.ofNat 16 offset).toNat = offset := by
    rw [BitVec.toNat_ofNat]
    omega
  have hsize : (BitVec.ofNat 16 size).toNat = size := by
    rw [BitVec.toNat_ofNat]
    omega
  have hloop : ∀ i, (store start image (patch code (offset, size)))[i]? =
      if start + offset ≤ i ∧ i < start + offset + size then
        some (((patch code (offset, size)).data).getD (i - (start + offset)) 0)
      else image[i]? := by
    intro i
    rw [← foldl_set_getElem? (fun k => (patch code (offset, size)).data.getD k 0) image _ _ i
      (by omega)]
    simp only [store, patch, hoffset, hsize, Nat.add_assoc]
  refine ⟨length_store _ _ _, ?_, ?_⟩
  · intro i hi
    rcases covered_cons.mp hi with ⟨hfrom, hto⟩ | ⟨_, hmem, _⟩
    · have hat : start + i - (start + offset) = i - offset := by omega
      have hdata : offset + (i - offset) = i := by omega
      rw [hloop, if_pos ⟨by omega, by omega⟩, hat]
      simp only [patch]
      rw [List.getD_eq_getElem?_getD, List.getElem?_map, List.getElem?_range (by omega),
        Option.map_some, Option.getD_some, hdata, List.getD_eq_getElem?_getD,
        List.getElem?_eq_getElem (by omega), Option.getD_some]
    · cases hmem
  · intro i hi
    rw [hloop, if_neg]
    rintro ⟨hfrom, hto⟩
    exact hi (i - start) (by omega) (covered_cons.mpr (.inl ⟨by omega, by omega⟩))

/-- The emitted function lays all its pairs over the image. -/
theorem xlinkKernal_overlay {code : List Byte} {pairs : List (Nat × Nat)} {start : Nat}
    (hcode : code.length = 0x2000) (hpairs : ∀ pair ∈ pairs, pair.1 + pair.2 ≤ 0x2000)
    (image : List Byte) (himage : start + 0x2000 ≤ image.length) :
    Overlay code pairs start image (xlinkKernal (patches code pairs) start image) := by
  induction pairs generalizing image with
  | nil =>
    refine ⟨rfl, ?_, fun _ _ => rfl⟩
    rintro i ⟨_, hmem, _⟩
    cases hmem
  | cons pair pairs ih =>
    have hfirst := store_overlay hcode (hpairs pair List.mem_cons_self) himage
    have hrest := ih (fun p hp => hpairs p (List.mem_cons_of_mem _ hp))
      (store start image (patch code pair)) (by rw [hfirst.length]; exact himage)
    exact hfirst.cons hrest

theorem length_xlinkKernal (patches : List Patch) (start : Nat) (image : List Byte) :
    (xlinkKernal patches start image).length = image.length := by
  apply List.foldlRecOn (motive := fun result : List Byte => result.length = image.length)
  · rfl
  · intro result h p _
    rw [length_store, h]

/-! ## The command -/

/-- A file whose size is an int is patched as a whole. -/
theorem commandKernal_of_small {input : List Byte} (patches : List Patch)
    (hlow : 0x2000 ≤ input.length) (hhigh : input.length < 2 ^ 31) :
    commandKernal patches input = some (xlinkKernal patches (input.length - 0x2000) input) := by
  have hsize : Client.toInt input.length = input.length :=
    Client.toInt_of_small (by omega) (by omega)
  have hoffset : Client.toInt ((input.length : Int) - 0x2000) = input.length - 0x2000 :=
    Client.toInt_of_small (by omega) (by omega)
  have hplace : ((input.length : Int) - 0x2000).toNat = input.length - 0x2000 := by omega
  rw [commandKernal, hsize, hoffset, if_neg (by omega), hplace, Int.toNat_natCast,
    List.take_length]

/-- An output has as many bytes as the size of the input says, read as an int. -/
theorem length_of_commandKernal {patches : List Patch} {input output : List Byte}
    (h : commandKernal patches input = some output) :
    (output.length : Int) ≤ Client.toInt input.length := by
  rw [commandKernal] at h
  split at h
  · cases h
  · next hfits =>
    cases h
    rw [length_xlinkKernal, List.length_take]
    omega

/-- Below 2^31 bytes, and only there, `command_kernal` lays the pairs over the last 8192 bytes of
its input, and a second time it changes nothing. -/
theorem commandKernal_overlay_iff {code input : List Byte} {pairs : List (Nat × Nat)}
    (hcode : code.length = 0x2000) (hpairs : ∀ pair ∈ pairs, pair.1 + pair.2 ≤ 0x2000)
    (hinput : 0x2000 ≤ input.length) :
    (∃ output, commandKernal (patches code pairs) input = some output ∧
      Overlay code pairs (input.length - 0x2000) input output ∧
      commandKernal (patches code pairs) output = some output) ↔ input.length < 2 ^ 31 := by
  constructor
  · rintro ⟨output, hrun, hoverlay, _⟩
    have hlength := length_of_commandKernal hrun
    have hbound := (Client.toInt_bounds input.length).2
    rw [hoverlay.length] at hlength
    omega
  · intro hsmall
    have houtput := xlinkKernal_overlay hcode hpairs input
      (show input.length - 0x2000 + 0x2000 ≤ input.length by omega)
    have hagain := xlinkKernal_overlay hcode hpairs
      (xlinkKernal (patches code pairs) (input.length - 0x2000) input)
      (show input.length - 0x2000 + 0x2000 ≤ _ by rw [houtput.length]; omega)
    refine ⟨_, commandKernal_of_small _ hinput hsmall, houtput, ?_⟩
    rw [commandKernal_of_small _ (by rw [houtput.length]; exact hinput)
      (by rw [houtput.length]; exact hsmall), houtput.length, hagain.eq houtput.again]

/-- Two pairs that overlap, and one byte in front of the kernal. -/
theorem commandKernal_overlay_two :
    ∃ output, commandKernal (patches (List.replicate 0x2000 1) [(4, 8), (2, 3)])
        (0 :: List.replicate 0x2000 0) = some output ∧
      Overlay (List.replicate 0x2000 1) [(4, 8), (2, 3)] ((0x2000 + 1) - 0x2000)
        (0 :: List.replicate 0x2000 0) output ∧
      commandKernal (patches (List.replicate 0x2000 1) [(4, 8), (2, 3)]) output = some output := by
  have hinput : ((0 : Byte) :: List.replicate 0x2000 0).length = 0x2000 + 1 := by
    rw [List.length_cons, List.length_replicate]
  have h := (@commandKernal_overlay_iff (List.replicate 0x2000 1) (0 :: List.replicate 0x2000 0)
    [(4, 8), (2, 3)] List.length_replicate (by decide) (by rw [hinput]; decide)).mpr
    (by rw [hinput]; decide)
  rwa [hinput] at h

/-- Of a file of 2^32 + 8192 bytes the size is 8192 as an int: the output has 8192 bytes, and is no
overlay of the file. -/
theorem commandKernal_cuts :
    (∃ output, commandKernal (patches (List.replicate 0x2000 1) [(4, 8), (2, 3)])
        (List.replicate (2 ^ 32 + 0x2000) 0) = some output ∧ output.length = 0x2000) ∧
      ¬∃ output, commandKernal (patches (List.replicate 0x2000 1) [(4, 8), (2, 3)])
          (List.replicate (2 ^ 32 + 0x2000) 0) = some output ∧
        Overlay (List.replicate 0x2000 1) [(4, 8), (2, 3)] 0x100000000
          (List.replicate (2 ^ 32 + 0x2000) 0) output ∧
        commandKernal (patches (List.replicate 0x2000 1) [(4, 8), (2, 3)]) output =
          some output := by
  have hsize : Client.toInt ((List.replicate (2 ^ 32 + 0x2000) (0 : Byte)).length : Nat) =
      0x2000 := by
    rw [List.length_replicate]
    decide
  have hoffset : Client.toInt (0x2000 - 0x2000) = 0 := by decide
  constructor
  · refine ⟨_, by rw [commandKernal, hsize, hoffset, if_neg (by decide)], ?_⟩
    rw [length_xlinkKernal, List.length_take, List.length_replicate]
    decide
  · rintro ⟨output, hrun, hoverlay, _⟩
    have hlength := length_of_commandKernal hrun
    rw [hoverlay.length, hsize, List.length_replicate] at hlength
    exact absurd hlength (by decide)

end Xlink.MakeKernal
