import Mathlib.Data.List.TakeWhile
import Xlink.Lib.Word

/-!
# The bootstrap listing (`tools/make-bootstrap.c`)

`make-bootstrap` prints a PRG file as a BASIC program with `DATA` lines: eight bytes a line, and
their sum. The sum and the line break are printed when the next line begins, and only if the sum is
not zero, so that a line of zeros runs into the next one. The BASIC program pokes what it reads,
which it cannot do above `$ffff`, and that is where the zeros end up that fill the last line.

`decodes_iff` is an equivalence for every address and content. The printed lines are read as BASIC
reads them, and the program that pokes them is the one of the listing; both are definitions of this
module, BASIC itself is not under the sources.
-/

namespace Xlink.MakeBootstrap

open Word (Byte)

/-! ## The printer -/

/-- `"%d"` of a number that is not negative. -/
def decimal (n : Nat) : List Char := Nat.toDigits 10 n

/-- `" data "`. -/
def keyword : List Char := " data ".toList

/-- A round of the loop in `main` and the ones after it, for `data[i]` and what is behind it. -/
def printFrom (size : Nat) : (i l checksum : Nat) → List Byte → List Char
  | _, _, _, [] => []
  | i, l, checksum, b :: data =>
    let begins := i % 8 = 0
    let close := if begins ∧ checksum ≠ 0 then decimal checksum ++ ['\n'] else []
    let head := if begins then decimal l ++ keyword else []
    let checksum := (if begins then 0 else checksum) + b.toNat
    let last := if i = size - 1 ∧ i % 8 ≠ 0 then decimal checksum ++ ['\n'] else []
    close ++ head ++ (decimal b.toNat ++ [',']) ++ last ++
      printFrom size (i + 1) (if begins then l + 1 else l) checksum data

/-- `size + (8 - (size % 8))`. -/
def paddedSize (size : Nat) : Nat := size + (8 - size % 8)

/-- `data`: the file behind its address, and zeros. -/
def padded (content : List Byte) : List Byte :=
  content ++ List.replicate (paddedSize content.length - content.length) 0

/-- The `DATA` lines. -/
def listing (content : List Byte) : List Char :=
  printFrom (paddedSize content.length) 0 1000 0 (padded content)

/-! ## The lines -/

/-- A number that is nothing but digits. -/
def number (text : List Char) : Option Nat :=
  if text ≠ [] ∧ text.all Char.isDigit then some (Nat.ofDigitChars 10 text 0) else none

/-- A `DATA` line: its number and its values. -/
structure DataLine where
  number : Nat
  values : List Nat
  deriving DecidableEq, Repr

def parseLine (line : List Char) : Option DataLine := do
  let n ← number (line.takeWhile Char.isDigit)
  let rest := line.dropWhile Char.isDigit
  if rest.take 6 = keyword then
    let values ← ((rest.drop 6).splitOn ',').mapM number
    some ⟨n, values⟩
  else none

/-- The lines of a text that ends with a line break. -/
def parseListing (text : List Char) : Option (List DataLine) :=
  if (text.splitOn '\n').getLast? = some [] then (text.splitOn '\n').dropLast.mapM parseLine
  else none

/-! ## The BASIC program -/

/-- What the program stops with: `?ILLEGAL QUANTITY`, `?OUT OF DATA`, or the message about a
checksum with the number of the line. -/
inductive Stop where
  | illegalQuantity
  | outOfData
  | checksum (l : Nat)
  deriving DecidableEq, Repr

/-- `read v:poke d+i+k,v:c=c+v:next k`: what is poked and where, the sum, and the values left. -/
def pokes : (left place c : Nat) → List Nat → Except Stop (List (Nat × Nat) × Nat × List Nat)
  | 0, _, c, values => .ok ([], c, values)
  | _ + 1, _, _, [] => .error .outOfData
  | left + 1, place, c, v :: values =>
    if 0xffff < place ∨ 0xff < v then .error .illegalQuantity
    else (pokes left (place + 1) (c + v) values).map
      fun (poked, c, values) => ((v, place) :: poked, c, values)

/-- `for i=0 to s-1`, eight bytes a round: everything that is poked. -/
def run (d s i l : Nat) (values : List Nat) : Except Stop (List (Nat × Nat)) :=
  match pokes 8 (d + i) 0 values with
  | .error stop => .error stop
  | .ok (_, _, []) => .error .outOfData
  | .ok (poked, c, v :: values) =>
    if c ≠ v then .error (.checksum l)
    else if _h : i + 8 ≤ s - 1 then (run d s (i + 8) (l + 1) values).map (poked ++ ·)
    else .ok poked
termination_by s - i

/-- The listing decodes back to the program: separate lines of nine numbers, from 1000 on, whose
checksums are right, and which poke the file and zeros from its address on. -/
def Decodes (address : BitVec 16) (content : List Byte) : Prop :=
  ∃ lines, parseListing (listing content) = some lines ∧
    lines.map DataLine.number = List.range' 1000 lines.length ∧
    (∀ line ∈ lines, line.values.length = 9) ∧
    run address.toNat (paddedSize content.length) 0 1000 (lines.flatMap DataLine.values) =
      .ok (((padded content).map BitVec.toNat).zipIdx address.toNat)

/-! ## Numbers and lines -/

theorem isDigit_decimal {n : Nat} {c : Char} (h : c ∈ decimal n) : c.isDigit = true :=
  Nat.isDigit_of_mem_toDigits (by decide) (by decide) h

theorem not_mem_decimal {n : Nat} {c : Char} (h : c.isDigit = false) : c ∉ decimal n := by
  intro hmem
  rw [isDigit_decimal hmem] at h
  cases h

theorem number_decimal (n : Nat) : number (decimal n) = some n := by
  have hall : (decimal n).all Char.isDigit = true :=
    List.all_eq_true.mpr fun c hc => isDigit_decimal hc
  rw [number, if_pos ⟨Nat.toDigits_ne_nil, hall⟩, decimal, Nat.ofDigitChars_ten_toDigits]

theorem mapM_map {α β γ : Type} {f : α → Option β} {g : γ → α} {k : γ → β}
    (h : ∀ c, f (g c) = some (k c)) (cs : List γ) : (cs.map g).mapM f = some (cs.map k) := by
  induction cs with
  | nil => rfl
  | cons c cs ih =>
    rw [List.map_cons, List.mapM_cons, h, ih]
    rfl

theorem length_mapM {α β : Type} {f : α → Option β} {as : List α} {bs : List β}
    (h : as.mapM f = some bs) : bs.length = as.length := by
  induction as generalizing bs with
  | nil =>
    rw [List.mapM_nil] at h
    obtain rfl := Option.some.inj h
    rfl
  | cons a as ih =>
    rw [List.mapM_cons] at h
    obtain ⟨b, -, h⟩ := Option.bind_eq_some_iff.mp h
    obtain ⟨rest, hrest, h⟩ := Option.bind_eq_some_iff.mp h
    obtain rfl := Option.some.inj h
    rw [List.length_cons, List.length_cons, ih hrest]

/-- Fields that are each followed by a separator, which is in none of them. -/
theorem splitOn_flatMap {α : Type} (sep : Char) (field : α → List Char) (rest : List Char)
    (hfield : ∀ a, sep ∉ field a) (as : List α) :
    (as.flatMap (fun a => field a ++ [sep]) ++ rest).splitOn sep =
      as.map field ++ rest.splitOn sep := by
  induction as with
  | nil => rfl
  | cons a as ih =>
    rw [List.flatMap_cons, List.append_assoc, List.append_assoc, List.singleton_append,
      List.splitOn_append_cons_self_of_not_mem (hfield a), ih, List.map_cons, List.cons_append]

/-- The sum of a line. -/
def sum (g : List Byte) : Nat := (g.map BitVec.toNat).sum

/-- A line without its line break. -/
def lineText (g : List Byte) (l : Nat) : List Char :=
  decimal l ++ keyword ++ (g.flatMap (fun b => decimal b.toNat ++ [',']) ++ decimal (sum g))

/-- The line that should be read. -/
def dataLine (g : List Byte) (l : Nat) : DataLine := ⟨l, g.map BitVec.toNat ++ [sum g]⟩

theorem takeWhile_decimal (n : Nat) (rest : List Char) :
    (decimal n ++ (keyword ++ rest)).takeWhile Char.isDigit = decimal n := by
  rw [List.takeWhile_append_of_pos fun c hc => isDigit_decimal hc]
  show decimal n ++ [] = decimal n
  rw [List.append_nil]

theorem dropWhile_decimal (n : Nat) (rest : List Char) :
    (decimal n ++ (keyword ++ rest)).dropWhile Char.isDigit = keyword ++ rest := by
  rw [List.dropWhile_append_of_pos fun c hc => isDigit_decimal hc]
  rfl

theorem values_lineText (g : List Byte) :
    ((g.flatMap (fun b => decimal b.toNat ++ [',']) ++ decimal (sum g)).splitOn ',').mapM number =
      some (g.map BitVec.toNat ++ [sum g]) := by
  have hcomma : ∀ n, ',' ∉ decimal n := fun n => not_mem_decimal (by decide)
  rw [splitOn_flatMap ',' (fun b : Byte => decimal b.toNat) _ fun b => hcomma _,
    List.splitOn_eq_singleton (hcomma _)]
  have hmap : g.map (fun b : Byte => decimal b.toNat) ++ [decimal (sum g)] =
      (g.map BitVec.toNat ++ [sum g]).map decimal := by
    rw [List.map_append, List.map_map, List.map_singleton]
    rfl
  rw [hmap, mapM_map number_decimal, List.map_id']

theorem parseLine_lineText (g : List Byte) (l : Nat) :
    parseLine (lineText g l) = some (dataLine g l) := by
  have hkeyword : ∀ rest, (keyword ++ rest).take 6 = keyword := fun rest => rfl
  have hrest : ∀ rest, (keyword ++ rest).drop 6 = rest := fun rest => rfl
  rw [parseLine, lineText, List.append_assoc, takeWhile_decimal, dropWhile_decimal, number_decimal]
  simp only [hkeyword, hrest, if_pos, values_lineText, Option.bind_eq_bind, Option.bind_some]
  rfl

theorem newline_not_mem_lineText (g : List Byte) (l : Nat) : '\n' ∉ lineText g l := by
  have hdigits : ∀ n, '\n' ∉ decimal n := fun n => not_mem_decimal (by decide)
  have hkeyword : '\n' ∉ keyword := by decide
  simp [lineText, hdigits, hkeyword]

/-- Lines that each end with a line break are read. -/
theorem parseListing_lines (lines : List (List Byte × Nat)) :
    parseListing (lines.flatMap fun p => lineText p.1 p.2 ++ ['\n']) =
      some (lines.map fun p => dataLine p.1 p.2) := by
  have hsplit : (lines.flatMap fun p => lineText p.1 p.2 ++ ['\n']).splitOn '\n' =
      (lines.map fun p => lineText p.1 p.2) ++ [[]] := by
    rw [← List.append_nil (lines.flatMap _),
      splitOn_flatMap '\n' (fun p : List Byte × Nat => lineText p.1 p.2) []
        (fun p => newline_not_mem_lineText p.1 p.2), List.splitOn_nil]
  have hread : ∀ p : List Byte × Nat, parseLine (lineText p.1 p.2) = some (dataLine p.1 p.2) :=
    fun p => parseLine_lineText p.1 p.2
  have hmap : (lines.map fun p => lineText p.1 p.2).mapM parseLine =
      some (lines.map fun p => dataLine p.1 p.2) := mapM_map hread lines
  rw [parseListing, hsplit, List.getLast?_concat, if_pos rfl, List.dropLast_concat, hmap]

/-! ## What is printed -/

/-- The checksum and the line break. -/
def close (checksum : Nat) : List Char := decimal checksum ++ ['\n']

/-- The bytes of a line after the first. -/
theorem printFrom_within {size : Nat} (b : Byte) (g data : List Byte) (i l checksum : Nat)
    (hi : i % 8 ≠ 0) (hline : i % 8 + (b :: g).length ≤ 8) (hsize : i + (b :: g).length ≤ size) :
    printFrom size i l checksum (b :: g ++ data) =
      (b :: g).flatMap (fun b => decimal b.toNat ++ [',']) ++
        (if i + (b :: g).length = size then close (checksum + sum (b :: g)) else []) ++
        printFrom size (i + (b :: g).length) l (checksum + sum (b :: g)) data := by
  induction g generalizing b i checksum with
  | nil =>
    rw [List.length_singleton] at hsize ⊢
    have hlast : i = size - 1 ↔ i + 1 = size := by omega
    simp [printFrom, hi, hlast, close, sum]
  | cons b' g ih =>
    rw [List.length_cons] at hline hsize ⊢
    have hlast : ¬i = size - 1 := by
      rw [List.length_cons] at hsize
      omega
    have hnext : (i + 1) % 8 ≠ 0 ∧ (i + 1) % 8 + (b' :: g).length ≤ 8 := by
      rw [List.length_cons] at hline ⊢
      omega
    have hrest := ih b' (i + 1) (checksum + b.toNat) hnext.1 hnext.2 (by omega)
    have hlength : i + 1 + (b' :: g).length = i + ((b' :: g).length + 1) := by omega
    have hsum : checksum + b.toNat + sum (b' :: g) = checksum + sum (b :: b' :: g) := by
      simp [sum, Nat.add_assoc]
    rw [hlength, hsum] at hrest
    rw [List.cons_append, printFrom, List.flatMap_cons]
    simp only [hi, hlast, false_and, if_false, hrest, List.nil_append, List.append_nil,
      List.append_assoc]

/-- A line: the one before it is closed, if its checksum is not zero. -/
theorem printFrom_line {size : Nat} (g data : List Byte) (i l checksum : Nat) (hi : i % 8 = 0)
    (hg : g.length = 8) (hsize : i + 8 ≤ size) :
    printFrom size i l checksum (g ++ data) =
      (if checksum ≠ 0 then close checksum else []) ++
        (decimal l ++ keyword ++ g.flatMap (fun b => decimal b.toNat ++ [','])) ++
        (if i + 8 = size then close (sum g) else []) ++
        printFrom size (i + 8) (l + 1) (sum g) data := by
  obtain ⟨b, tail, rfl⟩ := List.exists_cons_of_length_eq_add_one hg
  have htail : tail.length = 7 := by simpa using hg
  obtain ⟨b', tail, rfl⟩ := List.exists_cons_of_length_eq_add_one htail
  have hwithin := @printFrom_within size b' tail data (i + 1) (l + 1) (0 + b.toNat)
    (by omega) (by omega) (by omega)
  have hlength : i + 1 + (b' :: tail).length = i + 8 := by omega
  have hsum : 0 + b.toNat + sum (b' :: tail) = sum (b :: b' :: tail) := by
    simp [sum]
  rw [hlength, hsum] at hwithin
  rw [List.cons_append, printFrom, List.flatMap_cons]
  simp only [hi, true_and, and_false, if_false, if_true, hwithin, close, List.append_nil,
    List.append_assoc, ne_eq, not_true_eq_false]

/-- The lines of eight bytes: `m` of them, and a last one. -/
def groups : (m : Nat) → List Byte → List (List Byte)
  | 0, data => [data]
  | m + 1, data => data.take 8 :: groups m (data.drop 8)

/-- The bytes of line `j`. -/
def group (data : List Byte) (j : Nat) : List Byte := (data.drop (8 * j)).take 8

theorem group_drop (data : List Byte) (j : Nat) : group (data.drop 8) j = group data (j + 1) := by
  rw [group, group, List.drop_drop, Nat.mul_succ, Nat.add_comm]

section Lines

variable {size : Nat}

theorem printFrom_last {data : List Byte} {i : Nat} (hi : i % 8 = 0) (hlength : data.length = 8)
    (hsize : i + data.length = size) (l checksum : Nat) :
    printFrom size i l checksum data =
      (if checksum ≠ 0 then close checksum else []) ++
        (decimal l ++ keyword ++ data.flatMap (fun b => decimal b.toNat ++ [','])) ++
        close (sum data) := by
  rw [hlength] at hsize
  have hline := printFrom_line data [] i l checksum hi hlength (Nat.le_of_eq hsize)
  rwa [if_pos hsize, List.append_nil, printFrom, List.append_nil] at hline

theorem printFrom_next {m : Nat} {data : List Byte} {i : Nat} (hi : i % 8 = 0)
    (hlength : data.length = 8 * (m + 1 + 1)) (hsize : i + data.length = size)
    (l checksum : Nat) :
    printFrom size i l checksum data =
      (if checksum ≠ 0 then close checksum else []) ++
        (decimal l ++ keyword ++ (data.take 8).flatMap (fun b => decimal b.toNat ++ [','])) ++
        printFrom size (i + 8) (l + 1) (sum (data.take 8)) (data.drop 8) := by
  have hg : (data.take 8).length = 8 := by
    rw [List.length_take]
    omega
  have hle : i + 8 ≤ size := by omega
  have hnot : ¬i + 8 = size := by omega
  have hline := printFrom_line (data.take 8) (data.drop 8) i l checksum hi hg hle
  rwa [List.take_append_drop, if_neg hnot, List.append_nil] at hline

/-- When no line but the last is all zeros, the lines are printed one after the other. -/
theorem printFrom_groups (m : Nat) (data : List Byte) (i l checksum : Nat) (hi : i % 8 = 0)
    (hlength : data.length = 8 * (m + 1)) (hsize : i + data.length = size)
    (hfull : ∀ j < m, sum (group data j) ≠ 0) :
    printFrom size i l checksum data = (if checksum ≠ 0 then close checksum else []) ++
      ((groups m data).zipIdx l).flatMap fun p => lineText p.1 p.2 ++ ['\n'] := by
  induction m generalizing data i l checksum with
  | zero =>
    rw [printFrom_last hi hlength hsize, groups, List.zipIdx_cons, List.zipIdx_nil,
      List.flatMap_singleton]
    simp only [lineText, close, List.append_assoc]
  | succ m ih =>
    have hdrop : (data.drop 8).length = 8 * (m + 1) := by
      rw [List.length_drop]
      omega
    have hnonzero : sum (data.take 8) ≠ 0 := hfull 0 (by omega)
    rw [printFrom_next hi hlength hsize,
      ih (data.drop 8) (i + 8) (l + 1) (sum (data.take 8)) (by omega) hdrop (by omega),
      if_pos hnonzero, groups, List.zipIdx_cons, List.flatMap_cons]
    · simp only [lineText, close, List.append_assoc]
    · intro j hj
      rw [group_drop]
      exact hfull (j + 1) (by omega)

theorem count_decimal {c : Char} (h : c.isDigit = false) (n : Nat) : (decimal n).count c = 0 :=
  List.count_eq_zero.mpr (not_mem_decimal h)

theorem count_close (checksum : Nat) : (close checksum).count '\n' = 1 := by
  rw [close, List.count_append, count_decimal (by decide)]
  rfl

theorem count_line (g : List Byte) (l : Nat) :
    (decimal l ++ keyword ++ g.flatMap (fun b => decimal b.toNat ++ [','])).count '\n' = 0 := by
  rw [List.count_eq_zero]
  have hdigits : ∀ n, '\n' ∉ decimal n := fun n => not_mem_decimal (by decide)
  have hkeyword : '\n' ∉ keyword := by decide
  simp [hdigits, hkeyword]

/-- There is a line break for every line, but for the ones that are all zeros. -/
theorem count_newline (m : Nat) (data : List Byte) (i l checksum : Nat) (hi : i % 8 = 0)
    (hlength : data.length = 8 * (m + 1)) (hsize : i + data.length = size) :
    (printFrom size i l checksum data).count '\n' ≤ (if checksum ≠ 0 then 1 else 0) + (m + 1) ∧
      ((printFrom size i l checksum data).count '\n' = (if checksum ≠ 0 then 1 else 0) + (m + 1) →
        ∀ j < m, sum (group data j) ≠ 0) := by
  have hclose : ∀ n, (if n ≠ 0 then close n else []).count '\n' = if n ≠ 0 then 1 else 0 := by
    intro n
    split
    · exact count_close n
    · rfl
  induction m generalizing data i l checksum with
  | zero =>
    rw [printFrom_last hi hlength hsize, List.count_append, List.count_append, hclose, count_line,
      count_close]
    exact ⟨Nat.le_refl _, fun _ j hj => by omega⟩
  | succ m ih =>
    have hdrop : (data.drop 8).length = 8 * (m + 1) := by
      rw [List.length_drop]
      omega
    obtain ⟨hle, hall⟩ := ih (data.drop 8) (i + 8) (l + 1) (sum (data.take 8)) (by omega) hdrop
      (by omega)
    rw [printFrom_next hi hlength hsize, List.count_append, List.count_append, hclose, count_line]
    have hone : (if sum (data.take 8) ≠ 0 then 1 else 0) ≤ 1 := by
      split <;> omega
    refine ⟨by omega, ?_⟩
    intro hcount j hj
    have hnonzero : sum (data.take 8) ≠ 0 := by
      by_contra hzero
      rw [if_neg (not_not_intro hzero)] at hle
      omega
    rw [if_pos hnonzero] at hle hall
    cases j with
    | zero => exact hnonzero
    | succ j =>
      rw [← group_drop]
      exact hall (by omega) j (by omega)

/-- There is a comma for every byte. -/
theorem count_comma (data : List Byte) (i l checksum : Nat) :
    (printFrom size i l checksum data).count ',' = data.length := by
  have hdigits : ∀ n, (decimal n).count ',' = 0 := count_decimal (by decide)
  have hclose : ∀ n, (decimal n ++ ['\n']).count ',' = 0 := by
    intro n
    rw [List.count_append, hdigits]
    rfl
  have hkeyword : ∀ n, (decimal n ++ keyword).count ',' = 0 := by
    intro n
    rw [List.count_append, hdigits]
    rfl
  have hcomma : ∀ n, (decimal n ++ [',']).count ',' = 1 := by
    intro n
    rw [List.count_append, hdigits]
    rfl
  have hmaybe : ∀ (p : Prop) [Decidable p] (text : List Char), text.count ',' = 0 →
      (if p then text else []).count ',' = 0 := by
    intro p _ text htext
    split
    · exact htext
    · rfl
  induction data generalizing i l checksum with
  | nil => rfl
  | cons b data ih =>
    simp only [printFrom]
    rw [List.count_append, List.count_append, List.count_append, List.count_append, ih,
      hmaybe _ _ (hclose _), hmaybe _ _ (hkeyword _), hcomma, hmaybe _ _ (hclose _),
      List.length_cons]
    omega

end Lines

/-! ## What is read -/

theorem length_splitOn (sep : Char) (text : List Char) :
    (text.splitOn sep).length = text.count sep + 1 := by
  induction text with
  | nil => rfl
  | cons c text ih =>
    rw [List.splitOn_cons_eq_if_modifyHead, List.count_cons]
    split
    · rw [List.length_cons, ih]
    · rw [List.length_modifyHead, ih]

theorem sum_count_splitOn {sep c : Char} (hne : c ≠ sep) (text : List Char) :
    ((text.splitOn sep).map (List.count c)).sum = text.count c := by
  induction text with
  | nil => rfl
  | cons d text ih =>
    rw [List.splitOn_cons_eq_if_modifyHead]
    by_cases hsep : (d == sep) = true
    · have hd : d ≠ c := by
        rw [beq_iff_eq.mp hsep]
        exact hne.symm
      rw [if_pos hsep, List.map_cons, List.sum_cons, List.count_nil, ih, List.count_cons_of_ne hd,
        Nat.zero_add]
    · rw [if_neg hsep, List.count_cons, ← ih]
      cases hsplit : text.splitOn sep with
      | nil => exact absurd hsplit (List.splitOn_ne_nil sep text)
      | cons part parts =>
        rw [List.modifyHead_cons, List.map_cons, List.sum_cons, List.map_cons, List.sum_cons,
          List.count_cons]
        omega

/-- A line has a comma less than it has values. -/
theorem count_parseLine {line : List Char} {r : DataLine} (h : parseLine line = some r) :
    line.count ',' + 1 = r.values.length := by
  obtain ⟨n, -, h⟩ := Option.bind_eq_some_iff.mp h
  by_cases hkeyword : (line.dropWhile Char.isDigit).take 6 = keyword
  · rw [if_pos hkeyword] at h
    obtain ⟨values, hvalues, h⟩ := Option.bind_eq_some_iff.mp h
    obtain rfl := Option.some.inj h
    have hdigits : (line.takeWhile Char.isDigit).count ',' = 0 := by
      rw [List.count_eq_zero]
      intro hmem
      have hdigit := List.mem_takeWhile_imp hmem
      revert hdigit
      decide
    have hsplit : line = line.takeWhile Char.isDigit ++
        (keyword ++ (line.dropWhile Char.isDigit).drop 6) := by
      rw [← hkeyword, List.take_append_drop, List.takeWhile_append_dropWhile]
    rw [hsplit, List.count_append, List.count_append, hdigits, length_mapM hvalues,
      length_splitOn]
    show 0 + (0 + _) + 1 = _
    omega
  · rw [if_neg hkeyword] at h
    cases h

theorem sum_count_lines {texts : List (List Char)} {lines : List DataLine}
    (h : texts.mapM parseLine = some lines) (hnine : ∀ line ∈ lines, line.values.length = 9) :
    (texts.map (List.count ',')).sum = 8 * lines.length := by
  induction texts generalizing lines with
  | nil =>
    rw [List.mapM_nil] at h
    obtain rfl := Option.some.inj h
    rfl
  | cons text texts ih =>
    rw [List.mapM_cons] at h
    obtain ⟨line, hline, h⟩ := Option.bind_eq_some_iff.mp h
    obtain ⟨rest, hrest, h⟩ := Option.bind_eq_some_iff.mp h
    obtain rfl := Option.some.inj h
    have hcount := count_parseLine hline
    rw [hnine line List.mem_cons_self] at hcount
    have hsum := ih hrest fun r hr => hnine r (List.mem_cons_of_mem _ hr)
    rw [List.map_cons, List.sum_cons, hsum, List.length_cons]
    omega

/-- Lines of nine values are as many as the line breaks, and have eight commas each. -/
theorem count_parseListing {text : List Char} {lines : List DataLine}
    (h : parseListing text = some lines) (hnine : ∀ line ∈ lines, line.values.length = 9) :
    text.count '\n' = lines.length ∧ text.count ',' = 8 * lines.length := by
  rw [parseListing] at h
  by_cases hlast : (text.splitOn '\n').getLast? = some []
  · rw [if_pos hlast] at h
    have hparts : (text.splitOn '\n').dropLast ++ [[]] = text.splitOn '\n' :=
      List.dropLast_append_getLast? [] hlast
    have hlength := length_splitOn '\n' text
    have hcommas := @sum_count_splitOn '\n' ',' (by decide) text
    rw [← hparts, List.length_append, List.length_singleton, ← length_mapM h] at hlength
    rw [← hparts, List.map_append, List.sum_append, sum_count_lines h hnine] at hcommas
    refine ⟨by omega, ?_⟩
    rw [← hcommas]
    rfl
  · rw [if_neg hlast] at h
    cases h

/-! ## What is poked -/

theorem pokes_line (g rest : List Nat) (place c : Nat) (hbytes : ∀ v ∈ g, v ≤ 0xff)
    (hplace : place + g.length ≤ 0x10000) :
    pokes g.length place c (g ++ rest) = .ok (g.zipIdx place, c + g.sum, rest) := by
  induction g generalizing place c with
  | nil => rfl
  | cons v g ih =>
    rw [List.length_cons] at hplace
    have hv : v ≤ 0xff := hbytes v List.mem_cons_self
    have hrest := ih (place + 1) (c + v) (fun w hw => hbytes w (List.mem_cons_of_mem _ hw))
      (by omega)
    rw [List.length_cons, List.cons_append, pokes, if_neg (by omega), hrest, List.zipIdx_cons,
      List.sum_cons, ← Nat.add_assoc]
    rfl

theorem byte_le {g : List Byte} : ∀ v ∈ g.map BitVec.toNat, v ≤ 0xff := by
  intro v hv
  obtain ⟨b, -, rfl⟩ := List.mem_map.mp hv
  exact Nat.lt_succ_iff.mp b.isLt

/-- The values of the lines. -/
def values (m : Nat) (data : List Byte) : List Nat :=
  (groups m data).flatMap fun g => g.map BitVec.toNat ++ [sum g]

/-- One round of the program reads a line. -/
theorem run_line {d s i l : Nat} (g : List Byte) (rest : List Nat) (hg : g.length = 8)
    (hplace : d + i + 8 ≤ 0x10000) :
    run d s i l (g.map BitVec.toNat ++ [sum g] ++ rest) =
      if i + 8 ≤ s - 1 then
        (run d s (i + 8) (l + 1) rest).map ((g.map BitVec.toNat).zipIdx (d + i) ++ ·)
      else .ok ((g.map BitVec.toNat).zipIdx (d + i)) := by
  have hlength : (g.map BitVec.toNat).length = 8 := by rw [List.length_map, hg]
  have hpokes := pokes_line (g.map BitVec.toNat) (sum g :: rest) (d + i) 0 byte_le (by omega)
  rw [hlength, Nat.zero_add] at hpokes
  rw [run, List.append_assoc, List.singleton_append, hpokes]
  simp only [sum, ne_eq, not_true_eq_false, if_false]
  split <;> rfl

/-- The program pokes the bytes of the lines. -/
theorem run_values (m : Nat) (data : List Byte) (d s i l : Nat)
    (hlength : data.length = 8 * (m + 1)) (hsize : i + data.length = s) (hplace : d + s ≤ 0x10000) :
    run d s i l (values m data) = .ok ((data.map BitVec.toNat).zipIdx (d + i)) := by
  induction m generalizing data i l with
  | zero =>
    have hline := @run_line d s i l data [] (by omega) (by omega)
    rw [List.append_nil, if_neg (by omega)] at hline
    rw [values, groups, List.flatMap_singleton, hline]
  | succ m ih =>
    have hdrop : (data.drop 8).length = 8 * (m + 1) := by
      rw [List.length_drop]
      omega
    have htake : (data.take 8).length = 8 := by
      rw [List.length_take]
      omega
    have hrest := ih (data.drop 8) (i + 8) (l + 1) hdrop (by omega)
    have hline := @run_line d s i l (data.take 8) (values m (data.drop 8)) htake (by omega)
    rw [if_pos (by omega), hrest] at hline
    rw [values, groups, List.flatMap_cons, ← values, hline]
    show Except.ok (_ ++ _) = _
    have hat : d + (i + 8) = d + i + ((data.take 8).map BitVec.toNat).length := by
      rw [List.length_map, htake, Nat.add_assoc]
    rw [hat, ← List.zipIdx_append, ← List.map_append, List.take_append_drop]

theorem pokes_bound {left place c : Nat} {values rest : List Nat} {poked : List (Nat × Nat)}
    {c' : Nat} (h : pokes left place c values = .ok (poked, c', rest)) :
    ∀ p ∈ poked, p.2 ≤ 0xffff := by
  induction left generalizing place c values poked c' rest with
  | zero =>
    cases h
    intro p hp
    cases hp
  | succ left ih =>
    cases values with
    | nil => cases h
    | cons v values =>
      rw [pokes] at h
      by_cases hbad : 0xffff < place ∨ 0xff < v
      · rw [if_pos hbad] at h
        cases h
      · rw [if_neg hbad] at h
        cases hpokes : pokes left (place + 1) (c + v) values with
        | error stop =>
          rw [hpokes] at h
          cases h
        | ok result =>
          obtain ⟨poked', c'', rest'⟩ := result
          rw [hpokes] at h
          cases h
          intro p hp
          rcases List.mem_cons.mp hp with rfl | hp
          · omega
          · exact ih hpokes p hp

/-- Nothing is poked above `$ffff`. -/
theorem run_bound {d s i l : Nat} {values : List Nat} {poked : List (Nat × Nat)}
    (h : run d s i l values = .ok poked) : ∀ p ∈ poked, p.2 ≤ 0xffff := by
  induction hn : s - i using Nat.strongRecOn generalizing i l values poked with
  | _ n ih =>
    rw [run] at h
    cases hpokes : pokes 8 (d + i) 0 values with
    | error stop =>
      rw [hpokes] at h
      cases h
    | ok result =>
      obtain ⟨here, c, rest⟩ := result
      have hhere := pokes_bound hpokes
      simp only [hpokes] at h
      cases rest with
      | nil => cases h
      | cons v rest =>
        simp only at h
        by_cases hsum : c ≠ v
        · rw [if_pos hsum] at h
          cases h
        rw [if_neg hsum] at h
        by_cases hmore : i + 8 ≤ s - 1
        · rw [dif_pos hmore] at h
          cases hrun : run d s (i + 8) (l + 1) rest with
          | error stop =>
            rw [hrun] at h
            cases h
          | ok later =>
            rw [hrun] at h
            cases h
            intro p hp
            rcases List.mem_append.mp hp with hp | hp
            · exact hhere p hp
            · exact ih (s - (i + 8)) (by omega) hrun rfl p hp
        · rw [dif_neg hmore] at h
          cases h
          exact hhere

/-! ## The listing -/

theorem paddedSize_eq (n : Nat) : paddedSize n = 8 * (n / 8 + 1) := by
  unfold paddedSize
  omega

theorem length_padded (content : List Byte) :
    (padded content).length = 8 * (content.length / 8 + 1) := by
  rw [padded, List.length_append, List.length_replicate, paddedSize_eq]
  omega

theorem group_padded {content : List Byte} {j : Nat} (hj : j < content.length / 8) :
    group (padded content) j = group content j := by
  rw [group, padded, List.drop_append_of_le_length (by omega), List.take_append_of_le_length]
  · rfl
  · rw [List.length_drop]
    omega

theorem sum_eq_zero_iff {g : List Byte} (hg : g.length = 8) :
    sum g = 0 ↔ g = List.replicate 8 0 := by
  rw [sum, List.sum_eq_zero_iff_forall_eq_nat, List.eq_replicate_iff]
  constructor
  · intro h
    refine ⟨hg, fun b hb => ?_⟩
    apply BitVec.eq_of_toNat_eq
    exact h b.toNat (List.mem_map_of_mem hb)
  · rintro ⟨-, h⟩ v hv
    obtain ⟨b, hb, rfl⟩ := List.mem_map.mp hv
    rw [h b hb]
    rfl

/-- The groups before the last line, as the content has them. -/
theorem full_iff (content : List Byte) :
    (∀ j < content.length / 8, sum (group (padded content) j) ≠ 0) ↔
      ∀ j < content.length / 8, group content j ≠ List.replicate 8 0 := by
  have hgroup : ∀ j < content.length / 8, (sum (group (padded content) j) = 0 ↔
      group content j = List.replicate 8 0) := by
    intro j hj
    rw [group_padded hj, sum_eq_zero_iff]
    rw [group, List.length_take, List.length_drop]
    omega
  constructor
  · intro h j hj hzero
    exact h j hj ((hgroup j hj).mpr hzero)
  · intro h j hj hzero
    exact h j hj ((hgroup j hj).mp hzero)

/-- A listing without a line of zeros before the last has its lines. -/
theorem parseListing_listing {content : List Byte}
    (hfull : ∀ j < content.length / 8, sum (group (padded content) j) ≠ 0) :
    parseListing (listing content) = some
      (((groups (content.length / 8) (padded content)).zipIdx 1000).map
        fun p => dataLine p.1 p.2) := by
  have hprint := @printFrom_groups (paddedSize content.length) _ (padded content) 0 1000 0
    rfl (length_padded content)
    (by rw [length_padded, paddedSize_eq, Nat.zero_add]) hfull
  rw [listing, hprint, if_neg (not_not_intro rfl), List.nil_append, parseListing_lines]

theorem length_mem_groups {m : Nat} {data : List Byte} (hlength : data.length = 8 * (m + 1)) :
    ∀ g ∈ groups m data, g.length = 8 := by
  induction m generalizing data with
  | zero =>
    intro g hg
    obtain rfl := List.mem_singleton.mp hg
    exact hlength
  | succ m ih =>
    intro g hg
    rcases List.mem_cons.mp hg with rfl | hg
    · rw [List.length_take]
      omega
    · exact ih (by rw [List.length_drop]; omega) g hg

/-- The listing decodes back when no eight bytes that get a line of their own are all zeros, and all
the lines fit below `$10000`. -/
theorem decodes_iff (address : BitVec 16) (content : List Byte) :
    Decodes address content ↔
      (∀ j < content.length / 8, group content j ≠ List.replicate 8 0) ∧
        address.toNat + paddedSize content.length ≤ 0x10000 := by
  have hlength := length_padded content
  have hsize : 0 + (padded content).length = paddedSize content.length := by
    rw [hlength, paddedSize_eq, Nat.zero_add]
  rw [← full_iff]
  constructor
  · rintro ⟨lines, hparse, -, hnine, hrun⟩
    constructor
    · obtain ⟨hnewlines, hcommas⟩ := count_parseListing hparse hnine
      have hcomma := @count_comma (paddedSize content.length) (padded content) 0 1000 0
      obtain ⟨-, hall⟩ := count_newline _ (padded content) 0 1000 0 rfl hlength hsize
      apply hall
      rw [← listing] at hcomma ⊢
      rw [if_neg (not_not_intro rfl)]
      omega
    · -- the last byte is poked to the last place
      have hlt : paddedSize content.length - 1 < ((padded content).map BitVec.toNat).length := by
        rw [List.length_map]
        omega
      have hlast : (((padded content).map BitVec.toNat)[paddedSize content.length - 1],
          address.toNat + (paddedSize content.length - 1)) ∈
          ((padded content).map BitVec.toNat).zipIdx address.toNat := by
        rw [List.mk_mem_zipIdx_iff_le_and_getElem?_sub, Nat.add_sub_cancel_left,
          List.getElem?_eq_getElem hlt]
        exact ⟨Nat.le_add_right _ _, rfl⟩
      have hbound := run_bound hrun _ hlast
      omega
  · rintro ⟨hfull, hplace⟩
    refine ⟨_, parseListing_listing hfull, ?_, ?_, ?_⟩
    · rw [List.map_map, List.length_map, List.length_zipIdx]
      exact List.zipIdx_map_snd 1000 _
    · intro line hline
      obtain ⟨⟨g, l⟩, hg, rfl⟩ := List.mem_map.mp hline
      have hmem : g ∈ groups (content.length / 8) (padded content) := by
        rw [← List.zipIdx_map_fst 1000 (groups _ _)]
        exact List.mem_map_of_mem hg
      rw [dataLine, List.length_append, List.length_map, length_mem_groups hlength g hmem]
      rfl
    · have hvalues : (((groups (content.length / 8) (padded content)).zipIdx 1000).map
          fun p => dataLine p.1 p.2).flatMap DataLine.values =
          values (content.length / 8) (padded content) := by
        rw [List.flatMap_map, values]
        conv => rhs; rw [← List.zipIdx_map_fst 1000 (groups _ _), List.flatMap_map]
        rfl
      rw [hvalues, run_values _ _ _ _ 0 1000 hlength hsize hplace, Nat.add_zero]

/-- Eight zeros, and the line of zeros behind them. -/
theorem zeros_do_not_decode : ¬Decodes 0x0801 (List.replicate 8 0) := by
  rintro ⟨lines, hparse, -⟩
  have hnone : parseListing (listing (List.replicate 8 0)) = none := by decide
  rw [hnone] at hparse
  cases hparse

end Xlink.MakeBootstrap
