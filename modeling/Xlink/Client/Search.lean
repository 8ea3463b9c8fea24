import Xlink.Client.Command
import Xlink.Client.Overlap
import Xlink.Lib.Loop

/-!
# The search for a place for the server

`command_server_relocation_possible` tries three areas of memory in turn, and in each of them one
place after the other, from its end down. Every loop ends, since no area begins at the bottom of
memory, where `range_move` stays; and it finds the highest place that is clear of the data, in the
first area that has one.

`search_exact` has all of this for both machines, every length and top of memory, and any two ints
as start and end of the data, also of a range that ends before it starts. A place is clear of the
data if `range_overlaps` says so. Whether an area is free memory of the machine is not asked here
(`FreeMemory`).
-/

namespace Xlink.Client

open Loop Word

/-! ## Areas and places -/

/-- The areas the search tries, in its order. -/
def searchAreas (machine : Machine) (server : ServerInfo) : List Range :=
  let lower := Range.fromInt machine.hiram
  [Range.fromInt machine.loram,
    if machine.type = .c64 then ⟨lower.start, server.memtop.toNat⟩ else lower,
    Range.fromInt machine.screenram]

/-- An area that is within memory, or empty. -/
def Range.InMemory (area : Range) : Prop := 0 ≤ area.start ∧ area.stop < 0x10000

/-- A block of some length. -/
def block (length start : Int) : Range := ⟨start, start + length⟩

/-- A block is in an area, and does not overlap the data. -/
structure Clear (data area : Range) (length start : Int) : Prop where
  low : area.start ≤ start
  high : start + length ≤ area.stop
  clear : (block length start).overlaps data = false

/-- An area has a place for a block. -/
def Room (data area : Range) (length : Int) : Prop := ∃ start, Clear data area length start

/-- The highest place of an area. -/
def Highest (data area : Range) (length start : Int) : Prop :=
  Clear data area length start ∧ ∀ other, Clear data area length other → other ≤ start

/-- One round of the loop over an area. -/
def searchBody (data area code : Range) : Range ⊕ Option Range :=
  if code.inside area then
    if code.overlaps data then .inl (code.move (-1)) else .inr (some code)
  else .inr none

section Loop

variable {data area code : Range} {length : Int}

theorem Range.inside_iff_le : code.inside area = true ↔
    area.start ≤ code.start ∧ code.stop ≤ area.stop := by
  rw [Range.inside_iff]
  constructor
  · rintro (rfl | h)
    · exact ⟨le_rfl, le_rfl⟩
    · exact h
  · exact .inr

/-- Above the bottom of memory, a block moves down by one. -/
theorem move_down {start : Int} (h : 0 < start) :
    (block length start).move (-1) = block length (start - 1) := by
  have hup : ¬(0 < (-1 : Int) ∧ Range.max < (block length start).stop + -1) := by omega
  have hdown : ¬((-1 : Int) < 0 ∧ (block length start).start + -1 < Range.min) := by
    simp only [block, Range.min]
    omega
  simp only [Range.move, if_neg hup, if_neg hdown]
  simp only [block, Range.mk.injEq]
  omega

/-- A round that goes on: the block is in the area, overlaps the data, and moves down. -/
theorem searchBody_again {start : Int} {next : Range} (harea : 0 < area.start)
    (h : searchBody data area (block length start) = .inl next) :
    next = block length (start - 1) ∧ area.start ≤ start ∧
      (block length start).overlaps data = true := by
  unfold searchBody at h
  split at h
  next hinside =>
    obtain ⟨hlow, -⟩ := Range.inside_iff_le.mp hinside
    split at h
    next hoverlaps =>
      rw [← Sum.inl.inj h]
      exact ⟨move_down (lt_of_lt_of_le harea hlow), hlow, hoverlaps⟩
    next => cases h
  next => cases h

/-- What a loop over an area leaves with. -/
def Placed (data area : Range) (length : Int) : Option Range → Prop
  | some code => ∃ start, code = block length start ∧ Highest data area length start
  | none => ¬Room data area length

/-- Places further up have all been tried. -/
def Tried (data area : Range) (length : Int) (code : Range) : Prop :=
  ∃ start, code = block length start ∧ start + length ≤ area.stop ∧
    ∀ other, start < other → ¬Clear data area length other

theorem tried_again (harea : 0 < area.start) (next : Range) (h : Tried data area length code)
    (hnext : searchBody data area code = .inl next) : Tried data area length next := by
  obtain ⟨start, rfl, hstop, htried⟩ := h
  obtain ⟨rfl, -, hoverlaps⟩ := searchBody_again harea hnext
  refine ⟨start - 1, rfl, by omega, ?_⟩
  intro other hother hclear
  rcases eq_or_lt_of_le (show start ≤ other by omega) with rfl | hlt
  · rw [hclear.clear] at hoverlaps
    cases hoverlaps
  · exact htried other hlt hclear

theorem placed_leave (result : Option Range) (h : Tried data area length code)
    (hleave : searchBody data area code = .inr result) : Placed data area length result := by
  obtain ⟨start, rfl, hstop, htried⟩ := h
  unfold searchBody at hleave
  split at hleave
  next hinside =>
    obtain ⟨hlow, -⟩ := Range.inside_iff_le.mp hinside
    split at hleave
    next => cases hleave
    next hclear =>
      cases hleave
      refine ⟨start, rfl, ⟨hlow, hstop, by simpa using hclear⟩, ?_⟩
      intro other hother
      by_contra hlt
      exact htried other (not_le.mp hlt) hother
  next hinside =>
    cases hleave
    rintro ⟨other, hother⟩
    have hbelow : start < area.start := by
      by_contra hlow
      exact hinside (Range.inside_iff_le.mpr ⟨not_lt.mp hlow, hstop⟩)
    exact htried other (lt_of_lt_of_le hbelow hother.low) hother

/-- With a round for each place of the area, `searchArea` is the loop. -/
theorem loops_searchArea {start : Int} (harea : 0 < area.start) (rounds : Nat)
    (hrounds : start - area.start < rounds) :
    Loops (searchBody data area) (block length start)
      (Command.searchArea data area rounds (block length start)) := by
  induction rounds generalizing start with
  | zero =>
    have hinside : ¬(block length start).inside area = true := by
      rw [Range.inside_iff_le]
      simp only [block]
      omega
    exact .leave (if_neg hinside)
  | succ rounds ih =>
    unfold Command.searchArea
    split
    next hinside =>
      split
      next hoverlaps =>
        have hlow : area.start ≤ start := (Range.inside_iff_le.mp hinside).1
        have hnext : searchBody data area (block length start) =
            .inl (block length (start - 1)) := by
          rw [searchBody, if_pos hinside, if_pos hoverlaps,
            move_down (lt_of_lt_of_le harea hlow)]
        rw [move_down (lt_of_lt_of_le harea hlow)]
        exact .again hnext (ih (by omega))
      next hclear => exact .leave (by rw [searchBody, if_pos hinside, if_neg hclear])
    next hinside => exact .leave (if_neg hinside)

end Loop

/-! ## The search -/

section Search

variable {self : Command} {server : ServerInfo} {area : Range}

/-- The block an area is searched from. -/
def lastBlock (server : ServerInfo) (area : Range) : Range :=
  block server.length.toNat (area.stop - server.length.toNat)

theorem loops_placeInArea (harea : 0 < area.start) :
    Loops (searchBody self.range area) (lastBlock server area)
      (self.placeInArea server area) := by
  have hlast : lastBlock server area = ⟨area.stop - server.length.toNat, area.stop⟩ := by
    rw [lastBlock, block, Int.sub_add_cancel]
  rw [Command.placeInArea, ← hlast]
  apply loops_searchArea harea
  rw [hlast]
  simp only
  omega

theorem tried_lastBlock {data : Range} :
    Tried data area server.length.toNat (lastBlock server area) := by
  refine ⟨_, rfl, by omega, ?_⟩
  intro other hother hclear
  have hhigh := hclear.high
  omega

/-- What is found in an area is the highest place, and nothing is found where there is none. -/
theorem placed_placeInArea (self : Command) (server : ServerInfo) (harea : 0 < area.start) :
    Placed self.range area server.length.toNat (self.placeInArea server area) :=
  (loops_placeInArea harea).result_of_invariant
    (fun _ next h hnext => tried_again harea next h hnext)
    (fun _ result h hleave => placed_leave result h hleave) tried_lastBlock

theorem searchAreas_c64 : searchAreas (.ofType .c64) server =
    [⟨0x0801, 0x0a00⟩, ⟨0xc000, server.memtop.toNat⟩, ⟨0x0400, 0x07e7⟩] := rfl

theorem searchAreas_c128 : searchAreas (.ofType .c128) server =
    [⟨0x1300, 0x1c01⟩, ⟨0x1c01, 0x4000⟩, ⟨0x0400, 0x07e7⟩] := rfl

/-- The areas are in memory, and none begins at its bottom. -/
theorem searchAreas_bounds (type : MachineType) :
    ∀ area ∈ searchAreas (.ofType type) server, 0 < area.start ∧ area.InMemory := by
  have hmemtop := server.memtop.isLt
  unfold Range.InMemory
  cases type with
  | c64 =>
    rw [searchAreas_c64]
    simp only [List.forall_mem_cons]
    exact ⟨by decide, ⟨by decide, by decide, by omega⟩, by decide, List.forall_mem_nil _⟩
  | c128 =>
    rw [searchAreas_c128]
    decide

theorem serverRelocationPossible_eq (machine : Machine) :
    self.serverRelocationPossible machine server =
      ((searchAreas machine server).findSome? (self.placeInArea server)).map
        fun code => BitVec.ofInt 16 code.start := by
  rw [Command.serverRelocationPossible, searchAreas]
  simp only [List.findSome?_cons, List.findSome?_nil]
  cases self.placeInArea server (Range.fromInt machine.loram) with
  | some code => rfl
  | none =>
    simp only [Option.none_or]
    cases self.placeInArea server (if machine.type = .c64 then
      ⟨(Range.fromInt machine.hiram).start, server.memtop.toNat⟩
      else Range.fromInt machine.hiram) with
    | some code => rfl
    | none =>
      simp only [Option.none_or]
      cases self.placeInArea server (Range.fromInt machine.screenram) with
      | some code => rfl
      | none => rfl

/-- A place in memory is handed over as it is. -/
theorem toNat_place {start : Int} (hlow : 0 ≤ start) (hhigh : start < 0x10000) :
    ((BitVec.ofInt 16 start).toNat : Int) = start := by
  rw [BitVec.toNat_ofInt]
  omega

/-- What the search finds, in the first area that has a place. -/
theorem relocation_highest {type : MachineType} {address : Addr}
    (h : self.serverRelocationPossible (.ofType type) server = some address) :
    ∃ before area after, searchAreas (.ofType type) server = before ++ area :: after ∧
      (∀ other ∈ before, ¬Room self.range other server.length.toNat) ∧
      Highest self.range area server.length.toNat address.toNat := by
  rw [serverRelocationPossible_eq] at h
  obtain ⟨code, hcode, rfl⟩ := Option.map_eq_some_iff.mp h
  obtain ⟨before, area, after, hareas, hplace, hbefore⟩ := List.findSome?_eq_some_iff.mp hcode
  have hbounds : ∀ other ∈ before ++ area :: after, 0 < other.start ∧ other.InMemory := by
    rw [← hareas]
    exact searchAreas_bounds type
  obtain ⟨hpos, -, hhigh⟩ := hbounds area (by simp)
  have hplaced := placed_placeInArea self server hpos
  rw [hplace] at hplaced
  obtain ⟨start, rfl, hhighest⟩ := hplaced
  refine ⟨before, area, after, hareas, ?_, ?_⟩
  · intro other hother
    have hnone := placed_placeInArea self server
      (hbounds other (List.mem_append_left _ hother)).1
    rw [hbefore other hother] at hnone
    exact hnone
  · have hlow := hhighest.1.low
    have hstop := hhighest.1.high
    have haddress : ((BitVec.ofInt 16 start).toNat : Int) = start :=
      toNat_place (by omega) (by omega)
    show Highest self.range area server.length.toNat (BitVec.ofInt 16 start).toNat
    rw [haddress]
    exact hhighest

theorem relocation_none {type : MachineType}
    (h : self.serverRelocationPossible (.ofType type) server = none) :
    ∀ area ∈ searchAreas (.ofType type) server,
      ¬Room self.range area server.length.toNat := by
  rw [serverRelocationPossible_eq, Option.map_eq_none_iff] at h
  intro area harea
  have hplaced := placed_placeInArea self server
    (searchAreas_bounds type area harea).1
  rw [List.findSome?_eq_none_iff.mp h area harea] at hplaced
  exact hplaced

/-- The loops of the search end. It finds a place if and only if one of the areas has one, and what
it finds is the highest place of the first such area. -/
theorem search_exact (type : MachineType) (self : Command) (server : ServerInfo) :
    (∀ area ∈ searchAreas (.ofType type) server,
      ∃ result, Loops (searchBody self.range area) (lastBlock server area) result) ∧
    ((∃ address, self.serverRelocationPossible (.ofType type) server = some address) ↔
      ∃ area ∈ searchAreas (.ofType type) server, Room self.range area server.length.toNat) ∧
    ∀ address, self.serverRelocationPossible (.ofType type) server = some address →
      ∃ before area after, searchAreas (.ofType type) server = before ++ area :: after ∧
        (∀ other ∈ before, ¬Room self.range other server.length.toNat) ∧
        Highest self.range area server.length.toNat address.toNat := by
  refine ⟨?_, ⟨?_, ?_⟩, fun address h => relocation_highest h⟩
  · intro area harea
    exact ⟨_, loops_placeInArea (searchAreas_bounds type area harea).1⟩
  · rintro ⟨address, h⟩
    obtain ⟨before, area, after, hareas, -, hhighest⟩ := relocation_highest h
    exact ⟨area, by simp [hareas], _, hhighest.1⟩
  · rintro ⟨area, harea, hroom⟩
    cases hsearch : self.serverRelocationPossible (.ofType type) server with
    | some address => exact ⟨address, rfl⟩
    | none => exact absurd hroom (relocation_none hsearch area harea)

end Search

end Xlink.Client
