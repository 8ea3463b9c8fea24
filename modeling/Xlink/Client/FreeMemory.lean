import Xlink.Client.Search

/-!
# The memory of the C64 a server can move to

The upper RAM area, the lower one up to the top of memory that the server reports, and the screen.
`command_server_relocation_possible` calls the upper area `loram` and the lower one `hiram`: it
puts the top of memory to the upper area and has the lower one end where its table does.

`finds_free` says for which data, lengths and tops of memory the search still does what it is for:
in terms of the areas as they are meant (`freeAreas`) and as they are searched. A place is clear of
the data if `range_overlaps` says so, which counts the end of a range in, so that a place that only
touches the data is not a free one here either. What the search finds on the C128 is in `Search`.
-/

namespace Xlink.Client

open Word

section FreeMemory

variable {self : Command} {server : ServerInfo}

/-- The areas that are free for a server. -/
def freeAreas (server : ServerInfo) : List Range :=
  [Range.fromInt c64.hiram, ⟨(Range.fromInt c64.loram).start, server.memtop.toNat⟩,
    Range.fromInt c64.screenram]

theorem freeAreas_eq : freeAreas server =
    [⟨0xc000, 0xd000⟩, ⟨0x0801, server.memtop.toNat⟩, ⟨0x0400, 0x07e7⟩] := rfl

/-- If some area has room for the server, a place in one of them is found; only if none has, the
search fails. -/
structure FindsFree (c : Command) (server : ServerInfo) : Prop where
  found : (∃ area ∈ freeAreas server, Room c.range area server.length.toNat) →
    ∃ address, c.serverRelocationPossible c64 server = some address ∧
      ∃ area ∈ freeAreas server, area.start ≤ address.toNat ∧
        address.toNat + server.length.toNat ≤ area.stop
  failed : c.serverRelocationPossible c64 server = none →
    ∀ area ∈ freeAreas server, ¬Room c.range area server.length.toNat

/-- `loram` has room, and only below the top of memory; or it has none, and `hiram` up to the top of
memory has, or the screen. -/
def SearchMeets (self : Command) (server : ServerInfo) : Prop :=
  let loram : Range := ⟨0x0801, 0x0a00⟩
  let hiram : Range := ⟨0xc000, server.memtop.toNat⟩
  let screen : Range := ⟨0x0400, 0x07e7⟩
  let length := (server.length.toNat : Int)
  (Room self.range loram length ∧
    ∀ start, Clear self.range loram length start → start + length ≤ server.memtop.toNat) ∨
  (¬Room self.range loram length ∧
    (Room self.range hiram length ∨ Room self.range screen length))

/-- What is found, by the area it is in. -/
theorem found_c64 {address : Addr} (h : self.serverRelocationPossible c64 server = some address) :
    Highest self.range ⟨0x0801, 0x0a00⟩ server.length.toNat address.toNat ∨
    (¬Room self.range ⟨0x0801, 0x0a00⟩ server.length.toNat ∧
      (Clear self.range ⟨0xc000, server.memtop.toNat⟩ server.length.toNat address.toNat ∨
        Clear self.range ⟨0x0400, 0x07e7⟩ server.length.toNat address.toNat)) := by
  have h' : self.serverRelocationPossible (.ofType .c64) server = some address := h
  obtain ⟨before, area, after, hareas, hbefore, hhighest⟩ := relocation_highest h'
  rw [searchAreas_c64] at hareas
  cases before with
  | nil =>
    obtain ⟨rfl, -⟩ := List.cons.inj hareas
    exact .inl hhighest
  | cons first before =>
    obtain ⟨rfl, hrest⟩ := List.cons.inj hareas
    refine .inr ⟨hbefore _ List.mem_cons_self, ?_⟩
    have harea : area ∈ List.append before (area :: after) := List.mem_append_right _ (by simp)
    rw [← hrest] at harea
    rcases List.mem_pair.mp harea with rfl | rfl
    · exact .inl hhighest.1
    · exact .inr hhighest.1

/-- A place that is found is in a free area unless it is in `loram`, over the top of memory. -/
theorem place_free {address : Addr} (hmeets : SearchMeets self server)
    (h : self.serverRelocationPossible c64 server = some address) :
    ∃ area ∈ freeAreas server, area.start ≤ address.toNat ∧
      address.toNat + server.length.toNat ≤ area.stop := by
  rw [freeAreas_eq]
  rcases found_c64 h with ⟨hclear, -⟩ | ⟨hnone, hclear | hclear⟩
  · rcases hmeets with ⟨-, hbelow⟩ | ⟨hnone, -⟩
    · exact ⟨⟨0x0801, server.memtop.toNat⟩, by simp, hclear.low, hbelow _ hclear⟩
    · exact absurd ⟨_, hclear⟩ hnone
  · have hlow : (0x0801 : Int) ≤ 0xc000 := by decide
    exact ⟨⟨0x0801, server.memtop.toNat⟩, by simp, hlow.trans hclear.low, hclear.high⟩
  · exact ⟨⟨0x0400, 0x07e7⟩, by simp, hclear.low, hclear.high⟩

/-- A place in `loram` that is in a free area is below the top of memory. -/
theorem below_memtop {start : Int} (hclear : Clear self.range ⟨0x0801, 0x0a00⟩ server.length.toNat
    start) (hfree : ∃ area ∈ freeAreas server, area.start ≤ start ∧
      start + server.length.toNat ≤ area.stop) : start + server.length.toNat ≤ server.memtop.toNat := by
  obtain ⟨hlow, hhigh, -⟩ := hclear
  simp only at hlow hhigh
  obtain ⟨area, harea, hin, hin'⟩ := hfree
  rw [freeAreas_eq] at harea
  simp only [List.mem_cons, List.not_mem_nil, or_false] at harea
  rcases harea with rfl | rfl | rfl
  · simp only at hin
    omega
  · exact hin'
  · simp only at hin'
    omega

/-- The search finds what is free if and only if nothing is, or what it looks at is. -/
theorem finds_free (self : Command) (server : ServerInfo) : FindsFree self server ↔
    (∀ area ∈ freeAreas server, ¬Room self.range area server.length.toNat) ∨
      SearchMeets self server := by
  constructor
  · intro h
    by_cases hroom : ∃ area ∈ freeAreas server, Room self.range area server.length.toNat
    · right
      obtain ⟨address, hfound, hfree⟩ := h.found hroom
      rcases found_c64 hfound with ⟨hclear, hhighest⟩ | ⟨hnone, hclear⟩
      · refine .inl ⟨⟨_, hclear⟩, fun start hstart => ?_⟩
        have hle := hhighest start hstart
        have hbelow := below_memtop hclear hfree
        omega
      · exact .inr ⟨hnone, hclear.imp (fun h => ⟨_, h⟩) fun h => ⟨_, h⟩⟩
    · left
      intro area harea harea'
      exact hroom ⟨area, harea, harea'⟩
  · rintro (hnone | hmeets)
    · exact ⟨fun ⟨area, harea, hroom⟩ => absurd hroom (hnone area harea), fun _ => hnone⟩
    · have hsome : ∃ address, self.serverRelocationPossible c64 server = some address := by
        cases hsearch : self.serverRelocationPossible c64 server with
        | some address => exact ⟨address, rfl⟩
        | none =>
          have hsearch' : self.serverRelocationPossible (.ofType .c64) server = none := hsearch
          have hnone := relocation_none hsearch'
          rw [searchAreas_c64] at hnone
          simp only [List.forall_mem_cons] at hnone
          obtain ⟨hloram, hhiram, hscreen, -⟩ := hnone
          rcases hmeets with ⟨hroom, -⟩ | ⟨-, hroom | hroom⟩
          · exact absurd hroom hloram
          · exact absurd hroom hhiram
          · exact absurd hroom hscreen
      obtain ⟨address, haddress⟩ := hsome
      refine ⟨fun _ => ⟨address, haddress, place_free hmeets haddress⟩, fun hnone => ?_⟩
      rw [haddress] at hnone
      cases hnone

/-- Data from `$0400` to `$2000`, a server of `$02e9` bytes, BASIC up to `$a000`: there is room at
`$c000`, and the search fails. -/
theorem free_memory_missed : ¬∀ (self : Command) (server : ServerInfo), FindsFree self server := by
  intro h
  let self : Command := { Command.new [] with start := 0x0400, stop := 0x2000 }
  let server : ServerInfo := ⟨serverTypeRam, 0x0801#16, 0x0aea#16, 0x02e9#16, 0xa000#16⟩
  have hroom : Room self.range ⟨0xc000, 0xd000⟩ server.length.toNat :=
    ⟨0xc000, by decide, by decide, by decide⟩
  obtain ⟨address, hfound, -⟩ := (h self server).found
    ⟨_, by rw [freeAreas_eq]; exact List.mem_cons_self, hroom⟩
  have hlength : (server.length.toNat : Int) = 0x02e9 := rfl
  have hmemtop : (server.memtop.toNat : Int) = 0xa000 := rfl
  rcases found_c64 hfound with ⟨hclear, -⟩ | ⟨-, hclear | hclear⟩
  · have hlow : (0x0801 : Int) ≤ address.toNat := hclear.low
    have hhigh : (address.toNat : Int) + server.length.toNat ≤ 0x0a00 := hclear.high
    omega
  · have hlow : (0xc000 : Int) ≤ address.toNat := hclear.low
    have hhigh := hclear.high
    simp only at hhigh
    omega
  · have hlow : (0x0400 : Int) ≤ address.toNat := hclear.low
    have hhigh : (address.toNat : Int) + server.length.toNat ≤ 0x07e7 := hclear.high
    have hoverlaps := (Range.overlaps_iff_of_le (r := block server.length.toNat address.toNat)
      (s := self.range) (by simp only [block]; omega) (by decide)).mpr
      ⟨show (address.toNat : Int) ≤ 0x2000 by omega,
        show (0x0400 : Int) ≤ address.toNat + server.length.toNat by omega⟩
    rw [hclear.clear] at hoverlaps
    cases hoverlaps

end FreeMemory

end Xlink.Client
