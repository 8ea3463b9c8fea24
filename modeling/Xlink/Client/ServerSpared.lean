import Xlink.Client.RelocateApart

/-!
# Writes that spare the server

A RAM server is in the memory the commands write to. `command_load`, `command_poke` and
`command_fill` look for an overlap of their range with the server and have it relocated;
`command_benchmark` has it relocated in any case, and looks at no range. The ranges that are looked
at are ints, the addresses that are written go around at `$10000`, and this is where the two
differ.

When a write spares the server is said of the command, the file and what the server reports: of the
range that is looked at, of the place the search has for the server, in closed form, and of the
number of bytes that are sent. The search keeps its place clear of the range with the whole length
of the server; what is left to ask of a write there is that it does not go around to it.
-/

namespace Xlink.Client

open Word

/-! ## Writes -/

/-- Address and number of the bytes that a call writes. `xlink_load` hands its size to `send`, which
takes an int and sends nothing of a negative one. The relocation is the server's own doing. -/
def Issue.written : Issue → Option (Int × Int)
  | .load _ _ address size _ => some (address, toInt size)
  | .poke _ _ address _ => some (address, 1)
  | _ => none

/-- Where the server starts after some calls. -/
def serverStart (env : Env) (server : ServerInfo) : List Issue → Int
  | [] => server.start.toNat
  | .relocate address :: issues =>
    serverStart env (if env.relocate then { server with start := address } else server) issues
  | _ :: issues => serverStart env server issues

/-- No address that is written is one of the server's. -/
def Spares (start length address size : Int) : Prop :=
  ∀ i, 0 ≤ i → i < size →
    ¬(start ≤ (address + i) % 0x10000 ∧ (address + i) % 0x10000 < start + length)

section Spares

variable {start length address size stop : Int}

/-- A write of which the bytes are in a range, up to `stop`, that does not have the start of the
server in it: it spares the server unless it goes around to it, or begins behind its start and not
behind its length. -/
theorem spares_iff (hstart : 0 ≤ start) (hhigh : start < 0x10000) (hlength : 0 ≤ length)
    (haddress : 0 ≤ address) (htop : address ≤ 0x10000) (hclear : ¬(address ≤ start ∧ start ≤ stop))
    (hsize : 0 < size → address + size ≤ stop + 1 ∨ 0x20000 ≤ size) :
    Spares start length address size ↔ length = 0 ∨ size ≤ 0 ∨
      (address + size ≤ 0x10000 + start ∧
        (start < address → address < 0x10000 → start + length ≤ address)) := by
  constructor
  · intro h
    by_cases hempty : length = 0 ∨ size ≤ 0
    · omega
    · have hfirst := h 0 le_rfl (by omega)
      rw [add_zero] at hfirst
      refine .inr (.inr ⟨?_, ?_⟩)
      · by_contra hround
        have hit := h (0x10000 + start - address) (by omega) (by omega)
        omega
      · intro hbehind hlow
        omega
  · rintro (hzero | hzero | ⟨hround, hbehind⟩) i hi hlt ⟨hin, hin'⟩
    · omega
    · omega
    · omega

/-- Where the whole block of the server is clear of the range, it only has to not go around. -/
theorem spares_iff_of_clear (hstart : 0 ≤ start) (hhigh : start < 0x10000) (hlength : 0 ≤ length)
    (haddress : 0 ≤ address) (htop : address ≤ 0x10000)
    (hclear : (block length start).overlaps ⟨address, stop⟩ = false)
    (hsize : 0 < size → address + size ≤ stop + 1 ∨ 0x20000 ≤ size) :
    Spares start length address size ↔
      length = 0 ∨ size ≤ 0 ∨ address + size ≤ 0x10000 + start := by
  rw [block_clear_iff hlength] at hclear
  simp only at hclear
  rw [spares_iff hstart hhigh hlength haddress htop (by split at hclear <;> omega) hsize]
  by_cases hsent : 0 < size
  · have hbytes := hsize hsent
    split at hclear
    next => omega
    next => omega
  · omega

/-- A write that stays within memory. -/
theorem spares_iff_disjoint (hstart : 0 ≤ start) (hlength : 0 ≤ length) (haddress : 0 ≤ address)
    (hsize : 0 < size) (htop : address + size ≤ 0x10000) :
    Spares start length address size ↔
      length = 0 ∨ address + size ≤ start ∨ start + length ≤ address := by
  constructor
  · intro h
    by_contra hmeet
    have hit := h (max start address - address) (by omega) (by omega)
    omega
  · rintro h i hi hlt ⟨hin, hin'⟩
    omega

theorem spares_one : Spares start length address 1 ↔
    ¬(start ≤ address % 0x10000 ∧ address % 0x10000 < start + length) := by
  constructor
  · intro h
    have hfirst := h 0 le_rfl (by decide)
    rw [add_zero] at hfirst
    exact hfirst
  · intro h i hi hlt
    obtain rfl : i = 0 := by omega
    rw [add_zero]
    exact h

end Spares

/-! ## When a write spares the server -/

/-- The bytes that are sent for a checked command, by the int that `send` takes. -/
def Command.sent (env : Env) (self c : Command) : CommandId → Int
  | .load | .run =>
    match self.argv.head?.bind env.file with
    | some file => toInt (self.loadSize env file)
    | none => 0
  | .fill => c.range.size
  | .poke => 1
  | .save | .benchmark => 0

/-- A write from the start of a checked command on, of one byte at least. If the server is in the
way it is moved, and the write must not go around to its new place. If it is not in the way it
stays: then the write must not go around to it either, nor begin between its start and its length,
which the look at the range does not use. A poke may name any int for an address. -/
def CheckSpares (machine : Machine) (server : ServerInfo) (c : Command) (size : Int) : Prop :=
  if c.requiresServerRelocation server = true then
    ∀ place, foundPlace c.range server.length.toNat (searchAreas machine server) = some place →
      c.start + size ≤ 0x10000 + place
  else if 0 ≤ c.start ∧ c.start ≤ 0x10000 then
    c.start + size ≤ 0x10000 + server.start.toNat ∧ (server.start.toNat < c.start →
      c.start < 0x10000 → (server.start.toNat : Int) + server.length.toNat ≤ c.start)
  else ¬(server.start.toNat ≤ c.start % 0x10000 ∧
    c.start % 0x10000 < (server.start.toNat : Int) + server.length.toNat)

/-- Where a benchmark finds the server. -/
def benchmarkPlace (machine : Machine) (env : Env) (server : ServerInfo) : Addr :=
  if env.relocate then machine.freeRamArea else server.start

/-- When the writes of a command spare a server. The range of a benchmark is not looked at, so it
has to miss the server by itself. -/
def SparesWhen (machine : Machine) (env : Env) (self : Command) (server : ServerInfo) :
    CommandId → Prop
  | .benchmark => server.length.toNat = 0 ∨
    (self.benchmarkRange machine).stop ≤ (benchmarkPlace machine env server).toNat ∨
    ((benchmarkPlace machine env server).toNat : Int) + server.length.toNat ≤
      (self.benchmarkRange machine).start
  | id => ∀ c, self.checked machine env id = some c →
    server.length.toNat = 0 ∨ self.sent env c id ≤ 0 ∨
      CheckSpares machine server c (self.sent env c id)

/-! ## The place of a checked command -/

section Check

variable {type : MachineType} {env : Env} {c : Command} {server : ServerInfo} {size : Int}

/-- What is found is clear of the data, with its whole length. -/
theorem foundPlace_clear {data : Range} {length place : Int} {areas : List Range}
    (hlength : 0 ≤ length) (h : foundPlace data length areas = some place) :
    (block length place).overlaps data = false := by
  obtain ⟨area, -, harea⟩ := List.exists_of_findSome?_eq_some h
  simp only at harea
  split at harea
  · cases harea
    exact (highestClear_spec data _ hlength).2.1
  · cases harea

/-- Where a RAM server is when a check has gone well: at the place that is found, if it was in the
way, and where it was otherwise. -/
theorem serverStart_serverUsable (hserver : env.identify = some server)
    (husable : (c.serverUsable (.ofType type) env).1 = true) :
    if c.requiresServerRelocation server = true then
      ∃ address : Addr, foundPlace c.range server.length.toNat
          (searchAreas (.ofType type) server) = some (address.toNat : Int) ∧
        serverStart env server (c.serverUsable (.ofType type) env).2 = address.toNat
    else serverStart env server (c.serverUsable (.ofType type) env).2 = server.start.toNat := by
  simp only [Command.serverUsable, hserver] at husable ⊢
  split
  next hrequires =>
    rw [if_pos hrequires] at husable
    rw [← relocation_found]
    cases hplace : c.serverRelocationPossible (.ofType type) server with
    | none =>
      rw [hplace] at husable
      cases husable
    | some address =>
      rw [hplace] at husable
      have hrelocate : env.relocate = true := husable
      refine ⟨address, rfl, ?_⟩
      show serverStart env server [.relocate address] = _
      rw [serverStart, if_pos hrelocate]
      rfl
  next hrequires => rfl

/-- A RAM server that is not in the way of a command does not start in its range. -/
theorem start_of_not_requires (hram : server.type = serverTypeRam)
    (h : ¬c.requiresServerRelocation server = true) :
    ¬(c.start ≤ server.start.toNat ∧ (server.start.toNat : Int) ≤ c.stop) := by
  have hne : server.type ≠ serverTypeRom := by
    rw [hram]
    decide
  have hclear : c.range.overlaps ⟨server.start.toNat, server.stop.toNat⟩ = false := by
    simpa [Command.requiresServerRelocation, hne] using h
  obtain ⟨-, -, -, hstart, -⟩ := Range.overlaps_eq_false_iff.mp hclear
  rintro ⟨hin, hin'⟩
  rcases hstart with hstart | hstart
  · exact absurd hin (not_le.mpr hstart)
  · exact absurd hin' (not_le.mpr hstart)

/-- An address that a server is in the way of is in memory. -/
theorem start_of_requires (hstop : c.stop = c.start)
    (h : c.requiresServerRelocation server = true) : 0 ≤ c.start ∧ c.start < 0x10000 := by
  have hstart := server.start.isLt
  have hend := server.stop.isLt
  rw [Command.requiresServerRelocation, Command.range, hstop, Bool.and_eq_true] at h
  have hmeets := h.2
  simp only [Range.overlaps, Bool.or_eq_true, Bool.and_eq_true, decide_eq_true_eq,
    Range.mk.injEq] at hmeets
  omega

/-- What is sent for a checked command is in its range, or is more than memory has. Only a poke may
be out of memory. -/
structure Sends (c : Command) (size : Int) : Prop where
  within : 0 < size → c.start + size ≤ c.stop + 1 ∨ 0x20000 ≤ size
  start : (0 ≤ c.start ∧ c.start ≤ 0x10000) ∨ (c.stop = c.start ∧ size = 1)

/-- A write behind a check that has gone well. -/
theorem spares_checked (hserver : env.identify = some server)
    (hram : server.type = serverTypeRam)
    (husable : (c.serverUsable (.ofType type) env).1 = true) (hsends : Sends c size) :
    Spares (serverStart env server (c.serverUsable (.ofType type) env).2) server.length.toNat
        c.start size ↔
      server.length.toNat = 0 ∨ size ≤ 0 ∨ CheckSpares (.ofType type) server c size := by
  have hplace := serverStart_serverUsable hserver husable
  have hlength : (0 : Int) ≤ server.length.toNat := Int.natCast_nonneg _
  have hcast : (server.length.toNat : Int) = 0 ↔ server.length.toNat = 0 := by omega
  rw [CheckSpares]
  split at hplace
  next hrequires =>
    obtain ⟨address, hfound, hstart⟩ := hplace
    have hbound := address.isLt
    have hrange : 0 ≤ c.start ∧ c.start ≤ 0x10000 := by
      rcases hsends.start with h | ⟨hstop, -⟩
      · exact h
      · have hin := start_of_requires hstop hrequires
        omega
    rw [if_pos hrequires, hfound, hstart, spares_iff_of_clear (by omega) (by omega) hlength
      hrange.1 hrange.2 (foundPlace_clear hlength hfound) hsends.within, hcast]
    constructor
    · rintro (h | h | h)
      · exact .inl h
      · exact .inr (.inl h)
      · refine .inr (.inr fun place hplace => ?_)
        rw [← Option.some.inj hplace]
        exact h
    · rintro (h | h | h)
      · exact .inl h
      · exact .inr (.inl h)
      · exact .inr (.inr (h _ rfl))
  next hrequires =>
    have hbound := server.start.isLt
    rw [if_neg hrequires, hplace]
    split
    next hrange =>
      rw [spares_iff (by omega) (by omega) hlength hrange.1 hrange.2
        (start_of_not_requires hram hrequires) hsends.within, hcast]
    next hrange =>
      obtain ⟨-, rfl⟩ := hsends.start.resolve_left hrange
      rw [spares_one]
      omega

end Check

/-! ## The write of each command -/

/-- Calls of which one writes, after `before`. -/
def OnlyWrite (issues before : List Issue) (address size : Int) : Prop :=
  ∃ issue after, issues = before ++ issue :: after ∧ issue.written = some (address, size) ∧
    (∀ other ∈ before, other.written = none) ∧ ∀ other ∈ after, other.written = none

theorem OnlyWrite.unique {issues before before' after' : List Issue} {issue' : Issue}
    {address size : Int} {write : Int × Int} (h : OnlyWrite issues before address size)
    (hissues : issues = before' ++ issue' :: after') (hwritten : issue'.written = some write) :
    before' = before ∧ write = (address, size) := by
  obtain ⟨issue, after, rfl, hissue, hbefore, hafter⟩ := h
  induction before generalizing before' with
  | nil =>
    cases before' with
    | nil =>
      cases hissues
      exact ⟨rfl, Option.some.inj (hwritten.symm.trans hissue)⟩
    | cons first before' =>
      obtain ⟨rfl, hrest⟩ := List.cons.inj hissues
      have hnone := hafter issue' (by rw [hrest]; simp)
      rw [hnone] at hwritten
      cases hwritten
  | cons first before ih =>
    cases before' with
    | nil =>
      obtain ⟨rfl, -⟩ := List.cons.inj hissues
      rw [hbefore first (List.mem_cons_self ..)] at hwritten
      cases hwritten
    | cons first' before' =>
      obtain ⟨rfl, hrest⟩ := List.cons.inj hissues
      obtain ⟨hsame, hwrite⟩ := ih hrest fun other hother =>
        hbefore other (List.mem_cons_of_mem _ hother)
      exact ⟨by rw [hsame], hwrite⟩

section Commands

variable {machine : Machine} {env : Env} {self : Command}

theorem written_nil : ∀ other ∈ ([] : List Issue), other.written = none :=
  fun _ h => absurd h List.not_mem_nil

/-- A write behind a look at the server, and calls after it that write nothing. -/
theorem Guarded.onlyWrite {c : Command} {call issue : Issue} {issues after : List Issue}
    {address size : Int} {write : Int × Int} (h : Guarded (c.serverUsable machine env) call issues)
    (hcall : call.written = some (address, size)) (hissue : issue ∈ issues)
    (hwritten : issue.written = some write) (hafter : ∀ other ∈ after, other.written = none) :
    (c.serverUsable machine env).1 = true ∧
      OnlyWrite (issues ++ after) (c.serverUsable machine env).2 address size := by
  obtain ⟨moved, rfl⟩ | ⟨-, husable, hissues⟩ := h.mem (fun _ h => mem_serverUsable h) hissue
  · cases hwritten
  · refine ⟨husable, call, after, ?_, hcall, ?_, hafter⟩
    · rw [hissues, List.append_assoc]
      rfl
    · intro other hother
      obtain ⟨moved, rfl⟩ := mem_serverUsable hother
      rfl

/-- The number of bytes of a load without an end, as an int. -/
theorem toInt_loadSize_open {file : List Byte} (hstop : self.stop = -1) :
    toInt (self.loadSize env file) = toInt (file.length - (self.loadFrom env file).2) := by
  have hmod : ∀ x : Int, toInt (x % 2 ^ 32) = toInt x := fun _ => Int.emod_bmod _ _
  rw [← hmod, loadSize_open hstop, hmod]

/-- The range of a load that is looked at has the bytes in it that are sent, unless there are more
than memory has. -/
theorem sends_load {c : Command} {file : List Byte} (hself : Parsed self)
    (hstart : c.start = (self.loadFrom env file).1)
    (hstop : c.stop = (self.loadRange env file).stop) :
    Sends c (toInt (self.loadSize env file)) := by
  obtain ⟨hlow, hhigh⟩ := loadFrom_start env file hself
  refine ⟨fun hsent => ?_, .inl (by rw [hstart]; exact ⟨hlow, hhigh⟩)⟩
  rw [hstart, hstop]
  by_cases hopen : self.stop = -1
  · have hrange : (self.loadRange env file).stop =
        toInt ((self.loadFrom env file).1 + (file.length - (self.loadFrom env file).2)) := by
      simp only [Command.loadRange, if_pos hopen]
    rw [toInt_loadSize_open hopen] at hsent ⊢
    rw [hrange]
    have hmod := toInt_emod ((self.loadFrom env file).1 +
      (file.length - (self.loadFrom env file).2))
    have hbounds := toInt_bounds ((self.loadFrom env file).1 +
      (file.length - (self.loadFrom env file).2))
    have hmod' := toInt_emod (file.length - (self.loadFrom env file).2)
    have hbounds' := toInt_bounds (file.length - (self.loadFrom env file).2)
    omega
  · obtain ⟨hsize, hless, htop⟩ := loadSize_closed env file hself hopen
    have hskip := loadFrom_skip env file hself
    have hrange : (self.loadRange env file).stop = self.stop := by
      simp only [Command.loadRange, if_neg hopen]
    have hint : toInt (self.loadSize env file) = self.loadSize env file :=
      toInt_of_small (by omega) (by omega)
    rw [hint, hsize, hrange]
    omega

/-- The write of a load that is not forced, whatever comes after it. -/
theorem writes_load {id : CommandId} (hid : id = .load ∨ id = .run) (hself : Parsed self)
    (hforce : self.force = false) {issue : Issue} {write : Int × Int}
    (hissue : issue ∈ (self.load machine env).issues) (hwritten : issue.written = some write)
    {after : List Issue} (hafter : ∀ other ∈ after, other.written = none) :
    ∃ c, self.checkedLoad machine env = some c ∧ Sends c (self.sent env c id) ∧
      (c.serverUsable machine env).1 = true ∧
      OnlyWrite ((self.load machine env).issues ++ after) (c.serverUsable machine env).2 c.start
        (self.sent env c id) := by
  obtain h | ⟨filename, file, hargv, hfile, h⟩ := load_issues machine env self
  · rw [h] at hissue
    cases hissue
  · have hkept : ∀ c : Command, (c.applyLoadMemoryAndBank machine).force = c.force ∧
        (c.applyLoadMemoryAndBank machine).stop = c.stop := by
      intro c
      unfold Command.applyLoadMemoryAndBank
      split
      · split <;> exact ⟨rfl, rfl⟩
      · exact ⟨rfl, rfl⟩
    have hstart : ((self.loadRange env file).applyLoadMemoryAndBank machine).start =
      (self.loadFrom env file).1 := start_applyLoadMemoryAndBank ..
    have hnot : ((self.loadRange env file).applyLoadMemoryAndBank machine).force = false :=
      (hkept _).1.trans hforce
    have hsent : ∀ c, self.sent env c id = toInt (self.loadSize env file) := by
      intro c
      rcases hid with rfl | rfl <;> simp only [Command.sent, hargv, Option.bind_some, hfile]
    have hmod : toInt (self.loadSize env file % 2 ^ 32) = toInt (self.loadSize env file) :=
      Int.emod_bmod _ _
    refine ⟨(self.loadRange env file).applyLoadMemoryAndBank machine, ?_, ?_, ?_⟩
    · obtain ⟨rest, hargv⟩ := List.head?_eq_some_iff.mp hargv
      simp only [Command.checkedLoad, hargv, hfile]
      rw [if_neg (by rw [hnot]; decide)]
    · rw [hsent]
      exact sends_load hself hstart (hkept _).2
    · rw [Command.loadUsable, if_neg (by rw [hnot]; decide)] at h
      refine h.onlyWrite ?_ hissue hwritten hafter
      rw [hsent, hstart, ← hmod]
      rfl

theorem writes_poke {issue : Issue} {write : Int × Int}
    (hissue : issue ∈ (self.poke machine env).issues) (hwritten : issue.written = some write) :
    ∃ c, self.checkedPoke machine = some c ∧ Sends c 1 ∧ (c.serverUsable machine env).1 = true ∧
      OnlyWrite (self.poke machine env).issues (c.serverUsable machine env).2 c.start 1 := by
  obtain h | ⟨poked, value, hchecked, hstop, h⟩ := poke_issues machine env self
  · rw [h] at hissue
    cases hissue
  · obtain ⟨husable, honly⟩ := h.onlyWrite rfl hissue hwritten written_nil
    rw [List.append_nil] at honly
    exact ⟨poked, hchecked, ⟨fun _ => .inl (by omega), .inr ⟨hstop, rfl⟩⟩, husable, honly⟩

theorem writes_fill {issue : Issue} {write : Int × Int}
    (hissue : issue ∈ (self.fill machine env).issues) (hwritten : issue.written = some write) :
    ∃ c, self.checkedFill machine = some c ∧ Sends c c.range.size ∧
      (c.serverUsable machine env).1 = true ∧
      OnlyWrite (self.fill machine env).issues (c.serverUsable machine env).2 c.start
        c.range.size := by
  obtain h | ⟨text, filled, value, -, hvalid, hchecked, hrange, h⟩ := fill_issues machine env self
  · rw [h] at hissue
    cases hissue
  · rw [← hrange] at hvalid
    obtain ⟨h₀, h₁, h₂⟩ := Range.valid_iff.mp hvalid
    have hsize : filled.range.size = filled.stop - filled.start :=
      toInt_of_small (by omega) (by omega)
    have hmod : toInt (filled.range.size % 2 ^ 32) = filled.range.size := by
      rw [Range.size_of_valid hvalid]
      rfl
    obtain ⟨husable, honly⟩ := h.onlyWrite rfl hissue hwritten written_nil
    rw [List.append_nil, hmod] at honly
    refine ⟨filled, hchecked, ⟨fun _ => .inl ?_, .inl ⟨h₀, h₁.trans h₂⟩⟩, husable, honly⟩
    omega

theorem writes_benchmark {issue : Issue} (hissue : issue ∈ (self.benchmark machine env).issues) :
    OnlyWrite (self.benchmark machine env).issues (Command.benchmarkRelocation machine env)
      (self.benchmarkRange machine).start
      (toInt ((self.benchmarkRange machine).size % 2 ^ 32)) := by
  obtain h | ⟨memory, bank, payload, after, -, hafter, h⟩ := benchmark_issues machine env self
  · rw [h] at hissue
    cases hissue
  · refine ⟨_, after, h, rfl, ?_, ?_⟩
    · intro other hother
      obtain ⟨address, rfl⟩ := mem_benchmarkRelocation hother
      rfl
    · intro other hother
      rw [hafter other hother]
      rfl

theorem written_save {issue : Issue} (hissue : issue ∈ (self.save machine env).issues) :
    issue.written = none := by
  obtain h | ⟨saved, memory, bank, -, h⟩ := save_issues machine env self
  · rw [h] at hissue
    cases hissue
  · rw [h] at hissue
    rw [List.mem_singleton.mp hissue]
    rfl

/-- The write of a run is that of its load. -/
theorem writes_run (hself : Parsed self) (hforce : self.force = false) {issue : Issue}
    {write : Int × Int} (hissue : issue ∈ (self.run machine env).issues)
    (hwritten : issue.written = some write) :
    ∃ c, self.checked machine env .run = some c ∧ Sends c (self.sent env c .run) ∧
      (c.serverUsable machine env).1 = true ∧
      OnlyWrite (self.run machine env).issues (c.serverUsable machine env).2 c.start
        (self.sent env c .run) := by
  by_cases hone : self.argv.length = 1
  · obtain ⟨last, hlast', h⟩ := run_issues machine env self
    have hlast : ∀ other ∈ last, other.written = none := by
      intro other hother
      obtain rfl | ⟨memory, bank, address, rfl⟩ := hlast' other hother
      · rfl
      · rfl
    have hnot : issue ∉ last := by
      intro hin
      rw [hlast issue hin] at hwritten
      cases hwritten
    rcases h with h | h
    · rw [h] at hissue ⊢
      rw [Command.checked, if_pos hone]
      exact writes_load (.inr rfl) hself hforce ((List.mem_append.mp hissue).resolve_right hnot)
        hwritten hlast
    · rw [h] at hissue
      exact absurd hissue hnot
  · rw [Command.run, if_neg hone] at hissue
    rw [List.mem_singleton.mp hissue] at hwritten
    cases hwritten

/-- The write of a command that is not a benchmark: behind a check that has gone well. -/
theorem writes_checked {id : CommandId} (hid : id ≠ .benchmark) (hself : Parsed self)
    (hforce : self.force = false) {issue : Issue} {write : Int × Int}
    (hissue : issue ∈ (self.execute machine env id).issues)
    (hwritten : issue.written = some write) :
    ∃ c, self.checked machine env id = some c ∧ Sends c (self.sent env c id) ∧
      (c.serverUsable machine env).1 = true ∧
      OnlyWrite (self.execute machine env id).issues (c.serverUsable machine env).2 c.start
        (self.sent env c id) := by
  cases id with
  | load =>
    have h := writes_load (.inl rfl) hself hforce hissue hwritten written_nil
    rwa [List.append_nil] at h
  | run => exact writes_run hself hforce hissue hwritten
  | save =>
    rw [written_save hissue] at hwritten
    cases hwritten
  | poke => exact writes_poke hissue hwritten
  | fill => exact writes_fill hissue hwritten
  | benchmark => exact absurd rfl hid

end Commands

/-! ## The main result -/

section Spared

variable {type : MachineType} {env : Env} {self : Command} {server : ServerInfo}

theorem sparesWhen_checked {machine : Machine} {id : CommandId} {c : Command}
    (hid : id ≠ .benchmark) (hchecked : self.checked machine env id = some c) :
    SparesWhen machine env self server id ↔ server.length.toNat = 0 ∨ self.sent env c id ≤ 0 ∨
      CheckSpares machine server c (self.sent env c id) := by
  have hall : SparesWhen machine env self server id ↔ ∀ c, self.checked machine env id = some c →
      server.length.toNat = 0 ∨ self.sent env c id ≤ 0 ∨
        CheckSpares machine server c (self.sent env c id) := by
    cases id with
    | benchmark => exact absurd rfl hid
    | load => rfl
    | run => rfl
    | save => rfl
    | poke => rfl
    | fill => rfl
  rw [hall, hchecked]
  constructor
  · intro h
    exact h c rfl
  · intro h c' hc
    rw [← Option.some.inj hc]
    exact h

/-- The write of a benchmark, wherever the server has been moved. -/
theorem spared_benchmark (hself : Parsed self) (hserver : env.identify = some server)
    (hram : server.type = serverTypeRam) :
    Spares (serverStart env server (Command.benchmarkRelocation (.ofType type) env))
        server.length.toNat (self.benchmarkRange (.ofType type)).start
        (toInt ((self.benchmarkRange (.ofType type)).size % 2 ^ 32)) ↔
      SparesWhen (.ofType type) env self server .benchmark := by
  obtain ⟨h₀, h₁, h₂⟩ := benchmarkRange_bounds type hself
  have hplace : serverStart env server (Command.benchmarkRelocation (.ofType type) env) =
      (benchmarkPlace (.ofType type) env server).toNat := by
    simp only [Command.benchmarkRelocation, hserver, if_pos hram, serverStart, benchmarkPlace]
    split <;> rfl
  have hlow : (0 : Int) ≤ (benchmarkPlace (.ofType type) env server).toNat := Int.natCast_nonneg _
  have hsize : toInt ((self.benchmarkRange (.ofType type)).stop -
      (self.benchmarkRange (.ofType type)).start) = (self.benchmarkRange (.ofType type)).stop -
        (self.benchmarkRange (.ofType type)).start := toInt_of_small (by omega) (by omega)
  rw [hplace, Range.size_of_valid (Range.valid_iff.mpr ⟨h₀, h₁.le, h₂⟩), hsize,
    spares_iff_disjoint hlow (Int.natCast_nonneg _) h₀ (by omega) (by omega), SparesWhen]
  omega

end Spared

/-- **A write of a command that is not forced spares the RAM server, where it is by then, exactly if
`SparesWhen` says so**, for any options that are accepted, any arguments, files and answers. -/
theorem server_spared {type : MachineType} {env : Env} {id : CommandId} {argv : List (List Char)}
    {options : List Opt} {self : Command} {server : ServerInfo} {before after : List Issue}
    {issue : Issue} {address size : Int}
    (hparse : (Command.new argv).parseOptions options = some self) (hforce : self.force = false)
    (hserver : env.identify = some server) (hram : server.type = serverTypeRam)
    (hissues : (self.execute (.ofType type) env id).issues = before ++ issue :: after)
    (hwritten : issue.written = some (address, size)) :
    Spares (serverStart env server before) server.length.toNat address size ↔
      SparesWhen (.ofType type) env self server id := by
  have hself : Parsed self := parsed_parseOptions (parsed_new argv) hparse
  have hmem : issue ∈ (self.execute (.ofType type) env id).issues := by
    rw [hissues]
    simp
  by_cases hid : id = .benchmark
  · subst hid
    obtain ⟨hbefore, heq⟩ := (writes_benchmark hmem).unique hissues hwritten
    cases heq
    rw [hbefore]
    exact spared_benchmark hself hserver hram
  · obtain ⟨c, hchecked, hsends, husable, honly⟩ := writes_checked hid hself hforce hmem hwritten
    obtain ⟨hbefore, heq⟩ := honly.unique hissues hwritten
    cases heq
    rw [hbefore, sparesWhen_checked hid hchecked]
    exact spares_checked hserver hram husable hsends

/-- A RAM server that reports `$0900-$0A00`, and a relocation that succeeds. -/
def ramServer : ServerInfo := ⟨serverTypeRam, 0x0900#16, 0x0a00#16, 0x0100#16, 0xa000#16⟩

def ramEnv (file : List Char → Option (List Byte)) : Env :=
  { romEnv file with identify := some ramServer }

/-- A byte is loaded over the server, which is moved down from the byte. -/
theorem server_spared_byte :
    Spares (serverStart (ramEnv fun _ => some [0x01#8]) ramServer [.relocate 0x08fd#16]) 0x100
        0x09fe 1 ↔
      SparesWhen (.ofType .c64) (ramEnv fun _ => some [0x01#8])
        ⟨0xff#8, 0xff#8, 0x09fe, -1, -1, false, [['f']]⟩ ramServer .load :=
  @server_spared .c64 (ramEnv fun _ => some [0x01#8]) .load [['f']] [.address "0x09fe".toList]
    ⟨0xff#8, 0xff#8, 0x09fe, -1, -1, false, [['f']]⟩ ramServer [.relocate 0x08fd#16] []
    (.load 0x37#8 0x00#8 0x09fe 1 [0x01#8]) _ _ rfl rfl rfl rfl rfl rfl

/-- A benchmark of a byte at `$C000` moves the server there and then writes the byte over it. -/
theorem benchmark_over_server :
    (Command.new []).parseOptions [.address "0xc000-0xc001".toList] =
        some ⟨0xff#8, 0xff#8, 0xc000, 0xc001, -1, false, []⟩ ∧
      (Command.execute (.ofType .c64) (ramEnv fun _ => none)
        ⟨0xff#8, 0xff#8, 0xc000, 0xc001, -1, false, []⟩ .benchmark).issues =
          [.relocate 0xc000#16] ++ [.load 0x37#8 0x00#8 0xc000 1 [0x00#8],
            .save 0x37#8 0x00#8 0xc000 1] ∧
      ¬Spares (serverStart (ramEnv fun _ => none) ramServer [.relocate 0xc000#16]) 0x100
        0xc000 1 := by
  refine ⟨rfl, rfl, ?_⟩
  rw [spares_one]
  decide

end Xlink.Client
