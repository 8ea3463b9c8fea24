import Xlink.Client.Relocate
import Xlink.Client.Search
import Xlink.Client.WellFormed

/-!
# Relocations over the running server

To relocate the server is to load its code to another place, and the server that runs does it. The
search keeps clear of the data, the relocate command of ROM and I/O, and the benchmark takes a
fixed address: none of them looks at where the server is.

`relocated_apart` goes through every way to a relocation and says when the place is apart from the
server: no byte belongs to both, or the server is there already. The conditions are on the options,
the files and what the server tells about itself, not on what a search has found. Whether the place
is free otherwise is in `Search`, `FreeMemory` and `Relocate`.
-/

namespace Xlink.Client

open Word

/-! ## The highest place in closed form -/

/-- A place moves below an address that is in its block or next to it. -/
def below (length mark start : Int) : Int :=
  if start ≤ mark ∧ mark ≤ start + length then mark - length - 1 else start

/-- The highest place, not above some place, that is clear of data: below its start, if it is in the
way. Of data whose end is before its start, only these two addresses are in the way. -/
def highestClear (data : Range) (length top : Int) : Int :=
  if data.start ≤ data.stop then
    if top ≤ data.stop ∧ data.start ≤ top + length then data.start - length - 1 else top
  else below length data.stop (below length data.start top)

section Highest

variable {data area : Range} {length top start : Int}

theorem overlaps_iff_of_lt {r s : Range} (hr : r.start ≤ r.stop) (hs : s.stop < s.start) :
    r.overlaps s = true ↔ (r.start ≤ s.start ∧ s.start ≤ r.stop) ∨
      (r.start ≤ s.stop ∧ s.stop ≤ r.stop) := by
  have hne : r ≠ s := by
    rintro rfl
    exact absurd hr (not_le.mpr hs)
  simp only [Range.overlaps, Bool.or_eq_true, Bool.and_eq_true, decide_eq_true_eq, hne, false_or]
  omega

theorem block_clear_iff (hlength : 0 ≤ length) : (block length start).overlaps data = false ↔
    if data.start ≤ data.stop then data.stop < start ∨ start + length < data.start
    else ¬(start ≤ data.start ∧ data.start ≤ start + length) ∧
      ¬(start ≤ data.stop ∧ data.stop ≤ start + length) := by
  have hblock : (block length start).start ≤ (block length start).stop := by
    simp only [block]
    omega
  rw [← Bool.not_eq_true]
  split
  next hdata =>
    rw [Range.overlaps_iff_of_le hblock hdata]
    simp only [block]
    omega
  next hdata =>
    rw [overlaps_iff_of_lt hblock (not_le.mp hdata)]
    simp only [block]
    omega

/-- It is clear of the data, and every other clear place is below. -/
theorem highestClear_spec (data : Range) (top : Int) (hlength : 0 ≤ length) :
    highestClear data length top ≤ top ∧
    (block length (highestClear data length top)).overlaps data = false ∧
    ∀ other, other ≤ top → (block length other).overlaps data = false →
      other ≤ highestClear data length top := by
  simp only [block_clear_iff hlength, highestClear]
  split
  next hdata =>
    split
    next hmeets => exact ⟨by omega, by omega, fun other hother hclear => by omega⟩
    next hmeets => exact ⟨by omega, by omega, fun other hother hclear => by omega⟩
  next hdata =>
    simp only [below]
    split
    next =>
      split
      next => exact ⟨by omega, by omega, fun other hother hclear => by omega⟩
      next => exact ⟨by omega, by omega, fun other hother hclear => by omega⟩
    next =>
      split
      next => exact ⟨by omega, by omega, fun other hother hclear => by omega⟩
      next => exact ⟨by omega, by omega, fun other hother hclear => by omega⟩

theorem highest_iff (hlength : 0 ≤ length) : Highest data area length start ↔
    area.start ≤ start ∧ start = highestClear data length (area.stop - length) := by
  obtain ⟨hle, hclear, hhighest⟩ := highestClear_spec data (area.stop - length) hlength
  constructor
  · rintro ⟨h, hother⟩
    have hhigh := h.high
    have hbelow := hhighest start (by omega) h.clear
    have hlow := h.low
    exact ⟨hlow, le_antisymm hbelow (hother _ ⟨by omega, by omega, hclear⟩)⟩
  · rintro ⟨hlow, rfl⟩
    refine ⟨⟨hlow, by omega, hclear⟩, fun other h => ?_⟩
    have hhigh := h.high
    exact hhighest other (by omega) h.clear

theorem room_iff (hlength : 0 ≤ length) : Room data area length ↔
    area.start ≤ highestClear data length (area.stop - length) := by
  obtain ⟨hle, hclear, hhighest⟩ := highestClear_spec data (area.stop - length) hlength
  constructor
  · rintro ⟨start, h⟩
    have hhigh := h.high
    exact h.low.trans (hhighest start (by omega) h.clear)
  · intro h
    exact ⟨_, h, by omega, hclear⟩

end Highest

/-- The place of the search: the highest one of the first area it is in. -/
def foundPlace (data : Range) (length : Int) (areas : List Range) : Option Int :=
  areas.findSome? fun area =>
    let start := highestClear data length (area.stop - length)
    if area.start ≤ start then some start else none

theorem relocation_found (type : MachineType) (self : Command) (server : ServerInfo) :
    (self.serverRelocationPossible (.ofType type) server).map (fun address => (address.toNat : Int)) =
      foundPlace self.range server.length.toNat (searchAreas (.ofType type) server) := by
  have hlength : (0 : Int) ≤ server.length.toNat := Int.natCast_nonneg _
  cases hsearch : self.serverRelocationPossible (.ofType type) server with
  | none =>
    symm
    apply List.findSome?_eq_none_iff.mpr
    intro area harea
    exact if_neg fun h => relocation_none hsearch area harea ((room_iff hlength).mpr h)
  | some address =>
    obtain ⟨before, area, after, hareas, hbefore, hhighest⟩ := relocation_highest hsearch
    obtain ⟨hlow, hstart⟩ := (highest_iff hlength).mp hhighest
    symm
    apply List.findSome?_eq_some_iff.mpr
    refine ⟨before, area, after, hareas, ?_, fun other hother => ?_⟩
    · simp only [← hstart]
      exact if_pos hlow
    · exact if_neg fun h => hbefore other hother ((room_iff hlength).mpr h)

/-! ## The ways to a relocation -/

/-- The commands that relocate the server. -/
inductive RelocationPath where
  | transfer (id : CommandId)
  | relocate
  deriving DecidableEq, Repr

/-- The calls of a command. -/
def RelocationPath.issues (machine : Machine) (env : Env) (self : Command) :
    RelocationPath → List Issue
  | .transfer id => (self.execute machine env id).issues
  | .relocate => (self.relocate machine env).issues

section Paths

variable {machine : Machine} {env : Env} {self : Command} {server : ServerInfo} {address : Addr}

theorem mem_serverUsable_iff (hserver : env.identify = some server) :
    .relocate address ∈ (self.serverUsable machine env).2 ↔
      self.requiresServerRelocation server = true ∧
        self.serverRelocationPossible machine server = some address := by
  rw [Command.serverUsable, hserver]
  simp only
  split
  next hrequires =>
    split
    next hnone => simp [hrequires, hnone]
    next other hsome => simp [hrequires, hsome, eq_comm]
  next hrequires => simp [hrequires]

/-- Relocations that come from the check of a command. -/
def FromCheck (machine : Machine) (env : Env) (checked : Option Command) (issues : List Issue) :
    Prop :=
  ∀ address, .relocate address ∈ issues ↔
    ∃ c, checked = some c ∧ .relocate address ∈ (c.serverUsable machine env).2

theorem fromCheck_none {issues : List Issue} (h : ∀ address, .relocate address ∉ issues) :
    FromCheck machine env none issues := by
  intro address
  constructor
  · intro hin
    exact absurd hin (h address)
  · rintro ⟨c, hc, -⟩
    cases hc

/-- A call follows the relocation if the server is usable. -/
theorem fromCheck_some {c : Command} {call : Issue} {ok : Bool} {done : Command}
    (hcall : ∀ address, call ≠ .relocate address) :
    FromCheck machine env (some c) (if (c.serverUsable machine env).1 = true
      then (⟨ok, done, (c.serverUsable machine env).2 ++ [call]⟩ : Outcome)
      else ⟨false, done, (c.serverUsable machine env).2⟩).issues := by
  intro address
  have hne : .relocate address ≠ call := fun h => hcall address h.symm
  split
  next => simp [hne]
  next => simp

theorem fromCheck_load :
    FromCheck machine env (self.checkedLoad machine env) (self.load machine env).issues := by
  cases hargv : self.argv with
  | nil =>
    simp only [Command.load, Command.checkedLoad, hargv]
    exact fromCheck_none fun _ => List.not_mem_nil
  | cons filename rest =>
    cases hfile : env.file filename with
    | none =>
      simp only [Command.load, Command.checkedLoad, hargv, hfile]
      exact fromCheck_none fun _ => List.not_mem_nil
    | some file =>
      simp only [Command.load, Command.checkedLoad, hargv, hfile]
      by_cases hforce : ((self.loadRange env file).applyLoadMemoryAndBank machine).force = true
      · rw [Command.loadUsable, if_pos hforce, if_pos hforce]
        exact fromCheck_none fun _ => by simp
      · rw [Command.loadUsable, if_neg hforce, if_neg hforce]
        exact fromCheck_some fun _ h => by cases h

theorem fromCheck_run : FromCheck machine env (self.checked machine env .run)
    (self.run machine env).issues := by
  have hafter : ∀ (issues : List Issue) (call : Issue), (∀ address, call ≠ .relocate address) →
      ∀ address, .relocate address ∈ issues ++ [call] ↔ .relocate address ∈ issues := by
    intro issues call hcall address
    have hne : .relocate address ≠ call := fun h => hcall address h.symm
    simp [hne]
  by_cases hone : self.argv.length = 1
  · simp only [Command.run, Command.checked, if_pos hone]
    intro address
    rw [← fromCheck_load address]
    split
    next =>
      split
      next => exact hafter _ _ (fun _ h => by cases h) address
      next => exact hafter _ _ (fun _ h => by cases h) address
    next => rfl
  · simp only [Command.run, Command.checked, if_neg hone]
    exact fromCheck_none fun _ => by simp

theorem fromCheck_poke :
    FromCheck machine env (self.checkedPoke machine) (self.poke machine env).issues := by
  cases hargv : self.argv with
  | nil =>
    simp only [Command.poke, Command.checkedPoke, hargv]
    exact fromCheck_none fun _ => List.not_mem_nil
  | cons argument rest =>
    simp only [Command.poke, Command.checkedPoke, hargv]
    by_cases hcomma : argument.findIdx (· = ',') = argument.length ∨
      argument.findIdx (· = ',') + 1 = argument.length
    · rw [if_pos hcomma, if_pos hcomma]
      exact fromCheck_none fun _ => List.not_mem_nil
    · rw [if_neg hcomma, if_neg hcomma]
      exact fromCheck_some fun _ h => by cases h

theorem fromCheck_fill :
    FromCheck machine env (self.checkedFill machine) (self.fill machine env).issues := by
  cases hargv : self.argv with
  | nil =>
    simp only [Command.fill, Command.checkedFill, hargv]
    exact fromCheck_none fun _ => List.not_mem_nil
  | cons text others =>
    cases others with
    | nil =>
      simp only [Command.fill, Command.checkedFill, hargv]
      exact fromCheck_none fun _ => List.not_mem_nil
    | cons value rest =>
      simp only [Command.fill, Command.checkedFill, hargv]
      by_cases hvalid : (Command.fillRange text).valid = true
      · rw [if_pos hvalid, if_pos hvalid]
        exact fromCheck_some fun _ h => by cases h
      · rw [if_neg hvalid, if_neg hvalid]
        exact fromCheck_none fun _ => List.not_mem_nil

theorem fromCheck_save : FromCheck machine env none (self.save machine env).issues := by
  apply fromCheck_none
  intro address
  unfold Command.save
  split
  next => exact List.not_mem_nil
  next =>
    split
    next => exact List.not_mem_nil
    next =>
      split
      next => exact List.not_mem_nil
      next => split <;> simp

/-- A transfer other than a benchmark relocates for its check. -/
theorem fromCheck_execute {id : CommandId} (hid : id ≠ .benchmark) :
    FromCheck machine env (self.checked machine env id) (self.execute machine env id).issues := by
  cases id with
  | load => exact fromCheck_load
  | save => exact fromCheck_save
  | poke => exact fromCheck_poke
  | fill => exact fromCheck_fill
  | run => exact fromCheck_run
  | benchmark => exact absurd rfl hid

/-- A benchmark relocates a RAM server that answers to the free RAM area. -/
theorem mem_benchmark_iff (hserver : env.identify = some server)
    (hram : server.type = serverTypeRam) :
    .relocate address ∈ (self.benchmark machine env).issues ↔
      env.ping = true ∧ address = machine.freeRamArea := by
  simp only [Command.benchmark, Command.benchmarkRelocation, hserver, if_pos hram]
  split
  next hping => split <;> simp [hping]
  next hping => simp [hping]

/-! ## Apart from the running server -/

/-- A place shares no byte with the server that runs, or is its own. -/
def Apart (server : ServerInfo) (start : Int) : Prop :=
  ¬(block server.length.toNat start).Shares (block server.length.toNat server.start.toNat) ∨
    start = server.start.toNat

/-- Two places of the server are its length apart, or the same. -/
def Beside (server : ServerInfo) (start : Int) : Prop :=
  start = server.start.toNat ∨ start + server.length.toNat ≤ server.start.toNat ∨
    server.start.toNat + server.length.toNat ≤ start

theorem apart_iff (start : Int) : Apart server start ↔ Beside server start := by
  rw [Apart, Beside, Range.shares_iff]
  simp only [block]
  omega

/-- The place of a check: below the data or at the end of the first area it is in. -/
def CheckBeside (machine : Machine) (server : ServerInfo) (checked : Option Command) : Prop :=
  ∀ c, checked = some c → c.requiresServerRelocation server = true → ∀ start,
    foundPlace c.range server.length.toNat (searchAreas machine server) = some start →
      Beside server start

/-- A way to a relocation leads to a place beside the server. -/
def LeadsBeside (machine : Machine) (env : Env) (self : Command) (server : ServerInfo) :
    RelocationPath → Prop
  | .transfer .benchmark => env.ping = true → Beside server machine.freeRamArea.toNat
  | .transfer id => CheckBeside machine server (self.checked machine env id)
  | .relocate => ∀ text, self.argv = [text] → Accepted machine server text →
      Beside server (Command.relocateAddress text).toNat

theorem check_beside {type : MachineType} {checked : Option Command} {issues : List Issue}
    (hserver : env.identify = some server) (h : FromCheck (.ofType type) env checked issues) :
    (∀ address, .relocate address ∈ issues → Beside server address.toNat) ↔
      CheckBeside (.ofType type) server checked := by
  constructor
  · intro hbeside c hc hrequires start hstart
    rw [← relocation_found, Option.map_eq_some_iff] at hstart
    obtain ⟨address, haddress, rfl⟩ := hstart
    apply hbeside
    exact (h address).mpr ⟨c, hc, (mem_serverUsable_iff hserver).mpr ⟨hrequires, haddress⟩⟩
  · intro hbeside address hissue
    obtain ⟨c, hc, hmem⟩ := (h address).mp hissue
    obtain ⟨hrequires, haddress⟩ := (mem_serverUsable_iff hserver).mp hmem
    apply hbeside c hc hrequires
    rw [← relocation_found, haddress]
    rfl

/-- The places a command relocates a RAM server to are apart from the server if and only if its way
to them leads there. -/
theorem relocated_apart (type : MachineType) (env : Env) (self : Command) (server : ServerInfo)
    (path : RelocationPath) (hserver : env.identify = some server)
    (hram : server.type = serverTypeRam) :
    (∀ address, .relocate address ∈ path.issues (.ofType type) env self →
      Apart server address.toNat) ↔ LeadsBeside (.ofType type) env self server path := by
  simp only [apart_iff]
  cases path with
  | transfer id =>
    by_cases hid : id = .benchmark
    · subst hid
      show (∀ address, .relocate address ∈ (self.benchmark (.ofType type) env).issues → _) ↔ _
      simp only [mem_benchmark_iff hserver hram]
      constructor
      · intro h hping
        exact h _ ⟨hping, rfl⟩
      · rintro h address ⟨hping, rfl⟩
        exact h hping
    · have hleads : LeadsBeside (.ofType type) env self server (.transfer id) =
          CheckBeside (.ofType type) server (self.checked (.ofType type) env id) := by
        cases id with
        | benchmark => exact absurd rfl hid
        | load => rfl
        | save => rfl
        | poke => rfl
        | fill => rfl
        | run => rfl
      rw [hleads]
      exact check_beside hserver (fromCheck_execute hid)
  | relocate =>
    show (∀ address, .relocate address ∈ (self.relocate (.ofType type) env).issues → _) ↔ _
    simp only [mem_relocate hserver hram]
    constructor
    · intro h text hargv haccepted
      exact h _ ⟨text, hargv, haccepted, rfl⟩
    · rintro h address ⟨text, hargv, haccepted, rfl⟩
      exact h text hargv haccepted

theorem relocated_apart_upper :
    (∀ address, .relocate address ∈ RelocationPath.issues (.ofType .c64) basicEnv
      (Command.new ["0xc000".toList]) .relocate → Apart basicServer address.toNat) ↔
      LeadsBeside (.ofType .c64) basicEnv (Command.new ["0xc000".toList]) basicServer .relocate :=
  relocated_apart .c64 basicEnv (Command.new ["0xc000".toList]) basicServer .relocate rfl rfl

/-- The server at `$0801` is relocated to `$0900`, over its own end. -/
theorem relocated_over_itself :
    ¬∀ (type : MachineType) (env : Env) (self : Command) (server : ServerInfo)
      (path : RelocationPath), env.identify = some server → server.type = serverTypeRam →
        ∀ address, .relocate address ∈ path.issues (.ofType type) env self →
          Apart server address.toNat := by
  intro h
  have hissue : .relocate 0x0900#16 ∈ RelocationPath.issues (.ofType .c64) basicEnv
      (Command.new ["0x0900".toList]) .relocate := by
    have hissues : RelocationPath.issues (.ofType .c64) basicEnv (Command.new ["0x0900".toList])
      .relocate = [.relocate 0x0900#16] := rfl
    rw [hissues]
    exact List.mem_singleton_self _
  rcases h .c64 basicEnv _ basicServer .relocate rfl rfl _ hissue with hapart | heq
  · exact hapart ⟨0x0900, by decide, by decide⟩
  · exact absurd heq (by decide)

end Paths

end Xlink.Client
