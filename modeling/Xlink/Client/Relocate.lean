import Xlink.Client.Command
import Xlink.Client.Overlap

/-!
# The relocate command

`command_relocate`: a RAM server is moved to the address of the operand, unless the place is inside
the ROM or the I/O area. A place that lies across the edge of such an area is not inside it.

`relocate_usable` is an equivalence for both machines, every operand, length and top of memory: what
the command does not refuse is RAM unless it straddles an edge. It is about a server in RAM that
identifies itself; a server in ROM is not relocated. That the place may be where the server runs is
in `RelocateApart`.
-/

namespace Xlink.Client

open Word

/-- `lorom` of `xlink_machine_t`. -/
def MachineType.lorom : MachineType → BitVec 32
  | .c64 => 0xa000c000#32
  | .c128 => 0x4000d000#32

/-- `hirom` of `xlink_machine_t`. -/
def MachineType.hirom : MachineType → BitVec 32
  | .c64 => 0xe0000000#32
  | .c128 => 0xe0000000#32

namespace Command

variable (machine : Machine) (env : Env) (self : Command)

/-- The lower ROM area; on the C64 it begins at the top of memory. -/
def loromArea (server : ServerInfo) : Range :=
  let lorom := Range.fromInt machine.type.lorom
  if machine.type = .c64 then ⟨server.memtop.toNat, lorom.stop⟩ else lorom

/-- The address of an operand. -/
def relocateAddress (text : List Char) : Addr := BitVec.ofInt 16 (strtol text)

/-- The place of the server at the address of an operand. -/
def relocateRange (server : ServerInfo) (text : List Char) : Range :=
  ⟨(relocateAddress text).toNat, (relocateAddress text).toNat + server.length.toNat⟩

/-- `command_relocate`. -/
def relocate : Outcome :=
  match self.argv with
  | [text] =>
    match env.identify with
    | none => ⟨false, self, []⟩
    | some server =>
      if server.type = serverTypeRom then ⟨true, self, []⟩
      else
        let code := relocateRange server text
        if !code.valid then ⟨false, self, []⟩
        else if server.type = serverTypeRam then
          if code.inside (loromArea machine server) then ⟨false, self, []⟩
          else if code.inside (Range.fromInt machine.type.hirom) then ⟨false, self, []⟩
          else if code.inside (Range.fromInt machine.io) then ⟨false, self, []⟩
          else ⟨env.relocate, self, [.relocate (relocateAddress text)]⟩
        else ⟨false, self, []⟩
  | _ => ⟨false, self, []⟩

end Command

/-- The areas a server is not to be in. -/
def occupiedAreas (machine : Machine) (server : ServerInfo) : List Range :=
  [Command.loromArea machine server, Range.fromInt machine.type.hirom, Range.fromInt machine.io]

section Relocate

variable {machine : Machine} {env : Env} {self : Command} {server : ServerInfo}

/-- An operand that the command goes on with: its place is valid and inside no occupied area. -/
def Accepted (machine : Machine) (server : ServerInfo) (text : List Char) : Prop :=
  (Command.relocateRange server text).valid = true ∧
    ∀ area ∈ occupiedAreas machine server,
      (Command.relocateRange server text).inside area = false

instance (text : List Char) : Decidable (Accepted machine server text) :=
  inferInstanceAs (Decidable (_ ∧ _))

/-- What the command does with an operand for a RAM server. -/
theorem relocate_eq {text : List Char} (hargv : self.argv = [text])
    (hserver : env.identify = some server) (hram : server.type = serverTypeRam) :
    self.relocate machine env = if Accepted machine server text
      then ⟨env.relocate, self, [.relocate (Command.relocateAddress text)]⟩
      else ⟨false, self, []⟩ := by
  have hrom : server.type ≠ serverTypeRom := by
    rw [hram]
    decide
  simp only [Command.relocate, hargv, hserver, if_neg hrom, if_pos hram, Accepted, occupiedAreas,
    List.forall_mem_cons]
  generalize (Command.relocateRange server text).valid = valid
  generalize (Command.relocateRange server text).inside (Command.loromArea machine server) = lorom
  generalize (Command.relocateRange server text).inside (Range.fromInt machine.type.hirom) = hirom
  generalize (Command.relocateRange server text).inside (Range.fromInt machine.io) = io
  cases valid <;> cases lorom <;> cases hirom <;> cases io <;> simp

/-- The command relocates a RAM server to the operands it accepts. -/
theorem mem_relocate (hserver : env.identify = some server) (hram : server.type = serverTypeRam)
    (address : Addr) : .relocate address ∈ (self.relocate machine env).issues ↔
      ∃ text, self.argv = [text] ∧ Accepted machine server text ∧
        address = Command.relocateAddress text := by
  by_cases hone : ∃ text, self.argv = [text]
  · obtain ⟨text, hargv⟩ := hone
    rw [relocate_eq hargv hserver hram]
    split
    next haccepted =>
      simp [hargv, haccepted]
    next hrefused =>
      simp [hargv, hrefused]
  · have hnil : (self.relocate machine env).issues = [] := by
      unfold Command.relocate
      split
      next text hargv => exact absurd ⟨text, hargv⟩ hone
      next => rfl
    rw [hnil]
    constructor
    · intro h
      cases h
    · rintro ⟨text, hargv, -⟩
      exact absurd ⟨text, hargv⟩ hone

/-! ## Usable RAM -/

/-- Every place the command goes on with is in memory and shares no byte with an occupied area. -/
def TargetsRam (machine : Machine) (env : Env) (self : Command) (server : ServerInfo) : Prop :=
  ∀ address, .relocate address ∈ (self.relocate machine env).issues →
    let code : Range := ⟨address.toNat, address.toNat + server.length.toNat⟩
    0 ≤ code.start ∧ code.stop ≤ 0x10000 ∧
      ∀ area ∈ occupiedAreas machine server, ¬code.Shares area

/-- A place lies across the edge of an area: it shares a byte with it, and has others outside. -/
def Straddles (code area : Range) : Prop :=
  code.start < code.stop ∧ area.start < area.stop ∧
    ((code.start < area.start ∧ area.start < code.stop) ∨
      (code.start < area.stop ∧ area.stop < code.stop))

/-- An operand whose place is not in memory, is inside an occupied area, or straddles none. -/
def OperandMeets (machine : Machine) (server : ServerInfo) (text : List Char) : Prop :=
  let code := Command.relocateRange server text
  ¬code.stop ≤ 0x10000 ∨ (∃ area ∈ occupiedAreas machine server, code.inside area = true) ∨
    ∀ area ∈ occupiedAreas machine server, ¬Straddles code area

/-- What shares a byte with an area and is not inside it straddles it. -/
theorem shares_iff_straddles {code area : Range} (hinside : code.inside area = false) :
    code.Shares area ↔ Straddles code area := by
  have hout : ¬(area.start ≤ code.start ∧ code.stop ≤ area.stop) := by
    intro h
    rw [Range.inside_iff.mpr (.inr h)] at hinside
    cases hinside
  rw [Range.shares_iff, Straddles]
  omega

/-- The command targets usable RAM if and only if its operand straddles no edge it looks at. -/
theorem relocate_usable (type : MachineType) (env : Env) (self : Command) (server : ServerInfo)
    (hserver : env.identify = some server) (hram : server.type = serverTypeRam) :
    TargetsRam (.ofType type) env self server ↔
      ∀ text, self.argv = [text] → OperandMeets (.ofType type) server text := by
  constructor
  · intro h text hargv
    by_cases haccepted : Accepted (.ofType type) server text
    · refine .inr (.inr fun area harea hstraddles => ?_)
      have hissue := (mem_relocate hserver hram _).mpr ⟨text, hargv, haccepted, rfl⟩
      obtain ⟨-, -, hclear⟩ := h _ hissue
      exact hclear area harea ((shares_iff_straddles (haccepted.2 area harea)).mpr hstraddles)
    · by_cases htop : (Command.relocateRange server text).stop ≤ 0x10000
      · have hvalid : (Command.relocateRange server text).valid = true := by
          apply Range.valid_iff.mpr
          simp only [Command.relocateRange] at htop ⊢
          omega
        refine .inr (.inl ?_)
        by_contra hnone
        apply haccepted
        refine ⟨hvalid, fun area harea => ?_⟩
        by_contra hinside
        exact hnone ⟨area, harea, by simpa using hinside⟩
      · exact .inl htop
  · intro h address hissue
    obtain ⟨text, hargv, ⟨hvalid, hinside⟩, rfl⟩ := (mem_relocate hserver hram address).mp hissue
    obtain ⟨hlow, -, htop⟩ := Range.valid_iff.mp hvalid
    refine ⟨hlow, htop, fun area harea hshares => ?_⟩
    rcases h text hargv with hmeets | ⟨other, hother, hin⟩ | hmeets
    · exact hmeets htop
    · rw [hinside other hother] at hin
      cases hin
    · exact hmeets area harea ((shares_iff_straddles (hinside area harea)).mp hshares)

/-- A RAM server of the C64, with BASIC up to `$a000`, and a library that answers. -/
def basicServer : ServerInfo := ⟨serverTypeRam, 0x0801#16, 0x0aea#16, 0x02e9#16, 0xa000#16⟩

def basicEnv : Env where
  file _ := none
  garbage := (0x00#8, 0x00#8)
  writable _ := true
  rand _ := 0x00#8
  identify := some basicServer
  peek _ := none
  ping := true
  relocate := true
  load := true
  save := none
  poke := true
  jump := true
  run := true

theorem relocate_usable_upper :
    TargetsRam (.ofType .c64) basicEnv (Command.new ["0xc000".toList]) basicServer ↔
      ∀ text, (Command.new ["0xc000".toList]).argv = [text] →
        OperandMeets (.ofType .c64) basicServer text :=
  relocate_usable .c64 basicEnv (Command.new ["0xc000".toList]) basicServer rfl rfl

/-- At `$9f00` the server is partly below the BASIC ROM and partly under it. -/
theorem relocated_under_rom :
    ¬∀ (type : MachineType) (env : Env) (self : Command) (server : ServerInfo),
      env.identify = some server → server.type = serverTypeRam →
        TargetsRam (.ofType type) env self server := by
  intro h
  have htargets := h .c64 basicEnv (Command.new ["0x9f00".toList]) basicServer rfl rfl
  have hissue : .relocate 0x9f00#16 ∈
      ((Command.new ["0x9f00".toList]).relocate (.ofType .c64) basicEnv).issues := by
    have hissues : ((Command.new ["0x9f00".toList]).relocate (.ofType .c64) basicEnv).issues =
      [.relocate 0x9f00#16] := rfl
    rw [hissues]
    exact List.mem_singleton_self _
  obtain ⟨-, -, hclear⟩ := htargets _ hissue
  exact hclear _ List.mem_cons_self ⟨0xa000, by decide, by decide⟩

end Relocate

end Xlink.Client
