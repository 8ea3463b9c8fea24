import Xlink.Client.WellFormed
import Xlink.Server.Session

/-!
# From the client to the cable

The calls of a command are what a session on the cable is made of. A relocation is the load of a
server and a jump to it, and is not looked at here. A transfer that is well formed is one that the
servers stay in step with.
-/

namespace Xlink.Client

open Word Port Server

/-- A call of the library as it goes over the cable. -/
def Issue.call : Issue → Option Call
  | .relocate _ => none
  | .load memory bank address size data =>
    some (.load memory bank (BitVec.ofInt 16 address) (data.take size.toNat))
  | .save memory bank address size =>
    some (.save memory bank (BitVec.ofInt 16 address) size.toNat)
  | .poke memory bank address value => some (.poke memory bank (BitVec.ofInt 16 address) value)
  | .jump memory bank address => some (.jump memory bank (BitVec.ofInt 16 address))
  | .run => some .run

/-- The buffer a call hands over is as long as it says. -/
def Issue.Filled : Issue → Prop
  | .load _ _ address size data => WellFormed address size → data.length = size
  | _ => True

section Filled

variable {machine : Machine} {env : Env} {self : Command} {file : List Byte}

theorem Range.toNat_size_of_valid {range : Range} (h : range.valid = true) :
    (range.size.toNat : Int) = range.size % 2 ^ 32 := by
  have hsize := Range.size_of_valid h
  obtain ⟨h₀, h₁, h₂⟩ := Range.valid_iff.mp h
  have hexact : range.size = range.stop - range.start := toInt_of_small (by omega) (by omega)
  omega

theorem length_loadData : (self.loadData env file).length = (self.loadSize env file).toNat := by
  unfold Command.loadData
  simp only [List.length_append, List.length_take, List.length_replicate]
  omega

/-- The size of a load is an int. -/
theorem loadSize_bounds (env : Env) (file : List Byte) (hself : Parsed self) :
    -2 ^ 31 ≤ self.loadSize env file ∧ self.loadSize env file < 2 ^ 31 := by
  have hskip := loadFrom_skip env file hself
  have hcut := toInt_bounds ((self.loadRange env file).stop - (self.loadRange env file).start)
  rw [loadSize_eq]
  split <;> omega

theorem filled_load (hself : Parsed self) {issue : Issue}
    (hissue : issue ∈ (self.load machine env).issues) : issue.Filled := by
  obtain h | ⟨filename, file, -, -, h⟩ := load_issues machine env self
  · rw [h] at hissue
    cases hissue
  · obtain ⟨address, rfl⟩ | ⟨rfl, -, -⟩ := h.mem (fun _ h => mem_loadUsable h) hissue
    · trivial
    · intro hwell
      have hpos := hwell.pos
      have htop := hwell.top
      have hstart := loadFrom_start env file hself
      have hbounds := loadSize_bounds env file hself
      rw [length_loadData]
      omega

theorem filled_fill {issue : Issue} (hissue : issue ∈ (self.fill machine env).issues) :
    issue.Filled := by
  obtain h | ⟨text, filled, value, -, hvalid, -, hrange, h⟩ := fill_issues machine env self
  · rw [h] at hissue
    cases hissue
  · obtain ⟨address, rfl⟩ | ⟨rfl, -, -⟩ := h.mem (fun _ h => mem_serverUsable h) hissue
    · trivial
    · intro _
      rw [← hrange] at hvalid
      rw [List.length_replicate, Range.toNat_size_of_valid hvalid]

theorem filled_benchmark {type : MachineType} (hself : Parsed self) {issue : Issue}
    (hissue : issue ∈ (self.benchmark (.ofType type) env).issues) : issue.Filled := by
  obtain h | ⟨memory, bank, payload, after, hlength, hafter, h⟩ :=
    benchmark_issues (.ofType type) env self
  · rw [h] at hissue
    cases hissue
  · rw [h] at hissue
    rcases List.mem_append.mp hissue with hin | hin
    · obtain ⟨address, rfl⟩ := mem_benchmarkRelocation hin
      trivial
    · rcases List.mem_cons.mp hin with rfl | hin
      · obtain ⟨h₀, h₁, h₂⟩ := benchmarkRange_bounds type hself
        intro _
        rw [hlength, Range.toNat_size_of_valid (Range.valid_iff.mpr ⟨h₀, h₁.le, h₂⟩)]
      · rw [hafter issue hin]
        trivial

theorem filled_save {issue : Issue} (hissue : issue ∈ (self.save machine env).issues) :
    issue.Filled := by
  obtain h | ⟨saved, memory, bank, -, h⟩ := save_issues machine env self
  · rw [h] at hissue
    cases hissue
  · rw [h] at hissue
    rw [List.mem_singleton.mp hissue]
    trivial

theorem filled_of_transfer {issue : Issue} (h : issue.transfer = none) : issue.Filled := by
  cases issue with
  | load => cases h
  | _ => trivial

/-- Every buffer a command hands over has the size that goes with it. -/
theorem filled_execute {type : MachineType} {id : CommandId} (hself : Parsed self) {issue : Issue}
    (hissue : issue ∈ (self.execute (.ofType type) env id).issues) : issue.Filled := by
  cases id with
  | load => exact filled_load hself hissue
  | save => exact filled_save hissue
  | poke => exact filled_of_transfer (transfer_poke hissue)
  | fill => exact filled_fill hissue
  | run =>
    cases htransfer : issue.transfer with
    | none => exact filled_of_transfer htransfer
    | some transfer => exact filled_load hself (transfer_run hissue htransfer)
  | benchmark => exact filled_benchmark hself hissue

end Filled

theorem WellFormed.size_le {address size : Int} (h : WellFormed address size) : size ≤ 0x10000 := by
  rw [← h.implied]
  unfold impliedSize
  split
  · rfl
  · have hlt := (BitVec.ofInt 16 (address + size) - BitVec.ofInt 16 address).isLt
    omega

/-- **A well-formed transfer of a command is a call of the sizes the servers stay in step with**,
under the addresses and with the bytes it was issued with. -/
theorem proper_call {T : Target} {type : MachineType} {env : Env} {id : CommandId} {self : Command}
    (hself : Parsed self) {issue : Issue}
    (hissue : issue ∈ (self.execute (.ofType type) env id).issues) {address size : Int}
    (htransfer : issue.transfer = some (address, size)) (hwell : WellFormed address size) :
    ∃ c, issue.call = some c ∧
      Proper (T := T) (fun _ _ _ _ => True) (fun _ _ _ _ => True) c := by
  have hfilled := filled_execute hself hissue
  have hpos := hwell.pos
  have hmax := hwell.size_le
  cases issue with
  | load memory bank address' size' data =>
    cases htransfer
    have hlength : (data.length : Int) = size := hfilled hwell
    have hsize : size.toNat = data.length := by omega
    refine ⟨_, rfl, ?_, ?_, fun _ _ _ _ => trivial⟩
    · rw [hsize, List.take_length]
      rintro rfl
      rw [← hlength] at hpos
      exact absurd hpos (by decide)
    · rw [hsize, List.take_length]
      omega
  | save memory bank address' size' =>
    cases htransfer
    refine ⟨_, rfl, ?_, ?_⟩
    · omega
    · omega
  | relocate => cases htransfer
  | poke => cases htransfer
  | jump => cases htransfer
  | run => cases htransfer

end Xlink.Client
