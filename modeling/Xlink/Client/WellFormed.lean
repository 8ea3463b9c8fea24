import Xlink.Client.Command

/-!
# Transfers that are well formed

The header of a load or a save has a start and an end of 16 bits, and the server goes from the one
to the other, by one byte at least: 0 and 65536 bytes have the same header. `command_parse_options`
rejects empty ranges; what is made of a file, of the pointers of BASIC and of the range of a fill is
not checked again. The results say which transfers come out well formed.

`transfers_well_formed` is an equivalence for each transfer that a command issues, for all options
that are accepted, in any order and number, and for any arguments, files and answers of the server.
Whether the memory at the address is the right one is not part of it (`LoadConfig`, `ServerSpared`).
-/

namespace Xlink.Client

open Word

/-- The bytes a server moves for a header. -/
def impliedSize (start stop : Addr) : Nat :=
  if stop = start then 0x10000 else (stop - start).toNat

/-- A transfer within memory, by at least one byte, whose header says how many bytes there are. -/
structure WellFormed (address size : Int) : Prop where
  pos : 1 ≤ size
  top : address + size ≤ 0x10000
  implied : (impliedSize (BitVec.ofInt 16 address) (BitVec.ofInt 16 (address + size)) : Int) = size

theorem impliedSize_add (start : Addr) {n : Nat} (hpos : 1 ≤ n) (hmax : n ≤ 0x10000) :
    impliedSize start (start + BitVec.ofNat 16 n) = n := by
  have hdiff : start + BitVec.ofNat 16 n - start = BitVec.ofNat 16 n := by
    rw [BitVec.add_comm, BitVec.add_sub_cancel]
  unfold impliedSize
  split
  next heq =>
    have hzero : BitVec.ofNat 16 n = 0#16 := by
      rw [← hdiff, heq, BitVec.sub_self]
    have hnat := congrArg BitVec.toNat hzero
    rw [BitVec.toNat_ofNat, BitVec.toNat_ofNat] at hnat
    omega
  next hne =>
    rw [hdiff, BitVec.toNat_ofNat]
    apply Nat.mod_eq_of_lt
    by_contra hbig
    obtain rfl : n = 0x10000 := by omega
    have hzero : start + BitVec.ofNat 16 0x10000 = start := by
      show start + 0#16 = start
      exact BitVec.add_zero start
    exact hne hzero

theorem wellFormed_iff {address size : Int} (haddress : 0 ≤ address) :
    WellFormed address size ↔ 1 ≤ size ∧ address + size ≤ 0x10000 := by
  constructor
  · intro h
    exact ⟨h.pos, h.top⟩
  · rintro ⟨hpos, htop⟩
    refine ⟨hpos, htop, ?_⟩
    obtain ⟨n, rfl⟩ := Int.eq_ofNat_of_zero_le (show 0 ≤ size by omega)
    have hstop : BitVec.ofInt 16 (address + n) = BitVec.ofInt 16 address + BitVec.ofNat 16 n := by
      rw [BitVec.ofInt_add]
      rfl
    rw [hstop, impliedSize_add _ (by omega) (by omega)]

/-! ## What the options may be -/

/-- The range and the skip of a command after its options. -/
structure Parsed (c : Command) : Prop where
  range : (c.start = -1 ∧ c.stop = -1) ∨ (0 ≤ c.start ∧ c.start ≤ 0x10000 ∧
    (c.stop = -1 ∨ (c.start < c.stop ∧ c.stop ≤ 0x10000)))
  skip : -2 ^ 31 ≤ c.skip ∧ c.skip < 2 ^ 31

theorem parsed_new (argv : List (List Char)) : Parsed (Command.new argv) :=
  ⟨.inl ⟨rfl, rfl⟩, by norm_num [Command.new]⟩

theorem parsed_parseOption {self parsed : Command} {option : Opt} (hself : Parsed self)
    (h : self.parseOption option = some parsed) : Parsed parsed := by
  cases option with
  | memory optarg =>
    cases h
    exact ⟨hself.range, hself.skip⟩
  | bank optarg =>
    cases h
    exact ⟨hself.range, hself.skip⟩
  | address optarg =>
    simp only [Command.parseOption] at h
    split at h
    next hstart =>
      split at h
      next hstop =>
        cases h
        simp only [valid, Bool.and_eq_true, decide_eq_true_eq] at hstart hstop
        refine ⟨.inr ⟨hstart.1, hstart.2, ?_⟩, hself.skip⟩
        rcases hstop with hstop | ⟨⟨-, hstop⟩, hless⟩
        · exact .inl hstop
        · exact .inr ⟨hless, hstop⟩
      next => cases h
    next => cases h
  | skip optarg =>
    cases h
    exact ⟨hself.range, toInt_bounds _⟩
  | force =>
    cases h
    exact ⟨hself.range, hself.skip⟩

/-- Whatever the options are, in any order and number. -/
theorem parsed_parseOptions {self parsed : Command} {options : List Opt} (hself : Parsed self)
    (h : self.parseOptions options = some parsed) : Parsed parsed := by
  induction options generalizing self with
  | nil =>
    cases h
    exact hself
  | cons option options ih =>
    simp only [Command.parseOptions, List.foldlM_cons, Option.bind_eq_bind,
      Option.bind_eq_some_iff] at h
    obtain ⟨next, hnext, hrest⟩ := h
    exact ih (parsed_parseOption hself hnext) hrest

/-! ## The transfers of each command -/

/-- Address and size of a transfer. -/
def Issue.transfer : Issue → Option (Int × Int)
  | .load _ _ address size _ => some (address, size)
  | .save _ _ address size => some (address, size)
  | _ => none

section Load

variable {machine : Machine} {env : Env} {self : Command} {file : List Byte}

theorem loadFrom_start (env : Env) (file : List Byte) (hself : Parsed self) :
    0 ≤ (self.loadFrom env file).1 ∧ (self.loadFrom env file).1 ≤ 0x10000 := by
  unfold Command.loadFrom
  split
  next =>
    have hlt := (Command.loadAddress env file).isLt
    show 0 ≤ ((Command.loadAddress env file).toNat : Int) ∧ _
    omega
  next hstart =>
    rcases hself.range with ⟨h, -⟩ | ⟨h₀, h₁, -⟩
    · exact absurd h hstart
    · exact ⟨h₀, h₁⟩

theorem loadFrom_skip (env : Env) (file : List Byte) (hself : Parsed self) :
    -2 ^ 31 ≤ (self.loadFrom env file).2 ∧ (self.loadFrom env file).2 < 2 ^ 31 := by
  have hskip := hself.skip
  unfold Command.loadFrom
  split
  · show -2 ^ 31 ≤ (if self.skip = -1 then 2 else self.skip) ∧ _
    split <;> omega
  · show -2 ^ 31 ≤ (if self.skip = -1 then 0 else self.skip) ∧ _
    split <;> omega

theorem loadSize_eq : self.loadSize env file =
    if toInt ((self.loadRange env file).stop - (self.loadRange env file).start) <
        file.length - (self.loadFrom env file).2 then
      toInt ((self.loadRange env file).stop - (self.loadRange env file).start)
    else file.length - (self.loadFrom env file).2 := rfl

/-- Without an end, the size is what is left of the file, as an `unsigned int`. -/
theorem loadSize_open (hstop : self.stop = -1) : self.loadSize env file % 2 ^ 32 =
    ((file.length : Int) - (self.loadFrom env file).2) % 2 ^ 32 := by
  have hdiff : toInt (toInt ((self.loadFrom env file).1 + (file.length -
      (self.loadFrom env file).2)) - (self.loadFrom env file).1) % 2 ^ 32 =
      ((file.length : Int) - (self.loadFrom env file).2) % 2 ^ 32 := by
    rw [toInt_emod, Int.sub_emod, toInt_emod, ← Int.sub_emod]
    congr 1
    omega
  have hloaded : (self.loadRange env file).stop - (self.loadRange env file).start =
      toInt ((self.loadFrom env file).1 + (file.length - (self.loadFrom env file).2)) -
        (self.loadFrom env file).1 := by
    simp only [Command.loadRange, if_pos hstop]
  rw [loadSize_eq, hloaded]
  split
  · exact hdiff
  · rfl

/-- With an end, it is cut to the range. -/
theorem loadSize_closed (env : Env) (file : List Byte) (hself : Parsed self)
    (hstop : self.stop ≠ -1) :
    self.loadSize env file = min ((file.length : Int) - (self.loadFrom env file).2)
        (self.stop - (self.loadFrom env file).1) ∧
      (self.loadFrom env file).1 < self.stop ∧ self.stop ≤ 0x10000 := by
  obtain ⟨h₀, h₁, hless, htop⟩ : 0 ≤ self.start ∧ self.start ≤ 0x10000 ∧ self.start < self.stop ∧
      self.stop ≤ 0x10000 := by
    rcases hself.range with ⟨-, h⟩ | ⟨h₀, h₁, h | ⟨h₂, h₃⟩⟩
    · exact absurd h hstop
    · exact absurd h hstop
    · exact ⟨h₀, h₁, h₂, h₃⟩
  have hstart : (self.loadFrom env file).1 = self.start := by
    rw [Command.loadFrom, if_neg (by omega)]
  have hloaded : toInt ((self.loadRange env file).stop - (self.loadRange env file).start) =
      self.stop - self.start := by
    simp only [Command.loadRange, if_neg hstop, hstart]
    exact toInt_of_small (by omega) (by omega)
  refine ⟨?_, by rw [hstart]; exact hless, htop⟩
  rw [loadSize_eq, hloaded, hstart]
  split <;> omega

/-- A load whose bytes are there and fit. -/
def Command.FitsLoad (env : Env) (self : Command) (file : List Byte) : Prop :=
  if self.stop = -1 then
    1 ≤ ((file.length : Int) - (self.loadFrom env file).2) % 2 ^ 32 ∧
      (self.loadFrom env file).1 + ((file.length : Int) - (self.loadFrom env file).2) % 2 ^ 32 ≤
        0x10000
  else (self.loadFrom env file).2 < file.length

theorem wellFormed_load (hself : Parsed self) : WellFormed (self.loadFrom env file).1
    (self.loadSize env file % 2 ^ 32) ↔ self.FitsLoad env file := by
  obtain ⟨hlow, hhigh⟩ := loadFrom_start env file hself
  rw [wellFormed_iff hlow]
  unfold Command.FitsLoad
  split
  next hstop => rw [loadSize_open hstop]
  next hstop =>
    obtain ⟨hsize, hless, htop⟩ := loadSize_closed env file hself hstop
    have hskip := loadFrom_skip env file hself
    rw [hsize]
    omega

end Load

/-! ## What each command issues -/

namespace Command

variable (machine : Machine) (env : Env) (self : Command)

/-- A load that looks for the server, with its range. -/
def checkedLoad : Option Command :=
  match self.argv with
  | [] => none
  | filename :: _ =>
    match env.file filename with
    | none => none
    | some file =>
      let loaded := (self.loadRange env file).applyLoadMemoryAndBank machine
      if loaded.force then none else some loaded

/-- A poke that looks for the server, with its address. -/
def checkedPoke : Option Command :=
  match self.argv with
  | [] => none
  | argument :: _ =>
    let comma := argument.findIdx (· = ',')
    if comma = argument.length ∨ comma + 1 = argument.length then none
    else
      let address := toInt (strtol (argument.take comma))
      some { self.applyMemoryAndBank machine with start := address, stop := address }

/-- A fill that looks for the server, with its range. -/
def checkedFill : Option Command :=
  match self.argv with
  | text :: _ :: _ =>
    let range := fillRange text
    if range.valid then
      some { self.applyMemoryAndBank machine with start := range.start, stop := range.stop }
    else none
  | _ => none

/-- The command, with its range, that is checked against the server before a transfer. -/
def checked : CommandId → Option Command
  | .load => self.checkedLoad machine env
  | .run => if self.argv.length = 1 then self.checkedLoad machine env else none
  | .poke => self.checkedPoke machine
  | .fill => self.checkedFill machine
  | .save => none
  | .benchmark => none

end Command

section Issues

variable {machine : Machine} {env : Env} {self : Command}

/-- To make the server usable is to relocate it or to do nothing. -/
theorem mem_serverUsable {issue : Issue} (h : issue ∈ (self.serverUsable machine env).2) :
    ∃ address, issue = .relocate address := by
  unfold Command.serverUsable at h
  split at h
  · cases h
  · split at h
    · split at h
      · cases h
      next address _ => exact ⟨address, List.mem_singleton.mp h⟩
    · cases h

theorem mem_loadUsable {issue : Issue} (h : issue ∈ (self.loadUsable machine env).2) :
    ∃ address, issue = .relocate address := by
  unfold Command.loadUsable at h
  split at h
  · cases h
  · exact mem_serverUsable h

/-- Calls behind a look at the server: the relocation, if there is one, and then a call, if the
server is usable. -/
def Guarded (usable : Bool × List Issue) (call : Issue) (issues : List Issue) : Prop :=
  issues = usable.2 ∨ (usable.1 = true ∧ issues = usable.2 ++ [call])

theorem Guarded.mem {usable : Bool × List Issue} {call : Issue} {issues : List Issue}
    (h : Guarded usable call issues)
    (husable : ∀ other ∈ usable.2, ∃ address, other = .relocate address) {issue : Issue}
    (hissue : issue ∈ issues) : (∃ address, issue = .relocate address) ∨
      (issue = call ∧ usable.1 = true ∧ issues = usable.2 ++ [call]) := by
  rcases h with h | ⟨hok, h⟩
  · rw [h] at hissue
    exact .inl (husable issue hissue)
  · have hissue' := hissue
    rw [h] at hissue'
    rcases List.mem_append.mp hissue' with hin | hin
    · exact .inl (husable issue hin)
    · exact .inr ⟨List.mem_singleton.mp hin, hok, h⟩

theorem start_applyLoadMemoryAndBank (machine : Machine) (self : Command) :
    (self.applyLoadMemoryAndBank machine).start = self.start := by
  unfold Command.applyLoadMemoryAndBank
  split
  · split <;> rfl
  · rfl

/-- The transfer of a load. -/
def Command.loadIssue (machine : Machine) (env : Env) (self : Command) (file : List Byte) : Issue :=
  .load ((self.loadRange env file).applyLoadMemoryAndBank machine).memory
    ((self.loadRange env file).applyLoadMemoryAndBank machine).bank (self.loadFrom env file).1
    (self.loadSize env file % 2 ^ 32) (self.loadData env file)

theorem load_issues (machine : Machine) (env : Env) (self : Command) :
    (self.load machine env).issues = [] ∨ ∃ filename file,
      self.argv.head? = some filename ∧ env.file filename = some file ∧
      Guarded (((self.loadRange env file).applyLoadMemoryAndBank machine).loadUsable machine env)
        (self.loadIssue machine env file) (self.load machine env).issues := by
  unfold Command.load
  split
  · exact .inl rfl
  next filename rest hargv =>
    split
    · exact .inl rfl
    next file hfile =>
      refine .inr ⟨filename, file, by rw [hargv]; rfl, hfile, ?_⟩
      have hstart : ((self.loadRange env file).applyLoadMemoryAndBank machine).start =
        (self.loadFrom env file).1 := start_applyLoadMemoryAndBank ..
      simp only [hstart]
      split
      next hok => exact .inr ⟨hok, rfl⟩
      next => exact .inl rfl

/-- A run calls what its load does, and no transfer after it. -/
theorem run_issues (machine : Machine) (env : Env) (self : Command) : ∃ after : List Issue,
    (∀ issue ∈ after, issue = .run ∨ ∃ memory bank address, issue = .jump memory bank address) ∧
      ((self.run machine env).issues = (self.load machine env).issues ++ after ∨
        (self.run machine env).issues = after) := by
  have hrun : ∀ issue ∈ [Issue.run], issue = .run ∨ ∃ memory bank address,
      issue = .jump memory bank address :=
    fun issue h => .inl (List.mem_singleton.mp h)
  unfold Command.run
  split
  · simp only
    split
    · split
      · exact ⟨_, fun issue h => .inr ⟨_, _, _, List.mem_singleton.mp h⟩, .inl rfl⟩
      · exact ⟨_, hrun, .inl rfl⟩
    · exact ⟨[], fun _ h => absurd h List.not_mem_nil, .inl (List.append_nil _).symm⟩
  · exact ⟨_, hrun, .inr rfl⟩

/-- The command of a save with its range complete. -/
def Command.Saves (machine : Machine) (env : Env) (self saved : Command) : Prop :=
  (if self.start = -1 then self.findBasicProgram machine env else some self) = some saved ∧
    saved.stop ≠ -1

theorem save_issues (machine : Machine) (env : Env) (self : Command) :
    (self.save machine env).issues = [] ∨ ∃ saved memory bank,
      self.Saves machine env saved ∧ (self.save machine env).issues =
        [.save memory bank saved.start (toInt (saved.stop - saved.start) % 2 ^ 32)] := by
  unfold Command.save
  split
  · exact .inl rfl
  · split
    · exact .inl rfl
    next saved hsaved =>
      split
      · exact .inl rfl
      next hstop =>
        split
        · exact .inr ⟨saved, _, _, ⟨hsaved, hstop⟩, rfl⟩
        · exact .inl rfl

theorem poke_issues (machine : Machine) (env : Env) (self : Command) :
    (self.poke machine env).issues = [] ∨ ∃ (poked : Command) (value : Byte),
      self.checkedPoke machine = some poked ∧ poked.stop = poked.start ∧
        Guarded (poked.serverUsable machine env)
          (.poke poked.memory poked.bank poked.start value) (self.poke machine env).issues := by
  unfold Command.poke
  split
  · exact .inl rfl
  next argument rest hargv =>
    simp only
    split
    · exact .inl rfl
    next hcomma =>
      refine .inr ⟨{ self.applyMemoryAndBank machine with
        start := toInt (strtol (argument.take (argument.findIdx (· = ','))))
        stop := toInt (strtol (argument.take (argument.findIdx (· = ',')))) },
        BitVec.ofInt 8 (strtol (argument.drop (argument.findIdx (· = ',') + 1))), ?_, rfl, ?_⟩
      · rw [Command.checkedPoke, hargv]
        exact if_neg hcomma
      · split
        next hok => exact .inr ⟨hok, rfl⟩
        next => exact .inl rfl

theorem fill_issues (machine : Machine) (env : Env) (self : Command) :
    (self.fill machine env).issues = [] ∨ ∃ (text : List Char) (filled : Command) (value : Byte),
      self.argv.head? = some text ∧ (Command.fillRange text).valid = true ∧
      self.checkedFill machine = some filled ∧ filled.range = Command.fillRange text ∧
      Guarded (filled.serverUsable machine env)
        (.load filled.memory filled.bank filled.start (filled.range.size % 2 ^ 32)
          (List.replicate filled.range.size.toNat value)) (self.fill machine env).issues := by
  unfold Command.fill
  split
  next text value rest hargv =>
    simp only
    split
    next hvalid =>
      refine .inr ⟨text, { self.applyMemoryAndBank machine with
        start := (Command.fillRange text).start
        stop := (Command.fillRange text).stop }, BitVec.ofInt 8 (strtol value), by rw [hargv]; rfl,
        hvalid, ?_, rfl, ?_⟩
      · rw [Command.checkedFill, hargv]
        exact if_pos hvalid
      · split
        next hok => exact .inr ⟨hok, rfl⟩
        next => exact .inl rfl
    next => exact .inl rfl
  · exact .inl rfl

theorem mem_benchmarkRelocation {issue : Issue}
    (h : issue ∈ Command.benchmarkRelocation machine env) :
    ∃ address, issue = .relocate address := by
  unfold Command.benchmarkRelocation at h
  split at h
  · split at h
    · exact ⟨_, List.mem_singleton.mp h⟩
    · cases h
  · cases h

theorem benchmark_issues (machine : Machine) (env : Env) (self : Command) :
    (self.benchmark machine env).issues = [] ∨
      ∃ (memory bank : Byte) (payload : List Byte) (after : List Issue),
      payload.length = (self.benchmarkRange machine).size.toNat ∧
      (∀ issue ∈ after, issue = .save memory bank (self.benchmarkRange machine).start
        ((self.benchmarkRange machine).size % 2 ^ 32)) ∧
      (self.benchmark machine env).issues = Command.benchmarkRelocation machine env ++
        .load memory bank (self.benchmarkRange machine).start
          ((self.benchmarkRange machine).size % 2 ^ 32) payload :: after := by
  unfold Command.benchmark
  simp only
  split
  · split
    · exact .inr ⟨_, _, _, _, by rw [List.length_map, List.length_range],
        fun _ h => List.mem_singleton.mp h, rfl⟩
    · exact .inr ⟨_, _, _, [], by rw [List.length_map, List.length_range],
        fun _ h => absurd h List.not_mem_nil, rfl⟩
  · exact .inl rfl

end Issues

/-! ## The transfers of each command -/

section Transfers

variable {machine : Machine} {env : Env} {self : Command}

/-- The one transfer of a load. -/
theorem transfer_load {issue : Issue} {transfer : Int × Int}
    (hissue : issue ∈ (self.load machine env).issues) (htransfer : issue.transfer = some transfer) :
    ∃ filename file, self.argv.head? = some filename ∧ env.file filename = some file ∧
      transfer = ((self.loadFrom env file).1, self.loadSize env file % 2 ^ 32) := by
  obtain h | ⟨filename, file, hargv, hfile, h⟩ := load_issues machine env self
  · rw [h] at hissue
    cases hissue
  · obtain ⟨address, rfl⟩ | ⟨rfl, -, -⟩ := h.mem (fun _ h => mem_loadUsable h) hissue
    · cases htransfer
    · exact ⟨filename, file, hargv, hfile, (Option.some.inj htransfer).symm⟩

/-- A run with a file transfers what its load does. -/
theorem transfer_run {issue : Issue} {transfer : Int × Int}
    (hissue : issue ∈ (self.run machine env).issues) (htransfer : issue.transfer = some transfer) :
    issue ∈ (self.load machine env).issues := by
  obtain ⟨after, hafter, h⟩ := run_issues machine env self
  have hnot : issue ∉ after := by
    intro hin
    obtain rfl | ⟨memory, bank, address, rfl⟩ := hafter issue hin
    · cases htransfer
    · cases htransfer
  rcases h with h | h
  · rw [h] at hissue
    exact (List.mem_append.mp hissue).resolve_right hnot
  · rw [h] at hissue
    exact absurd hissue hnot

theorem transfer_save {issue : Issue} {transfer : Int × Int}
    (hissue : issue ∈ (self.save machine env).issues) (htransfer : issue.transfer = some transfer) :
    ∃ saved, self.Saves machine env saved ∧
      transfer = (saved.start, toInt (saved.stop - saved.start) % 2 ^ 32) := by
  obtain h | ⟨saved, memory, bank, hsaved, h⟩ := save_issues machine env self
  · rw [h] at hissue
    cases hissue
  · rw [h] at hissue
    obtain rfl := List.mem_singleton.mp hissue
    exact ⟨saved, hsaved, (Option.some.inj htransfer).symm⟩

theorem transfer_poke {issue : Issue} (hissue : issue ∈ (self.poke machine env).issues) :
    issue.transfer = none := by
  obtain h | ⟨poked, value, -, -, h⟩ := poke_issues machine env self
  · rw [h] at hissue
    cases hissue
  · obtain ⟨address, rfl⟩ | ⟨rfl, -, -⟩ := h.mem (fun _ h => mem_serverUsable h) hissue
    · rfl
    · rfl

theorem transfer_fill {issue : Issue} {transfer : Int × Int}
    (hissue : issue ∈ (self.fill machine env).issues) (htransfer : issue.transfer = some transfer) :
    ∃ text, self.argv.head? = some text ∧ (Command.fillRange text).valid = true ∧
      transfer = ((Command.fillRange text).start, (Command.fillRange text).size % 2 ^ 32) := by
  obtain h | ⟨text, filled, value, hargv, hvalid, -, hrange, h⟩ := fill_issues machine env self
  · rw [h] at hissue
    cases hissue
  · obtain ⟨address, rfl⟩ | ⟨rfl, -, -⟩ := h.mem (fun _ h => mem_serverUsable h) hissue
    · cases htransfer
    · refine ⟨text, hargv, hvalid, ?_⟩
      rw [← hrange]
      exact (Option.some.inj htransfer).symm

theorem transfer_benchmark {issue : Issue} {transfer : Int × Int}
    (hissue : issue ∈ (self.benchmark machine env).issues)
    (htransfer : issue.transfer = some transfer) :
    transfer = ((self.benchmarkRange machine).start,
      (self.benchmarkRange machine).size % 2 ^ 32) := by
  obtain h | ⟨memory, bank, payload, after, -, hafter, h⟩ := benchmark_issues machine env self
  · rw [h] at hissue
    cases hissue
  · rw [h] at hissue
    rcases List.mem_append.mp hissue with hin | hin
    · obtain ⟨address, rfl⟩ := mem_benchmarkRelocation hin
      cases htransfer
    · rcases List.mem_cons.mp hin with rfl | hin
      · exact (Option.some.inj htransfer).symm
      · obtain rfl := hafter issue hin
        exact (Option.some.inj htransfer).symm

/-- The pointers of BASIC are 16 bits each. -/
theorem findBasicProgram_bounds {found : Command}
    (h : self.findBasicProgram machine env = some found) :
    0 ≤ found.start ∧ found.start < 0x10000 ∧ 0 ≤ found.stop ∧ found.stop < 0x10000 := by
  unfold Command.findBasicProgram at h
  split at h
  next startHigh startLow stopHigh stopLow _ _ _ _ =>
    have hstart := (word startHigh startLow).isLt
    have hstop := (word stopHigh stopLow).isLt
    simp only at h
    split at h
    · cases h
      simp only
      omega
    · cases h
  · cases h

/-- A save from `start` to `stop` is well formed if that is the right way round. -/
theorem wellFormed_save {saved : Command} (hself : Parsed self)
    (hsaved : self.Saves machine env saved) :
    WellFormed saved.start (toInt (saved.stop - saved.start) % 2 ^ 32) ↔
      (self.start = -1 → saved.start < saved.stop) := by
  obtain ⟨hfound, hstop⟩ := hsaved
  by_cases hstart : self.start = -1
  · rw [if_pos hstart] at hfound
    obtain ⟨h₀, h₁, h₂, h₃⟩ := findBasicProgram_bounds hfound
    rw [wellFormed_iff h₀, toInt_of_small (by omega) (by omega)]
    constructor
    · rintro ⟨hpos, htop⟩ -
      omega
    · intro h
      have hless := h hstart
      omega
  · rw [if_neg hstart] at hfound
    obtain rfl := Option.some.inj hfound
    rcases hself.range with ⟨h, -⟩ | ⟨h₀, h₁, h | ⟨h₂, h₃⟩⟩
    · exact absurd h hstart
    · exact absurd h hstop
    · rw [wellFormed_iff h₀, toInt_of_small (by omega) (by omega)]
      exact iff_of_true (by omega) fun h => absurd h hstart

theorem Range.size_of_valid {range : Range} (h : range.valid = true) :
    range.size % 2 ^ 32 = range.stop - range.start := by
  obtain ⟨h₀, h₁, h₂⟩ := Range.valid_iff.mp h
  rw [Range.size, toInt_of_small (by omega) (by omega)]
  omega

/-- The range of a benchmark is one of the options or of the machine table. -/
theorem benchmarkRange_bounds (type : MachineType) (hself : Parsed self) :
    0 ≤ (self.benchmarkRange (.ofType type)).start ∧
      (self.benchmarkRange (.ofType type)).start < (self.benchmarkRange (.ofType type)).stop ∧
      (self.benchmarkRange (.ofType type)).stop ≤ 0x10000 := by
  unfold Command.benchmarkRange
  split
  next hgiven =>
    rcases hself.range with ⟨h, -⟩ | ⟨h₀, -, h | ⟨h₂, h₃⟩⟩
    · exact absurd h hgiven.1
    · exact absurd h hgiven.2
    · exact ⟨h₀, h₂, h₃⟩
  next =>
    cases type with
    | c64 => decide
    | c128 => decide

end Transfers

/-! ## The main result -/

/-- When the transfers of a command are well formed: a load or a run has bytes to send and they fit
into memory, the pointers of BASIC are the right way round, a fill has a range that is not empty. -/
def Command.Fits (machine : Machine) (env : Env) (self : Command) : CommandId → Prop
  | .load | .run => ∀ filename file, self.argv.head? = some filename →
    env.file filename = some file → self.FitsLoad env file
  | .save => self.start = -1 → ∀ found, self.findBasicProgram machine env = some found →
    found.start < found.stop
  | .fill => ∀ text, self.argv.head? = some text →
    (Command.fillRange text).start ≠ (Command.fillRange text).stop
  | _ => True

/-- **Every transfer a command issues is well formed exactly if `Fits` says so**, for any options
that are accepted, in any order and number, any arguments and any environment. -/
theorem transfers_well_formed {type : MachineType} {env : Env} {id : CommandId}
    {argv : List (List Char)} {options : List Opt} {self : Command}
    (hparse : (Command.new argv).parseOptions options = some self) {issue : Issue}
    (hissue : issue ∈ (self.execute (.ofType type) env id).issues) {address size : Int}
    (htransfer : issue.transfer = some (address, size)) :
    WellFormed address size ↔ self.Fits (.ofType type) env id := by
  have hself : Parsed self := parsed_parseOptions (parsed_new argv) hparse
  have hload : issue ∈ (self.load (.ofType type) env).issues → (WellFormed address size ↔
      ∀ filename file, self.argv.head? = some filename → env.file filename = some file →
        self.FitsLoad env file) := by
    intro h
    obtain ⟨filename, file, hargv, hfile, heq⟩ := transfer_load h htransfer
    cases heq
    rw [wellFormed_load hself]
    constructor
    · intro hfits filename' file' hargv' hfile'
      cases hargv.symm.trans hargv'
      cases hfile.symm.trans hfile'
      exact hfits
    · intro hfits
      exact hfits filename file hargv hfile
  cases id with
  | load => exact hload hissue
  | run => exact hload (transfer_run hissue htransfer)
  | save =>
    obtain ⟨saved, hsaved, heq⟩ := transfer_save hissue htransfer
    cases heq
    rw [wellFormed_save hself hsaved]
    constructor
    · intro h hstart found hfound
      have hsame := hsaved.1
      rw [if_pos hstart, hfound] at hsame
      cases hsame
      exact h hstart
    · intro h hstart
      have hfound := hsaved.1
      rw [if_pos hstart] at hfound
      exact h hstart saved hfound
  | fill =>
    obtain ⟨text, hargv, hvalid, heq⟩ := transfer_fill hissue htransfer
    cases heq
    obtain ⟨h₀, h₁, h₂⟩ := Range.valid_iff.mp hvalid
    rw [Range.size_of_valid hvalid, wellFormed_iff h₀]
    constructor
    · rintro ⟨hpos, -⟩ text' hargv'
      cases hargv.symm.trans hargv'
      omega
    · intro h
      have hne := h text hargv
      omega
  | poke =>
    rw [transfer_poke hissue] at htransfer
    cases htransfer
  | benchmark =>
    obtain ⟨h₀, h₁, h₂⟩ := benchmarkRange_bounds type hself
    cases transfer_benchmark hissue htransfer
    rw [Range.size_of_valid (Range.valid_iff.mpr ⟨h₀, by omega, h₂⟩), wellFormed_iff h₀]
    exact iff_of_true (by omega) trivial

/-- A KERNAL server answers, and the files are these. -/
def romEnv (file : List Char → Option (List Byte)) : Env where
  file := file
  garbage := (0x00#8, 0x00#8)
  writable := fun _ => true
  rand := fun _ => 0x00#8
  identify := some ⟨serverTypeRom, 0xe000#16, 0xffff#16, 0x1fff#16, 0xa000#16⟩
  peek := fun _ => some 0x00#8
  ping := true
  relocate := true
  load := true
  save := some []
  poke := true
  jump := true
  run := true

/-- A byte is loaded to `$1000`. -/
theorem transfers_well_formed_byte :
    WellFormed 0x1000 1 ↔ Command.Fits (.ofType .c64) (romEnv fun _ => some [0x01#8])
      ⟨0xff#8, 0xff#8, 0x1000, -1, -1, false, [['f']]⟩ .load :=
  @transfers_well_formed .c64 _ .load [['f']] [.address "0x1000".toList] _ rfl
    (.load 0x37#8 0x00#8 0x1000 1 [0x01#8]) (List.mem_singleton.mpr rfl) _ _ rfl

/-- An empty file is loaded to `$1000`, by a transfer of no bytes whose header says 65536. -/
theorem empty_file_transferred :
    (Command.new [['f']]).parseOptions [.address "0x1000".toList] =
        some ⟨0xff#8, 0xff#8, 0x1000, -1, -1, false, [['f']]⟩ ∧
      (Command.execute (.ofType .c64) (romEnv fun _ => some [])
        ⟨0xff#8, 0xff#8, 0x1000, -1, -1, false, [['f']]⟩ .load).issues.map Issue.transfer =
          [some (0x1000, 0)] ∧
      ¬WellFormed 0x1000 0 ∧ impliedSize 0x1000#16 0x1000#16 = 0x10000 := by
  refine ⟨rfl, rfl, ?_, rfl⟩
  intro h
  exact absurd h.pos (by decide)

end Xlink.Client
