import Xlink.Client.WellFormed

/-!
# Saving and loading a file

`command_save` writes the start address in front of the bytes if the name of the file ends in
`.prg`; `command_load` takes it from there unless it is given an address. The save finds the ending
by counting back four characters from the end of the name, and so looks in front of a name that has
less.

What is in memory in front of a name is not the program's to read. It is a parameter, so that
`save_load_round_trip` holds whatever is there. The result is about the file: the bytes a save has
got are in it, and a load of it sends them to where they come from, for every name, range and
content. That a server gives back what it has been sent is in `Server.LoadSave`.
-/

namespace Xlink.Client

open Word

/-! ## The file of a save -/

/-- The ending of a PRG file. -/
def prg : List Char := ".prg".toList

/-- `strncasecmp(filename + strlen(filename) - 4, ".prg", 4) == 0`, with what is in memory in front
of the name. -/
def hasPrgSuffix (before filename : List Char) : Bool :=
  ((before ++ filename).drop (before.length + filename.length - 4)).map Char.toLower = prg

/-- The lower two bytes of the start, on a little-endian host. -/
def header (start : Int) : List Byte := [lo (BitVec.ofInt 16 start), hi (BitVec.ofInt 16 start)]

/-- The name and the bytes of the file that `command_save` writes. A transfer that fails leaves the
file empty. -/
def Command.saveFile (before : List Char) (machine : Machine) (env : Env) (self : Command) :
    Option (List Char × List Byte) :=
  match self.argv with
  | [] => none
  | filename :: _ =>
    match if self.start = -1 then self.findBasicProgram machine env else some self with
    | none => none
    | some saved =>
      if saved.stop = -1 then none
      else if env.writable filename then
        match env.save with
        | none => some (filename, [])
        | some data =>
          some (filename, (if hasPrgSuffix before filename then header saved.start else []) ++ data)
      else none

/-- A name ends in `.prg`, in upper or lower case. -/
def EndsPrg (filename : List Char) : Prop :=
  ∃ stem ending, filename = stem ++ ending ∧ ending.map Char.toLower = prg

section Suffix

variable {before filename : List Char}

theorem length_ending {ending : List Char} (h : ending.map Char.toLower = prg) :
    ending.length = 4 := by
  have hlength := congrArg List.length h
  rw [List.length_map] at hlength
  exact hlength

theorem endsPrg_iff (text : List Char) :
    EndsPrg text ↔ (text.drop (text.length - 4)).map Char.toLower = prg := by
  constructor
  · rintro ⟨stem, ending, rfl, hending⟩
    rw [List.length_append, length_ending hending, Nat.add_sub_cancel, List.drop_left]
    exact hending
  · intro h
    exact ⟨text.take (text.length - 4), _, (List.take_append_drop _ _).symm, h⟩

/-- The save looks at the name and at what is in front of it. -/
theorem hasPrgSuffix_iff : hasPrgSuffix before filename = true ↔ EndsPrg (before ++ filename) := by
  rw [hasPrgSuffix, decide_eq_true_iff, endsPrg_iff, List.length_append]

/-- Of a name with four characters, nothing else is looked at. -/
theorem endsPrg_append (h : 4 ≤ filename.length) :
    EndsPrg (before ++ filename) ↔ EndsPrg filename := by
  have hdrop : (before ++ filename).drop ((before ++ filename).length - 4) =
      filename.drop (filename.length - 4) := by
    rw [List.length_append, Nat.add_sub_assoc h, List.drop_append, List.drop_of_length_le
      (Nat.le_add_right _ _), List.nil_append, Nat.add_sub_cancel_left]
  rw [endsPrg_iff, hdrop, endsPrg_iff]

theorem length_of_endsPrg (h : EndsPrg filename) : 4 ≤ filename.length := by
  obtain ⟨stem, ending, rfl, hending⟩ := h
  rw [List.length_append, length_ending hending]
  exact Nat.le_add_left 4 _

end Suffix

/-! ## Options of a load -/

/-- An option other than `--address` and `--skip`. -/
def Opt.IsPlain : Opt → Prop
  | .address _ => False
  | .skip _ => False
  | _ => True

/-- The range, the skip and the arguments of a command are the same. -/
structure SamePlace (c d : Command) : Prop where
  start : d.start = c.start
  stop : d.stop = c.stop
  skip : d.skip = c.skip
  argv : d.argv = c.argv

section Options

variable {self parsed : Command}

theorem samePlace_parseOption {option : Opt} (hplain : option.IsPlain)
    (h : self.parseOption option = some parsed) : SamePlace self parsed := by
  cases option with
  | address optarg => exact hplain.elim
  | skip optarg => exact hplain.elim
  | memory optarg =>
    cases h
    exact ⟨rfl, rfl, rfl, rfl⟩
  | bank optarg =>
    cases h
    exact ⟨rfl, rfl, rfl, rfl⟩
  | force =>
    cases h
    exact ⟨rfl, rfl, rfl, rfl⟩

theorem samePlace_parseOptions {options : List Opt} (hplain : ∀ option ∈ options, option.IsPlain)
    (h : self.parseOptions options = some parsed) : SamePlace self parsed := by
  induction options generalizing self with
  | nil =>
    cases h
    exact ⟨rfl, rfl, rfl, rfl⟩
  | cons option options ih =>
    simp only [Command.parseOptions, List.foldlM_cons, Option.bind_eq_bind,
      Option.bind_eq_some_iff] at h
    obtain ⟨next, hnext, hrest⟩ := h
    have hfirst := samePlace_parseOption (hplain option List.mem_cons_self) hnext
    have hothers := ih (fun other hother => hplain other (List.mem_cons_of_mem _ hother)) hrest
    exact ⟨hothers.start.trans hfirst.start, hothers.stop.trans hfirst.stop,
      hothers.skip.trans hfirst.skip, hothers.argv.trans hfirst.argv⟩

/-- Options with one `--address`, of a start without an end. -/
theorem parseOptions_address {before after : List Opt} {text : List Char} {start : Int}
    (hbefore : ∀ option ∈ before, option.IsPlain) (hafter : ∀ option ∈ after, option.IsPlain)
    (htext : toInt (strtol text) = start) (hdash : afterDash text = none)
    (h : self.parseOptions (before ++ .address text :: after) = some parsed) :
    parsed.start = start ∧ parsed.stop = self.stop ∧ parsed.skip = self.skip ∧
      parsed.argv = self.argv := by
  simp only [Command.parseOptions, List.foldlM_append, List.foldlM_cons, Option.bind_eq_bind,
    Option.bind_eq_some_iff] at h
  obtain ⟨first, hfirst, second, hsecond, hrest⟩ := h
  have hplain := samePlace_parseOptions hbefore hfirst
  have hplain' := samePlace_parseOptions hafter hrest
  have haddress : second.start = start ∧ second.stop = first.stop ∧ second.skip = first.skip ∧
      second.argv = first.argv := by
    simp only [Command.parseOption, htext, hdash] at hsecond
    split at hsecond
    next =>
      split at hsecond
      next =>
        cases hsecond
        exact ⟨rfl, rfl, rfl, rfl⟩
      next => cases hsecond
    next => cases hsecond
  obtain ⟨hstart, hstop, hskip, hargv⟩ := haddress
  exact ⟨hplain'.start.trans hstart, hplain'.stop.trans (hstop.trans hplain.stop),
    hplain'.skip.trans (hskip.trans hplain.skip), hplain'.argv.trans (hargv.trans hplain.argv)⟩

end Options

/-! ## Loading back -/

/-- A load of a file transfers these bytes to this start: it does if the server is usable, and it
transfers nothing else. -/
structure LoadsBack (machine : Machine) (env : Env) (c : Command) (file : List Byte) (start : Int)
    (data : List Byte) : Prop where
  same : ∀ memory bank address size bytes,
    .load memory bank address size bytes ∈ (c.load machine env).issues →
      address = start ∧ size = data.length ∧ bytes = data
  called : (((c.loadRange env file).applyLoadMemoryAndBank machine).loadUsable machine env).1 =
      true → ∃ memory bank,
        .load memory bank start data.length data ∈ (c.load machine env).issues

section LoadsBack

variable {machine : Machine} {env : Env} {self : Command} {file data : List Byte} {start : Int}

/-- A load transfers one thing, if the server is usable. -/
theorem load_mem {filename : List Char} (hargv : self.argv.head? = some filename)
    (hfile : env.file filename = some file) {memory bank : Byte} {address size : Int}
    (h : .load memory bank address size data ∈ (self.load machine env).issues) :
    .load memory bank address size data = self.loadIssue machine env file := by
  obtain hnil | ⟨filename', file', hargv', hfile', hguarded⟩ := load_issues machine env self
  · rw [hnil] at h
    cases h
  · obtain rfl : filename = filename' := Option.some.inj (hargv.symm.trans hargv')
    obtain rfl : file = file' := Option.some.inj (hfile.symm.trans hfile')
    obtain ⟨other, hrelocate⟩ | ⟨hload, -, -⟩ :=
      hguarded.mem (fun _ h => mem_loadUsable h) h
    · cases hrelocate
    · exact hload

theorem mem_load {filename : List Char} (hargv : self.argv.head? = some filename)
    (hfile : env.file filename = some file)
    (husable : (((self.loadRange env file).applyLoadMemoryAndBank machine).loadUsable machine
      env).1 = true) : self.loadIssue machine env file ∈ (self.load machine env).issues := by
  have hstart : ((self.loadRange env file).applyLoadMemoryAndBank machine).start =
    (self.loadFrom env file).1 := start_applyLoadMemoryAndBank ..
  cases hargs : self.argv with
  | nil =>
    rw [hargs] at hargv
    cases hargv
  | cons first rest =>
    rw [hargs] at hargv
    cases hargv
    simp only [Command.load, hargs, hfile, if_pos husable, hstart]
    exact List.mem_append_right _ (List.mem_singleton_self _)

/-- A load from some position of a file whose bytes fit into memory. -/
theorem loadsBack {filename : List Char} {skip : Nat} (hargv : self.argv.head? = some filename)
    (hfile : env.file filename = some file)
    (hfrom : self.loadFrom env file = (start, (skip : Int))) (hstop : self.stop = -1)
    (hskip : skip ≤ file.length) (hdata : file.drop skip = data) (hlow : 0 ≤ start)
    (hsize : start + data.length ≤ 0x10000) : LoadsBack machine env self file start data := by
  have hlength : (data.length : Int) = file.length - skip := by
    rw [← hdata, List.length_drop]
    omega
  have hloaded : self.loadSize env file = data.length := by
    have hend : toInt (start + (file.length - skip)) = start + data.length := by
      rw [hlength]
      exact toInt_of_small (by omega) (by omega)
    rw [loadSize_eq]
    simp only [Command.loadRange, if_pos hstop, hfrom, hend]
    rw [toInt_of_small (x := start + data.length - start) (by omega) (by omega)]
    omega
  have hbytes : self.loadData env file = data := by
    simp only [Command.loadData, hloaded, hfrom]
    rw [if_pos (Int.natCast_nonneg skip), Int.toNat_natCast, Int.toNat_natCast, hdata,
      List.take_length, Nat.sub_self, List.replicate_zero, List.append_nil]
  have hmod : (data.length : Int) % 2 ^ 32 = data.length := Int.emod_eq_of_lt (by omega) (by omega)
  have hissue : self.loadIssue machine env file = .load
      ((self.loadRange env file).applyLoadMemoryAndBank machine).memory
      ((self.loadRange env file).applyLoadMemoryAndBank machine).bank start data.length data := by
    rw [Command.loadIssue, hfrom, hbytes, hloaded, hmod]
  constructor
  · intro memory bank address size bytes hin
    have hload := load_mem hargv hfile hin
    rw [hissue] at hload
    cases hload
    exact ⟨rfl, rfl, rfl⟩
  · intro husable
    have hin := mem_load hargv hfile husable
    rw [hissue] at hin
    exact ⟨_, _, hin⟩

end LoadsBack

/-! ## Save and load -/

/-- The options a saved file is loaded with: neither `--address` nor `--skip` for a PRG file, and
the start as `--address` for any other. -/
inductive LoadsWith (filename : List Char) (start : Int) : List Opt → Prop
  | prg {options : List Opt} (hprg : EndsPrg filename)
      (hplain : ∀ option ∈ options, option.IsPlain) : LoadsWith filename start options
  | other {before after : List Opt} {text : List Char} (hprg : ¬EndsPrg filename)
      (hbefore : ∀ option ∈ before, option.IsPlain) (hafter : ∀ option ∈ after, option.IsPlain)
      (htext : toInt (strtol text) = start) (hdash : afterDash text = none) :
      LoadsWith filename start (before ++ .address text :: after)

/-- The file of a save has the start in front if and only if its name ends in `.prg`, and a load of
it transfers what has been saved to where it has been. -/
structure RoundTrips (before : List Char) (machine : Machine) (env : Env) (c : Command)
    (filename : List Char) (start : Int) (data : List Byte) : Prop where
  file : ∃ front, c.saveFile before machine env = some (filename, front ++ data) ∧
    (EndsPrg filename → front = header start) ∧ (¬EndsPrg filename → front = [])
  loads : ∀ file, c.saveFile before machine env = some (filename, file) →
    ∀ (type : MachineType) (env' : Env) (options : List Opt) (loading : Command),
      env'.file filename = some file → (Command.new [filename]).parseOptions options = some loading →
        LoadsWith filename start options →
          LoadsBack (.ofType type) env' loading file start data

section RoundTrip

variable {before filename : List Char} {machine : Machine} {env : Env} {self saved : Command}
  {data file : List Byte} {start : Int}

theorem saveFile_eq (hargv : self.argv.head? = some filename) (hsaved : self.Saves machine env saved)
    (hwritable : env.writable filename = true) (hsave : env.save = some data) :
    self.saveFile before machine env = some (filename,
      (if hasPrgSuffix before filename then header saved.start else []) ++ data) := by
  obtain ⟨hrange, hstop⟩ := hsaved
  cases hargs : self.argv with
  | nil =>
    rw [hargs] at hargv
    cases hargv
  | cons first rest =>
    rw [hargs] at hargv
    cases hargv
    simp only [Command.saveFile, hargs, hrange, if_neg hstop, if_pos hwritable, hsave]

/-- The start is read back from the front of a PRG file. -/
theorem loadAddress_header (hlow : 0 ≤ start) (hhigh : start < 0x10000) :
    ((Command.loadAddress env (header start ++ data)).toNat : Int) = start := by
  show ((word (hi (BitVec.ofInt 16 start)) (lo (BitVec.ofInt 16 start))).toNat : Int) = start
  rw [word_hi_lo, BitVec.toNat_ofInt]
  omega

theorem loads_prg {options : List Opt} {loading : Command}
    (hplain : ∀ option ∈ options, option.IsPlain)
    (hoptions : (Command.new [filename]).parseOptions options = some loading)
    (hfile : env.file filename = some (header start ++ data)) (hlow : 0 ≤ start)
    (hhigh : start < 0x10000) (hsize : start + data.length ≤ 0x10000) :
    LoadsBack machine env loading (header start ++ data) start data := by
  obtain ⟨hstart, hstop, hskip, hargv⟩ := samePlace_parseOptions hplain hoptions
  have hfrom : loading.loadFrom env (header start ++ data) = (start, ((2 : Nat) : Int)) := by
    rw [Command.loadFrom, hstart, hskip]
    show (((Command.loadAddress env (header start ++ data)).toNat : Int), (2 : Int)) = _
    rw [loadAddress_header hlow hhigh]
    rfl
  have hhead : loading.argv.head? = some filename := by
    rw [hargv]
    rfl
  refine loadsBack hhead hfile hfrom hstop ?_ rfl hlow hsize
  rw [List.length_append]
  exact Nat.le_add_right 2 _

theorem loads_other {before after : List Opt} {text : List Char} {loading : Command}
    (hbefore : ∀ option ∈ before, option.IsPlain) (hafter : ∀ option ∈ after, option.IsPlain)
    (htext : toInt (strtol text) = start) (hdash : afterDash text = none)
    (hoptions : (Command.new [filename]).parseOptions (before ++ .address text :: after) =
      some loading)
    (hfile : env.file filename = some data) (hlow : 0 ≤ start)
    (hsize : start + data.length ≤ 0x10000) :
    LoadsBack machine env loading data start data := by
  obtain ⟨hstart, hstop, hskip, hargv⟩ := parseOptions_address hbefore hafter htext hdash hoptions
  have hfrom : loading.loadFrom env data = (start, ((0 : Nat) : Int)) := by
    rw [Command.loadFrom, hstart, hskip, if_neg (by omega)]
    rfl
  have hhead : loading.argv.head? = some filename := by
    rw [hargv]
    rfl
  exact loadsBack hhead hfile hfrom hstop (Nat.zero_le _) rfl hlow hsize

/-- A save and a load of the file go together if and only if the name has four characters, or does
not end in `.prg` with what is in memory in front of it. -/
theorem save_load_round_trip (hargv : self.argv.head? = some filename)
    (hsaved : self.Saves machine env saved) (hlow : 0 ≤ saved.start)
    (hless : saved.start < saved.stop) (hhigh : saved.stop ≤ 0x10000)
    (hwritable : env.writable filename = true) (hsave : env.save = some data)
    (hdata : (data.length : Int) = saved.stop - saved.start) :
    RoundTrips before machine env self filename saved.start data ↔
      4 ≤ filename.length ∨ ¬EndsPrg (before ++ filename) := by
  have hfile : self.saveFile before machine env = some (filename,
      (if hasPrgSuffix before filename then header saved.start else []) ++ data) :=
    saveFile_eq hargv hsaved hwritable hsave
  constructor
  · rintro ⟨⟨front, hfront, -, hother⟩, -⟩
    by_contra hnot
    obtain ⟨hshort, hending⟩ := not_or.mp hnot
    have hname : ¬EndsPrg filename := fun h => hshort (length_of_endsPrg h)
    rw [hfile, hother hname, if_pos (hasPrgSuffix_iff.mpr (not_not.mp hending))] at hfront
    have hlength := congrArg List.length (Prod.mk.inj (Option.some.inj hfront)).2
    rw [List.length_append, List.nil_append] at hlength
    have hheader : (header saved.start).length = 2 := rfl
    omega
  · intro hname
    have hsuffix : hasPrgSuffix before filename = true ↔ EndsPrg filename := by
      rw [hasPrgSuffix_iff]
      rcases hname with h | h
      · exact endsPrg_append h
      · constructor
        · intro hending
          exact absurd hending h
        · rintro ⟨stem, ending, rfl, hending⟩
          exact ⟨before ++ stem, ending, (List.append_assoc ..).symm, hending⟩
    refine ⟨⟨_, hfile, fun h => if_pos (hsuffix.mpr h), fun h => if_neg (mt hsuffix.mp h)⟩, ?_⟩
    intro file hsame type env' options loading hload hoptions hwith
    obtain rfl := (Prod.mk.inj (Option.some.inj (hfile.symm.trans hsame))).2
    cases hwith with
    | prg hprg hplain =>
      rw [if_pos (hsuffix.mpr hprg)] at hload ⊢
      exact loads_prg hplain hoptions hload hlow (by omega) (by omega)
    | other hprg hbefore hafter htext hdash =>
      rw [if_neg (mt hsuffix.mp hprg), List.nil_append] at hload ⊢
      exact loads_other hbefore hafter htext hdash hoptions hload hlow (by omega)

/-- `save -a 0x1000-0x1001 a.prg`, of a byte. -/
theorem save_load_round_trip_byte :
    RoundTrips [] (.ofType .c64) { romEnv (fun _ => none) with save := some [0x01#8] }
      ⟨0xff#8, 0xff#8, 0x1000, 0x1001, -1, false, ["a.prg".toList]⟩ "a.prg".toList 0x1000 [0x01#8] ↔
        4 ≤ "a.prg".toList.length ∨ ¬EndsPrg ([] ++ "a.prg".toList) :=
  @save_load_round_trip [] "a.prg".toList (.ofType .c64)
    { romEnv (fun _ => none) with save := some [0x01#8] }
    ⟨0xff#8, 0xff#8, 0x1000, 0x1001, -1, false, ["a.prg".toList]⟩
    ⟨0xff#8, 0xff#8, 0x1000, 0x1001, -1, false, ["a.prg".toList]⟩ [0x01#8] rfl
    ⟨rfl, by decide⟩ (by decide) (by decide) (by decide) rfl rfl rfl

/-- A file `prg` is a PRG file if there is a dot in front of its name in memory. -/
theorem prg_in_front :
    ¬∀ (before filename : List Char) (type : MachineType) (env : Env) (self saved : Command)
      (data : List Byte), self.argv.head? = some filename →
      self.Saves (.ofType type) env saved → 0 ≤ saved.start → saved.start < saved.stop →
      saved.stop ≤ 0x10000 → env.writable filename = true → env.save = some data →
      (data.length : Int) = saved.stop - saved.start →
        RoundTrips before (.ofType type) env self filename saved.start data := by
  intro h
  have hround := h ".".toList "prg".toList .c64
    { romEnv (fun _ => none) with save := some [0x01#8] }
    ⟨0xff#8, 0xff#8, 0x1000, 0x1001, -1, false, ["prg".toList]⟩
    ⟨0xff#8, 0xff#8, 0x1000, 0x1001, -1, false, ["prg".toList]⟩ [0x01#8] rfl ⟨rfl, by decide⟩
    (by decide) (by decide) (by decide) rfl rfl rfl
  obtain ⟨front, hfile, -, hother⟩ := hround.file
  have hname : ¬EndsPrg "prg".toList := fun h => absurd (length_of_endsPrg h) (by decide)
  rw [hother hname] at hfile
  exact absurd (congrArg (Option.map Prod.snd) hfile) (by decide)

end RoundTrip

end Xlink.Client
