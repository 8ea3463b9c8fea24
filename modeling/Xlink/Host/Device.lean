import Xlink.Host.Setup

/-!
# The path and the driver

`driver->path` and the table of functions belong together if the table is the one of the driver that
`device_identify` finds for the path. `driver_setup` sets the path before it looks at the device and
the table before it opens it; `DeviceCall.Good` says when the two still belong together afterwards.

`path_and_driver` is about runs of calls that meet this condition, over a file system that stays as
it is; and of the call that comes next it says that it does what it owes exactly if it meets the
condition too. The drivers answer their openings as they like. Only the Linux branch of the source
is modelled.
-/

namespace Xlink.Host

open Word Program Program.Prog

/-! ## What belongs together -/

/-- What `stat` finds for each path. -/
abbrev FileSystem := String → Stat

/-- The major number of a character device. -/
def Stat.major : Stat → Option Int
  | chr major => some major
  | _ => none

/-- The major number that `device_identify` reports. -/
def identified (fs : FileSystem) (path : String) : Option Int :=
  if path.toList.take 3 = "shm".toList then some (-1) else (fs path).major

/-- The driver of a path. -/
def driverOf (fs : FileSystem) (path : String) : Option DriverType :=
  (identified fs path).bind deviceType

/-- No driver has been selected, or the table is that of the driver of the path. -/
def Belongs (fs : FileSystem) (s : Lib) : Prop :=
  s.table = Table.initial ∨ ∃ type, s.table = Table.of type ∧ driverOf fs s.path = some type

/-- `stat` has answered from the file system. -/
def Sees (fs : FileSystem) (tr : List Event) : Prop :=
  ∀ path found, (⟨.stat path, found⟩ : Event) ∈ tr → found = fs path

/-- The results of the openings. -/
def attempts (tr : List Event) : List Bool := tr.filterMap Event.attempt

theorem attempts_append (tr tr' : List Event) :
    attempts (tr ++ tr') = attempts tr ++ attempts tr' := List.filterMap_append

/-- The path and the table are as they were. -/
def Kept (s t : Lib) : Prop := t.path = s.path ∧ t.table = s.table

section Together

variable {fs : FileSystem} {s t u : Lib} {tr tr' : List Event}

theorem Kept.trans (h : Kept s t) (h' : Kept t u) : Kept s u :=
  ⟨h'.1.trans h.1, h'.2.trans h.2⟩

theorem Sees.left (h : Sees fs (tr ++ tr')) : Sees fs tr :=
  fun path found hmem => h path found (List.mem_append_left _ hmem)

theorem Sees.right (h : Sees fs (tr ++ tr')) : Sees fs tr' :=
  fun path found hmem => h path found (List.mem_append_right _ hmem)

theorem belongs_congr (h : Kept s t) : Belongs fs t ↔ Belongs fs s := by
  rw [Belongs, Belongs, h.1, h.2]

theorem of_ne_initial (type : DriverType) : Table.of type ≠ Table.initial := by
  cases type <;> decide

end Together

/-! ## Setup -/

section Setup

variable {fs : FileSystem} {s : Lib} {device : Option String}

theorem kept_device (type : DriverType) :
    (openDevice type).wlp s fun tr ok t => Kept s t ∧ attempts tr = [ok] := by
  rw [openDevice, wlp_bind]
  apply wlp_call.mpr
  intro refusal
  cases refusal with
  | none =>
    simp only [clearErrorIf, wlp_bind, wlp_modify, wlp_pure]
    exact ⟨⟨rfl, rfl⟩, rfl⟩
  | some text =>
    simp only [setError, wlp_bind, wlp_modify, wlp_pure]
    exact ⟨⟨rfl, rfl⟩, rfl⟩

theorem kept_dispatch :
    (dispatchOpen stop).wlp s fun tr ok t => Kept s t ∧ attempts tr = [ok] := by
  rw [dispatchOpen, wlp_bind, wlp_get]
  cases s.table._open with
  | none => exact wlp_stop
  | some type => exact kept_device type

theorem kept_ready :
    (driver_ready (dispatchOpen stop)).wlp s fun tr ok t => Kept s t ∧ attempts tr = [ok] := by
  rw [driver_ready, done, wlp_bind, wlp_bind]
  apply wlp_mono kept_dispatch
  rintro tr ok t ⟨hkept, hattempts⟩
  rw [wlp_ite]
  cases ok with
  | true =>
    rw [if_pos rfl, wlp_bind]
    apply wlp_close
    intro type type'
    simp only [clearErrorIf, wlp_bind, wlp_modify, wlp_pure, attempts_append, hattempts]
    exact ⟨hkept, rfl⟩
  | false =>
    rw [if_neg (by decide)]
    simp only [clearErrorIf, wlp_bind, wlp_modify, wlp_pure, List.append_nil, hattempts]
    exact ⟨hkept, trivial⟩

/-- The table is filled whether the device opens or not. -/
theorem wlp_useDriver (type : DriverType) (path : String) :
    (useDriver type path).wlp s fun tr ok t =>
      t.path = s.path ∧ t.table = Table.of type ∧ attempts tr = [ok] := by
  rw [useDriver, wlp_bind, wlp_modify, wlp_bind]
  apply wlp_mono kept_ready
  rintro tr ok t ⟨⟨hpath, htable⟩, hattempts⟩
  rw [wlp_ite]
  cases ok with
  | true =>
    rw [if_pos rfl]
    apply wlp_pure.mpr
    rw [List.append_nil]
    exact ⟨hpath, htable, hattempts⟩
  | false =>
    rw [if_neg (by decide)]
    simp only [setError, wlp_bind, wlp_modify, wlp_pure, List.append_nil]
    exact ⟨hpath, htable, hattempts⟩

/-- From a state, with a trace, a setup of a path whose driver is `found` comes to a result and a
state: it fails without a driver, and has the result of the one opening otherwise. -/
def SetUp (found : Option DriverType) (s : Lib) (tr : List Event) (ok : Bool) (t : Lib) : Prop :=
  match found with
  | none => t.table = s.table ∧ attempts tr = [] ∧ ok = false
  | some type => t.table = Table.of type ∧ attempts tr = [ok]

theorem wlp_useMajor (path : String) (major : Int) : (useMajor path major).wlp s fun tr ok t =>
    t.path = s.path ∧ SetUp (deviceType major) s tr ok t := by
  unfold useMajor
  cases hmajor : deviceType major with
  | none =>
    simp only [setError, wlp_bind, wlp_modify, wlp_pure]
    exact ⟨trivial, rfl, rfl, rfl⟩
  | some type => exact wlp_useDriver type path

theorem wlp_detect (path : String) : (detect path).wlp s fun tr ok t => Sees fs tr →
    t.path = s.path ∧ SetUp (driverOf fs path) s tr ok t := by
  rw [detect, wlp_bind, device_identify, wlp_ite]
  split
  next hshm =>
    have hdriver : driverOf fs path = deviceType (-1) := by
      rw [driverOf, identified, if_pos hshm]
      rfl
    apply wlp_pure.mpr
    rw [hdriver]
    apply wlp_mono (wlp_useMajor path (-1))
    intro tr ok t h _
    exact h
  next hshm =>
    have hdriver : driverOf fs path = (fs path).major.bind deviceType := by
      rw [driverOf, identified, if_neg hshm]
    rw [wlp_bind]
    apply wlp_call.mpr
    intro found
    have hfound : ∀ tr, Sees fs ([⟨.stat path, found⟩] ++ tr) → fs path = found :=
      fun tr hsees => (hsees path found (by simp)).symm
    cases found with
    | failed reason =>
      simp only [setError, wlp_bind, wlp_modify, wlp_pure]
      intro hsees
      rw [List.append_assoc] at hsees
      rw [hdriver, hfound _ hsees]
      exact ⟨trivial, rfl, rfl, rfl⟩
    | other =>
      simp only [setError, wlp_bind, wlp_modify, wlp_pure]
      intro hsees
      rw [List.append_assoc] at hsees
      rw [hdriver, hfound _ hsees]
      exact ⟨trivial, rfl, rfl, rfl⟩
    | chr major =>
      simp only [clearErrorIf, wlp_bind, wlp_modify, wlp_pure]
      apply wlp_mono (wlp_useMajor path major)
      intro tr ok t h hsees
      rw [List.append_assoc] at hsees
      rw [hdriver, hfound _ hsees]
      exact h

/-- Clearing the error changes nothing here. -/
theorem SetUp.clear {found : Option DriverType} {t : Lib} {tr : List Event} {ok : Bool}
    {error : XlinkError} (h : SetUp found s tr ok t) :
    SetUp found s tr ok { t with error := error } := h

/-- **What a setup does**: the path is set in any case, the table if the path has a driver. -/
theorem wlp_setup (path : String) : (driver_setup path).wlp s fun tr ok t => Sees fs tr →
    t.path = path ∧ SetUp (driverOf fs path) s tr ok t := by
  rw [driver_setup, wlp_bind, wlp_modify, done, wlp_bind]
  apply wlp_mono (@wlp_detect fs _ path)
  intro tr ok t h
  simp only [clearErrorIf, wlp_bind, wlp_modify, wlp_pure, List.append_nil, List.nil_append]
  intro hsees
  obtain ⟨hpath, hsetup⟩ := h hsees
  cases ok with
  | true => exact ⟨hpath, hsetup.clear⟩
  | false => exact ⟨hpath, hsetup⟩

end Setup

/-! ## Steps -/

/-- `xlink_set_device`, or the opening of the device by some call. -/
inductive DeviceCall where
  | setDevice (path : String)
  | opens

def DeviceCall.prog (device : Option String) : DeviceCall → Prog Bool
  | setDevice path => driver_setup path
  | opens => driver_open device

/-- What is asked of a call: what belongs together afterwards, and nothing has changed if the device of
a selected driver was to be replaced and the call fails. -/
def DeviceCall.Keeps (fs : FileSystem) (c : DeviceCall) (s : Lib) (ok : Bool) (t : Lib) : Prop :=
  Belongs fs t ∧ (∀ path, c = .setDevice path → ok = false → s.table ≠ Table.initial → Kept s t)

/-- The conditions: no driver has been selected, or the path does not change, or it is that of a device
that opens. When the first default device has a driver but does not open, the second has one too. -/
def DeviceCall.Good (fs : FileSystem) (device : Option String) :
    DeviceCall → Lib → List Event → Prop
  | setDevice path, s, tr => s.table = Table.initial ∨ s.path = path ∨
    (driverOf fs path ≠ none ∧ true ∈ attempts tr)
  | opens, s, tr => s.table ≠ Table.initial ∨ device ≠ none ∨
    driverOf fs defaultUsbDevice = none ∨ driverOf fs defaultParportDevice ≠ none ∨
    true ∈ attempts tr

section Steps

variable {fs : FileSystem} {device : Option String} {s t u : Lib} {tr : List Event} {ok : Bool}

/-- After a setup, path and table belong together if the path has a driver or there was no driver
before. -/
theorem belongs_setup {path : String} (hpath : t.path = path)
    (hsetup : SetUp (driverOf fs path) s tr ok t) :
    Belongs fs t ↔ s.table = Table.initial ∨ driverOf fs path ≠ none := by
  unfold SetUp at hsetup
  cases hdriver : driverOf fs path with
  | none =>
    rw [hdriver] at hsetup
    rw [Belongs, hsetup.1, hpath, hdriver]
    simp
  | some type =>
    rw [hdriver] at hsetup
    refine iff_of_true (.inr ⟨type, hsetup.1, ?_⟩) (.inr (Option.some_ne_none _))
    rw [hpath, hdriver]

/-- A setup succeeds if the device opens. -/
theorem setUp_ok {found : Option DriverType} (hsetup : SetUp found s tr ok t) :
    ok = true ↔ true ∈ attempts tr := by
  unfold SetUp at hsetup
  cases found with
  | none =>
    obtain ⟨-, hattempts, rfl⟩ := hsetup
    rw [hattempts]
    simp
  | some type =>
    rw [hsetup.2]
    simp [eq_comm]

theorem setDevice_keeps {path : String} (hs : Belongs fs s) (hpath : t.path = path)
    (hsetup : SetUp (driverOf fs path) s tr ok t) :
    (DeviceCall.setDevice path).Keeps fs s ok t ↔
      (DeviceCall.setDevice path).Good fs device s tr := by
  have hbelongs := belongs_setup hpath hsetup
  have hok := setUp_ok hsetup
  constructor
  · rintro ⟨ht, hkept⟩
    by_cases hinitial : s.table = Table.initial
    · exact .inl hinitial
    · cases ok with
      | true => exact .inr (.inr ⟨(hbelongs.mp ht).resolve_left hinitial, hok.mp rfl⟩)
      | false =>
        obtain ⟨hsame, -⟩ := hkept path rfl rfl hinitial
        exact .inr (.inl (hsame.symm.trans hpath))
  · rintro (hinitial | hsame | ⟨hdriver, hopen⟩)
    · exact ⟨hbelongs.mpr (.inl hinitial), fun _ _ _ h => absurd hinitial h⟩
    · rcases hs with hinitial | ⟨type, hof, hdriver⟩
      · exact ⟨hbelongs.mpr (.inl hinitial), fun _ _ _ h => absurd hinitial h⟩
      · rw [hsame] at hdriver
        refine ⟨hbelongs.mpr (.inr (by rw [hdriver]; exact Option.some_ne_none _)), ?_⟩
        intro _ _ _ _
        unfold SetUp at hsetup
        rw [hdriver] at hsetup
        exact ⟨hpath.trans hsame.symm, hsetup.1.trans hof.symm⟩
    · refine ⟨hbelongs.mpr (.inr hdriver), ?_⟩
      intro _ _ hfail _
      exact absurd (hok.mpr hopen) (by rw [hfail]; decide)

/-- The rest of the automatic setup keeps the path and the table. -/
theorem kept_opening (ready : Bool) : (do
    if ready then dispatchOpen stop
    else if device.isNone then do
      setError .device
        s!"failed to initialize \"{defaultUsbDevice}\" or \"{defaultParportDevice}\" (autodetect)"
      pure false
    else pure false : Prog Bool).wlp s fun tr _ t => Kept s t ∧ (ready = false → attempts tr = []) := by
  rw [wlp_ite, wlp_ite]
  split
  next hready =>
    apply wlp_mono kept_dispatch
    rintro tr ok t ⟨hkept, -⟩
    exact ⟨hkept, fun h => absurd (hready.symm.trans h) (by decide)⟩
  · split
    · simp only [setError, wlp_bind, wlp_modify, wlp_pure]
      exact ⟨⟨rfl, rfl⟩, fun _ => rfl⟩
    · exact wlp_pure.mpr ⟨⟨rfl, rfl⟩, fun _ => rfl⟩

/-- The automatic setup of a library without a driver. -/
theorem belongs_autodetect (hs : s.table = Table.initial) :
    (autodetect device).wlp s fun tr ready t => Sees fs tr →
      (Belongs fs t ↔ device ≠ none ∨ driverOf fs defaultUsbDevice = none ∨
        driverOf fs defaultParportDevice ≠ none ∨ true ∈ attempts tr) ∧
      (ready = true ↔ true ∈ attempts tr) := by
  cases device with
  | some path =>
    apply wlp_mono (@wlp_setup fs _ path)
    intro tr ok t h hsees
    obtain ⟨hpath, hsetup⟩ := h hsees
    refine ⟨iff_of_true ?_ (.inl (Option.some_ne_none _)), setUp_ok hsetup⟩
    exact (belongs_setup hpath hsetup).mpr (.inl hs)
  | none =>
    rw [autodetect, wlp_bind]
    apply wlp_mono (@wlp_setup fs _ defaultUsbDevice)
    intro tr ok t h
    rw [wlp_ite]
    cases ok with
    | true =>
      rw [if_pos rfl]
      apply wlp_pure.mpr
      rw [List.append_nil]
      intro hsees
      obtain ⟨hpath, hsetup⟩ := h hsees
      refine ⟨iff_of_true ?_ ?_, setUp_ok hsetup⟩
      · exact (belongs_setup hpath hsetup).mpr (.inl hs)
      · exact .inr (.inr (.inr ((setUp_ok hsetup).mp rfl)))
    | false =>
      rw [if_neg (by decide)]
      apply wlp_mono (@wlp_setup fs _ defaultParportDevice)
      intro tr' ok' u h' hsees
      obtain ⟨hpath, hsetup⟩ := h hsees.left
      obtain ⟨hpath', hsetup'⟩ := h' hsees.right
      have hnot : true ∉ attempts tr := fun hmem => absurd ((setUp_ok hsetup).mpr hmem) (by decide)
      have hattempts : true ∈ attempts (tr ++ tr') ↔ true ∈ attempts tr' := by
        rw [attempts_append, List.mem_append]
        exact or_iff_right hnot
      have hinitial : t.table = Table.initial ↔ driverOf fs defaultUsbDevice = none := by
        unfold SetUp at hsetup
        cases hdriver : driverOf fs defaultUsbDevice with
        | none =>
          rw [hdriver] at hsetup
          exact iff_of_true (hsetup.1.trans hs) rfl
        | some type =>
          rw [hdriver] at hsetup
          rw [hsetup.1]
          exact iff_of_false (of_ne_initial type) (Option.some_ne_none _)
      have hopens : true ∈ attempts tr' → driverOf fs defaultParportDevice ≠ none := by
        intro hmem hdriver
        rw [hdriver] at hsetup'
        rw [hsetup'.2.1] at hmem
        exact absurd hmem List.not_mem_nil
      rw [hattempts]
      refine ⟨?_, setUp_ok hsetup'⟩
      rw [belongs_setup hpath' hsetup', hinitial]
      constructor
      · rintro (hnone | hsome)
        · exact .inr (.inl hnone)
        · exact .inr (.inr (.inl hsome))
      · rintro (hdevice | hnone | hsome | hmem)
        · exact absurd rfl hdevice
        · exact .inl hnone
        · exact .inr hsome
        · exact .inr (hopens hmem)

theorem belongs_open (hs : Belongs fs s) : (driver_open device).wlp s fun tr _ t => Sees fs tr →
    (Belongs fs t ↔ DeviceCall.opens.Good fs device s tr) := by
  rw [driver_open, dispatchOpen, wlp_bind, wlp_get]
  rcases hs with hinitial | ⟨type, hof, hdriver⟩
  · have hopen : s.table._open = none := by
      rw [hinitial]
      rfl
    rw [hopen]
    change (driver_setup_and_open device).wlp s _
    rw [driver_setup_and_open, done, wlp_bind, wlp_bind]
    apply wlp_mono (@belongs_autodetect fs _ _ hinitial)
    intro tr ready t h
    apply wlp_mono (kept_opening ready)
    rintro tr' ok u ⟨hkept, hnothing⟩
    simp only [clearErrorIf, wlp_bind, wlp_modify, wlp_pure, List.append_nil, List.nil_append]
    intro hsees
    obtain ⟨hbelongs, hready⟩ := h hsees.left
    have hclear : Kept t (if id ok then { u with error := ⟨.success, "Success"⟩ } else u) := by
      split
      · exact hkept
      · exact hkept
    have hopens : true ∈ attempts (tr ++ tr') ↔ true ∈ attempts tr := by
      rw [attempts_append, List.mem_append]
      refine or_iff_left_of_imp fun hmem => ?_
      cases ready with
      | true => exact hready.mp rfl
      | false =>
        rw [hnothing rfl] at hmem
        exact absurd hmem List.not_mem_nil
    have hfirst : ¬s.table ≠ Table.initial := fun h => h hinitial
    rw [belongs_congr hclear, hbelongs, DeviceCall.Good, hopens, or_iff_right hfirst]
  · have hopen : s.table._open = some type := by
      rw [hof]
      rfl
    rw [hopen]
    apply wlp_mono (kept_device type)
    rintro tr ok t ⟨hkept, -⟩ _
    refine iff_of_true ((belongs_congr hkept).mpr (.inr ⟨type, hof, hdriver⟩)) (.inl ?_)
    rw [hof]
    exact of_ne_initial type

/-- A step of a run: a call that finds the file system as it is and meets its condition. -/
def GoodStep (fs : FileSystem) (device : Option String) (s t : Lib) : Prop :=
  ∃ (c : DeviceCall) (tr : List Event) (ok : Bool),
    (c.prog device).Runs s tr ok t ∧ Sees fs tr ∧ c.Good fs device s tr

/-- What a call does to what belongs together. -/
theorem keeps_iff (c : DeviceCall) (hs : Belongs fs s) (hrun : (c.prog device).Runs s tr ok t)
    (hsees : Sees fs tr) : c.Keeps fs s ok t ↔ c.Good fs device s tr := by
  cases c with
  | setDevice path =>
    obtain ⟨hpath, hsetup⟩ := wlp_iff.mp (@wlp_setup fs _ path) _ _ _ hrun hsees
    exact setDevice_keeps hs hpath hsetup
  | opens =>
    have hbelongs := wlp_iff.mp (@belongs_open fs device _ hs) _ _ _ hrun hsees
    rw [← hbelongs]
    exact ⟨fun h => h.1, fun h => ⟨h, fun _ h => DeviceCall.noConfusion h⟩⟩

/-- **Path and driver belong together in every run of calls that meet their conditions**, from one in
which they do; and there the next call keeps them so, or fails without a change, exactly if it meets its
condition. -/
theorem path_and_driver (hs : Belongs fs s) (h : Relation.ReflTransGen (GoodStep fs device) s t) :
    Belongs fs t ∧ ∀ (c : DeviceCall) (tr : List Event) (ok : Bool) (u : Lib),
      (c.prog device).Runs t tr ok u → Sees fs tr → (c.Keeps fs t ok u ↔ c.Good fs device t tr) := by
  have ht : Belongs fs t := by
    induction h with
    | refl => exact hs
    | tail _ hstep ih =>
      obtain ⟨c, tr, ok, hrun, hsees, hgood⟩ := hstep
      exact ((keeps_iff c ih hrun hsees).mpr hgood).1
  exact ⟨ht, fun c tr ok u hrun hsees => keeps_iff c ht hrun hsees⟩

/-- A file system with a parallel port. -/
def parportFs : FileSystem := fun path =>
  if path = defaultParportDevice then .chr 99 else .failed "No such file or directory"

/-- The parallel port is found and tried. -/
def parportTrace : List Event :=
  [⟨.stat defaultParportDevice, .chr 99⟩, ⟨.prim .parport .opening, none⟩,
    ⟨.prim .parport .input, ()⟩, ⟨.prim .parport .close, ()⟩]

def parportLib : Lib :=
  { shmLib with path := defaultParportDevice, table := Table.of .parport }

theorem runs_parport : ((DeviceCall.setDevice defaultParportDevice).prog none).Runs shmLib
    parportTrace true parportLib :=
  ⟨.chr 99, _, rfl, none, _, rfl, (), _, rfl, (), _, rfl, rfl, rfl, rfl⟩

theorem belongs_shm (fs : FileSystem) : Belongs fs shmLib := .inr ⟨.shm, rfl, rfl⟩

theorem goodStep_parport : GoodStep parportFs none shmLib parportLib := by
  have hdriver : driverOf parportFs defaultParportDevice = some .parport := by
    simp [driverOf, identified, parportFs, defaultParportDevice, Stat.major, deviceType]
  refine ⟨.setDevice defaultParportDevice, parportTrace, true, runs_parport, ?_,
    .inr (.inr ⟨?_, ?_⟩)⟩
  · intro path found h
    simp only [parportTrace, List.mem_cons, List.not_mem_nil, or_false] at h
    rcases h with h | h | h | h
    · cases h
      rfl
    · cases h
    · cases h
    · cases h
  · rw [hdriver]
    exact Option.some_ne_none _
  · decide

theorem path_and_driver_parport : Belongs parportFs parportLib ∧
    ∀ (c : DeviceCall) (tr : List Event) (ok : Bool) (u : Lib),
      (c.prog none).Runs parportLib tr ok u → Sees parportFs tr →
        (c.Keeps parportFs parportLib ok u ↔ c.Good parportFs none parportLib tr) :=
  path_and_driver (belongs_shm parportFs) (.single goodStep_parport)

/-- A file system without devices. -/
def emptyFs : FileSystem := fun _ => .failed "No such file or directory"

/-- A device that is not there becomes the path of the driver that was used before. -/
theorem path_without_driver : ∃ tr t,
    ((DeviceCall.setDevice "/dev/none").prog none).Runs shmLib tr false t ∧ Sees emptyFs tr ∧
      Belongs emptyFs shmLib ∧ ¬Belongs emptyFs t ∧ t.path ≠ shmLib.path := by
  refine ⟨[⟨.stat "/dev/none", .failed "No such file or directory"⟩], _,
    ⟨_, _, rfl, rfl, rfl, rfl⟩, ?_, belongs_shm _, ?_, ?_⟩
  · intro path found h
    cases List.mem_singleton.mp h
    rfl
  · rintro (h | ⟨type, -, h⟩)
    · exact absurd h (by decide)
    · exact absurd h (by simp [driverOf, identified, emptyFs, Stat.major])
  · decide

end Steps

end Xlink.Host
