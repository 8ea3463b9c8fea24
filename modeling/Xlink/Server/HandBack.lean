import Xlink.Server.Transfers

/-!
# What the C64 servers hand back

After a request port B is input and the stack is what it was. The processor port is not saved: a
handler that has set it leaves it at `$37`, its default value.

`handed_back` says of each kind of request whether it needs the port changed, so that the entry
value is kept exactly if it does not or was `$37` already. It is about requests whose target stays
clear of the server's cells, the processor port and the cable, with any values in the registers and
any interrupted program's stack.
-/

namespace Xlink.Server

open Word Mos6502 Port

/-- The two listings for the C64. -/
def Listing.IsC64 : Listing → Prop
  | .server64 .. | .kernal64 .. => True
  | .server128 .. | .kernal128 .. => False

/-- The request is handled without a change of the processor port. -/
def Listing.Keeps : Listing → Transfer → Prop
  | _, .load memory _ _ _ => memory &&& 0x7f#8 = 0x37#8
  | _, .save memory _ _ _ => memory = 0x37#8
  | .kernal64 .., .poke memory _ _ _ => memory = 0x37#8
  | _, .poke .. => False
  | _, .peek .. => False
  | _, .identify => True

theorem loading_keeps {entry memory : Byte} (h : memory &&& 0x7f#8 = 0x37#8) :
    (loading entry memory).2 = entry := by
  rw [loading, if_pos h]

theorem loading_default {entry memory : Byte} (h : memory &&& 0x7f#8 ≠ 0x37#8) :
    (loading entry memory).2 = 0x37#8 := by
  rw [loading, if_neg h]

/-- The port after a request: what it was, or its default. -/
theorem Listing.leaves_eq {l : Listing} (hl : l.IsC64) (entry : Byte) (q : Transfer) :
    (l.Keeps q → l.leaves entry q = entry) ∧ (¬l.Keeps q → l.leaves entry q = 0x37#8) := by
  cases l with
  | server128 => exact hl.elim
  | kernal128 => exact hl.elim
  | server64 =>
    cases q with
    | load => exact ⟨loading_keeps, loading_default⟩
    | save memory =>
      refine ⟨?_, ?_⟩
      · intro h
        exact congrArg Prod.snd (if_pos h)
      · intro h
        exact congrArg Prod.snd (if_neg h)
    | poke => exact ⟨False.elim, fun _ => rfl⟩
    | peek => exact ⟨False.elim, fun _ => rfl⟩
    | identify => exact ⟨fun _ => rfl, fun h => absurd trivial h⟩
  | kernal64 =>
    cases q with
    | load => exact ⟨loading_keeps, loading_default⟩
    | save memory =>
      refine ⟨?_, ?_⟩
      · intro h
        exact congrArg Prod.snd (if_pos h)
      · intro h
        exact congrArg Prod.snd (if_neg h)
    | poke memory =>
      refine ⟨?_, ?_⟩
      · intro h
        exact congrArg Prod.snd (if_pos h)
      · intro h
        exact congrArg Prod.snd (if_neg h)
    | peek => exact ⟨False.elim, fun _ => rfl⟩
    | identify => exact ⟨fun _ => rfl, fun h => absurd trivial h⟩

/-- **The machine is handed back with port B as input and the stack as it was.** The processor port
is handed back as it was found if the request does not need it changed, and is `$37` otherwise. -/
theorem handed_back (l : Listing) (hl : l.IsC64) {q : Transfer} {M : Machine l.target}
    {a x y : Byte} {z n : Bool} {st : List Byte} (hM : Ready M) (hasked : q.Asked M.pc)
    (hallows : l.Allows M q) :
    wp (irq l.handlers) (fun o t => (∃ r, o = .returned (some r)) ∧ t.bus.dd03 = 0x00#8 ∧
      t.stack = st ∧ (l.Keeps q → t.bus.config = M.config) ∧ (¬l.Keeps q → t.bus.config = 0x37#8) ∧
      (t.bus.config = M.config ↔ l.Keeps q ∨ M.config = 0x37#8)) ⟨a, x, y, z, n, st, M⟩ := by
  apply wp_mono (l.attends hM hasked hallows)
  rintro o t ⟨hr, hdid, hst⟩
  obtain ⟨hkeeps, hdefault⟩ := l.leaves_eq hl M.config q
  rw [← hdid.config] at hkeeps hdefault
  refine ⟨hr, hdid.input, hst, hkeeps, hdefault, ?_⟩
  constructor
  · intro h
    by_cases hq : l.Keeps q
    · exact .inl hq
    · exact .inr (h.symm.trans (hdefault hq))
  · intro h
    rcases h with h | h
    · exact hkeeps h
    · by_cases hq : l.Keeps q
      · exact hkeeps hq
      · exact (hdefault hq).trans h.symm

/-- A C64 whose BASIC ROM is switched off, with a peek on its way. -/
def peekedMachine : Machine emptySite.target where
  config := 0x36#8
  zp := fun _ => 0x00#8
  ram := fun _ _ => 0x00#8
  log := []
  pc := .sending [Command.peek, 0x37#8, 0x00#8, 0x00#8, 0x04#8]
    (.strobe none (.receiving 1 .done))
  lines := 0xff#8
  dd00 := 0x00#8
  dd01 := 0x00#8
  dd03 := 0x00#8

theorem peekedMachine_asks : (Transfer.peek 0x37#8 0x00#8 0x0400#16).Asked peekedMachine.pc :=
  ⟨_, rfl, _, rfl⟩

theorem peekedMachine_ready : Ready peekedMachine :=
  ⟨c64_visible (by decide) (by decide), rfl⟩

theorem handed_back_peek :
    wp (irq emptySite.handlers) (fun o t => (∃ r, o = .returned (some r)) ∧ t.bus.dd03 = 0x00#8 ∧
      t.stack = [] ∧ (emptySite.Keeps (.peek 0x37#8 0x00#8 0x0400#16) →
        t.bus.config = peekedMachine.config) ∧
      (¬emptySite.Keeps (.peek 0x37#8 0x00#8 0x0400#16) → t.bus.config = 0x37#8) ∧
      (t.bus.config = peekedMachine.config ↔
        emptySite.Keeps (.peek 0x37#8 0x00#8 0x0400#16) ∨ peekedMachine.config = 0x37#8))
      ⟨0x00#8, 0x00#8, 0x00#8, false, false, [], peekedMachine⟩ :=
  handed_back emptySite trivial peekedMachine_ready peekedMachine_asks trivial

/-- A peek switches the BASIC ROM on again. -/
theorem port_not_kept :
    wp (irq emptySite.handlers) (fun o t => (∃ r, o = .returned (some r)) ∧
      t.bus.config ≠ peekedMachine.config)
      ⟨0x00#8, 0x00#8, 0x00#8, false, false, [], peekedMachine⟩ := by
  apply wp_mono (emptySite.attends peekedMachine_ready peekedMachine_asks trivial)
  rintro o t ⟨hr, hdid, -⟩
  refine ⟨hr, ?_⟩
  rw [hdid.config]
  decide

end Xlink.Server
