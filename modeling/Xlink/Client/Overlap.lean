import Xlink.Client.Range

/-!
# Ranges and the bytes in them

A range is a set of addresses, from its start up to its end, the end excluded. `range_inside` and
`range_size` read it so. `range_overlaps` counts the end in: for two ranges that touch, it says
that they overlap.

`overlap_shares` is about two valid ranges with a byte in each: an overlap is then a shared byte,
the same either way round, unless the two touch. Nothing is said of empty ranges. The search for a
place relies on `range_overlaps` (`Search`), and so does not put the server right next to the data.
-/

namespace Xlink.Client

namespace Range

/-- The addresses of a range. -/
def Has (r : Range) (x : Int) : Prop := r.start ≤ x ∧ x < r.stop

instance (r : Range) (x : Int) : Decidable (r.Has x) := inferInstanceAs (Decidable (_ ∧ _))

/-- Some address is in both. -/
def Shares (r s : Range) : Prop := ∃ x, r.Has x ∧ s.Has x

/-- One ends where the other one starts. -/
def Touches (r s : Range) : Prop := r.stop = s.start ∨ s.stop = r.start

variable {r s : Range}

theorem shares_iff : r.Shares s ↔
    r.start < r.stop ∧ s.start < s.stop ∧ r.start < s.stop ∧ s.start < r.stop := by
  constructor
  · rintro ⟨x, ⟨hr, hr'⟩, hs, hs'⟩
    omega
  · rintro ⟨hr, hs, h, h'⟩
    rcases le_total r.start s.start with hle | hle
    · exact ⟨s.start, ⟨hle, h'⟩, le_rfl, hs⟩
    · exact ⟨r.start, ⟨le_rfl, hr⟩, hle, h⟩

/-- Of two ranges the right way round, the ends are looked at as if they were in the range. -/
theorem overlaps_iff_of_le (hr : r.start ≤ r.stop) (hs : s.start ≤ s.stop) :
    r.overlaps s = true ↔ r.start ≤ s.stop ∧ s.start ≤ r.stop := by
  constructor
  · intro h
    simp only [overlaps, Bool.or_eq_true, Bool.and_eq_true, decide_eq_true_eq] at h
    rcases h with (((rfl | h) | h) | h) | h
    · exact ⟨hr, hr⟩
    all_goals omega
  · rintro ⟨h, h'⟩
    simp only [overlaps, Bool.or_eq_true, Bool.and_eq_true, decide_eq_true_eq]
    omega

theorem overlaps_symm (r s : Range) : r.overlaps s = s.overlaps r := by
  by_cases h : r = s
  · rw [h]
  · have hne : ¬s = r := fun h' => h h'.symm
    rw [Bool.eq_iff_iff]
    simp only [overlaps, Bool.or_eq_true, Bool.and_eq_true, decide_eq_true_eq, h, hne,
      false_or]
    omega

/-! ## Overlap and shared bytes -/

/-- What an overlap is for: it is there if and only if a byte is shared. So it is the same either
way round, and touching ranges have none. -/
structure ByteSharing (r s : Range) : Prop where
  shared : r.overlaps s = true ↔ r.Shares s
  symmetric : r.overlaps s = s.overlaps r
  touching : r.Touches s → r.overlaps s = false

/-- Of two valid ranges with bytes in them, an overlap is shared bytes unless they touch. -/
theorem overlap_shares (hr : r.valid = true) (hs : s.valid = true) (hsize : r.start < r.stop)
    (hsize' : s.start < s.stop) : r.ByteSharing s ↔ ¬r.Touches s := by
  obtain ⟨-, hle, -⟩ := valid_iff.mp hr
  obtain ⟨-, hle', -⟩ := valid_iff.mp hs
  have hoverlaps := overlaps_iff_of_le hle hle'
  constructor
  · intro h htouches
    have hclear := h.touching htouches
    rw [hoverlaps.mpr (by rcases htouches with h | h <;> omega)] at hclear
    cases hclear
  · intro htouches
    refine ⟨?_, overlaps_symm r s, fun h => absurd h htouches⟩
    rw [hoverlaps, shares_iff]
    unfold Touches at htouches
    omega

theorem overlap_shares_beyond : ByteSharing ⟨0x1000, 0x2000⟩ ⟨0x2800, 0x3000⟩ ↔
    ¬Touches ⟨0x1000, 0x2000⟩ ⟨0x2800, 0x3000⟩ :=
  overlap_shares (by decide) (by decide) (by decide) (by decide)

/-- Two ranges that only touch overlap. -/
theorem touching_overlap : ¬∀ r s : Range, r.valid = true → s.valid = true → r.start < r.stop →
    s.start < s.stop → r.ByteSharing s := by
  intro h
  have hsharing := h ⟨0x1000, 0x2000⟩ ⟨0x2000, 0x3000⟩ (by decide) (by decide) (by decide)
    (by decide)
  exact absurd (hsharing.touching (.inl rfl)) (by decide)

end Range

end Xlink.Client
