import DivisionAudit.Proofs.Generator.Words
import Mathlib.Data.Int.CardIntervalMod
import Mathlib.Data.Nat.Periodic
import Mathlib.Data.Set.Card

/-!
# Even draws

A draw of a range looks at the remainders of words by the number of values. The words above the
threshold make whole rounds of the remainders, so each remainder belongs to equally many of them. A
value of the range is the start and a remainder together; over signed words this sum wraps, but the
offset of a value stays below the number of values, which always fits an unsigned word.

* `toNat_threshold`, `ncard_accepted`: the words that are passed over, and the others.
* `EvenOver`: what makes a map of words even; `evenOver_offsets` shows it for offsets from a start.
* `range_eq_offsets`, `signedRange_eq_offsets`: ranges as sets of offsets.
* `ranges_drawn_evenly`: draws from ranges of both kinds, with any generator.
-/

namespace DivisionAudit

/-! ## Remainders -/

theorem toNat_threshold {span : UInt32} (h : 0 < span) :
    (threshold span).toNat = 2 ^ 32 % span.toNat := by
  have hPos : 0 < span.toNat := UInt32.lt_iff_toNat_lt.mp h
  have hWord := span.toNat_lt
  have hNeg : (0 - span).toNat = 2 ^ 32 - span.toNat := by
    rw [UInt32.toNat_sub]
    exact Nat.mod_eq_of_lt (by simp only [UInt32.toNat_zero]; omega)
  rw [threshold, UInt32.toNat_mod, hNeg, Nat.mod_eq_sub_mod hWord.le]

/-- From the first remainder of a number up to the number, there are only whole rounds. -/
theorem card_filter_modEq (n : ℕ) {s r : ℕ} (hr : r < s) :
    ((Finset.Ico (n % s) n).filter (· ≡ r [MOD s])).card = n / s := by
  have hs : 0 < s := Nat.zero_lt_of_lt hr
  have hPeriodic : Function.Periodic (· ≡ r [MOD s]) (n / s * s) := by
    intro k
    simp only [Nat.ModEq, Nat.add_mul_mod_self_right]
  -- What follows the first remainder is `n / s` whole periods, wherever it starts.
  have hRounds := Nat.filter_Ico_card_eq_of_periodic (n % s) (n / s * s) _ hPeriodic
  rw [Nat.mod_add_div', Nat.count_modEq_card _ hs] at hRounds
  rw [hRounds, Nat.mul_div_cancel _ hs, Nat.mul_mod_left, if_neg (Nat.not_lt_zero _), Nat.add_zero]

/-- Words are counted by the numbers they stand for. -/
theorem ncard_words {words : Set UInt32} {numbers : Finset ℕ} (hWord : ∀ n ∈ numbers, n < 2 ^ 32)
    (h : ∀ w, w ∈ words ↔ w.toNat ∈ numbers) : words.ncard = numbers.card := by
  have hInjective : Function.Injective UInt32.toNat := fun _ _ => UInt32.toNat_inj.mp
  have hImage : UInt32.toNat '' words = numbers := by
    ext n
    constructor
    · rintro ⟨w, hw, rfl⟩
      exact (h w).mp hw
    · intro hn
      have hToNat : (UInt32.ofNat n).toNat = n := UInt32.toNat_ofNat_of_lt' (hWord n hn)
      exact ⟨UInt32.ofNat n, (h _).mpr (by rwa [hToNat]), hToNat⟩
  rw [← Set.ncard_image_of_injective _ hInjective, hImage, Set.ncard_coe_finset]

theorem ncard_accepted {span k : UInt32} (hk : k < span) :
    {w : UInt32 | threshold span ≤ w ∧ w % span = k}.ncard = 2 ^ 32 / span.toNat := by
  have hkNat : k.toNat < span.toNat := UInt32.lt_iff_toNat_lt.mp hk
  have hSpan : 0 < span := UInt32.lt_iff_toNat_lt.mpr (Nat.zero_lt_of_lt hkNat)
  rw [← card_filter_modEq (2 ^ 32) hkNat]
  apply ncard_words
  · intro n hn
    exact (Finset.mem_Ico.mp (Finset.mem_filter.mp hn).1).2
  · intro w
    have hWord := w.toNat_lt
    simp only [Set.mem_ofPred_eq, Finset.mem_filter, Finset.mem_Ico, UInt32.le_iff_toNat_le,
      toNat_threshold hSpan, ← UInt32.toNat_inj, UInt32.toNat_mod, Nat.ModEq,
      Nat.mod_eq_of_lt hkNat, hWord, and_true]

theorem ncard_below (span : UInt32) : {k : UInt32 | k < span}.ncard = span.toNat := by
  rw [← Finset.card_range span.toNat]
  apply ncard_words
  · intro n hn
    exact Nat.lt_trans (Finset.mem_range.mp hn) span.toNat_lt
  · intro k
    rw [Set.mem_ofPred_eq, UInt32.lt_iff_toNat_lt, Finset.mem_range]

/-! ## Even maps -/

/-- Words below a threshold are passed over, the others mapped evenly to a range. The words that are
passed over are those that do not make a whole round of the range. -/
structure EvenOver {α : Type} (range : Set α) (least : UInt32) (image : UInt32 → α) : Prop where
  passed_over : ∀ w : UInt32, w < least ↔ w.toNat < 2 ^ 32 % range.ncard
  mem_range : ∀ w, least ≤ w → image w ∈ range
  ncard_image : ∀ v ∈ range, {w | least ≤ w ∧ image w = v}.ncard = 2 ^ 32 / range.ncard

section Offsets

variable {α : Type} {point : UInt32 → α} (hPoint : Function.Injective point)
include hPoint

theorem ncard_offsets (span : UInt32) : (point '' {k | k < span}).ncard = span.toNat := by
  rw [Set.ncard_image_of_injective _ hPoint, ncard_below]

theorem evenOver_offsets {span : UInt32} (hSpan : 0 < span) :
    EvenOver (point '' {k | k < span}) (threshold span) fun w => point (w % span) := by
  constructor
  · intro w
    rw [ncard_offsets hPoint, UInt32.lt_iff_toNat_lt, toNat_threshold hSpan]
  · intro w _
    exact ⟨w % span, UInt32.mod_lt w hSpan, rfl⟩
  · rintro _ ⟨k, hk, rfl⟩
    simp only [hPoint.eq_iff]
    rw [ncard_offsets hPoint, ncard_accepted hk]

end Offsets

/-! ## Ranges -/

theorem offset_injective (start : UInt32) : Function.Injective (start + ·) := by
  intro k k' h
  exact (UInt32.add_right_inj start).mp h

theorem range_eq_offsets {start stop : UInt32} (h : start < stop) :
    {v | start ≤ v ∧ v < stop} = (start + ·) '' {k | k < stop - start} := by
  have hSpan := UInt32.toNat_sub_of_le _ _ (UInt32.le_of_lt h)
  have hStop := stop.toNat_lt
  rw [UInt32.lt_iff_toNat_lt] at h
  ext v
  simp only [Set.mem_ofPred_eq, Set.mem_image]
  constructor
  · rintro ⟨hStart, hv⟩
    refine ⟨v - start, ?_, by rw [UInt32.add_comm, UInt32.sub_add_cancel]⟩
    rw [UInt32.lt_iff_toNat_lt] at hv ⊢
    rw [UInt32.toNat_sub_of_le _ _ hStart, hSpan]
    have hStartNat := UInt32.le_iff_toNat_le.mp hStart
    omega
  · rintro ⟨k, hk, rfl⟩
    rw [UInt32.lt_iff_toNat_lt, hSpan] at hk
    have hSum : (start + k).toNat = start.toNat + k.toNat := by
      rw [UInt32.toNat_add]
      exact Nat.mod_eq_of_lt (by omega)
    rw [UInt32.le_iff_toNat_le, UInt32.lt_iff_toNat_lt, hSum]
    omega

theorem toInt_toInt32 (w : UInt32) : w.toInt32.toInt = Int.bmod w.toNat (2 ^ 32) :=
  BitVec.toInt_eq_toNat_bmod _

/-- The number of values of a signed range fits an unsigned word, also where it is too great for a
signed one. -/
theorem toNat_signedSpan {start stop : Int32} (h : start ≤ stop) :
    ((signedSpan start stop).toNat : ℤ) = stop.toInt - start.toInt := by
  have hLow := start.le_toInt
  have hHigh := stop.toInt_lt
  rw [Int32.le_iff_toInt_le] at h
  have hWord : ((signedSpan start stop).toNat : ℤ) % (2 ^ 32 : ℕ) = (signedSpan start stop).toNat :=
    Int.emod_eq_of_lt (Int.natCast_nonneg _) (Int.ofNat_lt.mpr (signedSpan start stop).toNat_lt)
  have hSigned : (stop - start).toInt = Int.bmod (signedSpan start stop).toNat (2 ^ 32) :=
    toInt_toInt32 (signedSpan start stop)
  -- The difference of the words wraps; taken modulo `2 ^ 32` it is that of the numbers again.
  calc ((signedSpan start stop).toNat : ℤ) = (stop - start).toInt % (2 ^ 32 : ℕ) := by
        rw [hSigned, Int.bmod_emod, hWord]
    _ = (stop.toInt - start.toInt) % (2 ^ 32 : ℕ) := by rw [Int32.toInt_sub, Int.bmod_emod]
    _ = stop.toInt - start.toInt := Int.emod_eq_of_lt (by omega) (by omega)

theorem toInt_add_offset {start stop : Int32} (h : start < stop) {k : UInt32}
    (hk : k < signedSpan start stop) : (start + k.toInt32).toInt = start.toInt + k.toNat := by
  have hLow := start.le_toInt
  have hHigh := stop.toInt_lt
  have hSpan := toNat_signedSpan (Int32.le_of_lt h)
  rw [UInt32.lt_iff_toNat_lt] at hk
  rw [Int32.toInt_add, toInt_toInt32, Int.add_bmod_bmod]
  exact Int.bmod_eq_of_le (by omega) (by omega)

theorem signedOffset_injective (start : Int32) :
    Function.Injective fun k : UInt32 => start + k.toInt32 := by
  intro k k' h
  have hSigned := (Int32.add_right_inj start).mp h
  exact congrArg Int32.toUInt32 hSigned

theorem signedRange_eq_offsets {start stop : Int32} (h : start < stop) :
    {v | start ≤ v ∧ v < stop} =
      (fun k : UInt32 => start + k.toInt32) '' {k | k < signedSpan start stop} := by
  have hSpan := toNat_signedSpan (Int32.le_of_lt h)
  ext v
  simp only [Set.mem_ofPred_eq, Set.mem_image]
  constructor
  · rintro ⟨hStart, hv⟩
    refine ⟨signedSpan start v, ?_, ?_⟩
    · have hOffset := toNat_signedSpan hStart
      rw [Int32.lt_iff_toInt_lt] at hv
      rw [UInt32.lt_iff_toNat_lt]
      omega
    · change start + (v - start) = v
      rw [Int32.add_comm, Int32.sub_add_cancel]
  · rintro ⟨k, hk, rfl⟩
    have hOffset := toInt_add_offset h hk
    rw [UInt32.lt_iff_toNat_lt] at hk
    rw [Int32.le_iff_toInt_le, Int32.lt_iff_toInt_lt, hOffset]
    omega

/-! ## Draws from ranges -/

/-- An even draw: it hands out the image of the first word that is not passed over, with the
generator right behind that word, and raises nothing. -/
structure DrawsEvenly {α : Type} (range : Set α) (least : UInt32) (image : UInt32 → α)
    (draw : {G : Type} → [Generator G] → G → Traced (Option (α × G))) : Prop
    extends EvenOver range least image where
  draw_eq : ∀ {G : Type} [Generator G] (g : G) (n : ℕ), FirstAt least g n →
    draw g = pure (some (image (word32 g n), after32 g (n + 1)))

/-- A refused draw: it takes no word and raises one violation. -/
def DrawsNothing {α : Type} (value : α)
    (draw : {G : Type} → [Generator G] → G → Traced (Option (α × G))) : Prop :=
  ∃ v : Violation, v.kind = .configuration ∧
    ∀ {G : Type} [Generator G] (g : G), draw g = ⟨[.raised none v], some (value, g)⟩

section Unsigned

variable {start stop : UInt32}

theorem ncard_range (h : start < stop) :
    {v | start ≤ v ∧ v < stop}.ncard = stop.toNat - start.toNat := by
  rw [range_eq_offsets h, ncard_offsets (offset_injective start),
    UInt32.toNat_sub_of_le _ _ (UInt32.le_of_lt h)]

theorem drawsEvenly_range (h : start < stop) :
    DrawsEvenly {v | start ≤ v ∧ v < stop} (threshold (stop - start))
      (fun w => start + w % (stop - start)) (drawRange start stop) where
  toEvenOver := by
    have hSpan : 0 < stop - start := by
      have hNat := UInt32.toNat_sub_of_le _ _ (UInt32.le_of_lt h)
      rw [UInt32.lt_iff_toNat_lt] at h ⊢
      rw [hNat, UInt32.toNat_zero]
      omega
    rw [range_eq_offsets h]
    exact evenOver_offsets (offset_injective start) hSpan
  draw_eq := by
    intro G _ g n hFirst
    rw [drawRange, if_pos h, drawRange?, drawBelow?_eq_some hFirst]
    rfl

theorem drawsNothing_range (h : ¬ start < stop) : DrawsNothing start (drawRange start stop) := by
  refine ⟨emptyRange "gen_range" (toString start.toNat) (toString stop.toNat), rfl, ?_⟩
  intro G _ g
  exact if_neg h

end Unsigned

section Signed

variable {start stop : Int32}

theorem ncard_signedRange (h : start < stop) :
    ({v | start ≤ v ∧ v < stop}.ncard : ℤ) = stop.toInt - start.toInt := by
  rw [signedRange_eq_offsets h, ncard_offsets (signedOffset_injective start),
    toNat_signedSpan (Int32.le_of_lt h)]

theorem drawsEvenly_signedRange (h : start < stop) :
    DrawsEvenly {v | start ≤ v ∧ v < stop} (threshold (signedSpan start stop))
      (fun w => start + (w % signedSpan start stop).toInt32) (drawSignedRange start stop) where
  toEvenOver := by
    have hSpan : 0 < signedSpan start stop := by
      have hNat := toNat_signedSpan (Int32.le_of_lt h)
      rw [Int32.lt_iff_toInt_lt] at h
      rw [UInt32.lt_iff_toNat_lt, UInt32.toNat_zero]
      omega
    rw [signedRange_eq_offsets h]
    exact evenOver_offsets (signedOffset_injective start) hSpan
  draw_eq := by
    intro G _ g n hFirst
    rw [drawSignedRange, if_pos h, drawSignedRange?_eq_some hFirst]

theorem drawsNothing_signedRange (h : ¬ start < stop) :
    DrawsNothing start (drawSignedRange start stop) := by
  refine ⟨emptyRange "gen_range_i32" (toString start.toInt) (toString stop.toInt), rfl, ?_⟩
  intro G _ g
  exact if_neg h

end Signed

/-- Draws from ranges are even, whatever the generator is: all values of a range belong to equally
many of the words that are not passed over. For a range without values a draw hands out the
start. -/
theorem ranges_drawn_evenly :
    (∀ start stop : UInt32, start < stop →
      {v | start ≤ v ∧ v < stop}.ncard = stop.toNat - start.toNat ∧
      DrawsEvenly {v | start ≤ v ∧ v < stop} (threshold (stop - start))
        (fun w => start + w % (stop - start)) (drawRange start stop)) ∧
    (∀ start stop : Int32, start < stop →
      ({v | start ≤ v ∧ v < stop}.ncard : ℤ) = stop.toInt - start.toInt ∧
      DrawsEvenly {v | start ≤ v ∧ v < stop} (threshold (signedSpan start stop))
        (fun w => start + (w % signedSpan start stop).toInt32) (drawSignedRange start stop)) ∧
    (∀ start stop : UInt32, ¬ start < stop → DrawsNothing start (drawRange start stop)) ∧
    (∀ start stop : Int32, ¬ start < stop → DrawsNothing start (drawSignedRange start stop)) :=
  ⟨fun _ _ h => ⟨ncard_range h, drawsEvenly_range h⟩,
    fun _ _ h => ⟨ncard_signedRange h, drawsEvenly_signedRange h⟩,
    fun _ _ => drawsNothing_range, fun _ _ => drawsNothing_signedRange⟩

/-- A signed range of `2 ^ 32 - 1` values, an unsigned one that is drawn from another word than the
first, and two ranges without values; a list of words serves for the generator. -/
theorem ranges_drawn_evenly_from_list :
    let _ : Generator (List UInt32) :=
      ⟨fun ws => (ws.headD 0, ws.tail), fun ws => ((ws.headD 0).toUInt64, ws.tail)⟩
    Int32.minValue < Int32.maxValue ∧
    (∀ v, Int32.minValue ≤ v → v < Int32.maxValue →
      {w : UInt32 | 1 ≤ w ∧ Int32.minValue + (w % 4294967295).toInt32 = v}.ncard = 1) ∧
    (drawSignedRange Int32.minValue Int32.maxValue ([0, 4294967294, 7] : List UInt32)).value =
      some (Int32.maxValue - 1, [7]) ∧
    (10 : UInt32) < 13 ∧
    {w : UInt32 | 1 ≤ w ∧ 10 + w % 3 = 12}.ncard = 1431655765 ∧
    (drawRange 10 13 ([0, 5, 7] : List UInt32)).value = some (12, [7]) ∧
    ¬ (13 : UInt32) < 10 ∧
    (drawRange 13 10 ([0, 5, 7] : List UInt32)).value = some (13, [0, 5, 7]) ∧
    ¬ (3 : Int32) < 3 ∧
    (drawSignedRange 3 3 ([0, 5, 7] : List UInt32)).value = some (3, [0, 5, 7]) := by
  intro generator
  obtain ⟨hRange, hSigned, hEmpty, hSignedEmpty⟩ := ranges_drawn_evenly
  have hWide : Int32.minValue < Int32.maxValue := by decide
  have hThree : (10 : UInt32) < 13 := by decide
  have hInverted : ¬ (13 : UInt32) < 10 := by decide
  have hNone : ¬ (3 : Int32) < 3 := by decide
  obtain ⟨hWideCard, hWideDraw⟩ := hSigned _ _ hWide
  obtain ⟨hThreeCard, hThreeDraw⟩ := hRange _ _ hThree
  obtain ⟨_, -, hInvertedDraw⟩ := hEmpty _ _ hInverted
  obtain ⟨_, -, hNoneDraw⟩ := hSignedEmpty _ _ hNone
  have hWideSpan : signedSpan Int32.minValue Int32.maxValue = 4294967295 := by decide
  have hWideLeast : threshold 4294967295 = 1 := by decide
  have hThreeSpan : (13 - 10 : UInt32) = 3 := by decide
  have hThreeLeast : threshold 3 = 1 := by decide
  rw [hWideSpan, hWideLeast] at hWideDraw
  rw [hThreeSpan, hThreeLeast] at hThreeDraw
  have hWideFirst : FirstAt 1 ([0, 4294967294, 7] : List UInt32) 1 := ⟨by decide, by decide⟩
  have hThreeFirst : FirstAt 1 ([0, 5, 7] : List UInt32) 1 := ⟨by decide, by decide⟩
  refine ⟨hWide, ?_, ?_, hThree, ?_, ?_, hInverted, ?_, hNone, ?_⟩
  · intro v hLow hHigh
    have hCount := hWideDraw.ncard_image v ⟨hLow, hHigh⟩
    have hEnds : Int32.maxValue.toInt - Int32.minValue.toInt = 4294967295 := by decide
    have hValues : {v | Int32.minValue ≤ v ∧ v < Int32.maxValue}.ncard = 4294967295 := by omega
    rw [hValues] at hCount
    exact hCount.trans (by decide)
  · have hValue : Int32.minValue + (4294967294 % 4294967295 : UInt32).toInt32 =
        Int32.maxValue - 1 := by decide
    rw [hWideDraw.draw_eq _ _ hWideFirst, Traced.value_pure, ← hValue]
    rfl
  · have hCount := hThreeDraw.ncard_image 12 (by decide)
    have hValues : {v : UInt32 | 10 ≤ v ∧ v < 13}.ncard = 3 := hThreeCard.trans (by decide)
    rw [hValues] at hCount
    exact hCount.trans (by decide)
  · have hValue : (10 + 5 % 3 : UInt32) = 12 := by decide
    rw [hThreeDraw.draw_eq _ _ hThreeFirst, Traced.value_pure, ← hValue]
    rfl
  · exact congrArg Traced.value (hInvertedDraw _)
  · exact congrArg Traced.value (hNoneDraw _)

end DivisionAudit
