import DivisionAudit.Generator.Twister

/-!
# The recurrence of the twister

The words of the twister are one sequence: the first 312 grow from the seed, every later one is
mixed from the words 312, 311 and 156 places before it. The generator never holds more than a window
of 312 consecutive words of it. Renewing a block in place moves the window on by one word at a time:
the word that is overwritten is the oldest one, and the words that are read, counted around the
block, are still there or new already, as the sequence has them.

* `word`: the sequence that a seed starts.
* `tempered`: a word of it as it is handed out.
* `Window.renewAt`: renewing one word moves the window by one.
* `Window.renew`: renewing a block moves it by 312.
-/

namespace DivisionAudit.Twister

/-! ## The sequence -/

/-- The words that a seed starts. -/
def word (seed : UInt64) (i : Nat) : UInt64 :=
  if i = 0 then seed
  else if i < 312 then
    let previous := word seed (i - 1)
    (6364136223846793005 : UInt64) * (previous ^^^ (previous >>> 62)) + UInt64.ofNat i
  else
    let y := (word seed (i - 312) &&& 0xFFFFFFFF80000000) ||| (word seed (i - 311) &&& 0x7FFFFFFF)
    word seed (i - 156) ^^^ (y >>> 1) ^^^ (if y % 2 = 1 then 0xB5026F5AA96619E9 else 0)
termination_by i

/-- The tempering of a word: shifted copies of it are mixed in, three of them under a mask. -/
def tempered (x : UInt64) : UInt64 :=
  let a := x ^^^ ((x >>> 29) &&& 0x5555555555555555)
  let b := a ^^^ ((a <<< 17) &&& 0x71D67FFFEDA60000)
  let c := b ^^^ ((b <<< 37) &&& 0xFFF7EEE000000000)
  c ^^^ (c >>> 43)

theorem temper_eq_tempered (x : UInt64) : temper x = tempered x := rfl

theorem word_zero (seed : UInt64) : word seed 0 = seed := by
  rw [word, if_pos rfl]

theorem word_succ (seed : UInt64) {i : Nat} (h : i + 1 < 312) :
    word seed (i + 1) = seedStep (word seed i) (i + 1) := by
  rw [word, if_neg (by omega), if_pos h]
  rfl

theorem and_one_eq_zero_iff (x : UInt64) : x &&& 1 = 0 ↔ ¬ x % 2 = 1 := by
  rw [← UInt64.toNat_inj, ← UInt64.toNat_inj, UInt64.toNat_and, UInt64.toNat_mod]
  simp [Nat.and_one_is_mod]

theorem mix_eq (y : UInt64) :
    mix y = (y >>> 1) ^^^ (if y % 2 = 1 then 0xB5026F5AA96619E9 else 0) := by
  unfold mix
  by_cases h : y % 2 = 1
  · rw [if_neg (fun e => (and_one_eq_zero_iff y).mp e h), if_pos h]
  · rw [if_pos ((and_one_eq_zero_iff y).mpr h), if_neg h, UInt64.xor_zero]

theorem word_add (seed : UInt64) (k : Nat) :
    word seed (k + 312) = renewed (word seed (k + 156)) (word seed k) (word seed (k + 1)) := by
  have hOld : k + 312 - 312 = k := Nat.add_sub_cancel k 312
  have hNext : k + 312 - 311 = k + 1 := Nat.add_sub_assoc (by decide) k
  have hFar : k + 312 - 156 = k + 156 := Nat.add_sub_assoc (by decide) k
  rw [word, if_neg (by omega), if_neg (by omega)]
  simp only [hOld, hNext, hFar, renewed, mix_eq, join, UInt64.xor_assoc]

/-! ## Folds -/

/-- What holds at the start of a fold and is carried on by its steps holds at its end. -/
theorem fold_invariant {α : Type} {n : Nat} (P : Nat → α → Prop) (f : (i : Nat) → i < n → α → α)
    {a : α} (h0 : P 0 a) (hStep : ∀ i (hi : i < n) b, P i b → P (i + 1) (f i hi b)) :
    P n (Nat.fold n f a) := by
  induction n with
  | zero => exact h0
  | succ n ih =>
    rw [Nat.fold_succ]
    exact hStep n (by omega) _ (ih (fun i hi => f i (by omega)) fun i hi => hStep i (by omega))

/-! ## Windows -/

/-- Read around from position `i`, the block holds the 312 words from `base + i` on. -/
def Window (seed : UInt64) (base i : Nat) (block : Vector UInt64 312) : Prop :=
  ∀ t, i ≤ t → t < i + 312 → wordAt block t = word seed (base + t)

theorem wordAt_of_lt (block : Vector UInt64 312) {i : Nat} (h : i < 312) :
    wordAt block i = block[i] := by
  simp only [wordAt, Nat.mod_eq_of_lt h]
  rfl

theorem wordAt_set (block : Vector UInt64 312) {i : Nat} (hi : i < 312) (x : UInt64) (t : Nat) :
    wordAt (block.set i x) t = if t % 312 = i then x else wordAt block t := by
  change (block.set i x)[t % 312] = if t % 312 = i then x else block[t % 312]
  rw [Vector.getElem_set]
  simp only [eq_comm]

theorem firstBlock_window (seed : UInt64) : Window seed 0 0 (firstBlock seed) := by
  have h : ∀ j (hj : j < 312), j ≤ 311 → (firstBlock seed)[j] = word seed j := by
    apply fold_invariant (fun i block => ∀ j (hj : j < 312), j ≤ i → block[j] = word seed j)
    · intro j hj h0
      obtain rfl : j = 0 := by omega
      simp [word_zero]
    · intro i hi block ih j hj hle
      rw [Vector.getElem_set]
      split
      · next e =>
        subst e
        rw [ih i (by omega) (Nat.le_refl i), word_succ seed (by omega)]
      · exact ih j hj (by omega)
  intro t _ ht
  rw [wordAt_of_lt _ (by omega), h t (by omega) (by omega), Nat.zero_add]

/-- Renewing the word at one place moves the window by one: the oldest word goes, and the newest is
mixed from words that the window holds, whether the pass has renewed their places or not. -/
theorem Window.renewAt {seed : UInt64} {base i : Nat} {block : Vector UInt64 312}
    (h : Window seed base i block) (hi : i < 312) :
    Window seed base (i + 1) (renewAt block i hi) := by
  intro t hl hu
  rw [Twister.renewAt, wordAt_set, ← wordAt_of_lt block hi, h i (by omega) (by omega),
    h (i + 1) (by omega) (by omega), h (i + 156) (by omega) (by omega)]
  split
  · next e =>
    obtain rfl : t = i + 312 := by omega
    rw [← Nat.add_assoc base i 312, word_add, Nat.add_assoc, Nat.add_assoc]
  · next e => exact h t (by omega) (by omega)

theorem Window.renew {seed : UInt64} {base : Nat} {block : Vector UInt64 312}
    (h : Window seed base 0 block) : Window seed (base + 312) 0 (renew block) := by
  have hAll : Window seed base 312 (Twister.renew block) :=
    fold_invariant (Window seed base) (fun i hi block => Twister.renewAt block i hi) h
      fun i hi _ hb => hb.renewAt hi
  intro t hl hu
  have ht : wordAt (Twister.renew block) (t + 312) = wordAt (Twister.renew block) t := by
    simp only [wordAt, Nat.add_mod_right]
  have he : base + (t + 312) = base + 312 + t := by omega
  rw [← ht, hAll (t + 312) (by omega) (by omega), he]

end DivisionAudit.Twister
