import DivisionAudit.Text.Diagnostic

/-!
# The 64-bit Mersenne twister

The generator holds a block of 312 words and a position in it. A word is tempered when it is
handed out; when the block is spent it is renewed in place, word by word, so that the later words
of a pass are mixed with words that the same pass has renewed already, and the last one with the
new first.

* `Twister.ofSeed`: the first block, one multiplication away from word to word.
* `Twister.next`: one output.
* `Twister.discard`: skips outputs.
-/

namespace DivisionAudit

/-- A block of words and the position of the next one to hand out; 312 when the block is spent. -/
structure Twister where
  block : Vector UInt64 312
  index : Nat
deriving DecidableEq

namespace Twister

def defaultSeed : UInt64 := 5489

/-! ## Words -/

def seedMultiplier : UInt64 := 6364136223846793005

/-- The word at position `i` of the first block, from the one before it. -/
def seedStep (previous : UInt64) (i : Nat) : UInt64 :=
  seedMultiplier * (previous ^^^ (previous >>> 62)) + UInt64.ofNat i

def firstBlock (seed : UInt64) : Vector UInt64 312 :=
  Nat.fold 311 (fun i hi block => block.set (i + 1) (seedStep block[i] (i + 1)))
    (Vector.replicate 312 seed)

/-- The upper 33 bits of one word joined to the lower 31 bits of the next. -/
def join (high low : UInt64) : UInt64 :=
  (high &&& 0xFFFFFFFF80000000) ||| (low &&& 0x7FFFFFFF)

/-- A shift to the right, with the matrix row added for an odd word. -/
def mix (x : UInt64) : UInt64 := if x &&& 1 = 0 then x >>> 1 else (x >>> 1) ^^^ 0xB5026F5AA96619E9

/-- The new word at a place: the word 156 places on, with the mixed join of the old word and the
one after it. -/
def renewed (far here after : UInt64) : UInt64 := far ^^^ mix (join here after)

/-- The word at a place counted around the block. -/
def wordAt (block : Vector UInt64 312) (i : Nat) : UInt64 :=
  block.get ⟨i % 312, Nat.mod_lt i (by decide)⟩

/-- Renews the word at one place of a block. -/
def renewAt (block : Vector UInt64 312) (i : Nat) (hi : i < 312) : Vector UInt64 312 :=
  block.set i (renewed (wordAt block (i + 156)) block[i] (wordAt block (i + 1)))

/-- Renews a block in place, from its first word to its last. -/
def renew (block : Vector UInt64 312) : Vector UInt64 312 :=
  Nat.fold 312 (fun i hi block => renewAt block i hi) block

def temper (x : UInt64) : UInt64 :=
  let x := x ^^^ ((x >>> 29) &&& 0x5555555555555555)
  let x := x ^^^ ((x <<< 17) &&& 0x71D67FFFEDA60000)
  let x := x ^^^ ((x <<< 37) &&& 0xFFF7EEE000000000)
  x ^^^ (x >>> 43)

/-! ## Outputs -/

def ofSeed (seed : UInt64) : Twister := ⟨firstBlock seed, 312⟩

/-- The next output; a spent block is renewed first. -/
def next (g : Twister) : UInt64 × Twister :=
  if h : g.index < 312 then (temper g.block[g.index], { g with index := g.index + 1 })
  else
    let block := renew g.block
    (temper block[0], ⟨block, 1⟩)

/-- The generator after `n` more outputs. -/
def discard (g : Twister) : Nat → Twister
  | 0 => g
  | n + 1 => discard g.next.2 n

/-- The block is kept back. -/
def diagnostic (g : Twister) : Diagnostic := .openRecord "Mt19937_64" [("index", .nat g.index)]

end Twister

end DivisionAudit
