import DivisionAudit.Generator.Permuted
import DivisionAudit.Generator.Twister
import DivisionAudit.Traced

/-!
# Draws from a generator

What is drawn from the words of a generator: signed words, fractions of one, and numbers of a range,
all of them equally likely. For a range the smallest `2 ^ 32 % span` words are passed over, for the
rest splits evenly among the values of the range.

* `firstAccepted?`: the first word at or above a threshold; the search for it has no bound.
* `drawBelow?`: a number below a span.
* `drawRange`, `drawSignedRange`: a number of a range; for an empty one its start, without a draw,
  and one violation.
-/

namespace DivisionAudit

/-- A source of 32-bit and of 64-bit words. -/
class Generator (G : Type) where
  next32 : G → UInt32 × G
  next64 : G → UInt64 × G

/-- The upper half of a 64-bit output serves for 32 bits. -/
instance : Generator Twister where
  next32 g := ((g.next.1 >>> 32).toUInt32, g.next.2)
  next64 g := g.next

/-- Two outputs make 64 bits, the upper half first. -/
instance : Generator Permuted where
  next32 g := g.next
  next64 g :=
    let (high, g) := g.next
    let (low, g) := g.next
    ((high.toUInt64 <<< 32) ||| low.toUInt64, g)

variable {G : Type} [Generator G]

open Generator

/-! ## Words and fractions -/

/-- A word read as signed, the least word being drawn as zero. -/
def signedWord (w : UInt64) : Int64 := (w + 0x8000000000000000).toInt64

def drawWord (g : G) : Int64 × G :=
  let (w, g) := next64 g
  (signedWord w, g)

/-- The upper 53 bits of a word as a fraction of one. -/
def fraction (w : UInt64) : Binary64 :=
  .ofFloat (w >>> 11).toFloat * .powerOfTwo (-52) / 2.0

def drawFraction (g : G) : Binary64 × G :=
  let (w, g) := next64 g
  (fraction w, g)

/-! ## Ranges -/

/-- The number of words passed over for a span: `2 ^ 32 % span`. -/
def threshold (span : UInt32) : UInt32 := (0 - span) % span

/-- One round of a search: it ends at a word that is not below the threshold. -/
def searchRound (least : UInt32) (g : G) : G ⊕ UInt32 × G :=
  let (w, g) := next32 g
  if least ≤ w then .inr (w, g) else .inl g

/-- The first word that is not below the threshold. -/
def firstAccepted? (least : UInt32) (g : G) : Option (UInt32 × G) :=
  have : Nonempty (UInt32 × G) := ⟨next32 g⟩
  repeatM (fun g => some (searchRound least g)) g

/-- A number below a span that is not zero. -/
def drawBelow? (span : UInt32) (g : G) : Option (UInt32 × G) :=
  (firstAccepted? (threshold span) g).map fun (w, g) => (w % span, g)

/-- A number of the range from `start` up to `stop`. -/
def drawRange? (start stop : UInt32) (g : G) : Option (UInt32 × G) :=
  (drawBelow? (stop - start) g).map fun (offset, g) => (start + offset, g)

/-- The number of values from `start` up to `stop`; it may pass the greatest signed word. -/
def signedSpan (start stop : Int32) : UInt32 := (stop - start).toUInt32

def drawSignedRange? (start stop : Int32) (g : G) : Option (Int32 × G) :=
  (drawBelow? (signedSpan start stop) g).map fun (offset, g) => (start + offset.toInt32, g)

/-! ## Empty ranges -/

def emptyRange (operation start stop : String) : Violation :=
  .plain .error .configuration
    (operation ++ " called with empty range [" ++ start ++ ".." ++ stop ++ ")")
    "DivisionAudit.Generator.Draw"

/-- A number of the range, or its start when it is empty. -/
def drawRange (start stop : UInt32) (g : G) : Traced (Option (UInt32 × G)) :=
  if start < stop then pure (drawRange? start stop g)
  else do
    Traced.raise none (emptyRange "gen_range" (toString start.toNat) (toString stop.toNat))
    pure (some (start, g))

/-- A number of the signed range, or its start when it is empty. -/
def drawSignedRange (start stop : Int32) (g : G) : Traced (Option (Int32 × G)) :=
  if start < stop then pure (drawSignedRange? start stop g)
  else do
    Traced.raise none (emptyRange "gen_range_i32" (toString start.toInt) (toString stop.toInt))
    pure (some (start, g))

end DivisionAudit
