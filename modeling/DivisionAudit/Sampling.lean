/-!
# Sizes of test runs

How many samples and how many random cases the tests of an audit take.
-/

namespace DivisionAudit

/-- The number of random cases for a property. -/
def propertyCases : Nat := 256

/-- The number of samples to take where `count` are asked for: never none. -/
def testSamples (count : UInt64) : UInt64 := if count = 0 then 1 else count

end DivisionAudit
