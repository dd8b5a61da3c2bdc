import DivisionAudit.Workload

/-!
# Options of the command line

Arguments are read from left to right, and the first that cannot be accepted decides: a wrong one
ends the reading with `Request.usage`, a wish for the version or for help ends it with that wish.
An option takes its value from the same argument, after `=`, or from the next one, and may be given
once; only the verbosity adds up.
-/

namespace DivisionAudit.Command

/-- What is audited: functions linked into the program, or the references themselves. -/
inductive Target
  | native
  | reference
deriving DecidableEq

inductive Preset
  | full
  | smoke
  | stress
deriving DecidableEq

def Preset.workload : Preset → Workload
  | .full => .full
  | .smoke => .smoke
  | .stress => .stress

/-- Which operations are run. -/
inductive Choice
  | all
  | primary
  | extended
  | doubles
deriving DecidableEq

/-- What was asked for; `none` where nothing was said. -/
structure Options where
  target : Option Target := none
  preset : Option Preset := none
  seed : Option UInt64 := none
  sweepCount : Option UInt64 := none
  radius : Option Int64 := none
  uniformCount : Option UInt64 := none
  decadesCount : Option UInt64 := none
  choice : Option Choice := none
  json : Bool := false
  verbosity : Nat := 0
deriving DecidableEq

/-- The preset's workload with the given fields in place of its own. -/
def Options.workload (o : Options) : Workload :=
  let preset := (o.preset.getD .full).workload
  { preset with
    sweepCount := o.sweepCount.getD preset.sweepCount
    radius := o.radius.getD preset.radius
    uniformSeed := o.seed.getD preset.uniformSeed
    uniformCount := o.uniformCount.getD preset.uniformCount
    decadesCount := o.decadesCount.getD preset.decadesCount }

/-- The operations over words, in the order of their runs. -/
def Options.wordOperations (o : Options) : List (Operation .word) :=
  match o.choice.getD .all with
  | .all => [.primary, .extended]
  | .primary => [.primary]
  | .extended => [.extended]
  | .doubles => []

/-- Whether the operation over doubles is run, after the others. -/
def Options.runsDoubles (o : Options) : Bool :=
  match o.choice.getD .all with
  | .all | .doubles => true
  | .primary | .extended => false

/-! ## Values -/

/-- A number in decimal digits, at least one of them. -/
def readDigits? (cs : List Char) : Option Nat :=
  if cs.isEmpty || !cs.all Char.isDigit then none
  else some (cs.foldl (fun n c => 10 * n + (c.toNat - '0'.toNat)) 0)

/-- A number below `2 ^ 64`; a plus sign may stand before it. -/
def readUnsigned? (s : String) : Option UInt64 := do
  let n ← match s.toList with
    | '+' :: cs => readDigits? cs
    | cs => readDigits? cs
  if n < UInt64.size then some (UInt64.ofNat n) else none

/-- A signed word; either sign may stand before it. -/
def readSigned? (s : String) : Option Int64 := do
  let n : Int ← match s.toList with
    | '+' :: cs => (readDigits? cs).map Int.ofNat
    | '-' :: cs => (readDigits? cs).map fun n => -(n : Int)
    | cs => (readDigits? cs).map Int.ofNat
  if Int64.minValue.toInt ≤ n ∧ n ≤ Int64.maxValue.toInt then some (Int64.ofInt n) else none

def readTarget? : String → Option Target
  | "native" => some .native
  | "reference" => some .reference
  | _ => none

def readPreset? : String → Option Preset
  | "full" => some .full
  | "smoke" => some .smoke
  | "stress" => some .stress
  | _ => none

def readChoice? : String → Option Choice
  | "all" => some .all
  | "div-p2" => some .primary
  | "div-ext" => some .extended
  | "fdiv-p2" => some .doubles
  | _ => none

/-! ## Arguments -/

/-- What the arguments ask for. -/
inductive Request
  | run (options : Options)
  | version
  | help
  | usage
deriving DecidableEq

/-- A field that was not given yet, with a value that can be read. -/
def once {α : Type} (given : Option α) (read? : String → Option α) (text : String) :
    Option (Option α) :=
  if given.isSome then none else (read? text).map some

/-- Sets an option that takes a value; `none` where it cannot be set. An option that takes no
value, or is not known, gives `none` for every text. -/
def Options.set? (o : Options) (name text : String) : Option Options :=
  match name with
  | "target" => (once o.target readTarget? text).map ({ o with target := · })
  | "preset" => (once o.preset readPreset? text).map ({ o with preset := · })
  | "seed" => (once o.seed readUnsigned? text).map ({ o with seed := · })
  | "log-count" => (once o.sweepCount readUnsigned? text).map ({ o with sweepCount := · })
  | "dense-radius" => (once o.radius readSigned? text).map ({ o with radius := · })
  | "random-count" => (once o.uniformCount readUnsigned? text).map ({ o with uniformCount := · })
  | "float-count" => (once o.decadesCount readUnsigned? text).map ({ o with decadesCount := · })
  | "operation" => (once o.choice readChoice? text).map ({ o with choice := · })
  | _ => none

/-- The letters behind a single dash. -/
def readLetters (o : Options) : List Char → Except Request Options
  | [] => .ok o
  | 'v' :: rest => readLetters { o with verbosity := o.verbosity + 1 } rest
  | 'V' :: _ => .error .version
  | 'h' :: _ => .error .help
  | _ => .error .usage

/-- What an argument is by its first characters. -/
inductive Shape
  /-- Two dashes and nothing else: no options follow. -/
  | separator
  | long (name : String) (value : Option String)
  | letters (cs : List Char)
  | bare

def shape (argument : String) : Shape :=
  match argument.toList with
  | ['-', '-'] => .separator
  | '-' :: '-' :: cs =>
    let name := cs.takeWhile (· ≠ '=')
    match cs.drop name.length with
    | [] => .long (String.ofList name) none
    | _ :: value => .long (String.ofList name) (some (String.ofList value))
  | '-' :: c :: cs => .letters (c :: cs)
  | _ => .bare

/-- Reads arguments after those that gave the options so far. -/
def readFrom (o : Options) : List String → Request
  | [] => .run o
  | argument :: rest =>
    match shape argument with
    | .separator => if rest.isEmpty then .run o else .usage
    | .bare => .usage
    | .letters cs =>
      match readLetters o cs with
      | .error request => request
      | .ok o => readFrom o rest
    | .long name (some value) =>
      match o.set? name value with
      | none => .usage
      | some o => readFrom o rest
    | .long "json" none => if o.json then .usage else readFrom { o with json := true } rest
    | .long "verbose" none => readFrom { o with verbosity := o.verbosity + 1 } rest
    | .long "version" none => .version
    | .long "help" none => .help
    | .long name none =>
      match rest with
      | [] => .usage
      | value :: rest =>
        match o.set? name value with
        | none => .usage
        | some o => readFrom o rest

/-- Reads the arguments of a command line. -/
def read (arguments : List String) : Request := readFrom {} arguments

end DivisionAudit.Command
