/-
The command line. Arguments are first taken apart into items, each of which is a flag, something
that looks like a flag and is none, or an operand; a cluster such as `-vv` gives an item for each
of its letters, and after `--` everything is an operand. The items are then taken from left to
right: the first one that is out of place, or that asks for the version or for help, decides.

Which flags and operands there are is the command's own choice. The rules by which they are found
among the arguments are those that command lines commonly follow, and a run of the command depends on
them only through the parser that it is given.
-/
set_option autoImplicit false

namespace Criteria.Command

/-! ## Items -/

/-- A flag of the command. -/
inductive Flag where
  | compact
  | tokens
  | keepQuotes
  | verbose
  | version
  | help
  deriving DecidableEq, Repr

/-- The flag with a long name. -/
def Flag.ofName? : String → Option Flag
  | "compact" => some .compact
  | "tokens" => some .tokens
  | "keep-quotes" => some .keepQuotes
  | "verbose" => some .verbose
  | "version" => some .version
  | "help" => some .help
  | _ => none

/-- The flag with a one-letter name. -/
def Flag.ofLetter? : Char → Option Flag
  | 'v' => some .verbose
  | 'V' => some .version
  | 'h' => some .help
  | _ => none

/-- A part of the command line. -/
inductive Item where
  | flag (f : Flag)
  | unknown
  | operand (s : String)
  deriving DecidableEq, Repr

/-- The item of a flag, or of something that is none. -/
def Item.ofFlag : Option Flag → Item
  | some f => .flag f
  | none => .unknown

/-- The items of an argument that does not stand after `--`. A lone `-` is an operand. -/
def Item.ofArg (arg : String) : List Item :=
  match arg.toList with
  | '-' :: '-' :: name => [.ofFlag (Flag.ofName? (String.ofList name))]
  | '-' :: c :: letters => (c :: letters).map fun c => .ofFlag (Flag.ofLetter? c)
  | _ => [.operand arg]

/-- The items of a command line. -/
def Item.ofArgs : List String → List Item
  | [] => []
  | arg :: args =>
    if arg = "--" then args.map .operand else Item.ofArg arg ++ Item.ofArgs args

/-! ## Invocations -/

/-- What the command is to do with a criterion. -/
structure Invocation where
  /-- The criterion; without one it is asked for. -/
  criterion : Option String := none
  /-- Whether JSON text is put on one line. -/
  compact : Bool := false
  /-- Whether the tokens are listed instead of converted. -/
  tokens : Bool := false
  /-- Whether the quotation marks around the criterion are kept. -/
  keepQuotes : Bool := false
  /-- How much is logged. -/
  verbosity : Nat := 0
  deriving DecidableEq, Repr

/-- What the command is asked for. -/
inductive Request where
  | convert (inv : Invocation)
  | version
  | help
  | misuse
  deriving DecidableEq, Repr

/-- Takes the items after those that gave `inv`. A flag other than `verbose` may be given once,
and there is at most one operand. -/
def Request.ofItems (inv : Invocation) : List Item → Request
  | [] => .convert inv
  | .flag .compact :: items =>
    if inv.compact then .misuse else ofItems { inv with compact := true } items
  | .flag .tokens :: items =>
    if inv.tokens then .misuse else ofItems { inv with tokens := true } items
  | .flag .keepQuotes :: items =>
    if inv.keepQuotes then .misuse else ofItems { inv with keepQuotes := true } items
  | .flag .verbose :: items => ofItems { inv with verbosity := inv.verbosity + 1 } items
  | .flag .version :: _ => .version
  | .flag .help :: _ => .help
  | .unknown :: _ => .misuse
  | .operand s :: items =>
    if inv.criterion.isSome then .misuse else ofItems { inv with criterion := some s } items

/-- What a command line asks for. -/
def Request.ofArgs (args : List String) : Request := ofItems {} (Item.ofArgs args)

end Criteria.Command
