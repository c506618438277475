/-! Arguments of a command line. Options have a long name after two dashes and may have a letter after
one dash; letters may be put together. A value follows its option as the next argument, or after an
equals sign, or right after the letter; as an argument of its own it does not begin with a dash, unless
it is only that. After two dashes alone there are no more options. -/
namespace FontCatalog
set_option autoImplicit false

/-- How an option is used. -/
inductive OptionKind where
  /-- without a value, at most once -/
  | flag
  /-- without a value, any number of times -/
  | count
  /-- with a value, at most once -/
  | value
  /-- with a value, any number of times -/
  | values
  deriving DecidableEq, Repr

structure OptionRule where
  name : String
  kind : OptionKind
  letter? : Option Char := none
  /-- Which values are right. -/
  accepts : String → Bool := fun _ => true

def OptionRule.takesValue (r : OptionRule) : Bool := r.kind = .value || r.kind = .values

/-- Why no command is carried out. -/
inductive Refusal where
  | wrong
  | help
  | version
  deriving DecidableEq, Repr

/-- What the arguments of one level may be. -/
structure Level where
  options : List OptionRule
  /-- How many arguments may stand by themselves; without a number there is no limit. -/
  limit? : Option Nat := some 0
  /-- Which of these are right. -/
  accepts : String → Bool := fun _ => true
  /-- The words that lead to a level of their own. -/
  words : List String := []
  /-- Whether the version may be asked for. -/
  hasVersion : Bool := false

/-- The arguments of one level. -/
structure Arguments where
  /-- The options with their values, the last one first. -/
  options : List (String × String) := []
  /-- The other arguments, the last one first. -/
  others : List String := []
  deriving DecidableEq, Repr

namespace Arguments

def has (a : Arguments) (name : String) : Bool := a.options.any (·.1 == name)

/-- The values of an option in the order in which they were given. -/
def values (a : Arguments) (name : String) : List String :=
  ((a.options.filter (·.1 == name)).map (·.2)).reverse

def value? (a : Arguments) (name : String) : Option String := (a.values name).head?

end Arguments

/-! ## Reading -/

/-- What has been read of a level. -/
structure ArgumentReader where
  arguments : Arguments := {}
  /-- The option whose value is the next argument. -/
  pending? : Option OptionRule := none
  /-- Whether two dashes have been passed. -/
  escaped : Bool := false

namespace ArgumentReader

/-- Adds an option. -/
def add (r : ArgumentReader) (o : OptionRule) (value : String) : Except Refusal ArgumentReader :=
  let single := o.kind = .flag || o.kind = .value
  if (o.takesValue && !o.accepts value) || (single && r.arguments.has o.name) then .error .wrong
  else
    .ok { r with
      arguments := { r.arguments with options := (o.name, value) :: r.arguments.options }
      pending? := none }

/-- Adds an argument that stands by itself. -/
def addOther (l : Level) (r : ArgumentReader) (arg : String) : Except Refusal ArgumentReader :=
  if r.pending?.isSome || !l.accepts arg || l.limit?.any (· ≤ r.arguments.others.length) then
    .error .wrong
  else .ok { r with arguments := { r.arguments with others := arg :: r.arguments.others } }

/-- Reads the letters after one dash. -/
def letters (l : Level) (r : ArgumentReader) : List Char → Except Refusal ArgumentReader
  | [] => .ok r
  | c :: rest =>
    match l.options.find? (·.letter? == some c) with
    | some o =>
      if o.takesValue then
        match rest with
        | [] => .ok { r with pending? := some o }
        | '=' :: value => r.add o (String.ofList value)
        | value => r.add o (String.ofList value)
      else
        match r.add o "" with
        | .error e => .error e
        | .ok r => letters l r rest
    | none =>
      if c = 'h' then .error .help
      else if c = 'V' ∧ l.hasVersion = true then .error .version
      else .error .wrong

/-- Reads what follows two dashes: a name, and maybe an equals sign and a value. -/
def long (l : Level) (r : ArgumentReader) (text : List Char) : Except Refusal ArgumentReader :=
  let name := String.ofList (text.takeWhile (· != '='))
  let value? := match text.dropWhile (· != '=') with
    | [] => none
    | _ :: value => some (String.ofList value)
  match l.options.find? (·.name == name) with
  | some o =>
    match o.takesValue, value? with
    | true, some value => r.add o value
    | true, none => .ok { r with pending? := some o }
    | false, none => r.add o ""
    | false, some _ => .error .wrong
  | none =>
    if value?.isSome then .error .wrong
    else if name == "help" then .error .help
    else if name == "version" && l.hasVersion then .error .version
    else .error .wrong

/-- Reads one argument. -/
def read (l : Level) (r : ArgumentReader) (arg : String) : Except Refusal ArgumentReader :=
  if r.escaped then r.addOther l arg
  else
    match arg.toList with
    | ['-', '-'] => if r.pending?.isSome then .error .wrong else .ok { r with escaped := true }
    | '-' :: '-' :: text => if r.pending?.isSome then .error .wrong else r.long l text
    | '-' :: c :: rest => if r.pending?.isSome then .error .wrong else r.letters l (c :: rest)
    | _ =>
      match r.pending? with
      | some o => r.add o arg
      | none => r.addOther l arg

/-- Whether an argument is a word of the level. -/
def meetsWord (l : Level) (r : ArgumentReader) (arg : String) : Bool :=
  !r.escaped && r.pending?.isNone && l.words.contains arg

/-- Reads a level: its arguments, and the word that ends it with what follows that word. -/
def readAll (l : Level) (r : ArgumentReader) :
    List String → Except Refusal (Arguments × Option (String × List String))
  | [] => if r.pending?.isSome then .error .wrong else .ok (r.arguments, none)
  | arg :: rest =>
    if r.meetsWord l arg then .ok (r.arguments, some (arg, rest))
    else
      match r.read l arg with
      | .error e => .error e
      | .ok r => readAll l r rest

end ArgumentReader

/-- Reads the arguments of a level. -/
def Level.read (l : Level) (args : List String) :
    Except Refusal (Arguments × Option (String × List String)) :=
  ArgumentReader.readAll l {} args

end FontCatalog
