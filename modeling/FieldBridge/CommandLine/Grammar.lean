import FieldBridge.Configuration.Environment

/-!
# Grammar of command lines

A command has flags, operands in fixed places and commands below it. Flags that are
shared may stand at every level; of several levels that give one the deepest counts. A
line that does not follow the grammar is refused as a whole.
-/

namespace FieldBridge.CommandLine

/-- What comes with a flag. -/
inductive Arity where
  | switch
  /-- may be repeated -/
  | counter
  | value (accepts : String → Bool)
  /-- a value that may start with a dash -/
  | anyValue
  | help
  | version

structure Flag where
  name : String
  short : Option Char := none
  arity : Arity := .switch
  required : Bool := false
  /-- what cannot be given on the same level -/
  excludes : Option String := none
  /-- the variable of the environment that gives the value otherwise -/
  fallback : Option String := none

structure Operand where
  name : String
  accepts : String → Bool
  required : Bool := true

inductive Grammar where
  | node (flags : List Flag) (operands : List Operand) (commands : List (String × Grammar))

namespace Grammar

def flags : Grammar → List Flag
  | node fs _ _ => fs

def operands : Grammar → List Operand
  | node _ os _ => os

def commands : Grammar → List (String × Grammar)
  | node _ _ cs => cs

/-- The command that names lead to. -/
def below? (g : Grammar) : List String → Option Grammar
  | [] => some g
  | name :: names => (g.commands.lookup name).bind (below? · names)

end Grammar

/-- What was given on one level: flags with their values, and operands. -/
structure Given where
  flags : List (String × String) := []
  operands : List String := []

/-- Why a line gives no command to run. -/
inductive Stop where
  | refused
  | help (path : List String)
  | version (path : List String)
  deriving DecidableEq, Repr

/-- Where reading stands on a level: a flag may wait for its value, and after two dashes
there are only operands. -/
structure Reader where
  given : Given := {}
  waiting : Option Flag := none
  operandsOnly : Bool := false

/-- The names of the commands of a line, and what was given on each level. -/
structure Reading where
  path : List String
  levels : List Given

namespace Reading

/-- The value of a flag on the deepest level that gives it. -/
def flag? (r : Reading) (name : String) : Option String := r.levels.reverse.findSome? fun g => g.flags.lookup name

def has (r : Reading) (name : String) : Bool := (r.flag? name).isSome

/-- How often a flag was given on the deepest level that gives it. -/
def count (r : Reading) (name : String) : Nat :=
  ((r.levels.map fun g => g.flags.countP (·.1 == name)).reverse.find? (0 < ·)).getD 0

def operands (r : Reading) : List String := r.levels.flatMap (·.operands)

end Reading

/-! ## One level -/

/-- A level and what is known there: the names that lead to it, its grammar, and all its flags. -/
structure Scope where
  path : List String
  grammar : Grammar
  flags : List Flag

namespace Scope

def named? (l : Scope) (name : String) : Option Flag := l.flags.find? (·.name == name)

def short? (l : Scope) (c : Char) : Option Flag := l.flags.find? (·.short == some c)

def record (given : Given) (f : Flag) (value : String) : Given :=
  { given with flags := given.flags ++ [(f.name, value)] }

/-- A flag with a value, at most once on a level. -/
def take (given : Given) (f : Flag) (value : String) : Except Stop Given :=
  let accepted := match f.arity with
    | .value accepts => accepts value
    | .anyValue => true
    | _ => false
  if accepted && (given.flags.lookup f.name).isNone then .ok (record given f value) else .error .refused

/-- A flag without a value. -/
def raise (l : Scope) (given : Given) (f : Flag) : Except Stop Given :=
  match f.arity with
  | .counter => .ok (record given f "")
  | .switch => if (given.flags.lookup f.name).isNone then .ok (record given f "") else .error .refused
  | .help => .error (.help l.path)
  | .version => .error (.version l.path)
  | .value _ | .anyValue => .error .refused

def takesValue (f : Flag) : Bool :=
  match f.arity with
  | .value _ | .anyValue => true
  | _ => false

/-- A flag by its name, with a value after an equals sign or in the next argument. -/
def long (l : Scope) (p : Reader) (cs : List Char) : Except Stop Reader := do
  let name := String.ofList (cs.takeWhile (· != '='))
  match l.named? name, cs.dropWhile (· != '=') with
  | none, _ => .error .refused
  | some f, '=' :: value => .ok { p with given := ← take p.given f (String.ofList value) }
  | some f, _ =>
    if takesValue f then .ok { p with waiting := some f } else .ok { p with given := ← l.raise p.given f }

def afterEquals : List Char → List Char
  | '=' :: cs => cs
  | cs => cs

/-- Flags by their letters, the last of which may have its value right behind it. -/
def cluster (l : Scope) (p : Reader) : List Char → Except Stop Reader
  | [] => .ok p
  | c :: cs =>
    match l.short? c with
    | none => .error .refused
    | some f =>
      if takesValue f then
        if cs.isEmpty then .ok { p with waiting := some f }
        else do .ok { p with given := ← take p.given f (String.ofList (afterEquals cs)) }
      else
        match l.raise p.given f with
        | .ok given => cluster l { p with given := given } cs
        | .error e => .error e

def operand (l : Scope) (p : Reader) (arg : String) : Except Stop Reader :=
  match l.grammar.operands[p.given.operands.length]? with
  | some o =>
    if o.accepts arg then .ok { p with given := { p.given with operands := p.given.operands ++ [arg] } }
    else .error .refused
  | none => .error .refused

def settle (p : Reader) (f : Flag) (arg : String) : Except Stop Reader := do
  .ok { p with given := ← take p.given f arg, waiting := none }

/-- Reads an argument that is no command. -/
def read (l : Scope) (p : Reader) (arg : String) : Except Stop Reader :=
  if p.operandsOnly then l.operand p arg
  else
    match p.waiting, arg.toList with
    | some f, cs =>
      match f.arity, cs with
      | .anyValue, _ => settle p f arg
      | _, '-' :: _ :: _ => .error .refused
      | _, _ => settle p f arg
    | none, ['-', '-'] => .ok { p with operandsOnly := true }
    | none, '-' :: '-' :: cs => l.long p cs
    | none, '-' :: c :: cs => l.cluster p (c :: cs)
    | none, _ => l.operand p arg

/-- The command that an argument names. -/
def command? (l : Scope) (p : Reader) (arg : String) : Option Grammar :=
  if p.operandsOnly || p.waiting.isSome then none else l.grammar.commands.lookup arg

def names (l : Scope) (given : Given) (name : String) : Bool :=
  (given.flags.lookup name).isSome || (l.grammar.operands.take given.operands.length).any (·.name == name)

/-- Whether a variable stands in for a flag with a value that it cannot have. -/
def isMisled (e : Environment) (given : Given) (f : Flag) : Bool :=
  match f.fallback.bind e.get?, f.arity with
  | some value, .value accepts => (given.flags.lookup f.name).isNone && !accepts value
  | _, _ => false

/-- What was given on a level, once all of it is read. -/
def close (l : Scope) (e : Environment) (p : Reader) : Except Stop Given :=
  let given := p.given
  let missing := l.flags.any (fun f => f.required && (given.flags.lookup f.name).isNone) ||
    (l.grammar.operands.drop given.operands.length).any (·.required)
  let clashing := l.flags.any fun f => (given.flags.lookup f.name).isSome && f.excludes.any (l.names given)
  if p.waiting.isSome || l.flags.any (isMisled e given) || missing || clashing then .error .refused else .ok given

end Scope

/-! ## All levels -/

/-- Reads a line from a place on a level. Where there are commands, one has to be given. -/
def parseFrom (e : Environment) (shared : List Flag) (path : List String) (g : Grammar) (p : Reader) :
    List String → Except Stop Reading
  | [] => do
    let given ← Scope.close ⟨path, g, g.flags ++ shared⟩ e p
    if g.commands.isEmpty then .ok ⟨path, [given]⟩ else .error .refused
  | arg :: rest =>
    let l : Scope := ⟨path, g, g.flags ++ shared⟩
    match l.command? p arg with
    | some sub => do
      let deeper ← parseFrom e shared (path ++ [arg]) sub {} rest
      .ok ⟨deeper.path, (← l.close e p) :: deeper.levels⟩
    | none =>
      if arg = "help" && !g.commands.isEmpty && !p.operandsOnly && p.waiting.isNone then
        .error (if (g.below? rest).isSome then .help (path ++ rest) else .refused)
      else do parseFrom e shared path g (← l.read p arg) rest

def parse (e : Environment) (shared : List Flag) (g : Grammar) (args : List String) : Except Stop Reading :=
  parseFrom e shared [] g {} args

end FieldBridge.CommandLine
