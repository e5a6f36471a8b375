/-! Command-line arguments: options by name or by letter, and operands. Arguments are taken from
left to right, and the first one that is wrong or asks for help decides. -/

namespace IndexMapping.Cli

/-- What an option does. -/
inductive Action where
  /-- Switches something on, once. -/
  | flag
  /-- Takes a value, which follows the name after an equals sign or as the next argument. -/
  | value (mayBeEmpty repeatable : Bool)
  | help
  | version
  deriving DecidableEq, Repr

structure OptionForm where
  name : String
  letter : Option Char
  action : Action
  deriving DecidableEq, Repr

/-- Which arguments a program takes. -/
structure Form where
  options : List OptionForm
  /-- The least and the greatest number of operands. -/
  fewest : Nat
  most : Option Nat

inductive Item where
  | flag (name : String)
  | value (name text : String)
  | operand (text : String)
  deriving DecidableEq, Repr

/-- Why a program does not start. -/
inductive Halt where
  | misuse
  | help
  | version
  deriving DecidableEq, Repr

namespace OptionForm

def takesValue (o : OptionForm) : Bool :=
  match o.action with
  | .value _ _ => true
  | _ => false

/-- Adds an option without a value. -/
def take (o : OptionForm) (done : List Item) : Except Halt (List Item) :=
  match o.action with
  | .help => .error .help
  | .version => .error .version
  | .flag => if .flag o.name ∈ done then .error .misuse else .ok (done ++ [.flag o.name])
  | .value _ _ => .error .misuse

/-- Whether an item is a value of the option. -/
def hasValue (o : OptionForm) : Item → Bool
  | .value name _ => name = o.name
  | _ => false

/-- Adds an option with its value. -/
def takeValue (o : OptionForm) (text : String) (done : List Item) : Except Halt (List Item) :=
  match o.action with
  | .value mayBeEmpty repeatable =>
    if (text = "" && !mayBeEmpty) || (done.any o.hasValue && !repeatable) then .error .misuse
    else .ok (done ++ [.value o.name text])
  | _ => .error .misuse

end OptionForm

/-- The shape of an argument. -/
inductive Shape where
  /-- From here on there are only operands. -/
  | stop
  | named (name : String) (value : Option String)
  | letters (cs : List Char)
  | operand

/-- A name, with what follows its equals sign. -/
def splitValue (cs : List Char) : String × Option String :=
  let name := cs.takeWhile (· ≠ '=')
  (String.ofList name,
    match cs.drop name.length with
    | [] => none
    | _ :: value => some (String.ofList value))

def Shape.of (argument : String) : Shape :=
  match argument.toList with
  | ['-', '-'] => .stop
  | '-' :: '-' :: cs => let (name, value) := splitValue cs; .named name value
  | ['-'] => .operand
  | '-' :: cs => .letters cs
  | _ => .operand

/-- Whether an argument can be the value of the option before it. -/
def isValue (argument : String) : Bool :=
  match Shape.of argument with
  | .operand => true
  | _ => false

def Item.isOperand : Item → Bool
  | .operand _ => true
  | _ => false

namespace Form

def takeOperand (f : Form) (done : List Item) (text : String) : Except Halt (List Item) :=
  let full := match f.most with
    | some n => n ≤ done.countP (·.isOperand)
    | none => false
  if text = "" || full then .error .misuse else .ok (done ++ [.operand text])

/-- Adds the options whose letters follow one hyphen. What follows a letter that takes a value is
that value; if nothing follows, the option waits for it. -/
def takeLetters (f : Form) (done : List Item) : List Char →
    Except Halt (List Item × Option OptionForm)
  | [] => .ok (done, none)
  | c :: cs =>
    match f.options.find? fun o => o.letter = some c with
    | none => .error .misuse
    | some o =>
      if o.takesValue then
        match cs with
        | [] => .ok (done, some o)
        | '=' :: value => (o.takeValue (String.ofList value) done).map (·, none)
        | value => (o.takeValue (String.ofList value) done).map (·, none)
      else do
        let done ← o.take done
        takeLetters f done cs

/-- Adds an option given by its name. -/
def takeNamed (f : Form) (done : List Item) (name : String) (value : Option String) :
    Except Halt (List Item × Option OptionForm) :=
  match f.options.find? fun o => o.name = name with
  | none => .error .misuse
  | some o =>
    match value with
    | some text => (o.takeValue text done).map (·, none)
    | none => if o.takesValue then .ok (done, some o) else (o.take done).map (·, none)

/-- Adds all arguments to what is done; `waiting` is an option whose value comes next. -/
def takeAll (f : Form) (done : List Item) (waiting : Option OptionForm) :
    List String → Except Halt (List Item)
  | [] => if waiting.isSome then .error .misuse else .ok done
  | argument :: rest =>
    match waiting with
    | some o =>
      if isValue argument then do
        let done ← o.takeValue argument done
        f.takeAll done none rest
      else .error .misuse
    | none =>
      match Shape.of argument with
      | .stop => rest.foldlM f.takeOperand done
      | .named name value => do
        let (done, waiting) ← f.takeNamed done name value
        f.takeAll done waiting rest
      | .letters cs => do
        let (done, waiting) ← f.takeLetters done cs
        f.takeAll done waiting rest
      | .operand => do
        let done ← f.takeOperand done argument
        f.takeAll done none rest

/-- The items that the arguments give, in order. -/
def read (f : Form) (arguments : List String) : Except Halt (List Item) := do
  let items ← f.takeAll [] none arguments
  if items.countP (·.isOperand) < f.fewest then .error .misuse else .ok items

end Form

/-! ### Looking items up -/

def hasFlag (name : String) (items : List Item) : Bool := .flag name ∈ items

/-- The values of an option, in order. -/
def valuesOf (name : String) (items : List Item) : List String :=
  items.filterMap fun i => match i with
    | .value n text => if n = name then some text else none
    | _ => none

def operandsOf (items : List Item) : List String :=
  items.filterMap fun i => match i with
    | .operand text => some text
    | _ => none

end IndexMapping.Cli
