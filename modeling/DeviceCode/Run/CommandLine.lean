import DeviceCode.Run.Options

/-!
# The command line

Arguments are read from left to right. Long options stand behind two dashes, their value behind an
equals sign or in the next argument; short ones stand together behind one dash, the last with its
value. An option is given at most once. Behind two dashes alone nothing is an option.
-/

namespace DeviceCode.CommandLine

/-- Choices without a value. -/
inductive Flag where
  | force | singleModule | assembly | symbols
deriving DecidableEq, Repr

/-- An option with a value. -/
inductive Setting where
  | output | outDir | split | specConstants
deriving DecidableEq, Repr

/-- What an option stands for. Help and version end the reading. -/
inductive Switch where
  | help | version
  | flag (flag : Flag)
  | setting (setting : Setting)
deriving DecidableEq, Repr

def Switch.ofLong? : String → Option Switch
  | "help" => some .help
  | "version" => some .version
  | "force" => some (.flag .force)
  | "ir-output-only" => some (.flag .singleModule)
  | "symbols" => some (.flag .symbols)
  | "output" => some (.setting .output)
  | "out-dir" => some (.setting .outDir)
  | "split" => some (.setting .split)
  | "spec-const" => some (.setting .specConstants)
  | _ => none

/-- Not every switch has a short name. -/
def Switch.ofShort? : Char → Option Switch
  | 'h' => some .help
  | 'V' => some .version
  | 'f' => some (.flag .force)
  | 'S' => some (.flag .assembly)
  | 'o' => some (.setting .output)
  | _ => none

/-- What the arguments ask for. -/
inductive Request where
  | help
  | version
  | run (options : Options)
deriving DecidableEq, Repr

/-- The arguments so far. -/
structure Given where
  input : Option String
  flags : List Flag
  settings : List (Setting × String)
deriving DecidableEq, Repr

def granularity? : String → Option Granularity
  | "source" => some .source
  | "kernel" => some .kernel
  | _ => none

def mode? : String → Option SpecConstant.Mode
  | "rt" => some .runtime
  | "default" => some .default
  | _ => none

/-- Whether a setting may have a value: a path is not empty. -/
def Setting.allows : Setting → String → Bool
  | .output, value | .outDir, value => value != ""
  | .split, value => (granularity? value).isSome
  | .specConstants, value => (mode? value).isSome

namespace Given

def nothing : Given := ⟨none, [], []⟩

/-- A flag is given at most once. -/
def addFlag (g : Given) (flag : Flag) : Option Given :=
  if flag ∈ g.flags then none else some { g with flags := flag :: g.flags }

/-- A setting is given at most once, and with a value that it allows. -/
def addSetting (g : Given) (setting : Setting) (value : String) : Option Given :=
  if setting ∈ g.settings.map (·.1) || !setting.allows value then none
  else some { g with settings := (setting, value) :: g.settings }

/-- There is at most one input, with a path that is not empty. -/
def addInput (g : Given) (path : String) : Option Given :=
  if g.input.isSome || path = "" then none else some { g with input := some path }

def value? (g : Given) (setting : Setting) : Option String :=
  (g.settings.find? (·.1 == setting)).map (·.2)

/-- The choices as they are given. Without an input, the module comes from the standard input. -/
def options (g : Given) : Options where
  input := g.input.getD "-"
  output := g.value? .output
  outDir := g.value? .outDir
  force := g.flags.contains .force
  singleModule := g.flags.contains .singleModule
  assembly := g.flags.contains .assembly
  split := (g.value? .split).bind granularity?
  symbols := g.flags.contains .symbols
  specConstants := (g.value? .specConstants).bind mode?

end Given

/-- What an argument, or a part of one, leads to. -/
inductive Step where
  | refused
  | done (request : Request)
  | next (given : Given)
  /-- The value of a setting is the next argument. -/
  | awaiting (setting : Setting) (given : Given)

def Step.ofOption : Option Given → Step
  | some g => .next g
  | none => .refused

/-- A long option, without its dashes. -/
def longOption (g : Given) (s : List Char) : Step :=
  let name := s.takeWhile (· != '=')
  let value? := match s.dropWhile (· != '=') with
    | _ :: value => some (String.ofList value)
    | [] => none
  match Switch.ofLong? (String.ofList name), value? with
  | some .help, none => .done .help
  | some .version, none => .done .version
  | some (.flag flag), none => .ofOption (g.addFlag flag)
  | some (.setting setting), none => .awaiting setting g
  | some (.setting setting), some value => .ofOption (g.addSetting setting value)
  | _, _ => .refused

/-- The value behind a short option; an equals sign in front of it is not part of it. -/
def attachedValue : List Char → String
  | '=' :: value => String.ofList value
  | value => String.ofList value

/-- Short options, without their dash. -/
def shortOptions (g : Given) : List Char → Step
  | [] => .next g
  | c :: r =>
    match Switch.ofShort? c with
    | some .help => .done .help
    | some .version => .done .version
    | some (.flag flag) =>
      match g.addFlag flag with
      | some g => shortOptions g r
      | none => .refused
    | some (.setting setting) =>
      if r = [] then .awaiting setting g else .ofOption (g.addSetting setting (attachedValue r))
    | none => .refused

/-- Whether an argument is made of options; a dash alone is a path. -/
def isOption (argument : String) : Bool :=
  match argument.toList with
  | '-' :: _ :: _ => true
  | _ => false

/-- An argument that begins with a dash is an option, unless it is the dash alone. -/
def argument (g : Given) (a : String) : Step :=
  match a.toList with
  | '-' :: '-' :: r => longOption g r
  | '-' :: c :: r => shortOptions g (c :: r)
  | _ => .ofOption (g.addInput a)

/-- The arguments behind two dashes alone. -/
def inputs (g : Given) : List String → Option Given
  | [] => some g
  | a :: as => (g.addInput a).bind (inputs · as)

/-- Reads the arguments from the one on that may be the value of the setting `awaited?`. -/
def readFrom (awaited? : Option Setting) (g : Given) : List String → Option Request
  | [] => if awaited?.isSome then none else some (.run g.options)
  | a :: as =>
    match awaited? with
    | some setting =>
      if isOption a then none
      else (g.addSetting setting a).bind fun g => readFrom none g as
    | none =>
      if a = "--" then (inputs g as).map fun g => .run g.options
      else
        match argument g a with
        | .refused => none
        | .done request => some request
        | .next g => readFrom none g as
        | .awaiting setting g => readFrom (some setting) g as

/-- What the arguments ask for; `none` if they are not understood. -/
def read (arguments : List String) : Option Request := readFrom none .nothing arguments

end DeviceCode.CommandLine
