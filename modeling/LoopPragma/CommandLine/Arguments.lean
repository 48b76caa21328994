import LoopPragma.Settings

namespace LoopPragma.CommandLine

inductive Format where
  | listing
  | json
  | stats
deriving DecidableEq

inductive Flag where
  | emitParallel
  | discardDivergent
  | coalesce
  | quiet
  | verbose
  | version
deriving DecidableEq

inductive Setting where
  | output
  | family
  | lineList
  | format
deriving DecidableEq

inductive UsageError where
  | unknown (option : String)
  | unexpectedValue (option : String)
  | missingValue (option : Setting)
  | badValue (option : Setting) (value : String)
  | repeatedFlag (option : Flag)
  | repeatedSetting (option : Setting)
  | emptyFile
  | secondFile (value : String)
  | missingFile
deriving DecidableEq

structure Request where
  input : Option String := none
  flags : List Flag := []
  output : Option String := none
  family : Option Family := none
  lineList : Option String := none
  format : Option Format := none
deriving DecidableEq

structure Options where
  input : String
  output : Option String := none
  settings : Settings := {}
  lineList : Option String := none
  format : Format := .listing
deriving DecidableEq

inductive Invocation where
  | version
  | run (options : Options)
deriving DecidableEq

def flagOfName? : String → Option Flag
  | "emit-parallel" => some .emitParallel
  | "discard-divergent" => some .discardDivergent
  | "memory-coalescing" => some .coalesce
  | "quiet" => some .quiet
  | "verbose" => some .verbose
  | "version" => some .version
  | _ => none

def settingOfName? : String → Option Setting
  | "output" => some .output
  | "emit-omp" => some .family
  | "parallel-file" => some .lineList
  | "emit" => some .format
  | _ => none

def flagOfLetter? : Char → Option Flag
  | 'q' => some .quiet
  | 'v' => some .verbose
  | 'V' => some .version
  | _ => none

def settingOfLetter? : Char → Option Setting
  | 'o' => some .output
  | _ => none

def family? (value : String) : Option Family :=
  match Family.ofName? value with
  | some family => some family
  | none =>
    match value.toList with
    | [c] => Family.ofSelector? c
    | _ => none

def format? : String → Option Format
  | "listing" => some .listing
  | "json" => some .json
  | "stats" => some .stats
  | _ => none

namespace Request

-- Only the request for more output may be repeated.
def addFlag (r : Request) (flag : Flag) : Except UsageError Request :=
  if flag ≠ .verbose ∧ flag ∈ r.flags then .error (.repeatedFlag flag)
  else .ok { r with flags := flag :: r.flags }

def fill {α : Type} (setting : Setting) (old : Option α) (read : String → Option α)
    (value : String) : Except UsageError (Option α) :=
  match old, read value with
  | some _, _ => .error (.repeatedSetting setting)
  | none, none => .error (.badValue setting value)
  | none, some a => .ok (some a)

def path? (value : String) : Option String := if value = "" then none else some value

def set (r : Request) (setting : Setting) (value : String) : Except UsageError Request := do
  match setting with
  | .output => return { r with output := ← fill setting r.output path? value }
  | .family => return { r with family := ← fill setting r.family family? value }
  | .lineList => return { r with lineList := ← fill setting r.lineList path? value }
  | .format => return { r with format := ← fill setting r.format format? value }

def setInput (r : Request) (value : String) : Except UsageError Request :=
  if r.input.isSome then .error (.secondFile value)
  else if value = "" then .error .emptyFile
  else .ok { r with input := some value }

def finish (r : Request) : Except UsageError Invocation :=
  match r.input with
  | none => .error .missingFile
  | some input => .ok (.run {
      input
      output := r.output
      settings := {
        emitParallel := .emitParallel ∈ r.flags
        family := r.family.getD .acc
        discardDivergent := .discardDivergent ∈ r.flags
        coalesce := .coalesce ∈ r.flags }
      lineList := r.lineList
      format := r.format.getD .listing })

end Request

-- Where the reading stands after one argument.
inductive Step where
  | next (r : Request)
  -- The next argument is the value of this option.
  | awaiting (r : Request) (setting : Setting)
  | version

-- An argument with two dashes in front. A value may follow the name after an equals sign.
def readLong (r : Request) (text : List Char) : Except UsageError Step :=
  let name := String.ofList (text.takeWhile (· ≠ '='))
  let value := match text.dropWhile (· ≠ '=') with
    | [] => none
    | _ :: value => some (String.ofList value)
  match settingOfName? name, flagOfName? name, value with
  | some setting, _, some value => (r.set setting value).map .next
  | some setting, _, none => .ok (.awaiting r setting)
  | none, some _, some _ => .error (.unexpectedValue name)
  | none, some .version, none => .ok .version
  | none, some flag, none => (r.addFlag flag).map .next
  | none, none, _ => .error (.unknown name)

-- Letters behind one dash. What follows the letter of an option with a value is that value.
def readLetters (r : Request) : List Char → Except UsageError Step
  | [] => .ok (.next r)
  | c :: rest =>
    match settingOfLetter? c, flagOfLetter? c with
    | some setting, _ =>
      match rest with
      | [] => .ok (.awaiting r setting)
      | '=' :: value => (r.set setting (String.ofList value)).map .next
      | value => (r.set setting (String.ofList value)).map .next
    | none, some .version => .ok .version
    | none, some flag =>
      match r.addFlag flag with
      | .error e => .error e
      | .ok r => readLetters r rest
    | none, none => .error (.unknown (String.ofList [c]))

def looksLikeOption (arg : String) : Bool :=
  match arg.toList with
  | '-' :: _ :: _ => true
  | _ => false

-- Arguments behind a lone double dash.
def readFiles (r : Request) : List String → Except UsageError Invocation
  | [] => r.finish
  | arg :: args =>
    match r.setInput arg with
    | .error e => .error e
    | .ok r => readFiles r args

-- The first argument that cannot be accepted, or that asks for the version, ends the reading.
def readFrom (r : Request) : List String → Except UsageError Invocation
  | [] => r.finish
  | arg :: args =>
    let step : Except UsageError Step := match arg.toList with
      | '-' :: '-' :: text => readLong r text
      | '-' :: c :: letters => readLetters r (c :: letters)
      | _ => (r.setInput arg).map .next
    if arg = "--" then readFiles r args
    else match step with
      | .error e => .error e
      | .ok .version => .ok .version
      | .ok (.next r) => readFrom r args
      | .ok (.awaiting r setting) =>
        match args with
        | [] => .error (.missingValue setting)
        | value :: args =>
          if looksLikeOption value then .error (.missingValue setting)
          else match r.set setting value with
            | .error e => .error e
            | .ok r => readFrom r args

def read (args : List String) : Except UsageError Invocation := readFrom {} args

end LoopPragma.CommandLine
