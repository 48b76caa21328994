import LoopPragma.Text.Blank

namespace LoopPragma

inductive Family where
  -- OpenACC, which also has kernels and device routines.
  | acc
  -- OpenMP, compiled for a graphics processor or for the host.
  | ompGpu
  | ompCpu
deriving DecidableEq

namespace Family

def name : Family → String
  | acc => "acc"
  | ompGpu => "omp-gpu"
  | ompCpu => "omp-cpu"

def all : List Family := [acc, ompGpu, ompCpu]

def ofName? (name : String) : Option Family := all.find? (·.name = name)

def ofSelector? : Char → Option Family
  | '0' => some acc
  | '1' => some ompGpu
  | '2' => some ompCpu
  | _ => none

def hasKernels : Family → Bool
  | acc => true
  | _ => false

def loopPragma : Family → String
  | acc => "#pragma acc loop independent"
  | _ => "#pragma omp parallel for"

-- The directive in front of a parallel loop, followed by its guard unless that is blank.
def loopDirective (family : Family) (guard : String) : String :=
  let guard := Text.trim guard.toList
  if guard = [] then family.loopPragma ++ "\n"
  else family.loopPragma ++ " " ++ String.ofList guard ++ "\n"

end Family

-- The flag that a computation sets at run time when its pointers may overlap.
def overlapFlag (computation : String) : String := "RST_" ++ computation

-- The directive in front of a kernel loop. With a computation's name the loop is left to the host
-- when the flag of that computation is set.
def Family.kernelDirective? (family : Family) (restriction : Option String) : Option String :=
  if family.hasKernels then
    match restriction with
    | some name => some ("#pragma acc kernels if(!" ++ overlapFlag name ++ ")\n")
    | none => some "#pragma acc kernels\n"
  else none

theorem Family.kernelDirective?_acc (restriction : Option String) :
    acc.kernelDirective? restriction = some (match restriction with
      | some name => "#pragma acc kernels if(!RST_" ++ name ++ ")\n"
      | none => "#pragma acc kernels\n") := by
  cases restriction with
  | none => rfl
  | some name =>
    have hflag : "#pragma acc kernels if(!" ++ overlapFlag name =
        "#pragma acc kernels if(!RST_" ++ name := String.append_assoc.symm
    exact congrArg (fun text => some (text ++ ")\n")) hflag

def closingBrace : String := "\x7d\n"

end LoopPragma
