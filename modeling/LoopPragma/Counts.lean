import LoopPragma.Text.Decimal

namespace LoopPragma

inductive Counter where
  | loops
  -- Loops whose effects are known completely.
  | analyzableLoops
  | annotatedLoops
  | safeLoopCalls
deriving DecidableEq

structure Counts where
  loops : UInt64 := 0
  analyzableLoops : UInt64 := 0
  annotatedLoops : UInt64 := 0
  safeLoopCalls : UInt64 := 0
deriving DecidableEq

namespace Counts

def get (c : Counts) : Counter → UInt64
  | .loops => c.loops
  | .analyzableLoops => c.analyzableLoops
  | .annotatedLoops => c.annotatedLoops
  | .safeLoopCalls => c.safeLoopCalls

-- Counts only grow, and stay at the greatest 64-bit number once there.
def saturatingAdd (a b : UInt64) : UInt64 :=
  if a.toNat + b.toNat < UInt64.size then a + b else 0 - 1

def bump (c : Counts) (counter : Counter) (amount : UInt64) : Counts :=
  match counter with
  | .loops => { c with loops := saturatingAdd c.loops amount }
  | .analyzableLoops => { c with analyzableLoops := saturatingAdd c.analyzableLoops amount }
  | .annotatedLoops => { c with annotatedLoops := saturatingAdd c.annotatedLoops amount }
  | .safeLoopCalls => { c with safeLoopCalls := saturatingAdd c.safeLoopCalls amount }

def line (value : UInt64) (title : String) : String :=
  Decimal.padded 8 value.toNat ++ " " ++ title ++ "\n"

def text (c : Counts) : String :=
  line c.loops "Number of loops" ++ line c.analyzableLoops "Number of analyzable loops" ++
    line c.annotatedLoops "Number of annotated loops" ++
    line c.safeLoopCalls "Number of safe call instructions inside loops"

end Counts

end LoopPragma
