/-! A stretch of source text, given by the byte offsets where it starts and
where it stops. -/

set_option autoImplicit false

namespace VarDoc

structure Span where
  start : Nat
  stop : Nat
  deriving DecidableEq, Repr, Inhabited

namespace Span

def merge (left right : Span) : Span :=
  ⟨min left.start right.start, max left.stop right.stop⟩

def render (span : Span) : String :=
  toString span.start ++ ".." ++ toString span.stop

end Span

end VarDoc
