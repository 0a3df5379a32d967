import ParserKit.Word

/-!
Regions of the input, from the offset of the first character to the offset
after the last one.
-/

namespace ParserKit

structure Span where
  start : Nat
  stop : Nat
deriving DecidableEq, Repr

namespace Span

def length (span : Span) : Except Fault Nat :=
  Index.sub span.stop span.start

def isEmpty (span : Span) : Bool :=
  span.start == span.stop

end Span

end ParserKit
