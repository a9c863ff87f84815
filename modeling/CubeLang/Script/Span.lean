/-!
# Spans

A span is a stretch of a text, from the offset `start` up to the offset `stop`. Offsets count
characters.
-/

set_option autoImplicit false

namespace CubeLang

/-- A stretch of a text. -/
structure Span where
  start : Int := 0
  stop : Int := 0
deriving DecidableEq

/-- The least stretch that holds two stretches. -/
def Span.join (a b : Span) : Span := ⟨min a.start b.start, max a.stop b.stop⟩

end CubeLang
