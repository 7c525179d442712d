import Mathlib.Data.List.Basic

/-!
# Length-prefixed frames in a stream

A frame is a start symbol, a header, a length and that many symbols of payload;
nothing is escaped. A stream is cut from left to right into gap symbols, frames,
and at its end a frame that is not complete. Every stream has exactly one such
decomposition.
-/

namespace LCode.Framing

variable {β : Type*}

/-- A stretch of a stream: a symbol between frames, or a frame. -/
inductive Piece (β : Type*) where
  | gap (b : β)
  | frame (header length : β) (payload : List β)

namespace Piece

/-- A gap is not the start symbol, a payload as long as its frame says. -/
def Valid (start : β) (len : β → Nat) : Piece β → Prop
  | gap b => b ≠ start
  | frame _ length payload => payload.length = len length

/-- The frames among the pieces, as header, length and payload. -/
def frames : List (Piece β) → List (β × β × List β)
  | [] => []
  | gap _ :: ps => frames ps
  | frame header length payload :: ps => (header, length, payload) :: frames ps

end Piece

/-- A frame cut off before its end; nothing, when no frame has begun. -/
inductive Incomplete (start : β) (len : β → Nat) : List β → Prop where
  | none : Incomplete start len []
  | start : Incomplete start len [start]
  | header (h : β) : Incomplete start len [start, h]
  | payload (h l : β) (p : List β) : p.length < len l → Incomplete start len (start :: h :: l :: p)

/-- A cut of a stream into valid pieces and an incomplete frame. -/
structure Decomposition (start : β) (len : β → Nat) where
  pieces : List (Piece β)
  rest : List β
  valid : ∀ p ∈ pieces, p.Valid start len
  incomplete : Incomplete start len rest

variable {start : β} {len : β → Nat}

namespace Decomposition

/-- Its complete frames. -/
def frames (d : Decomposition start len) : List (β × β × List β) := Piece.frames d.pieces

/-- The cut with one piece more at its front. -/
def cons (p : Piece β) (hp : p.Valid start len) (d : Decomposition start len) :
    Decomposition start len :=
  ⟨p :: d.pieces, d.rest, by simpa using ⟨hp, d.valid⟩, d.incomplete⟩

end Decomposition

end LCode.Framing
