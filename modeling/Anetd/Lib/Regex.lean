/-!
# Backtracking regular expressions

Perl-style expressions over bytes: repetitions take as much as they can and
give back on failure, and the first way to match is the match. `matchAt` hands
each way to match on to a continuation; `search` is the leftmost match with
what its groups captured.
-/

namespace Lib

inductive Regex where
  | lineStart
  | chars (accepts : UInt8 → Bool)
  | seq (a b : Regex)
  | opt (a : Regex)
  | star (a : Regex)
  | group (i : Nat) (a : Regex)

namespace Regex

def plus (a : Regex) : Regex := .seq a (.star a)

def char (c : UInt8) : Regex := .chars (· == c)

/-- One expression after the other. -/
def all : List Regex → Regex
  | [] => .star (.chars fun _ => false)
  | [a] => a
  | a :: as => .seq a (all as)

/-- What the groups have captured. -/
abbrev Captures := Nat → Option (List UInt8)

/-- A position in the subject: the byte before it, and what follows. -/
structure Position where
  before : Option UInt8
  rest : List UInt8
  captures : Captures

def isSeparator (c : UInt8) : Bool := c = 10 || c = 13 || c = 12

/-- The start of the subject, or the end of a line; not within CR LF. -/
def Position.atLineStart (s : Position) : Bool :=
  match s.before with
  | none => true
  | some c => isSeparator c && !(c = 13 && s.rest.head? = some 10)

def Position.capture (s : Position) (i : Nat) (from' : List UInt8) : Position :=
  { s with captures := fun j =>
      if j = i then some (from'.take (from'.length - s.rest.length)) else s.captures j }

/-- At most so many turns of a repetition, more before fewer. A turn that
consumes nothing ends it. -/
def repeated {α : Type} (turn : (Position → Option α) → Position → Option α) :
    Nat → (Position → Option α) → Position → Option α
  | 0, next, s => next s
  | n + 1, next, s =>
    (turn (fun t => if t.rest.length < s.rest.length then repeated turn n next t else none) s).or
      (next s)

def matchAt {α : Type} : Regex → (Position → Option α) → Position → Option α
  | .lineStart, next, s => if s.atLineStart then next s else none
  | .chars accepts, next, s =>
    match s.rest with
    | [] => none
    | c :: rest => if accepts c then next { s with before := some c, rest := rest } else none
  | .seq a b, next, s => a.matchAt (b.matchAt next) s
  | .opt a, next, s => (a.matchAt next s).or (next s)
  | .star a, next, s => repeated a.matchAt s.rest.length next s
  | .group i a, next, s => a.matchAt (fun t => next (t.capture i s.rest)) s

def searchFrom (r : Regex) : Option UInt8 → List UInt8 → Option Captures
  | before, [] => r.matchAt (fun t => some t.captures) ⟨before, [], fun _ => none⟩
  | before, c :: rest =>
    (r.matchAt (fun t => some t.captures) ⟨before, c :: rest, fun _ => none⟩).or
      (searchFrom r (some c) rest)

/-- The captures of the leftmost match. -/
def search (r : Regex) (subject : List UInt8) : Option Captures := searchFrom r none subject

end Regex
end Lib
