/-
The glob matcher, a port of the one of Redis: `*` tries all suffixes of what is left, down to a nesting of
1000, and once a star has used up the string the stars around it give up too.
-/
import Gopherdis.Lib.Text

namespace Gopherdis.Glob

open Lib

def lower (c : UInt8) : UInt8 := if 65 ≤ c ∧ c ≤ 90 then c + 32 else c

def sameByte (fold : Bool) (a b : UInt8) : Bool := if fold then lower a == lower b else a == b

/-- A range of a class; its ends may be in the wrong order. -/
def inRange (fold : Bool) (lo hi c : UInt8) : Bool :=
  let (lo, hi) := if hi < lo then (hi, lo) else (lo, hi)
  let (lo, hi, c) := if fold then (lower lo, lower hi, lower c) else (lo, hi, c)
  lo ≤ c && c ≤ hi

/-- The members of a class up to its closing bracket: whether `c` is one, and the bytes read. -/
def classLoop (fold : Bool) (c : UInt8) : Bytes → Bool → Nat → Bool × Nat
  | [], matched, k => (matched, k)
  | 93 :: _, matched, k => (matched, k + 1)
  | 92 :: b :: rest, matched, k => classLoop fold c rest (matched || b == c) (k + 2)
  | lo :: 45 :: hi :: rest, matched, k =>
    if hi = 93 then classLoop fold c (45 :: hi :: rest) (matched || sameByte fold lo c) (k + 1)
    else classLoop fold c rest (matched || inRange fold lo hi c) (k + 3)
  | b :: rest, matched, k => classLoop fold c rest (matched || sameByte fold b c) (k + 1)

/-- A class after its opening bracket, and its width with that. -/
def matchClass (fold : Bool) (c : UInt8) : Bytes → Bool × Nat
  | 94 :: rest =>
    let r := classLoop fold c rest false 2
    (!r.1, r.2)
  | rest => classLoop fold c rest false 1

def maxNesting : Nat := 1000

/-- What is left when the pattern or the string is used up; stars match nothing. -/
def finish (p s : Bytes) : Bool := s.isEmpty && (p.dropWhile (· == 42)).isEmpty

/-- A star before the pattern that `rest` matches. The flag is set once the string is used up. -/
def starLoop (rest : Bytes → Bool → Bool × Bool) : Bytes → Bool → Bool × Bool
  | [], _ => (false, true)
  | c :: s, skip =>
    match rest (c :: s) skip with
    | (true, skip) => (true, skip)
    | (false, true) => (false, true)
    | (false, false) => starLoop rest s false

/-- `matchImpl`, with the flag `skipLongerMatches` passed along. A turn uses up a byte of the pattern, so the
length of the pattern is enough fuel. -/
def matchImpl (fold : Bool) : Nat → Nat → Bytes → Bytes → Bool → Bool × Bool
  | 0, _, p, s, skip => (finish p s, skip)
  | _ + 1, _, [], s, skip => (finish [] s, skip)
  | _ + 1, _, p :: ps, [], skip => (finish (p :: ps) [], skip)
  | fuel + 1, nesting, p :: ps, c :: s, skip =>
    if maxNesting < nesting then (false, skip)
    else if p = 42 then
      let ps := ps.dropWhile (· == 42)
      if ps = [] then (true, skip) else starLoop (matchImpl fold fuel (nesting + 1) ps) (c :: s) skip
    else if p = 63 then matchImpl fold fuel nesting ps s skip
    else if p = 91 then
      let r := matchClass fold c ps
      if r.1 then matchImpl fold fuel nesting ((p :: ps).drop r.2) s skip else (false, skip)
    else
      -- an escaped byte stands for itself, a backslash at the end too
      let lit := if p = 92 then ps.headD 92 else p
      let ps := if p = 92 then ps.tail else ps
      if sameByte fold lit c then matchImpl fold fuel nesting ps s skip else (false, skip)

def matchBytes (p s : Bytes) (fold : Bool) : Bool := (matchImpl fold p.length 0 p s false).1

def globMatch (pattern s : Bytes) : Bool := matchBytes pattern s false

def matchFold (pattern s : Bytes) : Bool := matchBytes pattern s true

example : globMatch (ascii "k[a-c]*") (ascii "kb:1") = true := by decide

end Gopherdis.Glob
