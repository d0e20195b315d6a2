import BytecodeMutation.Pattern.Bracket

namespace BytecodeMutation.Pattern

def maxDepth : Nat := 250

def flags? (f : Flags) (value : Bool) (seen : List Char) : List Char → Option (Flags × List Char)
  | [] => none
  | c :: s =>
      if c == ':' || c == ')' then
        if seen.head? == some '-' then none else some (f, c :: s)
      else if seen.contains c then none
      else if c == '-' then flags? f false (c :: seen) s
      else match f.set? c value with
        | some f => flags? f value (c :: seen) s
        | none => none

def isNameStart (c : Char) : Bool := c == '_' || Unicode.letters.contains c

def isNameCharacter (c : Char) : Bool :=
  c == '_' || c == '.' || c == '[' || c == ']' || Unicode.lettersAndNumbers.contains c

def groupName? (s : List Char) : Option (List Char × List Char) := do
  let (name, r) ← splitAt? '>' s
  guard (name.head?.any isNameStart && (name.drop 1).all isNameCharacter)
  return (name, r)

inductive GroupHead where
  | flags (f : Flags) (rest : List Char)
  | numbered (name : Option (List Char)) (rest : List Char)
  | plain (f : Flags) (rest : List Char)
  deriving DecidableEq, Repr

def looksAround : List Char → Bool
  | '?' :: '<' :: c :: _ | '?' :: c :: _ => c == '=' || c == '!'
  | _ => false

def groupHead? (f : Flags) (s : List Char) : Option GroupHead :=
  let s := f.skip s
  if looksAround s then none
  else match s with
    | '?' :: 'P' :: '<' :: s | '?' :: '<' :: s =>
        (groupName? s).map fun (name, r) => .numbered (some name) r
    | '?' :: s => do
        match ← flags? f true [] s with
        | (inner, ':' :: r) => return .plain inner r
        | (inner, _ :: r) => if s.head? == some ')' then none else return .flags inner r
        | (_, []) => none
    | s => some (.numbered none s)

def countDigits (f : Flags) (acc : List Char) : Nat → List Char → List Char × List Char
  | n + 1, c :: s =>
      if c.isDigit then countDigits f (c :: acc) n (f.skip s) else (acc.reverse, c :: s)
  | _, s => (acc.reverse, s)

def count? (f : Flags) (s : List Char) : Option (Nat × List Char) :=
  let s := (f.skip s).dropWhile Text.isSpace
  let (digits, r) := countDigits f [] s.length s
  let n := digits.foldl (fun n c => n * 10 + (c.toNat - 48)) 0
  if digits.isEmpty || 4294967295 < n then none else some (n, r.dropWhile Text.isSpace)

def bounds? (f : Flags) (s : List Char) : Option (Nat × Option Nat × List Char) := do
  let (least, s) ← count? f s
  match s with
  | '}' :: r => return (least, some least, r)
  | ',' :: r =>
      match f.skip r with
      | '}' :: r => return (least, none, r)
      | r => do
          let (most, r) ← count? f r
          match r with
          | '}' :: r => if least ≤ most then return (least, some most, r) else none
          | _ => none
  | _ => none

def skipPreference : List Char → List Char
  | '?' :: s => s
  | s => s

structure NestedPattern where
  pattern : Pattern
  depth : Nat
  deriving DecidableEq, Repr

inductive Item where
  | pattern (p : NestedPattern)
  | flags
  deriving DecidableEq, Repr

namespace Item

def depth : Item → Nat
  | .pattern p => p.depth
  | .flags => 0

def pattern? : Item → Option Pattern
  | .pattern p => some p.pattern
  | .flags => none

end Item

structure OpenGroup where
  flags : Flags
  names : List (List Char)
  alternatives : List NestedPattern := []
  items : List Item := []
  deriving DecidableEq, Repr

namespace OpenGroup

variable (g : OpenGroup)

def add (p : Pattern) (depth : Nat) : OpenGroup :=
  { g with items := .pattern ⟨p, depth⟩ :: g.items }

def listDepth (depths : List Nat) : Nat :=
  let deepest := depths.foldl max 0
  if depths.length < 2 then deepest else deepest + 1

def alternative : NestedPattern :=
  ⟨inOrder (g.items.reverse.filterMap Item.pattern?), listDepth (g.items.map Item.depth)⟩

def next : OpenGroup := { g with alternatives := g.alternative :: g.alternatives, items := [] }

def content : NestedPattern :=
  let ps := g.next.alternatives
  ⟨oneOf (ps.reverse.map (·.pattern)), listDepth (ps.map (·.depth))⟩

def repeat? (least : Nat) (most : Option Nat) : Option OpenGroup :=
  match g.items with
  | .pattern p :: items =>
      some { g with items := .pattern ⟨p.pattern.times least most, p.depth + 1⟩ :: items }
  | _ => none

end OpenGroup

def atom? (f : Flags) : List Char → Option (Pattern × List Char)
  | '.' :: s => f.dot?.map fun set => (.chars set, s)
  | '^' :: s => some (.assertion f.startAnchor, s)
  | '$' :: s => some (.assertion f.endAnchor, s)
  | '\\' :: s => (escape? f s).map fun
      | (.literal c, r) => (.chars (f.fold (.single c)), r)
      | (.chars set, r) => (.chars set, r)
      | (.assertion a, r) => (.assertion a, r)
  | c :: s => some (.chars (f.fold (.single c)), s)
  | [] => none

def group? : Nat → Nat → OpenGroup → List Char →
    Option (NestedPattern × List (List Char) × List Char)
  | 0, _, _, _ => none
  | n + 1, levels, g, s =>
      match g.flags.skip s with
      | [] => some (g.content, g.names, [])
      | ')' :: r => some (g.content, g.names, ')' :: r)
      | '|' :: r => group? n levels g.next r
      | '?' :: r => do group? n levels (← g.repeat? 0 (some 1)) (skipPreference r)
      | '*' :: r => do group? n levels (← g.repeat? 0 none) (skipPreference r)
      | '+' :: r => do group? n levels (← g.repeat? 1 none) (skipPreference r)
      | '{' :: r => do
          let (least, most, r) ← bounds? g.flags r
          group? n levels (← g.repeat? least most) (skipPreference (g.flags.skip r))
      | '[' :: r => do
          let (s, r) ← bracketed? g.flags levels r
          group? n levels (g.add (.chars s.set) s.depth) r
      | '(' :: r => do
          match ← groupHead? g.flags r with
          | .flags f r => group? n levels { g with flags := f, items := .flags :: g.items } r
          | .plain f r =>
              guard (levels ≠ 0)
              match ← group? n (levels - 1) { flags := f, names := g.names } r with
              | (p, names, ')' :: r) =>
                  group? n levels (OpenGroup.add { g with names } p.pattern (p.depth + 1)) r
              | _ => none
          | .numbered name r =>
              guard (levels ≠ 0 ∧ !name.any g.names.contains)
              let names := name.toList ++ g.names
              match ← group? n (levels - 1) { flags := g.flags, names } r with
              | (p, names, ')' :: r) =>
                  let g := { g with names }
                  group? n levels (g.add (.group p.pattern) (p.depth + 1)) r
              | _ => none
      | s => do
          let (p, r) ← atom? g.flags s
          group? n levels (g.add p 0) r

def parse? (s : String) : Option Pattern := do
  match ← group? (s.length + 1) maxDepth { flags := {}, names := [] } s.toList with
  | (p, _, []) => if p.depth ≤ maxDepth then return p.pattern else none
  | _ => none

end BytecodeMutation.Pattern
